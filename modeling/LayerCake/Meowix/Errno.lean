import Mathlib.Data.Nat.Notation

/-
  `errno(3)`, as `meowix/src/errno.rs` stores it: the negated error number in a
  `u16` whose pattern type admits `0xf001..=0xffff` only.

  Correspondence (Rust ↔ Lean):
    `Errno`                    ↔ `Errno` (the pattern type is the field `valid`)
    `Errno::raw_os_error`      ↔ `Errno.rawOsError`
    `Errno::from_errno`        ↔ `Errno.fromErrno`
    `Errno::from_raw_os_error` ↔ `Errno.fromRawOsError`
    `Errno::INTR`, …           ↔ `Errno.INTR`, … (the ones the model's code tests)

  What is proved: an `Errno` is its error number (`fromRawOsError_rawOsError`),
  the number is in `1..=4095` (`rawOsError_range`), and exactly those numbers
  are accepted (`fromRawOsError_isSome`).
-/

namespace LayerCake.Meowix

/-- Error value reported by the kernel, stored negated. -/
structure Errno where
  raw : UInt16
  valid : 0xf001 ≤ raw
  deriving DecidableEq, Repr

namespace Errno

/-- The Linux error number: `(self.into_u16() as i16 as i32).wrapping_neg()`. -/
def rawOsError (e : Errno) : Int32 := -e.raw.toInt16.toInt32

theorem wrapping_neg_valid {raw : UInt32} (h : 1 ≤ raw ∧ raw ≤ 4095) :
    0xf001 ≤ (-raw).toUInt16 := by
  have h1 : 1 ≤ raw.toNat := by simpa [UInt32.le_iff_toNat_le] using h.1
  have h2 : raw.toNat ≤ 4095 := by simpa [UInt32.le_iff_toNat_le] using h.2
  rw [UInt16.le_iff_toNat_le, UInt32.toNat_toUInt16, UInt32.toNat_neg]
  simp only [UInt32.size, UInt16.toNat_ofNat]
  omega

/-- Construct an errno from a Linux error number held in a `u32`. -/
def fromErrno (raw : UInt32) : Option Errno :=
  if h : 1 ≤ raw ∧ raw ≤ 4095 then some ⟨(-raw).toUInt16, wrapping_neg_valid h⟩ else none

/-- Construct an errno from a Linux error number. -/
def fromRawOsError (raw : Int32) : Option Errno := fromErrno raw.toUInt32

/-- `EINTR`. -/
def INTR : Errno := ⟨0xfffc, by decide⟩
/-- `ENOENT`. -/
def NOENT : Errno := ⟨0xfffe, by decide⟩
/-- `EEXIST`. -/
def EXIST : Errno := ⟨0xffef, by decide⟩
/-- `EINVAL`. -/
def INVAL : Errno := ⟨0xffea, by decide⟩
/-- `EPERM`. -/
def PERM : Errno := ⟨0xffff, by decide⟩
/-- `ESRCH`. -/
def SRCH : Errno := ⟨0xfffd, by decide⟩
/-- `EAGAIN`. -/
def AGAIN : Errno := ⟨0xfff5, by decide⟩
/-- `EBADF`. -/
def BADF : Errno := ⟨0xfff7, by decide⟩
/-- `ENOTDIR`. -/
def NOTDIR : Errno := ⟨0xffec, by decide⟩
/-- `ELOOP`. -/
def LOOP : Errno := ⟨0xffd8, by decide⟩
/-- `ENAMETOOLONG`. -/
def NAMETOOLONG : Errno := ⟨0xffdc, by decide⟩
/-- `ENODEV`. -/
def NODEV : Errno := ⟨0xffed, by decide⟩
/-- `EAFNOSUPPORT`. -/
def AFNOSUPPORT : Errno := ⟨0xff9f, by decide⟩

/-- The constants are the error numbers of the Linux ABI. -/
example : [INTR, NOENT, EXIST, INVAL, PERM, SRCH, AGAIN, BADF, NOTDIR, LOOP, NAMETOOLONG,
    NODEV, AFNOSUPPORT].map rawOsError = [4, 2, 17, 22, 1, 3, 11, 9, 20, 40, 36, 19, 97] := by
  decide

theorem raw_toNat_ge (e : Errno) : 0xf001 ≤ e.raw.toNat := by
  simpa [UInt16.le_iff_toNat_le] using e.valid

/-- Widened to 32 bits and negated, the stored value is the error number. -/
theorem rawOsError_toNat (e : Errno) : e.rawOsError.toUInt32.toNat = 0x10000 - e.raw.toNat := by
  have hlo := e.raw_toNat_ge
  have hhi : e.raw.toNat < 65536 := e.raw.toNat_lt
  show (-(e.raw.toBitVec.signExtend 32)).toNat = _
  have hmsb : e.raw.toBitVec.msb = true := by
    rw [BitVec.msb_eq_decide]
    simp only [UInt16.toNat_toBitVec]
    exact decide_eq_true (by omega)
  rw [BitVec.toNat_neg, BitVec.toNat_signExtend, BitVec.toNat_setWidth]
  simp only [hmsb, if_true, UInt16.toNat_toBitVec]
  omega

/-- Every errno is an error number in `1..=4095`. -/
theorem rawOsError_range (e : Errno) :
    1 ≤ e.rawOsError.toUInt32.toNat ∧ e.rawOsError.toUInt32.toNat ≤ 4095 := by
  have hlo := e.raw_toNat_ge
  have hhi : e.raw.toNat < 65536 := e.raw.toNat_lt
  rw [rawOsError_toNat]
  omega

/-- An errno is read back from its error number. -/
theorem fromRawOsError_rawOsError (e : Errno) : fromRawOsError e.rawOsError = some e := by
  obtain ⟨h1, h2⟩ := e.rawOsError_range
  have hlo := e.raw_toNat_ge
  have hhi : e.raw.toNat < 65536 := e.raw.toNat_lt
  have hrange : 1 ≤ e.rawOsError.toUInt32 ∧ e.rawOsError.toUInt32 ≤ 4095 := by
    constructor
    · simpa [UInt32.le_iff_toNat_le] using h1
    · simpa [UInt32.le_iff_toNat_le] using h2
  have hraw : (-e.rawOsError.toUInt32).toUInt16 = e.raw := by
    apply UInt16.toNat_inj.mp
    rw [UInt32.toNat_toUInt16, UInt32.toNat_neg, rawOsError_toNat]
    simp only [UInt32.size]
    omega
  unfold fromRawOsError fromErrno
  rw [dif_pos hrange]
  congr

/-- Exactly the numbers in `1..=4095` are errnos. -/
theorem fromRawOsError_isSome (raw : Int32) :
    (fromRawOsError raw).isSome = true ↔ 1 ≤ raw.toUInt32 ∧ raw.toUInt32 ≤ 4095 := by
  unfold fromRawOsError fromErrno
  split
  · next h => simp [h]
  · next h => simp [h]

/-- Distinct errnos have distinct error numbers. -/
theorem rawOsError_injective {e e' : Errno} (h : e.rawOsError = e'.rawOsError) : e = e' := by
  have := fromRawOsError_rawOsError e
  rw [h, fromRawOsError_rawOsError e', Option.some.injEq] at this
  exact this.symm

end Errno

end LayerCake.Meowix
