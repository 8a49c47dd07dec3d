import Mathlib.Algebra.Group.Nat.Defs
import Mathlib.Data.List.Basic
import LayerCake.Effects.Program
import LayerCake.Meowix.Errors

/-
  The helpers of `meowix/src/util.rs` that the modelled code calls: bytes as C
  strings in a bounded buffer, and the repeated reads and writes of
  `FdReadWriteExt`.

  Correspondence (Rust ↔ Lean):
    `PATH_COMPONENT_MAX`, `PATH_MAX`      ↔ `PATH_COMPONENT_MAX`, `PATH_MAX`
    `compute_decimal_digits_u128`, …      ↔ `computeDecimalDigitsU128`, …
    `WithCStr::with_c_str::<N>` on bytes  ↔ `withCStr`
    `from_bytes_with_nul_unchecked`       ↔ `cStrFromBytesWithNul`
    `itoa::Buffer::format`                ↔ `Itoa.format`, a parameter
    the `?` on a system call              ↔ `tryCall`
    `FdReadWriteExt::read_until_full`     ↔ `readUntilFull`
    `FdReadWriteExt::read_array::<N>`     ↔ `readArray`
    `FdReadWriteExt::write_until_stalled` ↔ `writeUntilStalled`
    `FdReadWriteExt::write_all`           ↔ `writeAll`

  The loops are programs over any interface that has the one call they repeat,
  given as the program that makes that call until it is not interrupted.
-/

namespace LayerCake.Meowix

open Effects

abbrev Bytes := List UInt8

/-- The bytes of an ASCII literal. -/
def ascii (s : String) : Bytes := s.toList.map fun c => c.toNat.toUInt8

/-- `fd::RawFd`. -/
abbrev RawFd := Int32

/-- `NAME_MAX + 1`. -/
def PATH_COMPONENT_MAX : Nat := 256

/-- `PATH_MAX`. -/
def PATH_MAX : Nat := 4096

/-- The bytes of the C string that `with_c_str::<N>` hands to its closure: they
must leave room for the terminator and hold no null byte. -/
def withCStr (N : Nat) (bytes : Bytes) : Except WithCStrError Bytes :=
  if bytes.length < N then
    if (0 : UInt8) ∈ bytes then .error .fromBytesWithNulError else .ok bytes
  else .error .cStrBufferTooSmall

theorem withCStr_eq_ok {N : Nat} {bytes c : Bytes} (h : withCStr N bytes = .ok c) :
    c = bytes ∧ bytes.length < N ∧ (0 : UInt8) ∉ bytes := by
  unfold withCStr at h
  split at h
  · next hlen =>
    split at h
    · cases h
    · next hnul =>
      cases h
      exact ⟨rfl, hlen, hnul⟩
  · cases h

theorem withCStr_of_fits {N : Nat} {bytes : Bytes} (hlen : bytes.length < N)
    (hnul : (0 : UInt8) ∉ bytes) : withCStr N bytes = .ok bytes := by
  unfold withCStr
  rw [if_pos hlen, if_neg hnul]

/-- `CStr::from_bytes_with_nul_unchecked`, which is undefined where the checked one fails. -/
def cStrFromBytesWithNul (bytes : Bytes) : Option Bytes :=
  if bytes.getLast? = some 0 ∧ (0 : UInt8) ∉ bytes.dropLast then some bytes.dropLast else none

theorem cStrFromBytesWithNul_concat {bytes : Bytes} (h : (0 : UInt8) ∉ bytes) :
    cStrFromBytesWithNul (bytes ++ [0]) = some bytes := by
  simp [cStrFromBytesWithNul, h]

/-- `itoa::Buffer::format`, of a number of any of its integer types. -/
class Itoa where
  format : Int → Bytes

/-- The decimal text of a number. -/
def decimal (n : Nat) : Bytes := (Nat.toDigits 10 n).map fun c => c.toNat.toUInt8

/-- The decimal text of an integer. -/
def signedDecimal : Int → Bytes
  | .ofNat n => decimal n
  | .negSucc n => 45 :: decimal (n + 1)

/-- `itoa` prints decimal texts, at every width from `i8` to `u128`. -/
class LawfulItoa [Itoa] : Prop where
  format_eq : ∀ z : Int, -0x80000000000000000000000000000000 ≤ z →
    z < 0x100000000000000000000000000000000 → Itoa.format z = signedDecimal z

/-- An `itoa` that does. -/
@[reducible] def Itoa.decimal : Itoa := ⟨signedDecimal⟩

theorem Itoa.decimal_lawful : @LawfulItoa Itoa.decimal :=
  @LawfulItoa.mk Itoa.decimal fun _ _ _ => rfl

theorem decimal_no_nul (n : Nat) : (0 : UInt8) ∉ decimal n := by
  intro h
  obtain ⟨c, hc, hzero⟩ := List.mem_map.mp h
  have hdigit : c.isDigit := Nat.isDigit_of_mem_toDigits (by decide) (by decide) hc
  have hc' : 48 ≤ c.toNat ∧ c.toNat ≤ 57 := by
    simpa [Char.isDigit, UInt32.le_iff_toNat_le] using hdigit
  have := congrArg UInt8.toNat hzero
  rw [UInt8.toNat_ofNat'] at this
  simp only [UInt8.toNat_zero] at this
  omega

section Lawful
variable [Itoa] [LawfulItoa]

/-- A lawful `itoa`, on the unsigned types and on the signed ones. -/
theorem format_natCast {n : Nat} (h : n < 2 ^ 128) : Itoa.format n = decimal n :=
  LawfulItoa.format_eq n (by omega) (by omega)

theorem format_int64 (z : Int64) : Itoa.format z.toInt = signedDecimal z.toInt := by
  have hlo := z.le_toInt
  have hhi := z.toInt_lt
  exact LawfulItoa.format_eq _ (by omega) (by omega)

theorem format_uint64 (n : UInt64) : Itoa.format n.toNat = decimal n.toNat :=
  format_natCast (Nat.lt_trans n.toNat_lt (by decide))

theorem format_uint32 (n : UInt32) : Itoa.format n.toNat = decimal n.toNat :=
  format_natCast (Nat.lt_trans n.toNat_lt (by decide))

end Lawful

/-- The value of a decimal digit. -/
def digitValue (b : UInt8) : Option Nat := if 48 ≤ b ∧ b ≤ 57 then some (b.toNat - 48) else none

/-- The loop of `compute_decimal_digits_u128`, once it has counted `digits`. -/
def computeDecimalDigitsFrom (n digits : Nat) : Nat :=
  if _h : 10 ≤ n then computeDecimalDigitsFrom (n / 10) (digits + 1) else digits
termination_by n
decreasing_by omega

/-- `compute_decimal_digits_u128`. -/
def computeDecimalDigitsU128 (n : Nat) : Nat := computeDecimalDigitsFrom n 1

/-- `unsigned_decimal_digits_upper_bound`, of a type of `size` bytes. -/
def unsignedDecimalDigitsUpperBound (size : Nat) : Nat :=
  computeDecimalDigitsU128 ((2 ^ 128 - 1) >>> (128 - size * 8))

/-- `signed_decimal_digits_upper_bound`, of a type of `size` bytes. -/
def signedDecimalDigitsUpperBound (size : Nat) : Nat :=
  computeDecimalDigitsU128 (1 <<< (size * 8 - 1)) + 1

section Calls
variable {I : Interface} {σ α ε : Type} {K : Kernel I σ}

/-- The `?` on a system call: its error is tagged and converted. -/
def tryCall (into : SyscallError → ε) (syscall : Syscall) (call : Prog I (Except Errno α)) :
    ExceptT ε (Prog I) α :=
  ExceptT.mk do
    match ← call with
    | .ok a => return .ok a
    | .error e => return .error (into ⟨syscall, e⟩)

theorem sat_tryCall {R G : σ → σ → Prop} {into : SyscallError → ε} {syscall : Syscall}
    {call : Prog I (Except Errno α)} {Q : Except ε α → σ → Prop} {s : σ}
    (h : Sat K R G call (fun r t => match r with
      | .ok a => Sat K R G (.done (.ok a)) Q t
      | .error e => Sat K R G (.done (.error (into ⟨syscall, e⟩))) Q t) s) :
    Sat K R G (tryCall into syscall call).run Q s := by
  refine Sat.bind (h.mono fun r t hr => ?_)
  cases r with
  | ok a => exact hr
  | error e => exact hr

end Calls

section Transfers
variable {I : Interface}

/-- The loop of `read_array`, once it holds the bytes `buf`. -/
def readArrayFrom (read : Nat → Prog I (Except Errno Bytes)) (N : Nat) (buf : Bytes) :
    Prog I (Except PartialTransfer Bytes) :=
  if _h : buf.length < N then do
    match ← read (N - buf.length) with
    | .ok bytes =>
      if _hb : bytes.length = 0 then return .error ⟨buf.length, none⟩
      else readArrayFrom read N (buf ++ bytes)
    | .error e => return .error ⟨buf.length, some ⟨.read, e⟩⟩
  else return .ok buf
termination_by N - buf.length
decreasing_by
  rw [List.length_append]
  omega

/-- The loop makes no call of its own. -/
theorem readArrayFrom_calls {P : I.Op → Prop} {read : Nat → Prog I (Except Errno Bytes)}
    (hread : ∀ len, (read len).Calls P) (N n : Nat) (buf : Bytes) (hn : N - buf.length = n) :
    (readArrayFrom read N buf).Calls P := by
  induction n using Nat.strongRecOn generalizing buf with
  | ind n ih =>
    rw [readArrayFrom]
    split
    · apply (hread _).bind
      intro r
      cases r with
      | error e => trivial
      | ok bytes =>
        dsimp only
        split
        · trivial
        · exact ih (N - (buf ++ bytes).length) (by rw [List.length_append]; omega) _ rfl
    · trivial

/-- `read_array::<N>`. -/
def readArray (read : Nat → Prog I (Except Errno Bytes)) (N : Nat) :
    Prog I (Except PartialTransfer Bytes) :=
  readArrayFrom read N []

/-- The loop of `read_until_full` with a buffer of `N` bytes, once it holds the bytes
`buf`: what the buffer holds at the end, and the error that stopped it. -/
def readUntilFullFrom (read : Nat → Prog I (Except Errno Bytes)) (N : Nat) (buf : Bytes) :
    Prog I (Bytes × Option PartialTransfer) :=
  if _h : buf.length < N then do
    match ← read (N - buf.length) with
    | .ok bytes =>
      if _hb : bytes.length = 0 then return (buf, none)
      else readUntilFullFrom read N (buf ++ bytes)
    | .error e => return (buf, some ⟨buf.length, some ⟨.read, e⟩⟩)
  else return (buf, none)
termination_by N - buf.length
decreasing_by
  rw [List.length_append]
  omega

/-- `read_until_full`. -/
def readUntilFull (read : Nat → Prog I (Except Errno Bytes)) (N : Nat) :
    Prog I (Bytes × Option PartialTransfer) :=
  readUntilFullFrom read N []

/-- The loop of `write_until_stalled`, once `i` bytes of `buf` are written. -/
def writeUntilStalledFrom (write : Bytes → Prog I (Except Errno Nat)) (buf : Bytes) (i : Nat) :
    Prog I (Except PartialTransfer Nat) :=
  if _h : i < buf.length then do
    match ← write (buf.drop i) with
    | .ok n => if _hn : n = 0 then return .ok i else writeUntilStalledFrom write buf (i + n)
    | .error e => return .error ⟨i, some ⟨.write, e⟩⟩
  else return .ok i
termination_by buf.length - i

/-- The loop makes no call of its own. -/
theorem writeUntilStalledFrom_calls {P : I.Op → Prop} {write : Bytes → Prog I (Except Errno Nat)}
    (hwrite : ∀ bytes, (write bytes).Calls P) (buf : Bytes) (n i : Nat) (hn : buf.length - i = n) :
    (writeUntilStalledFrom write buf i).Calls P := by
  induction n using Nat.strongRecOn generalizing i with
  | ind n ih =>
    rw [writeUntilStalledFrom]
    split
    · apply (hwrite _).bind
      intro r
      cases r with
      | error e => trivial
      | ok k =>
        dsimp only
        split
        · trivial
        · exact ih (buf.length - (i + k)) (by omega) _ rfl
    · trivial

/-- `write_until_stalled`. -/
def writeUntilStalled (write : Bytes → Prog I (Except Errno Nat)) (buf : Bytes) :
    Prog I (Except PartialTransfer Nat) :=
  writeUntilStalledFrom write buf 0

/-- `write_all`. -/
def writeAll (write : Bytes → Prog I (Except Errno Nat)) (buf : Bytes) :
    Prog I (Except PartialTransfer Unit) := do
  match ← writeUntilStalled write buf with
  | .ok transferred =>
    if transferred < buf.length then return .error ⟨transferred, none⟩ else return .ok ()
  | .error e => return .error e

theorem writeAll_calls {P : I.Op → Prop} {write : Bytes → Prog I (Except Errno Nat)}
    (hwrite : ∀ bytes, (write bytes).Calls P) (buf : Bytes) : (writeAll write buf).Calls P := by
  apply (writeUntilStalledFrom_calls hwrite buf _ 0 rfl).bind
  intro r
  cases r with
  | error e => trivial
  | ok transferred =>
    show Prog.Calls P (if transferred < buf.length then _ else _)
    split
    · trivial
    · trivial

end Transfers

end LayerCake.Meowix
