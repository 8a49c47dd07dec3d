import LayerCake.Effects.Loads
import LayerCake.Meowix.Util

/-
  Directory records (`getdents64_raw` and `next_dirent` in `meowix/src/syscalls.rs`).

  Correspondence (Rust ↔ Lean):
    `linux_dirent64` read through a reference ↔ `LinuxDirent64.read`
    `<*const u8>::align_offset`               ↔ `alignOffset`
    `CStr::from_ptr`                          ↔ `cStrFromPtr`
    `getdents64_raw`                          ↔ `getdents64Raw`
    `next_dirent`                             ↔ `nextDirent`
    the debug assertion of `next_dirent`      ↔ `Contained`
  The assertions are not part of the functions: a caller in a build with them tests
  `Contained` itself. Where a buffer lies in memory is answered by whoever placed it
  (`address`).

  What is proved: on memory that holds a record at the offset, `next_dirent` returns
  the record's name and moves behind it (`nextDirent_record`).
-/

namespace LayerCake.Meowix

open Effects

/-! ## Records -/

/-- `size_of::<linux_dirent64>()`. -/
def sizeOfLinuxDirent64 : Nat := 24

/-- `align_of::<linux_dirent64>()`. -/
def alignOfLinuxDirent64 : Nat := 8

/-- Where `d_name` starts. -/
def offsetOfDName : Nat := 19

/-- `linux_dirent64` but for its name. -/
structure LinuxDirent64 where
  dIno : UInt64
  dOff : Int64
  dReclen : UInt16
  dType : UInt8
  deriving DecidableEq, Repr

def LinuxDirent64.read (e : Endian) (bytes : Bytes) : LinuxDirent64 where
  dIno := .ofNat (e.value (slice bytes ⟨0, 8⟩))
  dOff := (UInt64.ofNat (e.value (slice bytes ⟨8, 8⟩))).toInt64
  dReclen := .ofNat (e.value (slice bytes ⟨16, 2⟩))
  dType := .ofNat (e.value (slice bytes ⟨18, 1⟩))

/-- `CStr::from_ptr` on memory of which `bytes` is known: it has no meaning where they
hold no terminator. -/
def cStrFromPtr (bytes : Bytes) : Option Bytes :=
  if (0 : UInt8) ∈ bytes then some (bytes.takeWhile (· ≠ 0)) else none

/-- `next_dirent`: the record at the offset with its name, if there is one, and the next
offset. Undefined where it reads outside `dirp`. -/
def nextDirent (e : Endian) (dirp : Bytes) (nBytes offset : Nat) :
    Option (Option (LinuxDirent64 × Bytes) × Nat) :=
  if nBytes ≤ offset then some (none, offset)
  else if dirp.length < offset + sizeOfLinuxDirent64 then none
  else do
    let output := LinuxDirent64.read e (slice dirp ⟨offset, sizeOfLinuxDirent64⟩)
    let name ← cStrFromPtr (dirp.drop (offset + offsetOfDName))
    return (some (output, name), offset + output.dReclen.toNat)

/-- What the debug assertion of `next_dirent` tests, where it tests it: the record at the
offset lies in the first `nBytes` bytes. -/
def Contained (e : Endian) (dirp : Bytes) (nBytes offset : Nat) : Prop :=
  offset < nBytes →
    offset +
      (LinuxDirent64.read e (slice dirp ⟨offset, sizeOfLinuxDirent64⟩)).dReclen.toNat ≤ nBytes

instance (e : Endian) (dirp : Bytes) (nBytes offset : Nat) :
    Decidable (Contained e dirp nBytes offset) :=
  inferInstanceAs (Decidable (_ → _))

/-! ## What the kernel writes -/

/-- A record as `getdents64` writes it: a multiple of eight bytes, at least the size of
the structure, with its own length and a terminated name. -/
structure Record (e : Endian) where
  bytes : Bytes
  name : Bytes
  aligned : 8 ∣ bytes.length
  large : sizeOfLinuxDirent64 ≤ bytes.length
  reclen : (LinuxDirent64.read e bytes).dReclen.toNat = bytes.length
  named : ∃ rest, bytes.drop offsetOfDName = name ++ 0 :: rest
  terminated : (0 : UInt8) ∉ name

/-- The bytes of records one after another. -/
def contents {e : Endian} (records : List (Record e)) : Bytes := records.flatMap Record.bytes

section Contents
variable {e : Endian}

@[simp] theorem contents_append (records records' : List (Record e)) :
    contents (records ++ records') = contents records ++ contents records' :=
  List.flatMap_append

@[simp] theorem contents_cons (record : Record e) (records : List (Record e)) :
    contents (record :: records) = record.bytes ++ contents records := rfl

@[simp] theorem contents_nil : contents ([] : List (Record e)) = [] := rfl

theorem lt_contents_length {records : List (Record e)} (h : records ≠ []) :
    sizeOfLinuxDirent64 ≤ (contents records).length := by
  cases records with
  | nil => exact absurd rfl h
  | cons record records =>
    have := record.large
    simp only [contents_cons, List.length_append]
    omega

end Contents

theorem cStrFromPtr_eq {name rest : Bytes} (h : (0 : UInt8) ∉ name) :
    cStrFromPtr (name ++ 0 :: rest) = some name := by
  unfold cStrFromPtr
  rw [if_pos (by simp), List.takeWhile_append_of_pos]
  · simp
  · intro b hb
    have : b ≠ 0 := fun heq => h (heq ▸ hb)
    simp [this]

/-- The structure at the start of a record, wherever the record lies. -/
theorem LinuxDirent64.read_record {e : Endian} (record : Record e) (before after : Bytes) :
    read e (slice (before ++ (record.bytes ++ after)) ⟨before.length, sizeOfLinuxDirent64⟩) =
      read e record.bytes := by
  have hlarge := record.large
  have hfield : ∀ o n, o + n ≤ sizeOfLinuxDirent64 →
      slice (slice (before ++ (record.bytes ++ after)) ⟨before.length, sizeOfLinuxDirent64⟩)
        ⟨o, n⟩ = slice record.bytes ⟨o, n⟩ := by
    intro o n h
    have hwithin : Load.Within record.bytes.length ⟨o, n⟩ := Nat.le_trans h hlarge
    calc slice (slice (before ++ (record.bytes ++ after))
          ⟨before.length, sizeOfLinuxDirent64⟩) ⟨o, n⟩
        = slice (before ++ (record.bytes ++ after)) ⟨before.length + o, n⟩ := slice_slice _ h
      _ = slice (record.bytes ++ after) ⟨o, n⟩ := slice_behind before _ ⟨o, n⟩
      _ = slice record.bytes ⟨o, n⟩ := slice_append hwithin after
  unfold read
  rw [hfield 0 8 (by decide), hfield 8 8 (by decide), hfield 16 2 (by decide),
    hfield 18 1 (by decide)]

/-- The name of a record, wherever the record lies. -/
theorem cStrFromPtr_record {e : Endian} (record : Record e) (before after : Bytes) :
    cStrFromPtr ((before ++ (record.bytes ++ after)).drop (before.length + offsetOfDName)) =
      some record.name := by
  obtain ⟨rest, hrest⟩ := record.named
  have hlarge := record.large
  have hfits : offsetOfDName ≤ record.bytes.length := Nat.le_trans (by decide) hlarge
  have hname : (before ++ (record.bytes ++ after)).drop (before.length + offsetOfDName) =
      record.name ++ 0 :: (rest ++ after) := by
    calc (before ++ (record.bytes ++ after)).drop (before.length + offsetOfDName)
        = (record.bytes ++ after).drop offsetOfDName := by rw [← List.drop_drop, List.drop_left]
      _ = record.bytes.drop offsetOfDName ++ after := List.drop_append_of_le_length hfits
      _ = record.name ++ 0 :: (rest ++ after) := by simp [hrest]
  rw [hname]
  exact cStrFromPtr_eq record.terminated

/-- Where the offset is that of a record, the record is returned and the offset moves
behind it. -/
theorem nextDirent_record {e : Endian} (record : Record e) (before after : Bytes) {nBytes : Nat}
    (h : before.length < nBytes) :
    nextDirent e (before ++ (record.bytes ++ after)) nBytes before.length =
      some (some (LinuxDirent64.read e record.bytes, record.name),
        before.length + record.bytes.length) := by
  have hlarge := record.large
  unfold nextDirent
  rw [if_neg (by omega), if_neg]
  · simp only [LinuxDirent64.read_record, cStrFromPtr_record, record.reclen]
    rfl
  · simp only [List.length_append]
    omega

theorem contained_record {e : Endian} (record : Record e) (before after : Bytes) {nBytes : Nat}
    (h : before.length < nBytes) :
    Contained e (before ++ (record.bytes ++ after)) nBytes before.length ↔
      before.length + record.bytes.length ≤ nBytes := by
  unfold Contained
  rw [LinuxDirent64.read_record, record.reclen]
  exact ⟨fun hcontained => hcontained h, fun hle _ => hle⟩

/-! ## The call -/

section Call
variable {I : Interface}

/-- `<*const u8>::align_offset`, for an alignment that is a power of two. -/
def alignOffset (address align : Nat) : Nat := (align - address % align) % align

theorem alignOffset_lt (address : Nat) {align : Nat} (h : 0 < align) :
    alignOffset address align < align := Nat.mod_lt _ h

/-- `getdents64_raw`: the padding before the first record and the number of bytes the
kernel wrote behind it, with what the buffer holds then. -/
def getdents64Raw (address : Prog I Nat) (getdents64 : Nat → Prog I (Except Errno Bytes))
    (dirp : Bytes) : Prog I (Except SyscallError (Nat × Nat) × Bytes) := do
  let padding := alignOffset (← address) alignOfLinuxDirent64
  if dirp.length < padding then return (.error ⟨.getdents64, .INVAL⟩, dirp)
  else
    -- the length the system call is given saturates at `INT_MAX`
    let count := min (dirp.length - padding) (2 ^ 31 - 1)
    match ← getdents64 count with
    | .ok bytes =>
      return (.ok (padding, bytes.length),
        dirp.take padding ++ (bytes ++ dirp.drop (padding + bytes.length)))
    | .error error => return (.error ⟨.getdents64, error⟩, dirp)

end Call

end LayerCake.Meowix
