import Mathlib.Tactic.Common
import LayerCake.Bubblebox.Spawn.Errors

/-
  The 6-byte record with which the guest reports to the host
  (`bubblebox/src/platform/linux/spawn/wire.rs`), and how the host reads it
  (`From<PostSpawnGuestWire> for Result` in `spawn/errors.rs`).

  Correspondence (Rust ↔ Lean):
    `From<Result<(), PostSpawnGuest>> for PostSpawnGuestWire` ↔ `PostSpawnGuestWire.ofResult`
    `From<PostSpawnGuestWire> for Result<(), PostSpawnGuest>` ↔ `PostSpawnGuestWire.toResult`
    `bytemuck::bytes_of`, `bytemuck::must_cast`               ↔ `toBytes`, `ofBytes`

  What is proved: the record is its bytes (`ofBytes_toBytes`), every result but
  one kind is read back as it was sent (`toResult_ofResult`), that kind reads
  back as `InvalidWireFormat` (`toResult_ofResult_unsendable`), so a record
  determines its result but for that kind, and no error is read as success.
-/

namespace LayerCake.Bubblebox.Spawn

open LayerCake.Meowix

/-- `PostSpawnGuestWire`, `#[repr(C, packed)]`. -/
structure PostSpawnGuestWire where
  tag : UInt8
  subtag : UInt8
  value : Int32
  deriving DecidableEq, Repr

/-- The target's byte order: the record is exchanged in memory order. -/
inductive ByteOrder where
  | little | big
  deriving DecidableEq, Repr

/-- `size_of::<PostSpawnGuestWire>()`. -/
def wireSize : Nat := 6

/-! ## The record as bytes -/

/-- Byte `i` of a 32-bit value, least significant first. -/
def byteAt (v : Int32) (i : Nat) : UInt8 := UInt8.ofNat (v.toUInt32.toNat / 256 ^ i)

/-- The 32-bit value of four bytes, least significant first. -/
def ofByteList (b0 b1 b2 b3 : UInt8) : Int32 :=
  (UInt32.ofNat (b0.toNat + 256 * b1.toNat + 65536 * b2.toNat + 16777216 * b3.toNat)).toInt32

def valueBytes (order : ByteOrder) (v : Int32) : List UInt8 :=
  match order with
  | .little => [byteAt v 0, byteAt v 1, byteAt v 2, byteAt v 3]
  | .big => [byteAt v 3, byteAt v 2, byteAt v 1, byteAt v 0]

/-- `bytemuck::bytes_of`. -/
def PostSpawnGuestWire.toBytes (order : ByteOrder) (w : PostSpawnGuestWire) : List UInt8 :=
  w.tag :: w.subtag :: valueBytes order w.value

/-- `bytemuck::must_cast`, from the bytes a full read produced. -/
def PostSpawnGuestWire.ofBytes (order : ByteOrder) : List UInt8 → Option PostSpawnGuestWire
  | [tag, subtag, b0, b1, b2, b3] =>
    match order with
    | .little => some ⟨tag, subtag, ofByteList b0 b1 b2 b3⟩
    | .big => some ⟨tag, subtag, ofByteList b3 b2 b1 b0⟩
  | _ => none

theorem ofByteList_byteAt (v : Int32) :
    ofByteList (byteAt v 0) (byteAt v 1) (byteAt v 2) (byteAt v 3) = v := by
  have hv : v.toUInt32.toNat < 2 ^ 32 := v.toUInt32.toNat_lt
  have hsum : (byteAt v 0).toNat + 256 * (byteAt v 1).toNat + 65536 * (byteAt v 2).toNat +
      16777216 * (byteAt v 3).toNat = v.toUInt32.toNat := by
    simp only [byteAt, UInt8.toNat_ofNat']
    omega
  unfold ofByteList
  rw [hsum, UInt32.ofNat_toNat]
  rfl

@[simp] theorem toBytes_length (order : ByteOrder) (w : PostSpawnGuestWire) :
    (w.toBytes order).length = wireSize := by
  cases order <;> rfl

theorem ofBytes_toBytes (order : ByteOrder) (w : PostSpawnGuestWire) :
    PostSpawnGuestWire.ofBytes order (w.toBytes order) = some w := by
  cases order <;>
    simp [PostSpawnGuestWire.toBytes, valueBytes, PostSpawnGuestWire.ofBytes, ofByteList_byteAt]

/-- Every six bytes are a record. -/
theorem ofBytes_isSome (order : ByteOrder) (bs : List UInt8) (h : bs.length = wireSize) :
    ∃ w, PostSpawnGuestWire.ofBytes order bs = some w ∧ bs.head? = some w.tag := by
  match bs, h with
  | [tag, subtag, b0, b1, b2, b3], _ =>
    cases order
    · exact ⟨⟨tag, subtag, ofByteList b0 b1 b2 b3⟩, rfl, rfl⟩
    · exact ⟨⟨tag, subtag, ofByteList b3 b2 b1 b0⟩, rfl, rfl⟩

/-! ## The encoding -/

/-- The subtag and value of a netlink error. -/
def netlinkFields : Netlink → UInt8 × Int32
  | .malformedHeader => (0, 1)
  | .truncatedMessage => (0, 2)
  | .sequenceMismatch => (0, 3)
  | .incorrectSize => (0, 4)
  | .bufferTooSmall => (0, 5)
  | .integerOverflow => (0, 6)
  | .incompleteWrite => (0, 7)
  | .ackTimeout => (0, 8)
  | .errno error => (255, error.rawOsError)
  | .invalidError error => (255 - 1, error)
  | .syscall error =>
    -- an unknown syscall falls through to the invalid error
    if error.syscall.toU8 < 255 then (error.syscall.toU8 + 1, error.error.rawOsError)
    else (0, Int32.maxValue)

/-- What the guest sends for the outcome of its setup. -/
def PostSpawnGuestWire.ofResult : Except PostSpawnGuest Unit → PostSpawnGuestWire
  | .ok () => ⟨255, 0, 0⟩
  | .error (.syscall error) => ⟨255 - 1, error.syscall.toU8, error.error.rawOsError⟩
  | .error (.netlink error) => ⟨255 - 2, (netlinkFields error).1, (netlinkFields error).2⟩
  | .error .incompleteWrite => ⟨255 - 3, 0, 0⟩
  | .error .cStrBufferTooSmall => ⟨255 - 4, 0, 0⟩
  | .error .fromBytesWithNulError => ⟨255 - 5, 0, 0⟩
  | .error .invalidWireFormat => ⟨255 - 6, 0, 0⟩
  | .error (.other e) => ⟨e.toU8, 0, 0⟩

/-- The netlink error of a subtag and value, `none` where the format is invalid. -/
def netlinkOfFields (subtag : UInt8) (value : Int32) : Option Netlink :=
  if subtag = 0 then
    if value = 1 then some .malformedHeader
    else if value = 2 then some .truncatedMessage
    else if value = 3 then some .sequenceMismatch
    else if value = 4 then some .incorrectSize
    else if value = 5 then some .bufferTooSmall
    else if value = 6 then some .integerOverflow
    else if value = 7 then some .incompleteWrite
    else if value = 8 then some .ackTimeout
    else none
  else if subtag = 255 then (Errno.fromRawOsError value).map .errno
  else if subtag = 255 - 1 then some (.invalidError value)
  else (Errno.fromRawOsError value).map fun e => .syscall ⟨Syscall.ofU8 (subtag - 1), e⟩

/-- What the host reads from a record. -/
def PostSpawnGuestWire.toResult (w : PostSpawnGuestWire) : Except PostSpawnGuest Unit :=
  if w.tag = 255 then .ok ()
  else if w.tag = 255 - 1 then
    match Errno.fromRawOsError w.value with
    | some e => .error (.syscall ⟨Syscall.ofU8 w.subtag, e⟩)
    | none => .error .invalidWireFormat
  else if w.tag = 255 - 2 then
    match netlinkOfFields w.subtag w.value with
    | some e => .error (.netlink e)
    | none => .error .invalidWireFormat
  else if w.tag = 255 - 3 then .error .incompleteWrite
  else if w.tag = 255 - 4 then .error .cStrBufferTooSmall
  else if w.tag = 255 - 5 then .error .fromBytesWithNulError
  else .error (PostSpawnGuest.ofU8 w.tag)

/-- The one kind of result the record cannot carry: a netlink syscall error
whose syscall is unknown. -/
def Unsendable : Except PostSpawnGuest Unit → Prop
  | .error (.netlink (.syscall e)) => e.syscall = .unknown
  | _ => False

instance : DecidablePred Unsendable := fun r => by
  unfold Unsendable
  split <;> infer_instance

/-! ## The round trip -/

/-- The shifted syscall number meets neither sentinel and is shifted back. -/
theorem shifted_syscall {s : Syscall} (h : s ≠ .unknown) :
    s.toU8 < 255 ∧ s.toU8 + 1 ≠ 0 ∧ s.toU8 + 1 ≠ 255 ∧ s.toU8 + 1 ≠ 255 - 1 ∧
      Syscall.ofU8 (s.toU8 + 1 - 1) = s := by
  cases s <;> first | exact absurd rfl h | decide

theorem netlinkOfFields_netlinkFields {e : Netlink}
    (h : ∀ s, e = .syscall s → s.syscall ≠ .unknown) :
    netlinkOfFields (netlinkFields e).1 (netlinkFields e).2 = some e := by
  cases e with
  | errno error => simp [netlinkFields, netlinkOfFields, Errno.fromRawOsError_rawOsError]
  | invalidError error => simp [netlinkFields, netlinkOfFields]
  | syscall s =>
    obtain ⟨hlt, h0, h255, h254, hback⟩ := shifted_syscall (h s rfl)
    simp only [netlinkFields, netlinkOfFields, hlt, h0, h255, h254, if_true, if_false, hback,
      Errno.fromRawOsError_rawOsError, Option.map_some]
  | _ => rfl

/-- An error outside the table is numbered below every tag. -/
theorem toResult_other (e : PostSpawnGuestOther) :
    PostSpawnGuestWire.toResult ⟨e.toU8, 0, 0⟩ = .error (.other e) := by
  cases e <;> rfl

theorem toResult_ofResult {r : Except PostSpawnGuest Unit} (h : ¬ Unsendable r) :
    (PostSpawnGuestWire.ofResult r).toResult = r := by
  cases r with
  | ok u => rfl
  | error e =>
    cases e with
    | syscall s =>
      simp [PostSpawnGuestWire.ofResult, PostSpawnGuestWire.toResult,
        Errno.fromRawOsError_rawOsError, Syscall.ofU8_toU8]
    | netlink n =>
      have hn : netlinkOfFields (netlinkFields n).1 (netlinkFields n).2 = some n := by
        apply netlinkOfFields_netlinkFields
        intro s hs hunknown
        subst hs
        exact h hunknown
      simp [PostSpawnGuestWire.ofResult, PostSpawnGuestWire.toResult, hn]
    | other o => exact toResult_other o
    | _ => rfl

theorem toResult_ofResult_unsendable {r : Except PostSpawnGuest Unit} (h : Unsendable r) :
    PostSpawnGuestWire.ofResult r = ⟨255 - 2, 0, Int32.maxValue⟩ ∧
      (PostSpawnGuestWire.ofResult r).toResult = .error .invalidWireFormat := by
  unfold Unsendable at h
  split at h
  · next e =>
    have hu : ¬ e.syscall.toU8 < 255 := by rw [h]; decide
    have hof : PostSpawnGuestWire.ofResult (.error (.netlink (.syscall e))) =
        ⟨255 - 2, 0, Int32.maxValue⟩ := by
      simp only [PostSpawnGuestWire.ofResult, netlinkFields, if_neg hu]
    exact ⟨hof, by rw [hof]; decide⟩
  · exact absurd h id

theorem toResult_error {w : PostSpawnGuestWire} (h : w.tag ≠ 255) : ∃ e, w.toResult = .error e := by
  unfold PostSpawnGuestWire.toResult
  rw [if_neg h]
  split
  · split <;> exact ⟨_, rfl⟩
  · split
    · split <;> exact ⟨_, rfl⟩
    · split_ifs <;> exact ⟨_, rfl⟩

/-! ## The protocol's two directions -/

/-- The bytes the guest writes for a result. -/
def encode (order : ByteOrder) (r : Except PostSpawnGuest Unit) : List UInt8 :=
  (PostSpawnGuestWire.ofResult r).toBytes order

/-- The result the host reads from a full record. -/
def decode (order : ByteOrder) (bs : List UInt8) : Option (Except PostSpawnGuest Unit) :=
  (PostSpawnGuestWire.ofBytes order bs).map PostSpawnGuestWire.toResult

@[simp] theorem encode_length (order : ByteOrder) (r : Except PostSpawnGuest Unit) :
    (encode order r).length = wireSize := toBytes_length order _

theorem decode_encode (order : ByteOrder) (r : Except PostSpawnGuest Unit) :
    decode order (encode order r) =
      some (if Unsendable r then .error .invalidWireFormat else r) := by
  unfold decode encode
  rw [ofBytes_toBytes, Option.map_some]
  split
  · next h => rw [(toResult_ofResult_unsendable h).2]
  · next h => rw [toResult_ofResult h]

/-- No error is read as success. -/
theorem decode_encode_error (order : ByteOrder) (e : PostSpawnGuest) :
    ∃ e', decode order (encode order (.error e)) = some (.error e') := by
  rw [decode_encode]
  split
  · exact ⟨_, rfl⟩
  · exact ⟨_, rfl⟩

/-- A record determines its result, except that the unsendable ones share one. -/
theorem encode_eq_iff (order : ByteOrder) (r r' : Except PostSpawnGuest Unit) :
    encode order r = encode order r' ↔ r = r' ∨ Unsendable r ∧ Unsendable r' := by
  constructor
  · intro h
    have hd : decode order (encode order r) = decode order (encode order r') := by rw [h]
    have hw : PostSpawnGuestWire.ofResult r = PostSpawnGuestWire.ofResult r' := by
      have := congrArg (PostSpawnGuestWire.ofBytes order) h
      simpa [encode, ofBytes_toBytes] using this
    rw [decode_encode, decode_encode] at hd
    by_cases hr : Unsendable r <;> by_cases hr' : Unsendable r'
    · exact Or.inr ⟨hr, hr'⟩
    · -- the shared record of the unsendable ones is nobody else's
      simp only [hr, hr', if_true, if_false, Option.some.injEq] at hd
      subst hd
      rw [(toResult_ofResult_unsendable hr).1] at hw
      exact absurd hw (by decide)
    · simp only [hr, hr', if_true, if_false, Option.some.injEq] at hd
      subst hd
      rw [(toResult_ofResult_unsendable hr').1] at hw
      exact absurd hw (by decide)
    · simp only [hr, hr', if_false, Option.some.injEq] at hd
      exact Or.inl hd
  · intro h
    rcases h with rfl | ⟨hr, hr'⟩
    · rfl
    · unfold encode
      rw [(toResult_ofResult_unsendable hr).1, (toResult_ofResult_unsendable hr').1]

/-- **The wire format round trips.** Every result but a netlink error of an
unknown syscall is read back as it was sent; that one is read as
`InvalidWireFormat`; two distinct results share a record if both are of that
kind, and only then; no error is read as success; and six bytes whose tag is not
the success tag are an error. -/
theorem wire_round_trip (order : ByteOrder) :
    (∀ r, ¬ Unsendable r → decode order (encode order r) = some r) ∧
    (∀ r, Unsendable r → decode order (encode order r) = some (.error .invalidWireFormat)) ∧
    (∀ r r', encode order r = encode order r' ↔ r = r' ∨ Unsendable r ∧ Unsendable r') ∧
    (∀ e, decode order (encode order (.error e)) ≠ some (.ok ())) ∧
    (∀ bs : List UInt8, bs.length = wireSize → bs.head? ≠ some 255 →
      ∃ e, decode order bs = some (.error e)) := by
  refine ⟨fun r h => ?_, fun r h => ?_, encode_eq_iff order, fun e h => ?_, fun bs hlen htag => ?_⟩
  · rw [decode_encode, if_neg h]
  · rw [decode_encode, if_pos h]
  · obtain ⟨e', he'⟩ := decode_encode_error order e
    rw [he'] at h
    simp at h
  · obtain ⟨w, hw, hhead⟩ := ofBytes_isSome order bs hlen
    have hne : w.tag ≠ 255 := by
      intro h
      rw [hhead, h] at htag
      exact htag rfl
    obtain ⟨e, he⟩ := toResult_error hne
    exact ⟨e, by rw [decode, hw, Option.map_some, he]⟩

/-- Two distinct errors of unknown syscalls share a record. -/
theorem unknown_syscalls_share_record :
    encode .little (.error (.netlink (.syscall ⟨.unknown, Errno.PERM⟩))) =
      encode .little (.error (.netlink (.syscall ⟨.unknown, Errno.NOENT⟩))) ∧
    (Except.error (.netlink (.syscall ⟨.unknown, Errno.PERM⟩)) : Except PostSpawnGuest Unit) ≠
      .error (.netlink (.syscall ⟨.unknown, Errno.NOENT⟩)) := by
  decide

end LayerCake.Bubblebox.Spawn
