import Mathlib.Algebra.Order.BigOperators.Group.List
import LayerCake.Effects.Unchecked
import LayerCake.Meowix.Netlink

/-
  The netlink messages that `meowix/src/netlink.rs` writes.

  Correspondence (Rust ↔ Lean):
    `ptr::write_unaligned`                ↔ `writeUnaligned`, undefined past the buffer
    `write`, `write_bytes`                ↔ `write`, `writeBytes`
    `write_attribute`                     ↔ `writeAttribute`
    `finish_netlink_message`              ↔ `finishNetlinkMessage`
    `write_add_loopback_address`          ↔ `writeAddLoopbackAddress`
    `write_bring_up_loopback_device`      ↔ `writeBringUpLoopbackDevice`
    the kernel's `RTA_OK` and `RTA_NEXT`  ↔ `attributesFrom`
  A value that is written is given as the bytes it has in memory. A function that advances
  its `offset` in place returns the buffer and the offset.

  What is proved: the buffer is filled front to back (`Built`, kept by every
  `writeAttribute`), and the kernel's walk over the finished message finds the attributes
  that were written, and nothing else (`message_walked_back`).
-/

namespace LayerCake.Meowix.Message

open Effects

/-! ## The structures of a message -/

/-- `netlink::rtattr`. -/
structure Rtattr where
  rtaLen : UInt16
  rtaType : UInt16
  deriving DecidableEq, Repr

/-- `size_of::<rtattr>()`. -/
def sizeOfRtattr : Nat := 4

def Rtattr.bytes (e : Endian) (rta : Rtattr) : Bytes :=
  e.bytes 2 rta.rtaLen.toNat ++ e.bytes 2 rta.rtaType.toNat

def Rtattr.read (e : Endian) (bytes : Bytes) : Rtattr where
  rtaLen := .ofNat (e.value (slice bytes ⟨0, 2⟩))
  rtaType := .ofNat (e.value (slice bytes ⟨2, 2⟩))

def headerBytes (e : Endian) (header : Nlmsghdr) : Bytes :=
  e.bytes 4 header.nlmsgLen.toNat ++ e.bytes 2 header.nlmsgType.toNat ++
    e.bytes 2 header.nlmsgFlags.toNat ++ e.bytes 4 header.nlmsgSeq.toNat ++
    e.bytes 4 header.nlmsgPid.toNat

/-- `netlink::ifaddrmsg`. -/
structure Ifaddrmsg where
  ifaFamily : UInt8
  ifaPrefixlen : UInt8
  ifaFlags : UInt8
  ifaScope : UInt8
  ifaIndex : UInt32
  deriving DecidableEq, Repr

def Ifaddrmsg.bytes (e : Endian) (message : Ifaddrmsg) : Bytes :=
  [message.ifaFamily, message.ifaPrefixlen, message.ifaFlags, message.ifaScope] ++
    e.bytes 4 message.ifaIndex.toNat

/-- `netlink::ifinfomsg`. -/
structure Ifinfomsg where
  ifiFamily : UInt8
  ifiPad : UInt8
  ifiType : UInt16
  ifiIndex : Int32
  ifiFlags : UInt32
  ifiChange : UInt32
  deriving DecidableEq, Repr

def Ifinfomsg.bytes (e : Endian) (message : Ifinfomsg) : Bytes :=
  [message.ifiFamily, message.ifiPad] ++ e.bytes 2 message.ifiType.toNat ++
    e.bytes 4 message.ifiIndex.toUInt32.toNat ++ e.bytes 4 message.ifiFlags.toNat ++
    e.bytes 4 message.ifiChange.toNat

/-! ## Writing -/

def writeUnaligned (buffer : Bytes) (offset : Nat) (value : Bytes) : Except (Stop Netlink) Bytes :=
  if offset + value.length ≤ buffer.length then .ok (overwrite buffer offset value)
  else .error .undefined

/-- `usize::unchecked_add`. -/
def uncheckedAdd (a b : Nat) : Except (Stop Netlink) Nat :=
  match checkedAdd a b with
  | some sum => .ok sum
  | none => .error .undefined

def write (buffer : Bytes) (offset : Nat) (value : Bytes) : Except (Stop Netlink) (Bytes × Nat) :=
  if (checkedAdd offset value.length).all (· > buffer.length) then
    .error (.error .bufferTooSmall)
  else do
    let buffer ← writeUnaligned buffer offset value
    let offset ← uncheckedAdd offset value.length
    return (buffer, offset)

def writeBytes (buffer : Bytes) (offset : Nat) (bytes : Bytes) :
    Except (Stop Netlink) (Bytes × Nat) :=
  match checkedAdd offset bytes.length with
  | none => .error (.error .bufferTooSmall)
  | some stop =>
    if stop ≤ buffer.length then .ok (overwrite buffer offset bytes, stop)
    else .error (.error .bufferTooSmall)

def writeAttribute (e : Endian) (buffer : Bytes) (offset : Nat) (ty : UInt16) (payload : Bytes) :
    Except (Stop Netlink) (Bytes × Nat) := do
  let length := sizeOfRtattr + payload.length
  let (buffer, offset) ← write buffer offset (Rtattr.bytes e ⟨.ofNat length, ty⟩)
  let (buffer, offset) ← writeBytes buffer offset payload
  match checkedNextMultipleOf offset 4 with
  | none => .error (.error .integerOverflow)
  | some offset =>
    if offset > buffer.length then .error (.error .bufferTooSmall) else .ok (buffer, offset)

/-- What `finish_netlink_message` leaves and returns. -/
structure Finished where
  buffer : Bytes
  sequence : UInt32
  oldSequence : UInt32
  message : Bytes
  deriving DecidableEq, Repr

def finishNetlinkMessage (e : Endian) (buffer : Bytes) (length : Nat) (ty flags : UInt16)
    (sequence : UInt32) : Except (Stop Netlink) Finished := do
  let (buffer, _) ← write buffer 0 (headerBytes e ⟨.ofNat length, ty, flags, sequence, 0⟩)
  if sequence.toNat + 1 < 2 ^ 32 then
    if length ≤ buffer.length then
      return ⟨buffer, sequence + 1, sequence, buffer.take length⟩
    else .error (.error .bufferTooSmall)
  else .error (.error .integerOverflow)

/-- The attributes one after the other, and then the header. -/
def writeMessage (e : Endian) (buffer : Bytes) (offset : Nat)
    (attributes : List (UInt16 × Bytes)) (ty flags : UInt16) (sequence : UInt32) :
    Except (Stop Netlink) Finished := do
  let (buffer, offset) ← attributes.foldlM (fun (buffer, offset) (ty, payload) =>
    writeAttribute e buffer offset ty payload) (buffer, offset)
  finishNetlinkMessage e buffer offset ty flags sequence

/-! ## The messages of the loopback device -/

def AF_UNSPEC : UInt8 := 0
def AF_INET : UInt8 := 2
def IFA_F_PERMANENT : UInt8 := 0x80
def RT_SCOPE_HOST : UInt8 := 254
def IFA_ADDRESS : UInt16 := 1
def IFA_LOCAL : UInt16 := 2
def RTM_NEWLINK : UInt16 := 16
def RTM_NEWADDR : UInt16 := 20
def NLM_F_REQUEST : UInt16 := 1
def NLM_F_ACK : UInt16 := 4
def NLM_F_EXCL : UInt16 := 0x200
def NLM_F_CREATE : UInt16 := 0x400
def IFF_UP : UInt32 := 1
def INADDR_LOOPBACK : UInt32 := 0x7f000001

/-- `INADDR_LOOPBACK.to_be_bytes()`. -/
def loopbackAddress : Bytes := Endian.big.bytes 4 INADDR_LOOPBACK.toNat

def loopbackIfaddrmsg (loopbackInterfaceIndex : UInt32) : Ifaddrmsg where
  ifaFamily := AF_INET
  ifaPrefixlen := 8
  ifaFlags := IFA_F_PERMANENT
  ifaScope := RT_SCOPE_HOST
  ifaIndex := loopbackInterfaceIndex

def writeAddLoopbackAddress (e : Endian) (buffer : Bytes) (loopbackInterfaceIndex : UInt32)
    (sequence : UInt32) : Except (Stop Netlink) Finished := do
  let (buffer, offset) ← write buffer sizeOfNlmsghdr
    ((loopbackIfaddrmsg loopbackInterfaceIndex).bytes e)
  let (buffer, offset) ← writeAttribute e buffer offset IFA_LOCAL loopbackAddress
  let (buffer, offset) ← writeAttribute e buffer offset IFA_ADDRESS loopbackAddress
  finishNetlinkMessage e buffer offset RTM_NEWADDR
    (NLM_F_REQUEST ||| NLM_F_CREATE ||| NLM_F_EXCL ||| NLM_F_ACK) sequence

def loopbackIfinfomsg (loopbackInterfaceIndex : UInt32) : Ifinfomsg where
  ifiFamily := AF_UNSPEC
  ifiPad := 0
  ifiType := 0
  ifiIndex := loopbackInterfaceIndex.toInt32
  ifiFlags := IFF_UP
  ifiChange := IFF_UP

def writeBringUpLoopbackDevice (e : Endian) (buffer : Bytes) (loopbackInterfaceIndex : UInt32)
    (sequence : UInt32) : Except (Stop Netlink) Finished := do
  let (buffer, offset) ← write buffer sizeOfNlmsghdr
    ((loopbackIfinfomsg loopbackInterfaceIndex).bytes e)
  finishNetlinkMessage e buffer offset RTM_NEWLINK (NLM_F_REQUEST ||| NLM_F_ACK) sequence

/-! ## The kernel's walk -/

/-- The attribute header at an offset of a message. -/
def rtattrAt (e : Endian) (message : Bytes) (offset : Nat) : Rtattr :=
  .read e (slice message ⟨offset, sizeOfRtattr⟩)

/-- The attributes from the offset on: each header and payload lies in the message, the next
attribute stands at the next multiple of four, and the last one ends the message. -/
def attributesFrom (e : Endian) (message : Bytes) (offset : Nat) :
    Option (List (UInt16 × Bytes)) :=
  if offset = message.length then some []
  else if _h : offset + sizeOfRtattr ≤ message.length ∧
      sizeOfRtattr ≤ (rtattrAt e message offset).rtaLen.toNat ∧
      offset + (rtattrAt e message offset).rtaLen.toNat ≤ message.length then
    (attributesFrom e message (offset + roundUp4 (rtattrAt e message offset).rtaLen.toNat)).map
      (((rtattrAt e message offset).rtaType, slice message
        ⟨offset + sizeOfRtattr, (rtattrAt e message offset).rtaLen.toNat - sizeOfRtattr⟩) :: ·)
  else none
termination_by message.length - offset
decreasing_by
  unfold sizeOfRtattr at _h
  unfold roundUp4
  omega

theorem Rtattr.length_bytes (e : Endian) (rta : Rtattr) : (rta.bytes e).length = sizeOfRtattr := by
  simp [Rtattr.bytes, sizeOfRtattr]

theorem length_headerBytes (e : Endian) (header : Nlmsghdr) :
    (headerBytes e header).length = sizeOfNlmsghdr := by
  simp [headerBytes, sizeOfNlmsghdr]

theorem Rtattr.read_bytes (e : Endian) (rta : Rtattr) : Rtattr.read e (rta.bytes e) = rta := by
  have hlen : slice (rta.bytes e) ⟨0, 2⟩ = e.bytes 2 rta.rtaLen.toNat :=
    slice_left (by simp) _
  have htype : slice (rta.bytes e) ⟨2, 2⟩ = e.bytes 2 rta.rtaType.toNat := by
    have h := slice_middle (e.length_bytes 2 rta.rtaLen.toNat)
      (e.length_bytes 2 rta.rtaType.toNat) []
    rwa [List.append_nil] at h
  unfold Rtattr.read
  rw [hlen, htype, e.value_bytes rta.rtaLen.toNat_lt, e.value_bytes rta.rtaType.toNat_lt,
    UInt16.ofNat_toNat, UInt16.ofNat_toNat]

theorem read_headerBytes (e : Endian) (header : Nlmsghdr) :
    Nlmsghdr.read e (headerBytes e header) = header := by
  have hsplit : headerBytes e header = e.bytes 4 header.nlmsgLen.toNat ++
      (e.bytes 2 header.nlmsgType.toNat ++ (e.bytes 2 header.nlmsgFlags.toNat ++
      (e.bytes 4 header.nlmsgSeq.toNat ++ (e.bytes 4 header.nlmsgPid.toNat ++ [])))) := by
    simp [headerBytes]
  have hlen : slice (headerBytes e header) ⟨0, 4⟩ = e.bytes 4 header.nlmsgLen.toNat := by
    rw [hsplit]
    exact slice_left (by simp) _
  have htype : slice (headerBytes e header) ⟨4, 2⟩ = e.bytes 2 header.nlmsgType.toNat := by
    rw [hsplit]
    exact slice_middle (by simp) (by simp) _
  have hflags : slice (headerBytes e header) ⟨6, 2⟩ = e.bytes 2 header.nlmsgFlags.toNat := by
    rw [hsplit, ← List.append_assoc]
    exact slice_middle (by simp) (by simp) _
  have hseq : slice (headerBytes e header) ⟨8, 4⟩ = e.bytes 4 header.nlmsgSeq.toNat := by
    rw [hsplit, ← List.append_assoc, ← List.append_assoc]
    exact slice_middle (by simp) (by simp) _
  have hpid : slice (headerBytes e header) ⟨12, 4⟩ = e.bytes 4 header.nlmsgPid.toNat := by
    rw [hsplit, ← List.append_assoc, ← List.append_assoc, ← List.append_assoc]
    exact slice_middle (by simp) (by simp) _
  unfold Nlmsghdr.read
  rw [hlen, htype, hflags, hseq, hpid, e.value_bytes header.nlmsgLen.toNat_lt,
    e.value_bytes header.nlmsgType.toNat_lt, e.value_bytes header.nlmsgFlags.toNat_lt,
    e.value_bytes header.nlmsgSeq.toNat_lt, e.value_bytes header.nlmsgPid.toNat_lt]
  simp

/-! ## What is written -/

/-- The bytes an attribute takes, with its padding. -/
def recordLength (a : UInt16 × Bytes) : Nat := roundUp4 (sizeOfRtattr + a.2.length)

/-- The bytes of an attribute: its header, its payload, and padding that may be anything. -/
def IsRecord (e : Endian) (a : UInt16 × Bytes) (record : Bytes) : Prop :=
  ∃ padding, record = Rtattr.bytes e ⟨.ofNat (sizeOfRtattr + a.2.length), a.1⟩ ++ a.2 ++ padding ∧
    record.length = recordLength a

/-- The attributes were written behind `before`, in a buffer of `size` bytes. -/
def Built (e : Endian) (before : Bytes) (size : Nat) (attributes : List (UInt16 × Bytes))
    (r : Bytes × Nat) : Prop :=
  ∃ records rest, List.Forall₂ (IsRecord e) attributes records ∧
    r.1 = before ++ records.flatten ++ rest ∧ r.2 = (before ++ records.flatten).length ∧
    r.1.length = size

/-- The bytes that attributes take. -/
def needed (attributes : List (UInt16 × Bytes)) : Nat := (attributes.map recordLength).sum

section Writing
variable {e : Endian}

theorem write_eq {buffer : Bytes} (hbuffer : buffer.length < 2 ^ 64) (offset : Nat)
    (value : Bytes) : write buffer offset value =
      if offset + value.length ≤ buffer.length then
        .ok (overwrite buffer offset value, offset + value.length)
      else .error (.error .bufferTooSmall) := by
  unfold write
  by_cases hfits : offset + value.length ≤ buffer.length
  · have hsum : checkedAdd offset value.length = some (offset + value.length) := if_pos (by omega)
    have hok : ¬ (some (offset + value.length)).all (· > buffer.length) = true := by
      simpa using hfits
    have hadd : uncheckedAdd offset value.length = .ok (offset + value.length) := by
      unfold uncheckedAdd
      rw [hsum]
    have hwrite : writeUnaligned buffer offset value = .ok (overwrite buffer offset value) :=
      if_pos hfits
    rw [hsum, if_neg hok, if_pos hfits, hadd, hwrite]
    rfl
  · rw [if_neg hfits, if_pos]
    unfold checkedAdd
    split
    · simpa using hfits
    · rfl

theorem writeBytes_eq {buffer : Bytes} (hbuffer : buffer.length < 2 ^ 64) (offset : Nat)
    (bytes : Bytes) : writeBytes buffer offset bytes = write buffer offset bytes := by
  rw [write_eq hbuffer]
  unfold writeBytes
  by_cases hfits : offset + bytes.length ≤ buffer.length
  · have hsum : checkedAdd offset bytes.length = some (offset + bytes.length) := if_pos (by omega)
    simp only [hsum, if_pos hfits]
  · rw [if_neg hfits]
    split
    · rfl
    · next stop hstop =>
      have := checkedAdd_eq hstop
      rw [if_neg (by omega)]

theorem length_flatten_records {attributes : List (UInt16 × Bytes)} {records : List Bytes}
    (h : List.Forall₂ (IsRecord e) attributes records) :
    records.flatten.length = needed attributes := by
  induction h with
  | nil => rfl
  | cons hrecord _ ih =>
    obtain ⟨_, _, hlen⟩ := hrecord
    unfold needed at ih ⊢
    rw [List.flatten_cons, List.length_append, List.map_cons, List.sum_cons, ih, hlen]

theorem Built.offset {before : Bytes} {size : Nat} {attributes : List (UInt16 × Bytes)}
    {r : Bytes × Nat} (h : Built e before size attributes r) :
    r.2 = before.length + needed attributes := by
  obtain ⟨records, rest, hrecords, _, hoffset, _⟩ := h
  rw [hoffset, List.length_append, length_flatten_records hrecords]

theorem needed_cons (a : UInt16 × Bytes) (attributes : List (UInt16 × Bytes)) :
    needed (a :: attributes) = recordLength a + needed attributes := rfl

theorem needed_concat (attributes : List (UInt16 × Bytes)) (a : UInt16 × Bytes) :
    needed (attributes ++ [a]) = needed attributes + recordLength a := by
  simp [needed]

theorem dvd_needed (attributes : List (UInt16 × Bytes)) : 4 ∣ needed attributes := by
  induction attributes with
  | nil => exact Nat.dvd_zero 4
  | cons a attributes ih =>
    have : 4 ∣ recordLength a := Nat.dvd_mul_left 4 _
    exact Nat.dvd_add this ih

/-- Behind what is aligned, attributes end aligned. -/
theorem Built.aligned {before : Bytes} {size : Nat} {attributes : List (UInt16 × Bytes)}
    {r : Bytes × Nat} (h : Built e before size attributes r) (hbefore : 4 ∣ before.length) :
    4 ∣ r.2 := by
  rw [h.offset]
  exact Nat.dvd_add hbefore (dvd_needed attributes)

/-- From an aligned offset, an attribute is written where its whole record fits. -/
theorem writeAttribute_eq {buffer : Bytes} (hbuffer : buffer.length < 2 ^ 62) {offset : Nat}
    (hoffset : 4 ∣ offset) (a : UInt16 × Bytes) : writeAttribute e buffer offset a.1 a.2 =
      if offset + recordLength a ≤ buffer.length then
        .ok (overwrite (overwrite buffer offset
          (Rtattr.bytes e ⟨.ofNat (sizeOfRtattr + a.2.length), a.1⟩)) (offset + sizeOfRtattr) a.2,
          offset + recordLength a)
      else .error (.error .bufferTooSmall) := by
  have hlen := Rtattr.length_bytes e ⟨.ofNat (sizeOfRtattr + a.2.length), a.1⟩
  have hrecord : sizeOfRtattr + a.2.length ≤ recordLength a := by
    unfold recordLength roundUp4
    omega
  unfold writeAttribute
  dsimp only
  rw [write_eq (by omega), hlen]
  by_cases hheader : offset + sizeOfRtattr ≤ buffer.length
  · have hbuffer' := length_overwrite (hlen ▸ hheader)
    rw [if_pos hheader]
    simp only [bind, Except.bind]
    rw [writeBytes_eq (by omega), write_eq (by omega), hbuffer']
    by_cases hpayload : offset + sizeOfRtattr + a.2.length ≤ buffer.length
    · have haligned : checkedNextMultipleOf (offset + sizeOfRtattr + a.2.length) 4 =
          some (offset + recordLength a) := by
        rw [checkedNextMultipleOf_four (by omega)]
        unfold recordLength roundUp4
        congr 1
        omega
      have hbuffer'' := length_overwrite (hbuffer'.symm ▸ hpayload)
      rw [if_pos hpayload]
      simp only [haligned, hbuffer'', hbuffer']
      by_cases hfits : offset + recordLength a ≤ buffer.length
      · rw [if_pos hfits, if_neg (by omega)]
      · rw [if_neg hfits, if_pos (by omega)]
    · rw [if_neg hpayload, if_neg (by omega)]
  · rw [if_neg hheader, if_neg (by omega)]
    rfl

/-- An attribute is written behind those that were, where it fits. -/
theorem Built.writeAttribute {before : Bytes} {size : Nat} {attributes : List (UInt16 × Bytes)}
    {r : Bytes × Nat} (h : Built e before size attributes r) (hbefore : 4 ∣ before.length)
    (hsize : size < 2 ^ 62) (a : UInt16 × Bytes) (hfits : r.2 + recordLength a ≤ size) :
    ∃ r', Message.writeAttribute e r.1 r.2 a.1 a.2 = .ok r' ∧
      Built e before size (attributes ++ [a]) r' := by
  have haligned := h.aligned hbefore
  obtain ⟨records, rest, hrecords, hbuffer, hend, hlen⟩ := h
  rw [writeAttribute_eq (hlen ▸ hsize) haligned, if_pos (hlen ▸ hfits)]
  have hrest : r.2 + rest.length = size := by
    rw [← hlen, hbuffer, List.length_append, hend]
  have hpadded : sizeOfRtattr + a.2.length ≤ recordLength a := by
    unfold recordLength roundUp4
    omega
  let header := Rtattr.bytes e ⟨.ofNat (sizeOfRtattr + a.2.length), a.1⟩
  have hheader : header.length = sizeOfRtattr := Rtattr.length_bytes _ _
  let padding := (rest.drop (sizeOfRtattr + a.2.length)).take
    (recordLength a - (sizeOfRtattr + a.2.length))
  have hrecord : (header ++ a.2 ++ padding).length = recordLength a := by
    simp only [padding, List.length_append, List.length_take, List.length_drop, hheader]
    omega
  have hbehind : rest.drop (sizeOfRtattr + a.2.length) =
      padding ++ rest.drop (recordLength a) := by
    have h := List.take_append_drop (recordLength a - (sizeOfRtattr + a.2.length))
      (rest.drop (sizeOfRtattr + a.2.length))
    rw [List.drop_drop, Nat.add_sub_cancel' hpadded] at h
    exact h.symm
  have hwritten : overwrite (overwrite r.1 r.2 header) (r.2 + sizeOfRtattr) a.2 =
      before ++ records.flatten ++ header ++ a.2 ++ (padding ++ rest.drop (recordLength a)) := by
    rw [hbuffer, overwrite_behind hend.symm, overwrite_behind, hheader, List.drop_drop, hbehind]
    rw [List.length_append, ← hend, hheader]
  refine ⟨_, rfl, records ++ [header ++ a.2 ++ padding], rest.drop (recordLength a), ?_, ?_, ?_, ?_⟩
  · exact List.rel_append hrecords (.cons ⟨padding, rfl, hrecord⟩ .nil)
  · rw [hwritten]
    simp only [List.flatten_append, List.flatten_singleton, List.append_assoc]
  · rw [List.flatten_append, List.flatten_singleton, ← List.append_assoc, List.length_append,
      ← hend, hrecord]
  · show (overwrite (overwrite r.1 r.2 header) (r.2 + sizeOfRtattr) a.2).length = size
    have hfirst : (overwrite r.1 r.2 header).length = r.1.length := length_overwrite (by omega)
    rw [length_overwrite (by omega), hfirst, hlen]

/-- All attributes are written where they all fit. -/
theorem Built.writeAttributes {before : Bytes} {size : Nat} (hbefore : 4 ∣ before.length)
    (hsize : size < 2 ^ 62) {done : List (UInt16 × Bytes)} {r : Bytes × Nat}
    (h : Built e before size done r) (attributes : List (UInt16 × Bytes))
    (hfits : r.2 + needed attributes ≤ size) :
    ∃ r', attributes.foldlM (fun (buffer, offset) (ty, payload) =>
      Message.writeAttribute e buffer offset ty payload) r = .ok r' ∧
      Built e before size (done ++ attributes) r' := by
  induction attributes generalizing done r with
  | nil =>
    rw [List.append_nil]
    exact ⟨r, rfl, h⟩
  | cons a attributes ih =>
    rw [needed_cons] at hfits
    obtain ⟨r₁, hr₁, h₁⟩ := h.writeAttribute hbefore hsize a (by omega)
    have hoffset : r₁.2 = r.2 + recordLength a := by
      rw [h.offset, h₁.offset, needed_concat, Nat.add_assoc]
    obtain ⟨r₂, hr₂, h₂⟩ := ih h₁ (by omega)
    refine ⟨r₂, ?_, by simpa using h₂⟩
    rw [List.foldlM_cons]
    show (Message.writeAttribute e r.1 r.2 a.1 a.2 >>= _) = _
    rw [hr₁]
    exact hr₂

/-- Otherwise one of them is refused. -/
theorem Built.writeAttributes_refused {before : Bytes} {size : Nat} (hbefore : 4 ∣ before.length)
    (hsize : size < 2 ^ 62) {done : List (UInt16 × Bytes)} {r : Bytes × Nat}
    (h : Built e before size done r) (attributes : List (UInt16 × Bytes))
    (hfits : size < r.2 + needed attributes) :
    attributes.foldlM (fun (buffer, offset) (ty, payload) =>
      Message.writeAttribute e buffer offset ty payload) r = .error (.error .bufferTooSmall) := by
  induction attributes generalizing done r with
  | nil =>
    obtain ⟨records, rest, _, hbuffer, hend, hlen⟩ := h
    rw [hbuffer, List.length_append, ← hend] at hlen
    have : needed [] = 0 := rfl
    omega
  | cons a attributes ih =>
    rw [needed_cons] at hfits
    rw [List.foldlM_cons]
    show (Message.writeAttribute e r.1 r.2 a.1 a.2 >>= _) = _
    by_cases ha : r.2 + recordLength a ≤ size
    · obtain ⟨r₁, hr₁, h₁⟩ := h.writeAttribute hbefore hsize a ha
      have hoffset : r₁.2 = r.2 + recordLength a := by
        rw [h.offset, h₁.offset, needed_concat, Nat.add_assoc]
      rw [hr₁]
      exact ih h₁ (by omega)
    · have haligned := h.aligned hbefore
      obtain ⟨_, _, _, _, _, hlen⟩ := h
      rw [writeAttribute_eq (hlen ▸ hsize) haligned, if_neg (hlen ▸ ha)]
      rfl

/-- The header is written over the space that was left for it, and the message ends where the
last attribute does. -/
theorem Built.finish {space body : Bytes} {size : Nat} {attributes : List (UInt16 × Bytes)}
    {r : Bytes × Nat} (h : Built e (space ++ body) size attributes r)
    (hspace : space.length = sizeOfNlmsghdr) (hsize : size < 2 ^ 62) (ty flags : UInt16)
    {sequence : UInt32} (hsequence : sequence.toNat < 2 ^ 32 - 1) :
    ∃ f records, finishNetlinkMessage e r.1 r.2 ty flags sequence = .ok f ∧
      List.Forall₂ (IsRecord e) attributes records ∧
      f.message = headerBytes e ⟨.ofNat r.2, ty, flags, sequence, 0⟩ ++ body ++ records.flatten ∧
      f.message = f.buffer.take f.message.length ∧ f.oldSequence = sequence ∧
      f.sequence = sequence + 1 := by
  obtain ⟨records, rest, hrecords, hbuffer, hend, hlen⟩ := h
  refine ⟨{
    buffer := headerBytes e ⟨.ofNat r.2, ty, flags, sequence, 0⟩ ++ body ++ records.flatten ++ rest
    sequence := sequence + 1
    oldSequence := sequence
    message := headerBytes e ⟨.ofNat r.2, ty, flags, sequence, 0⟩ ++ body ++ records.flatten },
    records, ?_, hrecords, rfl, (List.take_left' rfl).symm, rfl, rfl⟩
  have hheader := length_headerBytes e ⟨.ofNat r.2, ty, flags, sequence, 0⟩
  have hoverwrite : overwrite r.1 0 (headerBytes e ⟨.ofNat r.2, ty, flags, sequence, 0⟩) =
      headerBytes e ⟨.ofNat r.2, ty, flags, sequence, 0⟩ ++ body ++ records.flatten ++ rest := by
    have h : overwrite ([] ++ r.1) 0 (headerBytes e ⟨.ofNat r.2, ty, flags, sequence, 0⟩) = _ :=
      overwrite_behind rfl _ _
    rw [List.nil_append, List.nil_append, hheader, hbuffer, ← hspace] at h
    rw [hbuffer, h]
    simp
  have hmessage : (headerBytes e ⟨.ofNat r.2, ty, flags, sequence, 0⟩ ++ body ++
      records.flatten).length = r.2 := by
    calc (headerBytes e ⟨.ofNat r.2, ty, flags, sequence, 0⟩ ++ body ++ records.flatten).length
        = sizeOfNlmsghdr + body.length + records.flatten.length := by
          rw [List.length_append, List.length_append, hheader]
      _ = (space ++ body ++ records.flatten).length := by
          rw [List.length_append, List.length_append, hspace]
      _ = r.2 := hend.symm
  have hfits : 0 + (headerBytes e ⟨.ofNat r.2, ty, flags, sequence, 0⟩).length ≤ r.1.length := by
    rw [hheader, hbuffer]
    simp only [List.length_append, hspace]
    omega
  unfold finishNetlinkMessage
  rw [write_eq (by omega), if_pos hfits, hoverwrite]
  simp only [bind, Except.bind]
  rw [if_pos (by omega), if_pos, List.take_left' hmessage]
  · rfl
  · rw [List.length_append, hmessage]
    omega

end Writing

/-! ## What the kernel finds -/

section Reading
variable {e : Endian}

/-- The walk finds the attribute whose record is next. -/
theorem attributesFrom_record {a : UInt16 × Bytes} {record : Bytes} (h : IsRecord e a record)
    (ha : sizeOfRtattr + a.2.length < 2 ^ 16) (before behind : Bytes) :
    attributesFrom e (before ++ (record ++ behind)) before.length =
      (attributesFrom e (before ++ (record ++ behind)) (before.length + recordLength a)).map
        (a :: ·) := by
  obtain ⟨ty, payload⟩ := a
  obtain ⟨padding, hrecord, hlen⟩ := h
  dsimp only at hrecord ha
  have hheader := Rtattr.length_bytes e ⟨.ofNat (sizeOfRtattr + payload.length), ty⟩
  have hat : rtattrAt e (before ++ (record ++ behind)) before.length =
      ⟨.ofNat (sizeOfRtattr + payload.length), ty⟩ := by
    unfold rtattrAt
    rw [hrecord, List.append_assoc, List.append_assoc, slice_middle rfl hheader,
      Rtattr.read_bytes]
  have hrtaLen : (UInt16.ofNat (sizeOfRtattr + payload.length)).toNat =
      sizeOfRtattr + payload.length := UInt16.toNat_ofNat_of_lt' ha
  have hpayload : slice (before ++ (record ++ behind))
      ⟨before.length + sizeOfRtattr, payload.length⟩ = payload := by
    rw [hrecord, List.append_assoc, List.append_assoc, ← List.append_assoc before]
    exact slice_middle (by rw [List.length_append, hheader]) rfl _
  have hpadded : sizeOfRtattr + payload.length ≤ record.length := by
    rw [hrecord, List.length_append, List.length_append, hheader]
    omega
  have htotal : (before ++ (record ++ behind)).length =
      before.length + (record.length + behind.length) := by simp
  have hrtattr : 0 < sizeOfRtattr := by decide
  rw [attributesFrom, if_neg (by omega), hat, hrtaLen, dif_pos (by omega), Nat.add_sub_cancel_left,
    hpayload]
  rfl

/-- The walk over records finds the attributes they are of. -/
theorem attributesFrom_records {attributes : List (UInt16 × Bytes)} {records : List Bytes}
    (h : List.Forall₂ (IsRecord e) attributes records)
    (ha : ∀ a ∈ attributes, sizeOfRtattr + a.2.length < 2 ^ 16) (before : Bytes) :
    attributesFrom e (before ++ records.flatten) before.length = some attributes := by
  induction h generalizing before with
  | nil =>
    rw [attributesFrom, if_pos (by simp)]
  | @cons a record attributes records hrecord _ ih =>
    have hlen : before.length + recordLength a = (before ++ record).length := by
      rw [List.length_append]
      obtain ⟨_, _, hlen⟩ := hrecord
      rw [hlen]
    rw [List.flatten_cons, attributesFrom_record hrecord (ha a List.mem_cons_self), hlen,
      ← List.append_assoc, ih (fun a' ha' => ha a' (List.mem_cons_of_mem _ ha'))]
    rfl

theorem length_le_needed {attributes : List (UInt16 × Bytes)} {a : UInt16 × Bytes}
    (h : a ∈ attributes) : sizeOfRtattr + a.2.length ≤ needed attributes := by
  have hle : recordLength a ≤ needed attributes :=
    List.single_le_sum (fun _ _ => Nat.zero_le _) _ (List.mem_map_of_mem h)
  unfold recordLength roundUp4 at hle
  omega

end Reading

/-- The message carries the header, the body and the attributes, as the kernel reads them. -/
structure Carries (e : Endian) (body : Bytes) (attributes : List (UInt16 × Bytes))
    (ty flags : UInt16) (sequence : UInt32) (f : Finished) : Prop where
  front : f.message = f.buffer.take f.message.length
  length : f.message.length = (headerAt e f.message 0).nlmsgLen.toNat
  type : (headerAt e f.message 0).nlmsgType = ty
  flags : (headerAt e f.message 0).nlmsgFlags = flags
  headerSequence : (headerAt e f.message 0).nlmsgSeq = sequence
  oldSequence : f.oldSequence = sequence
  sequence : f.sequence.toNat = sequence.toNat + 1
  kept : slice f.message ⟨sizeOfNlmsghdr, body.length⟩ = body
  walked : attributesFrom e f.message (sizeOfNlmsghdr + body.length) = some attributes

section Messages
variable (e : Endian) {space body rest : Bytes} (attributes : List (UInt16 × Bytes))
  (ty flags : UInt16) {sequence : UInt32}

theorem built_nil (e : Endian) (before rest : Bytes) :
    Built e before (before ++ rest).length [] (before ++ rest, before.length) :=
  ⟨[], rest, .nil, by simp, by simp, rfl⟩

theorem dvd_front (hspace : space.length = sizeOfNlmsghdr) (hbody : 4 ∣ body.length) :
    4 ∣ (space ++ body).length := by
  rw [List.length_append, hspace]
  exact Nat.dvd_add (by decide) hbody

/-- A message for which there is room is written, and carries what it was made of. -/
theorem writeMessage_ok (hspace : space.length = sizeOfNlmsghdr) (hbody : 4 ∣ body.length)
    (hbuffer : (space ++ body ++ rest).length ≤ 65535) (hsequence : sequence.toNat < 2 ^ 32 - 1)
    (hfits : (space ++ body).length + needed attributes ≤ (space ++ body ++ rest).length) :
    ∃ f records, writeMessage e (space ++ body ++ rest) (space ++ body).length attributes ty flags
        sequence = .ok f ∧ List.Forall₂ (IsRecord e) attributes records ∧
      f.message = headerBytes e ⟨.ofNat (space.length + body.length + needed attributes), ty, flags,
        sequence, 0⟩ ++ body ++ records.flatten ∧
      Carries e body attributes ty flags sequence f := by
  have hbefore := dvd_front hspace hbody
  obtain ⟨r, hr, hbuilt⟩ := (built_nil e (space ++ body) rest).writeAttributes hbefore (by omega)
    attributes hfits
  rw [List.nil_append] at hbuilt
  have hend : r.2 = space.length + body.length + needed attributes := by
    rw [hbuilt.offset, List.length_append]
  obtain ⟨f, records, hfinish, hrecords, hmessage, hfront, hold, hnext⟩ :=
    hbuilt.finish hspace (by omega) ty flags hsequence
  rw [hend] at hfinish hmessage
  refine ⟨f, records, ?_, hrecords, hmessage, ?_⟩
  · unfold writeMessage
    rw [hr]
    show finishNetlinkMessage e r.1 r.2 ty flags sequence = _
    rw [hend, hfinish]
  generalize hof : (⟨.ofNat (space.length + body.length + needed attributes), ty, flags,
      sequence, 0⟩ : Nlmsghdr) = header at hmessage
  have hheader : (headerBytes e header).length = sizeOfNlmsghdr := length_headerBytes _ _
  have hread : headerAt e f.message 0 = header := by
    unfold headerAt
    rw [hmessage, List.append_assoc, slice_left hheader, read_headerBytes]
  have hlength : f.message.length = space.length + body.length + needed attributes := by
    calc f.message.length
        = (headerBytes e header).length + body.length + records.flatten.length := by
          rw [hmessage, List.length_append, List.length_append]
      _ = space.length + body.length + needed attributes := by
          rw [hheader, hspace, length_flatten_records hrecords]
  have hsmall : space.length + body.length + needed attributes ≤ 65535 := by
    rw [List.length_append] at hfits
    omega
  refine ⟨hfront, ?_, ?_, ?_, ?_, hold, ?_, ?_, ?_⟩
  · rw [hread, hlength, ← hof]
    exact (UInt32.toNat_ofNat_of_lt' (by simp only [UInt32.size]; omega)).symm
  · rw [hread, ← hof]
  · rw [hread, ← hof]
  · rw [hread, ← hof]
  · rw [hnext, UInt32.toNat_add]
    exact Nat.mod_eq_of_lt (by simp only [UInt32.toNat_one]; omega)
  · rw [hmessage, List.append_assoc]
    exact slice_middle hheader rfl _
  · have hwalk := attributesFrom_records hrecords (fun a ha => by
      have := length_le_needed ha
      omega) (headerBytes e header ++ body)
    rwa [List.length_append, hheader, ← hmessage] at hwalk

/-- Where there is no room, the message is refused. -/
theorem writeMessage_refused (hspace : space.length = sizeOfNlmsghdr) (hbody : 4 ∣ body.length)
    (hbuffer : (space ++ body ++ rest).length ≤ 65535)
    (hfits : (space ++ body ++ rest).length < (space ++ body).length + needed attributes) :
    writeMessage e (space ++ body ++ rest) (space ++ body).length attributes ty flags sequence =
      .error (.error .bufferTooSmall) := by
  have hbefore := dvd_front hspace hbody
  unfold writeMessage
  rw [(built_nil e (space ++ body) rest).writeAttributes_refused hbefore (by omega) attributes
    hfits]
  rfl

/-- A body written behind the space of the header, and then the attributes. -/
def writeBody (e : Endian) (buffer body : Bytes) (attributes : List (UInt16 × Bytes))
    (ty flags : UInt16) (sequence : UInt32) : Except (Stop Netlink) Finished := do
  let (buffer, offset) ← write buffer sizeOfNlmsghdr body
  writeMessage e buffer offset attributes ty flags sequence

theorem writeAddLoopbackAddress_eq (buffer : Bytes) (loopbackInterfaceIndex sequence : UInt32) :
    writeAddLoopbackAddress e buffer loopbackInterfaceIndex sequence =
      writeBody e buffer ((loopbackIfaddrmsg loopbackInterfaceIndex).bytes e)
        [(IFA_LOCAL, loopbackAddress), (IFA_ADDRESS, loopbackAddress)] RTM_NEWADDR
        (NLM_F_REQUEST ||| NLM_F_CREATE ||| NLM_F_EXCL ||| NLM_F_ACK) sequence := by
  simp [writeAddLoopbackAddress, writeBody, writeMessage]

theorem writeBringUpLoopbackDevice_eq (buffer : Bytes) (loopbackInterfaceIndex sequence : UInt32) :
    writeBringUpLoopbackDevice e buffer loopbackInterfaceIndex sequence =
      writeBody e buffer ((loopbackIfinfomsg loopbackInterfaceIndex).bytes e) [] RTM_NEWLINK
        (NLM_F_REQUEST ||| NLM_F_ACK) sequence := by
  simp [writeBringUpLoopbackDevice, writeBody, writeMessage]

/-- A record without padding is one sequence of bytes. -/
theorem IsRecord.eq {a : UInt16 × Bytes} {record : Bytes} (h : IsRecord e a record)
    (ha : 4 ∣ a.2.length) :
    record = Rtattr.bytes e ⟨.ofNat (sizeOfRtattr + a.2.length), a.1⟩ ++ a.2 := by
  obtain ⟨padding, hrecord, hlen⟩ := h
  have hpadding : padding.length = 0 := by
    rw [hrecord, List.length_append, List.length_append, Rtattr.length_bytes] at hlen
    unfold recordLength roundUp4 sizeOfRtattr at hlen
    omega
  rw [hrecord, List.length_eq_zero_iff.mp hpadding, List.append_nil]

theorem records_eq {attributes : List (UInt16 × Bytes)} {records : List Bytes}
    (h : List.Forall₂ (IsRecord e) attributes records) (ha : ∀ a ∈ attributes, 4 ∣ a.2.length) :
    records = attributes.map fun a =>
      Rtattr.bytes e ⟨.ofNat (sizeOfRtattr + a.2.length), a.1⟩ ++ a.2 := by
  induction h with
  | nil => rfl
  | cons hrecord _ ih =>
    rw [List.map_cons, hrecord.eq e (ha _ List.mem_cons_self),
      ← ih fun a ha' => ha a (List.mem_cons_of_mem _ ha')]

/-- The body is written behind some space for the header. -/
theorem write_body {buffer : Bytes} (hbuffer : buffer.length ≤ 65535)
    (hroom : sizeOfNlmsghdr + body.length ≤ buffer.length) :
    ∃ space rest, space.length = sizeOfNlmsghdr ∧ (space ++ body ++ rest).length = buffer.length ∧
      write buffer sizeOfNlmsghdr body = .ok (space ++ body ++ rest, (space ++ body).length) := by
  have hspace : (buffer.take sizeOfNlmsghdr).length = sizeOfNlmsghdr := by
    rw [List.length_take]
    omega
  refine ⟨buffer.take sizeOfNlmsghdr, buffer.drop (sizeOfNlmsghdr + body.length), hspace,
    length_overwrite hroom, ?_⟩
  rw [write_eq (by omega), if_pos hroom, List.length_append, hspace]
  rfl

/-- Without padding, the message does not depend on what the buffer held. -/
theorem writeBody_fixed (hbody : 4 ∣ body.length) (ha : ∀ a ∈ attributes, 4 ∣ a.2.length)
    (hsequence : sequence.toNat < 2 ^ 32 - 1) : ∃ message, ∀ buffer, buffer.length ≤ 65535 →
      ∀ f, writeBody e buffer body attributes ty flags sequence = .ok f → f.message = message := by
  refine ⟨headerBytes e ⟨.ofNat (sizeOfNlmsghdr + body.length + needed attributes), ty, flags,
    sequence, 0⟩ ++ body ++ (attributes.map fun a =>
      Rtattr.bytes e ⟨.ofNat (sizeOfRtattr + a.2.length), a.1⟩ ++ a.2).flatten, ?_⟩
  intro buffer hbuffer f hf
  unfold writeBody at hf
  by_cases hroom : sizeOfNlmsghdr + body.length ≤ buffer.length
  · obtain ⟨space, rest, hspace, hlen, hwrite⟩ := write_body hbuffer hroom
    rw [hwrite] at hf
    change writeMessage e (space ++ body ++ rest) (space ++ body).length attributes ty flags
      sequence = .ok f at hf
    by_cases hfits : (space ++ body).length + needed attributes ≤ (space ++ body ++ rest).length
    · obtain ⟨f', records, hf', hrecords, hmessage, _⟩ := writeMessage_ok e attributes ty flags
        hspace hbody (by omega) hsequence hfits
      rw [hf'] at hf
      cases hf
      rw [hmessage, hspace, records_eq e hrecords ha]
    · rw [writeMessage_refused e attributes ty flags hspace hbody (by omega) (by omega)] at hf
      cases hf
  · rw [write_eq (by omega), if_neg hroom] at hf
    cases hf

/-- What is written is what the kernel reads: in every buffer, a message fails only for want of
room, and otherwise it carries its header, its body and exactly its attributes. A message of the
loopback device is the same whatever the buffer held. -/
theorem message_walked_back (hspace : space.length = sizeOfNlmsghdr) (hbody : 4 ∣ body.length)
    (hbuffer : (space ++ body ++ rest).length ≤ 65535) (hsequence : sequence.toNat < 2 ^ 32 - 1) :
    (∀ f, writeMessage e (space ++ body ++ rest) (space ++ body).length attributes ty flags
        sequence = .ok f → Carries e body attributes ty flags sequence f) ∧
    (∀ stop, writeMessage e (space ++ body ++ rest) (space ++ body).length attributes ty flags
        sequence = .error stop → stop = .error .bufferTooSmall ∧
          (space ++ body ++ rest).length < (space ++ body).length + needed attributes) ∧
    ∀ loopbackInterfaceIndex,
      (∃ message, ∀ buffer, buffer.length ≤ 65535 → ∀ f,
        writeAddLoopbackAddress e buffer loopbackInterfaceIndex sequence = .ok f →
          f.message = message) ∧
      ∃ message, ∀ buffer, buffer.length ≤ 65535 → ∀ f,
        writeBringUpLoopbackDevice e buffer loopbackInterfaceIndex sequence = .ok f →
          f.message = message := by
  refine ⟨?_, ?_, ?_⟩
  · intro f hf
    by_cases hfits : (space ++ body).length + needed attributes ≤ (space ++ body ++ rest).length
    · obtain ⟨f', _, hf', _, _, hcarries⟩ :=
        writeMessage_ok e attributes ty flags hspace hbody hbuffer hsequence hfits
      rw [hf'] at hf
      cases hf
      exact hcarries
    · rw [writeMessage_refused e attributes ty flags hspace hbody hbuffer (by omega)] at hf
      cases hf
  · intro stop hstop
    by_cases hfits : (space ++ body).length + needed attributes ≤ (space ++ body ++ rest).length
    · obtain ⟨f', _, hf', _⟩ :=
        writeMessage_ok e attributes ty flags hspace hbody hbuffer hsequence hfits
      rw [hf'] at hstop
      cases hstop
    · rw [writeMessage_refused e attributes ty flags hspace hbody hbuffer (by omega)] at hstop
      cases hstop
      exact ⟨rfl, by omega⟩
  · intro loopbackInterfaceIndex
    constructor
    · simp only [writeAddLoopbackAddress_eq]
      apply writeBody_fixed e _ _ _ _ _ hsequence
      · simp [Ifaddrmsg.bytes]
      · simp [loopbackAddress]
    · simp only [writeBringUpLoopbackDevice_eq]
      apply writeBody_fixed e _ _ _ _ _ hsequence
      · simp [Ifinfomsg.bytes]
      · simp

end Messages

/-- Two payloads of odd lengths, over a buffer of old bytes with none to spare. -/
theorem message_walked_back_odd :
    ∃ f, writeMessage .little (List.replicate 32 0xff) 16 [(1, [5]), (2, [6, 7, 8])] 20 1 7 =
        .ok f ∧
      Carries .little [] [(1, [5]), (2, [6, 7, 8])] 20 1 7 f :=
  ⟨_, rfl, (@message_walked_back .little (List.replicate 16 0xff) [] (List.replicate 16 0xff)
    [(1, [5]), (2, [6, 7, 8])] 20 1 7 rfl ⟨0, rfl⟩ (by decide) (by decide)).1 _ rfl⟩

end LayerCake.Meowix.Message
