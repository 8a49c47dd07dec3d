import LayerCake.Effects.Loads
import LayerCake.Meowix.Util

/-
  The messages of a netlink datagram, as `check_for_ack` in `meowix/src/netlink.rs`
  walks over them.

  Correspondence (Rust ↔ Lean):
    `nlmsghdr`, `nlmsgerr` read with `ptr::read_unaligned` ↔ `Nlmsghdr.read`, `Nlmsgerr.read`
    `usize::checked_add`, `checked_next_multiple_of`       ↔ `checkedAdd`, …
    the `match` on `nlmsgerr::error`                       ↔ `ofError`
    the `while` over the messages of a datagram            ↔ `messagesFrom`

  What is proved: the loads stay inside the bytes that were read
  (`messagesFrom_calls`), every datagram is judged by its first message that is not
  passed over (`Judged.exists`), and the walk gives that judgement (`Judged.eq`).
-/

namespace LayerCake.Meowix

open Effects

/-! ## The messages of a datagram -/

/-- `size_of::<nlmsghdr>()`. -/
def sizeOfNlmsghdr : Nat := 16

/-- `size_of::<nlmsgerr>()`. -/
def sizeOfNlmsgerr : Nat := 20

def NLMSG_ERROR : UInt32 := 2

/-- `netlink::nlmsghdr`. -/
structure Nlmsghdr where
  nlmsgLen : UInt32
  nlmsgType : UInt16
  nlmsgFlags : UInt16
  nlmsgSeq : UInt32
  nlmsgPid : UInt32
  deriving DecidableEq, Repr

/-- A header of the bytes it is stored as. -/
def Nlmsghdr.read (e : Endian) (bytes : Bytes) : Nlmsghdr where
  nlmsgLen := .ofNat (e.value (slice bytes ⟨0, 4⟩))
  nlmsgType := .ofNat (e.value (slice bytes ⟨4, 2⟩))
  nlmsgFlags := .ofNat (e.value (slice bytes ⟨6, 2⟩))
  nlmsgSeq := .ofNat (e.value (slice bytes ⟨8, 4⟩))
  nlmsgPid := .ofNat (e.value (slice bytes ⟨12, 4⟩))

/-- `netlink::nlmsgerr`. -/
structure Nlmsgerr where
  error : Int32
  msg : Nlmsghdr
  deriving DecidableEq, Repr

def Nlmsgerr.read (e : Endian) (bytes : Bytes) : Nlmsgerr where
  error := (UInt32.ofNat (e.value (slice bytes ⟨0, 4⟩))).toInt32
  msg := .read e (slice bytes ⟨4, 16⟩)

/-- `usize::checked_add`. -/
def checkedAdd (a b : Nat) : Option Nat := if a + b < 2 ^ 64 then some (a + b) else none

/-- `usize::checked_next_multiple_of`. -/
def checkedNextMultipleOf (n m : Nat) : Option Nat :=
  if m = 0 then none else if n % m = 0 then some n else checkedAdd n (m - n % m)

theorem checkedAdd_eq {a b c : Nat} (h : checkedAdd a b = some c) : c = a + b := by
  unfold checkedAdd at h
  split at h
  · exact (Option.some.inj h).symm
  · cases h

theorem le_checkedNextMultipleOf {n m c : Nat} (h : checkedNextMultipleOf n m = some c) :
    n ≤ c := by
  unfold checkedNextMultipleOf at h
  split at h
  · cases h
  · split at h
    · exact (Option.some.inj h).le
    · have := checkedAdd_eq h
      omega

/-- How the walk over a datagram ends when it does not fail. -/
inductive Walked where
  | exhausted | acknowledged
  deriving DecidableEq, Repr

theorem toNat_of_error {error : Int32} (h : -4095 ≤ error ∧ error ≤ -1) :
    2 ^ 32 - 4095 ≤ error.toUInt32.toNat ∧ (error.toUInt32.toNat : Int) = 2 ^ 32 + error.toInt := by
  have hlo : -4095 ≤ error.toInt := Int32.le_iff_toInt_le.mp h.1
  have hhi : error.toInt ≤ -1 := Int32.le_iff_toInt_le.mp h.2
  have hnat : error.toInt = if 2 * error.toUInt32.toNat < 2 ^ 32 then (error.toUInt32.toNat : Int)
      else (error.toUInt32.toNat : Int) - 2 ^ 32 := BitVec.toInt_eq_toNat_cond error.toBitVec
  split at hnat
  · omega
  · omega

theorem Errno.valid_of_error {error : Int32} (h : -4095 ≤ error ∧ error ≤ -1) :
    0xf001 ≤ error.toUInt32.toUInt16 := by
  obtain ⟨hlo, _⟩ := toNat_of_error h
  have hhi : error.toUInt32.toNat < 2 ^ 32 := error.toUInt32.toNat_lt
  rw [UInt16.le_iff_toNat_le, UInt32.toNat_toUInt16]
  simp only [UInt16.toNat_ofNat]
  omega

theorem rawOsError_of_error {error : Int32} (h : -4095 ≤ error ∧ error ≤ -1) :
    (Errno.mk error.toUInt32.toUInt16 (Errno.valid_of_error h)).rawOsError = -error := by
  obtain ⟨hlo, _⟩ := toNat_of_error h
  have hhi : error.toUInt32.toNat < 2 ^ 32 := error.toUInt32.toNat_lt
  have hneg : (-error).toUInt32.toNat = 2 ^ 32 - error.toUInt32.toNat := by
    show (-error.toBitVec).toNat = _
    rw [BitVec.toNat_neg, Nat.mod_eq_of_lt]
    · rfl
    · show 2 ^ 32 - error.toUInt32.toNat < 2 ^ 32
      omega
  have hraw := Errno.rawOsError_toNat ⟨error.toUInt32.toUInt16, Errno.valid_of_error h⟩
  simp only [UInt32.toNat_toUInt16] at hraw
  have : (Errno.mk error.toUInt32.toUInt16 (Errno.valid_of_error h)).rawOsError.toUInt32 =
      (-error).toUInt32 := by
    apply UInt32.toNat_inj.mp
    rw [hraw, hneg]
    omega
  exact congrArg UInt32.toInt32 this
/-- What the error of an `nlmsgerr` makes of the walk. -/
def ofError (error : Int32) : Except Netlink Walked :=
  if error = 0 then .ok .acknowledged
  else if h : -4095 ≤ error ∧ error ≤ -1 then
    .error (.errno ⟨error.toUInt32.toUInt16, Errno.valid_of_error h⟩)
  else .error (.invalidError error)

theorem ofError_zero : ofError 0 = .ok .acknowledged := rfl

/-- The negated number of an errno is read as that errno. -/
theorem ofError_neg (error : Errno) : ofError (-error.rawOsError) = .error (.errno error) := by
  obtain ⟨hlo, hhi⟩ := error.rawOsError_range
  have hint : error.rawOsError.toInt = error.rawOsError.toUInt32.toNat := by
    show error.rawOsError.toBitVec.toInt = _
    rw [BitVec.toInt_eq_toNat_cond, if_pos]
    · rfl
    · show 2 * error.rawOsError.toUInt32.toNat < 2 ^ 32
      omega
  have hneg : (-error.rawOsError).toInt = -(error.rawOsError.toUInt32.toNat : Int) := by
    rw [Int32.toInt_neg, hint, Int.bmod_eq_of_le]
    · omega
    · omega
  have hrange : -4095 ≤ -error.rawOsError ∧ -error.rawOsError ≤ -1 := by
    constructor
    · apply Int32.le_iff_toInt_le.mpr
      rw [hneg]
      show (-4095 : Int) ≤ _
      omega
    · apply Int32.le_iff_toInt_le.mpr
      rw [hneg]
      show _ ≤ (-1 : Int)
      omega
  have hzero : ¬ -error.rawOsError = 0 := by
    intro h
    have := congrArg Int32.toInt h
    rw [hneg] at this
    simp only [Int32.toInt_zero] at this
    omega
  unfold ofError
  rw [if_neg hzero, dif_pos hrange]
  congr 2
  apply Errno.rawOsError_injective
  rw [rawOsError_of_error hrange, Int32.neg_neg]

theorem ofError_invalid {error : Int32} (h : error < -4095 ∨ 0 < error) :
    ofError error = .error (.invalidError error) := by
  have h' : error.toInt < -4095 ∨ 0 < error.toInt := by
    rcases h with h | h
    · exact .inl (Int32.lt_iff_toInt_lt.mp h)
    · exact .inr (Int32.lt_iff_toInt_lt.mp h)
  have hzero : ¬ error = 0 := by
    intro h
    subst h
    simp only [Int32.toInt_zero] at h'
    omega
  have hrange : ¬ (-4095 ≤ error ∧ error ≤ -1) := by
    intro h
    obtain ⟨hlo, hhi⟩ := h
    have hlo' : -4095 ≤ error.toInt := Int32.le_iff_toInt_le.mp hlo
    have hhi' : error.toInt ≤ -1 := Int32.le_iff_toInt_le.mp hhi
    omega
  unfold ofError
  rw [if_neg hzero, dif_neg hrange]

/-- Every error is none, the negated number of an errno, or invalid. -/
theorem error_cases (error : Int32) :
    error = 0 ∨ (∃ e : Errno, error = -e.rawOsError) ∨ error < -4095 ∨ 0 < error := by
  by_cases h : -4095 ≤ error ∧ error ≤ -1
  · refine .inr (.inl ⟨⟨_, Errno.valid_of_error h⟩, ?_⟩)
    rw [rawOsError_of_error h, Int32.neg_neg]
  · by_cases hzero : error.toInt = 0
    · exact .inl (Int32.toInt_inj.mp hzero)
    · refine .inr (.inr ?_)
      rw [Int32.le_iff_toInt_le, Int32.le_iff_toInt_le] at h
      rw [Int32.lt_iff_toInt_lt, Int32.lt_iff_toInt_lt]
      change ¬ ((-4095 : Int) ≤ _ ∧ _ ≤ (-1 : Int)) at h
      show _ < (-4095 : Int) ∨ (0 : Int) < _
      omega

/-- The walk over the messages of the first `nRead` bytes, from `offset` on. -/
def messagesFrom (e : Endian) (sequence : UInt32) (nRead offset : Nat) :
    Prog Loads (Except Netlink Walked) :=
  if _h : offset < nRead then
    if nRead - offset < sizeOfNlmsghdr then return .error .malformedHeader
    else do
      let header := Nlmsghdr.read e (← load offset sizeOfNlmsghdr)
      if _hlen : header.nlmsgLen.toNat < sizeOfNlmsghdr ∨
          nRead - offset < header.nlmsgLen.toNat then
        return .error .malformedHeader
      else if header.nlmsgSeq ≠ sequence then return .error .sequenceMismatch
      else if header.nlmsgType.toUInt32 = NLMSG_ERROR then
        if header.nlmsgLen.toNat < sizeOfNlmsghdr + sizeOfNlmsgerr then return .error .incorrectSize
        else
          let error := Nlmsgerr.read e (← load (offset + sizeOfNlmsghdr) sizeOfNlmsgerr)
          return ofError error.error
      else
        match _hm : checkedNextMultipleOf header.nlmsgLen.toNat 4 with
        | none => return .error .integerOverflow
        | some alignedLength =>
          match _ha : checkedAdd offset alignedLength with
          | none => return .error .integerOverflow
          | some next => messagesFrom e sequence nRead next
  else return .ok .exhausted
termination_by nRead - offset
decreasing_by
  have h1 := le_checkedNextMultipleOf _hm
  have h2 := checkedAdd_eq _ha
  unfold sizeOfNlmsghdr at _hlen
  omega

theorem messagesFrom_calls (e : Endian) (sequence : UInt32) (nRead offset : Nat) :
    (messagesFrom e sequence nRead offset).Calls (Load.Within nRead) := by
  generalize hn : nRead - offset = n
  induction n using Nat.strongRecOn generalizing offset with
  | ind n ih =>
    rw [messagesFrom]
    split
    · split
      · trivial
      · next hlt hheader =>
        apply (load_calls (by omega)).bind
        intro bytes
        dsimp only
        split
        · trivial
        · next hlen =>
          split
          · trivial
          · split
            · split
              · trivial
              · next hfull =>
                apply (load_calls (by omega)).bind
                intro bytes'
                trivial
            · split
              · trivial
              · next alignedLength hm =>
                split
                · trivial
                · next next ha =>
                  have h1 := le_checkedNextMultipleOf hm
                  have h2 := checkedAdd_eq ha
                  unfold sizeOfNlmsghdr at hlen
                  exact ih (nRead - next) (by omega) next rfl
    · trivial

/-! ## What a datagram says -/

/-- The least multiple of four that is no less than `n`. -/
def roundUp4 (n : Nat) : Nat := (n + 3) / 4 * 4

/-- What one message of a datagram makes of the walk. -/
inductive Verdict where
  | next (offset : Nat)
  | acknowledged
  | fault (error : Netlink)

section Datagrams
variable (e : Endian) (sequence : UInt32) (datagram : Bytes)

/-- The header at an offset of a datagram. -/
def headerAt (offset : Nat) : Nlmsghdr := .read e (slice datagram ⟨offset, sizeOfNlmsghdr⟩)

/-- The error behind the header at an offset. -/
def errorAt (offset : Nat) : Int32 :=
  (Nlmsgerr.read e (slice datagram ⟨offset + sizeOfNlmsghdr, sizeOfNlmsgerr⟩)).error

/-- A header is there, and the message of its length lies in the datagram. -/
structure WellFormedAt (offset : Nat) : Prop where
  header : offset + sizeOfNlmsghdr ≤ datagram.length
  lower : sizeOfNlmsghdr ≤ (headerAt e datagram offset).nlmsgLen.toNat
  upper : offset + (headerAt e datagram offset).nlmsgLen.toNat ≤ datagram.length

/-- A well-formed message of the sequence, an `NLMSG_ERROR` or not. -/
structure OfSequence (offset : Nat) (isError : Prop) : Prop extends
    WellFormedAt e datagram offset where
  sequence : (headerAt e datagram offset).nlmsgSeq = sequence
  type : (headerAt e datagram offset).nlmsgType.toUInt32 = NLMSG_ERROR ↔ isError

/-- An `NLMSG_ERROR` of the sequence that has room for its `nlmsgerr`. -/
structure FullError (offset : Nat) : Prop extends OfSequence e sequence datagram offset True where
  full : sizeOfNlmsghdr + sizeOfNlmsgerr ≤ (headerAt e datagram offset).nlmsgLen.toNat

/-- What the message at an offset says. -/
inductive MessageAt (offset : Nat) : Verdict → Prop
  | malformed (h : ¬ WellFormedAt e datagram offset) : MessageAt offset (.fault .malformedHeader)
  | foreign (h : WellFormedAt e datagram offset)
      (hseq : (headerAt e datagram offset).nlmsgSeq ≠ sequence) :
      MessageAt offset (.fault .sequenceMismatch)
  | other (h : OfSequence e sequence datagram offset False) :
      MessageAt offset (.next (offset + roundUp4 (headerAt e datagram offset).nlmsgLen.toNat))
  | short (h : OfSequence e sequence datagram offset True)
      (hlen : (headerAt e datagram offset).nlmsgLen.toNat < sizeOfNlmsghdr + sizeOfNlmsgerr) :
      MessageAt offset (.fault .incorrectSize)
  | acknowledged (h : FullError e sequence datagram offset)
      (herr : errorAt e datagram offset = 0) : MessageAt offset .acknowledged
  | refused (h : FullError e sequence datagram offset) (error : Errno)
      (herr : errorAt e datagram offset = -error.rawOsError) :
      MessageAt offset (.fault (.errno error))
  | invalid (h : FullError e sequence datagram offset)
      (herr : errorAt e datagram offset < -4095 ∨ 0 < errorAt e datagram offset) :
      MessageAt offset (.fault (.invalidError (errorAt e datagram offset)))

/-- Up to the offset, the datagram holds well-formed messages of the sequence, none of
them an `NLMSG_ERROR`. -/
inductive CleanTo : Nat → Prop
  | start : CleanTo 0
  | message {offset next : Nat} (h : CleanTo offset) (hlt : offset < datagram.length)
      (hm : MessageAt e sequence datagram offset (.next next)) : CleanTo next

/-- What the first message that ends the walk over the datagram says, if one does. -/
inductive Judged : Except Netlink Walked → Prop
  | exhausted {offset : Nat} (h : CleanTo e sequence datagram offset)
      (hend : datagram.length ≤ offset) : Judged (.ok .exhausted)
  | acknowledged {offset : Nat} (h : CleanTo e sequence datagram offset)
      (hlt : offset < datagram.length) (hm : MessageAt e sequence datagram offset .acknowledged) :
      Judged (.ok .acknowledged)
  | fault {offset : Nat} {error : Netlink} (h : CleanTo e sequence datagram offset)
      (hlt : offset < datagram.length)
      (hm : MessageAt e sequence datagram offset (.fault error)) : Judged (.error error)

end Datagrams

section Walk
variable {e : Endian} {sequence : UInt32} {datagram : Bytes} {offset : Nat}

/-- Some verdict is given on every message. -/
theorem MessageAt.exists (e : Endian) (sequence : UInt32) (datagram : Bytes) (offset : Nat) :
    ∃ v, MessageAt e sequence datagram offset v := by
  by_cases h : WellFormedAt e datagram offset
  · by_cases hseq : (headerAt e datagram offset).nlmsgSeq = sequence
    · by_cases htype : (headerAt e datagram offset).nlmsgType.toUInt32 = NLMSG_ERROR
      · have hof : OfSequence e sequence datagram offset True := ⟨h, hseq, iff_true_intro htype⟩
        by_cases hlen : (headerAt e datagram offset).nlmsgLen.toNat <
            sizeOfNlmsghdr + sizeOfNlmsgerr
        · exact ⟨_, .short hof hlen⟩
        · have hfull : FullError e sequence datagram offset := ⟨hof, Nat.le_of_not_lt hlen⟩
          rcases error_cases (errorAt e datagram offset) with herr | ⟨error, herr⟩ | herr
          · exact ⟨_, .acknowledged hfull herr⟩
          · exact ⟨_, .refused hfull error herr⟩
          · exact ⟨_, .invalid hfull herr⟩
      · exact ⟨_, .other ⟨h, hseq, iff_false_intro htype⟩⟩
    · exact ⟨_, .foreign h hseq⟩
  · exact ⟨_, .malformed h⟩

theorem checkedNextMultipleOf_four {n : Nat} (h : n < 2 ^ 63) :
    checkedNextMultipleOf n 4 = some (roundUp4 n) := by
  unfold checkedNextMultipleOf roundUp4
  rw [if_neg (by decide)]
  split
  · next hmod =>
    congr 1
    omega
  · next hmod =>
    unfold checkedAdd
    rw [if_pos (by omega)]
    congr 1
    omega

/-- The walk from the offset on, over the datagram. -/
def walkFrom (e : Endian) (sequence : UInt32) (datagram : Bytes) (offset : Nat) :
    Except Netlink Walked :=
  (messagesFrom e sequence datagram.length offset).eval (slice datagram)

theorem walkFrom_end (h : datagram.length ≤ offset) :
    walkFrom e sequence datagram offset = .ok .exhausted := by
  unfold walkFrom
  rw [messagesFrom, dif_neg (by omega)]
  rfl

/-- The walk past a header that is there. -/
theorem walkFrom_header (h : offset + sizeOfNlmsghdr ≤ datagram.length) :
    walkFrom e sequence datagram offset =
      if (headerAt e datagram offset).nlmsgLen.toNat < sizeOfNlmsghdr ∨
          datagram.length - offset < (headerAt e datagram offset).nlmsgLen.toNat then
        .error .malformedHeader
      else if (headerAt e datagram offset).nlmsgSeq ≠ sequence then .error .sequenceMismatch
      else if (headerAt e datagram offset).nlmsgType.toUInt32 = NLMSG_ERROR then
        if (headerAt e datagram offset).nlmsgLen.toNat < sizeOfNlmsghdr + sizeOfNlmsgerr then
          .error .incorrectSize
        else ofError (errorAt e datagram offset)
      else
        match checkedNextMultipleOf (headerAt e datagram offset).nlmsgLen.toNat 4 with
        | none => .error .integerOverflow
        | some alignedLength =>
          match checkedAdd offset alignedLength with
          | none => .error .integerOverflow
          | some next => walkFrom e sequence datagram next := by
  have hlt : offset < datagram.length := by
    unfold sizeOfNlmsghdr at h
    omega
  unfold walkFrom
  rw [messagesFrom, dif_pos hlt, if_neg (by omega), Prog.eval_bind, eval_load]
  change Prog.eval _ (if _h : (headerAt e datagram offset).nlmsgLen.toNat < sizeOfNlmsghdr ∨
    datagram.length - offset < (headerAt e datagram offset).nlmsgLen.toNat then _ else _) = _
  split
  · rfl
  · next hlen =>
    show Prog.eval _ (if (headerAt e datagram offset).nlmsgSeq ≠ sequence then _ else _) = _
    split
    · rfl
    · show Prog.eval _ (if (headerAt e datagram offset).nlmsgType.toUInt32 = NLMSG_ERROR then _
        else _) = _
      split
      · show Prog.eval _ (if (headerAt e datagram offset).nlmsgLen.toNat <
          sizeOfNlmsghdr + sizeOfNlmsgerr then _ else _) = _
        split
        · rfl
        · rfl
      · split
        · next hm =>
          rw [show checkedNextMultipleOf (headerAt e datagram offset).nlmsgLen.toNat 4 =
            none from hm]
          rfl
        · next alignedLength hm =>
          rw [show checkedNextMultipleOf (headerAt e datagram offset).nlmsgLen.toNat 4 =
            some alignedLength from hm]
          split
          · next ha => simp only [ha, Prog.pure_eq, Prog.eval_done]
          · next next ha => simp only [ha]

theorem walkFrom_full (h : FullError e sequence datagram offset) :
    walkFrom e sequence datagram offset = ofError (errorAt e datagram offset) := by
  obtain ⟨⟨⟨hheader, hlower, hupper⟩, hseq, htype⟩, hfull⟩ := h
  rw [walkFrom_header hheader, if_neg (by omega), if_neg (not_not_intro hseq),
    if_pos (htype.mpr trivial), if_neg (by omega)]

/-- The walk does what the message at the offset says. -/
theorem walkFrom_message {v : Verdict} (h : MessageAt e sequence datagram offset v)
    (hlt : offset < datagram.length) (hlen : datagram.length < 2 ^ 62) :
    walkFrom e sequence datagram offset = match v with
      | .next next => walkFrom e sequence datagram next
      | .acknowledged => .ok .acknowledged
      | .fault error => .error error := by
  cases h with
  | malformed h =>
    by_cases hheader : offset + sizeOfNlmsghdr ≤ datagram.length
    · rw [walkFrom_header hheader, if_pos]
      by_contra hbounds
      exact h ⟨hheader, by omega, by omega⟩
    · unfold walkFrom
      rw [messagesFrom, dif_pos hlt, if_pos (by omega)]
      rfl
  | foreign h hseq =>
    obtain ⟨hheader, hlower, hupper⟩ := h
    rw [walkFrom_header hheader, if_neg (by omega), if_pos hseq]
  | other h =>
    obtain ⟨⟨hheader, hlower, hupper⟩, hseq, htype⟩ := h
    rw [walkFrom_header hheader, if_neg (by omega), if_neg (not_not_intro hseq),
      if_neg (htype.not.mpr not_false), checkedNextMultipleOf_four (by omega)]
    have hnext : checkedAdd offset (roundUp4 (headerAt e datagram offset).nlmsgLen.toNat) =
        some (offset + roundUp4 (headerAt e datagram offset).nlmsgLen.toNat) := by
      unfold checkedAdd
      rw [if_pos]
      unfold roundUp4
      omega
    simp only [hnext]
  | short h hshort =>
    obtain ⟨⟨hheader, hlower, hupper⟩, hseq, htype⟩ := h
    rw [walkFrom_header hheader, if_neg (by omega), if_neg (not_not_intro hseq),
      if_pos (htype.mpr trivial), if_pos hshort]
  | acknowledged h herr =>
    rw [walkFrom_full h, herr, ofError_zero]
  | refused h error herr =>
    rw [walkFrom_full h, herr, ofError_neg]
  | invalid h herr =>
    rw [walkFrom_full h, ofError_invalid herr]

theorem CleanTo.walkFrom_eq (h : CleanTo e sequence datagram offset)
    (hlen : datagram.length < 2 ^ 62) :
    walkFrom e sequence datagram 0 = walkFrom e sequence datagram offset := by
  induction h with
  | start => rfl
  | message h hlt hm ih => rw [ih, walkFrom_message hm hlt hlen]

/-- What a datagram says is what the walk over it makes of it. -/
theorem Judged.eq {r : Except Netlink Walked} (h : Judged e sequence datagram r)
    (hlen : datagram.length < 2 ^ 62) : walkFrom e sequence datagram 0 = r := by
  cases h with
  | exhausted h hend => rw [h.walkFrom_eq hlen, walkFrom_end hend]
  | acknowledged h hlt hm => rw [h.walkFrom_eq hlen, walkFrom_message hm hlt hlen]
  | fault h hlt hm => rw [h.walkFrom_eq hlen, walkFrom_message hm hlt hlen]

theorem MessageAt.lt_next {next : Nat} (h : MessageAt e sequence datagram offset (.next next)) :
    offset < next := by
  cases h with
  | other h =>
    have hlower := h.lower
    unfold sizeOfNlmsghdr at hlower
    unfold roundUp4
    omega

/-- Every datagram says something: finitely many messages are passed. -/
theorem Judged.exists (e : Endian) (sequence : UInt32) (hlen : datagram.length < 2 ^ 62) :
    ∃ r, Judged e sequence datagram r := by
  suffices h : ∀ n offset, datagram.length - offset = n → CleanTo e sequence datagram offset →
      ∃ r, Judged e sequence datagram r from h _ 0 rfl .start
  intro n
  induction n using Nat.strongRecOn with
  | ind n ih =>
    intro offset hn hclean
    by_cases hlt : offset < datagram.length
    · obtain ⟨v, hm⟩ := MessageAt.exists e sequence datagram offset
      cases v with
      | next next =>
        have := hm.lt_next
        exact ih (datagram.length - next) (by omega) next rfl (hclean.message hlt hm)
      | acknowledged => exact ⟨_, .acknowledged hclean hlt hm⟩
      | fault error => exact ⟨_, .fault hclean hlt hm⟩
    · exact ⟨_, .exhausted hclean (Nat.le_of_not_lt hlt)⟩

theorem Judged.unique {datagram : Bytes} {r r' : Except Netlink Walked}
    (hlen : datagram.length < 2 ^ 62) (h : Judged e sequence datagram r)
    (h' : Judged e sequence datagram r') : r = r' :=
  (h.eq hlen).symm.trans (h'.eq hlen)

end Walk

end LayerCake.Meowix
