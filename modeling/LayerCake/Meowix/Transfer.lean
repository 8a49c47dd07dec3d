import Mathlib.Data.List.Induction
import LayerCake.Effects.Loop
import LayerCake.Effects.Unchecked
import LayerCake.Meowix.Util

/-
  The loops of `FdReadWriteExt` (`meowix/src/util.rs`) on the memory they fill, and
  what the answers of the kernel make of them.

  Correspondence (Rust ↔ Lean):
    `&mut [MaybeUninit<u8>]`, `&mut [u8]`       ↔ `List (Option UInt8)`, `List UInt8`
    the loop of the three reads into a buffer   ↔ `readIntoFrom`
    `read_until_full_uninit`, `read_until_full` ↔ `FdReadWriteExt.readUntilFullUninit`, …
    `read_array::<N>`                           ↔ `FdReadWriteExt.readArray`
    `MaybeUninit::array_assume_init`            ↔ `assumeInit`
    `read_to_end`, a turn of its loop           ↔ `FdReadWriteExt.readToEndTurn`
  `write_until_stalled` and `write_all` are those of `Util`. What `Vec::reserve`
  makes of a capacity is left open but for its documented lower bound.

  What is proved: for every sequence of answers the loops place the bytes they are
  given one after another, ask for what is left and no more, and return what they
  were given (`transfers_exact`).
-/

namespace LayerCake.Meowix

open Effects

/-! ## Reads into a buffer -/

section Buffers
variable {I : Interface} {α : Type}

/-- The loop of the reads into a buffer, with its first `i` slots written: what a slot
becomes when a byte is read into it, and what an answer of zero bytes returns, differ. -/
def readIntoFrom (read : Nat → Prog I (Except Errno Bytes)) (init : UInt8 → α)
    (onZero : Nat → Except PartialTransfer Nat) (buf : List α) (i : Nat) :
    Prog I (List α × Except PartialTransfer Nat) :=
  if _h : i < buf.length then do
    match ← read (buf.length - i) with
    | .ok bytes =>
      if _hb : bytes.length = 0 then return (buf, onZero i)
      else
        readIntoFrom read init onZero
          (buf.take i ++ bytes.map init ++ buf.drop (i + bytes.length)) (i + bytes.length)
    | .error e => return (buf, .error ⟨i, some ⟨.read, e⟩⟩)
  else return (buf, .ok i)
termination_by buf.length - i
decreasing_by
  simp only [List.length_append, List.length_take, List.length_map, List.length_drop]
  omega

namespace FdReadWriteExt

def readUntilFullUninit (read : Nat → Prog I (Except Errno Bytes)) (buf : List (Option UInt8)) :
    Prog I (List (Option UInt8) × Except PartialTransfer Nat) :=
  readIntoFrom read some .ok buf 0

def readUntilFull (read : Nat → Prog I (Except Errno Bytes)) (buf : Bytes) :
    Prog I (Bytes × Except PartialTransfer Nat) :=
  readIntoFrom read id .ok buf 0

/-- `array_assume_init`, undefined where a slot was not written. -/
def assumeInit (buf : List (Option UInt8)) : Except (Stop PartialTransfer) Bytes :=
  match buf.mapM id with
  | some bytes => .ok bytes
  | none => .error .undefined

theorem assumeInit_map (bytes : Bytes) : assumeInit (bytes.map some) = .ok bytes := by
  unfold assumeInit
  have h : (bytes.map some).mapM id = some bytes := by
    induction bytes with
    | nil => rfl
    | cons b bytes ih => simp [ih]
  rw [h]

/-- What `read_array` makes of its buffer after the loop. -/
def finishArray : List (Option UInt8) × Except PartialTransfer Nat →
    Except (Stop PartialTransfer) Bytes
  | (buf, .ok _) => assumeInit buf
  | (_, .error e) => .error (.error e)

def readArray (read : Nat → Prog I (Except Errno Bytes)) (N : Nat) :
    Prog I (Except (Stop PartialTransfer) Bytes) := do
  let filled ← readIntoFrom read some (fun i => .error ⟨i, none⟩) (List.replicate N none) 0
  return finishArray filled

end FdReadWriteExt

end Buffers

section Abstraction
variable {I : Interface} {α : Type}

/-- The buffer once these bytes were read into it. -/
def placed (init : UInt8 → α) (buf : List α) (got : Bytes) : List α :=
  got.map init ++ buf.drop got.length

theorem placed_length (init : UInt8 → α) (buf : List α) (got : Bytes) :
    (placed init buf got).length = max buf.length got.length := by
  simp [placed]
  omega

theorem placed_length_of_le (init : UInt8 → α) {buf : List α} {got : Bytes}
    (h : got.length ≤ buf.length) : (placed init buf got).length = buf.length := by
  rw [placed_length]
  omega

/-- The next bytes go behind those before. -/
theorem placed_append (init : UInt8 → α) (buf : List α) (got bytes : Bytes) :
    (placed init buf got).take got.length ++ bytes.map init ++
      (placed init buf got).drop (got.length + bytes.length) = placed init buf (got ++ bytes) := by
  unfold placed
  rw [List.take_left' (by simp), List.drop_append]
  simp

/-- The loop on a buffer is the loop that gathers the bytes. -/
theorem readIntoFrom_eq (read : Nat → Prog I (Except Errno Bytes)) (init : UInt8 → α)
    (buf : List α) (got : Bytes) :
    readIntoFrom read init .ok (placed init buf got) got.length =
      (readUntilFullFrom read buf.length got >>= fun filled =>
        .done (placed init buf filled.1, match filled.2 with
          | none => .ok filled.1.length
          | some e => .error e)) := by
  induction hn : buf.length - got.length using Nat.strongRecOn generalizing got with
  | ind n ih =>
    rw [readIntoFrom, readUntilFullFrom]
    by_cases hlt : got.length < buf.length
    · rw [placed_length_of_le init (Nat.le_of_lt hlt), dif_pos hlt, dif_pos hlt]
      show (read _ >>= _) = (read _ >>= _) >>= _
      rw [Prog.bind_assoc]
      congr 1
      funext r
      cases r with
      | error e => rfl
      | ok bytes =>
        by_cases hzero : bytes.length = 0
        · simp [hzero]
        · simp only [hzero, dite_false]
          rw [placed_append, ← List.length_append]
          exact ih _ (by rw [List.length_append]; omega) _ rfl
    · rw [dif_neg (by rw [placed_length]; omega), dif_neg hlt]
      rfl

theorem FdReadWriteExt.readUntilFull_eq (read : Nat → Prog I (Except Errno Bytes)) (buf : Bytes) :
    FdReadWriteExt.readUntilFull read buf =
      (Meowix.readUntilFull read buf.length >>= fun filled =>
        .done (placed id buf filled.1, match filled.2 with
          | none => .ok filled.1.length
          | some e => .error e)) :=
  readIntoFrom_eq read id buf []

/-- `read_array` on its array is the one that gathers the bytes: every slot is written
when it returns. -/
theorem FdReadWriteExt.readArray_eq (read : Nat → Prog I (Except Errno Bytes)) (N : Nat) :
    FdReadWriteExt.readArray read N =
      (Meowix.readArray read N >>= fun r => .done (r.mapError .error)) := by
  suffices hfrom : ∀ n got, N - got.length = n →
      (readIntoFrom read some (fun i => .error ⟨i, none⟩)
        (placed some (List.replicate N none) got) got.length >>= fun filled =>
          .done (finishArray filled)) =
        (readArrayFrom read N got >>= fun r => .done (r.mapError .error)) from
    hfrom N [] rfl
  intro n
  induction n using Nat.strongRecOn with
  | ind n ih =>
    intro got hn
    rw [readIntoFrom, readArrayFrom]
    by_cases hlt : got.length < N
    · rw [placed_length_of_le some (by rw [List.length_replicate]; omega), List.length_replicate,
        dif_pos hlt, dif_pos hlt]
      show (read _ >>= _) >>= _ = (read _ >>= _) >>= _
      rw [Prog.bind_assoc, Prog.bind_assoc]
      congr 1
      funext r
      cases r with
      | error e => rfl
      | ok bytes =>
        by_cases hzero : bytes.length = 0
        · simp only [hzero, dite_true]
          rfl
        · simp only [hzero, dite_false]
          rw [placed_append, ← List.length_append]
          exact ih _ (by rw [List.length_append]; omega) _ rfl
    · rw [dif_neg (by rw [placed_length, List.length_replicate]; omega), dif_neg hlt]
      have hall : placed some (List.replicate N none) got = got.map some := by
        unfold placed
        rw [List.drop_replicate, Nat.sub_eq_zero_of_le (Nat.le_of_not_lt hlt)]
        exact List.append_nil _
      rw [hall]
      show Prog.done (assumeInit (got.map some)) = _
      rw [assumeInit_map]
      rfl

end Abstraction

/-! ## Answers of the kernel -/

/-- The calls the loops make. -/
inductive TransferOp where
  | read (len : Nat)
  | write (bytes : Bytes)
  deriving DecidableEq, Repr

@[reducible] def Transfers : Interface where
  Op := TransferOp
  Res
    | .read _ => Except Errno Bytes
    | .write _ => Except Errno Nat

/-- A call and its answer. -/
inductive Answered where
  | read (len : Nat) (r : Except Errno Bytes)
  | write (bytes : Bytes) (r : Except Errno Nat)

namespace Answered

def op : Answered → TransferOp
  | read len _ => .read len
  | write bytes _ => .write bytes

/-- The bytes that were transferred. -/
def moved : Answered → Bytes
  | read _ (.ok bytes) => bytes
  | write bytes (.ok n) => bytes.take n
  | _ => []

/-- The error that was answered. -/
def error : Answered → Option Errno
  | read _ (.error e) => some e
  | write _ (.error e) => some e
  | _ => none

def isInterrupt (a : Answered) : Bool := a.error == some Errno.INTR

/-- Neither the end of file nor an error that a loop stops at. -/
def GoesOn (a : Answered) : Prop := a.isInterrupt = true ∨ a.moved ≠ []

end Answered

/-- Any answer at all, but that no more is transferred than was asked for. -/
def transferKernel : Kernel Transfers (List Answered)
  | log, .read len, r, log' => (∀ bytes, r = .ok bytes → bytes.length ≤ len) ∧
    log' = log ++ [.read len r]
  | log, .write bytes, r, log' => (∀ n, r = .ok n → n ≤ bytes.length) ∧
    log' = log ++ [.write bytes r]

/-- The answer of a call as it is logged. -/
def Answered.of : (op : TransferOp) → Transfers.Res op → Answered
  | .read len, r => .read len r
  | .write bytes, r => .write bytes r

/-- The answers on which a loop makes its call again. -/
def TransferOp.again : (op : TransferOp) → Transfers.Res op → Bool
  | .read _, r => interrupted r
  | .write _, r => interrupted r

/-- How many bytes a call asks for. -/
def TransferOp.asked : TransferOp → Nat
  | .read len => len
  | .write bytes => bytes.length

section Calls
variable {op : TransferOp} {r : Transfers.Res op} {log log' : List Answered}

theorem Answered.op_of : (Answered.of op r).op = op := by
  cases op with
  | read len => rfl
  | write bytes => rfl

theorem Answered.isInterrupt_of : (Answered.of op r).isInterrupt = op.again r := by
  cases op with
  | read len => cases r <;> rfl
  | write bytes => cases r <;> rfl

theorem transferKernel_spec (h : transferKernel log op r log') :
    log' = log ++ [.of op r] ∧ (Answered.of op r).moved.length ≤ op.asked := by
  cases op with
  | read len =>
    refine ⟨h.2, ?_⟩
    cases r with
    | ok bytes => exact h.1 bytes rfl
    | error e => exact Nat.zero_le _
  | write bytes =>
    refine ⟨h.2, ?_⟩
    cases r with
    | ok n => exact Nat.le_trans (List.length_take_le _ _) (h.1 n rfl)
    | error e => exact Nat.zero_le _

end Calls

/-- The stream: all bytes transferred, in order. -/
def transferred (log : List Answered) : Bytes := log.flatMap Answered.moved

/-- The error the last answer was. -/
def failure (log : List Answered) : Option Errno := log.getLast?.bind Answered.error

/-- The answers without the interrupts. -/
def uninterrupted (log : List Answered) : List Answered := log.filter fun a => !a.isInterrupt

def readOnce (len : Nat) : Prog Transfers (Except Errno Bytes) :=
  performUntil (I := Transfers) (.read len) interrupted

def writeOnce (bytes : Bytes) : Prog Transfers (Except Errno Nat) :=
  performUntil (I := Transfers) (.write bytes) interrupted

theorem transferred_concat (log : List Answered) (a : Answered) :
    transferred (log ++ [a]) = transferred log ++ a.moved := by
  simp [transferred]

/-- An answer that moves nothing adds nothing. -/
theorem transferred_unmoved (log : List Answered) {a : Answered} (h : a.moved = []) :
    transferred (log ++ [a]) = transferred log := by
  rw [transferred_concat, h, List.append_nil]

theorem Answered.moved_of_isInterrupt {a : Answered} (h : a.isInterrupt = true) : a.moved = [] := by
  cases a with
  | read len r => cases r <;> first | rfl | cases h
  | write bytes r => cases r <;> first | rfl | cases h

theorem transferred_uninterrupted (log : List Answered) :
    transferred (uninterrupted log) = transferred log := by
  induction log with
  | nil => rfl
  | cons a log ih =>
    unfold uninterrupted transferred at ih ⊢
    rw [List.filter_cons, List.flatMap_cons]
    by_cases ha : a.isInterrupt = true
    · rw [if_neg (by simp [ha]), ih, Answered.moved_of_isInterrupt ha, List.nil_append]
    · rw [if_pos (by simp [ha]), List.flatMap_cons, ih]

theorem failure_concat {log : List Answered} {a : Answered} (h : a.isInterrupt = false) :
    failure (uninterrupted (log ++ [a])) = a.error := by
  unfold failure uninterrupted
  rw [List.filter_append, List.filter_singleton, h]
  simp

/-- The calls of a loop over `N` bytes: each asks for what those before it left, all
answers but the last let the loop go on, and together they move no more than `N`. -/
structure Sequential (N : Nat) (request : Nat → TransferOp) (log : List Answered) : Prop where
  requests : ∀ k (h : k < log.length), log[k].op = request (transferred (log.take k)).length ∧
    (transferred (log.take k)).length < N
  goesOn : ∀ a ∈ log.dropLast, a.GoesOn
  within : (transferred log).length ≤ N

/-- All `N` bytes are moved, or the last answer was the end of file or an error. -/
def Ended (N : Nat) (log : List Answered) : Prop :=
  (transferred log).length = N ∨ ∃ a ∈ log, ¬ a.GoesOn

section Loop
variable {N : Nat} {request : Nat → TransferOp} {log : List Answered}

theorem Sequential.nil : Sequential N request [] :=
  ⟨fun _ h => absurd h (Nat.not_lt_zero _), by simp, Nat.zero_le N⟩

theorem Sequential.concat (h : Sequential N request log) (hon : ∀ a ∈ log, a.GoesOn)
    (hlt : (transferred log).length < N) {a : Answered}
    (hop : a.op = request (transferred log).length)
    (hfit : (transferred log).length + a.moved.length ≤ N) : Sequential N request (log ++ [a]) := by
  refine ⟨fun k hk => ?_, ?_, ?_⟩
  · by_cases hlast : k < log.length
    · rw [List.getElem_append_left hlast, List.take_append_of_le_length (Nat.le_of_lt hlast)]
      exact h.requests k hlast
    · have heq : k = log.length := by
        rw [List.length_append, List.length_singleton] at hk
        omega
      subst heq
      rw [List.getElem_concat_length rfl, List.take_left' rfl]
      exact ⟨hop, hlt⟩
  · rwa [List.dropLast_concat]
  · rwa [transferred_concat, List.length_append]

/-- Every run of `p` is sequential, has returned exactly when it ended, and returned what
the answers without the interrupts say. -/
def Exact {α : Type} (N : Nat) (request : Nat → TransferOp) (p : Prog Transfers α)
    (result : List Answered → α) : Prop :=
  ∀ p' log, Steps transferKernel p [] p' log → Sequential N request log ∧
    ((∃ x, p' = .done x) ↔ Ended N log) ∧ ∀ x, p' = .done x → x = result (uninterrupted log)

theorem Exact.congr {α : Type} {p : Prog Transfers α} {result result' : List Answered → α}
    (h : Exact N request p result)
    (heq : ∀ answers, (transferred answers).length ≤ N → result answers = result' answers) :
    Exact N request p result' := by
  intro p' log hs
  obtain ⟨hseq, hend, hresult⟩ := h p' log hs
  refine ⟨hseq, hend, fun x hx => ?_⟩
  rw [hresult x hx, heq]
  rw [transferred_uninterrupted]
  exact hseq.within

/-- The rule of a loop whose program `P` depends on the answers so far: what one call does,
and what is returned when nothing is left. -/
theorem Exact.of_step {α : Type} {P : List Answered → Prog Transfers α}
    {result : List Answered → α} (hcall : ∀ log x, (transferred log).length < N → P log ≠ .done x)
    (hstep : ∀ log p' log', (transferred log).length < N →
      Step transferKernel (P log) log p' log' → ∃ a, log' = log ++ [a] ∧
        a.op = request (transferred log).length ∧
        (transferred log).length + a.moved.length ≤ N ∧
        (a.GoesOn ∧ p' = P log' ∨ ¬ a.GoesOn ∧ p' = .done (result (uninterrupted log'))))
    (hfull : ∀ log, (transferred log).length = N → P log = .done (result (uninterrupted log))) :
    Exact N request (P []) result := by
  -- a run has not ended, or it has
  have hrun : ∀ p log p' log', Steps transferKernel p log p' log' → p = P log →
      Sequential N request log → (∀ a ∈ log, a.GoesOn) → Sequential N request log' ∧
        ((p' = P log' ∧ ∀ a ∈ log', a.GoesOn) ∨
          (∃ a ∈ log', ¬ a.GoesOn) ∧ p' = .done (result (uninterrupted log'))) := by
    intro p log p' log' hs
    induction hs with
    | refl p s => exact fun hp hseq hon => ⟨hseq, .inl ⟨hp, hon⟩⟩
    | @head p s p₁ s₁ p₂ s₂ hd hrest ih =>
      intro hp hseq hon
      subst hp
      rcases Nat.lt_or_eq_of_le hseq.within with hlt | hN
      · obtain ⟨a, rfl, hop, hfit, hnext⟩ := hstep _ _ _ hlt hd
        have hseq' := hseq.concat hon hlt hop hfit
        rcases hnext with hnext | hnext
        · obtain ⟨ha, hp₁⟩ := hnext
          apply ih hp₁ hseq'
          intro b hb
          rcases List.mem_append.mp hb with hb | hb
          · exact hon b hb
          · exact List.mem_singleton.mp hb ▸ ha
        · obtain ⟨ha, rfl⟩ := hnext
          cases hrest with
          | refl => exact ⟨hseq', .inr ⟨⟨a, by simp, ha⟩, rfl⟩⟩
          | head hd' _ => cases hd'
      · rw [hfull _ hN] at hd
        cases hd
  intro p' log hs
  obtain ⟨hseq, hcases⟩ := hrun _ _ _ _ hs rfl .nil (by simp)
  refine ⟨hseq, ?_⟩
  rcases hcases with hpending | hended
  · obtain ⟨rfl, hon⟩ := hpending
    rcases Nat.lt_or_eq_of_le hseq.within with hlt | hN
    · refine ⟨⟨fun hx => ?_, fun hend => ?_⟩, fun x hx => absurd hx (hcall log x hlt)⟩
      · obtain ⟨x, hx⟩ := hx
        exact absurd hx (hcall log x hlt)
      · rcases hend with hN | hstop
        · omega
        · obtain ⟨a, ha, hnot⟩ := hstop
          exact absurd (hon a ha) hnot
    · refine ⟨⟨fun _ => .inl hN, fun _ => ⟨_, hfull log hN⟩⟩, fun x hx => ?_⟩
      rw [hfull log hN] at hx
      cases hx
      rfl
  · obtain ⟨hstop, rfl⟩ := hended
    refine ⟨⟨fun _ => .inr hstop, fun _ => ⟨_, rfl⟩⟩, fun x hx => ?_⟩
    cases hx
    rfl

/-- The rule of a loop over `N` bytes, whose program `P` depends on what was moved so far:
what it does with an answer that moves something, and with one that does not. -/
theorem Exact.of_call {α : Type} {P : Bytes → Prog Transfers α} {result : List Answered → α}
    (hasked : ∀ i < N, i + (request i).asked ≤ N)
    (hcall : ∀ log, (transferred log).length < N →
      ∃ k, P (transferred log) = .call (I := Transfers) (request (transferred log).length)
          (TransferOp.again _) k ∧
        (∀ r log', transferKernel log _ r log' → (Answered.of _ r).moved ≠ [] →
          k r = P (transferred log ++ (Answered.of _ r).moved)) ∧
        ∀ r, TransferOp.again _ r = false → (Answered.of _ r).moved = [] →
          k r = .done (result (uninterrupted (log ++ [.of _ r]))))
    (hfull : ∀ log, (transferred log).length = N →
      P (transferred log) = .done (result (uninterrupted log))) :
    Exact N request (P []) result := by
  apply Exact.of_step (P := fun log => P (transferred log)) _ _ hfull
  · intro log x hlt h
    obtain ⟨k, hk, _, _⟩ := hcall log hlt
    cases hk.symm.trans h
  · intro log p' log' hlt hs
    obtain ⟨k, hP, hmore, hstop⟩ := hcall log hlt
    have hfit := hasked _ hlt
    rw [hP] at hs
    cases hs with
    | again hk hr =>
      obtain ⟨rfl, hle⟩ := transferKernel_spec hk
      have hint := Answered.isInterrupt_of.trans hr
      refine ⟨_, rfl, Answered.op_of, by omega, .inl ⟨.inl hint, ?_⟩⟩
      rw [transferred_unmoved log (Answered.moved_of_isInterrupt hint), hP]
    | @next _ _ _ _ r _ hk hr =>
      obtain ⟨rfl, hle⟩ := transferKernel_spec hk
      refine ⟨_, rfl, Answered.op_of, by omega, ?_⟩
      by_cases hmoved : (Answered.of _ r).moved = []
      · have hint := Answered.isInterrupt_of.trans hr
        exact .inr ⟨by simp [Answered.GoesOn, hint, hmoved], hstop r hr hmoved⟩
      · refine .inl ⟨.inr hmoved, ?_⟩
        rw [transferred_concat]
        exact hmore r _ hk hmoved

end Loop

/-! ## The reads -/

section Reads
variable {α β : Type} {init : UInt8 → α} {onZero : Nat → Except PartialTransfer Nat}

theorem readIntoFrom_call {buf : List α} {i : Nat} (h : i < buf.length) :
    readIntoFrom readOnce init onZero buf i =
      .call (I := Transfers) (.read (buf.length - i)) interrupted fun r => match r with
        | .ok bytes =>
          if bytes.length = 0 then .done (buf, onZero i)
          else readIntoFrom readOnce init onZero
            (buf.take i ++ bytes.map init ++ buf.drop (i + bytes.length)) (i + bytes.length)
        | .error e => .done (buf, .error ⟨i, some ⟨.read, e⟩⟩) := by
  rw [readIntoFrom, dif_pos h]
  show Prog.call _ _ _ = _
  congr 1
  funext r
  cases r with
  | ok bytes => exact dite_eq_ite
  | error e => rfl

theorem readIntoFrom_full {buf : List α} {i : Nat} (h : ¬ i < buf.length) :
    readIntoFrom readOnce init onZero buf i = .done (buf, .ok i) := by
  rw [readIntoFrom, dif_neg h]
  rfl

/-- What a read into a buffer of `N` slots comes to, by its answers. -/
def readResult (onZero : Nat → Except PartialTransfer Nat) (N : Nat) (answers : List Answered) :
    Except PartialTransfer Nat :=
  let i := (transferred answers).length
  if i = N then .ok i
  else match failure answers with
    | some e => .error ⟨i, some ⟨.read, e⟩⟩
    | none => onZero i

theorem readResult_stopped {N : Nat} {log : List Answered} {a : Answered}
    (hlt : (transferred log).length < N) (hint : a.isInterrupt = false) (hmoved : a.moved = []) :
    readResult onZero N (uninterrupted (log ++ [a])) = match a.error with
      | some e => .error ⟨(transferred log).length, some ⟨.read, e⟩⟩
      | none => onZero (transferred log).length := by
  unfold readResult
  rw [transferred_uninterrupted, failure_concat hint, transferred_unmoved log hmoved]
  exact if_neg (Nat.ne_of_lt hlt)

theorem readIntoFrom_exact (init : UInt8 → α) (onZero : Nat → Except PartialTransfer Nat)
    (buf : List α) (g : List α × Except PartialTransfer Nat → β) :
    Exact buf.length (fun i => .read (buf.length - i))
      (readIntoFrom readOnce init onZero buf 0 >>= fun x => .done (g x))
      fun answers => g (placed init buf (transferred answers),
        readResult onZero buf.length answers) := by
  apply Exact.of_call (P := fun got =>
    readIntoFrom readOnce init onZero (placed init buf got) got.length >>= fun x => .done (g x))
  · intro i hi
    show i + (buf.length - i) ≤ buf.length
    omega
  · intro log hlt
    have hlen := placed_length_of_le init (Nat.le_of_lt hlt)
    refine ⟨_, by rw [readIntoFrom_call (by rwa [hlen]), hlen]; rfl, ?_, ?_⟩
    · intro r log' _ hmoved
      cases r with
      | error e => exact absurd rfl hmoved
      | ok bytes =>
        have hsome : bytes.length ≠ 0 := fun hzero =>
          hmoved (List.eq_nil_of_length_eq_zero hzero)
        show (if bytes.length = 0 then _ else _) >>= _ = readIntoFrom _ _ _ _ _ >>= _
        rw [if_neg hsome, placed_append, List.length_append]
        rfl
    · intro r hr hmoved
      have hint := Answered.isInterrupt_of.trans hr
      rw [readResult_stopped hlt hint hmoved, transferred_uninterrupted,
        transferred_unmoved log hmoved]
      cases r with
      | error e => rfl
      | ok bytes =>
        obtain rfl : bytes = [] := hmoved
        rfl
  · intro log hN
    have hlen := placed_length_of_le init (Nat.le_of_eq hN)
    rw [readIntoFrom_full (by omega), transferred_uninterrupted, readResult,
      transferred_uninterrupted, if_pos hN]
    rfl

namespace FdReadWriteExt

theorem readUntilFullUninit_exact (buf : List (Option UInt8)) :
    Exact buf.length (fun i => .read (buf.length - i)) (readUntilFullUninit readOnce buf)
      fun answers =>
        (placed some buf (transferred answers), readResult .ok buf.length answers) := by
  have h := readIntoFrom_exact some .ok buf id
  rwa [show (fun x => Prog.done (id x)) = Prog.done from rfl, Prog.bind_done] at h

theorem readUntilFull_exact (buf : Bytes) :
    Exact buf.length (fun i => .read (buf.length - i)) (readUntilFull readOnce buf)
      fun answers => (placed id buf (transferred answers), readResult .ok buf.length answers) := by
  have h := readIntoFrom_exact id .ok buf id
  rwa [show (fun x => Prog.done (id x)) = Prog.done from rfl, Prog.bind_done] at h

/-- What `read_array` comes to: all of its slots are written when it returns them. -/
def arrayResult (N : Nat) (answers : List Answered) : Except (Stop PartialTransfer) Bytes :=
  let i := (transferred answers).length
  if i = N then .ok (transferred answers)
  else .error (.error ⟨i, (failure answers).map fun e => ⟨.read, e⟩⟩)

theorem readArray_exact (N : Nat) :
    Exact N (fun i => .read (N - i)) (readArray readOnce N) (arrayResult N) := by
  have h := readIntoFrom_exact some (fun i => .error ⟨i, none⟩) (List.replicate N none)
    finishArray
  rw [List.length_replicate] at h
  apply h.congr
  intro answers _
  unfold readResult arrayResult
  dsimp only
  by_cases hN : (transferred answers).length = N
  · rw [if_pos hN, if_pos hN]
    show assumeInit (placed some (List.replicate N none) (transferred answers)) = _
    unfold placed
    rw [hN, List.drop_replicate, Nat.sub_self, List.replicate_zero, List.append_nil]
    exact assumeInit_map _
  · rw [if_neg hN, if_neg hN]
    cases failure answers <;> rfl

end FdReadWriteExt

end Reads

/-! ## The writes -/

section Writes
variable {β : Type}

theorem writeUntilStalledFrom_call {buf : Bytes} {i : Nat} (h : i < buf.length) :
    writeUntilStalledFrom writeOnce buf i =
      .call (I := Transfers) (.write (buf.drop i)) interrupted fun r => match r with
        | .ok n => if n = 0 then .done (.ok i) else writeUntilStalledFrom writeOnce buf (i + n)
        | .error e => .done (.error ⟨i, some ⟨.write, e⟩⟩) := by
  rw [writeUntilStalledFrom, dif_pos h]
  show Prog.call _ _ _ = _
  congr 1
  funext r
  cases r with
  | ok n => exact dite_eq_ite
  | error e => rfl

theorem writeUntilStalledFrom_full {buf : Bytes} {i : Nat} (h : ¬ i < buf.length) :
    writeUntilStalledFrom writeOnce buf i = .done (.ok i) := by
  rw [writeUntilStalledFrom, dif_neg h]
  rfl

/-- What `write_until_stalled` comes to, by its answers. -/
def writeResult (N : Nat) (answers : List Answered) : Except PartialTransfer Nat :=
  let i := (transferred answers).length
  if i = N then .ok i
  else match failure answers with
    | some e => .error ⟨i, some ⟨.write, e⟩⟩
    | none => .ok i

theorem writeResult_stopped {N : Nat} {log : List Answered} {a : Answered}
    (hlt : (transferred log).length < N) (hint : a.isInterrupt = false) (hmoved : a.moved = []) :
    writeResult N (uninterrupted (log ++ [a])) = match a.error with
      | some e => .error ⟨(transferred log).length, some ⟨.write, e⟩⟩
      | none => .ok (transferred log).length := by
  unfold writeResult
  rw [transferred_uninterrupted, failure_concat hint, transferred_unmoved log hmoved]
  exact if_neg (Nat.ne_of_lt hlt)

theorem writeUntilStalledFrom_exact (buf : Bytes) (g : Except PartialTransfer Nat → β) :
    Exact buf.length (fun i => .write (buf.drop i))
      (writeUntilStalledFrom writeOnce buf 0 >>= fun x => .done (g x))
      fun answers => g (writeResult buf.length answers) := by
  apply Exact.of_call (P := fun got =>
    writeUntilStalledFrom writeOnce buf got.length >>= fun x => .done (g x))
  · intro i hi
    show i + (buf.drop i).length ≤ buf.length
    rw [List.length_drop]
    omega
  · intro log hlt
    refine ⟨_, by rw [writeUntilStalledFrom_call hlt]; rfl, ?_, ?_⟩
    · intro r log' hk hmoved
      cases r with
      | error e => exact absurd rfl hmoved
      | ok n =>
        have hsome : n ≠ 0 := by
          intro hzero
          subst hzero
          exact hmoved rfl
        have hlen : (Answered.write (buf.drop (transferred log).length) (.ok n)).moved.length =
            n := List.length_take_of_le (hk.1 n rfl)
        show (if n = 0 then _ else _) >>= _ = writeUntilStalledFrom _ _ _ >>= _
        rw [if_neg hsome, List.length_append]
        exact congrArg (fun m => writeUntilStalledFrom writeOnce buf
          ((transferred log).length + m) >>= fun x => .done (g x)) hlen.symm
    · intro r hr hmoved
      have hint := Answered.isInterrupt_of.trans hr
      rw [writeResult_stopped hlt hint hmoved]
      cases r with
      | error e => rfl
      | ok n =>
        -- what is left of the buffer is not empty
        have hzero : n = 0 := by
          have hnil : (buf.drop (transferred log).length).take n = [] := hmoved
          have hlen := congrArg List.length hnil
          rw [List.length_take, List.length_drop, List.length_nil] at hlen
          omega
        subst hzero
        rfl
  · intro log hN
    rw [writeUntilStalledFrom_full (by omega), writeResult, transferred_uninterrupted, if_pos hN]
    rfl

theorem writeUntilStalled_exact (buf : Bytes) :
    Exact buf.length (fun i => .write (buf.drop i)) (writeUntilStalled writeOnce buf)
      (writeResult buf.length) := by
  have h := writeUntilStalledFrom_exact buf id
  rwa [show (fun x => Prog.done (id x)) = Prog.done from rfl, Prog.bind_done] at h

/-- What `write_all` comes to. -/
def writeAllResult (N : Nat) (answers : List Answered) : Except PartialTransfer Unit :=
  let i := (transferred answers).length
  if i = N then .ok () else .error ⟨i, (failure answers).map fun e => ⟨.write, e⟩⟩

/-- What `write_all` makes of the count of the loop. -/
def allWritten (buf : Bytes) : Except PartialTransfer Nat → Except PartialTransfer Unit
  | .ok transferred =>
    if transferred < buf.length then .error ⟨transferred, none⟩ else .ok ()
  | .error e => .error e

theorem writeAll_eq (buf : Bytes) :
    writeAll writeOnce buf = (writeUntilStalled writeOnce buf >>= fun x =>
      .done (allWritten buf x)) := by
  unfold writeAll
  congr 1
  funext x
  cases x with
  | ok transferred => exact (apply_ite Prog.done _ _ _).symm
  | error e => rfl

theorem writeAll_exact (buf : Bytes) :
    Exact buf.length (fun i => .write (buf.drop i)) (writeAll writeOnce buf)
      (writeAllResult buf.length) := by
  rw [writeAll_eq]
  apply (writeUntilStalledFrom_exact buf (allWritten buf)).congr
  intro answers hle
  unfold writeResult writeAllResult
  dsimp only
  by_cases hN : (transferred answers).length = buf.length
  · rw [if_pos hN, if_pos hN]
    exact if_neg (by omega)
  · rw [if_neg hN, if_neg hN]
    cases failure answers with
    | none => exact if_pos (by omega)
    | some e => rfl

/-- The accepted parts of the segments are a prefix of the buffer. -/
theorem written_prefix {buf : Bytes} {log : List Answered}
    (h : ∀ k (hk : k < log.length),
      log[k].op = .write (buf.drop (transferred (log.take k)).length)) :
    transferred log <+: buf := by
  induction log using List.reverseRecOn with
  | nil => exact List.nil_prefix
  | append_singleton log a ih =>
    have hlog : transferred log <+: buf := by
      apply ih
      intro k hk
      have := h k (by rw [List.length_append]; omega)
      rwa [List.getElem_append_left hk, List.take_append_of_le_length (Nat.le_of_lt hk)] at this
    have hlast := h log.length (by simp)
    rw [List.getElem_concat_length rfl, List.take_left' rfl] at hlast
    -- the last segment begins where the accepted parts end
    have hmoved : a.moved <+: buf.drop (transferred log).length := by
      cases a with
      | read len r => cases hlast
      | write bytes r =>
        cases hlast
        cases r with
        | ok n => exact List.take_prefix n _
        | error e => exact List.nil_prefix
    rw [transferred_concat]
    obtain ⟨rest, hrest⟩ := hmoved
    refine ⟨rest, ?_⟩
    calc transferred log ++ a.moved ++ rest
        = transferred log ++ buf.drop (transferred log).length := by
          rw [List.append_assoc, hrest]
      _ = buf.take (transferred log).length ++ buf.drop (transferred log).length := by
          rw [← List.prefix_iff_eq_take.mp hlog]
      _ = buf := List.take_append_drop _ _

end Writes

/-! ## To the end of the file -/

/-- The allocator of a vector: what it makes of a capacity when some slots are needed. -/
structure Allocator where
  grow : Nat → Nat → Nat
  enough : ∀ capacity needed, needed ≤ grow capacity needed

/-- `Vec::reserve`. -/
def reserve (allocator : Allocator) (buf : Vec UInt8) (additional : Nat) : Vec UInt8 :=
  if buf.capacity - buf.items.length < additional then
    { buf with capacity := allocator.grow buf.capacity (buf.items.length + additional) }
  else buf

namespace FdReadWriteExt

/-- The capacity the turn reads into. -/
def makeRoom (allocator : Allocator) (buf : Vec UInt8) : Vec UInt8 :=
  if buf.capacity - buf.items.length = 0 then reserve allocator buf (max buf.items.length 32)
  else buf

/-- A turn of the loop of `read_to_end`. -/
def readToEndTurn (allocator : Allocator) (buf : Vec UInt8) :
    Prog Transfers (Vec UInt8 ⊕ Vec UInt8 × Except SyscallError Unit) := do
  let buf := makeRoom allocator buf
  match ← perform (I := Transfers) (.read (buf.capacity - buf.items.length)) with
  | .ok bytes =>
    if bytes.length = 0 then return .inr (buf, .ok ())
    else return .inl { buf with items := buf.items ++ bytes }
  | .error e =>
    if e = Errno.INTR then return .inl buf else return .inr (buf, .error ⟨.read, e⟩)

theorem makeRoom_spec (allocator : Allocator) (buf : Vec UInt8) :
    (makeRoom allocator buf).items = buf.items ∧
      buf.items.length < (makeRoom allocator buf).capacity := by
  unfold makeRoom
  split
  · next hfull =>
    have henough := allocator.enough buf.capacity (buf.items.length + max buf.items.length 32)
    unfold reserve
    rw [if_pos (by omega)]
    exact ⟨rfl, by dsimp only; omega⟩
  · next hspare => exact ⟨rfl, by omega⟩

/-- What `read_to_end` holds between two turns. -/
structure ReadSoFar (start : Vec UInt8) (buf : Vec UInt8) (log : List Answered) : Prop where
  items : buf.items = start.items ++ transferred log
  fits : start.items.length ≤ start.capacity → buf.items.length ≤ buf.capacity
  goesOn : ∀ a ∈ log, a.GoesOn

/-- What `read_to_end` leaves. -/
structure ReadToEnd (start : Vec UInt8) (left : Vec UInt8 × Except SyscallError Unit)
    (log : List Answered) : Prop where
  items : left.1.items = start.items ++ transferred (uninterrupted log)
  fits : start.items.length ≤ start.capacity → left.1.items.length ≤ left.1.capacity
  goesOn : ∀ a ∈ log.dropLast, a.GoesOn
  stops : ∃ a, log.getLast? = some a ∧ ¬ a.GoesOn
  result : left.2 = match failure (uninterrupted log) with
    | none => .ok ()
    | some e => .error ⟨.read, e⟩

theorem ReadSoFar.stop {start buf : Vec UInt8} {log : List Answered} {a : Answered} {capacity : Nat}
    (h : ReadSoFar start buf log) (hroom : buf.items.length < capacity)
    (hint : a.isInterrupt = false) (hmoved : a.moved = []) :
    ReadToEnd start (⟨buf.items, capacity⟩, match a.error with
      | none => .ok ()
      | some e => .error ⟨.read, e⟩) (log ++ [a]) where
  items := by
    rw [transferred_uninterrupted, transferred_unmoved log hmoved]
    exact h.items
  fits _ := Nat.le_of_lt hroom
  goesOn := by
    rw [List.dropLast_concat]
    exact h.goesOn
  stops := ⟨a, by simp, by simp [Answered.GoesOn, hint, hmoved]⟩
  result := by rw [failure_concat hint]

/-- A turn on which the loop goes on. -/
theorem ReadSoFar.concat {start buf : Vec UInt8} {log : List Answered} {a : Answered}
    {capacity : Nat} (h : ReadSoFar start buf log)
    (hfits : (buf.items ++ a.moved).length ≤ capacity) (hon : a.GoesOn) :
    ReadSoFar start ⟨buf.items ++ a.moved, capacity⟩ (log ++ [a]) where
  items := by
    show buf.items ++ a.moved = _
    rw [h.items, transferred_concat, List.append_assoc]
  fits _ := hfits
  goesOn := by
    intro b hb
    rcases List.mem_append.mp hb with hb | hb
    · exact h.goesOn b hb
    · exact List.mem_singleton.mp hb ▸ hon

/-- A turn reads into the room that is left, and goes on exactly if its answer lets it. -/
theorem readToEndTurn_spec (allocator : Allocator) {start buf : Vec UInt8} {log : List Answered}
    (hbuf : ReadSoFar start buf log) :
    Live transferKernel (fun log => ∀ a ∈ log, a.GoesOn) (readToEndTurn allocator buf)
      (Sum.elim (ReadSoFar start) (ReadToEnd start)) log := by
  obtain ⟨hitems, hroom⟩ := makeRoom_spec allocator buf
  apply Live.bind
  refine Live.perform hbuf.goesOn ⟨.error Errno.INVAL, _, fun _ h => (by cases h), rfl⟩ ?_
  intro r log' hk
  obtain ⟨hfit, rfl⟩ := hk
  rcases hmade : makeRoom allocator buf with ⟨items, capacity⟩
  rw [hmade] at hitems hroom hfit
  dsimp only at hitems hroom hfit
  subst hitems
  cases r with
  | ok bytes =>
    have hle := hfit bytes rfl
    show Live _ _ (if bytes.length = 0 then _ else _) _ _
    split
    · next hzero =>
      have hnil := List.eq_nil_of_length_eq_zero hzero
      subst hnil
      have hstop : ReadToEnd start (⟨buf.items, capacity⟩, .ok ())
          (log ++ [.read (capacity - buf.items.length) (.ok [])]) :=
        ReadSoFar.stop (a := .read _ (.ok [])) hbuf hroom rfl rfl
      exact live_done.mpr hstop
    · next hmore =>
      have hfits : (buf.items ++ bytes).length ≤ capacity := by
        rw [List.length_append]
        omega
      have hon : (Answered.read (capacity - buf.items.length) (.ok bytes)).GoesOn :=
        .inr fun hnil => hmore (congrArg List.length hnil)
      exact live_done.mpr (hbuf.concat hfits hon)
  | error e =>
    show Live _ _ (if e = Errno.INTR then _ else _) _ _
    split
    · next hintr =>
      subst hintr
      have hturn := hbuf.concat (a := .read (capacity - buf.items.length) (.error Errno.INTR))
        (by simpa [Answered.moved] using Nat.le_of_lt hroom) (.inl rfl)
      -- an interrupt moves nothing
      have hsame : buf.items ++ (Answered.read (capacity - buf.items.length)
          (.error Errno.INTR)).moved = buf.items := List.append_nil _
      rw [hsame] at hturn
      exact live_done.mpr hturn
    · next hother =>
      have hint : (Answered.read (capacity - buf.items.length) (.error e)).isInterrupt =
          false := by
        simp [Answered.isInterrupt, Answered.error, hother]
      have hstop : ReadToEnd start (⟨buf.items, capacity⟩, .error ⟨.read, e⟩)
          (log ++ [.read (capacity - buf.items.length) (.error e)]) :=
        ReadSoFar.stop (a := .read _ (.error e)) hbuf hroom hint rfl
      exact live_done.mpr hstop

/-- Each turn makes one call, a read of at least a byte. -/
theorem readToEndTurn_reads (allocator : Allocator) (buf : Vec UInt8) (log : List Answered) :
    Wp transferKernel (readToEndTurn allocator buf)
      (fun _ log' => ∃ len r, 0 < len ∧ log' = log ++ [.read len r]) log := by
  obtain ⟨hitems, hroom⟩ := makeRoom_spec allocator buf
  apply Wp.bind
  apply Wp.perform
  intro r log' hk
  obtain ⟨_, rfl⟩ := hk
  have hread : ∃ len r', 0 < len ∧
      log ++ [Answered.read ((makeRoom allocator buf).capacity -
        (makeRoom allocator buf).items.length) r] = log ++ [.read len r'] :=
    ⟨_, r, by rw [hitems]; omega, rfl⟩
  cases r with
  | ok bytes =>
    show Wp _ (if bytes.length = 0 then _ else _) _ _
    split
    · exact wp_done.mpr hread
    · exact wp_done.mpr hread
  | error e =>
    show Wp _ (if e = Errno.INTR then _ else _) _ _
    split
    · exact wp_done.mpr hread
    · exact wp_done.mpr hread

/-- What is left of a turn at every moment of a run. -/
theorem readToEnd_live (allocator : Allocator) {start : Vec UInt8} {log : List Answered}
    {p : Prog Transfers (Vec UInt8 ⊕ Vec UInt8 × Except SyscallError Unit)}
    (h : During transferKernel (readToEndTurn allocator) start [] p log) :
    Live transferKernel (fun log => ∀ a ∈ log, a.GoesOn) p
      (Sum.elim (ReadSoFar start) (ReadToEnd start)) log :=
  h.live (fun _ _ hbuf => readToEndTurn_spec allocator hbuf)
    ⟨by simp [transferred], id, by simp⟩

theorem ReadToEnd.exists_stop {start : Vec UInt8} {left : Vec UInt8 × Except SyscallError Unit}
    {log : List Answered} (h : ReadToEnd start left log) : ∃ a ∈ log, ¬ a.GoesOn := by
  obtain ⟨a, hlast, hnot⟩ := h.stops
  exact ⟨a, List.mem_of_getLast? hlast, hnot⟩

/-- The loop was left exactly if an answer stopped it. -/
theorem readToEnd_left_iff (allocator : Allocator) {start : Vec UInt8} {log : List Answered}
    {p : Prog Transfers (Vec UInt8 ⊕ Vec UInt8 × Except SyscallError Unit)}
    (h : During transferKernel (readToEndTurn allocator) start [] p log) :
    (∃ left, p = .done (.inr left)) ↔ ∃ a ∈ log, ¬ a.GoesOn := by
  have hlive := readToEnd_live allocator h
  have hpending : (∀ a ∈ log, a.GoesOn) → ¬ ∃ a ∈ log, ¬ a.GoesOn := by
    intro hon hstop
    obtain ⟨a, ha, hnot⟩ := hstop
    exact hnot (hon a ha)
  match p, hlive with
  | .done (.inr left), hread => exact ⟨fun _ => hread.exists_stop, fun _ => ⟨left, rfl⟩⟩
  | .done (.inl buf), hbuf =>
    refine ⟨fun hleft => ?_, fun hstop => absurd hstop (hpending hbuf.goesOn)⟩
    obtain ⟨left, heq⟩ := hleft
    cases heq
  | .call op again k, hlive =>
    have hon := hlive.at_call fun a h => (by cases h)
    refine ⟨fun hleft => ?_, fun hstop => absurd hstop (hpending hon)⟩
    obtain ⟨left, heq⟩ := hleft
    cases heq

end FdReadWriteExt

/-! ## All of the loops -/

/-- For every buffer and every sequence of answers, each transferring at most what was
asked for, the loops lose, repeat and reorder no byte: they ask for consecutive segments
of what is left, return when everything is moved or at the first answer that is an end of
file or an error other than an interrupt, and by then have put the bytes of the stream in
order at the front of the buffer, behind what the vector held, or have had a prefix of
the buffer accepted, of the length they report. The unbounded one makes a read in each of
its turns, and no turn is ever stuck. -/
theorem transfers_exact :
    (∀ N, Exact N (fun i => .read (N - i)) (FdReadWriteExt.readArray readOnce N) fun answers =>
      let i := (transferred answers).length
      if i = N then .ok (transferred answers)
      else .error (.error ⟨i, (failure answers).map fun e => ⟨.read, e⟩⟩)) ∧
    (∀ buf : Bytes, Exact buf.length (fun i => .read (buf.length - i))
      (FdReadWriteExt.readUntilFull readOnce buf) fun answers =>
        let i := (transferred answers).length
        (transferred answers ++ buf.drop i,
          if i = buf.length then .ok i
          else match failure answers with
            | some e => .error ⟨i, some ⟨.read, e⟩⟩
            | none => .ok i)) ∧
    (∀ buf, Exact buf.length (fun i => .read (buf.length - i))
      (FdReadWriteExt.readUntilFullUninit readOnce buf) fun answers =>
        let i := (transferred answers).length
        ((transferred answers).map some ++ buf.drop i,
          if i = buf.length then .ok i
          else match failure answers with
            | some e => .error ⟨i, some ⟨.read, e⟩⟩
            | none => .ok i)) ∧
    (∀ allocator start p log,
      During transferKernel (FdReadWriteExt.readToEndTurn allocator) start [] p log →
        ((∃ left, p = .done (.inr left)) ↔ ∃ a ∈ log, ¬ a.GoesOn) ∧
        (∀ left, p = .done (.inr left) → FdReadWriteExt.ReadToEnd start left log) ∧
        ∃ r log', Returns transferKernel p log r log') ∧
    (∀ allocator buf log r log',
      Returns transferKernel (FdReadWriteExt.readToEndTurn allocator buf) log r log' →
        ∃ len answer, 0 < len ∧ log' = log ++ [.read len answer]) ∧
    (∀ buf : Bytes, Exact buf.length (fun i => .write (buf.drop i))
      (writeUntilStalled writeOnce buf) fun answers =>
        let i := (transferred answers).length
        if i = buf.length then .ok i
        else match failure answers with
          | some e => .error ⟨i, some ⟨.write, e⟩⟩
          | none => .ok i) ∧
    (∀ buf : Bytes, Exact buf.length (fun i => .write (buf.drop i)) (writeAll writeOnce buf)
      fun answers =>
        let i := (transferred answers).length
        if i = buf.length then .ok ()
        else .error ⟨i, (failure answers).map fun e => ⟨.write, e⟩⟩) ∧
    ∀ (buf : Bytes) log, Sequential buf.length (fun i => .write (buf.drop i)) log →
      transferred log <+: buf := by
  refine ⟨FdReadWriteExt.readArray_exact, fun buf => ?_,
    FdReadWriteExt.readUntilFullUninit_exact, fun allocator start p log h => ?_,
    fun allocator buf log r log' h =>
      (FdReadWriteExt.readToEndTurn_reads allocator buf log).returns h,
    writeUntilStalled_exact, writeAll_exact, fun buf log h => ?_⟩
  · apply (FdReadWriteExt.readUntilFull_exact buf).congr
    intro answers _
    unfold placed readResult
    rw [List.map_id]
  · have hlive := FdReadWriteExt.readToEnd_live allocator h
    refine ⟨FdReadWriteExt.readToEnd_left_iff allocator h, fun left heq => ?_, hlive.can_return⟩
    subst heq
    exact hlive
  · exact written_prefix fun k hk => (h.requests k hk).1

/-- A kernel that interrupts the first call and then moves one byte at a time. -/
def byteAtATime : Impl Transfers (List Answered) := fun log op =>
  match op with
  | .read len =>
    let r := if log.isEmpty then .error Errno.INTR else .ok ([7].take len)
    (r, log ++ [.read len r])
  | .write bytes =>
    let r := if log.isEmpty then .error Errno.INTR else .ok (min 1 bytes.length)
    (r, log ++ [.write bytes r])

theorem byteAtATime_transferKernel (log : List Answered) (op : TransferOp) :
    transferKernel log op (byteAtATime log op).1 (byteAtATime log op).2 := by
  cases op with
  | read len =>
    refine ⟨fun bytes h => ?_, rfl⟩
    simp only [byteAtATime] at h
    split at h
    · cases h
    · cases h
      exact List.length_take_le _ _
  | write bytes =>
    refine ⟨fun n h => ?_, rfl⟩
    simp only [byteAtATime] at h
    split at h
    · cases h
    · cases h
      exact Nat.min_le_right _ _

theorem readArray_byteAtATime :
    ∃ log, Returns transferKernel (FdReadWriteExt.readArray readOnce 2) [] (.ok [7, 7]) log ∧
      log.length = 3 ∧ (transferred log).length ≤ 2 := by
  have h : (run byteAtATime 3 (FdReadWriteExt.readArray readOnce 2) []).any (fun x =>
      decide (x.1 = .ok [7, 7]) && x.2.length == 3) = true := by decide +kernel
  obtain ⟨⟨r, log⟩, hrun, hx⟩ := (Option.any_eq_true _ _).mp h
  have hreturns := run_returns byteAtATime_transferKernel 3 hrun
  simp only [Bool.and_eq_true, decide_eq_true_eq, beq_iff_eq] at hx
  obtain ⟨rfl, hlen⟩ := hx
  exact ⟨log, hreturns, hlen, (transfers_exact.1 2 _ log hreturns).1.within⟩

end LayerCake.Meowix
