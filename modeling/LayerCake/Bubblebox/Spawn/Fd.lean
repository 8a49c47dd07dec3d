import Std.Data.TreeMap.Lemmas
import Mathlib.Logic.Function.Basic
import Mathlib.Tactic.Common
import LayerCake.Bubblebox.Spawn.Errors
import LayerCake.Meowix.Linux
import LayerCake.Meowix.Util

/-
  The file descriptor policy: its validation on the host
  (`bubblebox/src/platform/linux/policy/fd.rs`) and its application in the guest
  (`bubblebox/src/platform/linux/spawn/fd.rs`).

  Correspondence (Rust ↔ Lean):
    `Action`, `FdPolicy`                 ↔ `Action`, `FdPolicy`
    `is_valid_fd_policy`                 ↔ `isValidFdPolicy`
    the loop over the policy             ↔ `markDescriptors`
    `apply_file_descriptor_policy`       ↔ `applyFileDescriptorPolicy`
    dropping the old `guest_pipe`        ↔ the call `close`

  The kernel's side is a table of descriptors. Every call may fail, and a failed
  one leaves the table as it was.

  What is proved: `applyFileDescriptorPolicy_spec` — the in-place duplications
  and the flagged ranges amount, after exec, to a simultaneous assignment, and
  the guest pipe keeps its open file throughout.
-/

namespace LayerCake.Bubblebox.Spawn

open LayerCake.Effects LayerCake.Meowix LayerCake.Linux Std

/-! ## The policy -/

/-- `policy::fd::Action`. -/
inductive Action where
  | ignore
  | map (source : RawFd)
  deriving DecidableEq, Repr

/-- The map of `policy::fd::FdPolicy`. -/
abbrev FdPolicy := TreeMap RawFd Action compare

/-- The source of a mapped descriptor. -/
def Action.source : Action → Option RawFd
  | ignore => none
  | map source => some source

def isValidFdPolicy (policyMap : FdPolicy) : Bool :=
  let sources := policyMap.toList.filterMap fun (_, action) => action.source
  policyMap.toList.all fun (fd, action) =>
    if fd < 0 then false
    else if action = .ignore then true
    else !sources.contains fd

/-! ## The descriptor table -/

/-- The calls that change the table. -/
inductive FdOp where
  | dup3 (old new : RawFd) (flags : UInt32)
  | closeRange (first last flags : UInt32)
  | fcntlDupfdCloexec (old : RawFd)
  | close (fd : RawFd)

/-- Their answers; a close that drops a descriptor has none. -/
@[reducible] def FdCalls : Interface where
  Op := FdOp
  Res
    | .dup3 .. => Except Errno RawFd
    | .closeRange .. => Except Errno Unit
    | .fcntlDupfdCloexec _ => Except Errno RawFd
    | .close _ => Unit

/-- An open descriptor: the open file it refers to, and its close-on-exec flag. -/
structure Entry (φ : Type) where
  file : φ
  cloexec : Bool
  deriving DecidableEq

section Kernel
variable {φ : Type}

abbrev Table (φ : Type) := RawFd → Option (Entry φ)

/-- What the calls do to the table. -/
def fdKernel : Kernel FdCalls (Table φ)
  | table, .dup3 old new flags, r, table' =>
    (∃ e, table old = some e ∧ old ≠ new ∧ r = .ok new ∧
      table' = Function.update table new (some ⟨e.file, flags &&& O_CLOEXEC != 0⟩)) ∨
    (∃ e, r = .error e ∧ table' = table)
  | table, .closeRange first last flags, r, table' =>
    (flags = CLOSE_RANGE_CLOEXEC ∧ r = .ok () ∧
      table' = fun n => if first ≤ n.toUInt32 ∧ n.toUInt32 ≤ last
        then (table n).map ({ · with cloexec := true }) else table n) ∨
    (∃ e, r = .error e ∧ table' = table)
  | table, .fcntlDupfdCloexec old, r, table' =>
    (∃ e new, table old = some e ∧ table new = none ∧ r = .ok new ∧
      table' = Function.update table new (some ⟨e.file, true⟩)) ∨
    (∃ e, r = .error e ∧ table' = table)
  | table, .close fd, _, table' => table' = Function.update table fd none

/-- The open files that are left after `execve(2)`. -/
def Table.exec (table : Table φ) (n : RawFd) : Option φ :=
  match table n with
  | some e => if e.cloexec then none else some e.file
  | none => none

end Kernel

/-! ## The code -/

/-- `u32::saturating_add(1)`. -/
def saturatingSucc (n : UInt32) : UInt32 := if n = 0xffffffff then n else n + 1

/-- `u32::saturating_sub(1)`. -/
def saturatingPred (n : UInt32) : UInt32 := if n = 0 then n else n - 1

/-- `dup3`, retried when interrupted. -/
def dup3 (old new : RawFd) : ExceptT PostSpawnGuest (Prog FdCalls) Unit := do
  let _fd ← guestCall .dup3 (performUntil (I := FdCalls) (.dup3 old new 0) interrupted)

def closeRange (first last : UInt32) : ExceptT PostSpawnGuest (Prog FdCalls) Unit :=
  guestCall .closeRange (perform (I := FdCalls) (.closeRange first last CLOSE_RANGE_CLOEXEC))

/-- What one entry of the policy maps right away: all but a mapping onto the
guest pipe, which is delayed. -/
def mapEntry (guestPipe fd : RawFd) : Action → ExceptT PostSpawnGuest (Prog FdCalls) Unit
  | .map source => if guestPipe = fd then pure () else dup3 source fd
  | .ignore => pure ()

/-- The delayed mapping, once this entry has been seen. -/
def delayed (guestPipe fd : RawFd) (action : Action) (sourceForGuestPipe : Option RawFd) :
    Option RawFd :=
  match action with
  | .map source => if guestPipe = fd then some source else sourceForGuestPipe
  | .ignore => sourceForGuestPipe

/-- The range between the last entry and this one. -/
def flagGap (rangeStart fd : UInt32) : ExceptT PostSpawnGuest (Prog FdCalls) Unit :=
  if rangeStart < fd then closeRange rangeStart (saturatingPred fd) else pure ()

/-- The loop over the policy and the range after it. -/
def markDescriptors (guestPipe : RawFd) : List (RawFd × Action) → UInt32 → Option RawFd →
    ExceptT PostSpawnGuest (Prog FdCalls) (Option RawFd)
  | [], rangeStart, sourceForGuestPipe => do
    closeRange rangeStart 0xffffffff
    pure sourceForGuestPipe
  | (fd, action) :: policyMap, rangeStart, sourceForGuestPipe => do
    mapEntry guestPipe fd action
    flagGap rangeStart fd.toUInt32
    markDescriptors guestPipe policyMap (saturatingSucc fd.toUInt32)
      (delayed guestPipe fd action sourceForGuestPipe)

/-- `apply_file_descriptor_policy`; the second value is `guest_pipe` as it leaves
the function. -/
def applyFileDescriptorPolicy (policyMap : List (RawFd × Action)) (guestPipe : RawFd) :
    Prog FdCalls (Except PostSpawnGuest Unit × RawFd) := do
  match ← (markDescriptors guestPipe policyMap 0 none).run with
  | .error e => return (.error e, guestPipe)
  | .ok none => return (.ok (), guestPipe)
  | .ok (some source) =>
    match ← (guestCall .fcntl (perform (I := FdCalls) (.fcntlDupfdCloexec guestPipe))).run with
    | .error e => return (.error e, guestPipe)
    | .ok new =>
      -- the assignment drops, and so closes, the old descriptor
      perform (I := FdCalls) (.close guestPipe)
      return (← (dup3 source guestPipe).run, new)

/-! ## One call -/

section Spec
variable {φ : Type}

theorem dup3_spec (old new : RawFd) (T : Table φ) {Q : Except PostSpawnGuest Unit → Table φ → Prop}
    (hok : ∀ e, T old = some e → old ≠ new →
      Q (.ok ()) (Function.update T new (some ⟨e.file, false⟩)))
    (herr : ∀ e, Q (.error e) T) : Wp fdKernel (dup3 old new).run Q T := by
  refine Wp.bindE (wp_guestCall (Wp.performUntil (· = T) rfl ?_ ?_))
  · intro t r t' e hk hr
    subst e
    rcases hk with ⟨e, _, _, rfl, _⟩ | ⟨e, _, rfl⟩
    · cases hr
    · rfl
  · intro t r t' e hk _
    subst e
    rcases hk with ⟨e, hold, hne, rfl, rfl⟩ | ⟨e, rfl, rfl⟩
    · exact wp_done.mpr (hok e hold hne)
    · exact herr _

theorem closeRange_spec (first last : UInt32) (T : Table φ)
    {Q : Except PostSpawnGuest Unit → Table φ → Prop}
    (hok : Q (.ok ()) fun n => if first ≤ n.toUInt32 ∧ n.toUInt32 ≤ last
      then (T n).map ({ · with cloexec := true }) else T n)
    (herr : ∀ e, Q (.error e) T) : Wp fdKernel (closeRange first last).run Q T := by
  refine wp_guestCall (Wp.perform ?_)
  intro r t hk
  rcases hk with ⟨_, rfl, rfl⟩ | ⟨e, rfl, rfl⟩
  · exact hok
  · exact herr _

/-! ## The loop -/

/-- The number of a descriptor, as the kernel orders them. -/
def number (n : RawFd) : Nat := n.toUInt32.toNat

theorem number_injective {a b : RawFd} (h : number a = number b) : a = b := by
  have := congrArg UInt32.toInt32 (UInt32.toNat_inj.mp h)
  simpa using this

theorem number_lt_of_lt {a b : RawFd} (ha : 0 ≤ a) (h : compare a b = .lt) :
    number a < number b := by
  have hlt : a < b := Std.compare_eq_lt.mp h
  have hb : 0 ≤ b := Int32.le_trans ha (Int32.le_of_lt hlt)
  unfold number
  rw [Int32.toNat_toUInt32_of_le ha, Int32.toNat_toUInt32_of_le hb]
  rw [Int32.lt_iff_toInt_lt] at hlt
  rw [Int32.le_iff_toInt_le] at ha
  have hzero : (0 : Int32).toInt = 0 := rfl
  unfold Int32.toNatClampNeg
  omega

theorem number_lt_of_nonneg {a : RawFd} (ha : 0 ≤ a) : number a < 2147483648 := by
  unfold number
  rw [Int32.toNat_toUInt32_of_le ha]
  have := a.toInt_lt
  unfold Int32.toNatClampNeg
  omega

/-- The table once the loop has passed every descriptor below `r`: those it maps
are mapped, those without an entry are flagged, the rest is as it was. -/
def applied (policy : RawFd → Option Action) (T : Table φ) (guestPipe : RawFd) (r : Nat) :
    Table φ :=
  fun n =>
    if number n < r then
      match policy n with
      | some (.map source) =>
        if guestPipe = n then T n else (T source).map fun e => ⟨e.file, false⟩
      | some .ignore => T n
      | none => (T n).map ({ · with cloexec := true })
    else T n

/-- The entries the loop has left when it has passed every descriptor below `r`. -/
structure Remaining (policy : RawFd → Option Action) (entries : List (RawFd × Action)) (r : Nat) :
    Prop where
  nonneg : ∀ p ∈ entries, 0 ≤ p.1
  sorted : entries.Pairwise fun a b => compare a.1 b.1 = .lt
  mem : ∀ n a, (n, a) ∈ entries ↔ policy n = some a ∧ r ≤ number n

namespace Remaining
variable {policy : RawFd → Option Action} {entries : List (RawFd × Action)} {r : Nat}
  {fd : RawFd} {action : Action}

theorem head (h : Remaining policy ((fd, action) :: entries) r) :
    policy fd = some action ∧ r ≤ number fd ∧ 0 ≤ fd :=
  ⟨((h.mem fd action).mp List.mem_cons_self).1, ((h.mem fd action).mp List.mem_cons_self).2,
    h.nonneg _ List.mem_cons_self⟩

theorem number_lt (h : Remaining policy ((fd, action) :: entries) r) {p : RawFd × Action}
    (hp : p ∈ entries) : number fd < number p.1 :=
  number_lt_of_lt h.head.2.2 ((List.pairwise_cons.mp h.sorted).1 p hp)

theorem tail (h : Remaining policy ((fd, action) :: entries) r) :
    Remaining policy entries (number fd + 1) where
  nonneg p hp := h.nonneg p (List.mem_cons_of_mem _ hp)
  sorted := (List.pairwise_cons.mp h.sorted).2
  mem n a := by
    constructor
    · intro hn
      exact ⟨((h.mem n a).mp (List.mem_cons_of_mem _ hn)).1, h.number_lt hn⟩
    · intro h
      obtain ⟨hpol, hlt⟩ := h
      have hr := h.head.2.1
      rcases List.mem_cons.mp ((h.mem n a).mpr ⟨hpol, by omega⟩) with heq | hn
      · cases heq
        omega
      · exact hn

/-- There is no entry between the last one and the next. -/
theorem gap (h : Remaining policy ((fd, action) :: entries) r) {n : RawFd} (hn : r ≤ number n)
    (hlt : number n < number fd) : policy n = none := by
  rw [Option.eq_none_iff_forall_ne_some]
  intro a ha
  rcases List.mem_cons.mp ((h.mem n a).mpr ⟨ha, hn⟩) with heq | hmem
  · cases heq
    omega
  · have : number fd < number n := h.number_lt hmem
    omega

theorem nil (h : Remaining policy [] r) {n : RawFd} (hn : r ≤ number n) : policy n = none := by
  rw [Option.eq_none_iff_forall_ne_some]
  intro a ha
  exact List.not_mem_nil ((h.mem n a).mpr ⟨ha, hn⟩)

end Remaining

/-- What the caller promises of the sources of a valid policy. -/
structure Sources (policy : RawFd → Option Action) (T : Table φ) (guestPipe : RawFd) : Prop where
  isOpen : ∀ n source, policy n = some (.map source) → ∃ e, T source = some e
  unmapped : ∀ n source, policy n = some (.map source) → ∀ s, policy source ≠ some (.map s)
  ne_pipe : ∀ n source, policy n = some (.map source) → source ≠ guestPipe

section Loop
variable {policy : RawFd → Option Action} {T : Table φ} {guestPipe : RawFd}
  {entries : List (RawFd × Action)} {r : Nat} {fd : RawFd} {action : Action}

/-- A descriptor that is not mapped keeps its open file. -/
theorem applied_file {n : RawFd} {e : Entry φ} (hT : T n = some e)
    (hn : guestPipe = n ∨ ∀ s, policy n ≠ some (.map s)) :
    ∃ c, applied policy T guestPipe r n = some ⟨e.file, c⟩ := by
  unfold applied
  split
  · split
    · next s hs =>
      rcases hn with rfl | hn
      · rw [if_pos rfl, hT]
        exact ⟨e.cloexec, rfl⟩
      · exact absurd hs (hn s)
    · exact ⟨e.cloexec, hT⟩
    · rw [hT]
      exact ⟨true, rfl⟩
  · exact ⟨e.cloexec, hT⟩

/-- The table after an entry has been mapped, before the gap below it is flagged. -/
def mapped (policy : RawFd → Option Action) (T : Table φ) (guestPipe : RawFd) (r : Nat)
    (fd : RawFd) : Action → Table φ
  | .map source =>
    if guestPipe = fd then applied policy T guestPipe r
    else Function.update (applied policy T guestPipe r) fd ((T source).map fun e => ⟨e.file, false⟩)
  | .ignore => applied policy T guestPipe r

theorem mapped_pipe {e : Entry φ} (hT : T guestPipe = some e) :
    ∃ c, mapped policy T guestPipe r fd action guestPipe = some ⟨e.file, c⟩ := by
  unfold mapped
  split
  · split
    · exact applied_file hT (.inl rfl)
    · next hne =>
      rw [Function.update_of_ne hne]
      exact applied_file hT (.inl rfl)
  · exact applied_file hT (.inl rfl)

theorem mapEntry_spec (hsrc : Sources policy T guestPipe)
    (h : Remaining policy ((fd, action) :: entries) r) :
    Wp fdKernel (mapEntry guestPipe fd action).run (fun x t => match x with
      | .ok () => t = mapped policy T guestPipe r fd action
      | .error _ => t = applied policy T guestPipe r) (applied policy T guestPipe r) := by
  unfold mapEntry mapped
  cases action with
  | ignore => exact wp_pureE.mpr rfl
  | map source =>
    dsimp only
    split
    · exact wp_pureE.mpr rfl
    · have hpol := h.head.1
      obtain ⟨e, he⟩ := hsrc.isOpen _ _ hpol
      have hfile : ∃ c, applied policy T guestPipe r source = some ⟨e.file, c⟩ :=
        applied_file he (.inr (hsrc.unmapped _ _ hpol))
      obtain ⟨c, hc⟩ := hfile
      refine dup3_spec _ _ _ (fun e' he' _ => ?_) fun _ => rfl
      rw [hc] at he'
      cases he'
      rw [he]
      rfl

/-- Flagging the gap completes the step. -/
theorem flag_mapped (h : Remaining policy ((fd, action) :: entries) r) :
    (fun n => if r ≤ number n ∧ number n < number fd
      then (mapped policy T guestPipe r fd action n).map ({ · with cloexec := true })
      else mapped policy T guestPipe r fd action n) =
    applied policy T guestPipe (number fd + 1) := by
  obtain ⟨hpol, hr, -⟩ := h.head
  have hother : ∀ n, n ≠ fd →
      mapped policy T guestPipe r fd action n = applied policy T guestPipe r n := by
    intro n hn
    unfold mapped
    split
    · split
      · rfl
      · rw [Function.update_of_ne hn]
    · rfl
  funext n
  -- passed before, in the gap, the entry itself, or still to come
  by_cases hlow : number n < r
  · have hne : n ≠ fd := fun e => by subst e; omega
    rw [if_neg (by omega), hother n hne]
    unfold applied
    rw [if_pos hlow, if_pos (by omega)]
  · by_cases hgap : number n < number fd
    · have hne : n ≠ fd := fun e => by subst e; omega
      rw [if_pos ⟨by omega, hgap⟩, hother n hne]
      unfold applied
      rw [if_neg hlow, if_pos (by omega), h.gap (by omega) hgap]
    · rw [if_neg (by omega)]
      by_cases hfd : n = fd
      · subst hfd
        unfold mapped applied
        rw [if_pos (Nat.lt_succ_self _), hpol]
        cases action with
        | ignore => simp [hlow]
        | map source =>
          dsimp only
          split
          · simp [hlow]
          · simp
      · have hgt : number fd < number n := by
          have : number n ≠ number fd := fun e => hfd (number_injective e)
          omega
        rw [hother n hfd]
        unfold applied
        rw [if_neg hlow, if_neg (by omega)]

/-- The delayed source, once the loop has passed every descriptor below `r`. -/
def delayedSource (policy : RawFd → Option Action) (guestPipe : RawFd) (r : Nat) : Option RawFd :=
  if number guestPipe < r then (policy guestPipe).bind Action.source else none

theorem delayed_step (h : Remaining policy ((fd, action) :: entries) r) :
    delayed guestPipe fd action (delayedSource policy guestPipe r) =
      delayedSource policy guestPipe (number fd + 1) := by
  obtain ⟨hpol, hr, -⟩ := h.head
  -- only the entry of the pipe's own number is delayed
  by_cases hfd : guestPipe = fd
  · subst hfd
    unfold delayed delayedSource
    rw [if_neg (by omega), if_pos (Nat.lt_succ_self _), hpol]
    cases action with
    | ignore => rfl
    | map source => simp [Action.source]
  · have hne : number guestPipe ≠ number fd := fun e => hfd (number_injective e)
    have hkeep : delayed guestPipe fd action (delayedSource policy guestPipe r) =
        delayedSource policy guestPipe r := by
      unfold delayed
      cases action <;> simp [hfd]
    rw [hkeep]
    unfold delayedSource
    by_cases hlow : number guestPipe < r
    · rw [if_pos hlow, if_pos (by omega)]
    · rw [if_neg hlow]
      split
      · rw [h.gap (by omega) (by omega)]
        rfl
      · rfl

theorem flagGap_spec {rangeStart : UInt32} (hr : rangeStart.toNat = r)
    (h : Remaining policy ((fd, action) :: entries) r) :
    Wp fdKernel (flagGap rangeStart fd.toUInt32).run (fun x t => match x with
      | .ok () => t = applied policy T guestPipe (number fd + 1)
      | .error _ => t = mapped policy T guestPipe r fd action)
      (mapped policy T guestPipe r fd action) := by
  have hflag : _ = applied policy T guestPipe (number fd + 1) := flag_mapped h
  unfold flagGap
  split
  · next hlt =>
    have hlt' : r < number fd := by rw [← hr]; exact hlt
    refine closeRange_spec _ _ _ ?_ fun _ => rfl
    show _ = applied policy T guestPipe (number fd + 1)
    rw [← hflag]
    funext n
    have hpred : (saturatingPred fd.toUInt32).toNat = number fd - 1 := by
      have hpos : fd.toUInt32 ≠ 0 := by
        intro e
        have : number fd = 0 := by rw [number, e]; rfl
        omega
      unfold saturatingPred
      rw [if_neg hpos, UInt32.toNat_sub_of_le _ _ (by
        rw [UInt32.le_iff_toNat_le]; show 1 ≤ number fd; omega)]
      rfl
    have hcond : (rangeStart ≤ n.toUInt32 ∧ n.toUInt32 ≤ saturatingPred fd.toUInt32) ↔
        (r ≤ number n ∧ number n < number fd) := by
      rw [UInt32.le_iff_toNat_le, UInt32.le_iff_toNat_le, hpred, hr]
      show r ≤ number n ∧ number n ≤ number fd - 1 ↔ _
      omega
    simp only [hcond]
  · next hge =>
    -- the entry follows the last one: there is no gap
    have hge' : ¬ r < number fd := by rw [← hr]; exact hge
    apply wp_pureE.mpr
    show _ = applied policy T guestPipe (number fd + 1)
    rw [← hflag]
    funext n
    rw [if_neg (by omega)]

/-- Every number is below `2 ^ 32`. -/
theorem closeRest_spec {rangeStart : UInt32} (hr : rangeStart.toNat = r)
    (h : Remaining policy [] r) :
    Wp fdKernel (closeRange rangeStart 0xffffffff).run (fun x t => match x with
      | .ok () => t = applied policy T guestPipe (2 ^ 32)
      | .error _ => t = applied policy T guestPipe r) (applied policy T guestPipe r) := by
  refine closeRange_spec _ _ _ ?_ fun _ => rfl
  funext n
  have hn : number n < 2 ^ 32 := n.toUInt32.toNat_lt
  have hlast : n.toUInt32 ≤ 0xffffffff := by
    rw [UInt32.le_iff_toNat_le]
    show number n ≤ 4294967295
    omega
  by_cases hlow : rangeStart ≤ n.toUInt32
  · have hlow' : r ≤ number n := by rw [← hr]; exact hlow
    rw [if_pos ⟨hlow, hlast⟩]
    unfold applied
    rw [if_neg (by omega), if_pos hn, h.nil hlow']
  · have hlow' : number n < r := by rw [← hr]; exact UInt32.not_le.mp hlow
    rw [if_neg fun hc => hlow hc.1]
    unfold applied
    rw [if_pos hlow', if_pos hn]

/-- The whole loop. -/
theorem markDescriptors_spec (hsrc : Sources policy T guestPipe) {e : Entry φ}
    (hpipe : T guestPipe = some e) (entries : List (RawFd × Action)) :
    ∀ (r : Nat) (rangeStart : UInt32), rangeStart.toNat = r → Remaining policy entries r →
    Wp fdKernel
      (markDescriptors guestPipe entries rangeStart (delayedSource policy guestPipe r)).run
      (fun x t => match x with
        | .ok source => t = applied policy T guestPipe (2 ^ 32) ∧
          source = (policy guestPipe).bind Action.source
        | .error _ => ∃ c, t guestPipe = some ⟨e.file, c⟩) (applied policy T guestPipe r) := by
  -- every turn leaves the table of the descriptors below the next `rangeStart`
  induction entries with
  | nil =>
    intro r rangeStart hr h
    refine Wp.bindE ((closeRest_spec hr h).mono fun x t hx => ?_)
    cases x with
    | error _ =>
      rw [show t = _ from hx]
      exact applied_file hpipe (.inl rfl)
    | ok _ =>
      refine wp_pureE.mpr ⟨hx, ?_⟩
      unfold delayedSource
      split
      · rfl
      · next hlow => rw [h.nil (by omega)]; rfl
  | cons p entries ih =>
    intro r rangeStart hr h
    obtain ⟨fd, action⟩ := p
    refine Wp.bindE ((mapEntry_spec hsrc h).mono fun x t hx => ?_)
    cases x with
    | error _ =>
      rw [show t = _ from hx]
      exact applied_file hpipe (.inl rfl)
    | ok _ =>
      rw [show t = _ from hx]
      refine Wp.bindE ((flagGap_spec hr h).mono fun y t' hy => ?_)
      cases y with
      | error _ =>
        rw [show t' = _ from hy]
        exact mapped_pipe hpipe
      | ok _ =>
        rw [show t' = _ from hy, delayed_step h]
        refine ih _ _ ?_ h.tail
        have hlt := number_lt_of_nonneg h.head.2.2
        have hne : fd.toUInt32 ≠ 0xffffffff := by
          intro he
          have : number fd = 4294967295 := by rw [number, he]; rfl
          omega
        unfold saturatingSucc
        rw [if_neg hne, UInt32.toNat_add]
        show (number fd + 1) % 2 ^ 32 = number fd + 1
        omega

end Loop

/-! ## The whole function -/

/-- What exec is to find: every mapped descriptor refers to what its source
referred to, every ignored one to what it referred to if it was not
close-on-exec, and there is nothing else. -/
def expected (policy : RawFd → Option Action) (T : Table φ) (n : RawFd) : Option φ :=
  match policy n with
  | some (.map source) => (T source).map Entry.file
  | some .ignore => T.exec n
  | none => none

theorem exec_applied {policy : RawFd → Option Action} {T : Table φ} {guestPipe n : RawFd}
    (hn : guestPipe = n → ∀ s, policy n ≠ some (.map s)) :
    (applied policy T guestPipe (2 ^ 32)).exec n = expected policy T n := by
  have hlt : number n < 2 ^ 32 := n.toUInt32.toNat_lt
  unfold Table.exec applied expected
  rw [if_pos hlt]
  cases hp : policy n with
  | none => cases T n <;> rfl
  | some action =>
    cases action with
    | ignore => rfl
    | map source =>
      dsimp only
      rw [if_neg fun e => hn e source hp]
      cases T source <;> rfl

/-- The policy in force, read as a function. -/
def FdPolicy.actions (policy : FdPolicy) (n : RawFd) : Option Action := policy[n]?

theorem FdPolicy.remaining {policy : FdPolicy} (h : isValidFdPolicy policy = true) :
    Remaining policy.actions policy.toList 0 where
  nonneg p hp := by
    have hall := List.all_eq_true.mp h p hp
    obtain ⟨fd, action⟩ := p
    by_contra hneg
    dsimp only at hall hneg
    rw [if_pos (Int32.not_le.mp hneg)] at hall
    cases hall
  sorted := TreeMap.ordered_keys_toList
  mem n a := by
    rw [TreeMap.mem_toList_iff_getElem?_eq_some]
    simp [FdPolicy.actions]

/-- No source of a valid policy is mapped itself. -/
theorem FdPolicy.unmapped {policy : FdPolicy} (h : isValidFdPolicy policy = true) {n source : RawFd}
    (hn : policy.actions n = some (.map source)) (s : RawFd) :
    policy.actions source ≠ some (.map s) := by
  intro hs
  have hmem : (source, Action.map s) ∈ policy.toList :=
    TreeMap.mem_toList_iff_getElem?_eq_some.mpr hs
  have hall := List.all_eq_true.mp h _ hmem
  have hsource : source ∈ policy.toList.filterMap fun (_, action) => action.source :=
    List.mem_filterMap.mpr
      ⟨(n, .map source), TreeMap.mem_toList_iff_getElem?_eq_some.mpr hn, rfl⟩
  dsimp only at hall
  split at hall
  · cases hall
  · rw [if_neg (by simp)] at hall
    simp [hsource] at hall

/-- A descriptor that is free is not one that is open. -/
theorem ne_of_free {T : Table φ} {n new : RawFd} {e : Entry φ} (hnew : T new = none)
    (hn : T n = some e) : new ≠ n := by
  intro heq
  rw [heq, hn] at hnew
  cases hnew

/-- What a mapping copies is still open, and the same, when all others are done. -/
theorem Sources.stillOpen {policy : RawFd → Option Action} {T : Table φ}
    {guestPipe n source : RawFd}
    (h : Sources policy T guestPipe) (hmap : policy n = some (.map source)) (k : Nat) :
    ∃ e c, T source = some e ∧ applied policy T guestPipe k source = some ⟨e.file, c⟩ := by
  obtain ⟨e, he⟩ := h.isOpen _ _ hmap
  obtain ⟨c, hc⟩ : ∃ c, applied policy T guestPipe k source = some ⟨e.file, c⟩ :=
    applied_file he (.inr (h.unmapped _ _ hmap))
  exact ⟨e, c, he, hc⟩

/-- The delayed mapping of the guest pipe's own number: the pipe moves to an
unused one, which exec closes, before its number is mapped. -/
theorem remap_spec {policy : RawFd → Option Action} {T : Table φ} {guestPipe source : RawFd}
    {pipe : φ} (hsrc : Sources policy T guestPipe)
    (hmap : policy guestPipe = some (.map source)) {new : RawFd}
    (hnew : applied policy T guestPipe (2 ^ 32) new = none) {e : Entry φ}
    (he : applied policy T guestPipe (2 ^ 32) source = some e) (n : RawFd) :
    Table.exec (Function.update (Function.update (Function.update
      (applied policy T guestPipe (2 ^ 32)) new (some ⟨pipe, true⟩)) guestPipe none) guestPipe
      (some ⟨e.file, false⟩)) n = expected policy T n := by
  by_cases hn : n = guestPipe
  · subst hn
    obtain ⟨e', c, he', hc⟩ := hsrc.stillOpen hmap (2 ^ 32)
    rw [hc] at he
    cases he
    unfold Table.exec expected
    rw [Function.update_self, hmap]
    dsimp only
    rw [he']
    rfl
  · have hrest : Table.exec (Function.update (applied policy T guestPipe (2 ^ 32)) new
        (some ⟨pipe, true⟩)) n = (applied policy T guestPipe (2 ^ 32)).exec n := by
      unfold Table.exec
      by_cases hnn : n = new
      · subst hnn
        rw [Function.update_self, hnew]
        rfl
      · rw [Function.update_of_ne hnn]
    have hsame : Table.exec (Function.update (Function.update (Function.update
        (applied policy T guestPipe (2 ^ 32)) new (some ⟨pipe, true⟩)) guestPipe none) guestPipe
        (some ⟨e.file, false⟩)) n = Table.exec (Function.update
        (applied policy T guestPipe (2 ^ 32)) new (some ⟨pipe, true⟩)) n := by
      unfold Table.exec
      rw [Function.update_of_ne hn, Function.update_of_ne hn]
    calc _ = Table.exec (Function.update (applied policy T guestPipe (2 ^ 32)) new
          (some ⟨pipe, true⟩)) n := hsame
      _ = (applied policy T guestPipe (2 ^ 32)).exec n := hrest
      _ = expected policy T n := exec_applied fun e => absurd e.symm hn

/-- The guest pipe stays open throughout, and what a run that succeeds leaves for exec is what the
policy asks for. -/
theorem applyFileDescriptorPolicy_table (policy : FdPolicy)
    (hvalid : isValidFdPolicy policy = true) (T : Table φ) (guestPipe : RawFd) (pipe : φ)
    (hpipe : T guestPipe = some ⟨pipe, true⟩)
    (hopen : ∀ n source, policy.actions n = some (.map source) → ∃ e, T source = some e)
    (hne : ∀ n, policy.actions n ≠ some (.map guestPipe)) :
    Wp fdKernel (applyFileDescriptorPolicy policy.toList guestPipe) (fun r t =>
      (∃ c, t r.2 = some ⟨pipe, c⟩) ∧
      (r.1 = .ok () → ∀ n, t.exec n = expected policy.actions T n)) T := by
  have hsrc : Sources policy.actions T guestPipe :=
    ⟨hopen, fun n source hn => FdPolicy.unmapped hvalid hn,
      fun n source hn e => hne n (by rw [← e]; exact hn)⟩
  have hstart : applied policy.actions T guestPipe 0 = T := by
    funext n
    unfold applied
    rw [if_neg (by omega)]
  have hloop := markDescriptors_spec hsrc hpipe policy.toList 0 0 rfl (FdPolicy.remaining hvalid)
  rw [hstart] at hloop
  have hkept : ∃ c, applied policy.actions T guestPipe (2 ^ 32) guestPipe = some ⟨pipe, c⟩ :=
    applied_file hpipe (.inl rfl)
  refine Wp.bind (hloop.mono fun x t hx => ?_)
  cases x with
  | error e => exact wp_done.mpr ⟨hx, fun h => by cases h⟩
  | ok delayed =>
    obtain ⟨rfl, hdelayed⟩ := hx
    cases delayed with
    | none =>
      refine wp_done.mpr ⟨hkept, fun _ n => exec_applied fun e s hs => ?_⟩
      rw [e, hs] at hdelayed
      cases hdelayed
    | some source =>
      -- the source of the pipe's own number, which only a mapping of it can delay
      have hmap : policy.actions guestPipe = some (.map source) := by
        obtain ⟨action, haction, hsource⟩ := Option.bind_eq_some_iff.mp hdelayed.symm
        cases action with
        | ignore => cases hsource
        | map s =>
          cases hsource
          exact haction
      refine Wp.bind (wp_guestCall (Wp.perform ?_))
      intro r t hk
      rcases hk with ⟨e, new, he, hnew, rfl, rfl⟩ | ⟨e, rfl, rfl⟩
      · obtain ⟨c, hc⟩ := hkept
        rw [hc] at he
        cases he
        have hmoved : new ≠ guestPipe := ne_of_free hnew hc
        refine Wp.bind (Wp.perform ?_)
        intro _ t e
        subst e
        refine Wp.bind (dup3_spec _ _ _ (fun e hsource hdiff => ?_) fun e => ?_)
        · refine wp_done.mpr ⟨⟨true, ?_⟩, fun _ => ?_⟩
          · rw [Function.update_of_ne hmoved, Function.update_of_ne hmoved, Function.update_self]
          · apply remap_spec hsrc hmap hnew
            have hne_new : source ≠ new := by
              obtain ⟨_, _, _, hsourceOpen⟩ := hsrc.stillOpen hmap (2 ^ 32)
              exact (ne_of_free hnew hsourceOpen).symm
            rwa [Function.update_of_ne hdiff, Function.update_of_ne hne_new] at hsource
        · refine wp_done.mpr ⟨⟨true, ?_⟩, fun h => by cases h⟩
          rw [Function.update_of_ne hmoved, Function.update_self]
      · exact wp_done.mpr ⟨hkept, fun h => by cases h⟩

/-- For every valid policy and every table in which the guest pipe is open and
close-on-exec and the sources are open: whatever the run, the guest pipe it leaves
refers to the pipe, and if it succeeds then exec finds exactly what the policy
asks for. -/
theorem applyFileDescriptorPolicy_spec (policy : FdPolicy) (hvalid : isValidFdPolicy policy = true)
    (T : Table φ) (guestPipe : RawFd) (pipe : φ) (hpipe : T guestPipe = some ⟨pipe, true⟩)
    (hopen : ∀ n source, policy.actions n = some (.map source) → ∃ e, T source = some e)
    (hne : ∀ n, policy.actions n ≠ some (.map guestPipe))
    {result : Except PostSpawnGuest Unit} {guestPipe' : RawFd} {T' : Table φ}
    (hrun : Returns fdKernel (applyFileDescriptorPolicy policy.toList guestPipe) T
      (result, guestPipe') T') :
    (∃ c, T' guestPipe' = some ⟨pipe, c⟩) ∧
    (result = .ok () → ∀ n, T'.exec n = expected policy.actions T n) := by
  have htable := applyFileDescriptorPolicy_table policy hvalid T guestPipe pipe hpipe hopen hne
  exact htable.returns hrun

/-- A policy that maps onto the guest pipe's own number and ignores another. -/
def remappingPolicy : FdPolicy := TreeMap.ofList [(4, .ignore), (3, .map 5)] compare

/-- The pipe at 3, the source at 5, an ignored descriptor at 4 and a stray one at 1. -/
def remappingTable : Table Nat
  | 1 => some ⟨1, false⟩
  | 3 => some ⟨3, true⟩
  | 4 => some ⟨4, false⟩
  | 5 => some ⟨5, true⟩
  | _ => none

theorem remapping_actions (n source : RawFd)
    (h : remappingPolicy.actions n = some (.map source)) : n = 3 ∧ source = 5 := by
  have hmem : (n, Action.map source) ∈ remappingPolicy.toList :=
    TreeMap.mem_toList_iff_getElem?_eq_some.mpr h
  have hlist : remappingPolicy.toList = [(3, .map 5), (4, .ignore)] := by decide
  rw [hlist] at hmem
  simpa using hmem

/-- A kernel that gives the pipe the number `free`. -/
def fdImpl (free : RawFd) : Impl FdCalls (Table φ)
  | table, .dup3 old new flags =>
    match table old with
    | some e =>
      if old = new then (.error .INVAL, table)
      else (.ok new, Function.update table new (some ⟨e.file, flags &&& O_CLOEXEC != 0⟩))
    | none => (.error .INVAL, table)
  | table, .closeRange first last flags =>
    if flags = CLOSE_RANGE_CLOEXEC then
      (.ok (), fun n => if first ≤ n.toUInt32 ∧ n.toUInt32 ≤ last
        then (table n).map ({ · with cloexec := true }) else table n)
    else (.error .INVAL, table)
  | table, .fcntlDupfdCloexec old =>
    match table old, table free with
    | some e, none => (.ok free, Function.update table free (some ⟨e.file, true⟩))
    | _, _ => (.error .INVAL, table)
  | table, .close fd => ((), Function.update table fd none)

theorem fdImpl_fdKernel (free : RawFd) (table : Table φ) (op : FdOp) :
    fdKernel table op (fdImpl free table op).1 (fdImpl free table op).2 := by
  cases op with
  | dup3 old new flags =>
    unfold fdImpl
    dsimp only
    split
    · next e he =>
      split
      · exact .inr ⟨_, rfl, rfl⟩
      · next hne => exact .inl ⟨e, he, hne, rfl, rfl⟩
    · exact .inr ⟨_, rfl, rfl⟩
  | closeRange first last flags =>
    unfold fdImpl
    dsimp only
    split
    · next hflags => exact .inl ⟨hflags, rfl, rfl⟩
    · exact .inr ⟨_, rfl, rfl⟩
  | fcntlDupfdCloexec old =>
    unfold fdImpl
    dsimp only
    split
    · next e he hnew => exact .inl ⟨e, free, he, hnew, rfl, rfl⟩
    · exact .inr ⟨_, rfl, rfl⟩
  | close fd => rfl

/-- The pipe moves to 0, its old number is the source's file after exec, the ignored
descriptor stays, and the stray one is gone. -/
theorem applyFileDescriptorPolicy_remapping :
    ∃ T', Returns fdKernel (applyFileDescriptorPolicy remappingPolicy.toList 3) remappingTable
        (.ok (), 0) T' ∧
      (∃ c, T' 0 = some ⟨3, c⟩) ∧ T'.exec 3 = some 5 ∧ T'.exec 4 = some 4 ∧ T'.exec 1 = none := by
  have hrun : ∃ T', Returns fdKernel (applyFileDescriptorPolicy remappingPolicy.toList 3)
      remappingTable (.ok (), 0) T' := ⟨_, run_returns (fdImpl_fdKernel 0) 10 rfl⟩
  obtain ⟨T', hrun⟩ := hrun
  have hspec := applyFileDescriptorPolicy_spec remappingPolicy (by decide) remappingTable 3 3 rfl
    (fun n source h => ⟨⟨5, true⟩, by rw [(remapping_actions n source h).2]; rfl⟩)
    (fun n h => absurd (remapping_actions n 3 h).2 (by decide)) hrun
  refine ⟨T', hrun, hspec.1, ?_, ?_, ?_⟩
  · rw [hspec.2 rfl]
    decide
  · rw [hspec.2 rfl]
    decide
  · rw [hspec.2 rfl]
    decide

end Spec

end LayerCake.Bubblebox.Spawn
