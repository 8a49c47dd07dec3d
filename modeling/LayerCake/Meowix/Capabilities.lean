import Mathlib.Tactic.Common
import LayerCake.Meowix.Errors

/-
  Linux capabilities (`meowix/src/capabilities.rs`) and the order in which a
  spawned guest sheds them (`guest_post_clone`, `clone_into` in
  `bubblebox/src/platform/linux/spawn/mod.rs`).

  The kernel's side is `capabilities(7)`: dropping from the bounding set,
  `capset(2)`, raising an ambient capability and entering a user namespace, over
  the five sets of a thread, for a kernel whose last capability is `lastCap`.

  Correspondence (Rust ↔ Lean):
    `CapabilitySet` (a `u64`)                    ↔ `CapabilitySet`
    `drop_bounding_set`                          ↔ `dropBoundingSet`
    `set_ambient_capabilities`                   ↔ `setAmbientCapabilities`
    `CapabilitySets::into_user_cap_data_struct`  ↔ `intoUserCapDataStruct`
    `syscalls::set_capabilities`                 ↔ `setCapabilities`
    the guest's calls, in order                  ↔ `guestCapabilities`

  What is proved: `guestCapabilities_spec` — the sequence ends with every set but
  the effective one equal to the target and the effective one empty, whenever it
  succeeds, and it succeeds when the target names no capability the kernel lacks.
  `confinedCreds_exec` — what is then executed has the target and nothing else.
-/

namespace LayerCake.Meowix.Capabilities

/-- A set of capabilities: bit `c` is capability `c`. -/
abbrev CapabilitySet := BitVec 64

/-- `CapabilitySet::from_bits_retain(1 << cap)`. -/
def bit (cap : Nat) : CapabilitySet := 1#64 <<< cap

/-- `CapabilitySet::contains`. -/
def contains (set other : CapabilitySet) : Bool := set &&& other == other

/-- The capability sets of a thread. -/
structure Creds where
  bounding : CapabilitySet
  permitted : CapabilitySet
  effective : CapabilitySet
  inheritable : CapabilitySet
  ambient : CapabilitySet
  deriving DecidableEq, Repr

/-- `capabilities::CapabilitySets`. -/
structure CapabilitySets where
  effective : CapabilitySet
  permitted : CapabilitySet
  inheritable : CapabilitySet

/-- `linux::__user_cap_data_struct`. -/
structure UserCapData where
  effective : BitVec 32
  permitted : BitVec 32
  inheritable : BitVec 32

/-- The low and high halves handed to `capset(2)`. -/
def CapabilitySets.intoUserCapDataStruct (s : CapabilitySets) : UserCapData × UserCapData :=
  (⟨s.effective.setWidth 32, s.permitted.setWidth 32, s.inheritable.setWidth 32⟩,
   ⟨(s.effective >>> 32).setWidth 32, (s.permitted >>> 32).setWidth 32,
    (s.inheritable >>> 32).setWidth 32⟩)

/-- `CAP_SETPCAP`. -/
def CAP_SETPCAP : Nat := 8

section Kernel
variable (lastCap : Fin 64)

/-- Every capability the kernel has. -/
def fullSet : CapabilitySet := BitVec.allOnes 64 >>> (63 - lastCap.val)

/-- The sets of a process that has just entered a new user namespace. -/
def freshUserNamespace : Creds :=
  { bounding := fullSet lastCap, permitted := fullSet lastCap, effective := fullSet lastCap,
    inheritable := 0, ambient := 0 }

/-- Whether the thread may change its sets: it holds `CAP_SETPCAP`, where the
kernel has that capability. -/
def mayChange (c : Creds) : Bool :=
  decide (lastCap.val < CAP_SETPCAP) || c.effective.getLsbD CAP_SETPCAP

/-- `prctl(PR_CAPBSET_DROP)`. -/
def capbsetDrop (cap : Nat) (c : Creds) : Except Errno Unit × Creds :=
  if !mayChange lastCap c then (.error .PERM, c)
  else if lastCap.val < cap then (.error .INVAL, c)
  else (.ok (), { c with bounding := c.bounding &&& ~~~ bit cap })

/-- `prctl(PR_CAP_AMBIENT, PR_CAP_AMBIENT_RAISE)`. -/
def capAmbientRaise (cap : Nat) (c : Creds) : Except Errno Unit × Creds :=
  if lastCap.val < cap then (.error .INVAL, c)
  else if !(contains c.permitted (bit cap) && contains c.inheritable (bit cap)) then
    (.error .PERM, c)
  else (.ok (), { c with ambient := c.ambient ||| bit cap })

/-- One set of `capset(2)`, from its two halves; unknown capabilities are masked. -/
def joinHalves (lo hi : BitVec 32) : CapabilitySet :=
  (lo.setWidth 64 ||| hi.setWidth 64 <<< 32) &&& fullSet lastCap

/-- `capset(2)`. -/
def capset (data : UserCapData × UserCapData) (c : Creds) : Except Errno Unit × Creds :=
  let effective := joinHalves lastCap data.1.effective data.2.effective
  let permitted := joinHalves lastCap data.1.permitted data.2.permitted
  let inheritable := joinHalves lastCap data.1.inheritable data.2.inheritable
  if (mayChange lastCap c || contains (c.inheritable ||| c.permitted) inheritable) &&
      contains (c.inheritable ||| c.bounding) inheritable &&
      contains c.permitted permitted && contains permitted effective then
    (.ok (), { c with effective, permitted, inheritable,
                      ambient := c.ambient &&& (permitted &&& inheritable) })
  else (.error .PERM, c)

/-- A call sequence over the thread's sets, stopped by a failed call. -/
abbrev CapM := ExceptT SyscallError (StateM Creds)

/-- One call; the value is its result, an error tagged with the syscall. -/
def attempt (s : Syscall) (f : Creds → Except Errno Unit × Creds) :
    CapM (Except SyscallError Unit) :=
  ExceptT.mk fun c => (.ok (wrapSyscall s (f c).1), (f c).2)

/-- One call, whose error is the sequence's. -/
def syscall (s : Syscall) (f : Creds → Except Errno Unit × Creds) : CapM Unit := do
  match ← attempt s f with
  | .ok () => pure ()
  | .error e => throw e

/-! ## The code -/

/-- The loop of `drop_bounding_set`, over the capabilities still to visit. -/
def dropBoundingSetFrom (otherThan : CapabilitySet) : List Nat → CapM Unit
  | [] => pure ()
  | cap :: caps =>
    if contains otherThan (bit cap) then dropBoundingSetFrom otherThan caps
    else do
      match ← attempt .prctl (capbsetDrop lastCap cap) with
      | .error e =>
        -- the capability space is contiguous: nothing is left to drop
        if e.error = .INVAL then pure () else throw e
      | .ok () => dropBoundingSetFrom otherThan caps

def dropBoundingSet (otherThan : CapabilitySet) : CapM Unit :=
  dropBoundingSetFrom lastCap otherThan (List.range 64)

/-- The loop of `set_ambient_capabilities`. -/
def setAmbientCapabilitiesFrom (raise : CapabilitySet) : List Nat → CapM Unit
  | [] => pure ()
  | cap :: caps =>
    if contains raise (bit cap) then do
      syscall .prctl (capAmbientRaise lastCap cap)
      setAmbientCapabilitiesFrom raise caps
    else setAmbientCapabilitiesFrom raise caps

def setAmbientCapabilities (raise : CapabilitySet) : CapM Unit :=
  setAmbientCapabilitiesFrom lastCap raise (List.range 64)

def setCapabilities (data : CapabilitySets) : CapM Unit :=
  syscall .capset (capset lastCap data.intoUserCapDataStruct)

/-- `unshare(CLONE_NEWUSER)`, as far as capabilities go. -/
def unshareUser : CapM Unit := syscall .unshare fun _ => (.ok (), freshUserNamespace lastCap)

/-- The calls of a spawned guest that change its capabilities, in order. -/
def guestCapabilities (target : CapabilitySet) (disableUserns : Bool) : CapM Unit := do
  dropBoundingSet lastCap target
  if disableUserns then
    unshareUser lastCap
    dropBoundingSet lastCap target
  setCapabilities lastCap { effective := 0, permitted := target, inheritable := target }
  setAmbientCapabilities lastCap target

/-! ## Bits -/

theorem getLsbD_bit {cap i : Nat} (h : cap < 64) : (bit cap).getLsbD i = decide (i = cap) := by
  unfold bit
  rw [BitVec.getLsbD_shiftLeft, BitVec.getLsbD_one]
  by_cases hi : i = cap
  · simp [hi, h]
  · rw [decide_eq_false hi]
    by_cases hlt : i < cap
    · simp [hlt]
    · have : ¬ i - cap = 0 := by omega
      simp [this]

theorem contains_iff {s t : CapabilitySet} :
    contains s t = true ↔ ∀ i, t.getLsbD i = true → s.getLsbD i = true := by
  unfold contains
  rw [beq_iff_eq]
  constructor
  · intro h i hi
    rw [← h, BitVec.getLsbD_and, Bool.and_eq_true] at hi
    exact hi.1
  · intro h
    apply BitVec.eq_of_getLsbD_eq
    intro i _
    rw [BitVec.getLsbD_and]
    cases ht : t.getLsbD i
    · simp
    · simp [h i ht]

theorem contains_bit {s : CapabilitySet} {cap : Nat} (h : cap < 64) :
    contains s (bit cap) = s.getLsbD cap := by
  rw [Bool.eq_iff_iff, contains_iff]
  constructor
  · intro hs
    exact hs cap (by simp [getLsbD_bit h])
  · intro hs i hi
    rw [getLsbD_bit h] at hi
    exact of_decide_eq_true hi ▸ hs

theorem getLsbD_fullSet (i : Nat) : (fullSet lastCap).getLsbD i = decide (i ≤ lastCap.val) := by
  have hlt := lastCap.isLt
  unfold fullSet
  rw [BitVec.getLsbD_ushiftRight, BitVec.getLsbD_allOnes]
  congr 1
  exact propext ⟨fun h => by omega, fun h => by omega⟩

/-- The kernel puts the two halves of a set together again, less what it lacks. -/
theorem joinHalves_split (s : CapabilitySet) :
    joinHalves lastCap (s.setWidth 32) ((s >>> 32).setWidth 32) = s &&& fullSet lastCap := by
  unfold joinHalves
  congr 1
  apply BitVec.eq_of_getLsbD_eq
  intro i hi
  rw [BitVec.getLsbD_or, BitVec.getLsbD_setWidth, BitVec.getLsbD_setWidth, BitVec.getLsbD_shiftLeft,
    BitVec.getLsbD_setWidth, BitVec.getLsbD_setWidth, BitVec.getLsbD_ushiftRight]
  by_cases h : i < 32
  · simp [h, hi]
  · have hback : 32 + (i - 32) = i := by omega
    have hsmall : i - 32 < 32 := by omega
    have hwide : i - 32 < 64 := by omega
    simp [h, hi, hback, hsmall, hwide]

theorem decide_lt_succ {i k : Nat} (h : ¬ i = k) : decide (i < k + 1) = decide (i < k) := by
  rw [decide_eq_decide]
  omega

theorem decide_succ_le {i k : Nat} (h : i ≠ k) : decide (k + 1 ≤ i) = decide (k ≤ i) := by
  rw [decide_eq_decide]
  omega

/-! ## One call -/

theorem attempt_bind_run {α : Type} (s : Syscall) (f : Creds → Except Errno Unit × Creds)
    (k : Except SyscallError Unit → CapM α) (c : Creds) :
    (attempt s f >>= k).run c = (k (wrapSyscall s (f c).1)).run (f c).2 := rfl

theorem syscall_run_ok {s : Syscall} {f : Creds → Except Errno Unit × Creds} {c c' : Creds}
    (h : f c = (.ok (), c')) : (syscall s f).run c = (.ok (), c') := by
  unfold syscall
  rw [attempt_bind_run, h]
  rfl

theorem syscall_run_error {s : Syscall} {f : Creds → Except Errno Unit × Creds} {c c' : Creds}
    {e : Errno} (h : f c = (.error e, c')) : (syscall s f).run c = (.error ⟨s, e⟩, c') := by
  unfold syscall
  rw [attempt_bind_run, h]
  rfl

/-- A sequence goes on from where its first part succeeded. -/
theorem bind_run_ok {α β : Type} {p : CapM α} {f : α → CapM β} {c c' : Creds} {a : α}
    (h : p.run c = (.ok a, c')) : (p >>= f).run c = (f a).run c' := by
  show (ExceptT.bindCont f (p.run c).1 (p.run c).2) = _
  rw [h]
  rfl

/-- Where a sequence succeeded, so did its first part. -/
theorem bind_run_eq_ok {α β : Type} {p : CapM α} {f : α → CapM β} {c c₂ : Creds} {b : β}
    (h : (p >>= f).run c = (.ok b, c₂)) :
    ∃ a c₁, p.run c = (.ok a, c₁) ∧ (f a).run c₁ = (.ok b, c₂) := by
  have hrun : (p >>= f).run c = ExceptT.bindCont f (p.run c).1 (p.run c).2 := rfl
  rw [hrun] at h
  rcases hp : p.run c with ⟨_ | a, c₁⟩
  · rw [hp] at h
    cases h
  · rw [hp] at h
    exact ⟨a, c₁, rfl, h⟩

/-! ## The loops -/

/-- A turn of the loop of `drop_bounding_set` whose capability is dropped. -/
theorem dropBoundingSetFrom_dropped {target : CapabilitySet} {cap : Nat} {caps : List Nat}
    {c c' : Creds} (hcap : contains target (bit cap) = false)
    (h : capbsetDrop lastCap cap c = (.ok (), c')) :
    (dropBoundingSetFrom lastCap target (cap :: caps)).run c =
      (dropBoundingSetFrom lastCap target caps).run c' := by
  conv => lhs; unfold dropBoundingSetFrom
  rw [if_neg (by simp [hcap]), attempt_bind_run, h]
  rfl

/-- The turn that meets the end of the capability space ends the loop. -/
theorem dropBoundingSetFrom_end {target : CapabilitySet} {cap : Nat} {caps : List Nat}
    {c c' : Creds} (hcap : contains target (bit cap) = false)
    (h : capbsetDrop lastCap cap c = (.error .INVAL, c')) :
    (dropBoundingSetFrom lastCap target (cap :: caps)).run c = (.ok (), c') := by
  unfold dropBoundingSetFrom
  rw [if_neg (by simp [hcap]), attempt_bind_run, h]
  rfl

/-- From `k` on there is nothing to remove from a set that holds nothing there. -/
theorem getLsbD_below {bounding target : CapabilitySet} {k : Nat}
    (h : ∀ i, bounding.getLsbD i = true → i < k) (i : Nat) :
    bounding.getLsbD i = (bounding.getLsbD i && (target.getLsbD i || decide (i < k))) := by
  cases hb : bounding.getLsbD i with
  | false => simp
  | true =>
    have hlt := h i hb
    simp [hlt]

/-- `drop_bounding_set`, from capability `k` on: it succeeds, and of the bounding
set it removes exactly what is outside the target from `k` on. The break at the
first unknown capability skips none, as no set holds an unknown one. -/
theorem dropBoundingSetFrom_spec (target : CapabilitySet) (n : Nat) :
    ∀ (k : Nat) (c : Creds), k + n = 64 → mayChange lastCap c = true →
    (∀ i, c.bounding.getLsbD i = true → i ≤ lastCap.val) →
    ∃ b, (dropBoundingSetFrom lastCap target (List.range' k n)).run c =
        (.ok (), { c with bounding := b }) ∧
      ∀ i, b.getLsbD i = (c.bounding.getLsbD i && (target.getLsbD i || decide (i < k))) := by
  induction n with
  | zero =>
    intro k c hk _ hknown
    refine ⟨c.bounding, rfl, getLsbD_below fun i hi => ?_⟩
    have := hknown i hi
    omega
  | succ n ih =>
    intro k c hk hmay hknown
    rw [List.range'_succ]
    have hcap := contains_bit (s := target) (show k < 64 by omega)
    cases ht : target.getLsbD k
    · rw [ht] at hcap
      by_cases hlast : lastCap.val < k
      · -- the kernel does not know `k`: the loop ends here
        refine ⟨c.bounding, ?_, getLsbD_below fun i hi => ?_⟩
        · exact dropBoundingSetFrom_end lastCap hcap (by simp [capbsetDrop, hmay, hlast])
        · have := hknown i hi
          omega
      · obtain ⟨b, hrun, hb⟩ := ih (k + 1) { c with bounding := c.bounding &&& ~~~ bit k }
          (by omega) hmay (fun i hi => hknown i (by simp at hi; exact hi.1))
        refine ⟨b, ?_, fun i => ?_⟩
        · rw [dropBoundingSetFrom_dropped lastCap hcap (by simp [capbsetDrop, hmay, hlast]; rfl)]
          exact hrun
        · rw [hb i, BitVec.getLsbD_and, BitVec.getLsbD_not, getLsbD_bit (by omega)]
          by_cases hi : i = k
          · subst hi
            simp [ht]
          · rw [decide_lt_succ hi]
            cases hc : c.bounding.getLsbD i
            · simp
            · have := hknown i hc
              have h64 : i < 64 := by omega
              simp [hi, h64]
    · -- a retained capability is skipped
      obtain ⟨b, hrun, hb⟩ := ih (k + 1) c (by omega) hmay hknown
      refine ⟨b, ?_, fun i => ?_⟩
      · unfold dropBoundingSetFrom
        rw [if_pos (by rw [hcap, ht])]
        exact hrun
      rw [hb i]
      by_cases hi : i = k
      · subst hi
        simp [ht]
      · rw [decide_lt_succ hi]

/-- `drop_bounding_set` on a thread that may change its sets and holds no unknown
capability leaves in the bounding set what it shares with the target. -/
theorem dropBoundingSet_run (target : CapabilitySet) {c : Creds}
    (hmay : mayChange lastCap c = true)
    (hknown : ∀ i, c.bounding.getLsbD i = true → i ≤ lastCap.val) :
    (dropBoundingSet lastCap target).run c =
      (.ok (), { c with bounding := c.bounding &&& target }) := by
  obtain ⟨b, hrun, hb⟩ := dropBoundingSetFrom_spec lastCap target 64 0 c rfl hmay hknown
  unfold dropBoundingSet
  rw [List.range_eq_range', hrun]
  have : b = c.bounding &&& target := by
    apply BitVec.eq_of_getLsbD_eq
    intro i _
    rw [hb i, BitVec.getLsbD_and]
    simp
  rw [this]

/-- The ambient loop succeeds exactly when the kernel lets every capability of
the target it visits be raised. -/
def Raisable (target : CapabilitySet) (k : Nat) (c : Creds) : Prop :=
  ∀ i, k ≤ i → target.getLsbD i = true →
    i ≤ lastCap.val ∧ c.permitted.getLsbD i = true ∧ c.inheritable.getLsbD i = true

theorem capAmbientRaise_ok {cap : Nat} (hcap : cap < 64) {c : Creds} (hlast : cap ≤ lastCap.val)
    (hp : c.permitted.getLsbD cap = true) (hi : c.inheritable.getLsbD cap = true) :
    capAmbientRaise lastCap cap c = (.ok (), { c with ambient := c.ambient ||| bit cap }) := by
  unfold capAmbientRaise
  rw [if_neg (by omega), contains_bit hcap, contains_bit hcap, hp, hi]
  rfl

theorem capAmbientRaise_eq_ok {cap : Nat} (hcap : cap < 64) {c c' : Creds}
    (h : capAmbientRaise lastCap cap c = (.ok (), c')) :
    cap ≤ lastCap.val ∧ c.permitted.getLsbD cap = true ∧ c.inheritable.getLsbD cap = true := by
  unfold capAmbientRaise at h
  split at h
  · cases h
  · next hlast =>
    split at h
    · cases h
    · next hboth =>
      rw [contains_bit hcap, contains_bit hcap] at hboth
      have : (c.permitted.getLsbD cap && c.inheritable.getLsbD cap) = true := by simpa using hboth
      rw [Bool.and_eq_true] at this
      exact ⟨by omega, this⟩

/-- `set_ambient_capabilities`, from capability `k` on. -/
theorem setAmbientCapabilitiesFrom_spec (target : CapabilitySet) (n : Nat) :
    ∀ (k : Nat) (c : Creds), k + n = 64 → Raisable lastCap target k c →
    ∃ a, (setAmbientCapabilitiesFrom lastCap target (List.range' k n)).run c =
        (.ok (), { c with ambient := a }) ∧
      ∀ i, a.getLsbD i = (c.ambient.getLsbD i || (target.getLsbD i && decide (k ≤ i))) := by
  induction n with
  | zero =>
    intro k c hk _
    refine ⟨c.ambient, rfl, fun i => ?_⟩
    cases ht : target.getLsbD i
    · simp
    · have : i < 64 := BitVec.lt_of_getLsbD ht
      have : ¬ k ≤ i := by omega
      simp [this]
  | succ n ih =>
    intro k c hk hraise
    rw [List.range'_succ]
    unfold setAmbientCapabilitiesFrom
    rw [contains_bit (by omega)]
    cases ht : target.getLsbD k
    · obtain ⟨a, hrun, ha⟩ := ih (k + 1) c (by omega) (fun i hi => hraise i (by omega))
      refine ⟨a, hrun, fun i => ?_⟩
      rw [ha i]
      by_cases hi : i = k
      · subst hi
        simp [ht]
      · rw [decide_succ_le hi]
    · obtain ⟨hlast, hp, hh⟩ := hraise k (Nat.le_refl k) ht
      obtain ⟨a, hrun, ha⟩ := ih (k + 1) { c with ambient := c.ambient ||| bit k } (by omega)
        (fun i hi => hraise i (by omega))
      have hcall := syscall_run_ok (s := .prctl) (capAmbientRaise_ok lastCap (by omega) hlast hp hh)
      refine ⟨a, ?_, fun i => ?_⟩
      · rw [if_pos rfl, bind_run_ok hcall]
        exact hrun
      · rw [ha i, BitVec.getLsbD_or, getLsbD_bit (by omega)]
        by_cases hi : i = k
        · subst hi
          simp [ht]
        · rw [decide_succ_le hi]
          simp [hi]

theorem setAmbientCapabilitiesFrom_raisable (target : CapabilitySet) (n : Nat) :
    ∀ (k : Nat) (c c' : Creds), k + n = 64 →
    (setAmbientCapabilitiesFrom lastCap target (List.range' k n)).run c = (.ok (), c') →
    Raisable lastCap target k c := by
  induction n with
  | zero =>
    intro k c c' hk _ i hi ht
    have : i < 64 := BitVec.lt_of_getLsbD ht
    omega
  | succ n ih =>
    intro k c c' hk h i hi ht
    rw [List.range'_succ] at h
    unfold setAmbientCapabilitiesFrom at h
    rw [contains_bit (by omega)] at h
    cases hk' : target.getLsbD k
    · rw [hk', if_neg (by simp)] at h
      have hne : i ≠ k := fun hik => by rw [hik, hk'] at ht; cases ht
      exact ih (k + 1) _ _ (by omega) h i (by omega) ht
    · rw [hk', if_pos rfl] at h
      obtain ⟨_, c₁, hfirst, hrest⟩ := bind_run_eq_ok h
      rcases hcall : capAmbientRaise lastCap k c with ⟨e | ⟨⟩, c₂⟩
      · rw [syscall_run_error hcall] at hfirst
        cases hfirst
      · have hok := capAmbientRaise_eq_ok lastCap (by omega) hcall
        rw [capAmbientRaise_ok lastCap (by omega) hok.1 hok.2.1 hok.2.2] at hcall
        cases hcall
        rw [syscall_run_ok (capAmbientRaise_ok lastCap (by omega) hok.1 hok.2.1 hok.2.2)] at hfirst
        cases hfirst
        by_cases hik : i = k
        · exact hik ▸ hok
        · exact ih (k + 1) _ _ (by omega) hrest i (by omega) ht

/-! ## The guest's sequence -/

/-- The sets once the bounding set has been reduced to the target, in either
namespace. -/
def dropped (target : CapabilitySet) : Creds :=
  { freshUserNamespace lastCap with bounding := fullSet lastCap &&& target }

/-- The sets once `capset` has been called. -/
def limited (target : CapabilitySet) : Creds :=
  { bounding := fullSet lastCap &&& target, permitted := target &&& fullSet lastCap, effective := 0,
    inheritable := target &&& fullSet lastCap, ambient := 0 }

theorem mayChange_fresh : mayChange lastCap (freshUserNamespace lastCap) = true := by
  unfold mayChange
  show (decide _ || (fullSet lastCap).getLsbD CAP_SETPCAP) = true
  rw [getLsbD_fullSet, Bool.or_eq_true, decide_eq_true_eq, decide_eq_true_eq]
  exact Nat.lt_or_ge _ _

theorem dropBoundingSet_fresh (target : CapabilitySet) :
    (dropBoundingSet lastCap target).run (freshUserNamespace lastCap) =
      (.ok (), dropped lastCap target) := by
  apply dropBoundingSet_run lastCap target (mayChange_fresh lastCap)
  intro i hi
  rw [show (freshUserNamespace lastCap).bounding = fullSet lastCap from rfl, getLsbD_fullSet] at hi
  exact of_decide_eq_true hi

/-- The new namespace undoes the first reduction and the second one repeats it. -/
theorem unshare_dropped (target : CapabilitySet) (c : Creds) :
    (do unshareUser lastCap; dropBoundingSet lastCap target : CapM Unit).run c =
      (.ok (), dropped lastCap target) := by
  have henter : (unshareUser lastCap).run c = (.ok (), freshUserNamespace lastCap) :=
    syscall_run_ok rfl
  rw [bind_run_ok henter]
  exact dropBoundingSet_fresh lastCap target

theorem setCapabilities_dropped (target : CapabilitySet) :
    (setCapabilities lastCap { effective := 0, permitted := target, inheritable := target }).run
      (dropped lastCap target) = (.ok (), limited lastCap target) := by
  apply syscall_run_ok
  unfold capset CapabilitySets.intoUserCapDataStruct
  simp only [joinHalves_split]
  rw [if_pos]
  · simp [dropped, limited, freshUserNamespace]
  · have hmay : mayChange lastCap (dropped lastCap target) = true := mayChange_fresh lastCap
    simp only [hmay, Bool.true_or, Bool.true_and, Bool.and_eq_true, contains_iff]
    refine ⟨⟨fun i hi => ?_, fun i hi => ?_⟩, fun i hi => ?_⟩
    · simp [dropped, freshUserNamespace] at hi ⊢
      exact ⟨hi.2, hi.1⟩
    · simp [dropped, freshUserNamespace] at hi ⊢
      exact hi.2
    · simp at hi

/-- A target the kernel knows in full is its own intersection with the full set. -/
theorem and_fullSet {target : CapabilitySet}
    (h : ∀ i, target.getLsbD i = true → i ≤ lastCap.val) : target &&& fullSet lastCap = target := by
  apply BitVec.eq_of_getLsbD_eq
  intro i _
  rw [BitVec.getLsbD_and, getLsbD_fullSet]
  cases ht : target.getLsbD i
  · simp
  · simp [h i ht]

/-- Up to the ambient loop, the sequence succeeds whatever the target is. -/
theorem guestCapabilities_run (target : CapabilitySet) (disableUserns : Bool) :
    (guestCapabilities lastCap target disableUserns).run (freshUserNamespace lastCap) =
      (setAmbientCapabilities lastCap target).run (limited lastCap target) := by
  unfold guestCapabilities
  rw [bind_run_ok (dropBoundingSet_fresh lastCap target)]
  cases disableUserns
  · exact bind_run_ok (setCapabilities_dropped lastCap target)
  · show ExceptT.run (unshareUser lastCap >>= fun _ => dropBoundingSet lastCap target >>= fun _ =>
      _) _ = _
    rw [← bind_assoc, bind_run_ok (unshare_dropped lastCap target _)]
    exact bind_run_ok (setCapabilities_dropped lastCap target)

/-- For every target, kernel and namespace choice: if the guest's sequence
succeeds, every set but the effective one is the target and the effective one is
empty; and it succeeds if the kernel knows every capability of the target. -/
theorem guestCapabilities_spec (target : CapabilitySet) (disableUserns : Bool) :
    (∀ c, (guestCapabilities lastCap target disableUserns).run (freshUserNamespace lastCap) =
        (.ok (), c) →
      c = { bounding := target, permitted := target, effective := 0, inheritable := target,
            ambient := target }) ∧
    ((∀ i, target.getLsbD i = true → i ≤ lastCap.val) →
      ∃ c, (guestCapabilities lastCap target disableUserns).run (freshUserNamespace lastCap) =
        (.ok (), c)) := by
  rw [guestCapabilities_run]
  unfold setAmbientCapabilities
  rw [List.range_eq_range']
  have hlimited : (∀ i, target.getLsbD i = true → i ≤ lastCap.val) →
      Raisable lastCap target 0 (limited lastCap target) := by
    intro hknown i _ ht
    have hand := and_fullSet lastCap hknown
    refine ⟨hknown i ht, ?_, ?_⟩ <;> simp only [limited, hand, ht]
  constructor
  · intro c hc
    have hraise := setAmbientCapabilitiesFrom_raisable lastCap target 64 0 _ _ rfl hc
    have hknown : ∀ i, target.getLsbD i = true → i ≤ lastCap.val :=
      fun i ht => (hraise i (Nat.zero_le i) ht).1
    obtain ⟨a, hrun, ha⟩ := setAmbientCapabilitiesFrom_spec lastCap target 64 0 _ rfl hraise
    rw [hrun] at hc
    cases hc
    have hamb : a = target := by
      apply BitVec.eq_of_getLsbD_eq
      intro i _
      rw [ha i]
      simp [limited]
    unfold limited
    rw [BitVec.and_comm (fullSet lastCap), and_fullSet lastCap hknown, hamb]
  · intro hknown
    obtain ⟨a, hrun, _⟩ :=
      setAmbientCapabilitiesFrom_spec lastCap target 64 0 _ rfl (hlimited hknown)
    exact ⟨_, hrun⟩

end Kernel

/-- A target within a 40-capability kernel, with and without the second namespace. -/
example : ((guestCapabilities 40 0x3#64 true).run (freshUserNamespace 40)).2 =
    { bounding := 3, permitted := 3, effective := 0, inheritable := 3, ambient := 3 } := by
  decide

/-! ## Behind `execve(2)` -/

/-- What a file gives to a process that executes it. -/
structure FileCapabilities where
  permitted : CapabilitySet
  inheritable : CapabilitySet
  effective : Bool
  /-- Whether the file itself has capabilities. Root executes any file as if it had them all. -/
  privileged : Bool
  deriving DecidableEq, Repr

/-- A file without capabilities, executed by a user who is not root. -/
def FileCapabilities.plain : FileCapabilities := ⟨0, 0, false, false⟩

/-- The sets of what was executed. With `no_new_privs`, none is permitted that was not before. -/
def Creds.exec (c : Creds) (noNewPrivs : Bool) (file : FileCapabilities) : Creds :=
  let granted := (file.permitted &&& c.bounding) ||| (file.inheritable &&& c.inheritable)
  let granted := if noNewPrivs then granted &&& c.permitted else granted
  let ambient := if file.privileged then 0 else c.ambient
  { c with
    permitted := granted ||| ambient
    effective := if file.effective then granted ||| ambient else ambient
    ambient }

/-- Nothing but the target is left, in every set but the effective one. -/
def confinedCreds (target : CapabilitySet) : Creds :=
  { bounding := target
    permitted := target
    effective := 0
    inheritable := target
    ambient := target }

/-- What was executed has at most the target, now and for good. A file that is not privileged
leaves it all of that, effective as well. -/
structure ExecutedCreds (target : CapabilitySet) (file : FileCapabilities) (c : Creds) : Prop where
  bounding : c.bounding = target
  inheritable : c.inheritable = target
  permitted : contains target c.permitted = true
  effective : contains target c.effective = true
  ambient : contains target c.ambient = true
  plain : file.privileged = false →
    c.permitted = target ∧ c.effective = target ∧ c.ambient = target

theorem and_or_absorb (a target : CapabilitySet) : a &&& target ||| target = target := by
  apply BitVec.eq_of_getLsbD_eq
  intro i _
  cases h : target.getLsbD i <;> simp [h]

theorem contains_self (target : CapabilitySet) : contains target target = true := by
  simp [contains]

theorem contains_zero (target : CapabilitySet) : contains target 0 = true := by
  simp [contains]

theorem contains_and (a target : CapabilitySet) : contains target (a &&& target) = true := by
  unfold contains
  rw [beq_iff_eq, BitVec.and_comm a target, ← BitVec.and_assoc, BitVec.and_self]

/-- Whatever is executed with no new privileges. -/
theorem confinedCreds_exec (target : CapabilitySet) (file : FileCapabilities) :
    ExecutedCreds target file ((confinedCreds target).exec true file) := by
  have hgranted : (file.permitted &&& target) ||| (file.inheritable &&& target) =
      (file.permitted ||| file.inheritable) &&& target := by
    apply BitVec.eq_of_getLsbD_eq
    intro i _
    cases h : target.getLsbD i <;> simp [h]
  cases hprivileged : file.privileged with
  | true =>
    have hall : (confinedCreds target).exec true file =
        { bounding := target
          permitted := (file.permitted ||| file.inheritable) &&& target &&& target
          effective :=
            if file.effective then
              (file.permitted ||| file.inheritable) &&& target &&& target
            else 0
          inheritable := target
          ambient := 0 } := by
      have hzero : ∀ set : CapabilitySet, set ||| 0 = set := fun _ => BitVec.or_zero
      simp only [Creds.exec, confinedCreds, hprivileged, if_true, hgranted, hzero]
    rw [hall]
    refine ⟨rfl, rfl, contains_and _ target, ?_, contains_zero target,
      fun h => by rw [hprivileged] at h; cases h⟩
    dsimp only
    split
    · exact contains_and _ target
    · exact contains_zero target
  | false =>
    have hall : (confinedCreds target).exec true file =
        { confinedCreds target with effective := target } := by
      simp only [Creds.exec, confinedCreds, hprivileged, if_true, Bool.false_eq_true, if_false,
        hgranted, and_or_absorb, ite_self]
    rw [hall]
    exact ⟨rfl, rfl, contains_self target, contains_self target, contains_self target,
      fun _ => ⟨rfl, rfl, rfl⟩⟩

end LayerCake.Meowix.Capabilities
