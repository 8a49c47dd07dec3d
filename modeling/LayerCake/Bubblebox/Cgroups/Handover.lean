import LayerCake.Bubblebox.Cgroups.Systemd
import LayerCake.Effects.System

/-
  Who stops a unit: the hook of the host, its owner's teardown, and the hook of the
  guest, which waits for the eventfd.

  The host runs `host_post_clone_hook` and then the one `teardown` on the state it left;
  the guest runs `guest_post_clone_hook` at the same time. The answers of the host's calls
  are logged; the counter of the eventfd is all that the two share. Every outcome of every
  call is possible, but that the session bus is there for the teardown.

  What is proved: `units_stopped_once` — of a host that is done, the units stopped are those
  started and the one the state held; the state is handed over only by a hook that succeeded
  and told the guest; and a guest that goes on has a cgroup that is configured.
-/

namespace LayerCake.Bubblebox.Cgroups

open LayerCake.Effects LayerCake.Meowix

/-! ## The two processes -/

inductive Party where
  | host | guest
  deriving DecidableEq, Repr

inductive Outcome where
  | host (state : SystemdState) (hook : Except PostSpawnHost Unit)
    (torn : Except PostSpawnHost Unit)
  | guest (hook : Except Spawn.PostSpawnGuest Unit)

/-- The hook, and the one teardown of its owner. -/
def owner [Itoa] (e : Endian) (policy : Policy) (guestPid : Int32) (state : SystemdState) :
    Prog CgroupCalls Outcome := do
  let (state, hook) ← hostPostCloneHook e policy guestPid state
  return .host state hook (← (teardown state).run)

def guest (e : Endian) (state : SystemdState) : Prog CgroupCalls Outcome := do
  return .guest (← (guestPostCloneHook e state).run)

/-- The answered calls of the host, and the counter of the eventfd. -/
structure World where
  log : Log
  counter : Nat

/-- What a call of the host does to the counter; connecting for the teardown succeeds. -/
def HostAnswers (e : Endian) (s s' : World) : (op : CgroupOp) → CgroupCalls.Res op → Prop
  | .writeEventfd bytes, answer =>
    s'.counter = s.counter + if answer = .ok 8 then e.value bytes else 0
  | .newSession .teardown, answer => answer = .ok () ∧ s'.counter = s.counter
  | _, _ => s'.counter = s.counter

def hostKernel (e : Endian) : Kernel CgroupCalls World := fun s op answer s' =>
  s'.log = s.log ++ [⟨op, answer⟩] ∧ HostAnswers e s s' op answer

/-- A read of the eventfd takes what the counter holds. -/
def GuestAnswers (e : Endian) (s s' : World) : (op : CgroupOp) → CgroupCalls.Res op → Prop
  | .readEventfd _, .ok value => e.value value = s.counter ∧ s'.counter = 0
  | _, _ => s'.counter = s.counter

def guestKernel (e : Endian) : Kernel CgroupCalls World := fun s op answer s' =>
  s'.log = s.log ∧ GuestAnswers e s s' op answer

def kernels (e : Endian) : Party → Kernel CgroupCalls World
  | .host => hostKernel e
  | .guest => guestKernel e

/-- Either may die between two calls. -/
def reap (_ : Party) (s s' : World) : Prop := s' = s

/-- Both processes at the start. -/
def cloned [Itoa] (e : Endian) (policy : Policy) (guestPid : Int32) (state : SystemdState) :
    Config CgroupCalls World Outcome Party where
  shared := ⟨[], 0⟩
  procs
    | .host => some (owner e policy guestPid state)
    | .guest => some (guest e state)

/-! ## Units in a log -/

/-- The names passed to `StartTransientUnit`. -/
def started (log : Log) : List Bytes :=
  log.filterMap fun event => match event.op with
    | .startTransientUnit name _ _ => some name
    | _ => none

/-- The names passed to `StopUnit`. -/
def stopped (log : Log) : List Bytes :=
  log.filterMap fun event => match event.op with
    | .stopUnit name _ => some name
    | _ => none

/-- The unit that a state will stop. -/
def SystemdState.held : SystemdState → List Bytes
  | .preClone => []
  | .postClone _ unitName => [unitName]

@[simp] theorem started_append (log log' : Log) :
    started (log ++ log') = started log ++ started log' := List.filterMap_append

@[simp] theorem stopped_append (log log' : Log) :
    stopped (log ++ log') = stopped log ++ stopped log' := List.filterMap_append

/-- The units that a part of the log starts and stops. -/
def Units (starts stops : List Bytes) (log : Log) : Prop :=
  started log = starts ∧ stopped log = stops

theorem Units.append {starts starts' stops stops' : List Bytes} {log log' : Log}
    (h : Units starts stops log) (h' : Units starts' stops' log') :
    Units (starts ++ starts') (stops ++ stops') (log ++ log') :=
  ⟨by rw [started_append, h.1, h'.1], by rw [stopped_append, h.2, h'.2]⟩

/-- The calls start no unit and stop none. -/
def NoUnit (op : CgroupOp) : Prop := (∀ n m p, op ≠ .startTransientUnit n m p) ∧
  ∀ n m, op ≠ .stopUnit n m

theorem Plain.noUnit {op : CgroupOp} (h : Plain op) : NoUnit op := by
  constructor
  · intro n m p h
    subst h
    exact h
  · intro n m h
    subst h
    exact h

theorem Units.nil {log : Log} (h : ∀ event ∈ log, NoUnit event.op) : Units [] [] log := by
  constructor
  · refine List.filterMap_eq_nil_iff.mpr fun event hmem => ?_
    have hnot := (h event hmem).1
    split
    · next name mode properties heq => exact absurd heq (hnot _ _ _)
    · rfl
  · refine List.filterMap_eq_nil_iff.mpr fun event hmem => ?_
    have hnot := (h event hmem).2
    split
    · next name mode heq => exact absurd heq (hnot _ _)
    · rfl

/-- The guest was told to go on. -/
def Signalled (e : Endian) (log : Log) : Prop := ⟨.writeEventfd (signalBytes e), .ok 8⟩ ∈ log

/-- Some unit was started and its cgroups configured, as far as the log tells. -/
def Ready [Itoa] (policy : Policy) (guestPid : Int32) (log : Log) : Prop :=
  ∃ unitName jobPath tree,
    ⟨.startTransientUnit unitName (ascii "fail") (unitProperties guestPid), .ok jobPath⟩ ∈ log ∧
      Prog.From log (configure policy guestPid unitName jobPath).run (.ok tree)

theorem Ready.mono [Itoa] {policy : Policy} {guestPid : Int32} {log log' : Log}
    (h : Ready policy guestPid log) (hsub : log ⊆ log') : Ready policy guestPid log' := by
  obtain ⟨unitName, jobPath, tree, hmem, hfrom⟩ := h
  exact ⟨unitName, jobPath, tree, hsub hmem, hfrom.mono hsub⟩

/-! ## What each party keeps -/

section Runs
variable {e : Endian} {policy : Policy} {guestPid : Int32}

/-- The counter is raised only once the cgroups are configured. -/
def Trusted [Itoa] (policy : Policy) (guestPid : Int32) (s : World) : Prop :=
  s.counter ≠ 0 → Ready policy guestPid s.log

/-- The guest does not touch the log. -/
def hostRely (s s' : World) : Prop := s'.log = s.log

def guestGuar [Itoa] (policy : Policy) (guestPid : Int32) (s s' : World) : Prop :=
  s'.log = s.log ∧ (Trusted policy guestPid s → Trusted policy guestPid s')

/-- The host only adds to the log. -/
def hostGuar [Itoa] (policy : Policy) (guestPid : Int32) (s s' : World) : Prop :=
  s.log ⊆ s'.log ∧ (Trusted policy guestPid s → Trusted policy guestPid s')

theorem hostKernel_logs : Logs (hostKernel e) World.log := fun _ _ _ _ h => h.1

/-- A call that is no write to the eventfd keeps to the guarantee. -/
theorem hostGuar_of_ne [Itoa] {s s' : World} {op : CgroupOp} {answer : CgroupCalls.Res op}
    (hop : ∀ bytes, op ≠ .writeEventfd bytes) (h : hostKernel e s op answer s') :
    hostGuar policy guestPid s s' := by
  obtain ⟨hlog, hanswer⟩ := h
  have hsub : s.log ⊆ s'.log := hlog ▸ List.subset_append_left _ _
  have hcounter : s'.counter = s.counter := by
    match op, answer, hanswer, hop with
    | .writeEventfd bytes, _, _, hop => exact absurd rfl (hop bytes)
    | .newSession .teardown, _, h, _ => exact h.2
    | .newSession .hook, _, h, _ | .addMatch, _, h, _ | .removeMatch, _, h, _ | .newV4, _, h, _
    | .startTransientUnit _ _ _, _, h, _ | .stopUnit _ _, _, h, _ | .getUnit _, _, h, _
    | .getControlGroup _, _, h, _ | .now, _, h, _ | .popMessage _, _, h, _
    | .openat2 _ _ _ _, _, h, _ | .mkdirat _ _ _, _, h, _ | .write _ _, _, h, _
    | .readString _, _, h, _ | .readEventfd _, _, h, _ => exact h
  refine ⟨hsub, fun htrusted hne => ?_⟩
  rw [hcounter] at hne
  exact (htrusted hne).mono hsub

/-! ## The hook of the host -/

/-- What a program of the host adds to the log. -/
abbrev HostAdds [Itoa] {α : Type} (e : Endian) (policy : Policy) (guestPid : Int32)
    (p : Prog CgroupCalls α) (F : α → Log → Prop) (log : Log) : Prop :=
  Adds (hostKernel e) hostRely (hostGuar policy guestPid) World.log p F log

theorem hostRely_log (s s' : World) (h : hostRely s s') : s'.log = s.log := h

variable [Itoa] {log : Log} {unitName : Bytes} {state : SystemdState}

/-- Plain calls start no unit and stop none. -/
theorem plain_adds {α : Type} {p : Prog CgroupCalls α} (h : p.Calls Plain) :
    HostAdds e policy guestPid p (fun a past => Units [] [] past ∧ p.From past a) log := by
  apply (Adds.of_calls h hostKernel_logs hostRely_log ?_).mono
  · intro a past h
    obtain ⟨hplain, hfrom⟩ := h
    exact ⟨Units.nil fun event hmem => (hplain event hmem).noUnit, hfrom⟩
  · intro t op r t' _ hop hk
    apply hostGuar_of_ne _ hk
    intro bytes h
    subst h
    exact hop

/-- One call, where it is no write to the eventfd. -/
theorem perform_adds {op : CgroupOp} (hop : ∀ bytes, op ≠ .writeEventfd bytes) :
    HostAdds e policy guestPid (perform (I := CgroupCalls) op)
      (fun r past => past = [⟨op, r⟩]) log :=
  Adds.perform hostKernel_logs hostRely_log fun _ _ _ _ hk => ⟨hostGuar_of_ne hop hk, rfl⟩

theorem stopUnit_adds : HostAdds e policy guestPid (stopUnit unitName)
    (fun _ past => Units [] [unitName] past) log := by
  apply Adds.bind
  apply (perform_adds (by simp)).mono
  intro r past h
  subst h
  exact Adds.done hostRely_log ⟨rfl, rfl⟩

theorem removeMatch_adds : HostAdds e policy guestPid removeMatch
    (fun _ past => Units [] [] past) log := by
  have hcalls : removeMatch.Calls Plain := ⟨trivial, fun _ => trivial⟩
  apply (plain_adds hcalls).mono
  intro _ past h
  exact h.1

/-- The write to the eventfd comes when the cgroups are configured. -/
theorem signal_adds (hready : Ready policy guestPid log) :
    HostAdds e policy guestPid (signal e).run
      (fun r past => Units [] [] past ∧ (r = .ok () → Signalled e past)) log := by
  have hcalls : Prog.Calls (· = CgroupOp.writeEventfd (signalBytes e)) (signal e).run := by
    refine calls_bindE (tryCall_calls ⟨rfl, fun _ => trivial⟩) fun n => ?_
    show Prog.Calls _ (if n ≠ 8 then throw .incompleteWrite else pure () :
      ExceptT PostSpawnHost (Prog CgroupCalls) Unit).run
    split
    · trivial
    · trivial
  apply (Adds.of_calls hcalls hostKernel_logs hostRely_log ?_).mono
  · intro r past h
    obtain ⟨hops, hfrom⟩ := h
    constructor
    · apply Units.nil
      intro event hmem
      rw [hops event hmem]
      exact by simp [NoUnit]
    · intro h
      subst h
      obtain ⟨n, hn, hrest⟩ := Prog.from_bindE.mp hfrom
      by_cases hlen : n = 8
      · subst hlen
        exact (Prog.from_performUntil.mp (from_tryCall.mp hn)).1
      · rw [if_pos hlen] at hrest
        cases hrest
  · intro t op r t' hext h₁ h₂
    subst h₁
    obtain ⟨hlog, _⟩ := h₂
    have hsub : t.log ⊆ t'.log := hlog ▸ List.subset_append_left _ _
    exact ⟨hsub, fun _ _ => hready.mono fun _ h => hsub (hext.subset h)⟩

/-- What the hook hands over: the unit, to a state that had none, with the guest told. -/
def Handed (e : Endian) (unitName : Bytes) (state : SystemdState)
    (r : Except PostSpawnHost SystemdState) (past : Log) : Prop :=
  ∀ state', r = .ok state' → state = .preClone ∧ Signalled e past ∧
    ∃ tree, state' = .postClone tree unitName

omit [Itoa] in
theorem Handed.error {error : PostSpawnHost} {past : Log} :
    Handed e unitName state (.error error) past := by
  intro state' h
  cases h

omit [Itoa] in
theorem Handed.append {r : Except PostSpawnHost SystemdState} {past : Log}
    (h : Handed e unitName state r past) (before after : Log) :
    Handed e unitName state r (before ++ (past ++ after)) := by
  intro state' hok
  obtain ⟨hpre, hsignalled, htree⟩ := h state' hok
  exact ⟨hpre, List.mem_append_right _ (List.mem_append_left _ hsignalled), htree⟩

theorem handOver_adds {tree : Tree} (hready : Ready policy guestPid log) :
    HostAdds e policy guestPid (handOver e unitName tree state).run
      (fun r past => Units [] [] past ∧ Handed e unitName state r past) log := by
  cases state with
  | preClone =>
    apply Adds.bindE hostRely_log
    apply (signal_adds hready).mono
    intro r past h
    obtain ⟨hunits, hsignalled⟩ := h
    cases r with
    | error error => exact ⟨hunits, Handed.error⟩
    | ok _ =>
      apply Adds.done hostRely_log
      rw [List.append_nil]
      refine ⟨hunits, ?_⟩
      intro state' h
      cases h
      exact ⟨rfl, hsignalled rfl, tree, rfl⟩
  | postClone tree' unitName' =>
    exact Adds.done hostRely_log ⟨⟨rfl, rfl⟩, Handed.error⟩

/-- While the guard is armed, its unit alone is started, and none is stopped. -/
theorem underGuard_adds : HostAdds e policy guestPid
    (underGuard e policy guestPid unitName state).run
    (fun r past => Units [unitName] [] past ∧ Handed e unitName state r past) log := by
  apply Adds.bindE hostRely_log
  apply Adds.bind
  apply (perform_adds (by simp)).mono
  intro r _ h
  subst h
  have hstart : Units [unitName] [] [⟨.startTransientUnit unitName (ascii "fail")
    (unitProperties guestPid), r⟩] := ⟨rfl, rfl⟩
  apply Adds.done hostRely_log
  rw [List.append_nil]
  cases r with
  | error error => exact ⟨hstart, Handed.error⟩
  | ok jobPath =>
    apply Adds.bindE hostRely_log
    apply (plain_adds (configure_plain _ _ _ _)).mono
    intro r past h
    obtain ⟨hunits, hfrom⟩ := h
    cases r with
    | error error => exact ⟨hstart.append hunits, Handed.error⟩
    | ok tree =>
      have hready : Ready policy guestPid (log ++ [⟨.startTransientUnit unitName (ascii "fail")
          (unitProperties guestPid), .ok jobPath⟩] ++ past) :=
        ⟨unitName, jobPath, tree, by simp, hfrom.mono (List.subset_append_right _ _)⟩
      apply (handOver_adds hready).mono
      intro r more h
      obtain ⟨hmore, hhanded⟩ := h
      refine ⟨hstart.append (hunits.append hmore), ?_⟩
      have := hhanded.append (⟨.startTransientUnit unitName (ascii "fail")
          (unitProperties guestPid), .ok jobPath⟩ :: past) []
      simpa using this

/-! ### Both cleanups -/

/-- What the body of the hook leaves: every unit started is stopped, or the one started is
handed over. -/
def HookEnds (e : Endian) (state : SystemdState) : Except PostSpawnHost SystemdState → Log → Prop
  | .error _, past => stopped past = started past
  | .ok state', past => state = .preClone ∧ Signalled e past ∧
      ∃ tree unitName, state' = .postClone tree unitName ∧ Units [unitName] [] past

omit [Itoa] in
/-- Calls around the guard that start no unit and stop none change nothing. -/
theorem HookEnds.between {r : Except PostSpawnHost SystemdState} {before past after : Log}
    (hbefore : Units [] [] before) (hafter : Units [] [] after) (h : HookEnds e state r past) :
    HookEnds e state r (before ++ (past ++ after)) := by
  cases r with
  | error error =>
    show stopped (before ++ (past ++ after)) = started (before ++ (past ++ after))
    simp only [stopped_append, started_append, hbefore.1, hbefore.2, hafter.1, hafter.2]
    exact congrArg (· ++ []) h
  | ok state' =>
    obtain ⟨hpre, hsignalled, tree, unitName, hstate, hunits⟩ := h
    refine ⟨hpre, ?_, tree, unitName, hstate, hbefore.append (hunits.append hafter)⟩
    exact List.mem_append_right _ (List.mem_append_left _ hsignalled)

/-- On an error the guard stops the unit; else the unit is in the state. -/
theorem guarded_adds : HostAdds e policy guestPid
    (guarded (stopUnit unitName) (underGuard e policy guestPid unitName state)).run
    (HookEnds e state) log := by
  apply Adds.bind
  apply underGuard_adds.mono
  intro r past h
  obtain ⟨hunits, hhanded⟩ := h
  cases r with
  | error error =>
    apply Adds.bind
    apply stopUnit_adds.mono
    intro _ more hmore
    apply Adds.done hostRely_log
    show stopped (past ++ (more ++ [])) = started (past ++ (more ++ []))
    have hall : Units [unitName] [unitName] (past ++ (more ++ [])) :=
      hunits.append (hmore.append ⟨rfl, rfl⟩)
    rw [hall.1, hall.2]
  | ok state' =>
    apply Adds.done hostRely_log
    rw [List.append_nil]
    obtain ⟨hpre, hsignalled, tree, hstate⟩ := hhanded state' rfl
    exact ⟨hpre, hsignalled, tree, unitName, hstate, hunits⟩

theorem deferred_adds {p : Prog CgroupCalls (Except PostSpawnHost SystemdState)}
    (h : HostAdds e policy guestPid p (HookEnds e state) log) :
    HostAdds e policy guestPid (deferred removeMatch p) (HookEnds e state) log := by
  apply Adds.bind
  apply h.mono
  intro r past hends
  apply Adds.bind
  apply removeMatch_adds.mono
  intro _ more hmore
  apply Adds.done hostRely_log
  rw [List.append_nil]
  have hbefore : Units [] [] ([] : Log) := ⟨rfl, rfl⟩
  exact hends.between hbefore hmore

/-- A plain step before the guard. -/
theorem plain_bindE_adds {α : Type} {p : ExceptT PostSpawnHost (Prog CgroupCalls) α}
    {f : α → ExceptT PostSpawnHost (Prog CgroupCalls) SystemdState} (hp : Prog.Calls Plain p.run)
    (hf : ∀ a log, HostAdds e policy guestPid (f a).run (HookEnds e state) log) :
    HostAdds e policy guestPid (p >>= f).run (HookEnds e state) log := by
  apply Adds.bindE hostRely_log
  apply (plain_adds hp).mono
  intro r past h
  obtain ⟨hunits, _⟩ := h
  cases r with
  | error error => exact hunits.2.trans hunits.1.symm
  | ok a =>
    apply (hf a _).mono
    intro r more hends
    rw [← List.append_nil more]
    exact hends.between hunits ⟨rfl, rfl⟩

theorem hookBody_adds : HostAdds e policy guestPid (hookBody e policy guestPid state).run
    (HookEnds e state) log := by
  apply plain_bindE_adds (dbus_calls (performUntil_calls trivial))
  intro _ log
  apply plain_bindE_adds (p := ExceptT.lift (perform (I := CgroupCalls) .newV4))
    ⟨trivial, fun _ => trivial⟩
  intro uuid log
  apply plain_bindE_adds (dbus_calls (performUntil_calls trivial))
  intro _ log
  exact deferred_adds guarded_adds

/-- The session bus is there for the teardown. -/
theorem newSession_adds : HostAdds e policy guestPid
    (perform (I := CgroupCalls) (.newSession .teardown))
    (fun r past => r = .ok () ∧ Units [] [] past) log := by
  apply Adds.perform hostKernel_logs hostRely_log
  intro s r s' _ hk
  exact ⟨hostGuar_of_ne (by simp) hk, hk.2.1, rfl, rfl⟩

/-- The teardown stops what its state holds. -/
theorem teardown_adds : HostAdds e policy guestPid (teardown state).run
    (fun _ past => Units [] state.held past) log := by
  cases state with
  | preClone => exact Adds.done hostRely_log ⟨rfl, rfl⟩
  | postClone tree unitName =>
    apply Adds.bindE hostRely_log
    apply Adds.bind
    apply newSession_adds.mono
    intro _ past h
    obtain ⟨rfl, hbefore⟩ := h
    apply Adds.done hostRely_log
    apply Adds.bind
    apply (perform_adds (by simp)).mono
    intro r _ h
    subst h
    rw [List.append_nil]
    -- whatever it answers, the unit was asked to stop
    have hunits : Units [] [unitName] (past ++ [⟨.stopUnit unitName (ascii "fail"), r⟩]) :=
      hbefore.append ⟨rfl, rfl⟩
    cases r with
    | ok job =>
      apply Adds.done hostRely_log
      rw [List.append_nil]
      exact hunits
    | error error =>
      show HostAdds e policy guestPid (if error.noSuchUnit then pure (Except.ok ())
        else pure (Except.error (PostSpawnHost.dbus error))) _ _
      split
      · apply Adds.done hostRely_log
        rw [List.append_nil]
        exact hunits
      · apply Adds.done hostRely_log
        rw [List.append_nil]
        exact hunits

/-- What the hook and the teardown of a state have done. -/
structure Handled (e : Endian) (state state' : SystemdState) (hook : Except PostSpawnHost Unit)
    (log : Log) : Prop where
  units : stopped log = started log ++ state.held
  failed : ∀ error, hook = .error error → state' = state
  succeeded : hook = .ok () → state = .preClone ∧ Signalled e log ∧
    ∃ tree unitName, state' = .postClone tree unitName ∧ started log = [unitName]

theorem owner_adds : HostAdds e policy guestPid (owner e policy guestPid state)
    (fun o past => ∀ state' hook torn, o = .host state' hook torn →
      Handled e state state' hook past) [] := by
  apply Adds.bind
  apply Adds.bind
  apply hookBody_adds.mono
  intro r past hends
  cases r with
  | error error =>
    apply Adds.done hostRely_log
    apply Adds.bind
    apply teardown_adds.mono
    intro torn more hmore
    apply Adds.done hostRely_log
    intro state' hook torn' h
    cases h
    have hends' : stopped past = started past := hends
    exact {
      units := by simp [hends', hmore.1, hmore.2]
      failed := fun _ _ => rfl
      succeeded := by simp }
  | ok state' =>
    obtain ⟨rfl, hsignalled, tree, unitName, rfl, hunits⟩ := hends
    apply Adds.done hostRely_log
    apply Adds.bind
    apply teardown_adds.mono
    intro torn more hmore
    apply Adds.done hostRely_log
    intro state' hook torn' h
    cases h
    have hheld : stopped more = [unitName] := hmore.2
    exact {
      units := by simp [hunits.1, hunits.2, hmore.1, hheld, SystemdState.held]
      failed := by simp
      succeeded := by
        intro _
        refine ⟨rfl, ?_, tree, unitName, rfl, by simp [hunits.1, hmore.1]⟩
        exact List.mem_append_left _ (List.mem_append_left _ hsignalled) }

/-! ## The hook of the guest -/

theorem trusted_stable : Stable (hostGuar policy guestPid) (Trusted policy guestPid) :=
  fun _ _ htrusted hguar => hguar.2 htrusted

theorem ready_stable :
    Stable (hostGuar policy guestPid) (fun s => Ready policy guestPid s.log) :=
  fun _ _ hready hguar => hready.mono hguar.1

/-- What a guest that goes on knows. -/
def GuestEnds (policy : Policy) (guestPid : Int32) (r : Except Spawn.PostSpawnGuest Unit)
    (s : World) : Prop :=
  r = .ok () → Ready policy guestPid s.log

theorem guestThrow_sat {error : Spawn.PostSpawnGuest} {s : World} :
    Sat (guestKernel e) (hostGuar policy guestPid) (guestGuar policy guestPid)
      (.done (.error error)) (GuestEnds policy guestPid) s :=
  Sat.return (fun _ => True) trivial (fun _ _ _ _ => trivial) fun _ _ => by simp [GuestEnds]

/-- A read of a counter that was raised finds the cgroups configured. -/
theorem readEventfd_sat {s : World} (h : Trusted policy guestPid s) :
    Sat (guestKernel e) (hostGuar policy guestPid) (guestGuar policy guestPid)
      (performUntil (I := CgroupCalls) (.readEventfd 8) interrupted)
      (fun r t => ∀ value, r = .ok value → e.value value ≠ 0 → Ready policy guestPid t.log) s := by
  have hkept : ∀ t r t', Trusted policy guestPid t → guestKernel e t (.readEventfd 8) r t' →
      guestGuar policy guestPid t t' ∧ Trusted policy guestPid t' := by
    intro t r t' ht h
    obtain ⟨hlog, hanswer⟩ := h
    have ht' : Trusted policy guestPid t' := by
      intro hne
      cases r with
      | ok value => exact absurd hanswer.2 hne
      | error error =>
        have hcounter : t'.counter = t.counter := hanswer
        rw [hlog]
        exact ht (hcounter ▸ hne)
    exact ⟨⟨hlog, fun _ => ht'⟩, ht'⟩
  refine Sat.callUntil (Trusted policy guestPid) h trusted_stable
    (fun t r t' ht hk _ => hkept t r t' ht hk) ?_
  intro t r t' ht hk _
  refine ⟨(hkept t r t' ht hk).1, ?_⟩
  obtain ⟨hlog, hanswer⟩ := hk
  cases r with
  | error error =>
    exact Sat.return (fun _ => True) trivial (fun _ _ _ _ => trivial) fun _ _ => by simp
  | ok value =>
    by_cases hraised : e.value value = 0
    · refine Sat.return (fun _ => True) trivial (fun _ _ _ _ => trivial) fun _ _ => ?_
      intro _ h hne
      cases h
      exact absurd hraised hne
    · have hready : Ready policy guestPid t'.log := by
        rw [hlog]
        exact ht (hanswer.1 ▸ hraised)
      exact Sat.return _ hready ready_stable fun _ hready _ _ _ => hready

/-- The guest goes on with a counter that was raised. -/
theorem guestPostCloneHook_sat {s : World} (h : Trusted policy guestPid s) :
    Sat (guestKernel e) (hostGuar policy guestPid) (guestGuar policy guestPid)
      (guestPostCloneHook e state).run (GuestEnds policy guestPid) s := by
  cases state with
  | postClone tree unitName => exact guestThrow_sat
  | preClone =>
    apply Sat.bindE
    apply Sat.bind
    apply (readEventfd_sat h).mono
    intro r t hread
    cases r with
    | error error =>
      refine Sat.return (fun _ => True) trivial (fun _ _ _ _ => trivial) fun _ _ => ?_
      exact guestThrow_sat
    | ok value =>
      refine Sat.return (fun s => e.value value ≠ 0 → Ready policy guestPid s.log)
        (hread value rfl) (fun _ _ hready hguar hne => ready_stable _ _ (hready hne) hguar) ?_
      intro t hready
      show Sat _ _ _ (if value.length ≠ 8 then throw .incompleteWrite
        else if e.value value = 0 then throw (.other .invalidCgroupsState) else pure () :
        ExceptT Spawn.PostSpawnGuest (Prog CgroupCalls) Unit).run _ _
      split
      · exact guestThrow_sat
      · split
        · exact guestThrow_sat
        · next hne =>
          exact Sat.return _ (hready hne) ready_stable fun _ hready _ => hready

/-! ## Every run -/

def rely (policy : Policy) (guestPid : Int32) : Party → World → World → Prop
  | .host => hostRely
  | .guest => hostGuar policy guestPid

def guar (policy : Policy) (guestPid : Int32) : Party → World → World → Prop
  | .host => hostGuar policy guestPid
  | .guest => guestGuar policy guestPid

/-- What a party that is done leaves. -/
def Ends (e : Endian) (policy : Policy) (guestPid : Int32) (state : SystemdState) :
    Party → Outcome → World → Prop
  | .host, o, s => ∀ state' hook torn, o = .host state' hook torn →
    Handled e state state' hook s.log
  | .guest, o, s => ∀ r, o = .guest r → GuestEnds policy guestPid r s

theorem guar_rely (i j : Party) (hne : i ≠ j) (s s' : World) (h : guar policy guestPid i s s') :
    rely policy guestPid j s s' := by
  cases i with
  | host =>
    cases j with
    | host => exact absurd rfl hne
    | guest => exact h
  | guest =>
    cases j with
    | host => exact h.1
    | guest => exact absurd rfl hne

theorem reap_rely (i j : Party) (_ : i ≠ j) (s s' : World) (h : reap i s s') :
    rely policy guestPid j s s' := by
  obtain rfl : s' = s := h
  cases j with
  | host => exact rfl
  | guest => exact ⟨List.Subset.refl _, id⟩

theorem cloned_sat : AllSat (kernels e) (rely policy guestPid) (guar policy guestPid)
    (Ends e policy guestPid state) (cloned e policy guestPid state) := by
  intro i p hp
  cases i with
  | host =>
    cases hp
    apply (owner_adds (cloned e policy guestPid state).shared rfl).mono
    intro o t h
    obtain ⟨past, hpast, hhandled⟩ := h
    rw [List.nil_append] at hpast
    subst hpast
    exact hhandled
  | guest =>
    cases hp
    have htrusted : Trusted policy guestPid (cloned e policy guestPid state).shared :=
      fun hne => absurd rfl hne
    apply Sat.bind
    apply (guestPostCloneHook_sat htrusted).mono
    intro r t hends
    refine Sat.return (GuestEnds policy guestPid r) hends
      (fun _ _ hends hguar hok => ready_stable _ _ (hends hok) hguar) ?_
    intro u hends _ h
    cases h
    exact hends

end Runs

/-- Over every run: the owner that is done has asked to stop each unit once that was started
or that its state held, and no other; the state was handed over by a hook that succeeded, and
by then the guest was told to go on; and a guest that goes on finds its cgroups configured. -/
theorem units_stopped_once [Itoa] (e : Endian) (policy : Policy) (guestPid : Int32)
    (state : SystemdState) {c : Config CgroupCalls World Outcome Party}
    (h : Reach (kernels e) reap (cloned e policy guestPid state) c) :
    (∀ state' hook torn, c.procs .host = some (.done (.host state' hook torn)) →
      stopped c.shared.log = started c.shared.log ++ state.held ∧
      -- a unit the state held was started before, and is not stopped yet
      (∀ before, (started before).Perm (stopped before ++ state.held) →
        (stopped (before ++ c.shared.log)).Perm (started (before ++ c.shared.log))) ∧
      (∀ error, hook = .error error → state' = state) ∧
      (hook = .ok () → state = .preClone ∧ Signalled e c.shared.log ∧
        ∃ tree unitName, state' = .postClone tree unitName ∧
          started c.shared.log = [unitName])) ∧
    (c.procs .guest = some (.done (.guest (.ok ()))) → ∃ unitName jobPath tree,
      ⟨.startTransientUnit unitName (ascii "fail") (unitProperties guestPid), .ok jobPath⟩ ∈
        c.shared.log ∧
      Configured c.shared.log policy guestPid unitName jobPath tree) := by
  have hsat : AllSat (kernels e) (rely policy guestPid) (guar policy guestPid)
    (Ends e policy guestPid state) c := Reach.sat guar_rely reap_rely cloned_sat h
  constructor
  · intro state' hook torn hdone
    have hhandled : Handled e state state' hook c.shared.log := hsat.returned hdone _ _ _ rfl
    refine ⟨hhandled.units, ?_, hhandled.failed, hhandled.succeeded⟩
    intro before hbefore
    rw [stopped_append, started_append, hhandled.units]
    calc List.Perm (stopped before ++ (started c.shared.log ++ state.held))
          (stopped before ++ (state.held ++ started c.shared.log)) :=
          List.perm_append_comm.append_left _
      _ = stopped before ++ state.held ++ started c.shared.log :=
          (List.append_assoc _ _ _).symm
      List.Perm _ (started before ++ started c.shared.log) := hbefore.symm.append_right _
  · intro hdone
    obtain ⟨unitName, jobPath, tree, hstarted, hfrom⟩ :=
      hsat.returned hdone (.ok ()) rfl rfl
    exact ⟨unitName, jobPath, tree, hstarted, from_configure hfrom⟩

section Example

/-- A session bus and a cgroup file system on which everything succeeds. -/
def answers : (op : CgroupOp) → CgroupCalls.Res op
  | .newSession _ | .addMatch | .removeMatch => .ok ()
  | .newV4 => ascii "0"
  | .startTransientUnit _ _ _ | .stopUnit _ _ => .ok (ascii "/job")
  | .getUnit _ => .ok (ascii "/unit")
  | .getControlGroup _ => .ok (ascii "/scope")
  | .now => 0
  | .popMessage _ => .answered (.ok (some ⟨true, some (0, ascii "/job", [], ascii "done")⟩))
  | .openat2 _ _ _ _ => .ok 3
  | .mkdirat _ _ _ => .ok ()
  | .write _ bytes => .ok bytes.length
  | .readString _ => .ok []
  | .writeEventfd _ => .ok 8
  | .readEventfd _ => .error .INTR

def hostImpl : Impl CgroupCalls World := fun s op =>
  (answers op, ⟨s.log ++ [⟨op, answers op⟩], match op with
    | .writeEventfd bytes => s.counter + Endian.little.value bytes
    | _ => s.counter⟩)

theorem hostImpl_hostKernel (s : World) (op : CgroupOp) :
    hostKernel .little s op (hostImpl s op).1 (hostImpl s op).2 := by
  refine ⟨rfl, ?_⟩
  cases op with
  | newSession site =>
    cases site with
    | hook => exact rfl
    | teardown => exact ⟨rfl, rfl⟩
  | writeEventfd bytes => exact rfl
  | _ => exact rfl

def guestImpl : Impl CgroupCalls World
  | s, .readEventfd _ =>
    if s.counter = 1 then (.ok (signalBytes .little), { s with counter := 0 })
    else (.error .INTR, s)
  | s, op => (answers op, s)

theorem guestImpl_guestKernel (s : World) (op : CgroupOp) :
    guestKernel .little s op (guestImpl s op).1 (guestImpl s op).2 := by
  cases op with
  | readEventfd len =>
    unfold guestImpl
    dsimp only
    split
    · next hcounter => exact ⟨rfl, hcounter.symm, rfl⟩
    · exact ⟨rfl, rfl⟩
  | _ => exact ⟨rfl, rfl⟩

/-- A policy that sets nothing. -/
def emptyPolicy : Policy := ⟨⟨false, none⟩, none, none, none, none⟩

local instance handoverItoa : Itoa := Itoa.decimal

/-- What the host leaves where everything succeeds. -/
theorem owner_handsOver : ∃ s, Returns (hostKernel .little) (owner .little emptyPolicy 7 .preClone)
    ⟨[], 0⟩ (.host (.postClone ⟨3, 3, 3⟩ (ascii "bubblebox-0.scope")) (.ok ()) (.ok ())) s ∧
      s.counter = 1 :=
  ⟨_, run_returns hostImpl_hostKernel 60 rfl, rfl⟩

/-- A guest that goes on after the unit was stopped. -/
theorem units_stopped_once_handedOver :
    ∃ c, Reach (kernels .little) reap (cloned .little emptyPolicy 7 .preClone) c ∧
      (stopped c.shared.log).Perm (started c.shared.log) ∧
      ∃ unitName jobPath tree, Configured c.shared.log emptyPolicy 7 unitName jobPath tree := by
  obtain ⟨⟨log, counter⟩, hhost, hcounter⟩ := owner_handsOver
  obtain rfl : counter = 1 := hcounter
  have hguest : Returns (guestKernel .little) (guest .little .preClone) ⟨log, 1⟩
      (.guest (.ok ())) ⟨log, 0⟩ :=
    run_returns guestImpl_guestKernel 1 rfl
  have hfirst : Reach (kernels .little) reap (cloned .little emptyPolicy 7 .preClone) _ :=
    Reach.of_steps (K := kernels .little) (i := Party.host) hhost rfl
  have hreach := hfirst.trans
    (Reach.of_steps (K := kernels .little) (i := Party.guest) hguest rfl)
  obtain ⟨hdone, hgoes⟩ := units_stopped_once .little emptyPolicy 7 .preClone hreach
  obtain ⟨unitName, jobPath, tree, _, hconfigured⟩ := hgoes rfl
  exact ⟨_, hreach, (hdone _ _ _ rfl).2.1 [] (List.Perm.refl _), unitName, jobPath, tree,
    hconfigured⟩

end Example

end LayerCake.Bubblebox.Cgroups
