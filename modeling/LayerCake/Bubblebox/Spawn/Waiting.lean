import LayerCake.Effects.Procedure
import LayerCake.Bubblebox.Spawn.Teardown

/-
  What a handle to a guest is told of its end (`bubblebox/src/platform/linux/command.rs`).

  The guest ends whenever it does, and is reaped by the kernel (`CLONE_AUTOREAP`). A pidfd hangs
  up when that is done, and only then does the kernel tell of an exit status. The handle polls for
  no event but the hangup, which is always reported.

  Correspondence (Rust ↔ Lean):
    `wait`, `try_wait`                   ↔ `GuestInner.waitInternal`, `GuestInner.tryWait`
    `terminate`                          ↔ `GuestInner.terminate`

  What is proved: `statuses_agree` — whenever the guest ends, a handle tells of no status but the
  one that it ended with, of that again whenever it is asked, and never that there is none.
-/

namespace LayerCake.Bubblebox.Spawn.Waiting

open LayerCake.Effects LayerCake.Meowix LayerCake.Linux

/-! ## The guest -/

inductive Life where
  | running
  | ended (status : ExitStatus)
  | reaped (status : ExitStatus)
  deriving DecidableEq

namespace Life

/-- What may become of a guest while nobody looks. -/
inductive Evolves : Life → Life → Prop
  | refl (l) : Evolves l l
  | ends (status) : Evolves .running (.ended status)
  | dies (status) : Evolves .running (.reaped status)
  | reaps (status) : Evolves (.ended status) (.reaped status)

/-- What the kernel tells through a pidfd. -/
structure Tells (l : Life) (mask : UInt64) (info : PidfdInfo) : Prop where
  exit : info.mask &&& PIDFD_INFO_EXIT ≠ 0 → l = .reaped info.exitCode
  reaped : ∀ status, l = .reaped status → mask &&& PIDFD_INFO_EXIT ≠ 0 →
    info.mask &&& PIDFD_INFO_EXIT ≠ 0

def Hung (l : Life) : Prop := ∃ status, l = .reaped status

end Life

variable {State : Type}

/-- What a call may be answered while the guest is there, or is not there any more. -/
def Answers (l : Life) : (op : HostOp State) → (HostCalls State).Res op → Prop
  | .ppoll _ none, r => (r = .ok 1 ∧ l.Hung) ∨ ∃ e, r = .error e
  | .ppoll _ (some _), r => (r = .ok 1 ∧ l.Hung) ∨ (r = .ok 0 ∧ ¬ l.Hung) ∨ ∃ e, r = .error e
  | .pidfdGetInfo _ mask, r => (∃ info, r = .ok info ∧ l.Tells mask info) ∨ ∃ e, r = .error e
  | .pidfdSendSignal .., r => (r = .ok () ∧ ¬ l.Hung) ∨ (r = .error .SRCH ∧ l.Hung) ∨
      ∃ e, e ≠ .SRCH ∧ r = .error e
  | _, _ => True

/-- The guest may go on before every call. -/
def waitKernel : Kernel (HostCalls State) Life :=
  fun l op r l' => l.Evolves l' ∧ Answers l' op r

/-! ## The handle -/

/-- What `wait` and `try_wait` return. -/
abbrev Observation := Except CommandError (Option ExitStatus)

/-- `wait`, or `try_wait`. -/
def observe (guest : GuestInner State) : GuestMethod → Prog (HostCalls State) Observation
  | .wait => do return (← guest.waitInternal).map some
  | .tryWait => guest.tryWait

/-- Any number of them in any order. -/
def observeAll (guest : GuestInner State) :
    List GuestMethod → Prog (HostCalls State) (List Observation)
  | [] => return []
  | method :: methods => do
    let observation ← observe guest method
    return observation :: (← observeAll guest methods)

/-- And the termination behind them. -/
def observeToEnd (guest : GuestInner State) (methods : List GuestMethod) :
    Prog (HostCalls State) (List Observation × Except GuestTermination ExitStatus) := do
  let observations ← observeAll guest methods
  return (observations, ← guest.terminate)

section Handle
variable {guest : GuestInner State} {l t : Life}

theorem step_reaped {α : Type} {p q : Prog (HostCalls State) α} (h : Step waitKernel p l q t)
    (hung : l.Hung) : t = l := by
  obtain ⟨status, rfl⟩ := hung
  cases h with
  | again hk _ =>
    cases hk.1
    rfl
  | next hk _ =>
    cases hk.1
    rfl

/-- A guest that was reaped stays as it is, whatever is called. -/
theorem steps_reaped {α : Type} {p q : Prog (HostCalls State) α} (h : Steps waitKernel p l q t)
    (hung : l.Hung) : t = l := by
  induction h with
  | refl => rfl
  | head hd _ ih =>
    have hstill := step_reaped hd hung
    subst hstill
    exact ih hung

/-- Behind a hangup there is a status to tell of. -/
theorem exitStatus_returns {r : Except CommandError ExitStatus}
    (h : Returns waitKernel guest.exitStatus l r t) (hung : l.Hung) :
    r ≠ .error .missingInformation ∧ ∀ status, r = .ok status → l = .reaped status := by
  obtain ⟨answer, u, hperform, hend⟩ := returns_bind.mp h
  obtain ⟨status, rfl⟩ := hung
  obtain ⟨hevolves, hanswer⟩ := returns_perform.mp hperform
  cases hevolves
  rcases hanswer with ⟨info, rfl, htells⟩ | ⟨e, rfl⟩
  · have hmask : info.mask &&& PIDFD_INFO_EXIT ≠ 0 := htells.reaped status rfl (by decide)
    simp only [if_pos hmask] at hend
    obtain ⟨rfl, -⟩ := returns_done.mp hend
    refine ⟨(by simp), fun status' heq => ?_⟩
    cases heq
    exact htells.exit hmask
  · obtain ⟨rfl, -⟩ := returns_done.mp hend
    exact ⟨(by simp), fun _ heq => (by cases heq)⟩

/-- A wait comes back when the guest was reaped, or it fails. -/
theorem waitInternal_returns {r : Except CommandError ExitStatus}
    (h : Returns waitKernel guest.waitInternal l r t) :
    r ≠ .error .missingInformation ∧ ∀ status, r = .ok status → t = .reaped status := by
  obtain ⟨answer, u, hpoll, hend⟩ := returns_bind.mp h
  obtain ⟨p, v, -, ⟨-, hanswer⟩, -⟩ := hpoll.of_performUntil
  rcases hanswer with ⟨rfl, hung⟩ | ⟨e, rfl⟩
  · obtain ⟨hmissing, hstatus⟩ := exitStatus_returns hend hung
    refine ⟨hmissing, fun status hr => ?_⟩
    rw [steps_reaped hend hung]
    exact hstatus status hr
  · obtain ⟨rfl, -⟩ := returns_done.mp hend
    exact ⟨(by simp), fun _ heq => (by cases heq)⟩

/-- A status is an observation, and never that there was none. -/
theorem map_some_told {status : Except CommandError ExitStatus}
    (hmissing : status ≠ .error .missingInformation)
    (hsame : ∀ s, status = .ok s → t = .reaped s) :
    status.map some ≠ .error .missingInformation ∧
      (∀ s, status.map some = .ok (some s) → t = .reaped s) ∧ status.map some ≠ .ok none := by
  cases status with
  | ok status =>
    refine ⟨by simp [Except.map], fun s heq => ?_, fun heq => by cases heq⟩
    cases heq
    exact hsame status rfl
  | error e =>
    exact ⟨by simpa [Except.map] using hmissing, fun _ heq => (by cases heq),
      fun heq => by cases heq⟩

theorem tryWait_returns {r : Observation} (h : Returns waitKernel guest.tryWait l r t) :
    r ≠ .error .missingInformation ∧ (∀ status, r = .ok (some status) → t = .reaped status) ∧
      (r = .ok none → ¬ l.Hung) := by
  obtain ⟨answer, u, hpoll, hend⟩ := returns_bind.mp h
  obtain ⟨p, v, -, ⟨-, hanswer⟩, -⟩ := hpoll.of_performUntil
  rcases hanswer with ⟨rfl, hung⟩ | ⟨rfl, hnot⟩ | ⟨e, rfl⟩
  · obtain ⟨status, w, hstatus, hdone⟩ := returns_bind.mp hend
    obtain ⟨hmissing, hsame⟩ := exitStatus_returns hstatus hung
    obtain ⟨rfl, rfl⟩ := returns_done.mp hdone
    rw [steps_reaped hstatus hung]
    obtain ⟨htold, hstatus, hsome⟩ := map_some_told hmissing hsame
    exact ⟨htold, hstatus, fun heq => absurd heq hsome⟩
  · obtain ⟨rfl, -⟩ := returns_done.mp hend
    refine ⟨(by simp), fun _ heq => (by cases heq), fun _ hung => ?_⟩
    rw [steps_reaped hpoll hung] at hnot
    exact hnot hung
  · obtain ⟨rfl, -⟩ := returns_done.mp hend
    exact ⟨(by simp), fun _ heq => (by cases heq), fun heq => (by cases heq)⟩

/-- One question, whichever it is. -/
theorem observe_returns {method : GuestMethod} {r : Observation}
    (h : Returns waitKernel (observe guest method) l r t) :
    r ≠ .error .missingInformation ∧ (∀ status, r = .ok (some status) → t = .reaped status) ∧
      (r = .ok none → ¬ l.Hung) := by
  cases method with
  | wait =>
    obtain ⟨status, u, hwait, hdone⟩ := returns_bind.mp h
    obtain ⟨hmissing, hsame⟩ := waitInternal_returns hwait
    obtain ⟨rfl, rfl⟩ := returns_done.mp hdone
    obtain ⟨htold, hstatus, hsome⟩ := map_some_told hmissing hsame
    exact ⟨htold, hstatus, fun heq => absurd heq hsome⟩
  | tryWait => exact tryWait_returns h

/-- What a series of questions is answered. -/
structure Agrees (observations : List Observation) (before after : Life) : Prop where
  /-- It is never told that there is no status. -/
  told : .error .missingInformation ∉ observations
  status : ∀ status, .ok (some status) ∈ observations → after = .reaped status
  /-- Once there was a status, there is no moment when there was none. -/
  ordered : observations.Pairwise fun a b => (∃ status, a = .ok (some status)) → b ≠ .ok none
  reaped : before.Hung → .ok none ∉ observations

theorem observeAll_returns {methods : List GuestMethod} {observations : List Observation}
    (h : Returns waitKernel (observeAll guest methods) l observations t) :
    Agrees observations l t := by
  induction methods generalizing l observations with
  | nil =>
    obtain ⟨rfl, rfl⟩ := returns_done.mp h
    exact ⟨List.not_mem_nil, fun _ hmem => (by cases hmem), .nil, fun _ => List.not_mem_nil⟩
  | cons method methods ih =>
    obtain ⟨first, u, hfirst, hmore⟩ := returns_bind.mp h
    obtain ⟨rest, v, hrest, hdone⟩ := returns_bind.mp hmore
    obtain ⟨rfl, rfl⟩ := returns_done.mp hdone
    obtain ⟨hmissing, hsame, hnone⟩ := observe_returns hfirst
    have hagrees := ih hrest
    refine ⟨fun hmem => ?_, fun status hmem => ?_, .cons (fun b hb hseen => ?_) hagrees.ordered,
      fun hung hmem => ?_⟩
    · rcases List.mem_cons.mp hmem with heq | hmem
      · exact hmissing heq.symm
      · exact hagrees.told hmem
    · rcases List.mem_cons.mp hmem with heq | hmem
      · have hreaped := hsame status heq.symm
        rw [steps_reaped hrest ⟨status, hreaped⟩, hreaped]
      · exact hagrees.status status hmem
    · obtain ⟨status, heq⟩ := hseen
      exact fun hb' => hagrees.reaped ⟨status, hsame status heq⟩ (hb' ▸ hb)
    · rcases List.mem_cons.mp hmem with heq | hmem
      · exact hnone heq.symm hung
      · exact hagrees.reaped (steps_reaped hfirst hung ▸ hung) hmem

/-- What a termination tells of. -/
structure Terminates (r : Except GuestTermination ExitStatus) (after : Life) : Prop where
  status : ∀ status, r = .ok status → after = .reaped status
  told : ∀ e, r = .error e → e.wait ≠ some (.error .missingInformation)
  /-- It is no error that the guest was gone. -/
  gone : ∀ e signal, r = .error e → e.signal = some signal → signal.error ≠ .SRCH

/-- A signal that could not be sent is an error, unless there was nobody left. -/
theorem signalError_ne {sent : Except Errno Unit} {signal : SyscallError}
    (h : GuestInner.signalError sent = some signal) : signal.error ≠ .SRCH := by
  unfold GuestInner.signalError at h
  split at h
  · cases h
  · split at h
    · cases h
    · next hne =>
      cases h
      exact hne

theorem terminateInternal_returns {r : Except GuestTermination ExitStatus × GuestInner State}
    (h : Returns waitKernel guest.terminateInternal l r t) : Terminates r.1 t := by
  obtain ⟨sent, u, -, hwaits⟩ := returns_bind.mp h
  obtain ⟨wait, v, hwait, hcleans⟩ := returns_bind.mp hwaits
  obtain ⟨cgroup, w, hcgroup, hdone⟩ := returns_bind.mp hcleans
  cases hsig : GuestInner.signalError sent with
  | some signal =>
    rw [hsig] at hwait hdone
    obtain ⟨rfl, rfl⟩ := returns_done.mp hwait
    obtain ⟨rfl, rfl⟩ := returns_done.mp hdone
    refine ⟨fun _ heq => (by cases heq), fun e heq => ?_, fun e signal' heq hsignal => ?_⟩
    · cases heq
      simp
    · cases heq
      cases hsignal
      exact signalError_ne hsig
  | none =>
    rw [hsig] at hwait hdone
    rw [map_eq_pure_bind] at hwait
    obtain ⟨status, x, hstatus, hsome⟩ := returns_bind.mp hwait
    obtain ⟨rfl, rfl⟩ := returns_done.mp hsome
    obtain ⟨hmissing, hreaped⟩ := waitInternal_returns hstatus
    cases status with
    | error e =>
      obtain ⟨rfl, rfl⟩ := returns_done.mp hdone
      refine ⟨fun _ heq => (by cases heq), fun e heq => ?_, fun e signal heq hsignal => ?_⟩
      · cases heq
        simpa using hmissing
      · cases heq
        cases hsignal
    | ok status =>
      have hstill : w = v := steps_reaped hcgroup ⟨status, hreaped status rfl⟩
      cases cgroup with
      | none =>
        obtain ⟨rfl, rfl⟩ := returns_done.mp hdone
        refine ⟨fun status' heq => ?_, fun e heq => (by cases heq), fun e _ heq => by cases heq⟩
        cases heq
        rw [hstill, hreaped status rfl]
      | some e =>
        obtain ⟨rfl, rfl⟩ := returns_done.mp hdone
        refine ⟨fun _ heq => (by cases heq), fun e heq => ?_, fun e signal heq hsignal => ?_⟩
        · cases heq
          simp
        · cases heq
          cases hsignal

/-- Whenever the guest ends, and whatever else fails: a handle tells of no status but the one
that the guest ended with, of that from then on, and never that there is none. -/
theorem statuses_agree {methods : List GuestMethod} {observations : List Observation}
    {last : Except GuestTermination ExitStatus}
    (h : Returns waitKernel (observeToEnd guest methods) l (observations, last) t) :
    Agrees observations l t ∧ Terminates last t := by
  obtain ⟨observations', u, hall, hmore⟩ := returns_bind.mp h
  obtain ⟨last', v, hlast, hdone⟩ := returns_bind.mp hmore
  obtain ⟨heq, rfl⟩ := returns_done.mp hdone
  cases heq
  obtain ⟨⟨r, left⟩, w, hterminate, hdrop⟩ := returns_bind.mp hlast
  obtain ⟨_, x, hdropped, hreturn⟩ := returns_bind.mp hdrop
  obtain ⟨rfl, rfl⟩ := returns_done.mp hreturn
  have hagrees := observeAll_returns hall
  have hterminates : Terminates last w := terminateInternal_returns hterminate
  refine ⟨⟨hagrees.told, fun status hmem => ?_, hagrees.ordered, hagrees.reaped⟩,
    ⟨fun status heq => ?_, hterminates.told, hterminates.gone⟩⟩
  · have hreaped := hagrees.status status hmem
    have hstill := steps_reaped hterminate ⟨status, hreaped⟩
    rw [steps_reaped hdropped (hstill ▸ ⟨status, hreaped⟩), hstill, hreaped]
  · have hreaped := hterminates.status status heq
    rw [steps_reaped hdropped ⟨status, hreaped⟩, hreaped]

end Handle

/-! ## A guest that exits -/

/-- It exits with 3 while somebody waits. -/
def waitImpl : Impl (HostCalls Unit) Life
  | l, .geteuid => (.ok 0, l)
  | l, .getegid => (.ok 0, l)
  | l, .pipe2 _ => (.error .NOENT, l)
  | l, .cloneArgsCgroup _ => (none, l)
  | l, .clone3 _ => (.error .NOENT, l)
  | l, .close _ => (.ok (), l)
  | l, .dropFd _ => ((), l)
  | l, .hostPostCloneHook .. => ((.ok (), ()), l)
  | l, .read .. => (.ok [], l)
  | l, .guest .hostPostCloneHook => (.ok (), l)
  | l, .guest .guestPostClone => (.ok .exec, l)
  | l, .guest (.execStep _) => (.ok (), l)
  | l, .guest (.write _) => (.error .NOENT, l)
  | l, .guest (.read _) => (.ok [], l)
  | l, .guest .execveat => (.error .NOENT, l)
  | l, .guest (.exit _) => ((), l)
  | .running, .pidfdSendSignal .. => (.ok (), .running)
  | .ended status, .pidfdSendSignal .. => (.ok (), .ended status)
  | .reaped status, .pidfdSendSignal .. => (.error .SRCH, .reaped status)
  | .running, .ppoll _ none => (.ok 1, .reaped 0x300)
  | .ended status, .ppoll _ none => (.ok 1, .reaped status)
  | .reaped status, .ppoll _ none => (.ok 1, .reaped status)
  | .running, .ppoll _ (some _) => (.ok 0, .running)
  | .ended status, .ppoll _ (some _) => (.ok 0, .ended status)
  | .reaped status, .ppoll _ (some _) => (.ok 1, .reaped status)
  | .reaped status, .pidfdGetInfo _ mask => (.ok ⟨mask, status⟩, .reaped status)
  | l, .pidfdGetInfo .. => (.error .SRCH, l)
  | l, .teardown _ => (.ok (), l)

theorem waitImpl_waitKernel (l : Life) (op : HostOp Unit) :
    waitKernel l op (waitImpl l op).1 (waitImpl l op).2 := by
  have hrunning : ¬ Life.running.Hung := fun ⟨_, h⟩ => by cases h
  have hended : ∀ status, ¬ (Life.ended status).Hung := fun _ ⟨_, h⟩ => by cases h
  cases op with
  | ppoll fd timeout =>
    cases timeout with
    | none =>
      cases l with
      | running => exact ⟨.dies _, .inl ⟨rfl, _, rfl⟩⟩
      | ended status => exact ⟨.reaps status, .inl ⟨rfl, _, rfl⟩⟩
      | reaped status => exact ⟨.refl _, .inl ⟨rfl, _, rfl⟩⟩
    | some timeout =>
      cases l with
      | running => exact ⟨.refl _, .inr (.inl ⟨rfl, hrunning⟩)⟩
      | ended status => exact ⟨.refl _, .inr (.inl ⟨rfl, hended status⟩)⟩
      | reaped status => exact ⟨.refl _, .inl ⟨rfl, _, rfl⟩⟩
  | pidfdGetInfo fd mask =>
    cases l with
    | running => exact ⟨.refl _, .inr ⟨_, rfl⟩⟩
    | ended status => exact ⟨.refl _, .inr ⟨_, rfl⟩⟩
    | reaped status => exact ⟨.refl _, .inl ⟨_, rfl, fun _ => rfl, fun _ _ hmask => hmask⟩⟩
  | pidfdSendSignal fd sig flags =>
    cases l with
    | running => exact ⟨.refl _, .inl ⟨rfl, hrunning⟩⟩
    | ended status => exact ⟨.refl _, .inl ⟨rfl, hended status⟩⟩
    | reaped status => exact ⟨.refl _, .inr (.inl ⟨rfl, _, rfl⟩)⟩
  | guest op => cases op <;> exact ⟨.refl _, trivial⟩
  | _ => exact ⟨.refl _, trivial⟩

/-- It is asked before it exits and after that, and then terminated. -/
theorem statuses_agree_exit :
    Returns waitKernel
      (observeToEnd (⟨3, 7, some ()⟩ : GuestInner Unit) [.tryWait, .wait, .tryWait]) .running
      ([.ok none, .ok (some 0x300), .ok (some 0x300)], .ok 0x300) (.reaped 0x300) ∧
    Agrees [.ok none, .ok (some 0x300), .ok (some 0x300)] .running (.reaped 0x300) ∧
    Terminates (.ok 0x300) (.reaped 0x300) := by
  have hret : Returns waitKernel
      (observeToEnd (⟨3, 7, some ()⟩ : GuestInner Unit) [.tryWait, .wait, .tryWait]) .running
      ([.ok none, .ok (some 0x300), .ok (some 0x300)], .ok 0x300) (.reaped 0x300) :=
    run_returns waitImpl_waitKernel 30 rfl
  exact ⟨hret, statuses_agree hret⟩

end LayerCake.Bubblebox.Spawn.Waiting
