import LayerCake.Effects.Loop
import LayerCake.Meowix.Netlink

/-
  Acknowledgements of netlink requests (`check_for_ack` in `meowix/src/netlink.rs`).

  Correspondence (Rust ↔ Lean):
    `ppoll`, `recvmsg` with their retries ↔ `receive`
    the buffer after `recvmsg`            ↔ `received`
    the `while` with its returns          ↔ `onDatagram`
    a turn of the `loop`                  ↔ `checkForAckTurn`
  The timeout of `ppoll` is memory the kernel alone counts down, and the buffer holds
  what was received over what earlier datagrams left there. The debug assertions on
  what `ppoll` reports are left out.

  What is proved: a run is acknowledged by an acknowledgement behind nothing but clean
  messages; the first fault leaves the loop with its own error and the first
  acknowledgement leaves it well, at once; no turn is ever stuck; and bytes left in the
  buffer change nothing (`check_for_ack_exact`).
-/

namespace LayerCake.Meowix

open Effects

/-! ## Receiving -/

def MSG_TRUNC : UInt32 := 0x20

def MSG_DONTWAIT : UInt32 := 0x40

/-- The calls on the socket: waiting for it to be readable, and receiving one datagram
into a buffer of `len` bytes. -/
inductive SocketOp where
  | ppoll
  | recvmsg (len : Nat) (flags : UInt32)
  deriving DecidableEq, Repr

@[reducible] def NetlinkSocket : Interface where
  Op := SocketOp
  Res
    | .ppoll => Except Errno Nat
    | .recvmsg _ _ => Except Errno (Bytes × UInt32)

/-- The calls of a turn: a datagram and the flags it came with, or none where the
socket had none after all. -/
def receive (len : Nat) : Prog NetlinkSocket (Except Netlink (Option (Bytes × UInt32))) := do
  match ← performUntil (I := NetlinkSocket) .ppoll interrupted with
  | .error error => return .error (.syscall ⟨.ppoll, error⟩)
  | .ok nReady =>
    if nReady = 0 then return .error .ackTimeout
    else
      match ← performUntil (I := NetlinkSocket) (.recvmsg len MSG_DONTWAIT) interrupted with
      | .ok message => return .ok (some message)
      | .error error =>
        if error = Errno.AGAIN then return .ok none
        else return .error (.syscall ⟨.recvmsg, error⟩)

/-- The buffer once a datagram was received into it. -/
def received (buffer datagram : Bytes) : Bytes := datagram ++ buffer.drop datagram.length

/-- The next turn keeps the buffer, or the loop is left. -/
def afterWalk (buffer : Bytes) : Except Netlink Walked → Bytes ⊕ Except Netlink Unit
  | .ok .exhausted => .inl buffer
  | .ok .acknowledged => .inr (.ok ())
  | .error error => .inr (.error error)

/-- What a turn makes of a datagram. -/
def onDatagram (e : Endian) (sequence : UInt32) (buffer datagram : Bytes) (msgFlags : UInt32) :
    Bytes ⊕ Except Netlink Unit :=
  if msgFlags &&& MSG_TRUNC ≠ 0 then .inr (.error .truncatedMessage)
  else
    afterWalk (received buffer datagram)
      ((messagesFrom e sequence datagram.length 0).eval (slice (received buffer datagram)))

/-- What a turn makes of its calls. -/
def afterReceive (e : Endian) (sequence : UInt32) (buffer : Bytes) :
    Except Netlink (Option (Bytes × UInt32)) → Bytes ⊕ Except Netlink Unit
  | .ok (some (datagram, msgFlags)) => onDatagram e sequence buffer datagram msgFlags
  | .ok none => .inl buffer
  | .error error => .inr (.error error)

/-- A turn of the loop of `check_for_ack`. -/
def checkForAckTurn (e : Endian) (sequence : UInt32) (buffer : Bytes) :
    Prog NetlinkSocket (Bytes ⊕ Except Netlink Unit) := do
  return afterReceive e sequence buffer (← receive buffer.length)

/-- A run of `check_for_ack`. -/
def CheckForAck {σ : Type} (K : Kernel NetlinkSocket σ) (e : Endian) (sequence : UInt32) :
    σ → Except Netlink Unit → σ → Prop :=
  Loops K (checkForAckTurn e sequence) (.replicate 1024 0)

/-! ## Runs -/

/-- What was answered. -/
inductive SocketEvent where
  | polled (answer : Except Errno Nat)
  | received (answer : Except Errno (Bytes × UInt32))

/-- The kernel answers as it likes, with no more bytes than the buffer holds. -/
def socketKernel : Kernel NetlinkSocket (List SocketEvent)
  | log, .ppoll, answer, log' => log' = log ++ [.polled answer]
  | log, .recvmsg len _, answer, log' =>
    log' = log ++ [.received answer] ∧ ∀ message, answer = .ok message → message.1.length ≤ len

section Runs
variable (e : Endian) (sequence : UInt32)

/-- After the event the loop goes on. -/
def Quiet : SocketEvent → Prop
  | .polled (.error error) => error = Errno.INTR
  | .polled (.ok nReady) => nReady ≠ 0
  | .received (.error error) => error = Errno.INTR ∨ error = Errno.AGAIN
  | .received (.ok (datagram, msgFlags)) =>
    msgFlags &&& MSG_TRUNC = 0 ∧ Judged e sequence datagram (.ok .exhausted)

/-- The event ends the loop with the result. -/
inductive EndsLoop : SocketEvent → Except Netlink Unit → Prop
  | pollFailed {error : Errno} (h : error ≠ Errno.INTR) :
      EndsLoop (.polled (.error error)) (.error (.syscall ⟨.ppoll, error⟩))
  | timedOut : EndsLoop (.polled (.ok 0)) (.error .ackTimeout)
  | receiveFailed {error : Errno} (h : error ≠ Errno.INTR) (h' : error ≠ Errno.AGAIN) :
      EndsLoop (.received (.error error)) (.error (.syscall ⟨.recvmsg, error⟩))
  | truncated {datagram : Bytes} {msgFlags : UInt32} (h : msgFlags &&& MSG_TRUNC ≠ 0) :
      EndsLoop (.received (.ok (datagram, msgFlags))) (.error .truncatedMessage)
  | acknowledged {datagram : Bytes} {msgFlags : UInt32} (h : msgFlags &&& MSG_TRUNC = 0)
      (hj : Judged e sequence datagram (.ok .acknowledged)) :
      EndsLoop (.received (.ok (datagram, msgFlags))) (.ok ())
  | fault {datagram : Bytes} {msgFlags : UInt32} {error : Netlink} (h : msgFlags &&& MSG_TRUNC = 0)
      (hj : Judged e sequence datagram (.error error)) :
      EndsLoop (.received (.ok (datagram, msgFlags))) (.error error)

end Runs

/-- The walk over a received datagram is the walk over the datagram. -/
theorem messagesFrom_received (e : Endian) (sequence : UInt32) (buffer datagram : Bytes) :
    (messagesFrom e sequence datagram.length 0).eval (slice (received buffer datagram)) =
      walkFrom e sequence datagram 0 :=
  eval_append (messagesFrom_calls e sequence _ _) _

theorem onDatagram_spec {e : Endian} {sequence : UInt32} {datagram : Bytes} {msgFlags : UInt32}
    {r : Except Netlink Walked} (buffer : Bytes) (hflags : msgFlags &&& MSG_TRUNC = 0)
    (hlen : datagram.length < 2 ^ 62) (h : Judged e sequence datagram r) :
    onDatagram e sequence buffer datagram msgFlags = afterWalk (received buffer datagram) r := by
  unfold onDatagram
  rw [if_neg (not_not_intro hflags), messagesFrom_received, h.eq hlen]

section Loop
variable {e : Endian} {sequence : UInt32} {log : List SocketEvent}

/-- Every datagram fits into the buffer. -/
def Fit (log : List SocketEvent) : Prop :=
  ∀ datagram msgFlags, .received (.ok (datagram, msgFlags)) ∈ log → datagram.length ≤ 1024

theorem Fit.concat_polled (h : Fit log) (answer : Except Errno Nat) :
    Fit (log ++ [.polled answer]) := by
  intro datagram msgFlags hmem
  rcases List.mem_append.mp hmem with hmem | hmem
  · exact h datagram msgFlags hmem
  · cases List.mem_singleton.mp hmem

theorem Fit.concat_received (h : Fit log) {answer : Except Errno (Bytes × UInt32)}
    (hanswer : ∀ message, answer = .ok message → message.1.length ≤ 1024) :
    Fit (log ++ [.received answer]) := by
  intro datagram msgFlags hmem
  rcases List.mem_append.mp hmem with hmem | hmem
  · exact h datagram msgFlags hmem
  · cases List.mem_singleton.mp hmem
    exact hanswer _ rfl

/-- Nothing ended the loop yet. -/
structure Undecided (e : Endian) (sequence : UInt32) (log : List SocketEvent) : Prop where
  fit : Fit log
  quiet : ∀ event ∈ log, Quiet e sequence event

/-- What every turn of the loop keeps. -/
structure Waiting (e : Endian) (sequence : UInt32) (buffer : Bytes) (log : List SocketEvent) :
    Prop extends Undecided e sequence log where
  length : buffer.length = 1024

/-- The last event, and no other, ended the loop with the result. -/
def LoopEnded (e : Endian) (sequence : UInt32) (r : Except Netlink Unit) (log : List SocketEvent) :
    Prop :=
  Fit log ∧ ∃ earlier last, log = earlier ++ [last] ∧
    (∀ event ∈ earlier, Quiet e sequence event) ∧ EndsLoop e sequence last r

theorem quiet_concat {event : SocketEvent} (h : ∀ event ∈ log, Quiet e sequence event)
    (hevent : Quiet e sequence event) : ∀ event' ∈ log ++ [event], Quiet e sequence event' := by
  intro event' hmem
  rcases List.mem_append.mp hmem with hmem | hmem
  · exact h event' hmem
  · rw [List.mem_singleton.mp hmem]
    exact hevent

/-- A poll is made again on interrupts, which are quiet. -/
theorem ppoll_spec (h : Undecided e sequence log) :
    Live socketKernel (Undecided e sequence) (performUntil (I := NetlinkSocket) .ppoll interrupted)
      (fun r log' => interrupted r = false ∧ ∃ earlier, log' = earlier ++ [.polled r] ∧
        Undecided e sequence earlier) log := by
  refine Live.performUntil (Undecided e sequence) h (fun _ ht => ht) ?_ ?_ ?_
  · intro t _
    exact ⟨.ok 1, _, rfl, rfl⟩
  · intro t r t' ht hk hagain
    have heq : t' = t ++ [SocketEvent.polled r] := hk
    subst heq
    cases r with
    | ok n => cases hagain
    | error error =>
      have herror : error = Errno.INTR := by simpa [interrupted] using hagain
      exact ⟨ht.fit.concat_polled _, quiet_concat ht.quiet herror⟩
  · intro t r t' ht hk hagain
    exact ⟨hagain, t, hk, ht⟩

/-- So is the receipt of a message, which fits into the buffer. -/
theorem recvmsg_spec {len : Nat} {flags : UInt32} (hlen : len ≤ 1024)
    (h : Undecided e sequence log) :
    Live socketKernel (Undecided e sequence)
      (performUntil (I := NetlinkSocket) (.recvmsg len flags) interrupted)
      (fun r log' => interrupted r = false ∧ Fit log' ∧ ∃ earlier,
        log' = earlier ++ [.received r] ∧ ∀ event ∈ earlier, Quiet e sequence event) log := by
  have hfits : ∀ {t r t'}, Fit t → socketKernel t (.recvmsg len flags) r t' → Fit t' := by
    intro t r t' hfit hk
    obtain ⟨rfl, hmessage⟩ := hk
    apply hfit.concat_received
    intro message hok
    exact (hmessage message hok).trans hlen
  refine Live.performUntil (Undecided e sequence) h (fun _ ht => ht) ?_ ?_ ?_
  · intro t _
    exact ⟨.error Errno.AGAIN, _, ⟨rfl, fun _ hok => by cases hok⟩, by decide⟩
  · intro t r t' ht hk hagain
    refine ⟨hfits ht.fit hk, ?_⟩
    have heq : t' = t ++ [SocketEvent.received r] := hk.1
    subst heq
    cases r with
    | ok message => cases hagain
    | error error =>
      have herror : error = Errno.INTR := by simpa [interrupted] using hagain
      exact quiet_concat ht.quiet (.inl herror)
  · intro t r t' ht hk hagain
    exact ⟨hagain, hfits ht.fit hk, t, hk.1, ht.quiet⟩

/-- What the calls of a turn leave. -/
theorem receive_spec (h : Undecided e sequence log) :
    Live socketKernel (Undecided e sequence) (receive 1024) (fun r log' => match r with
      | .ok (some (datagram, msgFlags)) => Fit log' ∧ ∃ earlier,
          log' = earlier ++ [.received (.ok (datagram, msgFlags))] ∧
          ∀ event ∈ earlier, Quiet e sequence event
      | .ok none => Undecided e sequence log'
      | .error error => LoopEnded e sequence (.error error) log') log := by
  apply Live.bind
  apply (ppoll_spec h).mono
  intro r _ hpolled
  obtain ⟨hagain, t, rfl, ht⟩ := hpolled
  cases r with
  | error error =>
    have herror : error ≠ Errno.INTR := by simpa [interrupted] using hagain
    exact live_done.mpr ⟨ht.fit.concat_polled _, t, _, rfl, ht.quiet, .pollFailed herror⟩
  | ok nReady =>
    show Live _ _ (if nReady = 0 then _ else _) _ _
    split
    · next hzero =>
      subst hzero
      exact live_done.mpr ⟨ht.fit.concat_polled _, t, _, rfl, ht.quiet, .timedOut⟩
    · next hready =>
      have hpolled : Quiet e sequence (.polled (.ok nReady)) := hready
      have hnext : Undecided e sequence (t ++ [.polled (.ok nReady)]) :=
        ⟨ht.fit.concat_polled _, quiet_concat ht.quiet hpolled⟩
      apply Live.bind
      apply (recvmsg_spec (le_refl 1024) hnext).mono
      intro r _ hreceived
      obtain ⟨hagain, hfit, u, rfl, hquiet⟩ := hreceived
      cases r with
      | ok message => exact live_done.mpr ⟨hfit, u, rfl, hquiet⟩
      | error error =>
        have herror : error ≠ Errno.INTR := by simpa [interrupted] using hagain
        show Live _ _ (if error = Errno.AGAIN then _ else _) _ _
        split
        · next hnone => exact live_done.mpr ⟨hfit, quiet_concat hquiet (.inr hnone)⟩
        · next hsome =>
          exact live_done.mpr ⟨hfit, u, _, rfl, hquiet, .receiveFailed herror hsome⟩

/-- One turn: it goes on after quiet events only, what ends it is its last event, and at
each of its calls nothing ended it yet. -/
theorem checkForAckTurn_spec {buffer : Bytes} (h : Waiting e sequence buffer log) :
    Live socketKernel (Undecided e sequence) (checkForAckTurn e sequence buffer)
      (Sum.elim (Waiting e sequence) (LoopEnded e sequence)) log := by
  unfold checkForAckTurn
  rw [h.length]
  refine Live.bind ((receive_spec h.toUndecided).mono fun r log' hr => live_done.mpr ?_)
  match r, hr with
  | .error error, hr => exact hr
  | .ok none, hr => exact ⟨hr, h.length⟩
  | .ok (some (datagram, msgFlags)), ⟨hfit, earlier, heq, hquiet⟩ =>
    show Sum.elim (Waiting e sequence) (LoopEnded e sequence)
      (onDatagram e sequence buffer datagram msgFlags) log'
    subst heq
    have hlen : datagram.length ≤ 1024 := hfit datagram msgFlags (by simp)
    by_cases hflags : msgFlags &&& MSG_TRUNC = 0
    · have hlen' : datagram.length < 2 ^ 62 := by omega
      obtain ⟨verdict, hj⟩ := Judged.exists e sequence hlen'
      rw [onDatagram_spec buffer hflags hlen' hj]
      match verdict, hj with
      | .ok .exhausted, hj =>
        refine ⟨⟨hfit, quiet_concat hquiet ⟨hflags, hj⟩⟩, ?_⟩
        have := h.length
        simp only [received, List.length_append, List.length_drop]
        omega
      | .ok .acknowledged, hj => exact ⟨hfit, earlier, _, rfl, hquiet, .acknowledged hflags hj⟩
      | .error error, hj => exact ⟨hfit, earlier, _, rfl, hquiet, .fault hflags hj⟩
    · unfold onDatagram
      rw [if_pos hflags]
      exact ⟨hfit, earlier, _, rfl, hquiet, .truncated hflags⟩

/-- What is left of a turn at every moment of a run. -/
theorem checkForAck_live {p : Prog NetlinkSocket (Bytes ⊕ Except Netlink Unit)}
    (h : During socketKernel (checkForAckTurn e sequence) (.replicate 1024 0) [] p log) :
    Live socketKernel (Undecided e sequence) p
      (Sum.elim (Waiting e sequence) (LoopEnded e sequence)) log := by
  refine h.live (fun buffer log hwaiting => checkForAckTurn_spec hwaiting) ?_
  exact ⟨⟨fun _ _ h => absurd h List.not_mem_nil, fun _ h => absurd h List.not_mem_nil⟩,
    List.length_replicate⟩

/-- A run has left the loop with what ended it, or nothing ended it yet. -/
theorem checkForAck_moment {p : Prog NetlinkSocket (Bytes ⊕ Except Netlink Unit)}
    (h : During socketKernel (checkForAckTurn e sequence) (.replicate 1024 0) [] p log) :
    (∃ r, p = .done (.inr r) ∧ LoopEnded e sequence r log) ∨
      (∀ r, p ≠ .done (.inr r)) ∧ Undecided e sequence log := by
  have hlive := checkForAck_live h
  match p, hlive with
  | .done (.inr r), hended => exact .inl ⟨r, rfl, hended⟩
  | .done (.inl buffer), hwaiting => exact .inr ⟨fun r h => (by cases h), hwaiting.toUndecided⟩
  | .call op again k, hlive =>
    exact .inr ⟨fun r h => (by cases h), hlive.at_call fun a h => (by cases h)⟩

/-- What ends the loop is no quiet event. -/
theorem EndsLoop.not_quiet {event : SocketEvent} {r : Except Netlink Unit}
    (h : EndsLoop e sequence event r)
    (hlen : ∀ datagram msgFlags, event = .received (.ok (datagram, msgFlags)) →
      datagram.length < 2 ^ 62) : ¬ Quiet e sequence event := by
  intro hquiet
  cases h with
  | pollFailed h => exact h hquiet
  | timedOut => exact hquiet rfl
  | receiveFailed h h' => exact hquiet.elim h h'
  | truncated h => exact h hquiet.1
  | acknowledged _ hj => cases hj.unique (hlen _ _ rfl) hquiet.2
  | fault _ hj => cases hj.unique (hlen _ _ rfl) hquiet.2

/-- The loop is left exactly when an event that is not quiet was answered. -/
theorem checkForAck_left_iff {p : Prog NetlinkSocket (Bytes ⊕ Except Netlink Unit)}
    (h : During socketKernel (checkForAckTurn e sequence) (.replicate 1024 0) [] p log) :
    (∃ r, p = .done (.inr r)) ↔ ∃ event ∈ log, ¬ Quiet e sequence event := by
  rcases checkForAck_moment h with hended | hpending
  · obtain ⟨r, rfl, hfit, earlier, last, rfl, _, hends⟩ := hended
    refine ⟨fun _ => ⟨last, by simp, hends.not_quiet ?_⟩, fun _ => ⟨r, rfl⟩⟩
    intro datagram msgFlags heq
    have := hfit datagram msgFlags (by simp [heq])
    omega
  · obtain ⟨hnot, hundecided⟩ := hpending
    constructor
    · intro hleft
      obtain ⟨r, hr⟩ := hleft
      exact absurd hr (hnot r)
    · intro hevent
      obtain ⟨event, hmem, hloud⟩ := hevent
      exact absurd (hundecided.quiet event hmem) hloud

/-- What a run leaves. -/
theorem checkForAck_ended {r : Except Netlink Unit}
    (h : CheckForAck socketKernel e sequence [] r log) : LoopEnded e sequence r log :=
  checkForAck_live h.during

/-- A datagram that is no run of clean messages ended the loop, with its own verdict. -/
theorem LoopEnded.of_judged {r : Except Netlink Unit} (h : LoopEnded e sequence r log)
    {earlier later : List SocketEvent} {datagram : Bytes} {msgFlags : UInt32}
    {verdict : Except Netlink Walked}
    (hlog : log = earlier ++ .received (.ok (datagram, msgFlags)) :: later)
    (hflags : msgFlags &&& MSG_TRUNC = 0) (hj : Judged e sequence datagram verdict)
    (hverdict : verdict ≠ .ok .exhausted) (buffer : Bytes) :
    later = [] ∧ afterWalk buffer verdict = .inr r := by
  obtain ⟨hfit, quiet, last, heq, hquiet, hends⟩ := h
  have hlen : datagram.length ≤ 1024 := hfit datagram msgFlags (by simp [hlog])
  rcases List.eq_nil_or_concat later with rfl | ⟨init, final, rfl⟩
  · obtain ⟨rfl, hlast⟩ := List.append_inj' (heq.symm.trans hlog) rfl
    cases List.singleton_inj.mp hlast
    refine ⟨rfl, ?_⟩
    cases hends with
    | truncated h => exact absurd hflags h
    | acknowledged _ hj' =>
      cases hj.unique (by omega) hj'
      rfl
    | fault _ hj' =>
      cases hj.unique (by omega) hj'
      rfl
  · -- the event is one of the quiet ones
    have hmem : .received (.ok (datagram, msgFlags)) ∈ quiet := by
      have hinit : quiet = earlier ++ .received (.ok (datagram, msgFlags)) :: init := by
        have hlast : quiet ++ [last] =
            (earlier ++ .received (.ok (datagram, msgFlags)) :: init) ++ [final] := by
          rw [← heq, hlog]
          simp
        exact List.append_inj_left' hlast rfl
      simp [hinit]
    exact absurd (hj.unique (by omega) (hquiet _ hmem).2) hverdict

/-- At every moment, such a datagram is the last event, and the loop was left with its
verdict. -/
theorem checkForAck_judged {p : Prog NetlinkSocket (Bytes ⊕ Except Netlink Unit)}
    (h : During socketKernel (checkForAckTurn e sequence) (.replicate 1024 0) [] p log)
    {earlier later : List SocketEvent} {datagram : Bytes} {msgFlags : UInt32}
    {verdict : Except Netlink Walked}
    (hlog : log = earlier ++ .received (.ok (datagram, msgFlags)) :: later)
    (hflags : msgFlags &&& MSG_TRUNC = 0) (hj : Judged e sequence datagram verdict)
    (hverdict : verdict ≠ .ok .exhausted) (buffer : Bytes) :
    later = [] ∧ p = .done (afterWalk buffer verdict) := by
  rcases checkForAck_moment h with hended | hpending
  · obtain ⟨r, rfl, hended⟩ := hended
    obtain ⟨hlater, hr⟩ := hended.of_judged hlog hflags hj hverdict buffer
    exact ⟨hlater, by rw [hr]⟩
  · obtain ⟨_, hundecided⟩ := hpending
    have hmem : .received (.ok (datagram, msgFlags)) ∈ log := by simp [hlog]
    have hlen := hundecided.fit _ _ hmem
    exact absurd (hj.unique (by omega) (hundecided.quiet _ hmem).2) hverdict

/-- What ends a run well: an acknowledgement, behind nothing but clean messages. -/
theorem LoopEnded.of_ok (h : LoopEnded e sequence (.ok ()) log) :
    ∃ earlier datagram msgFlags, log = earlier ++ [.received (.ok (datagram, msgFlags))] ∧
      msgFlags &&& MSG_TRUNC = 0 ∧ Judged e sequence datagram (.ok .acknowledged) ∧
      ∀ event ∈ earlier, Quiet e sequence event := by
  obtain ⟨_, quiet, last, heq, hquiet, hends⟩ := h
  cases hends with
  | acknowledged hflags hj => exact ⟨quiet, _, _, heq, hflags, hj, hquiet⟩

/-! ## What earlier datagrams left behind -/

/-- Two turns left alike, but for what the buffers hold. -/
abbrev SameResult : Bytes ⊕ Except Netlink Unit → Bytes ⊕ Except Netlink Unit → Prop :=
  Sum.LiftRel (fun buffer buffer' => buffer.length = buffer'.length) (· = ·)

theorem afterReceive_leftovers {buffer buffer' : Bytes} (hlen : buffer.length = buffer'.length)
    (answer : Except Netlink (Option (Bytes × UInt32))) :
    SameResult (afterReceive e sequence buffer answer)
      (afterReceive e sequence buffer' answer) := by
  match answer with
  | .error error => exact .inr rfl
  | .ok none => exact .inl hlen
  | .ok (some (datagram, msgFlags)) =>
    show SameResult (onDatagram _ _ _ _ _) (onDatagram _ _ _ _ _)
    unfold onDatagram
    rw [messagesFrom_received, messagesFrom_received]
    split
    · exact .inr rfl
    · match walkFrom e sequence datagram 0 with
      | .ok .exhausted =>
        refine .inl ?_
        simp only [received, List.length_append, List.length_drop, hlen]
      | .ok .acknowledged => exact .inr rfl
      | .error error => exact .inr rfl

/-- A turn does the same on any two buffers of one length, but for what it leaves in them. -/
theorem checkForAckTurn_leftovers {σ : Type} {K : Kernel NetlinkSocket σ} {buffer buffer' : Bytes}
    (hlen : buffer.length = buffer'.length) {s t : σ} {r : Bytes ⊕ Except Netlink Unit}
    (h : Returns K (checkForAckTurn e sequence buffer) s r t) :
    ∃ r', Returns K (checkForAckTurn e sequence buffer') s r' t ∧ SameResult r r' := by
  unfold checkForAckTurn at h ⊢
  obtain ⟨answer, u, hreceive, hrest⟩ := h.of_bind
  rw [hlen] at hreceive
  obtain ⟨rfl, rfl⟩ := hrest.of_done
  exact ⟨_, hreceive.bind (.refl _ _), afterReceive_leftovers hlen answer⟩

/-- What the buffer holds before a turn is seen by none of the turns that follow. -/
theorem loops_leftovers {σ : Type} {K : Kernel NetlinkSocket σ} {buffer buffer' : Bytes} {s t : σ}
    {r : Except Netlink Unit} (h : Loops K (checkForAckTurn e sequence) buffer s r t)
    (hlen : buffer.length = buffer'.length) :
    Loops K (checkForAckTurn e sequence) buffer' s r t := by
  induction h generalizing buffer' with
  | leave h =>
    obtain ⟨r', h', hsame⟩ := checkForAckTurn_leftovers hlen h
    cases hsame with
    | inr heq => exact .leave (heq ▸ h')
  | again h _ ih =>
    obtain ⟨r', h', hsame⟩ := checkForAckTurn_leftovers hlen h
    cases hsame with
    | inl hlen' => exact .again h' (ih hlen')

end Loop

/-! ## What an acknowledgement means -/

/-- The loads stay inside the received bytes; every datagram is judged, by its own bytes
alone; a run is acknowledged only by an acknowledgement behind nothing but clean messages.
At every moment of a run the loop was left exactly if an event ended it, the first fault
and the first acknowledgement are the last event and have left it with their own results,
and what is left of the turn can return. -/
theorem check_for_ack_exact (e : Endian) (sequence : UInt32) :
    (∀ nRead, (messagesFrom e sequence nRead 0).Calls (Load.Within nRead)) ∧
    (∀ buffer datagram msgFlags, datagram.length ≤ 1024 → msgFlags &&& MSG_TRUNC = 0 →
      ∃ r, Judged e sequence datagram r ∧
        onDatagram e sequence buffer datagram msgFlags =
          afterWalk (received buffer datagram) r) ∧
    (∀ buffer buffer' log r log', buffer.length = buffer'.length →
      Loops socketKernel (checkForAckTurn e sequence) buffer log r log' →
      Loops socketKernel (checkForAckTurn e sequence) buffer' log r log') ∧
    (∀ log, CheckForAck socketKernel e sequence [] (.ok ()) log →
      ∃ earlier datagram msgFlags offset,
        log = earlier ++ [.received (.ok (datagram, msgFlags))] ∧
        CleanTo e sequence datagram offset ∧ offset < datagram.length ∧
        MessageAt e sequence datagram offset .acknowledged ∧
        ∀ datagram' msgFlags', .received (.ok (datagram', msgFlags')) ∈ earlier →
          ∃ offset', CleanTo e sequence datagram' offset' ∧ datagram'.length ≤ offset') ∧
    ∀ p log, During socketKernel (checkForAckTurn e sequence) (.replicate 1024 0) [] p log →
      ((∃ r, p = .done (.inr r)) ↔ ∃ event ∈ log, ¬ Quiet e sequence event) ∧
      (∀ earlier later datagram msgFlags offset,
        log = earlier ++ .received (.ok (datagram, msgFlags)) :: later →
        msgFlags &&& MSG_TRUNC = 0 → CleanTo e sequence datagram offset →
        offset < datagram.length →
        (MessageAt e sequence datagram offset .acknowledged →
          later = [] ∧ p = .done (.inr (.ok ()))) ∧
        ∀ error, MessageAt e sequence datagram offset (.fault error) →
          later = [] ∧ p = .done (.inr (.error error))) ∧
      ∃ r log', Returns socketKernel p log r log' := by
  refine ⟨fun nRead => messagesFrom_calls e sequence nRead 0, ?_, ?_, ?_, ?_⟩
  · intro buffer datagram msgFlags hlen hflags
    have hlen' : datagram.length < 2 ^ 62 := by omega
    obtain ⟨r, hj⟩ := Judged.exists e sequence hlen'
    exact ⟨r, hj, onDatagram_spec buffer hflags hlen' hj⟩
  · intro buffer buffer' log r log' hlen h
    exact loops_leftovers h hlen
  · intro log h
    obtain ⟨earlier, datagram, msgFlags, rfl, _, hj, hquiet⟩ := (checkForAck_ended h).of_ok
    cases hj with
    | acknowledged hclean hlt hm =>
      refine ⟨earlier, datagram, msgFlags, _, rfl, hclean, hlt, hm, ?_⟩
      intro datagram' msgFlags' hmem
      cases (hquiet _ hmem).2 with
      | exhausted hclean' hend => exact ⟨_, hclean', hend⟩
  · intro p log h
    refine ⟨checkForAck_left_iff h, ?_, (checkForAck_live h).can_return⟩
    intro earlier later datagram msgFlags offset hlog hflags hclean hlt
    constructor
    · intro hm
      exact checkForAck_judged h hlog hflags (.acknowledged hclean hlt hm) (fun h => by cases h) []
    · intro error hm
      exact checkForAck_judged h hlog hflags (.fault hclean hlt hm) (fun h => by cases h) []

/-- A message of 17 bytes that is no error, aligned to 20, and an acknowledgement. -/
def acknowledgement (sequence : UInt8) : Bytes :=
  [17, 0, 0, 0, 16, 0, 0, 0, sequence, 0, 0, 0, 0, 0, 0, 0, 7, 0, 0, 0] ++
    ([36, 0, 0, 0, 2, 0, 0, 0, sequence, 0, 0, 0, 0, 0, 0, 0] ++ List.replicate 20 0)

/-- A socket with that one datagram. -/
def acknowledging (sequence : UInt8) : Impl NetlinkSocket (List SocketEvent)
  | log, .ppoll => (.ok 1, log ++ [.polled (.ok 1)])
  | log, .recvmsg len _ =>
    let answer := if len < 56 then .error Errno.INVAL else .ok (acknowledgement sequence, 0)
    (answer, log ++ [.received answer])

theorem acknowledging_socketKernel (sequence : UInt8) (log : List SocketEvent) (op : SocketOp) :
    socketKernel log op (acknowledging sequence log op).1 (acknowledging sequence log op).2 := by
  cases op with
  | ppoll => rfl
  | recvmsg len flags =>
    refine ⟨rfl, fun message h => ?_⟩
    unfold acknowledging at h
    dsimp only at h
    split at h
    · cases h
    · next hlen =>
      cases h
      exact Nat.le_of_not_lt hlen

theorem acknowledgement_judged : Judged .little 5 (acknowledgement 5) (.ok .acknowledged) := by
  have hother : OfSequence .little 5 (acknowledgement 5) 0 False :=
    ⟨⟨by decide, by decide, by decide⟩, by decide, iff_false_intro (by decide)⟩
  have hfull : FullError .little 5 (acknowledgement 5) 20 :=
    ⟨⟨⟨by decide, by decide, by decide⟩, by decide, iff_true_intro (by decide)⟩, by decide⟩
  have hnext : 0 + roundUp4 (headerAt .little (acknowledgement 5) 0).nlmsgLen.toNat = 20 := by
    decide
  have hm : MessageAt .little 5 (acknowledgement 5) 0 (.next 20) := by
    rw [← hnext]
    exact .other hother
  have hclean : CleanTo .little 5 (acknowledgement 5) 20 :=
    .message .start (by decide) hm
  exact .acknowledged hclean (by decide) (.acknowledged hfull (by decide))

/-- An acknowledgement in the same datagram as another message is found. -/
theorem check_for_ack_exact_acknowledged :
    ∃ log, CheckForAck socketKernel .little 5 [] (.ok ()) log ∧
      ∃ earlier datagram msgFlags offset,
        log = earlier ++ [.received (.ok (datagram, msgFlags))] ∧
        CleanTo .little 5 datagram offset ∧ offset < datagram.length ∧
        MessageAt .little 5 datagram offset .acknowledged := by
  let log : List SocketEvent := [.polled (.ok 1), .received (.ok (acknowledgement 5, 0))]
  have hreceive : Returns socketKernel (receive 1024) [] (.ok (some (acknowledgement 5, 0))) log :=
    run_returns (acknowledging_socketKernel 5) 2 rfl
  have hturn : Returns socketKernel (checkForAckTurn .little 5 (.replicate 1024 0)) []
      (onDatagram .little 5 (.replicate 1024 0) (acknowledgement 5) 0) log := by
    unfold checkForAckTurn
    rw [List.length_replicate]
    exact hreceive.bind (.refl _ _)
  rw [onDatagram_spec _ (by decide) (by decide) acknowledgement_judged] at hturn
  have hrun : CheckForAck socketKernel .little 5 [] (.ok ()) log := .leave hturn
  obtain ⟨earlier, datagram, msgFlags, offset, heq, hclean, hlt, hm, _⟩ :=
    (check_for_ack_exact .little 5).2.2.2.1 _ hrun
  exact ⟨log, hrun, earlier, datagram, msgFlags, offset, heq, hclean, hlt, hm⟩

end LayerCake.Meowix
