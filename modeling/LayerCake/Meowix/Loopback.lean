import LayerCake.Effects.Procedure
import LayerCake.Meowix.Rtnetlink

/-
  Setting up the loopback device (`setup_loopback` in `meowix/src/netlink.rs`).

  Correspondence (Rust ↔ Lean):
    `syscalls::interface_name_to_index`  ↔ `interfaceNameToIndex`
    `send_message`                       ↔ `sendMessage`
    `check_for_ack`                      ↔ `checkForAck`, the loop of `Meowix.NetlinkAck`
    `setup_loopback`                     ↔ `setupLoopback`
    an `OwnedFd` that goes out of scope  ↔ `close`, behind what it is used for
  The buffer is written twice over, and the sequence number goes on.

  What is proved: what was received of the answers and what still waits are all of them
  (`Awaiting.step`), so that a request ends with the kernel's own answer to it
  (`request_spec`). Whatever the kernel does, the two requests are carried out one after the
  other, as far as they are, and the result says how far (`setup_loopback_exact`).
-/

namespace LayerCake.Meowix.Loopback

open LayerCake.Effects LayerCake.Meowix.Message
open LayerCake.Linux (O_CLOEXEC SOCK_DGRAM AF_NETLINK NETLINK_ROUTE)

/-! ## The client -/

/-- The size of `ifrn_name`. -/
def IFNAMSIZ : Nat := 16

/-- The name, which ends with its null byte, is copied over one of null bytes. -/
def interfaceNameToIndex (fd : RawFd) (ifrName : Bytes) : Prog Calls (Except SyscallError UInt32) :=
  if ifrName.length ≤ IFNAMSIZ then do
    let r ← perform (I := Calls)
      (.siocgifindex fd (overwrite (List.replicate IFNAMSIZ 0) 0 ifrName))
    return wrapSyscall .ioctl r
  else return .error ⟨.ioctl, .INVAL⟩

/-- `c"lo"`. -/
def lo : Bytes := [108, 111, 0]

def loopbackInterfaceIndex : Prog Calls (Except (Stop Netlink) UInt32) := do
  match ← perform (I := Calls) (.socket Linux.AF_INET (SOCK_DGRAM ||| O_CLOEXEC) 0) with
  | .error e => return .error (.error (.syscall ⟨.socket, e⟩))
  | .ok temporarySocket =>
    let index ← interfaceNameToIndex temporarySocket lo
    let _ ← perform (I := Calls) (.close temporarySocket)
    return index.mapError fun e => .error (.syscall e)

def openRtnetlinkSocket : Prog Calls (Except (Stop Netlink) RawFd) := do
  match ← perform (I := Calls) (.socket AF_NETLINK (SOCK_DGRAM ||| O_CLOEXEC) 0) with
  | .ok fd => return .ok fd
  | .error e => return .error (.error (.syscall ⟨.socket, e⟩))

def sendMessage (socket : RawFd) (message : Bytes) : Prog Calls (Except (Stop Netlink) Unit) := do
  match ← performUntil (I := Calls) (.sendto socket message 0) interrupted with
  | .error e => return .error (.error (.syscall ⟨.sendto, e⟩))
  | .ok n =>
    if n ≠ message.length then return .error (.error .incompleteWrite)
    else return .ok ()

/-- The calls of `check_for_ack` are made on the socket. -/
def onSocket (socket : RawFd) : NetlinkSocket.Op → Calls.Op
  | .ppoll => .ppoll socket
  | .recvmsg len flags => .recvmsg socket len flags

def fromSocket (socket : RawFd) : ∀ o, Calls.Res (onSocket socket o) → NetlinkSocket.Res o
  | .ppoll, r => r
  | .recvmsg _ _, r => r

section Client
variable {σ : Type} (K : Kernel Calls σ) (e : Endian)

def checkForAck (socket : RawFd) (sequence : UInt32) : Proc σ (Except (Stop Netlink) Unit) :=
  Proc.seq (Loops K (fun buffer =>
      (checkForAckTurn e sequence buffer).embed (onSocket socket) (fromSocket socket))
    (.replicate 1024 0)) fun r => .pure (r.mapError .error)

/-- A message that was written is sent, and its acknowledgement awaited. -/
def request (socket : RawFd) :
    Except (Stop Netlink) Finished → Proc σ (Except (Stop Netlink) Finished)
  | .error stop => .pure (.error stop)
  | .ok written =>
    Proc.andThen (Returns K (sendMessage socket written.message)) fun _ =>
      (checkForAck K e socket written.oldSequence).andThen fun _ => .pure (.ok written)

def setupLoopback : Proc σ (Except (Stop Netlink) Unit) :=
  Proc.andThen (Returns K loopbackInterfaceIndex) fun index =>
    Proc.andThen (Returns K openRtnetlinkSocket) fun socket =>
      Proc.cleanup
        ((request K e socket (writeAddLoopbackAddress e (.replicate 1024 0) index 0)).andThen
          fun added =>
            (request K e socket
              (writeBringUpLoopbackDevice e added.buffer index added.sequence)).andThen
                fun _ => .pure (.ok ()))
        (Returns K (perform (I := Calls) (.close socket)))

end Client
/-! ## One request -/

/-- The datagram that was received. -/
def datagramOf : SocketEvent → Option Bytes
  | .received (.ok (datagram, _)) => some datagram
  | _ => none

/-- Calls of the loop, on the socket and with the buffer that is there. -/
def OnSocket (fd : RawFd) : Op → Prop
  | .ppoll fd' => fd' = fd
  | .recvmsg fd' len _ => fd' = fd ∧ len = 1024
  | _ => False

/-- The socket of rtnetlink, with that in its queue. -/
def route (queue : List Bytes) : Socket := ⟨AF_NETLINK, NETLINK_ROUTE, queue⟩

/-- What was received of the replies and what still waits are all of them. -/
structure Awaiting (s : NetNamespace) (fd : RawFd) (links : Links) (replies : List Bytes)
    (t : NetNamespace) : Prop where
  names : t.names = s.names
  links : t.links = links
  queue : ∃ queue, t.sockets = Function.update s.sockets fd (some (route queue)) ∧
    t.answered.filterMap datagramOf ++ queue = replies
  whole : ∀ datagram msgFlags, .received (.ok (datagram, msgFlags)) ∈ t.answered →
    msgFlags &&& MSG_TRUNC = 0

/-- The result does not say what became of the request. -/
inductive Unsettled : Stop Netlink → Prop
  | syscall (error : SyscallError) : Unsettled (.error (.syscall error))
  | ackTimeout : Unsettled (.error .ackTimeout)
  | incompleteWrite : Unsettled (.error .incompleteWrite)

section Exchange
variable {e : Endian} {refuses : Request → Links → Errno → Prop} {s t : NetNamespace} {fd : RawFd}
  {links : Links} {replies : List Bytes}

theorem receive_calls (fd : RawFd) {len : Nat} (hlen : len = 1024) :
    ((receive len).embed (onSocket fd) (fromSocket fd)).Calls (OnSocket fd) := by
  refine ⟨rfl, fun r => ?_⟩
  match r with
  | .error _ => trivial
  | .ok nReady =>
    show Prog.Calls _ (Prog.embed _ _ (if nReady = 0 then _ else _))
    split
    · trivial
    · refine ⟨⟨rfl, hlen⟩, fun r => ?_⟩
      match r with
      | .ok _ => trivial
      | .error error =>
        show Prog.Calls _ (Prog.embed _ _ (if error = Errno.AGAIN then _ else _))
        split <;> trivial

theorem checkForAckTurn_calls (fd : RawFd) (sequence : UInt32) {buffer : Bytes}
    (hlen : buffer.length = 1024) :
    ((checkForAckTurn e sequence buffer).embed (onSocket fd) (fromSocket fd)).Calls
      (OnSocket fd) := by
  unfold checkForAckTurn
  rw [Prog.embed_bind]
  exact (receive_calls fd hlen).bind fun _ => trivial

/-- An answer without a datagram. -/
theorem Awaiting.event (h : Awaiting s fd links replies t) {event : SocketEvent}
    (hevent : datagramOf event = none) :
    Awaiting s fd links replies { t with answered := t.answered ++ [event] } := by
  obtain ⟨queue, hsockets, hreplies⟩ := h.queue
  refine ⟨h.names, h.links, ⟨queue, hsockets, ?_⟩, fun datagram msgFlags hmem => ?_⟩
  · simp [hevent, hreplies]
  · rcases List.mem_append.mp hmem with hmem | hmem
    · exact h.whole datagram msgFlags hmem
    · rw [← List.mem_singleton.mp hmem] at hevent
      cases hevent

/-- What the calls of the loop leave of the replies. -/
theorem Awaiting.step (hlen : ∀ datagram ∈ replies, datagram.length ≤ 1024)
    (t : NetNamespace) (op : Op) (r : Calls.Res op) (t' : NetNamespace) (hop : OnSocket fd op)
    (h : Awaiting s fd links replies t) (hk : kernel e refuses t op r t') :
    Awaiting s fd links replies t' := by
  match op, r, hop with
  | .ppoll _, r, _ =>
    have ht' : t' = { t with answered := t.answered ++ [.polled r] } := hk
    rw [ht']
    exact h.event rfl
  | .recvmsg _ _ _, .error error, _ =>
    have ht' : t' = { t with answered := t.answered ++ [.received (.error error)] } := hk
    rw [ht']
    exact h.event rfl
  | .recvmsg _ _ _, .ok (received, msgFlags), ⟨hfd, hbuffer⟩ =>
    subst hfd hbuffer
    obtain ⟨queue, hsockets, hreplies⟩ := h.queue
    obtain ⟨domain, protocol, datagram, rest, hsocket, hreceived, htrunc, rfl⟩ := hk
    rw [hsockets, Function.update_self] at hsocket
    have hqueue : queue = datagram :: rest := (Socket.mk.inj (Option.some.inj hsocket)).2.2
    have hdomain : domain = AF_NETLINK := (Socket.mk.inj (Option.some.inj hsocket)).1.symm
    have hprotocol : protocol = NETLINK_ROUTE := (Socket.mk.inj (Option.some.inj hsocket)).2.1.symm
    subst hqueue hdomain hprotocol
    have hfits : datagram.length ≤ 1024 := hlen datagram (by simp [← hreplies])
    rw [List.take_of_length_le hfits] at hreceived
    subst hreceived
    refine ⟨h.names, h.links, ⟨rest, ?_, ?_⟩, fun datagram' msgFlags' hmem => ?_⟩
    · show Function.update t.sockets _ _ = _
      rw [hsockets, Function.update_idem]
      rfl
    · rw [← hreplies]
      simp [datagramOf]
    · rcases List.mem_append.mp hmem with hmem | hmem
      · exact h.whole datagram' msgFlags' hmem
      · cases List.mem_singleton.mp hmem
        exact htrunc.mpr hfits

/-- An answer is judged by what it says. -/
theorem Answers.judged {message datagram : Bytes} {error : Option Errno}
    (h : Answers e message error datagram) :
    Judged e (headerAt e message 0).nlmsgSeq datagram
      (error.elim (.ok .acknowledged) fun error => .error (.errno error)) := by
  have hlt : 0 < datagram.length := by
    have h := h.full.header
    have : 0 < sizeOfNlmsghdr := by decide
    omega
  have herror := h.error
  cases error with
  | none => exact .acknowledged .start hlt (.acknowledged h.full herror)
  | some error => exact .fault .start hlt (.refused h.full error herror)

/-- What is heard of a request, and what still waits. -/
inductive Heard (error : Option Errno) : Except (Stop Netlink) Unit → List Bytes → Prop
  | acknowledged (h : error = none) : Heard error (.ok ()) []
  | refused {refusal : Errno} (h : error = some refusal) :
      Heard error (.error (.error (.errno refusal))) []
  | unsettled {stop : Stop Netlink} (h : Unsettled stop) (queue : List Bytes) :
      Heard error (.error stop) queue

theorem Heard.of_ended {message : Bytes} {error : Option Errno}
    (hreplies : Replies e message error replies) {r : Except Netlink Unit}
    (hended : LoopEnded e (headerAt e message 0).nlmsgSeq r t.answered)
    {queue : List Bytes} (hqueue : t.answered.filterMap datagramOf ++ queue = replies)
    (hwhole : ∀ datagram msgFlags, .received (.ok (datagram, msgFlags)) ∈ t.answered →
      msgFlags &&& MSG_TRUNC = 0) : Heard error (r.mapError .error) queue := by
  obtain ⟨hfit, earlier, last, heq, -, hends⟩ := hended
  -- a datagram that ended the loop is the one reply
  have hlast : ∀ datagram msgFlags, last = .received (.ok (datagram, msgFlags)) → queue = [] ∧
      Judged e (headerAt e message 0).nlmsgSeq datagram
        (error.elim (.ok .acknowledged) fun error => .error (.errno error)) := by
    intro datagram msgFlags hlast
    subst hlast
    rw [heq, List.filterMap_append] at hqueue
    have hone : earlier.filterMap datagramOf ++ ([datagram] ++ queue) = replies := by
      rw [← hqueue, List.append_assoc]
      rfl
    rcases hreplies with hnone | ⟨_, reply, hreply, hanswers⟩
    · rw [hnone] at hone
      simp at hone
    · rw [hreply] at hone
      have hlen := congrArg List.length hone
      simp only [List.length_append, List.length_singleton] at hlen
      have hearlier : earlier.filterMap datagramOf = [] := List.length_eq_zero_iff.mp (by omega)
      have hempty : queue = [] := List.length_eq_zero_iff.mp (by omega)
      rw [hearlier, hempty] at hone
      have hsame : datagram = reply := by simpa using hone
      rw [hsame]
      exact ⟨hempty, hanswers.judged⟩
  have hsmall : ∀ datagram msgFlags, last = .received (.ok (datagram, msgFlags)) →
      datagram.length < 2 ^ 62 := by
    intro datagram msgFlags hlast
    have := hfit datagram msgFlags (by rw [heq, hlast]; simp)
    omega
  cases hends with
  | pollFailed _ => exact .unsettled (.syscall _) _
  | timedOut => exact .unsettled .ackTimeout _
  | receiveFailed _ _ => exact .unsettled (.syscall _) _
  | @truncated datagram msgFlags htrunc =>
    exact absurd (hwhole datagram msgFlags (by rw [heq]; simp)) htrunc
  | acknowledged _ hj =>
    obtain ⟨hempty, hanswer⟩ := hlast _ _ rfl
    have hsays := hanswer.unique (hsmall _ _ rfl) hj
    subst hempty
    cases error with
    | none => exact .acknowledged rfl
    | some error => cases hsays
  | fault _ hj =>
    obtain ⟨hempty, hanswer⟩ := hlast _ _ rfl
    have hsays := hanswer.unique (hsmall _ _ rfl) hj
    subst hempty
    cases error with
    | none => cases hsays
    | some error =>
      cases hsays
      exact .refused rfl

end Exchange

/-- What comes of a request: what still waits, and the devices. -/
inductive Exchanged {α : Type} (refuses : Request → Links → Errno → Prop) (request : Request)
    (links : Links) : Except (Stop Netlink) α → List Bytes → Links → Prop
  | done (a : α) : Exchanged refuses request links (.ok a) [] (request.apply links)
  | refused {error : Errno} (h : refuses request links error) :
      Exchanged refuses request links (.error (.error (.errno error))) [] links
  | unsettled {stop : Stop Netlink} (h : Unsettled stop) (queue : List Bytes) {links' : Links}
      (h' : links' = links ∨ links' = request.apply links) :
      Exchanged refuses request links (.error stop) queue links'

/-- Of the rest of the namespace only the queue of the socket changes. -/
def Beside (s : NetNamespace) (fd : RawFd) (queue : List Bytes) (t : NetNamespace) : Prop :=
  t.names = s.names ∧ t.sockets = Function.update s.sockets fd (some (route queue))

section Requests
variable {e : Endian} {refuses : Request → Links → Errno → Prop} {s t : NetNamespace} {fd : RawFd}

theorem simulates_socketKernel (fd : RawFd) :
    Simulates (onSocket fd) (fromSocket fd) socketKernel (kernel e refuses) (·.answered) := by
  intro t o r t' hk
  match o, r with
  | .ppoll, r =>
    have ht' : t' = { t with answered := t.answered ++ [.polled r] } := hk
    rw [ht']
    rfl
  | .recvmsg _ _, .error error =>
    have ht' : t' = { t with answered := t.answered ++ [.received (.error error)] } := hk
    rw [ht']
    exact ⟨rfl, fun _ h => by cases h⟩
  | .recvmsg len _, .ok (received, msgFlags) =>
    obtain ⟨_, _, datagram, _, _, hreceived, _, rfl⟩ := hk
    refine ⟨rfl, fun message h => ?_⟩
    cases h
    rw [hreceived, List.length_take]
    exact Nat.min_le_left _ _

theorem Replies.length_le {message : Bytes} {error : Option Errno} {replies : List Bytes}
    (h : Replies e message error replies) (hlen : message.length ≤ 64) :
    ∀ datagram ∈ replies, datagram.length ≤ 1024 := by
  intro datagram hmem
  rcases h with hnone | ⟨_, reply, hreply, hanswers⟩
  · rw [hnone] at hmem
    cases hmem
  · rw [hreply] at hmem
    rw [List.mem_singleton.mp hmem]
    have := hanswers.length
    unfold roundUp4 sizeOfNlmsgerr at this
    omega

/-- A turn of the loop, as the loop and as the kernel see it. -/
theorem checkForAckTurn_awaits {sequence : UInt32} {links : Links} {replies : List Bytes}
    (hlen : ∀ datagram ∈ replies, datagram.length ≤ 1024) {buffer : Bytes}
    (hwaiting : Waiting e sequence buffer t.answered) (hs : Awaiting s fd links replies t) :
    Wp (kernel e refuses) ((checkForAckTurn e sequence buffer).embed (onSocket fd) (fromSocket fd))
      (fun r u => match r with
        | .inl buffer' => Waiting e sequence buffer' u.answered ∧ Awaiting s fd links replies u
        | .inr r => LoopEnded e sequence r u.answered ∧ Awaiting s fd links replies u) t := by
  have hturn := Wp.embed (@simulates_socketKernel e refuses fd)
    (checkForAckTurn_spec hwaiting).wp
  have hkeeps : ∀ u op r v, OnSocket fd op → Awaiting s fd links replies u →
      kernel e refuses u op r v → True ∧ Awaiting s fd links replies v :=
    fun u op r v hop h hk => ⟨trivial, h.step hlen u op r v hop hk⟩
  have hcalls := (@checkForAckTurn_calls e fd sequence buffer hwaiting.length).sat hkeeps hs
  refine ((Sat.and hturn hcalls).weaken fun _ _ _ => trivial).mono fun r u hu => ?_
  cases r with
  | inl buffer' => exact hu
  | inr r => exact hu

theorem checkForAck_spec {message : Bytes} {error : Option Errno} {links : Links}
    {replies : List Bytes} (hreplies : Replies e message error replies)
    (hlen : message.length ≤ 64) (hs : Awaiting s fd links replies t) (hempty : t.answered = []) :
    Ensures (checkForAck (kernel e refuses) e fd (headerAt e message 0).nlmsgSeq)
      (fun r u => ∃ queue, Beside s fd queue u ∧ u.links = links ∧ Heard error r queue) t := by
  have hstart : Waiting e (headerAt e message 0).nlmsgSeq (.replicate 1024 0) t.answered := by
    rw [hempty]
    exact ⟨⟨fun _ _ h => absurd h List.not_mem_nil, fun _ h => absurd h List.not_mem_nil⟩,
      List.length_replicate⟩
  refine Ensures.seq (Ensures.loops (fun buffer u =>
      Waiting e (headerAt e message 0).nlmsgSeq buffer u.answered ∧ Awaiting s fd links replies u)
    (fun buffer u hu => ?_) ⟨hstart, hs⟩)
  refine (checkForAckTurn_awaits (hreplies.length_le hlen) hu.1 hu.2).mono fun r u hu => ?_
  cases r with
  | inl buffer' => exact hu
  | inr r =>
    obtain ⟨queue, hsockets, hqueue⟩ := hu.2.queue
    exact Ensures.pure ⟨queue, ⟨hu.2.names, hsockets⟩, hu.2.links,
      .of_ended hreplies hu.1 hqueue hu.2.whole⟩

/-- A message is sent whole or not at all. -/
theorem sendMessage_spec (message : Bytes) (hs : s.sockets fd = some (route [])) :
    Wp (kernel e refuses) (sendMessage fd message) (fun r t => match r with
      | .error stop => Unsettled stop ∧ t = s
      | .ok _ => ∃ error replies links, Serves refuses s.links (requestOf e message) error links ∧
          Replies e message error replies ∧ t.answered = [] ∧
          Awaiting s fd links replies t) s := by
  refine Wp.bind (Wp.performUntil (· = s) rfl ?_ ?_)
  · intro t r t' ht hk hagain
    subst ht
    cases r with
    | ok n => cases hagain
    | error error => exact hk
  · intro t r t' ht hk _
    subst ht
    cases r with
    | error error => exact wp_done.mpr ⟨.syscall _, hk⟩
    | ok n =>
      show Wp _ (if n ≠ message.length then _ else _) _ _
      rcases hk with ⟨hn, rfl⟩ | ⟨hn, queue, links, error, replies, hsocket, hserves, hreplies, rfl⟩
      · rw [if_pos hn]
        exact wp_done.mpr ⟨.incompleteWrite, rfl⟩
      · rw [if_neg (not_not_intro hn)]
        rw [hs] at hsocket
        have hqueue : queue = [] := (Socket.mk.inj (Option.some.inj hsocket)).2.2.symm
        subst hqueue
        exact wp_done.mpr ⟨error, replies, links, hserves, hreplies, rfl, rfl, rfl,
          ⟨replies, rfl, rfl⟩, fun _ _ h => absurd h List.not_mem_nil⟩

theorem request_spec {asked : Request} {written : Finished} (hasks : Asks e asked written)
    (hs : s.sockets fd = some (route [])) :
    Ensures (request (kernel e refuses) e fd (.ok written)) (fun r t =>
      ∃ queue, Beside s fd queue t ∧ Exchanged refuses asked s.links r queue t.links ∧
        ∀ f, r = .ok f → f = written) s := by
  have hsame : Beside s fd [] s := ⟨rfl, by rw [← hs, Function.update_eq_self]⟩
  refine Ensures.andThen ((sendMessage_spec written.message hs).ensures.mono fun r t ht => ⟨?_, ?_⟩)
  · intro _ hr
    subst hr
    obtain ⟨error, replies, links, hserves, hreplies, hempty, hawaiting⟩ := ht
    rw [hasks.request] at hserves
    rw [← hasks.sequence]
    refine Ensures.andThen ((checkForAck_spec hreplies hasks.length hawaiting hempty).mono
      fun r u hu => ?_)
    obtain ⟨queue, hbeside, hlinks, hheard⟩ := hu
    cases hheard with
    | acknowledged herror =>
      subst herror
      have hdone : links = asked.apply s.links := hserves
      refine ⟨fun _ _ => Ensures.pure ⟨[], hbeside, ?_, fun _ h => (Except.ok.inj h).symm⟩,
        fun _ h => by cases h⟩
      rw [hlinks, hdone]
      exact .done written
    | refused herror =>
      subst herror
      obtain ⟨hrefuses, hstill⟩ := hserves
      refine ⟨fun _ h => (by cases h), fun _ h => ?_⟩
      cases h
      refine ⟨[], hbeside, ?_, fun _ h => by cases h⟩
      rw [hlinks, hstill]
      exact .refused hrefuses
    | unsettled hstop =>
      refine ⟨fun _ h => (by cases h), fun _ h => ?_⟩
      cases h
      refine ⟨queue, hbeside, .unsettled hstop queue ?_, fun _ h => by cases h⟩
      rw [hlinks]
      cases error with
      | none => exact .inr hserves
      | some error => exact .inl hserves.2
  · intro stop hr
    subst hr
    obtain ⟨hstop, rfl⟩ := ht
    exact ⟨[], hsame, .unsettled hstop [] (.inl rfl), fun _ h => by cases h⟩

end Requests

/-! ## The whole set up -/

/-- The name in an `ifreq`. -/
def ifrnLo : Bytes := overwrite (List.replicate IFNAMSIZ 0) 0 lo

/-- The device has the address of the loopback device beside those it had. -/
def withAddress (links : Links) (index : UInt32) : Links :=
  Function.update links index
    { links index with addresses := (links index).addresses ++ [loopback] }

/-- It is up, too. -/
def withAddressUp (links : Links) (index : UInt32) : Links :=
  Function.update links index {
    addresses := (links index).addresses ++ [loopback]
    flags := (links index).flags ||| IFF_UP }

theorem combineFlags_same (old flags : UInt32) (h : flags ≠ 0) :
    combineFlags old flags flags = old ||| flags := by
  unfold combineFlags
  rw [if_neg h]
  apply UInt32.toBitVec_inj.mp
  ext i
  simp
  grind

/-- One request after the other. -/
theorem apply_apply (links : Links) (index : UInt32) :
    (Request.setFlags index IFF_UP IFF_UP).apply
      ((Request.newAddress index loopback).apply links) = withAddressUp links index := by
  simp [Request.apply, withAddressUp, combineFlags_same _ IFF_UP (by decide)]

/-- How far it came. -/
inductive SetUp (refuses : Request → Links → Errno → Prop) (s : NetNamespace) :
    Except (Stop Netlink) Unit → Links → Prop
  | done {index : UInt32} (h : s.names ifrnLo = some index) :
      SetUp refuses s (.ok ()) (withAddressUp s.links index)
  | addressRefused {index : UInt32} {error : Errno} (h : s.names ifrnLo = some index)
      (hrefuses : refuses (.newAddress index loopback) s.links error) :
      SetUp refuses s (.error (.error (.errno error))) s.links
  | flagsRefused {index : UInt32} {error : Errno} (h : s.names ifrnLo = some index)
      (hrefuses : refuses (.setFlags index IFF_UP IFF_UP) (withAddress s.links index) error) :
      SetUp refuses s (.error (.error (.errno error))) (withAddress s.links index)
  | unsettled {stop : Stop Netlink} (hstop : Unsettled stop) {links : Links}
      (h : links = s.links ∨ ∃ index, s.names ifrnLo = some index ∧
        (links = withAddress s.links index ∨ links = withAddressUp s.links index)) :
      SetUp refuses s (.error stop) links

section SetUp
variable {e : Endian} {refuses : Request → Links → Errno → Prop} {s t : NetNamespace}

theorem closed_opened {fd : RawFd} (h : s.sockets fd = none) (socket : Option Socket) :
    Function.update (Function.update s.sockets fd socket) fd none = s.sockets := by
  rw [Function.update_idem, ← h, Function.update_eq_self]

theorem interfaceNameToIndex_spec (fd : RawFd) :
    Wp (kernel e refuses) (interfaceNameToIndex fd lo)
      (fun r t => (∀ index, r = .ok index → s.names ifrnLo = some index) ∧ t = s) s := by
  refine Wp.call fun r t hk => wp_done.mpr ?_
  cases r with
  | ok index =>
    obtain ⟨hname, rfl⟩ := hk
    refine ⟨fun index' h => ?_, rfl⟩
    cases h
    exact hname
  | error error => exact ⟨fun _ h => (by cases h), hk⟩

/-- The socket the index is asked on is gone again. -/
theorem loopbackInterfaceIndex_spec :
    Wp (kernel e refuses) loopbackInterfaceIndex (fun r t => t = s ∧ match r with
      | .ok index => s.names ifrnLo = some index
      | .error stop => Unsettled stop) s := by
  refine Wp.call fun r t hk => ?_
  cases r with
  | error error => exact wp_done.mpr ⟨hk, .syscall _⟩
  | ok fd =>
    obtain ⟨hfresh, rfl⟩ := hk
    show Wp _ (interfaceNameToIndex fd lo >>= _) _ _
    refine Wp.bind ((interfaceNameToIndex_spec fd).mono fun r t ht => ?_)
    obtain ⟨hindex, rfl⟩ := ht
    refine Wp.call fun _ t hk => wp_done.mpr ?_
    have hclosed : t = { s with
        sockets := Function.update (Function.update s.sockets fd
          (some ⟨Linux.AF_INET, 0, []⟩)) fd none } := hk
    rw [closed_opened hfresh] at hclosed
    refine ⟨hclosed, ?_⟩
    cases r with
    | ok index => exact hindex index rfl
    | error error => exact .syscall error

theorem openRtnetlinkSocket_spec :
    Wp (kernel e refuses) openRtnetlinkSocket (fun r t => match r with
      | .ok fd => s.sockets fd = none ∧
          t = { s with sockets := Function.update s.sockets fd (some (route [])) }
      | .error stop => Unsettled stop ∧ t = s) s := by
  refine Wp.call fun r t hk => ?_
  cases r with
  | error error => exact wp_done.mpr ⟨.syscall _, hk⟩
  | ok fd => exact wp_done.mpr hk

/-- The two requests, on a socket with an empty queue. -/
theorem requests_spec {fd : RawFd} {index : UInt32} (hname : s.names ifrnLo = some index)
    (hs : s.sockets fd = some (route [])) :
    Ensures ((request (kernel e refuses) e fd
        (writeAddLoopbackAddress e (.replicate 1024 0) index 0)).andThen fun added =>
      (request (kernel e refuses) e fd
        (writeBringUpLoopbackDevice e added.buffer index added.sequence)).andThen
          fun _ => .pure (.ok ()))
      (fun r t => SetUp refuses s r t.links ∧ ∃ queue, Beside s fd queue t) s := by
  obtain ⟨added, hadded, hasks, hlen, hsequence⟩ :=
    @writeAddLoopbackAddress_asks e (.replicate 1024 0) List.length_replicate index 0 (by decide)
  obtain ⟨up, hup, hasks'⟩ := @writeBringUpLoopbackDevice_asks e added.buffer hlen index
    added.sequence (by rw [hsequence]; decide)
  rw [hadded]
  refine Ensures.andThen ((request_spec hasks hs).mono fun r t ht => ⟨?_, ?_⟩)
  · intro added' hr
    subst hr
    obtain ⟨queue, hbeside, hexchanged, hsame⟩ := ht
    rw [hsame added' rfl, hup]
    generalize hlinks : t.links = links at hexchanged
    cases hexchanged with
    | done _ =>
      have hopen : t.sockets fd = some (route []) := by
        rw [hbeside.2, Function.update_self]
      have hbehind : ∀ {queue u}, Beside t fd queue u → Beside s fd queue u := by
        intro queue u h
        refine ⟨h.1.trans hbeside.1, ?_⟩
        rw [h.2, hbeside.2, Function.update_idem]
      refine Ensures.andThen ((request_spec hasks' hopen).mono fun r u hu => ⟨?_, ?_⟩)
      · intro up' hr
        subst hr
        obtain ⟨queue', hbeside', hexchanged', _⟩ := hu
        generalize hlinks' : u.links = links' at hexchanged'
        cases hexchanged' with
        | done _ =>
          refine Ensures.pure ⟨?_, [], hbehind hbeside'⟩
          rw [hlinks', hlinks, apply_apply]
          exact .done hname
      · intro stop hr
        subst hr
        obtain ⟨queue', hbeside', hexchanged', _⟩ := hu
        refine ⟨?_, queue', hbehind hbeside'⟩
        generalize hlinks' : u.links = links' at hexchanged'
        rw [hlinks] at hexchanged'
        cases hexchanged' with
        | refused hrefuses => exact .flagsRefused hname hrefuses
        | unsettled hstop _ hl =>
          refine .unsettled hstop (.inr ⟨index, hname, ?_⟩)
          rcases hl with rfl | rfl
          · exact .inl rfl
          · exact .inr (apply_apply _ _)
  · intro stop hr
    subst hr
    obtain ⟨queue, hbeside, hexchanged, _⟩ := ht
    refine ⟨?_, queue, hbeside⟩
    generalize hlinks : t.links = links at hexchanged
    cases hexchanged with
    | refused hrefuses => exact .addressRefused hname hrefuses
    | unsettled hstop _ hl =>
      refine .unsettled hstop ?_
      rcases hl with rfl | rfl
      · exact .inl rfl
      · exact .inr ⟨index, hname, .inl rfl⟩

theorem setupLoopback_spec : Ensures (setupLoopback (kernel e refuses) e) (fun r t =>
    SetUp refuses s r t.links ∧ t.names = s.names ∧ t.sockets = s.sockets) s := by
  refine Ensures.andThen (loopbackInterfaceIndex_spec.ensures.mono fun r t ht => ?_)
  obtain ⟨rfl, hindex⟩ := ht
  refine ⟨fun index hr => ?_, fun stop hr => ?_⟩
  · subst hr
    refine Ensures.andThen (openRtnetlinkSocket_spec.ensures.mono fun r u hu => ⟨?_, ?_⟩)
    · intro fd hr
      subst hr
      obtain ⟨hfresh, rfl⟩ := hu
      have hopen := Function.update_self fd (some (route [])) t.sockets
      have hrequests := @requests_spec e refuses
        { t with sockets := Function.update t.sockets fd (some (route [])) } fd index hindex hopen
      refine Ensures.cleanup (hrequests.mono fun r v hv => ?_)
      obtain ⟨hsetup, queue, hnames, hsockets⟩ := hv
      refine (Wp.call fun _ w hk => wp_done.mpr ?_ : Wp _ _ _ _).ensures
      have hclosed : w = { v with sockets := Function.update v.sockets fd none } := hk
      subst hclosed
      refine ⟨?_, hnames, ?_⟩
      · generalize v.links = links at hsetup
        cases hsetup with
        | done h => exact .done h
        | addressRefused h hrefuses => exact .addressRefused h hrefuses
        | flagsRefused h hrefuses => exact .flagsRefused h hrefuses
        | unsettled hstop h => exact .unsettled hstop h
      · show Function.update v.sockets fd none = _
        rw [hsockets, Function.update_idem]
        exact closed_opened hfresh _
    · intro stop hr
      subst hr
      obtain ⟨hstop, rfl⟩ := hu
      exact ⟨.unsettled hstop (.inl rfl), rfl, rfl⟩
  · subst hr
    exact ⟨.unsettled hindex (.inl rfl), rfl, rfl⟩

/-- It never is undefined. -/
theorem SetUp.defined {r : Except (Stop Netlink) Unit} {links : Links}
    (h : SetUp refuses s r links) : r ≠ .error .undefined := by
  cases h with
  | unsettled hstop => cases hstop <;> simp
  | _ => simp

/-- Where it succeeds, the device is there and up. -/
theorem SetUp.up {links : Links} (h : SetUp refuses s (.ok ()) links) :
    ∃ index, s.names ifrnLo = some index ∧ links = withAddressUp s.links index := by
  cases h with
  | done hname => exact ⟨_, hname, rfl⟩

/-- The device has its address and is up where the set up succeeds. Where the kernel refuses one
of the requests, its error is the result, and what came before that request was done. Any other
error is one of the calls, or of an answer that did not come; what the kernel was asked for was
done in order or not at all. No socket stays open. -/
theorem setup_loopback_exact {r : Except (Stop Netlink) Unit}
    (h : setupLoopback (kernel e refuses) e s r t) :
    SetUp refuses s r t.links ∧ t.names = s.names ∧ t.sockets = s.sockets :=
  setupLoopback_spec r t h

end SetUp

/-! ## A run that succeeds -/

/-- The kernel's acknowledgement of a message. -/
def acknowledge (e : Endian) (message : Bytes) : Bytes :=
  headerBytes e ⟨36, 2, 0, (headerAt e message 0).nlmsgSeq, 0⟩ ++
    (e.bytes 4 0 ++ headerBytes e (headerAt e message 0))

/-- What a request leaves that was carried out, and whose acknowledgement was received. -/
def carriedOut (e : Endian) (asked : Request) (message : Bytes) (s : NetNamespace) :
    NetNamespace :=
  { s with
    links := asked.apply s.links
    answered := [.polled (.ok 1), .received (.ok (acknowledge e message, 0))] }

/-- What both of them leave. -/
def broughtUp (e : Endian) (index : UInt32) (s : NetNamespace) : NetNamespace :=
  match writeAddLoopbackAddress e (.replicate 1024 0) index 0 with
  | .ok added =>
    match writeBringUpLoopbackDevice e added.buffer index added.sequence with
    | .ok up =>
      carriedOut e (.setFlags index IFF_UP IFF_UP) up.message
        (carriedOut e (.newAddress index loopback) added.message s)
    | .error _ => s
  | .error _ => s

section Succeeds
variable {e : Endian} {refuses : Request → Links → Errno → Prop} {s : NetNamespace} {fd : RawFd}

theorem acknowledge_answers {message : Bytes} (hlen : sizeOfNlmsghdr ≤ message.length) :
    Answers e message none (acknowledge e message) := by
  have hheader : ∀ header, (headerBytes e header).length = sizeOfNlmsghdr := length_headerBytes e
  have hbytes : (e.bytes 4 0).length = 4 := e.length_bytes 4 0
  have hlength : (acknowledge e message).length = 36 := by
    simp [acknowledge, hheader, hbytes, sizeOfNlmsghdr]
  have hread : headerAt e (acknowledge e message) 0 =
      ⟨36, 2, 0, (headerAt e message 0).nlmsgSeq, 0⟩ := by
    unfold headerAt acknowledge
    rw [slice_left (hheader _), read_headerBytes]
    rfl
  have herror : errorAt e (acknowledge e message) 0 = 0 := by
    have hmiddle : slice (acknowledge e message) ⟨0 + sizeOfNlmsghdr, sizeOfNlmsgerr⟩ =
        e.bytes 4 0 ++ headerBytes e (headerAt e message 0) := by
      have h := slice_middle (hheader ⟨36, 2, 0, (headerAt e message 0).nlmsgSeq, 0⟩)
        (show (e.bytes 4 0 ++ headerBytes e (headerAt e message 0)).length = sizeOfNlmsgerr by
          rw [List.length_append, hheader, hbytes]
          rfl) []
      rwa [List.append_nil] at h
    unfold errorAt Nlmsgerr.read
    rw [hmiddle, slice_left hbytes, e.value_bytes (by decide)]
    rfl
  refine ⟨⟨⟨⟨?_, ?_, ?_⟩, ?_, ?_⟩, ?_⟩, herror, ?_⟩
  · rw [hlength]
    decide
  · rw [hread]
    show sizeOfNlmsghdr ≤ (36 : UInt32).toNat
    decide
  · rw [hread, hlength]
    show 0 + (36 : UInt32).toNat ≤ 36
    decide
  · rw [hread]
  · rw [hread]
    exact iff_true_intro rfl
  · rw [hread]
    show sizeOfNlmsghdr + sizeOfNlmsgerr ≤ (36 : UInt32).toNat
    decide
  · rw [hlength]
    unfold roundUp4 sizeOfNlmsgerr
    have : sizeOfNlmsghdr = 16 := rfl
    omega

/-- A request that the kernel carries out and acknowledges. -/
theorem request_succeeds {asked : Request} {written : Finished} (hasks : Asks e asked written)
    (hs : s.sockets fd = some (route [])) :
    request (kernel e refuses) e fd (.ok written) s (.ok written)
      (carriedOut e asked written.message s) := by
  have hanswers : Answers e written.message none (acknowledge e written.message) :=
    acknowledge_answers hasks.header
  have hlength : (acknowledge e written.message).length ≤ 1024 := by
    have h := hanswers.length
    have hsmall := hasks.length
    unfold roundUp4 sizeOfNlmsgerr at h
    omega
  let sent : NetNamespace := { s with
    links := asked.apply s.links
    sockets := Function.update s.sockets fd (some (route [acknowledge e written.message]))
    answered := [] }
  let polled : NetNamespace := { sent with answered := [.polled (.ok 1)] }
  let heard : NetNamespace := { sent with
    sockets := Function.update sent.sockets fd (some (route []))
    answered := [.polled (.ok 1), .received (.ok (acknowledge e written.message, 0))] }
  have hsend : kernel e refuses s (.sendto fd written.message 0) (.ok written.message.length)
      sent := by
    refine .inr ⟨rfl, [], _, none, [acknowledge e written.message], hs, ?_, ?_, rfl⟩
    · rw [hasks.request]
      rfl
    · exact .inr ⟨fun _ => hasks.acknowledged, _, rfl, hanswers⟩
  have hsent : Returns (kernel e refuses) (sendMessage fd written.message) s (.ok ()) sent := by
    refine .head (.next hsend rfl) ?_
    show Steps _ (if written.message.length ≠ written.message.length then _ else _) _ _ _
    rw [if_neg (not_not_intro rfl)]
    exact .refl _ _
  have hreceive : kernel e refuses polled (.recvmsg fd 1024 MSG_DONTWAIT)
      (.ok (acknowledge e written.message, 0)) heard := by
    refine ⟨AF_NETLINK, NETLINK_ROUTE, acknowledge e written.message, [], ?_, ?_, ?_, rfl⟩
    · exact Function.update_self _ _ _
    · exact (List.take_of_length_le hlength).symm
    · exact iff_of_true rfl hlength
  have hturn : Returns (kernel e refuses)
      ((checkForAckTurn e written.oldSequence (.replicate 1024 0)).embed (onSocket fd)
        (fromSocket fd)) sent (.inr (.ok ())) heard := by
    have hjudged : Judged e written.oldSequence (acknowledge e written.message)
        (.ok .acknowledged) := by
      rw [← hasks.sequence]
      exact hanswers.judged
    have hdatagram : onDatagram e written.oldSequence (.replicate 1024 0)
        (acknowledge e written.message) 0 = .inr (.ok ()) :=
      onDatagram_spec _ (by decide) (by omega) hjudged
    rw [← hdatagram]
    unfold checkForAckTurn
    rw [List.length_replicate]
    have hpoll : kernel e refuses sent (.ppoll fd) (.ok 1) polled := rfl
    exact .head (.next hpoll rfl) (.head (.next hreceive rfl) (.refl _ _))
  have hheard : heard = carriedOut e asked written.message s := by
    show NetNamespace.mk s.names (asked.apply s.links)
      (Function.update (Function.update s.sockets fd _) fd (some (route []))) _ = _
    rw [Function.update_idem, ← hs, Function.update_eq_self]
    rfl
  rw [← hheard]
  exact ⟨.ok (), sent, hsent, .ok (), heard, ⟨.ok (), heard, .leave hturn, rfl, rfl⟩, rfl, rfl⟩

/-- From every state with the device, there is a run that succeeds. -/
theorem setupLoopback_succeeds {index : UInt32} (hname : s.names ifrnLo = some index)
    (hfresh : s.sockets fd = none) :
    setupLoopback (kernel e refuses) e s (.ok ()) (broughtUp e index s) := by
  let opened : NetNamespace := { s with
    sockets := Function.update s.sockets fd (some ⟨Linux.AF_INET, 0, []⟩) }
  let closed : NetNamespace := { s with
    sockets := Function.update opened.sockets fd none }
  let routed : NetNamespace := { closed with
    sockets := Function.update closed.sockets fd (some (route [])) }
  have hindex : Returns (kernel e refuses) loopbackInterfaceIndex s (.ok index) closed := by
    have hopen : kernel e refuses s (.socket Linux.AF_INET (SOCK_DGRAM ||| O_CLOEXEC) 0) (.ok fd)
        opened := ⟨hfresh, rfl⟩
    have hask : kernel e refuses opened (.siocgifindex fd ifrnLo) (.ok index) opened := ⟨hname, rfl⟩
    have hclose : kernel e refuses opened (.close fd) (.ok ()) closed := rfl
    exact .head (.next hopen rfl) (.head (.next hask rfl) (.head (.next hclose rfl) (.refl _ _)))
  have hroute : Returns (kernel e refuses) openRtnetlinkSocket closed (.ok fd) routed := by
    have hopen : kernel e refuses closed (.socket AF_NETLINK (SOCK_DGRAM ||| O_CLOEXEC) 0) (.ok fd)
        routed := ⟨Function.update_self _ _ _, rfl⟩
    exact .head (.next hopen rfl) (.refl _ _)
  obtain ⟨added, hadded, hasks, hlen, hsequence⟩ :=
    @writeAddLoopbackAddress_asks e (.replicate 1024 0) List.length_replicate index 0 (by decide)
  obtain ⟨up, hup, hasks'⟩ := @writeBringUpLoopbackDevice_asks e added.buffer hlen index
    added.sequence (by rw [hsequence]; decide)
  have hopen : routed.sockets fd = some (route []) := Function.update_self _ _ _
  have hadd := @request_succeeds e refuses routed fd _ _ hasks hopen
  have hbring := @request_succeeds e refuses
    (carriedOut e (.newAddress index loopback) added.message routed) fd _ _ hasks' hopen
  have hclosed : Function.update routed.sockets fd none = s.sockets := by
    show Function.update (Function.update closed.sockets fd _) fd none = _
    rw [Function.update_idem]
    show Function.update (Function.update opened.sockets fd none) fd none = _
    rw [Function.update_idem]
    exact closed_opened hfresh _
  have hend : broughtUp e index s =
      { carriedOut e (.setFlags index IFF_UP IFF_UP) up.message
          (carriedOut e (.newAddress index loopback) added.message routed) with
        sockets := Function.update routed.sockets fd none } := by
    unfold broughtUp
    rw [hadded]
    dsimp only
    rw [hup, hclosed]
    rfl
  rw [hend]
  refine ⟨.ok index, closed, hindex, .ok fd, routed, hroute, .ok (),
    carriedOut e (.setFlags index IFF_UP IFF_UP) up.message
      (carriedOut e (.newAddress index loopback) added.message routed), ?_, .ok (), _, ?_, rfl, rfl⟩
  · refine ⟨.ok added, carriedOut e (.newAddress index loopback) added.message routed, ?_,
      .ok up, _, ?_, rfl, rfl⟩
    · rw [hadded]
      exact hadd
    · rw [hup]
      exact hbring
  · exact .head (.next (by rfl) rfl) (.refl _ _)

/-- The first call fails. -/
theorem setupLoopback_fails (error : Errno) :
    setupLoopback (kernel e refuses) e s (.error (.error (.syscall ⟨.socket, error⟩))) s := by
  have hsocket : kernel e refuses s (.socket Linux.AF_INET (SOCK_DGRAM ||| O_CLOEXEC) 0)
      (.error error) s := rfl
  exact ⟨_, s, .head (.next hsocket rfl) (.refl _ _), rfl, rfl⟩

/-- A namespace with its loopback device, which is down. -/
def fresh : NetNamespace where
  names := fun name => if name = ifrnLo then some 1 else none
  links := fun _ => ⟨[], 8⟩
  sockets := fun _ => none
  answered := []

/-- The device of a fresh namespace. -/
theorem setup_loopback_exact_fresh :
    ∃ t, setupLoopback (kernel .little fun _ _ _ => False) .little fresh (.ok ()) t ∧
      SetUp (fun _ _ _ => False) fresh (.ok ()) t.links ∧ t.names = fresh.names ∧
      t.sockets = fresh.sockets := by
  have ht := @setupLoopback_succeeds .little (fun _ _ _ => False) fresh 3 1 rfl rfl
  exact ⟨_, ht, setup_loopback_exact ht⟩

end Succeeds

end LayerCake.Meowix.Loopback
