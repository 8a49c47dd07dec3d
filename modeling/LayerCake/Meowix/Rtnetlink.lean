import Mathlib.Logic.Function.Basic
import LayerCake.Meowix.Linux
import LayerCake.Meowix.NetlinkAck
import LayerCake.Meowix.NetlinkMessage

/-
  The kernel that the requests of `meowix/src/netlink.rs` are made of.

  It is that of `netlink(7)` and `rtnetlink(7)`: a request is read out of the bytes that were sent
  (`requestOf`), carried out (`Request.apply`) or refused, and answered with at most one datagram.
  It may refuse what it likes (`refuses`), lose its answer, and fail any call.

  What is proved: the kernel reads in the messages of the loopback device what they are to ask
  for (`writeAddLoopbackAddress_asks`, `writeBringUpLoopbackDevice_asks`), whatever the buffer
  they are written to held before.
-/

namespace LayerCake.Meowix.Loopback

open LayerCake.Effects LayerCake.Meowix.Message
open LayerCake.Linux (AF_NETLINK NETLINK_ROUTE)

/-! ## The calls -/

inductive Op where
  | socket (domain type protocol : UInt32)
  /-- `ioctl(2)` with `SIOCGIFINDEX`, on an `ifreq` with that name. -/
  | siocgifindex (fd : RawFd) (ifrnName : Bytes)
  /-- `sendto(2)`, to the kernel. -/
  | sendto (fd : RawFd) (message : Bytes) (flags : UInt32)
  | ppoll (fd : RawFd)
  | recvmsg (fd : RawFd) (len : Nat) (flags : UInt32)
  | close (fd : RawFd)
  deriving DecidableEq, Repr

@[reducible] def Calls : Interface where
  Op := Op
  Res
    | .socket _ _ _ => Except Errno RawFd
    | .siocgifindex _ _ => Except Errno UInt32
    | .sendto _ _ _ => Except Errno Nat
    | .ppoll _ => Except Errno Nat
    | .recvmsg _ _ _ => Except Errno (Bytes × UInt32)
    | .close _ => Except Errno Unit

/-! ## The kernel -/

/-- An address of a device. -/
structure Address where
  localAddress : Bytes
  address : Bytes
  prefixlen : UInt8
  flags : UInt8
  scope : UInt8
  deriving DecidableEq, Repr

structure Link where
  addresses : List Address
  flags : UInt32
  deriving DecidableEq, Repr

/-- The devices of a network namespace, by their indices. -/
abbrev Links := UInt32 → Link

/-- What the kernel is asked for. -/
inductive Request where
  | newAddress (index : UInt32) (address : Address)
  | setFlags (index : UInt32) (flags change : UInt32)
  deriving DecidableEq, Repr

/-- The flags that are not to change stay, unless all of them are. -/
def combineFlags (old flags change : UInt32) : UInt32 :=
  if change = 0 then flags else (flags &&& change) ||| (old &&& ~~~change)

def Request.apply (links : Links) : Request → Links
  | .newAddress index address =>
    let link := links index
    Function.update links index { link with addresses := link.addresses ++ [address] }
  | .setFlags index flags change =>
    let link := links index
    Function.update links index { link with flags := combineFlags link.flags flags change }

def readIfaddrmsg (e : Endian) (bytes : Bytes) : Ifaddrmsg where
  ifaFamily := bytes.getD 0 0
  ifaPrefixlen := bytes.getD 1 0
  ifaFlags := bytes.getD 2 0
  ifaScope := bytes.getD 3 0
  ifaIndex := .ofNat (e.value (slice bytes ⟨4, 4⟩))

def readIfinfomsg (e : Endian) (bytes : Bytes) : Ifinfomsg where
  ifiFamily := bytes.getD 0 0
  ifiPad := bytes.getD 1 0
  ifiType := .ofNat (e.value (slice bytes ⟨2, 2⟩))
  ifiIndex := (UInt32.ofNat (e.value (slice bytes ⟨4, 4⟩))).toInt32
  ifiFlags := .ofNat (e.value (slice bytes ⟨8, 4⟩))
  ifiChange := .ofNat (e.value (slice bytes ⟨12, 4⟩))

/-- An address without `IFA_ADDRESS` is that of its own end. -/
def newAddressOf (ifa : Ifaddrmsg) (attributes : List (UInt16 × Bytes)) : Option Request :=
  (attributes.lookup IFA_LOCAL).map fun localAddress =>
    .newAddress ifa.ifaIndex {
      localAddress
      address := (attributes.lookup IFA_ADDRESS).getD localAddress
      prefixlen := ifa.ifaPrefixlen
      flags := ifa.ifaFlags
      scope := ifa.ifaScope }

/-- What a message asks for, where it is understood. -/
def requestOf (e : Endian) (message : Bytes) : Option Request :=
  let header := headerAt e message 0
  if header.nlmsgLen.toNat ≠ message.length ∨ header.nlmsgFlags &&& NLM_F_REQUEST = 0 then none
  else if header.nlmsgType = RTM_NEWADDR then
    let ifa := readIfaddrmsg e (slice message ⟨sizeOfNlmsghdr, 8⟩)
    if ifa.ifaFamily = AF_INET then
      (attributesFrom e message (sizeOfNlmsghdr + 8)).bind (newAddressOf ifa)
    else none
  else if header.nlmsgType = RTM_NEWLINK then
    let ifi := readIfinfomsg e (slice message ⟨sizeOfNlmsghdr, 16⟩)
    (attributesFrom e message (sizeOfNlmsghdr + 16)).map fun _ =>
      .setFlags ifi.ifiIndex.toUInt32 ifi.ifiFlags ifi.ifiChange
  else none

structure Socket where
  domain : UInt32
  protocol : UInt32
  queue : List Bytes
  deriving DecidableEq, Repr

structure NetNamespace where
  /-- The devices by their names, which null bytes fill up. -/
  names : Bytes → Option UInt32
  links : Links
  sockets : RawFd → Option Socket
  /-- What the calls that wait and receive answered since the last request. -/
  answered : List SocketEvent

/-- The datagram says what became of the message: none, or an error. It ends with the message. -/
structure Answers (e : Endian) (message : Bytes) (error : Option Errno) (datagram : Bytes) :
    Prop where
  full : FullError e (headerAt e message 0).nlmsgSeq datagram 0
  error : errorAt e datagram 0 = error.elim 0 fun error => -error.rawOsError
  length : datagram.length ≤ roundUp4 (message.length + sizeOfNlmsgerr)

/-- What the kernel queues: an error is always answered and a success where that is asked for,
unless there is no memory for it. -/
def Replies (e : Endian) (message : Bytes) (error : Option Errno) (replies : List Bytes) : Prop :=
  replies = [] ∨ (error = none → (headerAt e message 0).nlmsgFlags &&& NLM_F_ACK ≠ 0) ∧
    ∃ datagram, replies = [datagram] ∧ Answers e message error datagram

/-- What becomes of the devices. -/
def Serves (refuses : Request → Links → Errno → Prop) (links : Links) (request : Option Request)
    (error : Option Errno) (links' : Links) : Prop :=
  match request, error with
  | some request, none => links' = request.apply links
  | some request, some error => refuses request links error ∧ links' = links
  | none, _ => links' = links

section Kernel
variable (e : Endian) (refuses : Request → Links → Errno → Prop)

def kernel : Kernel Calls NetNamespace
  | s, .socket domain _ protocol, .ok fd, t => s.sockets fd = none ∧
    t = { s with sockets := Function.update s.sockets fd (some ⟨domain, protocol, []⟩) }
  | s, .siocgifindex _ ifrnName, .ok index, t => s.names ifrnName = some index ∧ t = s
  | s, .sendto fd message _, .ok n, t =>
    (n ≠ message.length ∧ t = s) ∨
    n = message.length ∧ ∃ queue links error replies,
      s.sockets fd = some ⟨AF_NETLINK, NETLINK_ROUTE, queue⟩ ∧
      Serves refuses s.links (requestOf e message) error links ∧
      Replies e message error replies ∧
      t = { s with
        links
        sockets := Function.update s.sockets fd
          (some ⟨AF_NETLINK, NETLINK_ROUTE, queue ++ replies⟩)
        answered := [] }
  | s, .ppoll _, r, t => t = { s with answered := s.answered ++ [.polled r] }
  | s, .recvmsg fd len _, .ok (received, msgFlags), t =>
    ∃ domain protocol datagram queue,
      s.sockets fd = some ⟨domain, protocol, datagram :: queue⟩ ∧
      received = datagram.take len ∧ (msgFlags &&& MSG_TRUNC = 0 ↔ datagram.length ≤ len) ∧
      t = { s with
        sockets := Function.update s.sockets fd (some ⟨domain, protocol, queue⟩)
        answered := s.answered ++ [.received (.ok (received, msgFlags))] }
  | s, .recvmsg _ _ _, .error error, t =>
    t = { s with answered := s.answered ++ [.received (.error error)] }
  -- the descriptor is gone, whatever close(2) says
  | s, .close fd, _, t => t = { s with sockets := Function.update s.sockets fd none }
  | s, _, _, t => t = s

end Kernel
/-! ## What the messages ask for -/

section Messages
variable {e : Endian}

theorem readIfaddrmsg_bytes (ifa : Ifaddrmsg) : readIfaddrmsg e (ifa.bytes e) = ifa := by
  have hindex : slice (ifa.bytes e) ⟨4, 4⟩ = e.bytes 4 ifa.ifaIndex.toNat := by
    have h : slice ([ifa.ifaFamily, ifa.ifaPrefixlen, ifa.ifaFlags, ifa.ifaScope] ++
        (e.bytes 4 ifa.ifaIndex.toNat ++ [])) ⟨4, 4⟩ = _ :=
      slice_middle rfl (e.length_bytes 4 ifa.ifaIndex.toNat) []
    rwa [List.append_nil] at h
  unfold readIfaddrmsg
  rw [hindex, e.value_bytes ifa.ifaIndex.toNat_lt, UInt32.ofNat_toNat]
  rfl

theorem readIfinfomsg_bytes (ifi : Ifinfomsg) : readIfinfomsg e (ifi.bytes e) = ifi := by
  have hsplit : ifi.bytes e = [ifi.ifiFamily, ifi.ifiPad] ++ (e.bytes 2 ifi.ifiType.toNat ++
      (e.bytes 4 ifi.ifiIndex.toUInt32.toNat ++ (e.bytes 4 ifi.ifiFlags.toNat ++
      (e.bytes 4 ifi.ifiChange.toNat ++ [])))) := by
    simp [Ifinfomsg.bytes]
  have htype : slice (ifi.bytes e) ⟨2, 2⟩ = e.bytes 2 ifi.ifiType.toNat := by
    rw [hsplit]
    exact slice_middle (by simp) (by simp) _
  have hindex : slice (ifi.bytes e) ⟨4, 4⟩ = e.bytes 4 ifi.ifiIndex.toUInt32.toNat := by
    rw [hsplit, ← List.append_assoc]
    exact slice_middle (by simp) (by simp) _
  have hflags : slice (ifi.bytes e) ⟨8, 4⟩ = e.bytes 4 ifi.ifiFlags.toNat := by
    rw [hsplit, ← List.append_assoc, ← List.append_assoc]
    exact slice_middle (by simp) (by simp) _
  have hchange : slice (ifi.bytes e) ⟨12, 4⟩ = e.bytes 4 ifi.ifiChange.toNat := by
    rw [hsplit, ← List.append_assoc, ← List.append_assoc, ← List.append_assoc]
    exact slice_middle (by simp) (by simp) _
  have hfamily : (ifi.bytes e).getD 0 0 = ifi.ifiFamily := by rw [hsplit]; rfl
  have hpad : (ifi.bytes e).getD 1 0 = ifi.ifiPad := by rw [hsplit]; rfl
  unfold readIfinfomsg
  rw [htype, hindex, hflags, hchange, hfamily, hpad, e.value_bytes ifi.ifiType.toNat_lt,
    e.value_bytes ifi.ifiIndex.toUInt32.toNat_lt, e.value_bytes ifi.ifiFlags.toNat_lt,
    e.value_bytes ifi.ifiChange.toNat_lt]
  simp

theorem length_write {buffer value : Bytes} {offset : Nat} {r : Bytes × Nat}
    (hbuffer : buffer.length < 2 ^ 62) (h : write buffer offset value = .ok r) :
    r.1.length = buffer.length := by
  rw [write_eq (by omega)] at h
  split at h
  · next hfits =>
    cases h
    exact length_overwrite hfits
  · cases h

theorem length_writeAttribute {buffer : Bytes} {offset : Nat} {ty : UInt16} {payload : Bytes}
    {r : Bytes × Nat} (hbuffer : buffer.length < 2 ^ 62)
    (h : writeAttribute e buffer offset ty payload = .ok r) : r.1.length = buffer.length := by
  unfold writeAttribute at h
  dsimp only at h
  rcases hheader : write buffer offset
      (Rtattr.bytes e ⟨.ofNat (sizeOfRtattr + payload.length), ty⟩) with stop | r₁
  · rw [hheader] at h
    cases h
  · have hlen := length_write hbuffer hheader
    rw [hheader] at h
    simp only [bind, Except.bind] at h
    rw [writeBytes_eq (by omega)] at h
    rcases hpayload : write r₁.1 r₁.2 payload with stop | r₂
    · rw [hpayload] at h
      cases h
    · have hlen' := length_write (by omega) hpayload
      rw [hpayload] at h
      dsimp only at h
      split at h
      · cases h
      · split at h
        · cases h
        · cases h
          exact hlen'.trans hlen

theorem length_writeAttributes {attributes : List (UInt16 × Bytes)} {buffer : Bytes} {offset : Nat}
    {r : Bytes × Nat} (hbuffer : buffer.length < 2 ^ 62)
    (h : attributes.foldlM (fun (buffer, offset) (ty, payload) =>
      writeAttribute e buffer offset ty payload) (buffer, offset) = .ok r) :
    r.1.length = buffer.length := by
  induction attributes generalizing buffer offset with
  | nil =>
    cases h
    rfl
  | cons a attributes ih =>
    rw [List.foldlM_cons] at h
    change (writeAttribute e buffer offset a.1 a.2 >>= _) = _ at h
    rcases ha : writeAttribute e buffer offset a.1 a.2 with stop | r₁
    · rw [ha] at h
      cases h
    · have hlen := length_writeAttribute hbuffer ha
      rw [ha] at h
      rw [ih (by omega) h, hlen]

/-- The buffer keeps its length. -/
theorem length_writeMessage {attributes : List (UInt16 × Bytes)} {buffer : Bytes} {offset : Nat}
    {ty flags : UInt16} {sequence : UInt32} {f : Finished} (hbuffer : buffer.length < 2 ^ 62)
    (h : writeMessage e buffer offset attributes ty flags sequence = .ok f) :
    f.buffer.length = buffer.length := by
  unfold writeMessage at h
  rcases hattributes : attributes.foldlM (fun (buffer, offset) (ty, payload) =>
      writeAttribute e buffer offset ty payload) (buffer, offset) with stop | r
  · rw [hattributes] at h
    cases h
  · have hlen := length_writeAttributes hbuffer hattributes
    rw [hattributes] at h
    change finishNetlinkMessage e r.1 r.2 ty flags sequence = _ at h
    unfold finishNetlinkMessage at h
    rcases hheader : write r.1 0 (headerBytes e ⟨.ofNat r.2, ty, flags, sequence, 0⟩) with stop | r'
    · rw [hheader] at h
      cases h
    · have hlen' := length_write (by omega) hheader
      rw [hheader] at h
      simp only [bind, Except.bind] at h
      split at h
      · split at h
        · cases h
          exact hlen'.trans hlen
        · cases h
      · cases h

/-- A message of what the kernel reads, for which there is room. -/
theorem writeBody_ok {body : Bytes} {attributes : List (UInt16 × Bytes)} {ty flags : UInt16}
    {sequence : UInt32} {buffer : Bytes} (hbody : 4 ∣ body.length) (hbuffer : buffer.length ≤ 65535)
    (hsequence : sequence.toNat < 2 ^ 32 - 1)
    (hfits : sizeOfNlmsghdr + body.length + needed attributes ≤ buffer.length) :
    ∃ f, writeBody e buffer body attributes ty flags sequence = .ok f ∧
      Carries e body attributes ty flags sequence f ∧ f.buffer.length = buffer.length ∧
      f.message.length = sizeOfNlmsghdr + body.length + needed attributes := by
  have hroom : sizeOfNlmsghdr + body.length ≤ buffer.length := by omega
  obtain ⟨space, rest, hspace, hlen, hwrite⟩ := write_body hbuffer hroom
  have hfront : (space ++ body).length = sizeOfNlmsghdr + body.length := by
    rw [List.length_append, hspace]
  obtain ⟨f, records, hf, hrecords, hmessage, hcarries⟩ := writeMessage_ok e attributes ty flags
    hspace hbody (hlen ▸ hbuffer) hsequence (by omega)
  refine ⟨f, ?_, hcarries, ?_, ?_⟩
  · unfold writeBody
    rw [hwrite]
    exact hf
  · rw [length_writeMessage (by omega) hf, hlen]
  · rw [hmessage, List.length_append, List.length_append, length_headerBytes,
      length_flatten_records hrecords]

/-- The finished message asks for that. -/
structure Asks (e : Endian) (request : Request) (f : Finished) : Prop where
  request : requestOf e f.message = some request
  acknowledged : (headerAt e f.message 0).nlmsgFlags &&& NLM_F_ACK ≠ 0
  sequence : (headerAt e f.message 0).nlmsgSeq = f.oldSequence
  header : sizeOfNlmsghdr ≤ f.message.length
  length : f.message.length ≤ 64

/-- The address of the loopback device. -/
def loopback : Address where
  localAddress := loopbackAddress
  address := loopbackAddress
  prefixlen := 8
  flags := IFA_F_PERMANENT
  scope := RT_SCOPE_HOST

theorem writeAddLoopbackAddress_asks {buffer : Bytes} (hbuffer : buffer.length = 1024)
    (index : UInt32) {sequence : UInt32} (hsequence : sequence.toNat < 2 ^ 32 - 1) :
    ∃ f, writeAddLoopbackAddress e buffer index sequence = .ok f ∧
      Asks e (.newAddress index loopback) f ∧ f.buffer.length = 1024 ∧
      f.sequence.toNat = sequence.toNat + 1 := by
  have hbody : ((loopbackIfaddrmsg index).bytes e).length = 8 := by simp [Ifaddrmsg.bytes]
  have hneeded : needed [(IFA_LOCAL, loopbackAddress), (IFA_ADDRESS, loopbackAddress)] = 16 := by
    decide
  obtain ⟨f, hf, hcarries, hlen, hmessage⟩ := @writeBody_ok e
    ((loopbackIfaddrmsg index).bytes e)
    [(IFA_LOCAL, loopbackAddress), (IFA_ADDRESS, loopbackAddress)] RTM_NEWADDR
    (NLM_F_REQUEST ||| NLM_F_CREATE ||| NLM_F_EXCL ||| NLM_F_ACK) sequence buffer
    (hbody ▸ ⟨2, rfl⟩) (by omega) hsequence (by rw [hbody, hneeded, hbuffer]; decide)
  have hkept := hcarries.kept
  have hwalked := hcarries.walked
  rw [hbody] at hkept hwalked
  refine ⟨f, (writeAddLoopbackAddress_eq e _ _ _).trans hf, ⟨?_, ?_, ?_, ?_, ?_⟩,
    hlen.trans hbuffer, hcarries.sequence⟩
  · unfold requestOf
    dsimp only
    have hrequest : (NLM_F_REQUEST ||| NLM_F_CREATE ||| NLM_F_EXCL ||| NLM_F_ACK) &&&
        NLM_F_REQUEST ≠ 0 := by decide
    rw [hcarries.flags, hcarries.type, hkept, hwalked, readIfaddrmsg_bytes, ← hcarries.length,
      if_neg (by simp [hrequest])]
    rfl
  · rw [hcarries.flags]
    decide
  · rw [hcarries.headerSequence, hcarries.oldSequence]
  · rw [hmessage, hbody, hneeded]
    decide
  · rw [hmessage, hbody, hneeded]
    decide

theorem writeBringUpLoopbackDevice_asks {buffer : Bytes} (hbuffer : buffer.length = 1024)
    (index : UInt32) {sequence : UInt32} (hsequence : sequence.toNat < 2 ^ 32 - 1) :
    ∃ f, writeBringUpLoopbackDevice e buffer index sequence = .ok f ∧
      Asks e (.setFlags index IFF_UP IFF_UP) f := by
  have hbody : ((loopbackIfinfomsg index).bytes e).length = 16 := by simp [Ifinfomsg.bytes]
  obtain ⟨f, hf, hcarries, hlen, hmessage⟩ := @writeBody_ok e
    ((loopbackIfinfomsg index).bytes e) [] RTM_NEWLINK (NLM_F_REQUEST ||| NLM_F_ACK) sequence buffer
    (hbody ▸ ⟨4, rfl⟩) (by omega) hsequence
    (by rw [hbody, hbuffer]; decide)
  have hkept := hcarries.kept
  have hwalked := hcarries.walked
  rw [hbody] at hkept hwalked
  refine ⟨f, (writeBringUpLoopbackDevice_eq e _ _ _).trans hf, ⟨?_, ?_, ?_, ?_, ?_⟩⟩
  · unfold requestOf
    dsimp only
    have hrequest : (NLM_F_REQUEST ||| NLM_F_ACK) &&& NLM_F_REQUEST ≠ 0 := by decide
    have htype : RTM_NEWLINK ≠ RTM_NEWADDR := by decide
    rw [hcarries.flags, hcarries.type, hkept, hwalked, readIfinfomsg_bytes, ← hcarries.length,
      if_neg (by simp [hrequest]), if_neg htype, if_pos rfl]
    simp [loopbackIfinfomsg]
  · rw [hcarries.flags]
    decide
  · rw [hcarries.headerSequence, hcarries.oldSequence]
  · rw [hmessage, hbody]
    decide
  · rw [hmessage, hbody]
    decide

end Messages

end LayerCake.Meowix.Loopback
