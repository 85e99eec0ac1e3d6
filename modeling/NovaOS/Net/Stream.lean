import NovaOS.Lib.Bytes
import NovaOS.Lib.Runs
import NovaOS.Net.Network

/-!
# What a TCP connection delivers

A session is the network stack together with what `network_tcp_receive` has returned so far and how far
`tcp_remote_sequence` has moved since the connection was established.  Its events are the rounds of
`network_poll` and the calls of the kernel, in any order.

* `FromPeer` — what the peer may send: bytes of its stream, cut anywhere, at most a window of 8192
  bytes beyond the last acknowledgement; frames arrive in any order, any number of times, or not at
  all, and frames that the checks reject are arbitrary;
* `HasRoom` — an in-order segment fits into what is free of the receive buffer, and is not 2³² bytes
  old;
* `acknowledged_bytes_delivered` — under both, what was returned and what is buffered are
  exactly the acknowledged bytes of the stream, in every state of every run.

Without the room the acknowledgement covers bytes that were dropped: the window that is advertised is
always 8192, whatever the buffer holds (`full_buffer_drops_acknowledged`).
-/

namespace NovaOS.Net

open List

structure Session where
  net : Network
  returned : List UInt8
  acknowledged : ℕ

inductive Event
  | frame (frame : List UInt8)
  | arp (ticks : ℕ)
  | receive (capacity : ℕ)
  | send (data : List UInt8)
  | sendUdp (destinationIp destinationPort : ℕ) (data : List UInt8)
  | connect (destinationIp destinationPort ticks : ℕ)

def Session.start (net : Network) : Session := ⟨net, [], 0⟩

/-- One event.  The distance that `tcp_remote_sequence` moves is counted without wrapping. -/
def Session.step (session : Session) : Event → Session
  | .frame frame =>
    let net := pollFrame frame session.net
    { session with
      net := net
      acknowledged :=
        if session.net.tcpState = .established then
          session.acknowledged +
            (net.tcpRemoteSequence + 2 ^ 32 - session.net.tcpRemoteSequence) % 2 ^ 32
        else 0 }
  | .arp ticks => { session with net := pollArp ticks session.net }
  | .receive capacity =>
    match networkTcpReceive capacity session.net with
    | (bytes, net) => { session with net := net, returned := session.returned ++ bytes }
  | .send data => { session with net := (networkTcpSend data session.net).2 }
  | .sendUdp destinationIp destinationPort data =>
    { session with net := (networkSendUdp destinationIp destinationPort data session.net).2 }
  | .connect destinationIp destinationPort ticks =>
    { session with net := (networkTcpConnect destinationIp destinationPort ticks session.net).2 }

def Session.run (session : Session) (events : List Event) : Session :=
  events.foldl Session.step session

/-! ### A poll is a run of frames -/

/-- The frames that a poll with this budget takes of those that wait, and those it leaves: it ends when
the budget is used up, when none is left, and at a frame without bytes, which goes too. -/
def Polled (budget : ℕ) (pending taken rest : List (List UInt8)) : Prop :=
  [] ∉ taken ∧
    (pending = taken ++ rest ∧ (taken.length = budget ∨ taken.length ≤ budget ∧ rest = []) ∨
      pending = taken ++ [] :: rest ∧ taken.length < budget)

/-- The frames that were taken, as events of a session. -/
def frameEvents (taken : List (List UInt8)) : List Event := taken.map fun frame => .frame (frame.take 2048)

theorem pollLoop_run (budget : ℕ) (pending : List (List UInt8)) (session : Session) :
    ∃ taken rest, Polled budget pending taken rest ∧
      pollLoop budget pending session.net = (rest, (session.run (frameEvents taken)).net) := by
  induction budget generalizing pending session with
  | zero => exact ⟨[], pending, ⟨not_mem_nil, .inl ⟨rfl, .inl rfl⟩⟩, rfl⟩
  | succ budget ih =>
    cases pending with
    | nil => exact ⟨[], [], ⟨not_mem_nil, .inl ⟨rfl, .inr ⟨Nat.zero_le _, rfl⟩⟩⟩, rfl⟩
    | cons frame pending =>
      by_cases hempty : (frame.take 2048).length = 0
      · have hframe : frame = [] := by simpa using hempty
        refine ⟨[], pending, ⟨not_mem_nil, .inr ⟨by rw [hframe]; rfl, budget.succ_pos⟩⟩, ?_⟩
        simp only [pollLoop, if_pos hempty]
        rfl
      · obtain ⟨taken, rest, ⟨hbytes, hpolled⟩, hrun⟩ :=
          ih pending (session.step (.frame (frame.take 2048)))
        have hframe : [] ≠ frame := by
          rintro rfl
          exact hempty rfl
        refine ⟨frame :: taken, rest, ⟨not_mem_cons_of_ne_of_not_mem hframe hbytes, ?_⟩, ?_⟩
        · simpa using hpolled
        · simp only [pollLoop, if_neg hempty]
          exact hrun

/-- **`network_poll` is a run of events**: it takes at most 16 frames in the order of their arrival, asks
for the gateway behind them, and leaves the other frames where they are.  Without an adapter it does
nothing. -/
theorem networkPoll_run (ticks : ℕ) (pending : List (List UInt8)) (session : Session) :
    if session.net.adapterReady then
      ∃ taken rest, Polled 16 pending taken rest ∧
        networkPoll ticks pending session.net =
          (rest, (session.run (frameEvents taken ++ [.arp ticks])).net)
    else networkPoll ticks pending session.net = (pending, session.net) := by
  rw [networkPoll]
  cases hready : session.net.adapterReady with
  | false => rfl
  | true =>
    obtain ⟨taken, rest, hpolled, hrun⟩ := pollLoop_run 16 pending session
    refine ⟨taken, rest, hpolled, ?_⟩
    rw [if_neg Bool.noConfusion, hrun, Session.run, Session.run, foldl_append]
    rfl

/-! ### What a call does to the connection -/

/-- The part of the state that the delivery of the stream depends on. -/
def Network.connection (net : Network) : TcpState × ℕ × List UInt8 :=
  (net.tcpState, net.tcpRemoteSequence, net.tcpReceiveBuffer)

section Connection

variable {net : Network} {segment : Segment} {frame : List UInt8}

theorem connection_of_transmit {ok : Bool} {next : Network}
    (h : transmit frame net = (ok, next)) : next.connection = net.connection := by
  rw [transmit] at h
  split at h
  · cases h
    rfl
  · cases h
    rfl

@[simp] theorem connection_transmit (frame : List UInt8) :
    (transmit frame net).2.connection = net.connection := connection_of_transmit rfl

@[simp] theorem connection_sendTcpSegment (flags : UInt8) (data : List UInt8) :
    (sendTcpSegment flags data net).2.connection = net.connection := by
  simp only [sendTcpSegment]
  split
  · rfl
  · split
    · rename_i hsent
      have hkeeps := connection_of_transmit hsent
      exact hkeeps
    · rename_i hsent
      have hkeeps := connection_of_transmit hsent
      exact hkeeps

@[simp] theorem connection_networkTcpSend (data : List UInt8) :
    (networkTcpSend data net).2.connection = net.connection := by
  rw [networkTcpSend]
  split
  · exact connection_sendTcpSegment ..
  · rfl

@[simp] theorem connection_networkSendUdp (destinationIp destinationPort : ℕ) (data : List UInt8) :
    (networkSendUdp destinationIp destinationPort data net).2.connection = net.connection := by
  rw [networkSendUdp]
  split
  · rfl
  · exact connection_transmit ..

@[simp] theorem connection_pollArp (ticks : ℕ) :
    (pollArp ticks net).connection = net.connection := by
  rw [pollArp]
  split
  · exact connection_transmit ..
  · rfl

@[simp] theorem connection_handleArp (frame : List UInt8) :
    (handleArp frame net).connection = net.connection := by
  simp only [handleArp]
  repeat' split
  all_goals first | rfl | exact connection_transmit ..

/-- A connection that is not closed is not opened again. -/
theorem networkTcpConnect_of_open (destinationIp destinationPort ticks : ℕ)
    (h : net.tcpState ≠ .closed) :
    (networkTcpConnect destinationIp destinationPort ticks net).2 = net := by
  rw [networkTcpConnect, if_pos (.inr (.inr h))]

theorem receivedSegment_countFrame : receivedSegment (countFrame net) = receivedSegment net := rfl

/-- The segment that one round of `network_poll` hands to the connection. -/
def acceptedSegment (net : Network) (frame : List UInt8) : Option Segment :=
  if frame.length < 14 ∨ read16 frame 12 ≠ etherTypeIpv4 then none
  else
    match ipv4Payload frame with
    | none => none
    | some (protocol, source, payload) =>
      if protocol = ipProtocolTcp then receivedSegment net source payload else none

/-- A frame without an accepted segment leaves the connection alone. -/
theorem pollFrame_none (h : acceptedSegment net frame = none) :
    (pollFrame frame net).connection = net.connection := by
  rw [acceptedSegment] at h
  simp only [pollFrame]
  split
  · rfl
  · rename_i hlength
    split
    · exact connection_handleArp ..
    · split
      · rename_i htype
        rw [if_neg (not_or.2 ⟨hlength, not_not.2 htype⟩)] at h
        rw [handleIpv4]
        split
        · rfl
        · rename_i hpayload
          simp only [hpayload] at h
          split
          · rename_i htcp
            rw [if_pos htcp] at h
            rw [handleTcp, receivedSegment_countFrame, h]
            rfl
          · rfl
      · rfl

theorem pollFrame_some
    (h : acceptedSegment net frame = some segment) :
    pollFrame frame net = handleSegment segment (countFrame net) := by
  rw [acceptedSegment] at h
  split at h
  · cases h
  · rename_i hframe
    obtain ⟨hlength, htype⟩ := not_or.1 hframe
    rw [not_not] at htype
    simp only [pollFrame]
    rw [if_neg hlength, if_neg (by rw [htype]; decide), if_pos htype, handleIpv4]
    cases hpayload : ipv4Payload frame with
    | none =>
      rw [hpayload] at h
      cases h
    | some packet =>
      rw [hpayload] at h
      simp only at h ⊢
      split at h
      · rename_i htcp
        rw [if_pos htcp, handleTcp, receivedSegment_countFrame, h]
      · cases h

theorem syn_of_syn_ack {flags : UInt8} (h : flags &&& (tcpSyn ||| tcpAck) = tcpSyn ||| tcpAck) :
    flags &&& tcpSyn ≠ 0 := by
  have hsyn : flags &&& (tcpSyn ||| tcpAck) &&& tcpSyn = tcpSyn := by
    rw [h]
    decide
  rw [UInt8.and_assoc, show (tcpSyn ||| tcpAck) &&& tcpSyn = tcpSyn by decide] at hsyn
  rw [hsyn]
  decide

/-- Data in sequence. -/
def Segment.inOrder (segment : Segment) (net : Network) : Prop :=
  segment.payload ≠ [] ∧ segment.sequence = net.tcpRemoteSequence

instance (segment : Segment) (net : Network) : Decidable (segment.inOrder net) :=
  inferInstanceAs (Decidable (_ ∧ _))

/-- What a segment adds to the receive buffer. -/
def Segment.added (segment : Segment) (net : Network) : List UInt8 :=
  if segment.inOrder net then segment.payload.take (8192 - net.tcpReceiveBuffer.length) else []

/-- `tcp_remote_sequence` behind the data of a segment. -/
def Segment.behind (segment : Segment) (net : Network) : ℕ :=
  if segment.inOrder net then (net.tcpRemoteSequence + segment.payload.length) % 2 ^ 32
  else net.tcpRemoteSequence

theorem connection_payload (net : Network) (segment : Segment) :
    (if 0 < segment.payload.length ∧ segment.sequence = net.tcpRemoteSequence then
        handlePayload segment.payload net else net).connection =
      (net.tcpState, segment.behind net, net.tcpReceiveBuffer ++ segment.added net) := by
  rw [Segment.behind, Segment.added]
  by_cases h : segment.inOrder net
  · rw [if_pos ⟨length_pos_iff.2 h.1, h.2⟩, if_pos h, if_pos h, handlePayload,
      connection_sendTcpSegment, min_comm, ← take_eq_take_min]
    rfl
  · rw [if_neg (fun hin => h ⟨length_pos_iff.1 hin.1, hin.2⟩), if_neg h, if_neg h, append_nil]
    rfl

/-- **An established connection** without RST: the data, and then the FIN wherever it belongs. -/
theorem connection_established (net : Network) (hstate : net.tcpState = .established)
    (hrst : segment.flags &&& tcpRst = 0) :
    (handleSegment segment net).connection =
      if segment.flags &&& tcpFin ≠ 0 then
        (.closed, (segment.behind net + 1) % 2 ^ 32, net.tcpReceiveBuffer ++ segment.added net)
      else (.established, segment.behind net, net.tcpReceiveBuffer ++ segment.added net) := by
  have hpayload := connection_payload net segment
  have hopen : ¬ (net.tcpState = .synSent ∧ segment.flags &&& (tcpSyn ||| tcpAck) = tcpSyn ||| tcpAck ∧
      segment.acknowledgement = net.tcpLocalSequence) := by
    rw [hstate]
    exact fun h => nomatch h.1
  simp only [handleSegment]
  rw [if_neg (not_not.2 hrst), if_neg hopen, if_neg (not_not.2 hstate)]
  generalize (if 0 < segment.payload.length ∧ segment.sequence = net.tcpRemoteSequence then
    handlePayload segment.payload net else net) = next at hpayload ⊢
  simp only [Network.connection, Prod.mk.injEq] at hpayload
  obtain ⟨hstate', hsequence, hbuffer⟩ := hpayload
  by_cases hfin : segment.flags &&& tcpFin ≠ 0
  · rw [if_pos hfin, if_pos hfin]
    have hsent := @connection_sendTcpSegment { next with
      tcpRemoteSequence := (next.tcpRemoteSequence + 1) % 2 ^ 32 } tcpAck []
    simp only [Network.connection, Prod.mk.injEq] at hsent ⊢
    exact ⟨trivial, by rw [hsent.2.1, hsequence], by rw [hsent.2.2, hbuffer]⟩
  · rw [if_neg hfin, if_neg hfin, Network.connection, hstate', hsequence, hbuffer, hstate]

theorem pollFrame_established (h : acceptedSegment net frame = some segment)
    (hstate : net.tcpState = .established) (hrst : segment.flags &&& tcpRst = 0) :
    (pollFrame frame net).connection =
      if segment.flags &&& tcpFin ≠ 0 then
        (.closed, (segment.behind net + 1) % 2 ^ 32, net.tcpReceiveBuffer ++ segment.added net)
      else (.established, segment.behind net, net.tcpReceiveBuffer ++ segment.added net) := by
  rw [pollFrame_some h]
  exact connection_established (countFrame net) hstate hrst

/-- While the connection is being opened, only the handshake counts. -/
theorem connection_synSent (net : Network) (hstate : net.tcpState = .synSent) (hrst : segment.flags &&& tcpRst = 0) :
    (handleSegment segment net).connection = net.connection ∨
      segment.flags &&& tcpSyn ≠ 0 ∧ (handleSegment segment net).connection =
        (.established, (segment.sequence + 1) % 2 ^ 32, net.tcpReceiveBuffer) := by
  simp only [handleSegment]
  rw [if_neg (not_not.2 hrst)]
  split
  · rename_i hsyn
    refine .inr ⟨syn_of_syn_ack hsyn.2.1, ?_⟩
    rw [connection_networkTcpSend, connection_sendTcpSegment]
    rfl
  · rw [if_pos (by rw [hstate]; decide)]
    exact .inl rfl

end Connection

/-! ### What an event does to a session -/

section Events

variable {session : Session} {frame : List UInt8}

/-- What the kernel's own calls leave alone. -/
structure Unmoved (session next : Session) : Prop where
  state : next.net.tcpState = session.net.tcpState
  sequence : next.net.tcpRemoteSequence = session.net.tcpRemoteSequence
  acknowledged : next.acknowledged = session.acknowledged
  accepted : next.returned ++ next.net.tcpReceiveBuffer =
    session.returned ++ session.net.tcpReceiveBuffer

theorem unmoved_of_connection {next : Session}
    (hconnection : next.net.connection = session.net.connection)
    (hreturned : next.returned = session.returned)
    (hacknowledged : next.acknowledged = session.acknowledged) : Unmoved session next := by
  simp only [Network.connection, Prod.mk.injEq] at hconnection
  obtain ⟨hstate, hsequence, hbuffer⟩ := hconnection
  exact ⟨hstate, hsequence, hacknowledged, by rw [hreturned, hbuffer]⟩

/-- An event that is not a frame leaves the connection where it is, unless it opens it again. -/
theorem unmoved_step {event : Event} (hframe : ∀ frame, event ≠ .frame frame)
    (hopen : ∀ ip port ticks, event = .connect ip port ticks → session.net.tcpState ≠ .closed) :
    Unmoved session (session.step event) := by
  cases event with
  | frame frame => exact absurd rfl (hframe frame)
  | arp ticks => exact unmoved_of_connection (connection_pollArp ticks) rfl rfl
  | receive capacity =>
    simp only [Session.step, networkTcpReceive]
    split
    · exact ⟨rfl, rfl, rfl, by rw [append_nil]⟩
    · refine ⟨rfl, rfl, rfl, ?_⟩
      rw [append_assoc, take_append_drop]
  | send data => exact unmoved_of_connection (connection_networkTcpSend data) rfl rfl
  | sendUdp ip port data => exact unmoved_of_connection (connection_networkSendUdp ip port data) rfl rfl
  | connect ip port ticks =>
    have hsame := networkTcpConnect_of_open ip port ticks (hopen ip port ticks rfl)
    exact unmoved_of_connection (congrArg Network.connection hsame) rfl rfl

/-- A frame that leaves the connection alone leaves the acknowledged position alone. -/
theorem unmoved_frame
    (hzero : session.net.tcpState ≠ .established → session.acknowledged = 0)
    (hsame : (pollFrame frame session.net).connection = session.net.connection) :
    Unmoved session (session.step (.frame frame)) := by
  have hsequence : (pollFrame frame session.net).tcpRemoteSequence =
      session.net.tcpRemoteSequence := congrArg (fun c => c.2.1) hsame
  refine unmoved_of_connection hsame rfl ?_
  simp only [Session.step]
  split
  · rw [hsequence, Nat.add_sub_cancel_left, Nat.mod_self, Nat.add_zero]
  · rename_i hstate
    rw [hzero hstate]

theorem distance_add {a n : ℕ} (ha : a < 2 ^ 32) (hn : n < 2 ^ 32) :
    ((a + n) % 2 ^ 32 + 2 ^ 32 - a) % 2 ^ 32 = n := by omega

/-- The session after a frame that moves an established connection on by `n` numbers. -/
theorem step_frame_moved {state : TcpState} {n : ℕ} {buffer : List UInt8}
    (hstate : session.net.tcpState = .established) (hremote : session.net.tcpRemoteSequence < 2 ^ 32)
    (hn : n < 2 ^ 32)
    (hnext : (pollFrame frame session.net).connection =
      (state, (session.net.tcpRemoteSequence + n) % 2 ^ 32, buffer)) :
    (session.step (.frame frame)).net.tcpState = state ∧
      (session.step (.frame frame)).net.tcpRemoteSequence =
        (session.net.tcpRemoteSequence + n) % 2 ^ 32 ∧
      (session.step (.frame frame)).net.tcpReceiveBuffer = buffer ∧
      (session.step (.frame frame)).returned = session.returned ∧
      (session.step (.frame frame)).acknowledged = session.acknowledged + n := by
  simp only [Network.connection, Prod.mk.injEq] at hnext
  obtain ⟨hstate', hsequence, hbuffer⟩ := hnext
  refine ⟨hstate', hsequence, hbuffer, rfl, ?_⟩
  simp only [Session.step]
  rw [if_pos hstate, hsequence, distance_add hremote hn]

end Events

/-! ### The peer -/

section Peer

variable (stream : ℕ → UInt8) (isn : ℕ)

/-- The segment carries the bytes of the stream from `k` on, inside the advertised window. -/
def SentAt (session : Session) (segment : Segment) (k : ℕ) : Prop :=
  segment.sequence = (isn + 1 + k) % 2 ^ 32 ∧
    segment.payload = readBytes stream k segment.payload.length ∧
    k + segment.payload.length ≤ session.acknowledged + 8192

/-- A segment of the peer: no FIN or RST, a SYN carries the initial sequence number and no data,
and all other data is a piece of the stream. -/
def PeerSegment (session : Session) (segment : Segment) : Prop :=
  segment.flags &&& tcpFin = 0 ∧ segment.flags &&& tcpRst = 0 ∧
    (segment.flags &&& tcpSyn ≠ 0 → segment.sequence = isn % 2 ^ 32 ∧ segment.payload = []) ∧
    (segment.payload ≠ [] → ∃ k, SentAt stream isn session segment k)

/-- Every segment that passes the checks was sent by the peer. -/
def FromPeer (session : Session) : Event → Prop
  | .frame frame =>
    ∀ segment ∈ acceptedSegment session.net frame, PeerSegment stream isn session segment
  | _ => True

/-- An in-order segment fits into the free part of the receive buffer, and its place in the stream is
less than 2³² bytes behind the acknowledged position. -/
def HasRoom (session : Session) : Event → Prop
  | .frame frame =>
    ∀ segment ∈ acceptedSegment session.net frame, session.net.tcpState = .established →
      segment.payload ≠ [] → segment.sequence = session.net.tcpRemoteSequence →
        session.net.tcpReceiveBuffer.length + segment.payload.length ≤ 8192 ∧
          ∃ k, SentAt stream isn session segment k ∧ session.acknowledged < k + 2 ^ 32
  | _ => True

/-- A connection that was just requested or just established. -/
def Opening (net : Network) : Prop :=
  net.tcpReceiveBuffer = [] ∧
    (net.tcpState = .synSent ∨
      net.tcpState = .established ∧ net.tcpRemoteSequence = (isn + 1) % 2 ^ 32)

/-- **No acknowledged byte is lost.**  What was returned, followed by what is buffered, is the part of
the stream that `tcp_remote_sequence` acknowledges. -/
def Delivered (session : Session) : Prop :=
  session.net.tcpState = .established →
    session.net.tcpRemoteSequence = (isn + 1 + session.acknowledged) % 2 ^ 32 ∧
      session.returned ++ session.net.tcpReceiveBuffer = readBytes stream 0 session.acknowledged

/-- The invariant of a session: the connection is being opened and nothing has arrived, or it is
established and has delivered everything it acknowledged. -/
def InOrder (session : Session) : Prop :=
  session.net.tcpState = .synSent ∧ session.net.tcpReceiveBuffer = [] ∧ session.returned = [] ∧
      session.acknowledged = 0 ∨
    session.net.tcpState = .established ∧ Delivered stream isn session

end Peer

section Delivery

variable {stream : ℕ → UInt8} {isn : ℕ} {session : Session}

section

variable (h : InOrder stream isn session)

include h

theorem InOrder.unmoved {next : Session} (hu : Unmoved session next) : InOrder stream isn next := by
  rcases h with ⟨hstate, hempty, hreturned, hzero⟩ | ⟨hstate, hdelivered⟩
  · have hnothing := hu.accepted
    rw [hempty, hreturned, append_nil, append_eq_nil_iff] at hnothing
    exact .inl ⟨hu.state.trans hstate, hnothing.2, hnothing.1, hu.acknowledged.trans hzero⟩
  · refine .inr ⟨hu.state.trans hstate, fun _ => ?_⟩
    rw [hu.sequence, hu.acknowledged, hu.accepted]
    exact hdelivered hstate

theorem InOrder.not_closed : session.net.tcpState ≠ .closed := by
  rcases h with ⟨hstate, -⟩ | ⟨hstate, -⟩
  · rw [hstate]
    decide
  · rw [hstate]
    decide

theorem InOrder.frame_same {frame : List UInt8}
    (hsame : (pollFrame frame session.net).connection = session.net.connection) :
    InOrder stream isn (session.step (.frame frame)) := by
  refine h.unmoved (unmoved_frame (fun hother => ?_) hsame)
  rcases h with ⟨-, -, -, hzero⟩ | ⟨hstate, -⟩
  · exact hzero
  · exact absurd hstate hother

/-- The handshake: the stream starts behind the initial sequence number. -/
theorem InOrder.frame_syn {frame : List UInt8}
    (hstate : session.net.tcpState = .synSent)
    (hnext : (pollFrame frame session.net).connection =
      (.established, (isn % 2 ^ 32 + 1) % 2 ^ 32, session.net.tcpReceiveBuffer)) :
    InOrder stream isn (session.step (.frame frame)) := by
  obtain ⟨hopen, hsequence, hbuffer⟩ := by
    simpa only [Network.connection, Prod.mk.injEq] using hnext
  rcases h with ⟨-, hempty, hreturned, -⟩ | ⟨hother, -⟩
  · right
    refine ⟨hopen, fun _ => ?_⟩
    simp only [Session.step]
    rw [if_neg (by rw [hstate]; decide), hsequence, hbuffer, hempty, hreturned, Nat.mod_add_mod]
    exact ⟨rfl, rfl⟩
  · rw [hstate] at hother
    cases hother

/-- **A segment that fits.**  Its place in the stream is the acknowledged position, and all of it goes
into the buffer. -/
theorem InOrder.frame_payload {frame : List UInt8}
    {segment : Segment} {k : ℕ} (hstate : session.net.tcpState = .established)
    (hsequence : segment.sequence = session.net.tcpRemoteSequence)
    (hroom : session.net.tcpReceiveBuffer.length + segment.payload.length ≤ 8192)
    (hk : SentAt stream isn session segment k) (hrecent : session.acknowledged < k + 2 ^ 32)
    (hnext : (pollFrame frame session.net).connection =
      (.established, (session.net.tcpRemoteSequence + segment.payload.length) % 2 ^ 32,
        session.net.tcpReceiveBuffer ++
          segment.payload.take (8192 - session.net.tcpReceiveBuffer.length))) :
    InOrder stream isn (session.step (.frame frame)) := by
  rcases h with ⟨hother, -⟩ | ⟨-, hdelivered⟩
  · rw [hstate] at hother
    cases hother
  · obtain ⟨hposition, hbytes⟩ := hdelivered hstate
    obtain ⟨hplace, hpayload, hwindow⟩ := hk
    have hk : k = session.acknowledged := by
      rw [hsequence, hposition] at hplace
      omega
    obtain ⟨hopen, hremote, hbuffer, hreturned, hacknowledged⟩ :=
      step_frame_moved hstate (by omega) (by omega) hnext
    refine .inr ⟨hopen, fun _ => ?_⟩
    rw [hremote, hbuffer, hreturned, hacknowledged, take_of_length_le (by omega),
      ← append_assoc, hbytes, readBytes_add, Nat.zero_add, ← hk, ← hpayload, hposition,
      Nat.mod_add_mod, hk, Nat.add_assoc]
    exact ⟨rfl, rfl⟩

theorem InOrder.frame {frame : List UInt8}
    (hpeer : FromPeer stream isn session (.frame frame))
    (hroom : HasRoom stream isn session (.frame frame)) :
    InOrder stream isn (session.step (.frame frame)) := by
  cases hsegment : acceptedSegment session.net frame with
  | none => exact h.frame_same (pollFrame_none hsegment)
  | some segment =>
    obtain ⟨hfin, hrst, hsyn, -⟩ := hpeer segment hsegment
    have hpoll := pollFrame_some hsegment
    rcases id h with ⟨hstate, -⟩ | ⟨hstate, -⟩
    · rcases connection_synSent (countFrame session.net) hstate hrst with hsame | ⟨hflag, hnext⟩
      · exact h.frame_same (by rw [hpoll, hsame]; rfl)
      · rw [← hpoll, (hsyn hflag).1] at hnext
        exact h.frame_syn hstate hnext
    · have hnext := pollFrame_established hsegment hstate hrst
      rw [if_neg (not_not.2 hfin), Segment.behind, Segment.added] at hnext
      by_cases hin : segment.inOrder session.net
      · obtain ⟨hfits, k, hk, hrecent⟩ := hroom segment hsegment hstate hin.1 hin.2
        rw [if_pos hin, if_pos hin] at hnext
        exact h.frame_payload hstate hin.2 hfits hk hrecent hnext
      · rw [if_neg hin, if_neg hin, append_nil] at hnext
        exact h.frame_same (by rw [hnext, Network.connection, hstate])

/-- **One event.** -/
theorem InOrder.step {event : Event}
    (hpeer : FromPeer stream isn session event) (hroom : HasRoom stream isn session event) :
    InOrder stream isn (session.step event) := by
  by_cases hframe : ∃ frame, event = .frame frame
  · obtain ⟨frame, rfl⟩ := hframe
    exact h.frame hpeer hroom
  · exact h.unmoved (unmoved_step (fun frame heq => hframe ⟨frame, heq⟩) fun _ _ _ _ => h.not_closed)

end

theorem InOrder.start {net : Network} (h : Opening isn net) :
    InOrder stream isn (Session.start net) := by
  obtain ⟨hempty, hstate | ⟨hstate, hsequence⟩⟩ := h
  · exact .inl ⟨hstate, hempty, rfl, rfl⟩
  · right
    refine ⟨hstate, fun _ => ⟨hsequence, ?_⟩⟩
    show [] ++ net.tcpReceiveBuffer = []
    rw [hempty, append_nil]

/-- **TCP receive loses no acknowledged byte** as long as every in-order segment fits into the free
part of the buffer when it arrives: in every state of such a run the bytes returned so far and the
bytes in the buffer are the acknowledged part of the peer's stream. -/
theorem acknowledged_bytes_delivered (stream : ℕ → UInt8) (isn : ℕ) (net : Network)
    (events : List Event) (hopening : Opening isn net)
    (hpeer : Along Session.step (FromPeer stream isn) (Session.start net) events)
    (hroom : Along Session.step (HasRoom stream isn) (Session.start net) events) :
    Delivered stream isn ((Session.start net).run events) := by
  have hstep : ∀ (s : Session) (e : Event), InOrder stream isn s →
      FromPeer stream isn s e ∧ HasRoom stream isn s e → InOrder stream isn (s.step e) :=
    fun s e hs he => hs.step he.1 he.2
  have hrun : InOrder stream isn ((Session.start net).run events) :=
    run_invariant hstep (InOrder.start hopening) (hpeer.and hroom)
  rcases hrun with ⟨hstate, -⟩ | ⟨-, hdelivered⟩
  · intro hopen
    rw [hstate] at hopen
    cases hopen
  · exact hdelivered

end Delivery

/-! ### A connection to the bridge -/

instance (stream : ℕ → UInt8) (isn : ℕ) (session : Session) (segment : Segment) (k : ℕ) :
    Decidable (SentAt stream isn session segment k) :=
  inferInstanceAs (Decidable (_ ∧ _ ∧ _))

/-- An established connection to a peer with initial sequence number 999. -/
def bridge : Network where
  adapter := ⟨true, fun _ => true, 0, []⟩
  localMac := [0x52, 0x54, 0, 0x12, 0x34, 0x56]
  gatewayMac := [0x52, 0x55, 10, 0, 2, 2]
  adapterReady := true
  gatewayReady := true
  sentPackets := 0
  receivedPackets := 0
  lastArpTick := 0
  ipIdentifier := 1
  udpSourcePort := 49152
  tcpState := .established
  tcpDestinationIp := gatewayIp
  tcpDestinationPort := 7780
  tcpLocalPort := 50000
  tcpLocalSequence := 5
  tcpRemoteSequence := 1000
  tcpReceiveBuffer := []

/-- The frame in which the peer of `bridge` sends `n` bytes of its stream of `x`, from `k` on. -/
def bridgeFrame (k n : ℕ) : List UInt8 :=
  ethernetHeader bridge.localMac bridge.gatewayMac etherTypeIpv4 ++
    ipv4Header 7 ipProtocolTcp gatewayIp localIp (20 + n) ++
    tcpSegment gatewayIp localIp 7780 50000 (1000 + k) 5 tcpAck (List.replicate n 0x78)

/-- A data frame of the peer, from its place in the stream. -/
theorem fromPeer_at {stream : ℕ → UInt8} {isn : ℕ} {session : Session} {frame : List UInt8} (k : ℕ)
    (h : ∀ segment ∈ acceptedSegment session.net frame,
      segment.flags = tcpAck ∧ SentAt stream isn session segment k) :
    FromPeer stream isn session (.frame frame) := by
  intro segment hsegment
  obtain ⟨hflags, hk⟩ := h segment hsegment
  rw [PeerSegment, hflags]
  exact ⟨by decide, by decide, fun hsyn => absurd (by decide) hsyn, fun _ => ⟨k, hk⟩⟩

/-- The next data of the peer has room when it fits. -/
theorem hasRoom_next {stream : ℕ → UInt8} {isn : ℕ} {session : Session} {frame : List UInt8}
    (h : ∀ segment ∈ acceptedSegment session.net frame,
      segment.sequence = session.net.tcpRemoteSequence →
        session.net.tcpReceiveBuffer.length + segment.payload.length ≤ 8192 ∧
          SentAt stream isn session segment session.acknowledged) :
    HasRoom stream isn session (.frame frame) := by
  intro segment hsegment _ _ hsequence
  obtain ⟨hfits, hk⟩ := h segment hsegment hsequence
  exact ⟨hfits, session.acknowledged, hk, by omega⟩

/-- Two segments and a duplicate, with a short read in between. -/
theorem acknowledged_bytes_delivered_bridge :
    Delivered (fun _ => 0x78) 999 ((Session.start bridge).run
      [.frame (bridgeFrame 0 3), .receive 2, .frame (bridgeFrame 3 4), .frame (bridgeFrame 0 3)]) :=
  acknowledged_bytes_delivered (fun _ => 0x78) 999 bridge _ ⟨rfl, .inr ⟨rfl, rfl⟩⟩
    ⟨fromPeer_at 0 (by decide +kernel), trivial, fromPeer_at 3 (by decide +kernel),
      fromPeer_at 0 (by decide +kernel), trivial⟩
    ⟨hasRoom_next (by decide +kernel), trivial, hasRoom_next (by decide +kernel),
      hasRoom_next (by decide +kernel), trivial⟩

/-- The frames of a run each carry the next bytes of the stream. -/
def nextFrames (stream : ℕ → UInt8) (isn : ℕ) : Session → List (List UInt8) → Bool
  | _, [] => true
  | session, frame :: frames =>
    decide (∀ segment ∈ acceptedSegment session.net frame,
      segment.flags = tcpAck ∧ SentAt stream isn session segment session.acknowledged) &&
      nextFrames stream isn (session.step (.frame frame)) frames

theorem along_fromPeer_of_nextFrames {stream : ℕ → UInt8} {isn : ℕ} {session : Session}
    {frames : List (List UInt8)} (h : nextFrames stream isn session frames = true) :
    Along Session.step (FromPeer stream isn) session (frames.map Event.frame) := by
  induction frames generalizing session with
  | nil => trivial
  | cons frame frames ih =>
    rw [nextFrames, Bool.and_eq_true, decide_eq_true_eq] at h
    exact ⟨fromPeer_at _ h.1, ih h.2⟩

/-- **The window is not what is free.**  Six full-sized segments that all lie in the advertised window
are acknowledged in full, 8760 bytes, but only 8192 of them are in the buffer. -/
theorem full_buffer_drops_acknowledged :
    ∃ (stream : ℕ → UInt8) (isn : ℕ) (net : Network) (events : List Event),
      Opening isn net ∧ Along Session.step (FromPeer stream isn) (Session.start net) events ∧
        ¬ Delivered stream isn ((Session.start net).run events) := by
  refine ⟨fun _ => 0x78, 999, bridge,
    ((List.range 6).map fun i => bridgeFrame (1460 * i) 1460).map Event.frame,
    ⟨rfl, .inr ⟨rfl, rfl⟩⟩, along_fromPeer_of_nextFrames (by decide +kernel), ?_⟩
  intro h
  generalize hfinal : (Session.start bridge).run _ = final at h
  have hcounts : final.net.tcpState = .established ∧ final.returned.length = 0 ∧
      final.net.tcpReceiveBuffer.length = 8192 ∧ final.acknowledged = 8760 := by
    rw [← hfinal]
    decide +kernel
  obtain ⟨hstate, hreturned, hbuffer, hacknowledged⟩ := hcounts
  have hlength := congrArg List.length (h hstate).2
  rw [length_append, length_readBytes] at hlength
  omega

end NovaOS.Net
