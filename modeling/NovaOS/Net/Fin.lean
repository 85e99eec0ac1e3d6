import NovaOS.Net.Stream

/-!
# The end of the peer's stream

The peer sends a stream of finitely many bytes and then a FIN, which has a sequence number of its own.
`handle_tcp` takes data only in sequence, but it looks at the FIN flag of every segment, wherever the
segment belongs.

* `PlacedAt`, `FinPeer` — what the peer may send: pieces of its stream and the FIN behind it, in any
  order, any number of times, or not at all;
* `FinRespected` — the connection is closed and the FIN acknowledged only when the whole stream was
  accepted, and `tcp_remote_sequence` does not move past it;
* `ExpectedNext` — a FIN that arrives is the next number that is expected, and what was acknowledged
  until then was also accepted;
* `fin_respects_stream` — **under that condition**, every step of every run respects the FIN;
* `early_fin_closes` — without it, a FIN that overtakes the data closes the connection.
-/

namespace NovaOS.Net

open List Nat

/-! ### What a segment does to the connection -/

section Connection

variable {net : Network} {segment : Segment}

theorem connection_closed (net : Network) (hstate : net.tcpState = .closed) :
    (handleSegment segment net).connection = net.connection := by
  simp only [handleSegment]
  split
  · simp only [Network.connection, hstate]
  · rw [if_neg (by rw [hstate]; exact fun h => by cases h.1), if_pos (by rw [hstate]; decide)]

theorem pollFrame_closed (frame : List UInt8) (hstate : net.tcpState = .closed) :
    (pollFrame frame net).connection = net.connection := by
  cases hsegment : acceptedSegment net frame with
  | none => exact pollFrame_none hsegment
  | some segment =>
    rw [pollFrame_some hsegment, connection_closed (countFrame net) hstate]
    rfl

end Connection

/-! ### The peer -/

section Peer

variable (stream : List UInt8) (isn : ℕ)

/-- The segment belongs at place `k` of the stream; its FIN stands behind the last byte. -/
def PlacedAt (segment : Segment) (k : ℕ) : Prop :=
  segment.sequence = (isn + 1 + k) % 2 ^ 32 ∧ k + segment.payload.length ≤ stream.length ∧
    segment.payload = (stream.drop k).take segment.payload.length ∧
    (segment.flags &&& tcpFin ≠ 0 → k + segment.payload.length = stream.length)

/-- A segment of the peer, without RST; a SYN stands alone. -/
def FinPeerSegment (segment : Segment) : Prop :=
  segment.flags &&& tcpRst = 0 ∧
    (segment.flags &&& tcpSyn ≠ 0 → segment.sequence = isn % 2 ^ 32) ∧
    (segment.payload ≠ [] ∨ segment.flags &&& tcpFin ≠ 0 → ∃ k, PlacedAt stream isn segment k)

/-- Every segment that passes the checks was sent by the peer, and a closed connection is not opened
again: that begins another one. -/
def FinPeer (session : Session) : Event → Prop
  | .frame frame => ∀ segment ∈ acceptedSegment session.net frame, FinPeerSegment stream isn segment
  | .connect _ _ _ => session.net.tcpState ≠ .closed
  | _ => True

/-- A FIN is the next number that is expected, before or behind the data of its own segment; what was
acknowledged so far was also accepted, and that data fits into the free part of the receive buffer.
What is taken is less than 2³² numbers away. -/
def ExpectedNext (session : Session) : Event → Prop
  | .frame frame => ∀ segment ∈ acceptedSegment session.net frame,
      session.net.tcpState = .established →
      (segment.flags &&& tcpFin ≠ 0 →
        (segment.sequence = session.net.tcpRemoteSequence ∨
          (segment.sequence + segment.payload.length) % 2 ^ 32 = session.net.tcpRemoteSequence) ∧
        (session.returned ++ session.net.tcpReceiveBuffer).length = session.acknowledged ∧
        (segment.inOrder session.net →
          session.net.tcpReceiveBuffer.length + segment.payload.length ≤ 8192)) ∧
      (segment.inOrder session.net ∨ segment.flags &&& tcpFin ≠ 0 →
        ∃ k, PlacedAt stream isn segment k ∧ session.acknowledged < k + 2 ^ 32 ∧
          k + segment.payload.length < session.acknowledged + 2 ^ 32)
  | _ => True

/-- **The FIN is respected** by one event: an established connection is not moved past the FIN, and it
is closed, or the FIN acknowledged, only when the whole stream was accepted; a closed one stays where it
is. -/
def FinRespected (session : Session) (event : Event) : Prop :=
  (session.net.tcpState = .established →
    (session.step event).acknowledged ≤ stream.length + 1 ∧
      ((session.step event).net.tcpState = .closed ∨
          (session.step event).acknowledged = stream.length + 1 →
        (session.step event).returned ++ (session.step event).net.tcpReceiveBuffer = stream)) ∧
    (session.net.tcpState = .closed →
      (session.step event).net.tcpState = .closed ∧
        (session.step event).net.tcpRemoteSequence = session.net.tcpRemoteSequence)

/-- No more bytes were accepted than acknowledged, and if as many, they are those of the stream. -/
def AcceptedUpTo (session : Session) : Prop :=
  (session.returned ++ session.net.tcpReceiveBuffer).length ≤ session.acknowledged ∧
    ((session.returned ++ session.net.tcpReceiveBuffer).length = session.acknowledged →
      session.returned ++ session.net.tcpReceiveBuffer = stream.take session.acknowledged)

/-- The invariant: nothing has arrived, or what was acknowledged is not more than the stream, or the
connection was closed behind the whole stream. -/
def UpToFin (session : Session) : Prop :=
  (session.net.tcpState = .synSent ∧ session.net.tcpReceiveBuffer = [] ∧ session.returned = [] ∧
      session.acknowledged = 0) ∨
    (session.net.tcpState = .established ∧
      session.net.tcpRemoteSequence = (isn + 1 + session.acknowledged) % 2 ^ 32 ∧
      session.acknowledged ≤ stream.length ∧ AcceptedUpTo stream session) ∨
    (session.net.tcpState = .closed ∧ session.returned ++ session.net.tcpReceiveBuffer = stream)

end Peer

section Run

variable {stream : List UInt8} {isn : ℕ} {session : Session}

theorem AcceptedUpTo.unmoved {next : Session} (h : AcceptedUpTo stream session)
    (hu : Unmoved session next) : AcceptedUpTo stream next := by
  rw [AcceptedUpTo, hu.accepted, hu.acknowledged]
  exact h

/-- What a frame leaves of an established connection: the FIN is only acknowledged behind the whole
stream. -/
def FrameResult (stream : List UInt8) (isn : ℕ) (next : Session) : Prop :=
  (next.net.tcpState = .established ∧
      next.net.tcpRemoteSequence = (isn + 1 + next.acknowledged) % 2 ^ 32 ∧
      next.acknowledged ≤ stream.length ∧ AcceptedUpTo stream next) ∨
    (next.net.tcpState = .closed ∧ next.acknowledged = stream.length + 1 ∧
      next.returned ++ next.net.tcpReceiveBuffer = stream)

/-- **A frame on an established connection.** -/
theorem step_frame_established {frame : List UInt8} (hstate : session.net.tcpState = .established)
    (hremote : session.net.tcpRemoteSequence = (isn + 1 + session.acknowledged) % 2 ^ 32)
    (hle : session.acknowledged ≤ stream.length)
    (haccepted : AcceptedUpTo stream session)
    (hpeer : FinPeer stream isn session (.frame frame))
    (hnext : ExpectedNext stream isn session (.frame frame)) :
    FrameResult stream isn (session.step (.frame frame)) := by
  have hsmall : session.net.tcpRemoteSequence < 2 ^ 32 := by
    rw [hremote]
    exact mod_lt _ (by decide)
  -- a frame that changes nothing
  have hsame : (pollFrame frame session.net).connection = session.net.connection →
      FrameResult stream isn (session.step (.frame frame)) := by
    intro hconnection
    have hu := unmoved_frame (fun hother => absurd hstate hother) hconnection
    left
    rw [hu.state, hu.sequence, hu.acknowledged]
    exact ⟨hstate, hremote, hle, haccepted.unmoved hu⟩
  cases hsegment : acceptedSegment session.net frame with
  | none => exact hsame (pollFrame_none hsegment)
  | some segment =>
    obtain ⟨hrst, -, -⟩ := hpeer segment hsegment
    obtain ⟨hexpected, hplace⟩ := hnext segment hsegment hstate
    have hpoll := pollFrame_established hsegment hstate hrst
    rw [Segment.behind] at hpoll
    by_cases hin : segment.inOrder session.net
    · -- data in sequence: its place is the acknowledged one
      obtain ⟨k, ⟨hsequence, hinside, hpayload, hfinPlace⟩, hold, hnew⟩ := hplace (.inl hin)
      have hk : k = session.acknowledged := by
        have hnumbers := hin.2
        rw [hsequence, hremote] at hnumbers
        omega
      have hbytes : (session.returned ++ session.net.tcpReceiveBuffer).length =
          session.acknowledged → segment.added session.net = segment.payload →
          session.returned ++ (session.net.tcpReceiveBuffer ++ segment.added session.net) =
            stream.take (session.acknowledged + segment.payload.length) := by
        intro hlength hadded
        rw [hadded, ← append_assoc, haccepted.2 hlength, take_add, ← hk, ← hpayload]
      rw [if_pos hin] at hpoll
      by_cases hfin : segment.flags &&& tcpFin ≠ 0
      · have hend := hfinPlace hfin
        obtain ⟨-, hlength, hroom⟩ := hexpected hfin
        have hfits := hroom hin
        rw [if_pos hfin, mod_add_mod, add_assoc] at hpoll
        obtain ⟨hstate', -, hbuffer, hreturned, hacknowledged⟩ :=
          step_frame_moved hstate hsmall (by omega) hpoll
        right
        rw [hbuffer, hreturned, hacknowledged, hbytes hlength
          (by rw [Segment.added, if_pos hin, take_of_length_le (by omega)])]
        exact ⟨hstate', by omega, take_of_length_le (by omega)⟩
      · rw [if_neg hfin] at hpoll
        obtain ⟨hstate', hsequence', hbuffer, hreturned, hacknowledged⟩ :=
          step_frame_moved hstate hsmall (by omega) hpoll
        left
        rw [AcceptedUpTo, hbuffer, hreturned, hacknowledged, hsequence', hremote, mod_add_mod, add_assoc]
        refine ⟨hstate', rfl, by omega, ?_⟩
        -- bytes that do not fit are acknowledged all the same
        have hpart : segment.added session.net <+: segment.payload := by
          rw [Segment.added, if_pos hin]
          exact take_prefix ..
        have hshort := hpart.length_le
        have hold := haccepted.1
        rw [← append_assoc, length_append]
        refine ⟨by omega, fun hlength => ?_⟩
        rw [append_assoc]
        exact hbytes (by omega) (hpart.eq_of_length (by omega))
    · have hadded : segment.added session.net = [] := by rw [Segment.added, if_neg hin]
      rw [if_neg hin, hadded, append_nil] at hpoll
      by_cases hfin : segment.flags &&& tcpFin ≠ 0
      · -- a FIN without new data: its number is the next one, so nothing is missing
        obtain ⟨k, ⟨hsequence, -, -, hfinPlace⟩, hold, hnew⟩ := hplace (.inr hfin)
        have hend := hfinPlace hfin
        have hnumbers : (segment.sequence + segment.payload.length) % 2 ^ 32 =
            session.net.tcpRemoteSequence := by
          rcases (hexpected hfin).1 with hfirst | hbehind
          · have hempty : segment.payload = [] := by
              by_contra hdata
              exact hin ⟨hdata, hfirst⟩
            rw [hempty, length_nil, add_zero, hfirst, mod_eq_of_lt hsmall]
          · exact hbehind
        have hall : session.acknowledged = stream.length := by
          rw [hsequence, hremote, mod_add_mod] at hnumbers
          omega
        rw [if_pos hfin] at hpoll
        obtain ⟨hstate', -, hbuffer, hreturned, hacknowledged⟩ :=
          step_frame_moved hstate hsmall (by decide) hpoll
        right
        rw [hbuffer, hreturned, hacknowledged, haccepted.2 (hexpected hfin).2.1, hall]
        exact ⟨hstate', rfl, take_length⟩
      · rw [if_neg hfin] at hpoll
        refine hsame (hpoll.trans ?_)
        rw [Network.connection, hstate]

theorem FrameResult.upToFin {next : Session} (h : FrameResult stream isn next) :
    UpToFin stream isn next := by
  rcases h with hopen | ⟨hclosed, -, hall⟩
  · exact .inr (.inl hopen)
  · exact .inr (.inr ⟨hclosed, hall⟩)

theorem UpToFin.unmoved {next : Session} (h : UpToFin stream isn session) (hu : Unmoved session next) :
    UpToFin stream isn next := by
  rcases h with ⟨hstate, hempty, hreturned, hzero⟩ | ⟨hstate, hremote, hle, haccepted⟩ | ⟨hstate, hall⟩
  · have hnothing := hu.accepted
    rw [hempty, hreturned, append_nil, append_eq_nil_iff] at hnothing
    exact .inl ⟨hu.state.trans hstate, hnothing.2, hnothing.1, hu.acknowledged.trans hzero⟩
  · right
    left
    rw [hu.state, hu.sequence, hu.acknowledged]
    exact ⟨hstate, hremote, hle, haccepted.unmoved hu⟩
  · exact .inr (.inr ⟨hu.state.trans hstate, hu.accepted.trans hall⟩)

/-- **One frame** keeps the invariant. -/
theorem UpToFin.frame (h : UpToFin stream isn session) {frame : List UInt8}
    (hpeer : FinPeer stream isn session (.frame frame))
    (hnext : ExpectedNext stream isn session (.frame frame)) :
    UpToFin stream isn (session.step (.frame frame)) := by
  rcases id h with ⟨hstate, hempty, hreturned, hstart⟩ | ⟨hstate, hremote, hle, haccepted⟩ |
    ⟨hstate, hall⟩
  · -- the handshake, or nothing
    have hzero : (session.step (.frame frame)).acknowledged = 0 := by
      simp only [Session.step]
      rw [if_neg (by rw [hstate]; decide)]
    have hsame : (pollFrame frame session.net).connection = session.net.connection →
        UpToFin stream isn (session.step (.frame frame)) :=
      fun hconnection => h.unmoved (unmoved_frame (fun _ => hstart) hconnection)
    cases hsegment : acceptedSegment session.net frame with
    | none => exact hsame (pollFrame_none hsegment)
    | some segment =>
      obtain ⟨hrst, hsyn, -⟩ := hpeer segment hsegment
      rcases connection_synSent (countFrame session.net) hstate hrst with
        hsameSegment | ⟨hflag, hopened⟩
      · exact hsame (by rw [pollFrame_some hsegment, hsameSegment]; rfl)
      · rw [← pollFrame_some hsegment] at hopened
        simp only [Network.connection, Prod.mk.injEq] at hopened
        obtain ⟨hopen, hsequence, hbuffer⟩ := hopened
        refine .inr (.inl ⟨hopen, ?_, ?_, ?_⟩)
        · show (pollFrame frame session.net).tcpRemoteSequence = _
          rw [hsequence, hsyn hflag, hzero, mod_add_mod, add_zero]
        · rw [hzero]
          exact zero_le _
        · have hnothing : (session.step (.frame frame)).returned ++
              (session.step (.frame frame)).net.tcpReceiveBuffer = [] := by
            show session.returned ++ (pollFrame frame session.net).tcpReceiveBuffer = []
            rw [hbuffer, hreturned]
            exact hempty
          rw [AcceptedUpTo, hnothing, hzero]
          exact ⟨le_rfl, fun _ => rfl⟩
  · exact (step_frame_established hstate hremote hle haccepted hpeer hnext).upToFin
  · have hconnection := pollFrame_closed frame hstate
    simp only [Network.connection, Prod.mk.injEq] at hconnection
    refine .inr (.inr ⟨hconnection.1.trans hstate, ?_⟩)
    show session.returned ++ (pollFrame frame session.net).tcpReceiveBuffer = stream
    rw [hconnection.2.2, hall]

/-- **Every event but a frame** leaves the connection where it is. -/
theorem FinPeer.unmoved {event : Event} (hpeer : FinPeer stream isn session event)
    (hframe : ¬ ∃ frame, event = .frame frame) : Unmoved session (session.step event) := by
  refine unmoved_step (fun frame heq => hframe ⟨frame, heq⟩) ?_
  rintro ip port ticks rfl
  exact hpeer

/-- **One event** keeps the invariant. -/
theorem UpToFin.step (h : UpToFin stream isn session) {event : Event}
    (hpeer : FinPeer stream isn session event) (hnext : ExpectedNext stream isn session event) :
    UpToFin stream isn (session.step event) := by
  by_cases hframe : ∃ frame, event = .frame frame
  · obtain ⟨frame, rfl⟩ := hframe
    exact h.frame hpeer hnext
  · exact h.unmoved (hpeer.unmoved hframe)

theorem UpToFin.established (h : UpToFin stream isn session)
    (hstate : session.net.tcpState = .established) :
    session.net.tcpRemoteSequence = (isn + 1 + session.acknowledged) % 2 ^ 32 ∧
      session.acknowledged ≤ stream.length ∧ AcceptedUpTo stream session := by
  rcases h with ⟨hother, -⟩ | ⟨-, hopen⟩ | ⟨hother, -⟩
  · rw [hstate] at hother
    cases hother
  · exact hopen
  · rw [hstate] at hother
    cases hother

theorem UpToFin.respected (h : UpToFin stream isn session) {event : Event}
    (hpeer : FinPeer stream isn session event) (hnext : ExpectedNext stream isn session event) :
    FinRespected stream session event := by
  by_cases hframe : ∃ frame, event = .frame frame
  · obtain ⟨frame, rfl⟩ := hframe
    refine ⟨fun hstate => ?_, fun hstate => ?_⟩
    · obtain ⟨hremote, hle, haccepted⟩ := h.established hstate
      rcases step_frame_established hstate hremote hle haccepted hpeer hnext with
        ⟨hopen, -, hle', -⟩ | ⟨-, hend, hall⟩
      · refine ⟨by omega, ?_⟩
        rintro (hclosed | hpast)
        · rw [hopen] at hclosed
          cases hclosed
        · omega
      · exact ⟨by omega, fun _ => hall⟩
    · have hconnection := pollFrame_closed frame hstate
      simp only [Network.connection, Prod.mk.injEq] at hconnection
      exact ⟨hconnection.1.trans hstate, hconnection.2.1⟩
  · have hu := hpeer.unmoved hframe
    refine ⟨fun hstate => ?_, fun hstate => ⟨hu.state.trans hstate, hu.sequence⟩⟩
    obtain ⟨-, hle, -⟩ := h.established hstate
    refine ⟨by rw [hu.acknowledged]; omega, ?_⟩
    rintro (hclosed | hpast)
    · rw [hu.state, hstate] at hclosed
      cases hclosed
    · rw [hu.acknowledged] at hpast
      omega

theorem UpToFin.start {net : Network} (h : Opening isn net) :
    UpToFin stream isn (Session.start net) := by
  obtain ⟨hempty, hstate | ⟨hstate, hsequence⟩⟩ := h
  · exact .inl ⟨hstate, hempty, rfl, rfl⟩
  · refine .inr (.inl ⟨hstate, hsequence, zero_le _, ?_⟩)
    have hnothing : (Session.start net).returned ++ (Session.start net).net.tcpReceiveBuffer = [] := hempty
    rw [AcceptedUpTo, hnothing]
    exact ⟨le_rfl, fun _ => rfl⟩

/-- **FIN respects the byte stream** as long as every FIN that arrives is the next number that is
expected and no acknowledged byte was dropped before it. -/
theorem fin_respects_stream (stream : List UInt8) (isn : ℕ) (net : Network) (events : List Event)
    (hopening : Opening isn net)
    (hpeer : Along Session.step (FinPeer stream isn) (Session.start net) events)
    (hnext : Along Session.step (ExpectedNext stream isn) (Session.start net) events) :
    Along Session.step (FinRespected stream) (Session.start net) events := by
  have hstep : ∀ (s : Session) (e : Event), UpToFin stream isn s →
      FinPeer stream isn s e ∧ ExpectedNext stream isn s e → UpToFin stream isn (s.step e) :=
    fun s e hs he => hs.step he.1 he.2
  exact Along.imp_of_invariant hstep (fun s e hs he => hs.respected he.1 he.2)
    (UpToFin.start hopening) (hpeer.and hnext)

end Run

/-! ### A FIN that overtakes the data -/

instance (stream : List UInt8) (isn : ℕ) (segment : Segment) (k : ℕ) :
    Decidable (PlacedAt stream isn segment k) :=
  inferInstanceAs (Decidable (_ ∧ _ ∧ _ ∧ _))

/-- A frame of the peer of `bridge`, for place `k` of its stream. -/
def finFrame (k : ℕ) (flags : UInt8) (data : List UInt8) : List UInt8 :=
  ethernetHeader bridge.localMac bridge.gatewayMac etherTypeIpv4 ++
    ipv4Header 7 ipProtocolTcp gatewayIp localIp (20 + data.length) ++
    tcpSegment gatewayIp localIp 7780 50000 (1000 + k) 5 flags data

theorem finPeer_at {stream : List UInt8} {isn : ℕ} {session : Session} {frame : List UInt8} (k : ℕ)
    (h : ∀ segment ∈ acceptedSegment session.net frame, segment.flags &&& tcpRst = 0 ∧
      segment.flags &&& tcpSyn = 0 ∧ PlacedAt stream isn segment k) :
    FinPeer stream isn session (.frame frame) := by
  intro segment hsegment
  obtain ⟨hrst, hsyn, hk⟩ := h segment hsegment
  exact ⟨hrst, fun hset => absurd hsyn hset, fun _ => ⟨k, hk⟩⟩

theorem expectedNext_at {stream : List UInt8} {isn : ℕ} {session : Session} {frame : List UInt8} (k : ℕ)
    (hlength : (session.returned ++ session.net.tcpReceiveBuffer).length = session.acknowledged)
    (h : ∀ segment ∈ acceptedSegment session.net frame,
      session.net.tcpReceiveBuffer.length + segment.payload.length ≤ 8192 ∧
      segment.sequence = session.net.tcpRemoteSequence ∧ PlacedAt stream isn segment k ∧
      session.acknowledged < k + 2 ^ 32 ∧
      k + segment.payload.length < session.acknowledged + 2 ^ 32) :
    ExpectedNext stream isn session (.frame frame) := by
  intro segment hsegment _
  obtain ⟨hroom, hsequence, hk⟩ := h segment hsegment
  exact ⟨fun _ => ⟨.inl hsequence, hlength, fun _ => hroom⟩, fun _ => ⟨k, hk⟩⟩

/-- Three bytes and the FIN, in order. -/
theorem fin_respects_stream_bridge :
    Along Session.step (FinRespected [1, 2, 3]) (Session.start bridge)
      [.frame (finFrame 0 tcpAck [1, 2, 3]), .receive 2, .frame (finFrame 3 (tcpFin ||| tcpAck) [])] :=
  fin_respects_stream [1, 2, 3] 999 bridge _ ⟨rfl, .inr ⟨rfl, rfl⟩⟩
    ⟨finPeer_at 0 (by decide +kernel), trivial, finPeer_at 3 (by decide +kernel), trivial⟩
    ⟨expectedNext_at 0 rfl (by decide +kernel), trivial,
      expectedNext_at 3 (by decide +kernel) (by decide +kernel), trivial⟩

/-- **The FIN arrives and the data does not**: the connection is closed, the number behind the missing
bytes is acknowledged, and nothing was accepted. -/
theorem early_fin_closes :
    ∃ (stream : List UInt8) (isn : ℕ) (net : Network) (events : List Event),
      Opening isn net ∧ Along Session.step (FinPeer stream isn) (Session.start net) events ∧
        ((Session.start net).run events).net.tcpState = .closed ∧
        ((Session.start net).run events).net.tcpReceiveBuffer = [] ∧
        ¬ Along Session.step (FinRespected stream) (Session.start net) events := by
  refine ⟨[1, 2, 3], 999, bridge, [.frame (finFrame 3 (tcpFin ||| tcpAck) [])],
    ⟨rfl, .inr ⟨rfl, rfl⟩⟩, ⟨finPeer_at 3 (by decide +kernel), trivial⟩, by decide +kernel,
    by decide +kernel, ?_⟩
  rintro ⟨⟨hopen, -⟩, -⟩
  have hall := (hopen rfl).2 (.inl (by decide +kernel))
  revert hall
  decide +kernel

end NovaOS.Net
