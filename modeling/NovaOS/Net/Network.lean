import NovaOS.Net.Packet

/-!
# The network stack: ARP, IPv4 and one TCP connection

The state of `network.c` and its calls, as the source has them.  `status_text` is left out: nothing but
`network_status` reads it.

* `E1000` — the adapter: `e1000_send` fails when no descriptor becomes free, which `free` decides
  call by call; `sent` collects what went out;
* `tcpReceiveBuffer` — the first `tcp_receive_size` bytes of the array; the rest is never read;
* `receivedSegment` — the checks at the head of `handle_tcp`; `handleSegment` is what follows them;
* `ipv4Payload` — the checks of `handle_ipv4`; both are stated for a machine with any address;
* `pollFrame` — one round of the loop of `network_poll`.
-/

namespace NovaOS.Net

/-- The transmit side of the adapter. -/
structure E1000 where
  available : Bool
  free : ℕ → Bool
  calls : ℕ
  sent : List (List UInt8)

/-- `e1000_send`. -/
def e1000Send (frame : List UInt8) (adapter : E1000) : Bool × E1000 :=
  if adapter.available = false ∨ frame.length < 14 ∨ 2048 < frame.length then (false, adapter)
  else
    let next := { adapter with calls := adapter.calls + 1 }
    if adapter.free adapter.calls then (true, { next with sent := adapter.sent ++ [frame] })
    else (false, next)

inductive TcpState
  | closed
  | synSent
  | established
deriving DecidableEq

structure Network where
  adapter : E1000
  localMac : List UInt8
  gatewayMac : List UInt8
  adapterReady : Bool
  gatewayReady : Bool
  sentPackets : ℕ
  receivedPackets : ℕ
  lastArpTick : ℕ
  ipIdentifier : ℕ
  udpSourcePort : ℕ
  tcpState : TcpState
  tcpDestinationIp : ℕ
  tcpDestinationPort : ℕ
  tcpLocalPort : ℕ
  tcpLocalSequence : ℕ
  tcpRemoteSequence : ℕ
  tcpReceiveBuffer : List UInt8

/-! ### Sending -/

def transmit (frame : List UInt8) (net : Network) : Bool × Network :=
  match e1000Send frame net.adapter with
  | (false, adapter) => (false, { net with adapter := adapter })
  | (true, adapter) =>
    (true, { net with adapter := adapter, sentPackets := (net.sentPackets + 1) % 2 ^ 64 })

/-- The packet of `send_arp_request` and `send_arp_reply`, padded to the 60 bytes they send. -/
def arpFrame (destination localMac : List UInt8) (operation : ℕ) (targetMac : List UInt8)
    (targetIp : ℕ) : List UInt8 :=
  ethernetHeader destination localMac etherTypeArp ++ be16 1 ++ be16 etherTypeIpv4 ++ [6, 4] ++
    be16 operation ++ localMac ++ be32 localIp ++ targetMac ++ be32 targetIp ++
    List.replicate 18 0

def sendArpRequest (ticks : ℕ) (net : Network) : Network :=
  let frame := arpFrame (List.replicate 6 0xFF) net.localMac 1 (List.replicate 6 0) gatewayIp
  { (transmit frame net).2 with lastArpTick := ticks }

/-- `send_arp_reply`, to the sender of a request. -/
def sendArpReply (senderMac : List UInt8) (senderIp : ℕ) (net : Network) : Network :=
  (transmit (arpFrame senderMac net.localMac 2 senderMac senderIp) net).2

/-- The frame of `send_tcp_segment`. -/
def tcpFrame (net : Network) (flags : UInt8) (data : List UInt8) : List UInt8 :=
  ethernetHeader net.gatewayMac net.localMac etherTypeIpv4 ++
    ipv4Header net.ipIdentifier ipProtocolTcp localIp net.tcpDestinationIp (20 + data.length) ++
    tcpSegment localIp net.tcpDestinationIp net.tcpLocalPort net.tcpDestinationPort
      net.tcpLocalSequence net.tcpRemoteSequence flags data

/-- `send_tcp_segment`. -/
def sendTcpSegment (flags : UInt8) (data : List UInt8) (net : Network) : Bool × Network :=
  if net.gatewayReady = false ∨ 1400 < data.length then (false, net)
  else
    let frame := tcpFrame net flags data
    match transmit frame { net with ipIdentifier := (net.ipIdentifier + 1) % 2 ^ 16 } with
    | (false, net) => (false, net)
    | (true, net) =>
      let syn := if flags &&& tcpSyn = 0 then 0 else 1
      let fin := if flags &&& tcpFin = 0 then 0 else 1
      (true, { net with
        tcpLocalSequence := (net.tcpLocalSequence + syn + fin + data.length) % 2 ^ 32 })

/-- `network_send_udp`. -/
def networkSendUdp (destinationIp destinationPort : ℕ) (data : List UInt8) (net : Network) :
    Bool × Network :=
  if net.adapterReady = false ∨ net.gatewayReady = false ∨ 1400 < data.length then (false, net)
  else
    let frame := ethernetHeader net.gatewayMac net.localMac etherTypeIpv4 ++
      ipv4Header net.ipIdentifier ipProtocolUdp localIp destinationIp (8 + data.length) ++
      be16 net.udpSourcePort ++ be16 destinationPort ++ be16 (8 + data.length) ++ be16 0 ++ data
    transmit frame { net with
      ipIdentifier := (net.ipIdentifier + 1) % 2 ^ 16
      udpSourcePort := (net.udpSourcePort + 1) % 2 ^ 16 }

/-! ### The connection -/

/-- `network_tcp_connect`; `ticks` is `scheduler_ticks`. -/
def networkTcpConnect (destinationIp destinationPort ticks : ℕ) (net : Network) : Bool × Network :=
  if net.adapterReady = false ∨ net.gatewayReady = false ∨ net.tcpState ≠ .closed then (false, net)
  else
    let opened := { net with
      tcpDestinationIp := destinationIp
      tcpDestinationPort := destinationPort
      tcpLocalPort := 50000
      tcpLocalSequence := ticks % 2 ^ 32 ^^^ 0x4E4F5641
      tcpRemoteSequence := 0
      tcpReceiveBuffer := []
      tcpState := .synSent }
    match sendTcpSegment tcpSyn [] opened with
    | (true, net) => (true, net)
    | (false, net) => (false, { net with tcpState := .closed })

/-- `network_tcp_send`. -/
def networkTcpSend (data : List UInt8) (net : Network) : Bool × Network :=
  if net.tcpState = .established ∧ data ≠ [] then sendTcpSegment (tcpPsh ||| tcpAck) data net
  else (false, net)

/-- `network_tcp_receive`: the bytes that go to the caller. -/
def networkTcpReceive (capacity : ℕ) (net : Network) : List UInt8 × Network :=
  if capacity = 0 ∨ net.tcpReceiveBuffer.length = 0 then ([], net)
  else
    let copied := min net.tcpReceiveBuffer.length capacity
    (net.tcpReceiveBuffer.take copied,
      { net with tcpReceiveBuffer := net.tcpReceiveBuffer.drop copied })

/-! ### Receiving -/

/-- What `handle_tcp` reads from a segment that passes its checks. -/
structure Segment where
  flags : UInt8
  sequence : ℕ
  acknowledgement : ℕ
  payload : List UInt8

/-- The checks at the head of `handle_tcp`: lengths, ports, peer address and checksum, on a machine
with the address `address`. -/
def receivedSegmentAt (address : ℕ) (net : Network) (source : ℕ) (packet : List UInt8) :
    Option Segment :=
  if packet.length < 20 then none
  else
    let headerSize := byteAt packet 12 / 2 ^ 4 * 4
    if headerSize < 20 ∨ packet.length < headerSize ∨ read16 packet 2 ≠ net.tcpLocalPort ∨
        read16 packet 0 ≠ net.tcpDestinationPort ∨ source ≠ net.tcpDestinationIp then none
    else if tcpChecksum net.tcpDestinationIp address packet (packet.length % 2 ^ 16) ≠ 0 then none
    else some
      { flags := packet.getD 13 0
        sequence := read32 packet 4
        acknowledgement := read32 packet 8
        payload := packet.drop headerSize }

def receivedSegment : Network → ℕ → List UInt8 → Option Segment := receivedSegmentAt localIp

/-- The text of `hello`, `NOVA/1 HELLO` and a newline. -/
def hello : List UInt8 :=
  [0x4E, 0x4F, 0x56, 0x41, 0x2F, 0x31, 0x20, 0x48, 0x45, 0x4C, 0x4C, 0x4F, 0x0A]

/-- The payload of an in-order segment goes into the buffer as far as it fits, and is acknowledged
as a whole. -/
def handlePayload (payload : List UInt8) (net : Network) : Network :=
  let copy := min payload.length (8192 - net.tcpReceiveBuffer.length)
  (sendTcpSegment tcpAck [] { net with
    tcpReceiveBuffer := net.tcpReceiveBuffer ++ payload.take copy
    tcpRemoteSequence := (net.tcpRemoteSequence + payload.length) % 2 ^ 32 }).2

/-- `handle_tcp` behind its checks. -/
def handleSegment (segment : Segment) (net : Network) : Network :=
  if segment.flags &&& tcpRst ≠ 0 then { net with tcpState := .closed }
  else if net.tcpState = .synSent ∧ segment.flags &&& (tcpSyn ||| tcpAck) = tcpSyn ||| tcpAck ∧
      segment.acknowledgement = net.tcpLocalSequence then
    let net := (sendTcpSegment tcpAck [] { net with
      tcpRemoteSequence := (segment.sequence + 1) % 2 ^ 32
      tcpState := .established }).2
    (networkTcpSend hello net).2
  else if net.tcpState ≠ .established then net
  else
    let net :=
      if 0 < segment.payload.length ∧ segment.sequence = net.tcpRemoteSequence then
        handlePayload segment.payload net
      else net
    if segment.flags &&& tcpFin ≠ 0 then
      let net := (sendTcpSegment tcpAck [] { net with
        tcpRemoteSequence := (net.tcpRemoteSequence + 1) % 2 ^ 32 }).2
      { net with tcpState := .closed }
    else net

/-- `handle_tcp`. -/
def handleTcp (source : ℕ) (packet : List UInt8) (net : Network) : Network :=
  match receivedSegment net source packet with
  | none => net
  | some segment => handleSegment segment net

/-- `handle_arp`. -/
def handleArp (frame : List UInt8) (net : Network) : Network :=
  if frame.length < 42 then net
  else
    let arp := frame.drop 14
    if read16 arp 0 ≠ 1 ∨ read16 arp 2 ≠ etherTypeIpv4 ∨ byteAt arp 4 ≠ 6 ∨ byteAt arp 5 ≠ 4 then
      net
    else
      let operation := read16 arp 6
      let senderMac := (arp.drop 8).take 6
      let senderIp := read32 arp 14
      let targetIp := read32 arp 24
      if operation = 2 ∧ senderIp = gatewayIp ∧ targetIp = localIp then
        { net with gatewayMac := senderMac, gatewayReady := true }
      else if operation = 1 ∧ targetIp = localIp then sendArpReply senderMac senderIp net
      else net

/-- The checks of `handle_ipv4` on a machine with the address `address`: protocol, source address and
payload of an accepted packet. -/
def ipv4PayloadAt (address : ℕ) (frame : List UInt8) : Option (ℕ × ℕ × List UInt8) :=
  if frame.length < 34 then none
  else
    let ip := frame.drop 14
    if byteAt ip 0 / 2 ^ 4 ≠ 4 ∨ read32 ip 16 ≠ address then none
    else
      let headerLength := byteAt ip 0 % 2 ^ 4 * 4
      if headerLength < 20 ∨ frame.length < 14 + headerLength then none
      else if internetChecksum (ip.take headerLength) ≠ 0 then none
      else
        let totalLength := read16 ip 2
        if totalLength < headerLength ∨ frame.length - 14 < totalLength then none
        else some (byteAt ip 9, read32 ip 12,
          (ip.drop headerLength).take (totalLength - headerLength))

def ipv4Payload : List UInt8 → Option (ℕ × ℕ × List UInt8) := ipv4PayloadAt localIp

/-- `handle_ipv4`; a UDP packet only changes the status text. -/
def handleIpv4 (frame : List UInt8) (net : Network) : Network :=
  match ipv4Payload frame with
  | none => net
  | some (protocol, source, payload) =>
    if protocol = ipProtocolTcp then handleTcp source payload net else net

/-- `received_packets++`. -/
def countFrame (net : Network) : Network :=
  { net with receivedPackets := (net.receivedPackets + 1) % 2 ^ 64 }

/-- One round of the loop of `network_poll`, on a frame that was received. -/
def pollFrame (frame : List UInt8) (net : Network) : Network :=
  let net := countFrame net
  if frame.length < 14 then net
  else
    let type := read16 frame 12
    if type = etherTypeArp then handleArp frame net
    else if type = etherTypeIpv4 then handleIpv4 frame net
    else net

/-- The loop of `network_poll` over the frames that wait in the receive ring. -/
def pollLoop : ℕ → List (List UInt8) → Network → List (List UInt8) × Network
  | 0, pending, net => (pending, net)
  | _ + 1, [], net => ([], net)
  | budget + 1, frame :: pending, net =>
    let frame := frame.take 2048
    if frame.length = 0 then (pending, net) else pollLoop budget pending (pollFrame frame net)

/-- The end of `network_poll`: the gateway is asked for again. -/
def pollArp (ticks : ℕ) (net : Network) : Network :=
  if net.gatewayReady = false ∧ 100 ≤ (ticks + 2 ^ 64 - net.lastArpTick) % 2 ^ 64 then
    sendArpRequest ticks net
  else net

/-- `network_poll`; what is left in the receive ring comes back with the state. -/
def networkPoll (ticks : ℕ) (pending : List (List UInt8)) (net : Network) :
    List (List UInt8) × Network :=
  if net.adapterReady = false then (pending, net)
  else
    match pollLoop 16 pending net with
    | (pending, net) => (pending, pollArp ticks net)

end NovaOS.Net
