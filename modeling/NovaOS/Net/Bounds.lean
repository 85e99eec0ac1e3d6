import NovaOS.Lib.Buffer
import NovaOS.Net.Checksums
import Mathlib.Data.Int.Notation

/-!
# The network stack stays inside its buffers

`Net.Network` takes frames apart as lists, of which there is nothing outside.  Here the functions that
`network_poll` runs are written once more with the positions of the source, on arrays with checked
accesses: a computation that gives `none` has read behind the bytes that were received, or has written
behind `tcp_receive_buffer`, the frame it builds, the buffer of the adapter, `gateway_mac` or
`status_text`.

* `load16`, `load32`, `sumWordsAt` — fields and checksums, by position;
* `sendTcpSegmentAt`, `sendArpAt` — the frames that are sent, field by field;
* `handleTcpAt`, `handleArpAt`, `handleIpv4At`, `networkPollAt` — the receiving side;
* `Sized` — what the types of the source say about a state, and the bound of the receive buffer;
* `NetworkCall` — the calls of the stack, of which a run is a list;
* `network_poll_memory_safe` — **no access of a poll is outside**, in any run and with any frames, and the
  states are those of the model on lists.

What a local array holds before it is filled is arbitrary (`stale`).
-/

namespace NovaOS.Net

open List Nat

/-! ### Fields and checksums -/

section Fields

variable (b : Buffer)

def load8 (i : ℕ) : Option ℕ := (b.load i).map UInt8.toNat

/-- `swap16` of a field. -/
def load16 (i : ℕ) : Option ℕ := do
  let high ← load8 b i
  let low ← load8 b (i + 1)
  some (high * 2 ^ 8 + low)

/-- `swap32` of a field. -/
def load32 (i : ℕ) : Option ℕ := do
  let high ← load16 b i
  let low ← load16 b (i + 2)
  some (high * 2 ^ 16 + low)

/-- The loop of the checksums over `length` bytes from position `i` on. -/
def sumWordsAt : ℕ → ℕ → ℕ → Option ℕ
  | 0, sum, _ => some sum
  | 1, sum, i => do
    let last ← load8 b i
    some ((sum + last * 2 ^ 8) % 2 ^ 32)
  | length + 2, sum, i => do
    let high ← load8 b i
    let low ← load8 b (i + 1)
    sumWordsAt length ((sum + (high * 2 ^ 8 + low)) % 2 ^ 32) (i + 2)

/-- `internet_checksum`. -/
def internetChecksumAt (i length : ℕ) : Option ℕ := do
  let sum ← sumWordsAt b length 0 i
  some (complement sum)

/-- `tcp_checksum`. -/
def tcpChecksumAt (source destination i length : ℕ) : Option ℕ := do
  let sum ← sumWordsAt b length ((source / 2 ^ 16 + source % 2 ^ 16 + destination / 2 ^ 16 +
    destination % 2 ^ 16 + ipProtocolTcp + length) % 2 ^ 32) i
  some (complement sum)

end Fields

/-! ### Sending -/

/-- `strcpy(status_text, text)`. -/
def setStatus (text : String) : Option Unit := if text.length + 1 ≤ 48 then some () else none

/-- `e1000_send`, of the first bytes of a frame. -/
def e1000SendAt (stale : ℕ → UInt8) (frame : Buffer) (length : ℕ) (adapter : E1000) :
    Option (Bool × E1000) :=
  if adapter.available = false ∨ length < 14 ∨ 2048 < length then some (false, adapter)
  else
    let next := { adapter with calls := adapter.calls + 1 }
    if adapter.free adapter.calls then do
      let bytes ← frame.loadBytes 0 length
      let buffer ← (⟨2048, stale⟩ : Buffer).store 0 bytes
      let sent ← buffer.loadBytes 0 length
      some (true, { next with sent := adapter.sent ++ [sent] })
    else some (false, next)

def transmitAt (stale : ℕ → UInt8) (frame : Buffer) (length : ℕ) (net : Network) :
    Option (Bool × Network) := do
  match ← e1000SendAt stale frame length net.adapter with
  | (false, adapter) => some (false, { net with adapter := adapter })
  | (true, adapter) =>
    some (true, { net with adapter := adapter, sentPackets := (net.sentPackets + 1) % 2 ^ 64 })

/-- The frame of `send_arp_request` and `send_arp_reply`. -/
def sendArpAt (stale : ℕ → UInt8) (destination : List UInt8) (operation : ℕ) (targetMac : List UInt8)
    (targetIp : ℕ) (net : Network) : Option (Bool × Network) := do
  let frame ← (⟨64, stale⟩ : Buffer).store 0 (List.replicate 64 0)
  let frame ← frame.store 0 destination
  let frame ← frame.store 6 net.localMac
  let frame ← frame.store 12 (be16 etherTypeArp)
  let frame ← frame.store 14 (be16 1)
  let frame ← frame.store 16 (be16 etherTypeIpv4)
  let frame ← frame.store 18 [6]
  let frame ← frame.store 19 [4]
  let frame ← frame.store 20 (be16 operation)
  let frame ← frame.store 22 net.localMac
  let frame ← frame.store 28 (be32 localIp)
  let frame ← frame.store 32 targetMac
  let frame ← frame.store 38 (be32 targetIp)
  transmitAt stale frame 60 net

/-- The fields of the IPv4 header at position `i`. -/
def ipv4HeaderAt (frame : Buffer) (i identification protocol source destination length : ℕ) :
    Option Buffer := do
  let frame ← frame.store i (List.replicate 20 0)
  let frame ← frame.store i [0x45]
  let frame ← frame.store (i + 2) (be16 (20 + length))
  let frame ← frame.store (i + 4) (be16 identification)
  let frame ← frame.store (i + 6) (be16 0x4000)
  let frame ← frame.store (i + 8) [64]
  let frame ← frame.store (i + 9) [UInt8.ofNat protocol]
  let frame ← frame.store (i + 12) (be32 source)
  let frame ← frame.store (i + 16) (be32 destination)
  let checksum ← internetChecksumAt frame i 20
  frame.store (i + 10) (be16 checksum)

/-- `if (size) memcpy(…, data, size);` -/
def storeData (frame : Buffer) (i : ℕ) (data : List UInt8) : Option Buffer :=
  if data = [] then some frame else frame.store i data

/-- The fields of the TCP header at position `i`, and the data behind it. -/
def tcpSegmentAt (frame : Buffer) (i source destination sourcePort destinationPort sequence
    acknowledgement : ℕ) (flags : UInt8) (data : List UInt8) : Option Buffer := do
  let frame ← frame.store i (List.replicate 20 0)
  let frame ← frame.store i (be16 sourcePort)
  let frame ← frame.store (i + 2) (be16 destinationPort)
  let frame ← frame.store (i + 4) (be32 sequence)
  let frame ← frame.store (i + 8) (be32 acknowledgement)
  let frame ← frame.store (i + 12) [0x50]
  let frame ← frame.store (i + 13) [flags]
  let frame ← frame.store (i + 14) (be16 8192)
  let frame ← storeData frame (i + 20) data
  let checksum ← tcpChecksumAt frame source destination i (20 + data.length)
  frame.store (i + 16) (be16 checksum)

/-- `send_tcp_segment`. -/
def sendTcpSegmentAt (stale : ℕ → UInt8) (flags : UInt8) (data : List UInt8) (net : Network) :
    Option (Bool × Network) :=
  if net.gatewayReady = false ∨ 1400 < data.length then some (false, net)
  else do
    let frame ← (⟨1514, stale⟩ : Buffer).store 0 net.gatewayMac
    let frame ← frame.store 6 net.localMac
    let frame ← frame.store 12 (be16 etherTypeIpv4)
    let frame ← ipv4HeaderAt frame 14 net.ipIdentifier ipProtocolTcp localIp net.tcpDestinationIp
      (20 + data.length)
    let frame ← tcpSegmentAt frame 34 localIp net.tcpDestinationIp net.tcpLocalPort
      net.tcpDestinationPort net.tcpLocalSequence net.tcpRemoteSequence flags data
    match ← transmitAt stale frame (34 + (20 + data.length))
        { net with ipIdentifier := (net.ipIdentifier + 1) % 2 ^ 16 } with
    | (false, net) => some (false, net)
    | (true, net) =>
      let syn := if flags &&& tcpSyn = 0 then 0 else 1
      let fin := if flags &&& tcpFin = 0 then 0 else 1
      some (true, { net with
        tcpLocalSequence := (net.tcpLocalSequence + syn + fin + data.length) % 2 ^ 32 })

/-- `network_tcp_send`. -/
def networkTcpSendAt (stale : ℕ → UInt8) (data : List UInt8) (net : Network) : Option (Bool × Network) :=
  if net.tcpState = .established ∧ data ≠ [] then sendTcpSegmentAt stale (tcpPsh ||| tcpAck) data net
  else some (false, net)

/-! ### Receiving -/

/-- The copy of `copy` bytes at position `payload` of the frame into `tcp_receive_buffer`, which holds
`received`. -/
def copyReceived (frame : Buffer) (payload : ℕ) (copy : ℤ) (received : List UInt8) :
    Option (List UInt8) :=
  if 0 < copy then do
    let bytes ← frame.loadBytes payload copy.toNat
    let buffer ← (⟨8192, (Buffer.ofList received).contents⟩ : Buffer).store received.length bytes
    buffer.loadBytes 0 (received.length + copy.toNat)
  else some received

/-- What `handle_tcp` does with a payload that is in order. -/
def handlePayloadAt (stale : ℕ → UInt8) (frame : Buffer) (payload : ℕ) (payloadSize : ℤ) (net : Network) :
    Option Network := do
  let space : ℤ := 8192 - net.tcpReceiveBuffer.length
  let copy := if payloadSize < space then payloadSize else space
  let received ← copyReceived frame payload copy net.tcpReceiveBuffer
  let sent ← sendTcpSegmentAt stale tcpAck [] { net with
    tcpReceiveBuffer := received
    tcpRemoteSequence := (net.tcpRemoteSequence + payloadSize.toNat) % 2 ^ 32 }
  setStatus "Internet bridge response received"
  some sent.2

/-- What it does with the payload of any segment. -/
def takePayloadAt (stale : ℕ → UInt8) (frame : Buffer) (payload : ℕ) (payloadSize : ℤ) (sequence : ℕ)
    (net : Network) : Option Network :=
  if 0 < payloadSize ∧ sequence = net.tcpRemoteSequence then
    handlePayloadAt stale frame payload payloadSize net
  else some net

/-- What it does with the end of the stream. -/
def handleFinAt (stale : ℕ → UInt8) (flags : UInt8) (net : Network) : Option Network :=
  if flags &&& tcpFin ≠ 0 then do
    let sent ← sendTcpSegmentAt stale tcpAck [] { net with
      tcpRemoteSequence := (net.tcpRemoteSequence + 1) % 2 ^ 32 }
    some { sent.2 with tcpState := .closed }
  else some net

/-- `handle_tcp` on a segment that has passed the checks. -/
def handleSegmentAt (stale : ℕ → UInt8) (frame : Buffer) (packet headerSize : ℕ) (length : ℤ)
    (net : Network) : Option Network := do
  let flags ← frame.load (packet + 13)
  let sequence ← load32 frame (packet + 4)
  let acknowledgement ← load32 frame (packet + 8)
  if flags &&& tcpRst ≠ 0 then do
    setStatus "Nova bridge refused connection"
    some { net with tcpState := .closed }
  else if net.tcpState = .synSent ∧ flags &&& (tcpSyn ||| tcpAck) = tcpSyn ||| tcpAck ∧
      acknowledgement = net.tcpLocalSequence then do
    let sent ← sendTcpSegmentAt stale tcpAck [] { net with
      tcpRemoteSequence := (sequence + 1) % 2 ^ 32
      tcpState := .established }
    setStatus "Nova internet bridge connected"
    let greeted ← networkTcpSendAt stale hello sent.2
    some greeted.2
  else if net.tcpState ≠ .established then some net
  else do
    let net ← takePayloadAt stale frame (packet + headerSize) (length - headerSize) sequence net
    handleFinAt stale flags net

/-- `handle_tcp`, of a packet at position `packet` of the frame. -/
def handleTcpAt (stale : ℕ → UInt8) (frame : Buffer) (packet : ℕ) (length : ℤ) (net : Network) :
    Option Network :=
  if length < 20 then some net
  else do
    let dataOffset ← load8 frame (packet + 12)
    let headerSize : ℕ := dataOffset / 2 ^ 4 * 4
    if headerSize < 20 ∨ length < headerSize then some net
    else do
      let destinationPort ← load16 frame (packet + 2)
      let sourcePort ← load16 frame packet
      let source ← load32 frame (14 + 12)
      if destinationPort ≠ net.tcpLocalPort ∨ sourcePort ≠ net.tcpDestinationPort ∨
          source ≠ net.tcpDestinationIp then some net
      else do
        let checksum ← tcpChecksumAt frame net.tcpDestinationIp localIp packet (length.toNat % 2 ^ 16)
        if checksum ≠ 0 then some net else handleSegmentAt stale frame packet headerSize length net

/-- `handle_arp`. -/
def handleArpAt (stale : ℕ → UInt8) (frame : Buffer) (length : ℕ) (net : Network) : Option Network :=
  if length < 42 then some net
  else do
    let hardwareType ← load16 frame 14
    let protocolType ← load16 frame 16
    let hardwareLength ← load8 frame 18
    let protocolLength ← load8 frame 19
    if hardwareType ≠ 1 ∨ protocolType ≠ etherTypeIpv4 ∨ hardwareLength ≠ 6 ∨ protocolLength ≠ 4 then
      some net
    else do
      let operation ← load16 frame 20
      let senderIp ← load32 frame 28
      let targetIp ← load32 frame 38
      let senderMac ← frame.loadBytes 22 6
      if operation = 2 ∧ senderIp = gatewayIp ∧ targetIp = localIp then do
        let mac ← (⟨6, stale⟩ : Buffer).store 0 senderMac
        let gatewayMac ← mac.loadBytes 0 6
        setStatus "IPv4 ready: 10.0.2.15"
        some { net with gatewayMac := gatewayMac, gatewayReady := true }
      else if operation = 1 ∧ targetIp = localIp then do
        let sent ← sendArpAt stale senderMac 2 senderMac senderIp net
        some sent.2
      else some net

/-- `handle_ipv4`. -/
def handleIpv4At (stale : ℕ → UInt8) (frame : Buffer) (length : ℕ) (net : Network) : Option Network :=
  if length < 34 then some net
  else do
    let versionHeaderLength ← load8 frame 14
    let destination ← load32 frame 30
    if versionHeaderLength / 2 ^ 4 ≠ 4 ∨ destination ≠ localIp then some net
    else
      let headerLength := versionHeaderLength % 2 ^ 4 * 4
      if headerLength < 20 ∨ length < 14 + headerLength then some net
      else do
        let checksum ← internetChecksumAt frame 14 headerLength
        if checksum ≠ 0 then some net
        else do
          let totalLength ← load16 frame 16
          if totalLength < headerLength ∨ (length : ℤ) - 14 < totalLength then some net
          else do
            let protocol ← load8 frame 23
            if protocol = ipProtocolUdp then do
              setStatus "IPv4/UDP packet received"
              some net
            else if protocol = ipProtocolTcp then
              handleTcpAt stale frame (14 + headerLength) ((totalLength : ℤ) - headerLength) net
            else some net

/-- One round of the loop of `network_poll`: the frame is what the adapter has copied. -/
def pollFrameAt (stale : ℕ → UInt8) (frame : List UInt8) (net : Network) : Option Network :=
  let net := countFrame net
  if frame.length < 14 then some net
  else do
    let type ← load16 (.ofList frame) 12
    if type = etherTypeArp then handleArpAt stale (.ofList frame) frame.length net
    else if type = etherTypeIpv4 then handleIpv4At stale (.ofList frame) frame.length net
    else some net

/-- The loop of `network_poll`. -/
def pollLoopAt (stale : ℕ → UInt8) : ℕ → List (List UInt8) → Network →
    Option (List (List UInt8) × Network)
  | 0, pending, net => some (pending, net)
  | _ + 1, [], net => some ([], net)
  | budget + 1, frame :: pending, net =>
    let frame := frame.take 2048
    if frame.length = 0 then some (pending, net)
    else do
      let net ← pollFrameAt stale frame net
      pollLoopAt stale budget pending net

/-- The end of `network_poll`. -/
def pollArpAt (stale : ℕ → UInt8) (ticks : ℕ) (net : Network) : Option Network :=
  if net.gatewayReady = false ∧ 100 ≤ (ticks + 2 ^ 64 - net.lastArpTick) % 2 ^ 64 then do
    let sent ← sendArpAt stale (List.replicate 6 0xFF) 1 (List.replicate 6 0) gatewayIp net
    some { sent.2 with lastArpTick := ticks }
  else some net

/-- `network_poll`. -/
def networkPollAt (stale : ℕ → UInt8) (ticks : ℕ) (pending : List (List UInt8)) (net : Network) :
    Option (List (List UInt8) × Network) :=
  if net.adapterReady = false then some (pending, net)
  else do
    let polled ← pollLoopAt stale 16 pending net
    let net ← pollArpAt stale ticks polled.2
    some (polled.1, net)

/-! ### Inside, the accesses are those of the lists -/

section Fields

variable {b : Buffer} {i length : ℕ} {frame : List UInt8}

theorem load8_eq (h : i < b.size) : load8 b i = some (b.contents i).toNat := by
  rw [load8, Buffer.load_eq h]
  rfl

theorem load8_ofList (h : i < frame.length) : load8 (.ofList frame) i = some (byteAt frame i) := load8_eq h

theorem load16_eq (h : i + 2 ≤ frame.length) : load16 (.ofList frame) i = some (read16 frame i) := by
  rw [load16, load8_ofList (by omega), load8_ofList (by omega)]
  rfl

theorem load32_eq (h : i + 4 ≤ frame.length) : load32 (.ofList frame) i = some (read32 frame i) := by
  rw [load32, load16_eq (by omega), load16_eq (by omega)]
  rfl

theorem readBytes_cons (contents : ℕ → UInt8) (i n : ℕ) :
    readBytes contents i (n + 1) = contents i :: readBytes contents (i + 1) n := by
  rw [add_comm n 1, readBytes_add]
  rfl

/-- **The loop of the checksums** adds up the bytes from a position on. -/
theorem sumWordsAt_eq (sum : ℕ) (h : i + length ≤ b.size) :
    sumWordsAt b length sum i = some (sumWords sum (readBytes b.contents i length)) := by
  induction length, sum, i using sumWordsAt.induct with
  | case1 sum i => rfl
  | case2 sum i =>
    rw [sumWordsAt, load8_eq (by omega), readBytes_cons]
    rfl
  | case3 length sum i ih =>
    have hrest := fun high low => ih high low (by omega)
    rw [sumWordsAt, load8_eq (by omega), load8_eq (by omega), readBytes_cons, readBytes_cons]
    exact hrest _ _

theorem internetChecksumAt_eq (h : i + length ≤ b.size) :
    internetChecksumAt b i length = some (internetChecksum (readBytes b.contents i length)) := by
  rw [internetChecksumAt, sumWordsAt_eq 0 h]
  rfl

theorem tcpChecksumAt_eq (source destination : ℕ) (h : i + length ≤ b.size) :
    tcpChecksumAt b source destination i length =
      some (tcpChecksum source destination (readBytes b.contents i length) length) := by
  rw [tcpChecksumAt, sumWordsAt_eq _ h, tcpChecksum, take_of_length_le (le_of_eq length_readBytes)]
  rfl

end Fields

/-! ### The frames that are sent -/

section Frames

variable {frame : Buffer} {i : ℕ}

/-- **The IPv4 header**, field by field, is the header. -/
theorem ipv4HeaderAt_eq (h : i + 20 ≤ frame.size)
    (identification protocol source destination length : ℕ) :
    ipv4HeaderAt frame i identification protocol source destination length =
      some ⟨frame.size,
        writeBytes frame.contents i (ipv4Header identification protocol source destination length)⟩ := by
  let fields : List UInt8 := [0x45, 0] ++ be16 (20 + length) ++ be16 identification ++ be16 0x4000 ++
    [64, UInt8.ofNat protocol] ++ be16 0 ++ (be32 source ++ be32 destination)
  let filled : Buffer := ⟨frame.size, writeBytes frame.contents i fields⟩
  have hfields : ipv4HeaderAt frame i identification protocol source destination length =
      (internetChecksumAt filled i 20 >>= fun checksum => filled.store (i + 10) (be16 checksum)) := by
    rw [ipv4HeaderAt, Buffer.store_bind h,
      Buffer.store_within 0 (add_zero i) (le_of_ble_eq_true rfl) h,
      Buffer.store_within 2 rfl (le_of_ble_eq_true rfl) h,
      Buffer.store_within 4 rfl (le_of_ble_eq_true rfl) h,
      Buffer.store_within 6 rfl (le_of_ble_eq_true rfl) h,
      Buffer.store_within 8 rfl (le_of_ble_eq_true rfl) h,
      Buffer.store_within 9 rfl (le_of_ble_eq_true rfl) h,
      Buffer.store_within 12 rfl (le_of_ble_eq_true rfl) h,
      Buffer.store_within 16 rfl (le_of_ble_eq_true rfl) h]
    rfl
  have hsize : i + 20 ≤ filled.size := h
  have hchecksum : internetChecksumAt filled i 20 = some (internetChecksum fields) := by
    have hread : readBytes filled.contents i 20 = fields := readBytes_writeBytes_eq rfl
    rw [internetChecksumAt_eq hsize, hread]
  have hinside : i + 10 + 2 ≤ filled.size := by
    omega
  rw [hfields, hchecksum]
  show filled.store (i + 10) (be16 (internetChecksum fields)) = _
  rw [Buffer.store_eq hinside, writeBytes_within 10 rfl (le_of_ble_eq_true rfl)]
  rfl

/-- **The TCP segment**, field by field, is the segment. -/
theorem tcpSegmentAt_eq {data : List UInt8} (h : i + (20 + data.length) ≤ frame.size)
    (source destination sourcePort destinationPort sequence acknowledgement : ℕ) (flags : UInt8) :
    tcpSegmentAt frame i source destination sourcePort destinationPort sequence acknowledgement flags
        data =
      some ⟨frame.size, writeBytes frame.contents i (tcpSegment source destination sourcePort
        destinationPort sequence acknowledgement flags data)⟩ := by
  let fields := tcpHeader sourcePort destinationPort sequence acknowledgement flags 0
  let filled : Buffer := ⟨frame.size, writeBytes frame.contents i (fields ++ data)⟩
  have hheader : i + 20 ≤ frame.size := by omega
  have hdata : storeData ⟨frame.size, writeBytes frame.contents i fields⟩ (i + 20) data =
      some filled := by
    rw [storeData]
    split
    · rename_i hempty
      show _ = some (⟨frame.size, writeBytes frame.contents i (fields ++ data)⟩ : Buffer)
      rw [hempty, append_nil]
    · have hbehind : i + 20 + data.length ≤
          (⟨frame.size, writeBytes frame.contents i fields⟩ : Buffer).size := by
        show i + 20 + data.length ≤ frame.size
        omega
      rw [Buffer.store_eq hbehind]
      exact congrArg (fun contents => some (⟨frame.size, contents⟩ : Buffer)) (writeBytes_behind rfl)
  have hfields : tcpSegmentAt frame i source destination sourcePort destinationPort sequence
      acknowledgement flags data =
        (tcpChecksumAt filled source destination i (20 + data.length) >>= fun checksum =>
          filled.store (i + 16) (be16 checksum)) := by
    have hempty : writeBytes frame.contents i (List.replicate 20 0) =
        writeBytes frame.contents i ([] ++ List.replicate 20 0) := rfl
    rw [tcpSegmentAt, Buffer.store_bind hheader, hempty, Buffer.store_next 18, Buffer.store_next 16,
      Buffer.store_next 12, Buffer.store_next 8, Buffer.store_next 7, Buffer.store_next 6,
      Buffer.store_next 4]
    · have hsame : [] ++ be16 sourcePort ++ be16 destinationPort ++ be32 sequence ++
          be32 acknowledgement ++ [0x50] ++ [flags] ++ be16 8192 ++ List.replicate 4 0 = fields := rfl
      rw [hsame, hdata]
      rfl
    all_goals first | omega | simp
  have hlength : (fields ++ data).length = 20 + data.length := length_append
  have hchecksum : tcpChecksumAt filled source destination i (20 + data.length) =
      some (tcpChecksum source destination (fields ++ data) (20 + data.length)) := by
    have hread : readBytes filled.contents i (20 + data.length) = fields ++ data :=
      readBytes_writeBytes_eq hlength
    rw [tcpChecksumAt_eq source destination (show i + (20 + data.length) ≤ filled.size from h), hread]
  have hinside : i + 16 + 2 ≤ filled.size := by
    show i + 16 + 2 ≤ frame.size
    omega
  rw [hfields, hchecksum]
  show filled.store (i + 16) (be16 (tcpChecksum source destination (fields ++ data) (20 + data.length))) = _
  rw [Buffer.store_eq hinside, writeBytes_within 16 rfl (by rw [hlength]; show 16 + 2 ≤ _; omega)]
  rfl

end Frames

/-- What the types of the source say about a state, and the bound of the receive buffer. -/
structure Network.Sized (net : Network) : Prop where
  localMac : net.localMac.length = 6
  gatewayMac : net.gatewayMac.length = 6
  received : net.tcpReceiveBuffer.length ≤ 8192

section Sending

variable {net : Network} (stale : ℕ → UInt8)

theorem e1000SendAt_eq {frame : Buffer} {bytes : List UInt8}
    (h : frame.loadBytes 0 bytes.length = some bytes) (adapter : E1000) :
    e1000SendAt stale frame bytes.length adapter = some (e1000Send bytes adapter) := by
  rw [e1000SendAt, e1000Send]
  split
  · rfl
  rename_i hlength
  rw [not_or, not_or] at hlength
  have hinside : 0 + bytes.length ≤ (⟨2048, stale⟩ : Buffer).size := by
    show 0 + bytes.length ≤ 2048
    omega
  simp only
  split
  · rw [h]
    show ((⟨2048, stale⟩ : Buffer).store 0 bytes >>= _) = _
    rw [Buffer.store_bind hinside, Buffer.loadBytes_written hinside]
    rfl
  · rfl

theorem transmitAt_eq {frame : Buffer} {bytes : List UInt8}
    (h : frame.loadBytes 0 bytes.length = some bytes) (net : Network) :
    transmitAt stale frame bytes.length net = some (transmit bytes net) := by
  rw [transmitAt, e1000SendAt_eq stale h, transmit]
  rcases e1000Send bytes net.adapter with ⟨_ | _, adapter⟩
  · rfl
  · rfl

/-- **`send_tcp_segment` stays inside its frame**, and sends the frame of the model. -/
theorem sendTcpSegmentAt_eq (h : net.Sized) (flags : UInt8) (data : List UInt8) :
    sendTcpSegmentAt stale flags data net = some (sendTcpSegment flags data net) := by
  rw [sendTcpSegmentAt, sendTcpSegment]
  split
  · rfl
  rename_i hgood
  rw [not_or, not_lt] at hgood
  have hlocal := h.localMac
  have hgateway := h.gatewayMac
  let ethernet := ethernetHeader net.gatewayMac net.localMac etherTypeIpv4
  let ip := ipv4Header net.ipIdentifier ipProtocolTcp localIp net.tcpDestinationIp (20 + data.length)
  let segment := tcpSegment localIp net.tcpDestinationIp net.tcpLocalPort net.tcpDestinationPort
    net.tcpLocalSequence net.tcpRemoteSequence flags data
  have hethernet : ethernet.length = 14 := by
    show (net.gatewayMac ++ net.localMac ++ be16 etherTypeIpv4).length = 14
    rw [length_append, length_append, hlocal, hgateway]
    rfl
  have hip : ip.length = 20 := rfl
  have hsegment : segment.length = 20 + data.length := length_append
  have hlength : (ethernet ++ ip ++ segment).length = 34 + (20 + data.length) := by
    rw [length_append, length_append, hethernet, hip, hsegment]
  have hbuilt : writeBytes (writeBytes (writeBytes stale 0 ethernet) 14 ip) 34 segment =
      writeBytes stale 0 (ethernet ++ ip ++ segment) := by
    rw [writeBytes_behind (show 14 + ip.length = 34 by omega),
      writeBytes_behind (show 0 + ethernet.length = 14 by omega), append_assoc]
  rw [Buffer.store_bind (show 0 + net.gatewayMac.length ≤ 1514 by omega),
    Buffer.store_behind (show 0 + net.gatewayMac.length = 6 by omega)
      (show 6 + net.localMac.length ≤ 1514 by omega),
    Buffer.store_behind (show 0 + (net.gatewayMac ++ net.localMac).length = 12 by
      rw [length_append]
      omega) (show 12 + 2 ≤ 1514 by decide)]
  have hheader := ipv4HeaderAt_eq
    (show 14 + 20 ≤ (⟨1514, writeBytes stale 0 ethernet⟩ : Buffer).size from le_of_ble_eq_true rfl)
    net.ipIdentifier ipProtocolTcp localIp net.tcpDestinationIp (20 + data.length)
  show (ipv4HeaderAt ⟨1514, writeBytes stale 0 ethernet⟩ 14 net.ipIdentifier ipProtocolTcp localIp
    net.tcpDestinationIp (20 + data.length) >>= _) = _
  rw [hheader]
  show (tcpSegmentAt ⟨1514, writeBytes (writeBytes stale 0 ethernet) 14 ip⟩ 34 localIp
    net.tcpDestinationIp net.tcpLocalPort net.tcpDestinationPort net.tcpLocalSequence
    net.tcpRemoteSequence flags data >>= _) = _
  rw [tcpSegmentAt_eq]
  swap
  · show 34 + (20 + data.length) ≤ 1514
    omega
  show (transmitAt stale ⟨1514, writeBytes (writeBytes (writeBytes stale 0 ethernet) 14 ip) 34 segment⟩
    (34 + (20 + data.length)) { net with ipIdentifier := (net.ipIdentifier + 1) % 2 ^ 16 } >>= _) = _
  rw [hbuilt, ← hlength, transmitAt_eq stale (Buffer.loadBytes_written (by omega))]
  show _ = some (match transmit (ethernet ++ ip ++ segment)
    { net with ipIdentifier := (net.ipIdentifier + 1) % 2 ^ 16 } with | (false, net) => _ | (true, net) => _)
  rcases transmit (ethernet ++ ip ++ segment)
    { net with ipIdentifier := (net.ipIdentifier + 1) % 2 ^ 16 } with ⟨_ | _, sent⟩
  · rfl
  · rfl

/-- **The ARP frames stay inside their 64 bytes**, and sixty of them are sent. -/
theorem sendArpAt_eq (h : net.Sized) {destination targetMac : List UInt8}
    (hdestination : destination.length = 6) (htarget : targetMac.length = 6) (operation targetIp : ℕ) :
    sendArpAt stale destination operation targetMac targetIp net =
      some (transmit (arpFrame destination net.localMac operation targetMac targetIp) net) := by
  have hlocal := h.localMac
  let bytes := arpFrame destination net.localMac operation targetMac targetIp
  have hbytes : bytes.length = 60 := by
    simp [bytes, arpFrame, ethernetHeader, hdestination, hlocal, htarget]
  have hempty : writeBytes stale 0 (List.replicate 64 0) = writeBytes stale 0 ([] ++ List.replicate 64 0) :=
    rfl
  -- the fields come one behind the other
  have hfilled : sendArpAt stale destination operation targetMac targetIp net =
      transmitAt stale ⟨64, writeBytes stale 0 (bytes ++ List.replicate 4 0)⟩ 60 net := by
    rw [sendArpAt, Buffer.store_bind (show 0 + 64 ≤ 64 by decide), hempty, Buffer.store_next 58,
      Buffer.store_next 52, Buffer.store_next 50, Buffer.store_next 48, Buffer.store_next 46,
      Buffer.store_next 45, Buffer.store_next 44, Buffer.store_next 42, Buffer.store_next 36,
      Buffer.store_next 32, Buffer.store_next 26, Buffer.store_next 22]
    · simp only [bytes, arpFrame, ethernetHeader, append_assoc, nil_append, cons_append]
      rfl
    all_goals simp [hdestination, hlocal, htarget]
  rw [hfilled, ← hbytes]
  exact transmitAt_eq stale (Buffer.loadBytes_front (by omega)) net

end Sending

/-! ### The state keeps its sizes -/

namespace Network.Sized

variable {net : Network}

section

variable (h : net.Sized)

include h

theorem transmit (frame : List UInt8) : (Net.transmit frame net).2.Sized := by
  rw [Net.transmit]
  rcases e1000Send frame net.adapter with ⟨_ | _, adapter⟩
  · exact ⟨h.localMac, h.gatewayMac, h.received⟩
  · exact ⟨h.localMac, h.gatewayMac, h.received⟩

theorem acknowledged (sequence : ℕ) (state : TcpState) :
    ({ net with tcpRemoteSequence := sequence, tcpState := state } : Network).Sized :=
  ⟨h.localMac, h.gatewayMac, h.received⟩

theorem sendTcpSegment (flags : UInt8) (data : List UInt8) :
    (Net.sendTcpSegment flags data net).2.Sized := by
  rw [Net.sendTcpSegment]
  split
  · exact h
  simp only
  have hnext : ({ net with ipIdentifier := (net.ipIdentifier + 1) % 2 ^ 16 } : Network).Sized :=
    ⟨h.localMac, h.gatewayMac, h.received⟩
  have hsent := hnext.transmit (tcpFrame net flags data)
  split
  · rename_i hfailed
    rw [hfailed] at hsent
    exact hsent
  · rename_i hdone
    rw [hdone] at hsent
    exact ⟨hsent.localMac, hsent.gatewayMac, hsent.received⟩

theorem networkTcpSend (data : List UInt8) : (Net.networkTcpSend data net).2.Sized := by
  rw [Net.networkTcpSend]
  split
  · exact h.sendTcpSegment _ _
  · exact h

/-- **The copy of `handle_tcp` fills the receive buffer at most.** -/
theorem taken (payload : List UInt8) :
    ({ net with
      tcpReceiveBuffer := net.tcpReceiveBuffer ++
        payload.take (min payload.length (8192 - net.tcpReceiveBuffer.length))
      tcpRemoteSequence := (net.tcpRemoteSequence + payload.length) % 2 ^ 32 } : Network).Sized := by
  have hroom := h.received
  refine ⟨h.localMac, h.gatewayMac, ?_⟩
  rw [length_append, length_take]
  omega

theorem handlePayload (payload : List UInt8) : (Net.handlePayload payload net).Sized :=
  (h.taken payload).sendTcpSegment tcpAck []

/-- The answer to a segment that opens the connection. -/
theorem opened (sequence : ℕ) :
    (Net.sendTcpSegment tcpAck [] { net with
      tcpRemoteSequence := (sequence + 1) % 2 ^ 32
      tcpState := .established }).2.Sized :=
  (h.acknowledged _ _).sendTcpSegment tcpAck []

/-- The answer to the end of the stream. -/
theorem finished :
    ({ (Net.sendTcpSegment tcpAck [] { net with
        tcpRemoteSequence := (net.tcpRemoteSequence + 1) % 2 ^ 32 }).2 with
      tcpState := .closed } : Network).Sized := by
  have hsent := (h.acknowledged ((net.tcpRemoteSequence + 1) % 2 ^ 32) net.tcpState).sendTcpSegment tcpAck []
  exact ⟨hsent.localMac, hsent.gatewayMac, hsent.received⟩

theorem handleSegment (segment : Segment) : (Net.handleSegment segment net).Sized := by
  rw [Net.handleSegment]
  split
  · exact ⟨h.localMac, h.gatewayMac, h.received⟩
  split
  · exact (h.opened segment.sequence).networkTcpSend hello
  split
  · exact h
  have hpayload : (if 0 < segment.payload.length ∧ segment.sequence = net.tcpRemoteSequence then
      Net.handlePayload segment.payload net else net).Sized := by
    split
    · exact h.handlePayload _
    · exact h
  simp only
  split
  · exact hpayload.finished
  · exact hpayload

end

end Network.Sized

/-! ### Segments -/

section Segments

variable {net : Network} {frame : List UInt8} {i n : ℕ} (stale : ℕ → UInt8)

theorem length_piece (h : i + n ≤ frame.length) : ((frame.drop i).take n).length = n := by
  rw [length_take, length_drop]
  omega

/-- **The copy into `tcp_receive_buffer` stays inside it**, and inside the frame. -/
theorem copyReceived_eq {received : List UInt8} (hframe : i + n ≤ frame.length)
    (hroom : received.length + n ≤ 8192) :
    copyReceived (.ofList frame) i (n : ℤ) received = some (received ++ (frame.drop i).take n) := by
  rw [copyReceived]
  split
  · have hinside : i + n ≤ (Buffer.ofList frame).size := hframe
    have hlength := length_piece hframe
    have hstore : received.length + ((frame.drop i).take n).length ≤
        (⟨8192, (Buffer.ofList received).contents⟩ : Buffer).size := by
      show received.length + ((frame.drop i).take n).length ≤ 8192
      omega
    have hload : 0 + (received.length + n) ≤ (⟨8192, writeBytes (Buffer.ofList received).contents
        received.length ((frame.drop i).take n)⟩ : Buffer).size := by
      show 0 + (received.length + n) ≤ 8192
      omega
    have hold : readBytes (Buffer.ofList received).contents 0 received.length = received := by
      rw [Buffer.readBytes_ofList (by omega), drop_zero, take_length]
    rw [Int.toNat_natCast, Buffer.loadBytes_eq hinside, Buffer.readBytes_ofList hframe]
    show ((⟨8192, (Buffer.ofList received).contents⟩ : Buffer).store received.length
      ((frame.drop i).take n) >>= _) = _
    rw [Buffer.store_bind hstore, Buffer.loadBytes_eq hload, readBytes_add, zero_add,
      readBytes_writeBytes (.inl (by omega)), hold, readBytes_writeBytes_eq hlength]
  · have hzero : n = 0 := by omega
    rw [hzero, take_zero, append_nil]

/-- What `handle_tcp` does with a payload that is in order. -/
theorem handlePayloadAt_eq (h : net.Sized) (hframe : i + n ≤ frame.length) :
    handlePayloadAt stale (.ofList frame) i (n : ℤ) net =
      some (handlePayload ((frame.drop i).take n) net) := by
  have hreceived := h.received
  have hlength := length_piece hframe
  have hcopy : (if (n : ℤ) < 8192 - net.tcpReceiveBuffer.length then (n : ℤ)
      else 8192 - net.tcpReceiveBuffer.length) = ((min n (8192 - net.tcpReceiveBuffer.length) : ℕ) : ℤ) := by
    split
    · omega
    · omega
  have hcopied : copyReceived (.ofList frame) i ((min n (8192 - net.tcpReceiveBuffer.length) : ℕ) : ℤ)
      net.tcpReceiveBuffer = some (net.tcpReceiveBuffer ++ ((frame.drop i).take n).take
        (min ((frame.drop i).take n).length (8192 - net.tcpReceiveBuffer.length))) := by
    rw [copyReceived_eq (by omega) (by omega), hlength, take_take]
    congr 3
    omega
  have hsent := sendTcpSegmentAt_eq stale (h.taken ((frame.drop i).take n)) tcpAck []
  rw [hlength] at hcopied hsent
  rw [handlePayloadAt, handlePayload, hlength]
  simp only [hcopy, hcopied, Int.toNat_natCast]
  show (sendTcpSegmentAt stale tcpAck [] _ >>= _) = _
  rw [hsent]
  rfl

theorem takePayloadAt_eq (h : net.Sized) (hframe : i + n ≤ frame.length) (sequence : ℕ) :
    takePayloadAt stale (.ofList frame) i (n : ℤ) sequence net =
      some (if 0 < n ∧ sequence = net.tcpRemoteSequence then
        handlePayload ((frame.drop i).take n) net else net) := by
  simp only [takePayloadAt, Int.natCast_pos]
  split
  · exact handlePayloadAt_eq stale h hframe
  · rfl

theorem networkTcpSendAt_eq (h : net.Sized) (data : List UInt8) :
    networkTcpSendAt stale data net = some (networkTcpSend data net) := by
  rw [networkTcpSendAt, networkTcpSend]
  split
  · exact sendTcpSegmentAt_eq stale h _ _
  · rfl

theorem handleFinAt_eq (h : net.Sized) (flags : UInt8) :
    handleFinAt stale flags net = some (if flags &&& tcpFin ≠ 0 then
      { (sendTcpSegment tcpAck [] { net with
          tcpRemoteSequence := (net.tcpRemoteSequence + 1) % 2 ^ 32 }).2 with tcpState := .closed }
      else net) := by
  rw [handleFinAt]
  split
  · rw [sendTcpSegmentAt_eq stale (h.acknowledged _ net.tcpState)]
    rfl
  · rfl

theorem getD_piece {j : ℕ} (h : j < n) : ((frame.drop i).take n).getD j 0 = frame.getD (i + j) 0 := by
  rw [getD_eq_getElem?_getD, List.getElem?_take_of_lt h, List.getElem?_drop, ← getD_eq_getElem?_getD]

theorem byteAt_piece {j : ℕ} (h : j < n) : byteAt ((frame.drop i).take n) j = byteAt frame (i + j) := by
  rw [byteAt, getD_piece h, byteAt]

theorem read16_piece {j : ℕ} (h : j + 2 ≤ n) : read16 ((frame.drop i).take n) j = read16 frame (i + j) := by
  rw [read16, byteAt_piece (by omega), byteAt_piece (by omega), read16, add_assoc]

theorem read32_piece {j : ℕ} (h : j + 4 ≤ n) : read32 ((frame.drop i).take n) j = read32 frame (i + j) := by
  rw [read32, read16_piece (by omega), read16_piece (by omega), read32, add_assoc]

/-- **`handle_tcp` behind its checks** reads inside the packet, which is `n` bytes at position `i`. -/
theorem handleSegmentAt_eq (h : net.Sized) (hframe : i + n ≤ frame.length) {headerSize : ℕ}
    (hlow : 20 ≤ headerSize) (hhigh : headerSize ≤ n) :
    handleSegmentAt stale (.ofList frame) i headerSize (n : ℤ) net =
      some (handleSegment
        { flags := ((frame.drop i).take n).getD 13 0
          sequence := read32 ((frame.drop i).take n) 4
          acknowledgement := read32 ((frame.drop i).take n) 8
          payload := ((frame.drop i).take n).drop headerSize } net) := by
  have hflags : (Buffer.ofList frame).load (i + 13) = some (frame.getD (i + 13) 0) :=
    Buffer.load_eq (show i + 13 < frame.length by omega)
  have hpayload : ((frame.drop i).take n).drop headerSize =
      (frame.drop (i + headerSize)).take (n - headerSize) := by
    rw [drop_take, drop_drop]
  have hlength : ((frame.drop (i + headerSize)).take (n - headerSize)).length = n - headerSize :=
    length_piece (by omega)
  have hsize : (n : ℤ) - headerSize = ((n - headerSize : ℕ) : ℤ) := by omega
  rw [handleSegmentAt, hflags, load32_eq (by omega), load32_eq (by omega), hpayload, getD_piece (by omega),
    read32_piece (by omega), read32_piece (by omega), hsize, handleSegment]
  simp only [hlength, Option.bind_eq_bind, Option.bind_some]
  split
  · rfl
  split
  · have hconnected : setStatus "Nova internet bridge connected" = some () := rfl
    rw [sendTcpSegmentAt_eq stale (h.acknowledged _ _), hconnected, Option.bind_some, Option.bind_some,
      networkTcpSendAt_eq stale (h.opened _), Option.bind_some]
  split
  · rfl
  · rw [takePayloadAt_eq stale h (by omega), Option.bind_some, handleFinAt_eq]
    split
    · exact h.handlePayload _
    · exact h

/-- The checksum of a packet, over as many bytes as a 16-bit length says. -/
theorem tcpChecksumAt_piece (source destination : ℕ) (hframe : i + n ≤ frame.length) :
    tcpChecksumAt (.ofList frame) source destination i (n % 2 ^ 16) =
      some (tcpChecksum source destination ((frame.drop i).take n) (n % 2 ^ 16)) := by
  have hmod : n % 2 ^ 16 ≤ n := mod_le _ _
  have hinside : i + n % 2 ^ 16 ≤ (Buffer.ofList frame).size := by
    show i + n % 2 ^ 16 ≤ frame.length
    omega
  rw [tcpChecksumAt_eq _ _ hinside, Buffer.readBytes_ofList hinside, tcpChecksum, tcpChecksum,
    take_take, take_take, min_self, min_eq_left hmod]

/-- **`handle_tcp` stays inside the frame and the receive buffer**, for a packet of `n` bytes at
position `i`. -/
theorem handleTcpAt_eq (h : net.Sized) (hip : 34 ≤ frame.length) (hframe : i + n ≤ frame.length) :
    handleTcpAt stale (.ofList frame) i (n : ℤ) net =
      some (handleTcp (read32 frame (14 + 12)) ((frame.drop i).take n) net) := by
  rw [handleTcpAt, handleTcp, receivedSegment, receivedSegmentAt, length_piece hframe]
  split
  · rw [if_pos (by omega)]
  rw [if_neg (by omega)]
  rw [load8_ofList (by omega), load16_eq (by omega), load16_eq (by omega), load32_eq (by omega), byteAt_piece (by omega),
    read16_piece (by omega), read16_piece (by omega), Int.toNat_natCast]
  simp only [Option.bind_eq_bind, Option.bind_some, tcpChecksumAt_piece _ _ hframe, Int.ofNat_lt,
    add_zero]
  -- the source stops at the first check that fails, so its reads come in two steps
  split
  · rename_i hheader
    rw [if_pos (hheader.imp_right .inl)]
  rename_i hheader
  by_cases hpeer : read16 frame (i + 2) ≠ net.tcpLocalPort ∨ read16 frame i ≠ net.tcpDestinationPort ∨
      read32 frame (14 + 12) ≠ net.tcpDestinationIp
  · rw [if_pos hpeer, if_pos (.inr (.inr hpeer))]
  have hpassed : ¬(byteAt frame (i + 12) / 2 ^ 4 * 4 < 20 ∨ n < byteAt frame (i + 12) / 2 ^ 4 * 4 ∨
      read16 frame (i + 2) ≠ net.tcpLocalPort ∨ read16 frame i ≠ net.tcpDestinationPort ∨
      read32 frame (14 + 12) ≠ net.tcpDestinationIp) := by
    rw [← or_assoc]
    exact fun hor => hor.elim hheader hpeer
  rw [if_neg hpeer, if_neg hpassed]
  split
  · rfl
  · rw [not_or, not_lt, not_lt] at hheader
    exact handleSegmentAt_eq stale h hframe hheader.1 hheader.2

end Segments

/-! ### Frames -/

theorem Network.Sized.handleTcp {net : Network} (h : net.Sized) (source : ℕ) (packet : List UInt8) :
    (Net.handleTcp source packet net).Sized := by
  rw [Net.handleTcp]
  split
  · exact h
  · exact h.handleSegment _

section Frames

variable {net : Network} {frame : List UInt8} (stale : ℕ → UInt8)

theorem byteAt_drop (i j : ℕ) : byteAt (frame.drop i) j = byteAt frame (i + j) := by
  rw [byteAt, getD_eq_getElem?_getD, List.getElem?_drop, ← getD_eq_getElem?_getD, byteAt]

theorem read16_drop (i j : ℕ) : read16 (frame.drop i) j = read16 frame (i + j) := by
  rw [read16, byteAt_drop, byteAt_drop, read16, add_assoc]

theorem read32_drop (i j : ℕ) : read32 (frame.drop i) j = read32 frame (i + j) := by
  rw [read32, read16_drop, read16_drop, read32, add_assoc]

/-- **`handle_arp` stays inside the frame**, `gateway_mac` and the frame of its answer. -/
theorem handleArpAt_eq (h : net.Sized) :
    handleArpAt stale (.ofList frame) frame.length net = some (handleArp frame net) := by
  rw [handleArpAt, handleArp]
  by_cases hshort : frame.length < 42
  · rw [if_pos hshort, if_pos hshort]
  rw [if_neg hshort, if_neg hshort]
  have hmac : ((frame.drop 22).take 6).length = 6 := length_piece (by omega)
  have hinside : 22 + 6 ≤ (Buffer.ofList frame).size := by
    show 22 + 6 ≤ frame.length
    omega
  have hsender : (Buffer.ofList frame).loadBytes 22 6 = some ((frame.drop 22).take 6) := by
    rw [Buffer.loadBytes_eq hinside, Buffer.readBytes_ofList hinside]
  have hstore : 0 + ((frame.drop 22).take 6).length ≤ (⟨6, stale⟩ : Buffer).size := by
    show 0 + ((frame.drop 22).take 6).length ≤ 6
    omega
  have hgateway : (⟨6, writeBytes stale 0 ((frame.drop 22).take 6)⟩ : Buffer).loadBytes 0 6 =
      some ((frame.drop 22).take 6) := by
    have hwritten : (⟨6, writeBytes stale 0 ((frame.drop 22).take 6)⟩ : Buffer).loadBytes 0
        ((frame.drop 22).take 6).length = some ((frame.drop 22).take 6) :=
      Buffer.loadBytes_written hstore
    rw [hmac] at hwritten
    exact hwritten
  rw [load16_eq (by omega), load16_eq (by omega), load16_eq (by omega), load8_ofList (by omega),
    load8_ofList (by omega), load32_eq (by omega), load32_eq (by omega), hsender]
  simp only [Option.bind_eq_bind, Option.bind_some, byteAt_drop, read16_drop, read32_drop, drop_drop]
  split
  · rfl
  split
  · rw [Buffer.store_eq hstore, Option.bind_some, hgateway]
    rfl
  split
  · rw [sendArpAt_eq stale h hmac hmac]
    rfl
  · rfl

/-- **`handle_ipv4` stays inside the frame**: the lengths of the three headers are checked against each
other before they are used. -/
theorem handleIpv4At_eq (h : net.Sized) :
    handleIpv4At stale (.ofList frame) frame.length net = some (handleIpv4 frame net) := by
  rw [handleIpv4At, handleIpv4, ipv4Payload, ipv4PayloadAt]
  by_cases hshort : frame.length < 34
  · rw [if_pos hshort, if_pos hshort]
  rw [if_neg hshort, if_neg hshort]
  rw [load8_ofList (by omega), load8_ofList (by omega), load32_eq (by omega), load16_eq (by omega)]
  simp only [Option.bind_eq_bind, Option.bind_some, byteAt_drop, read16_drop, read32_drop, drop_drop,
    add_zero]
  split
  · rfl
  split
  · rfl
  rename_i hlengths
  have hheader : 14 + byteAt frame 14 % 2 ^ 4 * 4 ≤ frame.length := by omega
  have hinside : 14 + byteAt frame 14 % 2 ^ 4 * 4 ≤ (Buffer.ofList frame).size := hheader
  rw [internetChecksumAt_eq hinside, Buffer.readBytes_ofList hheader, Option.bind_some]
  split
  · rfl
  by_cases htotal : read16 frame 16 < byteAt frame 14 % 2 ^ 4 * 4 ∨ frame.length - 14 < read16 frame 16
  · rw [if_pos (show _ ∨ (frame.length : ℤ) - 14 < read16 frame 16 from htotal.imp_right fun _ => by omega),
      if_pos htotal]
  rw [if_neg (show ¬(_ ∨ (frame.length : ℤ) - 14 < read16 frame 16) by omega), if_neg htotal]
  have hlength : (read16 frame 16 : ℤ) - ((byteAt frame 14 % 2 ^ 4 * 4 : ℕ) : ℤ) =
      ((read16 frame 16 - byteAt frame 14 % 2 ^ 4 * 4 : ℕ) : ℤ) := by omega
  rw [hlength]
  by_cases hudp : byteAt frame 23 = ipProtocolUdp
  · have hother : byteAt frame 23 ≠ ipProtocolTcp := by
      rw [hudp]
      decide
    have hstatus : setStatus "IPv4/UDP packet received" = some () := rfl
    rw [if_pos hudp, hstatus, Option.bind_some]
    show some net = some (if byteAt frame 23 = ipProtocolTcp then _ else net)
    rw [if_neg hother]
  rw [if_neg hudp]
  split
  · rename_i htcp
    show _ = some (if byteAt frame 23 = ipProtocolTcp then _ else net)
    rw [if_pos htcp]
    exact handleTcpAt_eq stale h (by omega) (by omega)
  · rename_i hother
    show _ = some (if byteAt frame 23 = ipProtocolTcp then _ else net)
    rw [if_neg hother]

end Frames

namespace Network.Sized

variable {net : Network}

section

variable (h : net.Sized)

include h

theorem handleArp (frame : List UInt8) : (Net.handleArp frame net).Sized := by
  rw [Net.handleArp]
  split
  · exact h
  rename_i hshort
  simp only
  split
  · exact h
  split
  · refine ⟨h.localMac, ?_, h.received⟩
    rw [drop_drop]
    exact length_piece (by omega)
  split
  · exact h.transmit _
  · exact h

theorem handleIpv4 (frame : List UInt8) : (Net.handleIpv4 frame net).Sized := by
  rw [Net.handleIpv4]
  split
  · exact h
  split
  · exact h.handleTcp _ _
  · exact h

theorem countFrame : (Net.countFrame net).Sized := ⟨h.localMac, h.gatewayMac, h.received⟩

theorem pollFrame (frame : List UInt8) : (Net.pollFrame frame net).Sized := by
  rw [Net.pollFrame]
  simp only
  split
  · exact h.countFrame
  split
  · exact h.countFrame.handleArp frame
  split
  · exact h.countFrame.handleIpv4 frame
  · exact h.countFrame

theorem pollLoop (budget : ℕ) (pending : List (List UInt8)) :
    (Net.pollLoop budget pending net).2.Sized := by
  induction budget, pending, net using Net.pollLoop.induct with
  | case1 pending net => exact h
  | case2 budget net => exact h
  | case3 budget head pending net frame hempty =>
    rw [Net.pollLoop, if_pos hempty]
    exact h
  | case4 budget head pending net frame hfull ih =>
    rw [Net.pollLoop, if_neg hfull]
    exact ih (h.pollFrame _)

theorem pollArp (ticks : ℕ) : (Net.pollArp ticks net).Sized := by
  rw [Net.pollArp]
  split
  · have hsent := h.transmit
      (arpFrame (List.replicate 6 0xFF) net.localMac 1 (List.replicate 6 0) gatewayIp)
    exact ⟨hsent.localMac, hsent.gatewayMac, hsent.received⟩
  · exact h

theorem networkPoll (ticks : ℕ) (pending : List (List UInt8)) :
    (Net.networkPoll ticks pending net).2.Sized := by
  rw [Net.networkPoll]
  split
  · exact h
  · exact (h.pollLoop 16 pending).pollArp ticks

end

end Network.Sized

/-! ### Polls -/

section Polls

variable {net : Network} (stale : ℕ → UInt8)

theorem pollFrameAt_eq (h : net.Sized) (frame : List UInt8) :
    pollFrameAt stale frame net = some (pollFrame frame net) := by
  rw [pollFrameAt, pollFrame]
  simp only
  by_cases hshort : frame.length < 14
  · rw [if_pos hshort, if_pos hshort]
  rw [if_neg hshort, if_neg hshort, load16_eq (by omega), Option.bind_eq_bind, Option.bind_some]
  split
  · exact handleArpAt_eq stale h.countFrame
  split
  · exact handleIpv4At_eq stale h.countFrame
  · rfl

/-- **The loop of `network_poll`**, by induction on what is left of its budget. -/
theorem pollLoopAt_eq (h : net.Sized) (budget : ℕ) (pending : List (List UInt8)) :
    pollLoopAt stale budget pending net = some (pollLoop budget pending net) := by
  induction budget, pending, net using pollLoop.induct with
  | case1 pending net =>
    rw [pollLoopAt, pollLoop]
  | case2 budget net =>
    rw [pollLoopAt, pollLoop]
  | case3 budget head pending net frame hempty =>
    rw [pollLoopAt, pollLoop, if_pos hempty, if_pos hempty]
  | case4 budget head pending net frame hfull ih =>
    rw [pollLoopAt, pollLoop, if_neg hfull, if_neg hfull, pollFrameAt_eq stale h, Option.bind_eq_bind,
      Option.bind_some]
    exact ih (h.pollFrame _)

theorem pollArpAt_eq (h : net.Sized) (ticks : ℕ) : pollArpAt stale ticks net = some (pollArp ticks net) := by
  rw [pollArpAt, pollArp]
  split
  · rw [sendArpAt_eq stale h (length_replicate) (length_replicate)]
    rfl
  · rfl

/-- **One poll** stays inside, and does what the model on lists does. -/
theorem networkPollAt_eq (h : net.Sized) (ticks : ℕ) (pending : List (List UInt8)) :
    networkPollAt stale ticks pending net = some (networkPoll ticks pending net) := by
  rw [networkPollAt, networkPoll]
  split
  · rfl
  · rw [pollLoopAt_eq stale h, Option.bind_eq_bind, Option.bind_some,
      pollArpAt_eq stale (h.pollLoop 16 pending)]
    rfl

end Polls

/-! ### Runs -/

/-- The calls of the network stack.  What the local arrays of a poll hold before they are filled comes
with it. -/
inductive NetworkCall
  | poll (stale : ℕ → UInt8) (ticks : ℕ) (pending : List (List UInt8))
  | receive (capacity : ℕ)
  | send (data : List UInt8)
  | sendUdp (destinationIp destinationPort : ℕ) (data : List UInt8)
  | connect (destinationIp destinationPort ticks : ℕ)

namespace NetworkCall

def step (net : Network) : NetworkCall → Network
  | .poll _ ticks pending => (networkPoll ticks pending net).2
  | .receive capacity => (networkTcpReceive capacity net).2
  | .send data => (networkTcpSend data net).2
  | .sendUdp destinationIp destinationPort data => (networkSendUdp destinationIp destinationPort data net).2
  | .connect destinationIp destinationPort ticks =>
    (networkTcpConnect destinationIp destinationPort ticks net).2

/-- A call, with the polls on arrays. -/
def stepAt (net : Network) : NetworkCall → Option Network
  | .poll stale ticks pending => (networkPollAt stale ticks pending net).map Prod.snd
  | call => some (call.step net)

end NetworkCall

namespace Network.Sized

variable {net : Network}

theorem networkSendUdp (h : net.Sized) (destinationIp destinationPort : ℕ) (data : List UInt8) :
    (Net.networkSendUdp destinationIp destinationPort data net).2.Sized := by
  rw [Net.networkSendUdp]
  split
  · exact h
  · have hnext : ({ net with
        ipIdentifier := (net.ipIdentifier + 1) % 2 ^ 16
        udpSourcePort := (net.udpSourcePort + 1) % 2 ^ 16 } : Network).Sized :=
      ⟨h.localMac, h.gatewayMac, h.received⟩
    exact hnext.transmit _

theorem networkTcpReceive (h : net.Sized) (capacity : ℕ) :
    (Net.networkTcpReceive capacity net).2.Sized := by
  have hreceived := h.received
  rw [Net.networkTcpReceive]
  split
  · exact h
  · refine ⟨h.localMac, h.gatewayMac, ?_⟩
    rw [length_drop]
    omega

theorem networkTcpConnect (h : net.Sized) (destinationIp destinationPort ticks : ℕ) :
    (Net.networkTcpConnect destinationIp destinationPort ticks net).2.Sized := by
  rw [Net.networkTcpConnect]
  split
  · exact h
  have hopened : ({ net with
      tcpDestinationIp := destinationIp
      tcpDestinationPort := destinationPort
      tcpLocalPort := 50000
      tcpLocalSequence := ticks % 2 ^ 32 ^^^ 0x4E4F5641
      tcpRemoteSequence := 0
      tcpReceiveBuffer := []
      tcpState := .synSent } : Network).Sized := ⟨h.localMac, h.gatewayMac, zero_le _⟩
  have hsent := hopened.sendTcpSegment tcpSyn []
  simp only
  split
  · rename_i hdone
    rw [hdone] at hsent
    exact hsent
  · rename_i hfailed
    rw [hfailed] at hsent
    exact ⟨hsent.localMac, hsent.gatewayMac, hsent.received⟩

theorem step (h : net.Sized) (call : NetworkCall) : (call.step net).Sized := by
  cases call with
  | poll stale ticks pending => exact h.networkPoll ticks pending
  | receive capacity => exact h.networkTcpReceive capacity
  | send data => exact h.networkTcpSend data
  | sendUdp destinationIp destinationPort data => exact h.networkSendUdp _ _ _
  | connect destinationIp destinationPort ticks => exact h.networkTcpConnect _ _ _

end Network.Sized

theorem NetworkCall.stepAt_eq {net : Network} (h : net.Sized) (call : NetworkCall) :
    call.stepAt net = some (call.step net) := by
  cases call with
  | poll stale ticks pending =>
    show (networkPollAt stale ticks pending net).map Prod.snd = _
    rw [networkPollAt_eq stale h]
    rfl
  | receive capacity => rfl
  | send data => rfl
  | sendUdp destinationIp destinationPort data => rfl
  | connect destinationIp destinationPort ticks => rfl

/-- **Whatever the network sends, `network_poll` stays inside its buffers.**  In any run of calls, with
any frames, from any state of the connection, no poll reads behind the bytes that were received or
writes behind an array; the states are those of the model on lists, and `tcp_receive_size` never passes
8192. -/
theorem network_poll_memory_safe (net : Network) (h : net.Sized) (calls : List NetworkCall) :
    calls.foldlM NetworkCall.stepAt net = some (calls.foldl NetworkCall.step net) ∧
      (calls.foldl NetworkCall.step net).tcpReceiveBuffer.length ≤ 8192 := by
  induction calls generalizing net with
  | nil => exact ⟨rfl, h.received⟩
  | cons call calls ih =>
    rw [foldlM_cons, NetworkCall.stepAt_eq h]
    exact ih (call.step net) (h.step call)

/-- A frame whose headers claim more than was received, and a segment with data and a FIN, which is sent
twice. -/
theorem network_poll_memory_safe_hostile :
    let net : Network := ⟨⟨true, fun _ => true, 0, []⟩, List.replicate 6 1, List.replicate 6 2, true, true,
      0, 0, 0, 1, 49152, .established, gatewayIp, 7780, 50000, 1, 1000, [5]⟩
    let frame : List UInt8 := List.replicate 12 0 ++ be16 etherTypeIpv4 ++ [0x4F, 0] ++ be16 65535 ++
      List.replicate 30 0xFF
    let segment : List UInt8 := ethernetHeader net.localMac net.gatewayMac etherTypeIpv4 ++
      ipv4Header 9 ipProtocolTcp gatewayIp localIp 23 ++
      tcpSegment gatewayIp localIp 7780 50000 1000 1 (tcpFin ||| tcpAck) [7, 8, 9]
    let calls : List NetworkCall := [.poll (fun _ => 0xAA) 7 [frame, segment], .receive 2,
      .poll (fun _ => 0xAA) 9 [segment, frame]]
    net.Sized ∧ calls.foldlM NetworkCall.stepAt net = some (calls.foldl NetworkCall.step net) ∧
      (calls.foldl NetworkCall.step net).tcpReceiveBuffer = [8, 9] := by
  intro net frame segment calls
  have hsized : net.Sized := ⟨rfl, rfl, by decide⟩
  exact ⟨hsized, (network_poll_memory_safe net hsized calls).1, by decide +kernel⟩

end NovaOS.Net
