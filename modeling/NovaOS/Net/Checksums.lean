import NovaOS.Net.Network
import Mathlib.Data.List.GetD

/-!
# Frames that the other side accepts

`send_tcp_segment` fills in two checksums over fields that are zero while it computes them, and the
receiver sums over the filled-in fields.  Both sums are taken in words of 16 bits with the carries
folded back, which is arithmetic modulo 2¹⁶ − 1 in which zero and 2¹⁶ − 1 are told apart.

* `foldCarries_mod`, `foldCarries_eq_zero` — what the fold keeps;
* `complement_cancel` — a sum to which its own complement is added has the complement zero;
* `internetChecksum_ipv4Header`, `tcpChecksum_tcpSegment` — the checksums of what is sent;
* `sendTcpSegment_result` — what `send_tcp_segment` hands to the adapter, and when;
* `sent_frames_verify` — **a peer accepts every frame and reads back what was sent**.
-/

namespace NovaOS.Net

open List Nat

/-! ### Sums of words -/

/-- The words of some bytes, added up. -/
def wordSum : List UInt8 → ℕ
  | [] => 0
  | [last] => last.toNat * 2 ^ 8
  | high :: low :: rest => high.toNat * 2 ^ 8 + low.toNat + wordSum rest

theorem sumWords_eq {sum : ℕ} (bytes : List UInt8) (h : sum < 2 ^ 32) :
    sumWords sum bytes = (sum + wordSum bytes) % 2 ^ 32 := by
  induction bytes using wordSum.induct generalizing sum with
  | case1 =>
    rw [sumWords, wordSum, add_zero, mod_eq_of_lt h]
  | case2 last => rw [sumWords, wordSum]
  | case3 high low rest ih =>
    rw [sumWords, wordSum, ih (mod_lt _ (by decide)), mod_add_mod, add_assoc]

theorem wordSum_append {front : List UInt8} (back : List UInt8) (h : front.length % 2 = 0) :
    wordSum (front ++ back) = wordSum front + wordSum back := by
  induction front using wordSum.induct with
  | case1 => rw [nil_append, wordSum, zero_add]
  | case2 last =>
    rw [length_singleton] at h
    omega
  | case3 high low rest ih =>
    have hrest : rest.length % 2 = 0 := by
      rw [length_cons, length_cons] at h
      omega
    rw [cons_append, cons_append, wordSum, wordSum, ih hrest, ← add_assoc]

theorem wordSum_le (bytes : List UInt8) : wordSum bytes ≤ bytes.length * 2 ^ 16 := by
  induction bytes using wordSum.induct with
  | case1 => exact zero_le _
  | case2 last =>
    have hlast := last.toNat_lt
    rw [wordSum, length_singleton]
    omega
  | case3 high low rest ih =>
    have hhigh := high.toNat_lt
    have hlow := low.toNat_lt
    rw [wordSum, length_cons, length_cons]
    omega

@[simp] theorem length_be16 (value : ℕ) : (be16 value).length = 2 := rfl

@[simp] theorem length_be32 (value : ℕ) : (be32 value).length = 4 := rfl

theorem be16_value (value : ℕ) :
    (UInt8.ofNat (value / 2 ^ 8)).toNat * 2 ^ 8 + (UInt8.ofNat value).toNat = value % 2 ^ 16 := by
  rw [UInt8.toNat_ofNat', UInt8.toNat_ofNat']
  omega

theorem wordSum_be16 {value : ℕ} (h : value < 2 ^ 16) : wordSum (be16 value) = value := by
  rw [be16, wordSum, wordSum, add_zero, be16_value, mod_eq_of_lt h]

/-! ### Complements -/

theorem foldCarries_mod (sum : ℕ) : foldCarries 2 sum % (2 ^ 16 - 1) = sum % (2 ^ 16 - 1) := by
  simp only [foldCarries]
  split
  · rfl
  · split
    · omega
    · omega

theorem foldCarries_eq_zero {sum : ℕ} (h : foldCarries 2 sum = 0) : sum = 0 := by
  simp only [foldCarries] at h
  split at h
  · exact h
  · split at h
    · omega
    · omega

theorem complement_lt (sum : ℕ) : complement sum < 2 ^ 16 := by
  rw [complement]
  omega

/-- **A sum and its complement**: together they have the complement zero. -/
theorem complement_cancel {sum : ℕ} (h : sum + 2 ^ 16 < 2 ^ 32) :
    complement (sum + complement sum) = 0 := by
  have hlt := foldCarries_lt (show sum < 2 ^ 32 by omega)
  have hmod := foldCarries_mod sum
  have hcomplement : complement sum = 2 ^ 16 - 1 - foldCarries 2 sum := by
    rw [complement, mod_eq_of_lt (by omega)]
  rw [hcomplement]
  generalize htotal : sum + (2 ^ 16 - 1 - foldCarries 2 sum) = total
  have hlt' := foldCarries_lt (show total < 2 ^ 32 by omega)
  have hmod' := foldCarries_mod total
  -- the total is a multiple of 2¹⁶ − 1, and not zero
  have hpositive : foldCarries 2 total ≠ 0 := by
    intro hzero
    have htotal' := foldCarries_eq_zero hzero
    have hsum : sum = 0 := by omega
    rw [hsum] at htotal
    have hnothing : foldCarries 2 0 = 0 := rfl
    omega
  rw [complement]
  omega

/-! ### The checksums of a frame -/

/-- A word that holds the complement of all the others. -/
theorem complement_sumWords {start : ℕ} {front back : List UInt8} (heven : front.length % 2 = 0)
    (hsmall : start + (front.length + back.length + 2) * 2 ^ 16 < 2 ^ 32) :
    complement (sumWords start
      (front ++ be16 (complement (sumWords start (front ++ be16 0 ++ back))) ++ back)) = 0 := by
  have hfront := wordSum_le front
  have hback := wordSum_le back
  have hsum : ∀ value, value < 2 ^ 16 → sumWords start (front ++ be16 value ++ back) =
      start + wordSum front + wordSum back + value := by
    intro value hvalue
    have heven' : (front ++ be16 value).length % 2 = 0 := by
      rw [length_append, length_be16]
      omega
    rw [sumWords_eq _ (by omega), wordSum_append _ heven', wordSum_append _ heven,
      wordSum_be16 hvalue, mod_eq_of_lt (by omega)]
    omega
  rw [hsum _ (complement_lt _), hsum 0 (by decide), add_zero]
  exact complement_cancel (by omega)

theorem length_ipv4Header (identification protocol source destination length : ℕ) :
    (ipv4Header identification protocol source destination length).length = 20 := rfl

/-- **The IPv4 header** has the checksum zero. -/
theorem internetChecksum_ipv4Header (identification protocol source destination length : ℕ) :
    internetChecksum (ipv4Header identification protocol source destination length) = 0 := by
  rw [internetChecksum, ipv4Header]
  refine complement_sumWords (by simp) ?_
  simp

theorem length_tcpHeader (sourcePort destinationPort sequence acknowledgement : ℕ) (flags : UInt8)
    (checksum : ℕ) :
    (tcpHeader sourcePort destinationPort sequence acknowledgement flags checksum).length = 20 := rfl

theorem length_tcpSegment (source destination sourcePort destinationPort sequence acknowledgement : ℕ)
    (flags : UInt8) (data : List UInt8) :
    (tcpSegment source destination sourcePort destinationPort sequence acknowledgement flags
      data).length = 20 + data.length := by
  rw [tcpSegment, length_append, length_tcpHeader]

/-- **The TCP segment** has the checksum zero, whatever its length. -/
theorem tcpChecksum_tcpSegment {source destination : ℕ}
    (sourcePort destinationPort sequence acknowledgement : ℕ) (flags : UInt8) {data : List UInt8}
    (hsource : source < 2 ^ 32) (hdestination : destination < 2 ^ 32) (hdata : data.length ≤ 1400) :
    tcpChecksum source destination (tcpSegment source destination sourcePort destinationPort sequence
      acknowledgement flags data) (20 + data.length) = 0 := by
  have hwhole : ∀ checksum, (tcpHeader sourcePort destinationPort sequence acknowledgement flags
      checksum ++ data).take (20 + data.length) =
      tcpHeader sourcePort destinationPort sequence acknowledgement flags checksum ++ data := by
    intro checksum
    refine take_of_length_le (le_of_eq ?_)
    rw [length_append, length_tcpHeader]
  rw [tcpSegment]
  simp only [tcpChecksum, hwhole]
  generalize hstart : (source / 2 ^ 16 + source % 2 ^ 16 + destination / 2 ^ 16 +
    destination % 2 ^ 16 + ipProtocolTcp + (20 + data.length)) % 2 ^ 32 = start
  have hprotocol : ipProtocolTcp = 6 := rfl
  have hle : start ≤ source / 2 ^ 16 + source % 2 ^ 16 + destination / 2 ^ 16 +
      destination % 2 ^ 16 + ipProtocolTcp + (20 + data.length) := by
    rw [← hstart]
    exact mod_le _ _
  -- the checksum field stands between two even parts
  have hsplit : ∀ checksum, tcpHeader sourcePort destinationPort sequence acknowledgement flags
      checksum ++ data = (be16 sourcePort ++ be16 destinationPort ++ be32 sequence ++
        be32 acknowledgement ++ [0x50, flags] ++ be16 8192) ++ be16 checksum ++ (be16 0 ++ data) := by
    intro checksum
    rw [tcpHeader, append_assoc _ (be16 0) data]
  rw [hsplit, hsplit]
  refine complement_sumWords (by simp) ?_
  simp only [length_append, length_be16, length_be32, length_cons, length_nil]
  omega

/-! ### Reading the fields back -/

/-- A field that `swap16` writes and reads, at the position with `back` behind it. -/
theorem read16_of_drop {bytes back : List UInt8} {i value : ℕ}
    (hi : bytes.drop i = be16 value ++ back) : read16 bytes i = value % 2 ^ 16 := by
  have hbyte : ∀ j, byteAt bytes (i + j) = ((be16 value ++ back).getD j 0).toNat := by
    intro j
    rw [byteAt, ← hi, getD_eq_getElem?_getD, getD_eq_getElem?_getD, List.getElem?_drop]
  rw [read16, hbyte 1, ← be16_value]
  exact congrArg (· * 2 ^ 8 + _) (hbyte 0)

/-- A field that `swap32` writes and reads. -/
theorem read32_of_drop {bytes back : List UInt8} {i value : ℕ}
    (hi : bytes.drop i = be32 value ++ back) : read32 bytes i = value % 2 ^ 32 := by
  have hlow : bytes.drop (i + 2) = be16 value ++ back := by
    rw [← drop_drop, hi]
    rfl
  have hhigh : bytes.drop i = be16 (value / 2 ^ 16) ++ (be16 value ++ back) := hi
  rw [read32, read16_of_drop hhigh, read16_of_drop hlow]
  omega

/-- The fields of an IPv4 header that the receiver reads. -/
theorem ipv4Header_fields {protocol source destination length : ℕ} (identification : ℕ)
    (rest : List UInt8) (hprotocol : protocol < 2 ^ 8) (hsource : source < 2 ^ 32)
    (hdestination : destination < 2 ^ 32) (hlength : 20 + length < 2 ^ 16) :
    let ip := ipv4Header identification protocol source destination length ++ rest
    byteAt ip 0 = 0x45 ∧ read16 ip 2 = 20 + length ∧ byteAt ip 9 = protocol ∧ read32 ip 12 = source ∧
      read32 ip 16 = destination := by
  intro ip
  refine ⟨rfl, ?_, ?_, ?_, ?_⟩
  · exact (read16_of_drop rfl).trans (mod_eq_of_lt hlength)
  · show (UInt8.ofNat protocol).toNat = protocol
    rw [UInt8.toNat_ofNat', mod_eq_of_lt hprotocol]
  · exact (read32_of_drop rfl).trans (mod_eq_of_lt hsource)
  · exact (read32_of_drop rfl).trans (mod_eq_of_lt hdestination)

/-- The fields of a TCP segment that the receiver reads. -/
theorem tcpSegment_fields {sourcePort destinationPort sequence acknowledgement : ℕ}
    (source destination : ℕ) (flags : UInt8) (data : List UInt8) (hsource : sourcePort < 2 ^ 16)
    (hdestination : destinationPort < 2 ^ 16) (hsequence : sequence < 2 ^ 32)
    (hacknowledgement : acknowledgement < 2 ^ 32) :
    let segment := tcpSegment source destination sourcePort destinationPort sequence acknowledgement
      flags data
    read16 segment 0 = sourcePort ∧ read16 segment 2 = destinationPort ∧
      read32 segment 4 = sequence ∧ read32 segment 8 = acknowledgement ∧ byteAt segment 12 = 0x50 ∧
      segment.getD 13 0 = flags ∧ segment.drop 20 = data := by
  intro segment
  refine ⟨?_, ?_, ?_, ?_, rfl, rfl, rfl⟩
  · exact (read16_of_drop rfl).trans (mod_eq_of_lt hsource)
  · exact (read16_of_drop rfl).trans (mod_eq_of_lt hdestination)
  · exact (read32_of_drop rfl).trans (mod_eq_of_lt hsequence)
  · exact (read32_of_drop rfl).trans (mod_eq_of_lt hacknowledgement)

/-! ### The receiver -/

/-- The widths of the fields in the source. -/
structure Network.Fits (net : Network) : Prop where
  localMac : net.localMac.length = 6
  gatewayMac : net.gatewayMac.length = 6
  destinationIp : net.tcpDestinationIp < 2 ^ 32
  destinationPort : net.tcpDestinationPort < 2 ^ 16
  localPort : net.tcpLocalPort < 2 ^ 16
  localSequence : net.tcpLocalSequence < 2 ^ 32
  remoteSequence : net.tcpRemoteSequence < 2 ^ 32

/-- The other end of a connection: ports and addresses are exchanged. -/
structure Network.Faces (peer net : Network) : Prop where
  localPort : peer.tcpLocalPort = net.tcpDestinationPort
  destinationPort : peer.tcpDestinationPort = net.tcpLocalPort
  destinationIp : peer.tcpDestinationIp = localIp

section Sent

variable {net peer : Network} {flags : UInt8} {data : List UInt8}

/-- **The sender**: a frame that the adapter can take goes out, and nothing else does. -/
theorem sendTcpSegment_result (hdata : data.length ≤ 1400)
    (hframe : (tcpFrame net flags data).length = 54 + data.length) :
    let sent := sendTcpSegment flags data net
    (sent.1 = true ↔ net.gatewayReady = true ∧ net.adapter.available = true ∧
      net.adapter.free net.adapter.calls = true) ∧
    sent.2.adapter.sent =
      if sent.1 then net.adapter.sent ++ [tcpFrame net flags data] else net.adapter.sent := by
  intro sent
  cases hready : net.gatewayReady with
  | false =>
    have hrefused : sent = (false, net) := if_pos (.inl hready)
    rw [hrefused]
    simp
  | true =>
    have hgoes : ¬ (net.gatewayReady = false ∨ 1400 < data.length) :=
      not_or.2 ⟨ne_false_of_eq_true hready, by omega⟩
    cases havailable : net.adapter.available with
    | false => simp [sent, sendTcpSegment, hgoes, transmit, e1000Send, havailable]
    | true =>
      have hsize : ¬ (54 + data.length < 14 ∨ 2048 < 54 + data.length) := by omega
      cases hfree : net.adapter.free net.adapter.calls with
      | false => simp [sent, sendTcpSegment, hgoes, transmit, e1000Send, havailable, hframe, hsize, hfree]
      | true => simp [sent, sendTcpSegment, hgoes, transmit, e1000Send, havailable, hframe, hsize, hfree]

theorem drop_tcpFrame (hfits : net.Fits) (flags : UInt8) (data : List UInt8) :
    (tcpFrame net flags data).drop 14 =
      ipv4Header net.ipIdentifier ipProtocolTcp localIp net.tcpDestinationIp (20 + data.length) ++
        tcpSegment localIp net.tcpDestinationIp net.tcpLocalPort net.tcpDestinationPort
          net.tcpLocalSequence net.tcpRemoteSequence flags data := by
  have hlength : (ethernetHeader net.gatewayMac net.localMac etherTypeIpv4).length = 14 := by
    rw [ethernetHeader, length_append, length_append, hfits.gatewayMac, hfits.localMac, length_be16]
  rw [tcpFrame, append_assoc, ← hlength, drop_left]

/-- **Sent frames verify.**  Both checksums of a frame are valid, and a peer with addresses and ports
exchanged accepts it and reads back sequence, acknowledgement, flags and payload.  This frame is what
`send_tcp_segment` hands over, and it does so whenever the gateway is known and a descriptor is
free. -/
theorem sent_frames_verify (hfits : net.Fits) (hfaces : peer.Faces net) (hdata : data.length ≤ 1400) :
    let frame := tcpFrame net flags data
    let segment := frame.drop 34
    internetChecksum ((frame.drop 14).take 20) = 0 ∧
      tcpChecksum localIp net.tcpDestinationIp segment segment.length = 0 ∧
      ipv4PayloadAt net.tcpDestinationIp frame = some (ipProtocolTcp, localIp, segment) ∧
      receivedSegmentAt net.tcpDestinationIp peer localIp segment =
        some ⟨flags, net.tcpLocalSequence, net.tcpRemoteSequence, data⟩ ∧
      let sent := sendTcpSegment flags data net
      (sent.1 = true ↔ net.gatewayReady = true ∧ net.adapter.available = true ∧
        net.adapter.free net.adapter.calls = true) ∧
      sent.2.adapter.sent = if sent.1 then net.adapter.sent ++ [frame] else net.adapter.sent := by
  intro frame segment
  generalize hheader : ipv4Header net.ipIdentifier ipProtocolTcp localIp net.tcpDestinationIp
    (20 + data.length) = header
  generalize htcp : tcpSegment localIp net.tcpDestinationIp net.tcpLocalPort net.tcpDestinationPort
    net.tcpLocalSequence net.tcpRemoteSequence flags data = tcp
  have hlength : header.length = 20 := by rw [← hheader, length_ipv4Header]
  have htcpLength : tcp.length = 20 + data.length := by rw [← htcp, length_tcpSegment]
  have hip : frame.drop 14 = header ++ tcp := by rw [← hheader, ← htcp, ← drop_tcpFrame hfits]
  have htake : (frame.drop 14).take 20 = header := by rw [hip, ← hlength, take_left]
  have hsegment : segment = tcp := by
    show frame.drop (14 + 20) = tcp
    rw [← drop_drop, hip, ← hlength, drop_left]
  have hframe : frame.length = 54 + data.length := by
    have hsum := congrArg List.length hip
    rw [length_drop, length_append, hlength, htcpLength] at hsum
    omega
  have hlocal : localIp < 2 ^ 32 := by decide
  have hchecksum : internetChecksum header = 0 := by
    rw [← hheader]
    exact internetChecksum_ipv4Header ..
  have htcpChecksum : tcpChecksum localIp net.tcpDestinationIp tcp tcp.length = 0 := by
    rw [htcpLength, ← htcp]
    exact tcpChecksum_tcpSegment _ _ _ _ _ hlocal hfits.destinationIp hdata
  refine ⟨by rw [htake, hchecksum], by rw [hsegment, htcpChecksum], ?_, ?_,
    sendTcpSegment_result hdata hframe⟩
  · obtain ⟨hversion, htotal, hprotocol, hsource, hdestination⟩ := ipv4Header_fields
      net.ipIdentifier tcp (show ipProtocolTcp < 2 ^ 8 by decide) hlocal hfits.destinationIp
      (show 20 + (20 + data.length) < 2 ^ 16 by omega)
    rw [hheader] at hversion htotal hprotocol hsource hdestination
    rw [ipv4PayloadAt, if_neg (by omega)]
    simp only [hip, hversion, hdestination, htotal, hprotocol, hsource]
    have htake' : (header ++ tcp).take 20 = header := by rw [← hlength, take_left]
    have hdrop : (header ++ tcp).drop 20 = tcp := by rw [← hlength, drop_left]
    have hwhole : tcp.take (20 + (20 + data.length) - 20) = tcp := take_of_length_le (by omega)
    rw [if_neg (by simp), if_neg (by omega)]
    show (if internetChecksum ((header ++ tcp).take 20) ≠ 0 then none else
      if 20 + (20 + data.length) < 20 ∨ frame.length - 14 < 20 + (20 + data.length) then none
      else some (ipProtocolTcp, localIp,
        ((header ++ tcp).drop 20).take (20 + (20 + data.length) - 20))) = _
    rw [htake', hchecksum, if_neg (by decide), if_neg (by omega), hdrop, hwhole, hsegment]
  · obtain ⟨hsource, hdestination, hsequence, hacknowledgement, hoffset, hflags, hpayload⟩ :=
      tcpSegment_fields localIp net.tcpDestinationIp flags data hfits.localPort hfits.destinationPort
        hfits.localSequence hfits.remoteSequence
    rw [htcp] at hsource hdestination hsequence hacknowledgement hoffset hflags hpayload
    have hports : ¬ (0x50 / 2 ^ 4 * 4 < 20 ∨ tcp.length < 0x50 / 2 ^ 4 * 4 ∨
        net.tcpDestinationPort ≠ peer.tcpLocalPort ∨ net.tcpLocalPort ≠ peer.tcpDestinationPort ∨
        localIp ≠ peer.tcpDestinationIp) := by
      rw [hfaces.localPort, hfaces.destinationPort, hfaces.destinationIp]
      omega
    rw [hsegment, receivedSegmentAt, if_neg (by omega)]
    simp only [hsource, hdestination, hsequence, hacknowledgement, hoffset, hflags]
    rw [if_neg hports, hfaces.destinationIp, mod_eq_of_lt (by omega), htcpChecksum,
      if_neg (by decide)]
    show some (⟨flags, net.tcpLocalSequence, net.tcpRemoteSequence, tcp.drop 20⟩ : Segment) = _
    rw [hpayload]

/-- Three bytes and a FIN, on a connection to 10.0.2.2. -/
theorem sent_frames_verify_fin :
    let net : Network := ⟨⟨true, fun _ => true, 0, []⟩, List.replicate 6 1, List.replicate 6 2, true, true,
      0, 0, 0, 1, 49152, .established, gatewayIp, 7780, 50000, 2 ^ 32 - 1, 1000, []⟩
    let peer : Network := { net with
      tcpDestinationIp := localIp, tcpDestinationPort := 50000, tcpLocalPort := 7780 }
    receivedSegmentAt gatewayIp peer localIp ((tcpFrame net (tcpFin ||| tcpAck) [7, 8, 9]).drop 34) =
      some ⟨tcpFin ||| tcpAck, 2 ^ 32 - 1, 1000, [7, 8, 9]⟩ ∧
      (sendTcpSegment (tcpFin ||| tcpAck) [7, 8, 9] net).1 = true := by
  intro net peer
  have hfits : net.Fits := ⟨rfl, rfl, by decide, by decide, by decide, by decide, by decide⟩
  have hfaces : peer.Faces net := ⟨rfl, rfl, rfl⟩
  obtain ⟨-, -, -, hread, hsent, -⟩ :=
    sent_frames_verify hfits hfaces (show [7, 8, 9].length ≤ 1400 by decide)
  exact ⟨hread, hsent.2 ⟨rfl, rfl, rfl⟩⟩

end Sent

end NovaOS.Net
