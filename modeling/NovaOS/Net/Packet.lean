import Mathlib.Data.List.Basic
import Mathlib.Tactic.Ring

/-!
# Frames: byte order, checksums and headers

A frame is a list of bytes.  The packed structures of `network.c` are byte ranges of it; a field that
the source swaps with `swap16` or `swap32` stands in the frame with its high byte first.

* `read16`, `read32`, `be16`, `be32` — swapped fields, read and written;
* `internetChecksum`, `tcpChecksum` — the complemented sum of 16-bit words, with the carries folded
  back (`foldCarries_lt`: two rounds are enough for a 32-bit sum);
* `ethernetHeader`, `ipv4Header`, `tcpHeader` — the headers the kernel writes.
-/

namespace NovaOS.Net

def etherTypeIpv4 : ℕ := 0x0800
def etherTypeArp : ℕ := 0x0806
def ipProtocolUdp : ℕ := 17
def ipProtocolTcp : ℕ := 6

def tcpFin : UInt8 := 0x01
def tcpSyn : UInt8 := 0x02
def tcpRst : UInt8 := 0x04
def tcpPsh : UInt8 := 0x08
def tcpAck : UInt8 := 0x10

/-- `IPV4(10,0,2,15)`. -/
def localIp : ℕ := 0x0A00020F

/-- `IPV4(10,0,2,2)`. -/
def gatewayIp : ℕ := 0x0A000202

/-! ### Byte order -/

/-- The byte at position `i`; every use stands behind a length check. -/
def byteAt (bytes : List UInt8) (i : ℕ) : ℕ := (bytes.getD i 0).toNat

def read16 (bytes : List UInt8) (i : ℕ) : ℕ := byteAt bytes i * 2 ^ 8 + byteAt bytes (i + 1)

def read32 (bytes : List UInt8) (i : ℕ) : ℕ := read16 bytes i * 2 ^ 16 + read16 bytes (i + 2)

def be16 (value : ℕ) : List UInt8 := [UInt8.ofNat (value / 2 ^ 8), UInt8.ofNat value]

def be32 (value : ℕ) : List UInt8 := be16 (value / 2 ^ 16) ++ be16 value

/-! ### Checksums -/

/-- The loop over the 16-bit words, the odd byte at the end included. -/
def sumWords : ℕ → List UInt8 → ℕ
  | sum, [] => sum
  | sum, [last] => (sum + last.toNat * 2 ^ 8) % 2 ^ 32
  | sum, high :: low :: rest => sumWords ((sum + (high.toNat * 2 ^ 8 + low.toNat)) % 2 ^ 32) rest

/-- `while (sum >> 16) sum = (sum & 0xFFFF) + (sum >> 16);` -/
def foldCarries : ℕ → ℕ → ℕ
  | 0, sum => sum
  | rounds + 1, sum =>
    if sum / 2 ^ 16 = 0 then sum else foldCarries rounds (sum % 2 ^ 16 + sum / 2 ^ 16)

/-- Two rounds end the loop on every 32-bit sum. -/
theorem foldCarries_lt {sum : ℕ} (h : sum < 2 ^ 32) : foldCarries 2 sum / 2 ^ 16 = 0 := by
  simp only [foldCarries]
  split
  · assumption
  · split
    · assumption
    · omega

/-- `(uint16_t)~sum` after the fold. -/
def complement (sum : ℕ) : ℕ := 2 ^ 16 - 1 - foldCarries 2 sum % 2 ^ 16

def internetChecksum (data : List UInt8) : ℕ := complement (sumWords 0 data)

def tcpChecksum (source destination : ℕ) (segment : List UInt8) (length : ℕ) : ℕ :=
  let sum := (source / 2 ^ 16 + source % 2 ^ 16 + destination / 2 ^ 16 + destination % 2 ^ 16 +
    ipProtocolTcp + length) % 2 ^ 32
  complement (sumWords sum (segment.take length))

/-! ### Headers -/

def ethernetHeader (destination source : List UInt8) (type : ℕ) : List UInt8 :=
  destination ++ source ++ be16 type

/-- The twenty bytes of `Ipv4Header` in front of `length` bytes of payload, checksum included. -/
def ipv4Header (identification protocol source destination length : ℕ) : List UInt8 :=
  let front := [0x45, 0] ++ be16 (20 + length) ++ be16 identification ++ be16 0x4000 ++
    [64, UInt8.ofNat protocol]
  let addresses := be32 source ++ be32 destination
  front ++ be16 (internetChecksum (front ++ be16 0 ++ addresses)) ++ addresses

/-- The twenty bytes of `TcpHeader` with a given checksum field: no options, a window of 8192. -/
def tcpHeader (sourcePort destinationPort sequence acknowledgement : ℕ) (flags : UInt8)
    (checksum : ℕ) : List UInt8 :=
  be16 sourcePort ++ be16 destinationPort ++ be32 sequence ++ be32 acknowledgement ++
    [0x50, flags] ++ be16 8192 ++ be16 checksum ++ be16 0

/-- A TCP segment with its checksum. -/
def tcpSegment (source destination sourcePort destinationPort sequence acknowledgement : ℕ)
    (flags : UInt8) (data : List UInt8) : List UInt8 :=
  let header := tcpHeader sourcePort destinationPort sequence acknowledgement flags
  header (tcpChecksum source destination (header 0 ++ data) (20 + data.length)) ++ data

end NovaOS.Net
