import HSFinancialServices.Lib.Ascii
import HSFinancialServices.Lib.WordBytes

/-!
# The wire protocol

Headers are eight bytes. The codec converts the length and the type with the
host's `htonl` and `htons` and then writes the result byte by byte with shifts,
so what reaches the wire depends on the byte order of the host.
-/

namespace HSFinancialServices
open WordBytes

inductive HostOrder
  | little
  | big
  deriving DecidableEq, Repr

/-- `htonl` and `ntohl` reverse the bytes on a little-endian host. -/
def htonl : HostOrder → UInt32 → UInt32
  | .little, x => swap32 x
  | .big, x => x

def htons : HostOrder → UInt16 → UInt16
  | .little, x => swap16 x
  | .big, x => x

def ntohl (host : HostOrder) (x : UInt32) : UInt32 := htonl host x
def ntohs (host : HostOrder) (x : UInt16) : UInt16 := htons host x

@[simp] theorem ntohl_htonl (host : HostOrder) (x : UInt32) : ntohl host (htonl host x) = x := by
  cases host <;> simp [ntohl, htonl]

@[simp] theorem ntohs_htons (host : HostOrder) (x : UInt16) : ntohs host (htons host x) = x := by
  cases host <;> simp [ntohs, htons]

def kMaxPayloadSize : UInt32 := 16 * 1024 * 1024

def kHeaderSize : ℕ := 8

theorem kMaxPayloadSize_toNat : kMaxPayloadSize.toNat = 16777216 := by decide

/-- The enumeration has a fixed underlying type: a header may carry any 16-bit value. -/
abbrev MessageType := UInt16

namespace MessageType
def kSqlQuery : MessageType := 0x0001
def kBuyOrder : MessageType := 0x0002
def kSellOrder : MessageType := 0x0003
def kGetPosition : MessageType := 0x0004
def kGetPriceHistory : MessageType := 0x0005
def kPing : MessageType := 0x0006
def kSqlResult : MessageType := 0x8001
def kOrderAck : MessageType := 0x8002
def kPositionResult : MessageType := 0x8004
def kPriceHistResult : MessageType := 0x8005
def kPong : MessageType := 0x8006
def kError : MessageType := 0xFFFF
end MessageType

structure MessageHeader where
  payloadLength : UInt32 := 0
  messageType : MessageType := MessageType.kPing
  flags : UInt8 := 0
  reserved : UInt8 := 0
  deriving DecidableEq, Repr

def encodeHeader (host : HostOrder) (hdr : MessageHeader) : Bytes :=
  let netLen := htonl host hdr.payloadLength
  let netType := htons host hdr.messageType
  [((netLen >>> 24) &&& 0xFF).toUInt8, ((netLen >>> 16) &&& 0xFF).toUInt8,
    ((netLen >>> 8) &&& 0xFF).toUInt8, (netLen &&& 0xFF).toUInt8,
    ((netType >>> 8) &&& 0xFF).toUInt8, (netType &&& 0xFF).toUInt8,
    hdr.flags, 0]

/-- Reads an eight-byte buffer; the oversized length is the only rejection. -/
def decodeHeader (host : HostOrder) (buf : Bytes) : Except String MessageHeader :=
  let netLen := (buf.getD 0 0).toUInt32 <<< 24 ||| (buf.getD 1 0).toUInt32 <<< 16 |||
    (buf.getD 2 0).toUInt32 <<< 8 ||| (buf.getD 3 0).toUInt32
  let netType := (buf.getD 4 0).toUInt16 <<< 8 ||| (buf.getD 5 0).toUInt16
  let hdr : MessageHeader :=
    { payloadLength := ntohl host netLen
      messageType := ntohs host netType
      flags := buf.getD 6 0
      reserved := buf.getD 7 0 }
  if hdr.payloadLength > kMaxPayloadSize then
    .error "payload_length exceeds kMaxPayloadSize"
  else .ok hdr

@[simp] theorem encodeHeader_length (host : HostOrder) (hdr : MessageHeader) :
    (encodeHeader host hdr).length = kHeaderSize := rfl

theorem encodeHeader_eq {host : HostOrder} {hdr : MessageHeader} {a b c d p q : UInt8}
    (hlen : htonl host hdr.payloadLength = be32 a b c d)
    (htype : htons host hdr.messageType = be16 p q) :
    encodeHeader host hdr = [a, b, c, d, p, q, hdr.flags, 0] := by
  simp only [encodeHeader, hlen, htype, mask32, mask16, be32_byte0, be32_byte1, be32_byte2,
    be32_byte3, be16_byte0, be16_byte1]

theorem decodeHeader_eq (host : HostOrder) (a b c d p q f r : UInt8) :
    decodeHeader host [a, b, c, d, p, q, f, r] =
      if ntohl host (be32 a b c d) > kMaxPayloadSize then
        .error "payload_length exceeds kMaxPayloadSize"
      else .ok ⟨ntohl host (be32 a b c d), ntohs host (be16 p q), f, r⟩ := rfl

theorem payloadLength_le {host : HostOrder} {buf : Bytes} {hdr : MessageHeader}
    (h : decodeHeader host buf = .ok hdr) : hdr.payloadLength ≤ kMaxPayloadSize := by
  simp only [decodeHeader] at h
  split at h
  · cases h
  · rename_i hle
    cases h
    exact UInt32.not_lt.mp hle

theorem exists_be32 (x : UInt32) : ∃ a b c d, x = be32 a b c d := ⟨_, _, _, _, (be32_bytes x).symm⟩

theorem exists_be16 (x : UInt16) : ∃ a b, x = be16 a b := ⟨_, _, (be16_bytes x).symm⟩

theorem decodeHeader_encodeHeader (host : HostOrder) (hdr : MessageHeader) :
    decodeHeader host (encodeHeader host hdr) =
      if hdr.payloadLength > kMaxPayloadSize then
        .error "payload_length exceeds kMaxPayloadSize"
      else .ok { hdr with reserved := 0 } := by
  obtain ⟨a, b, c, d, hlen⟩ := exists_be32 (htonl host hdr.payloadLength)
  obtain ⟨p, q, htype⟩ := exists_be16 (htons host hdr.messageType)
  rw [encodeHeader_eq hlen htype, decodeHeader_eq, ← hlen, ← htype, ntohl_htonl, ntohs_htons]

structure Message where
  header : MessageHeader
  payload : Bytes
  deriving DecidableEq, Repr

/-- The length is converted to 32 bits without a check. -/
def Message.make (type : MessageType) (jsonPayload : Bytes) (flags : UInt8) : Message :=
  { header :=
      { messageType := type
        payloadLength := UInt32.ofNat jsonPayload.length
        flags := flags }
    payload := jsonPayload }

@[simp] theorem Message.make_payload (type : MessageType) (p : Bytes) (f : UInt8) :
    (Message.make type p f).payload = p := rfl

@[simp] theorem Message.make_messageType (type : MessageType) (p : Bytes) (f : UInt8) :
    (Message.make type p f).header.messageType = type := rfl

def Message.serialise (host : HostOrder) (m : Message) : Bytes :=
  encodeHeader host m.header ++ m.payload

end HSFinancialServices
