import HSFinancialServices.Protocol

/-!
# The UI client's header codec against the server's

The client writes and reads the header with shifts alone, so its bytes are
big-endian on every host. The server's codec writes the bytes of `htonl`. The two
agree exactly where the byte reversal of the host changes nothing.
-/

namespace HSFinancialServices.Ui
open WordBytes

def kMaxPayload : UInt32 := 16 * 1024 * 1024

def encodeHeader (payloadLen : UInt32) (msgType : UInt16) (flags : UInt8) : Bytes :=
  [((payloadLen >>> 24) &&& 0xFF).toUInt8, ((payloadLen >>> 16) &&& 0xFF).toUInt8,
    ((payloadLen >>> 8) &&& 0xFF).toUInt8, (payloadLen &&& 0xFF).toUInt8,
    ((msgType >>> 8) &&& 0xFF).toUInt8, (msgType &&& 0xFF).toUInt8,
    flags, 0]

def decodeHeader (buf : Bytes) : UInt32 × UInt16 :=
  ((buf.getD 0 0).toUInt32 <<< 24 ||| (buf.getD 1 0).toUInt32 <<< 16 |||
    (buf.getD 2 0).toUInt32 <<< 8 ||| (buf.getD 3 0).toUInt32,
   (buf.getD 4 0).toUInt16 <<< 8 ||| (buf.getD 5 0).toUInt16)

theorem encodeHeader_be (a b c d p q f : UInt8) :
    encodeHeader (be32 a b c d) (be16 p q) f = [a, b, c, d, p, q, f, 0] := by
  simp only [encodeHeader, mask32, mask16, be32_byte0, be32_byte1, be32_byte2, be32_byte3,
    be16_byte0, be16_byte1]

theorem decodeHeader_be (a b c d p q f r : UInt8) :
    decodeHeader [a, b, c, d, p, q, f, r] = (be32 a b c d, be16 p q) := rfl

@[simp] theorem encodeHeader_length (n : UInt32) (t : UInt16) (f : UInt8) :
    (encodeHeader n t f).length = kHeaderSize := rfl

/-- The client's encoder is the server's encoder of a big-endian host. -/
theorem encodeHeader_eq_big (n : UInt32) (t : UInt16) (f r : UInt8) :
    encodeHeader n t f = HSFinancialServices.encodeHeader .big ⟨n, t, f, r⟩ := rfl

theorem server_decodes_client (host : HostOrder) (n : UInt32) (t : UInt16) (f : UInt8) :
    HSFinancialServices.decodeHeader host (encodeHeader n t f) =
      if ntohl host n > kMaxPayloadSize then
        .error "payload_length exceeds kMaxPayloadSize"
      else .ok ⟨ntohl host n, ntohs host t, f, 0⟩ := by
  obtain ⟨a, b, c, d, rfl⟩ := exists_be32 n
  obtain ⟨p, q, rfl⟩ := exists_be16 t
  rw [encodeHeader_be, decodeHeader_eq]

theorem client_decodes_server (host : HostOrder) (hdr : MessageHeader) :
    decodeHeader (HSFinancialServices.encodeHeader host hdr) =
      (htonl host hdr.payloadLength, htons host hdr.messageType) := by
  obtain ⟨a, b, c, d, hlen⟩ := exists_be32 (htonl host hdr.payloadLength)
  obtain ⟨p, q, htype⟩ := exists_be16 (htons host hdr.messageType)
  rw [encodeHeader_eq hlen htype, decodeHeader_be, hlen, htype]

/-- Each side reads the length and the type that the other one wrote. -/
def Interoperates (host : HostOrder) (n : UInt32) (t : UInt16) (f : UInt8) : Prop :=
  (∃ hdr, HSFinancialServices.decodeHeader host (encodeHeader n t f) = .ok hdr ∧
    hdr.payloadLength = n ∧ hdr.messageType = t ∧ hdr.flags = f) ∧
  decodeHeader (HSFinancialServices.encodeHeader host ⟨n, t, f, 0⟩) = (n, t)

theorem interoperates_iff (host : HostOrder) (n : UInt32) (t : UInt16) (f : UInt8)
    (hn : n ≤ kMaxPayloadSize) :
    Interoperates host n t f ↔ host = .big ∨ (swap32 n = n ∧ swap16 t = t) := by
  have hle : ¬ n > kMaxPayloadSize := by simpa using hn
  rw [Interoperates, server_decodes_client, client_decodes_server]
  cases host with
  | big => simp [ntohl, ntohs, htonl, htons, hle]
  | little =>
    simp only [ntohl, ntohs, htonl, htons, Prod.mk.injEq, reduceCtorEq, false_or]
    constructor
    · intro h
      exact h.2
    · intro h
      simp only [h.1, h.2, hle, if_false]
      exact ⟨⟨⟨n, t, f, 0⟩, rfl, rfl, rfl, rfl⟩, trivial, trivial⟩

theorem interoperates_iff_ping :
    (5 : UInt32) ≤ kMaxPayloadSize ∧
      (Interoperates .little 5 MessageType.kPing 0 ↔
        HostOrder.little = .big ∨
          (swap32 5 = 5 ∧ swap16 MessageType.kPing = MessageType.kPing)) :=
  ⟨by decide, interoperates_iff .little 5 MessageType.kPing 0 (by decide)⟩

theorem not_interoperates_ping : ¬ ∀ (host : HostOrder) (n : UInt32) (t : UInt16) (f : UInt8),
    n ≤ kMaxPayloadSize → Interoperates host n t f := by
  intro h
  have hdecode := (h .little 5 MessageType.kPing 0 (by decide)).2
  revert hdecode
  decide

end HSFinancialServices.Ui
