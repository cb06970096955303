import HSFinancialServices.Protocol
import Mathlib.Data.List.Basic
import Mathlib.Tactic.IntervalCases

/-!
# Which headers the decoder lets through

The codec loses nothing but the reserved byte: the encoder writes zero there, and the decoder
takes any value.
-/

namespace HSFinancialServices
open WordBytes

@[simp] theorem htonl_ntohl (host : HostOrder) (x : UInt32) : htonl host (ntohl host x) = x := by
  cases host <;> simp [ntohl, htonl]

@[simp] theorem htons_ntohs (host : HostOrder) (x : UInt16) : htons host (ntohs host x) = x := by
  cases host <;> simp [ntohs, htons]

def lengthField (host : HostOrder) (buf : Bytes) : UInt32 :=
  ntohl host (be32 (buf.getD 0 0) (buf.getD 1 0) (buf.getD 2 0) (buf.getD 3 0))

def reservedByte (buf : Bytes) : UInt8 := buf.getD 7 0

def Accepted (host : HostOrder) (buf : Bytes) : Prop := ∃ hdr, decodeHeader host buf = .ok hdr

/-- The encoder writes the buffer for a header whose length is no more than the maximum. -/
def Formatted (host : HostOrder) (buf : Bytes) : Prop :=
  ∃ hdr : MessageHeader, hdr.payloadLength ≤ kMaxPayloadSize ∧ encodeHeader host hdr = buf

theorem decodeHeader_eq_lengthField (host : HostOrder) (buf : Bytes) : decodeHeader host buf =
    if lengthField host buf > kMaxPayloadSize then
      .error "payload_length exceeds kMaxPayloadSize"
    else .ok ⟨lengthField host buf, ntohs host (be16 (buf.getD 4 0) (buf.getD 5 0)),
      buf.getD 6 0, reservedByte buf⟩ := rfl

theorem decodeHeader_ok_iff {host : HostOrder} {buf : Bytes} {hdr : MessageHeader} :
    decodeHeader host buf = .ok hdr ↔ lengthField host buf ≤ kMaxPayloadSize ∧
      hdr = ⟨lengthField host buf, ntohs host (be16 (buf.getD 4 0) (buf.getD 5 0)),
        buf.getD 6 0, reservedByte buf⟩ := by
  rw [decodeHeader_eq_lengthField, ← UInt32.not_lt]
  split
  · rename_i hlong
    simp [hlong]
  · rename_i hshort
    simp [hshort, eq_comm]

theorem accepted_iff {host : HostOrder} {buf : Bytes} :
    Accepted host buf ↔ lengthField host buf ≤ kMaxPayloadSize := by
  simp only [Accepted, decodeHeader_ok_iff, exists_and_left, exists_eq, and_true]

theorem headerBytes_eq {buf : Bytes} (hbuf : buf.length = kHeaderSize) :
    buf = [buf.getD 0 0, buf.getD 1 0, buf.getD 2 0, buf.getD 3 0,
      buf.getD 4 0, buf.getD 5 0, buf.getD 6 0, reservedByte buf] := by
  rw [kHeaderSize] at hbuf
  apply List.ext_getElem hbuf
  intro i hi _
  rw [hbuf] at hi
  interval_cases i <;> simp [hbuf, reservedByte]

theorem encodeHeader_of_decodeHeader {host : HostOrder} {buf : Bytes} {hdr : MessageHeader}
    (hbuf : buf.length = kHeaderSize) (h : decodeHeader host buf = .ok hdr) :
    encodeHeader host hdr = buf.set 7 0 := by
  obtain ⟨-, rfl⟩ := decodeHeader_ok_iff.mp h
  rw [encodeHeader_eq (htonl_ntohl host _) (htons_ntohs host _)]
  conv_rhs => rw [headerBytes_eq hbuf]
  rfl

theorem encodeHeader_of_reservedByte {host : HostOrder} {buf : Bytes} {hdr : MessageHeader}
    (hbuf : buf.length = kHeaderSize) (hreserved : reservedByte buf = 0)
    (h : decodeHeader host buf = .ok hdr) : encodeHeader host hdr = buf := by
  rw [encodeHeader_of_decodeHeader hbuf h]
  conv_lhs => rw [headerBytes_eq hbuf]
  conv_rhs => rw [headerBytes_eq hbuf, hreserved]
  rfl

theorem formatted_iff {host : HostOrder} {buf : Bytes} (hbuf : buf.length = kHeaderSize) :
    Formatted host buf ↔
      lengthField host buf ≤ kMaxPayloadSize ∧ reservedByte buf = 0 := by
  constructor
  · rintro ⟨hdr, hle, rfl⟩
    refine ⟨?_, rfl⟩
    apply accepted_iff.mp
    rw [Accepted, decodeHeader_encodeHeader, if_neg (UInt32.not_lt.mpr hle)]
    exact ⟨_, rfl⟩
  · rintro ⟨hle, hreserved⟩
    obtain ⟨hdr, hdecode⟩ := accepted_iff.mpr hle
    exact ⟨hdr, payloadLength_le hdecode, encodeHeader_of_reservedByte hbuf hreserved hdecode⟩

theorem header_roundTrip (host : HostOrder) :
    (∀ hdr : MessageHeader, hdr.payloadLength ≤ kMaxPayloadSize →
      decodeHeader host (encodeHeader host hdr) = .ok { hdr with reserved := 0 }) ∧
    (∀ hdr : MessageHeader, kMaxPayloadSize < hdr.payloadLength →
      ∃ what, decodeHeader host (encodeHeader host hdr) = .error what) ∧
    (∀ (buf : Bytes) (hdr : MessageHeader), buf.length = kHeaderSize → buf.getD 7 0 = 0 →
      decodeHeader host buf = .ok hdr → encodeHeader host hdr = buf) := by
  refine ⟨?_, ?_, ?_⟩
  · intro hdr hle
    rw [decodeHeader_encodeHeader, if_neg (UInt32.not_lt.mpr hle)]
  · intro hdr hlong
    rw [decodeHeader_encodeHeader, if_pos hlong]
    exact ⟨_, rfl⟩
  · intro buf hdr hbuf hreserved hdecode
    exact encodeHeader_of_reservedByte hbuf hreserved hdecode

theorem header_roundTrip_ping :
    decodeHeader .little (encodeHeader .little ⟨16777216, MessageType.kPing, 3, 9⟩) =
        .ok ⟨16777216, MessageType.kPing, 3, 0⟩ ∧
      (∃ what, decodeHeader .big (encodeHeader .big ⟨16777217, MessageType.kPing, 0, 0⟩) =
        .error what) ∧
      encodeHeader .little ⟨5, MessageType.kPing, 3, 0⟩ = [5, 0, 0, 0, 6, 0, 3, 0] :=
  ⟨(header_roundTrip .little).1 ⟨16777216, MessageType.kPing, 3, 9⟩ (by decide),
    (header_roundTrip .big).2.1 ⟨16777217, MessageType.kPing, 0, 0⟩ (by decide),
    (header_roundTrip .little).2.2 [5, 0, 0, 0, 6, 0, 3, 0] ⟨5, MessageType.kPing, 3, 0⟩ rfl rfl
      (by decide)⟩

structure ReadExactly (host : HostOrder) (buf : Bytes) : Prop where
  accepted_iff : Accepted host buf ↔ Formatted host buf
  rejected : buf.getD 7 0 ≠ 0 ∨ kMaxPayloadSize < lengthField host buf → ¬ Accepted host buf

/-- Of these buffers the decoder accepts what the encoder writes, and nothing else, and it does
not take one for the other. -/
structure ParsedExactly (host : HostOrder) (buf buf' : Bytes) : Prop where
  left : ReadExactly host buf
  right : ReadExactly host buf'
  distinct : ∀ hdr hdr', buf ≠ buf' → decodeHeader host buf = .ok hdr →
    decodeHeader host buf' = .ok hdr' → encodeHeader host hdr ≠ encodeHeader host hdr'

theorem readExactly_iff {host : HostOrder} {buf : Bytes} (hbuf : buf.length = kHeaderSize) :
    ReadExactly host buf ↔ reservedByte buf = 0 ∨ kMaxPayloadSize < lengthField host buf := by
  have hiff : (Accepted host buf ↔ Formatted host buf) ↔
      reservedByte buf = 0 ∨ kMaxPayloadSize < lengthField host buf := by
    rw [accepted_iff, formatted_iff hbuf, ← UInt32.not_le]
    tauto
  constructor
  · intro h
    exact hiff.mp h.accepted_iff
  · intro h
    have hformatted := hiff.mpr h
    refine ⟨hformatted, ?_⟩
    intro hbad haccepted
    obtain ⟨hle, hreserved⟩ := (formatted_iff hbuf).mp (hformatted.mp haccepted)
    obtain hnonzero | hlong := hbad
    · exact hnonzero hreserved
    · exact UInt32.not_lt.mpr hle hlong

theorem encodeHeader_of_readExactly {host : HostOrder} {buf : Bytes} {hdr : MessageHeader}
    (h : ReadExactly host buf) (hbuf : buf.length = kHeaderSize)
    (hdecode : decodeHeader host buf = .ok hdr) : encodeHeader host hdr = buf := by
  have hformatted := (formatted_iff hbuf).mp (h.accepted_iff.mp ⟨hdr, hdecode⟩)
  exact encodeHeader_of_reservedByte hbuf hformatted.2 hdecode

theorem parsedExactly_iff (host : HostOrder) {buf buf' : Bytes}
    (hbuf : buf.length = kHeaderSize) (hbuf' : buf'.length = kHeaderSize) :
    ParsedExactly host buf buf' ↔
      (buf.getD 7 0 = 0 ∨ kMaxPayloadSize < lengthField host buf) ∧
      (buf'.getD 7 0 = 0 ∨ kMaxPayloadSize < lengthField host buf') := by
  constructor
  · intro h
    exact ⟨(readExactly_iff hbuf).mp h.left, (readExactly_iff hbuf').mp h.right⟩
  · rintro ⟨h, h'⟩
    have hleft := (readExactly_iff hbuf).mpr h
    have hright := (readExactly_iff hbuf').mpr h'
    refine ⟨hleft, hright, ?_⟩
    intro hdr hdr' hne hdecode hdecode' heq
    apply hne
    rw [← encodeHeader_of_readExactly hleft hbuf hdecode, heq,
      encodeHeader_of_readExactly hright hbuf' hdecode']

theorem parsedExactly_iff_pings :
    ParsedExactly .big [0, 0, 0, 5, 0, 6, 0, 0] [0, 0, 0, 5, 0, 6, 0, 1] ↔
      (([0, 0, 0, 5, 0, 6, 0, 0] : Bytes).getD 7 0 = 0 ∨
        kMaxPayloadSize < lengthField .big [0, 0, 0, 5, 0, 6, 0, 0]) ∧
      (([0, 0, 0, 5, 0, 6, 0, 1] : Bytes).getD 7 0 = 0 ∨
        kMaxPayloadSize < lengthField .big [0, 0, 0, 5, 0, 6, 0, 1]) :=
  parsedExactly_iff .big rfl rfl

theorem not_parsedExactly_reserved : ¬ ∀ (host : HostOrder) (buf buf' : Bytes),
    buf.length = kHeaderSize → buf'.length = kHeaderSize → ParsedExactly host buf buf' := by
  intro h
  have hrejected := (h .big [0, 0, 0, 5, 0, 6, 0, 1] [0, 0, 0, 5, 0, 6, 0, 0] rfl rfl).left.rejected
    (Or.inl (by decide))
  exact hrejected ⟨⟨5, MessageType.kPing, 0, 1⟩, by decide⟩

end HSFinancialServices
