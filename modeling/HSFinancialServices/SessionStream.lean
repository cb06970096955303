import HSFinancialServices.Lib.Framing
import HSFinancialServices.Session

/-!
# What a session makes of its byte stream

`Tracks` ties a connection to the exchanges of its session: the bytes read so far
are the frames of the dispatched requests and a header still without its body, and
the bytes written are the frames of the responses in the same order. Every
completion keeps it. Run to the end of the stream without an I/O error, a session
has dispatched exactly the frames the stream starts with.
-/

namespace HSFinancialServices
open Framing

variable {σ : Type*} {host : HostOrder} {router : ServiceRouter σ}

def wireFormat (host : HostOrder) : Format UInt8 where
  headerSize := kHeaderSize
  bodyLength header :=
    match decodeHeader host header with
    | .ok hdr => some hdr.payloadLength.toNat
    | .error _ => none

structure Carries (host : HostOrder) (f : Frame UInt8) (m : Message) : Prop where
  size : f.header.length = kHeaderSize
  header : decodeHeader host f.header = .ok m.header
  body : f.body = m.payload
  length : m.payload.length = m.header.payloadLength.toNat

theorem Carries.wellFormed {f : Frame UInt8} {m : Message} (h : Carries host f m) :
    (wireFormat host).WellFormed f := by
  refine ⟨h.size, ?_⟩
  simp only [wireFormat, h.header, h.body, h.length]

theorem Carries.unique {f : Frame UInt8} {m m' : Message} (h : Carries host f m)
    (h' : Carries host f m') : m = m' := by
  have hheader : m.header = m'.header := Except.ok.inj (h.header.symm.trans h'.header)
  have hpayload : m.payload = m'.payload := h.body.symm.trans h'.body
  cases m
  cases m'
  simp_all only

/-- The length field counts the payload, within the bound, and the reserved byte is zero. -/
structure Message.Sized (m : Message) : Prop where
  length : m.payload.length = m.header.payloadLength.toNat
  le : m.header.payloadLength ≤ kMaxPayloadSize
  reserved : m.header.reserved = 0

theorem Message.make_sized {payload : Bytes} (h : payload.length ≤ kMaxPayloadSize.toNat)
    (type : MessageType) (flags : UInt8) : (Message.make type payload flags).Sized := by
  rw [kMaxPayloadSize_toNat] at h
  have hlen : (UInt32.ofNat payload.length).toNat = payload.length :=
    UInt32.toNat_ofNat_of_lt' (by norm_num; omega)
  refine ⟨hlen.symm, ?_, rfl⟩
  rw [UInt32.le_iff_toNat_le, kMaxPayloadSize_toNat]
  exact hlen.le.trans h

def Message.frame (host : HostOrder) (m : Message) : Frame UInt8 :=
  ⟨encodeHeader host m.header, m.payload⟩

theorem Message.Sized.decodeHeader_frame {m : Message} (h : m.Sized) (host : HostOrder) :
    decodeHeader host (m.frame host).header = .ok m.header := by
  have hle : ¬ m.header.payloadLength > kMaxPayloadSize := by simpa using h.le
  rw [Message.frame, decodeHeader_encodeHeader, if_neg hle, ← h.reserved]

theorem Message.Sized.carries {m : Message} (h : m.Sized) (host : HostOrder) :
    Carries host (m.frame host) m :=
  ⟨encodeHeader_length host m.header, h.decodeHeader_frame host, rfl, h.length⟩

def serialiseAll (host : HostOrder) (ms : List Message) : Bytes :=
  ms.flatMap fun m => m.serialise host

theorem serialiseAll_eq_concat (host : HostOrder) (ms : List Message) :
    serialiseAll host ms = concat (ms.map (Message.frame host)) := by
  rw [concat, List.flatMap_map]
  rfl

theorem forall_carries {ms : List Message} (h : ∀ m ∈ ms, m.Sized) (host : HostOrder) :
    List.Forall₂ (Carries host) (ms.map (Message.frame host)) ms := by
  induction ms with
  | nil => exact .nil
  | cons m ms ih =>
    exact .cons ((h m (by simp)).carries host) (ih (List.forall_mem_of_forall_mem_cons h))

theorem forall_wellFormed {fs : List (Frame UInt8)} {ms : List Message}
    (h : List.Forall₂ (Carries host) fs ms) : ∀ f ∈ fs, (wireFormat host).WellFormed f := by
  induction h with
  | nil => simp
  | cons hf _ ih => exact List.forall_mem_cons.mpr ⟨hf.wellFormed, ih⟩

theorem carries_unique {fs : List (Frame UInt8)} {ms ms' : List Message}
    (h : List.Forall₂ (Carries host) fs ms) (h' : List.Forall₂ (Carries host) fs ms') :
    ms = ms' := by
  induction h generalizing ms' with
  | nil =>
    cases h'
    rfl
  | cons hf _ ih =>
    cases h' with
    | cons hf' hrest => rw [hf.unique hf', ih hrest]

def replies (host : HostOrder) (log : List Exchange) : Bytes :=
  serialiseAll host (log.map Exchange.response)

@[simp] theorem replies_append (host : HostOrder) (log log' : List Exchange) :
    replies host (log ++ log') = replies host log ++ replies host log' := by
  simp [replies, serialiseAll]

@[simp] theorem replies_singleton (host : HostOrder) (e : Exchange) :
    replies host [e] = e.response.serialise host := by
  simp [replies, serialiseAll]

namespace Connection

/-- Where the session stands after its last complete frame. `tail` is what it has read
since, `sent` what it has answered. A connection that no I/O error disturbed ends only
where no complete frame is left. -/
def Phase (host : HostOrder) (calm : Prop) (c : Connection) (tail sent : Bytes) : Prop :=
  match c.session.pending with
  | some .readHeader => tail = [] ∧ c.written = sent
  | some .readBody =>
    tail = c.session.headerBuf ∧
      decodeHeader host c.session.headerBuf = .ok c.session.currentHeader ∧
      c.session.bodyBuf.length = c.session.currentHeader.payloadLength.toNat ∧ c.written = sent
  | some .write => tail = [] ∧ c.written ++ c.session.writeBuf = sent
  | none => c.written <+: sent ∧
      (calm → c.written = sent ∧ (wireFormat host).Stuck (tail ++ c.unread))

section Phases
variable {calm : Prop} {c : Connection} {tail sent : Bytes}

theorem phase_none (h : c.session.pending = none) : c.Phase host calm tail sent ↔
    c.written <+: sent ∧
      (calm → c.written = sent ∧ (wireFormat host).Stuck (tail ++ c.unread)) := by
  simp only [Phase, h]

theorem phase_readHeader (h : c.session.pending = some .readHeader) :
    c.Phase host calm tail sent ↔ tail = [] ∧ c.written = sent := by
  simp only [Phase, h]

theorem phase_readBody (h : c.session.pending = some .readBody) :
    c.Phase host calm tail sent ↔ tail = c.session.headerBuf ∧
      decodeHeader host c.session.headerBuf = .ok c.session.currentHeader ∧
      c.session.bodyBuf.length = c.session.currentHeader.payloadLength.toNat ∧
      c.written = sent := by
  simp only [Phase, h]

theorem phase_write (h : c.session.pending = some .write) :
    c.Phase host calm tail sent ↔ tail = [] ∧ c.written ++ c.session.writeBuf = sent := by
  simp only [Phase, h]

end Phases

structure At (host : HostOrder) (calm : Prop) (c : Connection) (log : List Exchange)
    (frames : List (Frame UInt8)) (tail : Bytes) : Prop where
  carries : List.Forall₂ (Carries host) frames (log.map Exchange.request)
  consumed : c.arrived.take c.readPos = concat frames ++ tail
  readPos_le : c.readPos ≤ c.arrived.length
  headerBuf : c.session.headerBuf.length = kHeaderSize
  phase : c.Phase host calm tail (replies host log)

def Tracks (host : HostOrder) (calm : Prop) (c : Connection) (log : List Exchange) : Prop :=
  ∃ frames tail, c.At host calm log frames tail

theorem At.stream {calm : Prop} {c : Connection} {log : List Exchange}
    {frames : List (Frame UInt8)} {tail : Bytes} (h : c.At host calm log frames tail) :
    c.arrived = concat frames ++ (tail ++ c.unread) := by
  rw [← List.append_assoc, ← h.consumed, unread, List.take_append_drop]

theorem At.written_prefix {calm : Prop} {c : Connection} {log : List Exchange}
    {frames : List (Frame UInt8)} {tail : Bytes} (h : c.At host calm log frames tail) :
    c.written <+: replies host log := by
  have hphase := h.phase
  match hp : c.session.pending with
  | none => exact ((phase_none hp).mp hphase).1
  | some .readHeader =>
    rw [← ((phase_readHeader hp).mp hphase).2]
  | some .readBody =>
    rw [← ((phase_readBody hp).mp hphase).2.2.2]
  | some .write =>
    rw [← ((phase_write hp).mp hphase).2]
    exact List.prefix_append _ _

theorem Tracks.disturb {calm calm' : Prop} (hcalm : calm' → calm) {c : Connection}
    {log : List Exchange} (h : c.Tracks host calm log) : c.Tracks host calm' log := by
  obtain ⟨frames, tail, hat⟩ := h
  refine ⟨frames, tail, { hat with phase := ?_ }⟩
  have hphase := hat.phase
  match hp : c.session.pending with
  | none =>
    rw [phase_none hp] at hphase ⊢
    exact ⟨hphase.1, fun hc => hphase.2 (hcalm hc)⟩
  | some .readHeader => rwa [phase_readHeader hp] at hphase ⊢
  | some .readBody => rwa [phase_readBody hp] at hphase ⊢
  | some .write => rwa [phase_write hp] at hphase ⊢

theorem tracks_accept (host : HostOrder) (calm : Prop) (sessionId : UInt64) (data : Bytes)
    (eof : Bool) :
    ({ accept sessionId with arrived := data, eof := eof } : Connection).Tracks host calm [] :=
  ⟨[], [], .nil, rfl, Nat.zero_le _, rfl, rfl, rfl⟩

theorem take_readPos_add (c : Connection) (n : ℕ) :
    c.arrived.take (c.readPos + n) = c.arrived.take c.readPos ++ c.unread.take n :=
  List.take_add ..

theorem At.dispatch {calm : Prop} {c : Connection} {log : List Exchange}
    {frames : List (Frame UInt8)} {tail : Bytes} (h : c.At host calm log frames tail)
    (hwritten : c.written = replies host log) {n : ℕ} {s : Session} {f : Frame UInt8}
    (hf : Carries host f ⟨s.currentHeader, s.bodyBuf⟩)
    (hbytes : tail ++ c.unread.take n = f.bytes) (hn : n ≤ c.unread.length)
    (hbuf : s.headerBuf.length = kHeaderSize) (store : σ) :
    let r := s.dispatchAndWrite host router store
    ({ c with session := r.1, readPos := c.readPos + n } : Connection).At host calm
      (log ++ r.2.dispatched) (frames ++ [f]) [] where
  carries := by
    rw [List.map_append]
    exact List.rel_append h.carries (.cons hf .nil)
  consumed := by
    rw [take_readPos_add, h.consumed, List.append_assoc, hbytes]
    simp
  readPos_le := by
    have hle := h.readPos_le
    simp only [unread, List.length_drop] at hn
    simp only
    omega
  headerBuf := hbuf
  phase := by
    rw [phase_write rfl]
    refine ⟨rfl, ?_⟩
    simp only [Session.dispatchAndWrite, Session.doWrite, replies_append, replies_singleton,
      hwritten]

theorem At.ended {calm : Prop} {c : Connection} {log : List Exchange}
    {frames : List (Frame UInt8)} {tail : Bytes} (h : c.At host calm log frames tail)
    (hwritten : c.written = replies host log)
    (hstuck : (wireFormat host).Stuck (tail ++ c.unread)) {n : ℕ} (hn : n ≤ c.unread.length)
    {s : Session} (hpending : s.pending = none) (hbuf : s.headerBuf.length = kHeaderSize) :
    ({ c with session := s, readPos := c.readPos + n } : Connection).At host calm log frames
      (tail ++ c.unread.take n) where
  carries := h.carries
  consumed := by rw [take_readPos_add, h.consumed, List.append_assoc]
  readPos_le := by
    have hle := h.readPos_le
    simp only [unread, List.length_drop] at hn
    simp only
    omega
  headerBuf := hbuf
  phase := by
    have hrest : c.unread.take n ++ c.arrived.drop (c.readPos + n) = c.unread := by
      rw [unread, ← List.drop_drop, List.take_append_drop]
    rw [phase_none hpending]
    refine ⟨hwritten ▸ List.prefix_refl _, fun _ => ⟨hwritten, ?_⟩⟩
    show (wireFormat host).Stuck (tail ++ c.unread.take n ++ c.arrived.drop (c.readPos + n))
    rwa [List.append_assoc, hrest]

theorem stuck_of_refused {stream : Bytes} {e : String}
    (h : decodeHeader host (stream.take kHeaderSize) = .error e) :
    (wireFormat host).Stuck stream := by
  refine Or.inr fun n hn => ?_
  simp only [wireFormat, h, reduceCtorEq] at hn

theorem stuck_of_short_body {header rest : Bytes} {hdr : MessageHeader}
    (hsize : header.length = kHeaderSize) (hdecode : decodeHeader host header = .ok hdr)
    (hshort : rest.length < hdr.payloadLength.toNat) :
    (wireFormat host).Stuck (header ++ rest) := by
  refine Or.inr fun n hn => ?_
  have htake : (header ++ rest).take kHeaderSize = header := by rw [← hsize, List.take_left]
  have hdrop : (header ++ rest).drop kHeaderSize = rest := by rw [← hsize, List.drop_left]
  simp only [wireFormat, htake, hdrop, hdecode, Option.some.injEq] at hn ⊢
  omega

theorem At.cutShort {calm : Prop} {c : Connection} {log : List Exchange}
    {frames : List (Frame UInt8)} {tail : Bytes} (h : c.At host calm log frames tail)
    {op : PendingOp} (hp : c.session.pending = some op) (hop : op ≠ .write)
    (hlt : c.unread.length < c.session.requested) :
    c.written = replies host log ∧ (wireFormat host).Stuck (tail ++ c.unread) := by
  have hphase := h.phase
  cases op with
  | write => exact absurd rfl hop
  | readHeader =>
    rw [phase_readHeader hp] at hphase
    simp only [Session.requested, hp, h.headerBuf] at hlt
    obtain ⟨rfl, hwritten⟩ := hphase
    exact ⟨hwritten, Or.inl hlt⟩
  | readBody =>
    rw [phase_readBody hp] at hphase
    obtain ⟨rfl, hdecode, hbody, hwritten⟩ := hphase
    simp only [Session.requested, hp, hbody] at hlt
    exact ⟨hwritten, stuck_of_short_body h.headerBuf hdecode hlt⟩

theorem Tracks.io {calm : Prop} {c c' : Connection} {log : List Exchange}
    (h : c.Tracks host calm log) {store : σ} {effect : Effect σ}
    (hio : c.io host router store = some (c', effect)) :
    c'.Tracks host calm (log ++ effect.dispatched) := by
  obtain ⟨frames, tail, hat⟩ := h
  have hphase := hat.phase
  cases io_cases hio with
  | written hp =>
    rw [phase_write hp] at hphase
    obtain ⟨rfl, hsent⟩ := hphase
    refine ⟨frames, [], ?_⟩
    simp only [Effect.nothing, List.append_nil]
    exact { hat with phase := (phase_readHeader rfl).mpr ⟨rfl, hsent⟩ }
  | cutShort hp hop hlt _ =>
    obtain ⟨hwritten, hstuck⟩ := hat.cutShort hp hop hlt
    rw [List.append_nil]
    exact ⟨frames, _, hat.ended hwritten hstuck (Nat.zero_le _) rfl hat.headerBuf⟩
  | refused hp hn hdecode =>
    rw [phase_readHeader hp] at hphase
    obtain ⟨rfl, hwritten⟩ := hphase
    rw [hat.headerBuf] at hn hdecode ⊢
    rw [List.append_nil]
    exact ⟨frames, _, hat.ended hwritten (stuck_of_refused hdecode) hn rfl
      (List.length_take_of_le hn)⟩
  | bodyFollows hp hn hdecode _ =>
    rw [phase_readHeader hp] at hphase
    obtain ⟨rfl, hwritten⟩ := hphase
    rw [hat.headerBuf] at hn hdecode ⊢
    refine ⟨frames, c.unread.take kHeaderSize, ?_⟩
    simp only [Effect.nothing, List.append_nil]
    refine ⟨hat.carries, ?_, ?_, List.length_take_of_le hn, ?_⟩
    · rw [take_readPos_add, hat.consumed, List.append_nil]
    · have hle := hat.readPos_le
      simp only [unread, List.length_drop] at hn
      simp only
      omega
    · exact (phase_readBody rfl).mpr ⟨rfl, hdecode, Session.length_resize _ _, hwritten⟩
  | @emptyRequest hdr hp hn hdecode hlen =>
    rw [phase_readHeader hp] at hphase
    obtain ⟨rfl, hwritten⟩ := hphase
    rw [hat.headerBuf] at hn hdecode ⊢
    have hsize : (c.unread.take kHeaderSize).length = kHeaderSize := List.length_take_of_le hn
    have hcarries : Carries host ⟨c.unread.take kHeaderSize, []⟩ ⟨hdr, []⟩ :=
      ⟨hsize, hdecode, rfl, by simp [hlen]⟩
    have hbytes : [] ++ c.unread.take kHeaderSize =
        Frame.bytes ⟨c.unread.take kHeaderSize, []⟩ := by simp [Frame.bytes]
    exact ⟨_, [], hat.dispatch hwritten hcarries hbytes hn hsize store⟩
  | request hp hn =>
    rw [phase_readBody hp] at hphase
    obtain ⟨rfl, hdecode, hbody, hwritten⟩ := hphase
    rw [hbody] at hn ⊢
    have hcarries : Carries host
        ⟨c.session.headerBuf, c.unread.take c.session.currentHeader.payloadLength.toNat⟩
        ⟨c.session.currentHeader, c.unread.take c.session.currentHeader.payloadLength.toNat⟩ :=
      ⟨hat.headerBuf, hdecode, rfl, List.length_take_of_le hn⟩
    have hbuf : (c.received c.session.currentHeader c.session.headerBuf (c.unread.take
        c.session.currentHeader.payloadLength.toNat)).headerBuf.length = kHeaderSize :=
      hat.headerBuf
    exact ⟨_, [], hat.dispatch hwritten hcarries rfl hn hbuf store⟩

theorem Tracks.fail {calm : Prop} {c c' : Connection} {log : List Exchange}
    (h : c.Tracks host calm log) {n : ℕ} {store : σ} {effect : Effect σ}
    (hfail : c.fail host router n store = some (c', effect)) :
    c'.Tracks host False (log ++ effect.dispatched) := by
  obtain ⟨frames, tail, hat⟩ := h
  have hphase := hat.phase
  match hp : c.session.pending with
  | none => simp only [Connection.fail, hp, reduceCtorEq] at hfail
  | some op =>
    simp only [Connection.fail, hp, Session.complete_none hp, Option.some.injEq,
      Prod.mk.injEq] at hfail
    obtain ⟨rfl, rfl⟩ := hfail
    refine ⟨frames, tail, ?_⟩
    rw [List.append_nil]
    refine { hat with phase := (phase_none rfl).mpr ⟨?_, False.elim⟩ }
    cases op with
    | readHeader =>
      rw [phase_readHeader hp] at hphase
      simp [hphase.2]
    | readBody =>
      rw [phase_readBody hp] at hphase
      simp [hphase.2.2.2]
    | write =>
      rw [phase_write hp] at hphase
      simp only [if_true, ← hphase.2]
      exact (List.prefix_append_right_inj _).mpr (List.take_prefix _ _)

theorem Tracks.stop {calm : Prop} {c : Connection} {log : List Exchange}
    (h : c.Tracks host calm log) (store : σ) : (c.stop store).1.Tracks host calm log := by
  obtain ⟨frames, tail, hat⟩ := h
  simp only [Connection.stop, Session.close_eq]
  exact ⟨frames, tail, { hat with }⟩

theorem unread_arrive {c : Connection} (hle : c.readPos ≤ c.arrived.length) (data : Bytes) :
    (c.arrive data).unread = c.unread ++ data :=
  List.drop_append_of_le_length hle

/-- More bytes change nothing for a session that still waits for an operation; one that
waits for none must not find a frame in them. -/
theorem At.arrive {calm : Prop} {c : Connection} {log : List Exchange}
    {frames : List (Frame UInt8)} {tail : Bytes} (h : c.At host calm log frames tail)
    (data : Bytes)
    (hstuck : c.session.pending = none → calm →
      (wireFormat host).Stuck (tail ++ (c.arrive data).unread)) :
    (c.arrive data).At host calm log frames tail := by
  have hphase := h.phase
  refine { h with consumed := ?_, readPos_le := ?_, phase := ?_ }
  · simp only [Connection.arrive, List.take_append_of_le_length h.readPos_le, h.consumed]
  · have hle := h.readPos_le
    simp only [Connection.arrive, List.length_append]
    omega
  · match hp : c.session.pending with
    | none =>
      rw [phase_none hp] at hphase
      apply (phase_none (c := c.arrive data) hp).mpr
      exact ⟨hphase.1, fun hcalm => ⟨(hphase.2 hcalm).1, hstuck hp hcalm⟩⟩
    | some .readHeader =>
      rw [phase_readHeader hp] at hphase
      exact (phase_readHeader (c := c.arrive data) hp).mpr hphase
    | some .readBody =>
      rw [phase_readBody hp] at hphase
      exact (phase_readBody (c := c.arrive data) hp).mpr hphase
    | some .write =>
      rw [phase_write hp] at hphase
      exact (phase_write (c := c.arrive data) hp).mpr hphase

theorem Tracks.arrive {calm : Prop} {c : Connection} {log : List Exchange}
    (h : c.Tracks host calm log) (data : Bytes) : (c.arrive data).Tracks host False log := by
  obtain ⟨frames, tail, hat⟩ := h.disturb False.elim
  exact ⟨frames, tail, hat.arrive data fun _ => False.elim⟩

end Connection

end HSFinancialServices
