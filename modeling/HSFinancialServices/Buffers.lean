import HSFinancialServices.AcceptLoop
import HSFinancialServices.ServerStreams
import HSFinancialServices.Services.ResponseBound
import Mathlib.Algebra.Order.BigOperators.Group.List

/-!
# What the sessions hold in memory

A session reads no request before it has written the last response, so its buffers hold one
of each, whatever its peer sends and however slowly it reads. With the limit on connections
this bounds the buffers of all open sessions.
-/

namespace HSFinancialServices
open Services Transitions

variable {σ : Type*} {host : HostOrder} {router : ServiceRouter σ}

namespace Session

def held (s : Session) : ℕ := s.headerBuf.length + s.bodyBuf.length + s.writeBuf.length

structure Within (maxResponse : ℕ) (s : Session) : Prop where
  headerBuf : s.headerBuf.length = kHeaderSize
  bodyBuf : s.bodyBuf.length ≤ kMaxPayloadSize.toNat
  writeBuf : s.writeBuf.length ≤ kHeaderSize + maxResponse

variable {maxResponse : ℕ} {s : Session}

theorem Within.held_le (h : s.Within maxResponse) :
    s.held ≤ 2 * kHeaderSize + kMaxPayloadSize.toNat + maxResponse := by
  have hheader := h.headerBuf
  have hbody := h.bodyBuf
  have hwrite := h.writeBuf
  rw [held]
  omega

theorem within_start (maxResponse : ℕ) (sessionId : UInt64) :
    (construct sessionId).start.Within maxResponse where
  headerBuf := List.length_replicate
  bodyBuf := Nat.zero_le _
  writeBuf := Nat.zero_le _

theorem Within.dispatchAndWrite (h : s.Within maxResponse) {store : σ}
    (hresponse : ∀ request : Message, request.payload.length ≤ kMaxPayloadSize.toNat →
      (router.dispatch request store).1.payload.length ≤ maxResponse) :
    (s.dispatchAndWrite host router store).1.Within maxResponse where
  headerBuf := h.headerBuf
  bodyBuf := h.bodyBuf
  writeBuf := by
    simp only [Session.dispatchAndWrite, doWrite, Message.serialise, List.length_append,
      encodeHeader_length]
    exact Nat.add_le_add_left (hresponse _ h.bodyBuf) _

end Session

namespace Connection
variable {maxResponse : ℕ} {c c' : Connection} {store : σ} {effect : Effect σ}

theorem within_io (h : c.session.Within maxResponse)
    (hresponse : ∀ request : Message, request.payload.length ≤ kMaxPayloadSize.toNat →
      (router.dispatch request store).1.payload.length ≤ maxResponse)
    (hstep : c.io host router store = some (c', effect)) : c'.session.Within maxResponse := by
  have hread : ∀ n ≤ c.unread.length, (c.unread.take n).length = n := fun n hn =>
    List.length_take_of_le hn
  cases io_cases hstep with
  | written | cutShort => exact { h with }
  | refused _ hn => exact { h with headerBuf := (hread _ hn).trans h.headerBuf }
  | bodyFollows _ hn hdecode =>
    refine { h with headerBuf := (hread _ hn).trans h.headerBuf, bodyBuf := ?_ }
    rw [Session.length_resize]
    exact UInt32.le_iff_toNat_le.mp (payloadLength_le hdecode)
  | emptyRequest _ hn =>
    apply Session.Within.dispatchAndWrite _ hresponse
    exact { h with headerBuf := (hread _ hn).trans h.headerBuf, bodyBuf := Nat.zero_le _ }
  | request _ hn =>
    apply Session.Within.dispatchAndWrite _ hresponse
    exact { h with bodyBuf := (hread _ hn).trans_le h.bodyBuf }

theorem within_fail (h : c.session.Within maxResponse) {n : ℕ}
    (hstep : c.fail host router n store = some (c', effect)) : c'.session.Within maxResponse := by
  cases hp : c.session.pending with
  | none => simp only [fail, hp, reduceCtorEq] at hstep
  | some op =>
    simp only [fail, hp, Session.complete_none hp, Option.some.injEq, Prod.mk.injEq] at hstep
    obtain ⟨rfl, -⟩ := hstep
    exact { h with }

theorem within_stop (h : c.session.Within maxResponse) (store : σ) :
    (c.stop store).1.session.Within maxResponse := by
  simp only [stop, Session.close_eq]
  exact { h with }

end Connection

namespace Server
variable {maxConnections : UInt64} {store : σ} {s s' : Server σ} {maxResponse : ℕ}

def Buffered (maxResponse : ℕ) (s : Server σ) : Prop :=
  ∀ slot ∈ s.slots, slot.connection.session.Within maxResponse

theorem Buffered.accepting (h : Buffered maxResponse s) (hs : Accepting s s') :
    Buffered maxResponse s' := by
  intro slot hslot
  obtain hslots | ⟨sessionId, hslots⟩ := hs.slots
  · exact h slot (hslots ▸ hslot)
  · rw [hslots] at hslot
    obtain hslot | hslot := List.mem_append.mp hslot
    · exact h slot hslot
    · rw [List.mem_singleton.mp hslot]
      exact Session.within_start maxResponse sessionId

theorem Buffered.after (h : Buffered maxResponse s) {k : ℕ} {c c' : Connection} {alive : Bool}
    {effect : Effect σ} (hk : s.live k = some c)
    (hc : c.session.Within maxResponse → c'.session.Within maxResponse) :
    Buffered maxResponse (s.after k ⟨c', alive⟩ effect) := by
  intro slot hslot
  obtain hslot | rfl := List.mem_or_eq_of_mem_set hslot
  · exact h slot hslot
  · exact hc (h _ (List.mem_of_getElem? (live_eq_some.mp hk)))

theorem Buffered.step (h : Buffered maxResponse s)
    (hresponse : ∀ request : Message, request.payload.length ≤ kMaxPayloadSize.toNat →
      (router.dispatch request s.store).1.payload.length ≤ maxResponse)
    {a : Action} (hstep : Server.step host router a s = some s') : Buffered maxResponse s' := by
  cases a with
  | accepted | acceptFailed => exact h.accepting (acceptCompleted_accepting hstep)
  | acceptStep i optionOk => exact h.accepting (acceptStep_accepting hstep)
  | arrive k data | shutdown k =>
    obtain ⟨c, hc, rfl⟩ := Option.map_eq_some_iff.mp hstep
    exact h.after hc id
  | io k =>
    obtain ⟨c, hc, hio⟩ := Option.bind_eq_some_iff.mp hstep
    obtain ⟨r, hr, rfl⟩ := Option.map_eq_some_iff.mp hio
    exact h.after hc fun hwithin => Connection.within_io hwithin hresponse hr
  | fail k n =>
    obtain ⟨c, hc, hfail⟩ := Option.bind_eq_some_iff.mp hstep
    obtain ⟨r, hr, rfl⟩ := Option.map_eq_some_iff.mp hfail
    exact h.after hc fun hwithin => Connection.within_fail hwithin hr
  | stop k =>
    obtain ⟨c, hc, rfl⟩ := Option.map_eq_some_iff.mp hstep
    exact h.after hc fun hwithin => Connection.within_stop hwithin s.store
  | destroy k =>
    obtain ⟨c, hc, hdestroy⟩ := Option.bind_eq_some_iff.mp hstep
    obtain ⟨-, hdestroy⟩ := Option.ite_none_right_eq_some.mp hdestroy
    obtain rfl := Option.some.inj hdestroy
    exact h.after hc fun hwithin => Connection.within_stop hwithin s.store

theorem reaches_buffered {ok : Action → Server σ → Prop} {I : σ → Prop} (hstore : I store)
    (hI : ∀ request w, I w → I (router.dispatch request w).2)
    (hresponse : ∀ (request : Message) (w : σ), I w →
      request.payload.length ≤ kMaxPayloadSize.toNat →
        (router.dispatch request w).1.payload.length ≤ maxResponse)
    (h : Reaches (step host router) ok (initial maxConnections store) s) :
    Buffered maxResponse s := by
  induction h with
  | refl => exact fun _ hslot => absurd hslot List.not_mem_nil
  | tail a hreach _ hstep ih =>
    have hw := (reaches_dispatched hstore hI hreach).1
    exact ih.step (fun request => hresponse request _ hw) hstep

def openSlots (s : Server σ) : List Slot := s.slots.filter fun slot => !slot.connection.session.closed

theorem length_openSlots (s : Server σ) : s.openSlots.length = s.unclosed :=
  List.countP_eq_length_filter.symm

/-- Five times the largest payload and a little more is all that a session holds, and the open
sessions together hold no more than the limit on connections allows. -/
theorem buffers_bounded {D : Type*} {dbl : Doubles D} (hdbl : dbl.Bounded) {clock : ℕ → ℤ}
    (hclock : ∀ k, (clock k).natAbs ≤ 2 ^ 63) {ok : Action → Server World → Prop}
    {s : Server World}
    (h : Reaches (step host (serverRouter dbl)) ok
      (initial maxConnections (World.initial clock)) s) :
    (∀ slot ∈ s.slots, slot.connection.session.held ≤ 5 * kMaxPayloadSize.toNat + 90016) ∧
      (s.openSlots.map fun slot => slot.connection.session.held).sum ≤
        maxConnections.toNat * (5 * kMaxPayloadSize.toNat + 90016) := by
  have hbuffered : Buffered (4 * kMaxPayloadSize.toNat + 90000) s := by
    apply reaches_buffered (I := fun w => w.clock = clock) rfl _ _ h
    · intro request w hw
      rw [dispatch_clock, hw]
    · intro request w hw hrequest
      rw [dispatch_payload]
      have hprints : ShortPrints dbl w.clock := hw ▸ hdbl.shortPrints hclock
      have hle := length_responsePayload_le request hprints
      omega
  have hheld : ∀ slot ∈ s.slots,
      slot.connection.session.held ≤ 5 * kMaxPayloadSize.toNat + 90016 := by
    intro slot hslot
    have hle := (hbuffered slot hslot).held_le
    rw [kHeaderSize] at hle
    linarith
  refine ⟨hheld, ?_⟩
  have hunclosed : s.unclosed ≤ maxConnections.toNat := by
    obtain hs | hs := reaches_accounted_or_halted h
    · exact hs.unclosed_le
    · exact hs.unclosed
  have hsum := List.sum_le_card_nsmul
    (s.openSlots.map fun slot => slot.connection.session.held) _ <| by
      intro n hn
      obtain ⟨slot, hslot, rfl⟩ := List.mem_map.mp hn
      exact hheld slot (List.mem_of_mem_filter hslot)
  rw [List.length_map, length_openSlots, nsmul_eq_mul] at hsum
  exact hsum.trans (Nat.mul_le_mul_right _ hunclosed)

theorem buffers_bounded_pong :
    ∃ s : Server World, Reaches (step .little (serverRouter shortDoubles)) (fun _ _ => True)
        (initial 2 (World.initial fun _ => 0)) s ∧
      (s.openSlots.map fun slot => slot.connection.session.held) = [22] ∧
      (s.openSlots.map fun slot => slot.connection.session.held).sum ≤
        2 * (5 * kMaxPayloadSize.toNat + 90016) := by
  let next := Action.acceptStep 0 true
  let ping := (Message.make MessageType.kPing [49, 50, 51] 0).serialise .little
  let run := [.accepted, next, next, next, next, next, next, next, next, .arrive 0 ping, .io 0,
    .io 0, .accepted, next, next, next, next, .acceptStep 0 false].foldlM
    (fun s a => if True then step .little (serverRouter shortDoubles) a s else none)
    (initial 2 (World.initial fun _ => 0))
  have hrun : run.map (fun s => s.openSlots.map fun slot => slot.connection.session.held) =
      some [22] := by decide +kernel
  obtain ⟨s, hs, hheld⟩ := Option.map_eq_some_iff.mp hrun
  have hreach := Reaches.of_foldlM hs
  have hclock : ∀ k, ((fun _ => 0 : ℕ → ℤ) k).natAbs ≤ 2 ^ 63 := fun _ => Nat.zero_le _
  exact ⟨s, hreach, hheld, (buffers_bounded shortDoubles_bounded hclock hreach).2⟩

end Server

end HSFinancialServices
