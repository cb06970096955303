import HSFinancialServices.Services.ResponseSize

/-!
# No response outgrows the length field

A response can be too large for the peers, but the length that its header announces is
always its length: what the handlers put around the text of a request is bounded.
-/

namespace HSFinancialServices.Services
open Ascii

/-- What the platform promises of a double: six significant digits, a sign, a point and an
exponent of three digits in print, and 64 bits after the cast. -/
structure Doubles.Bounded {D : Type*} (dbl : Doubles D) : Prop where
  print : ∀ x, (dbl.print x).length ≤ 13
  toInt64 : ∀ x, (dbl.toInt64 x).natAbs ≤ 2 ^ 63

def shortDoubles : Doubles ℚ :=
  { exactDoubles with
    toInt64 := fun x => Max.max (-2 ^ 63) (Min.min (2 ^ 63) (exactDoubles.toInt64 x))
    print := fun x => (exactDoubles.print x).take 13 }

theorem shortDoubles_bounded : shortDoubles.Bounded where
  print x := List.length_take_le 13 _
  toInt64 x := by
    simp only [shortDoubles]
    omega

theorem length_decimal_le {n k : ℕ} (hk : 0 < k) (h : n < 10 ^ k) : (decimal n).length ≤ k := by
  by_cases hn : n = 0
  · subst hn
    exact hk
  · simp only [decimal, hn, if_false, List.length_reverse, List.length_map]
    exact (Nat.digits_length_le_iff (by norm_num) n).mpr h

theorem length_decimalInt_le {z : ℤ} {k : ℕ} (hk : 0 < k) (h : z.natAbs < 10 ^ k) :
    (decimalInt z).length ≤ k + 1 := by
  have hle := length_decimal_le hk h
  simp only [decimalInt]
  split_ifs
  · rw [List.length_cons]
    omega
  · omega

theorem Date.natAbs_year_next (d : Date) : d.next.year.natAbs ≤ d.year.natAbs + 1 := by
  simp only [Date.next]
  split_ifs <;> simp only <;> omega

theorem Date.natAbs_year_previous (d : Date) : d.previous.year.natAbs ≤ d.year.natAbs + 1 := by
  simp only [Date.previous]
  split_ifs <;> simp only <;> omega

theorem natAbs_year_iterate {f : Date → Date}
    (hf : ∀ d : Date, (f d).year.natAbs ≤ d.year.natAbs + 1) (n : ℕ) (d : Date) :
    (f^[n] d).year.natAbs ≤ d.year.natAbs + n := by
  induction n with
  | zero => rfl
  | succ n ih =>
    rw [Function.iterate_succ_apply']
    have hstep := hf (f^[n] d)
    omega

theorem natAbs_year_gmtime (t : ℤ) : (gmtime t).year.natAbs ≤ 1971 + t.natAbs := by
  simp only [gmtime]
  split
  · rename_i n hn
    have hiter := natAbs_year_iterate Date.natAbs_year_next n ⟨1970, 1, 1⟩
    rw [Int.ofNat_eq_natCast] at hn
    simp only at hiter
    omega
  · rename_i n hn
    have hiter := natAbs_year_iterate Date.natAbs_year_previous (n + 1) ⟨1970, 1, 1⟩
    simp only at hiter
    omega

theorem length_formatDate_le {t : ℤ} (h : t.natAbs ≤ 10 ^ 19) : (formatDate t).length ≤ 27 := by
  have hyear := natAbs_year_gmtime t
  have hint : (decimalInt (gmtime t).year).length ≤ 20 + 1 :=
    length_decimalInt_le (by norm_num) (by omega)
  simp only [formatDate, twoDigits, List.length_append, List.length_cons, List.length_nil]
  omega

section Candles
variable {D : Type*} {dbl : Doubles D}

structure ShortPrints (dbl : Doubles D) (clock : ℕ → ℤ) : Prop where
  print : ∀ x, (dbl.print x).length ≤ 32
  volume : ∀ x, (decimalInt (20000000 + dbl.toInt64 x)).length ≤ 32
  date : ∀ n i : ℕ, i < 365 → (formatDate (clock n - i * 86400)).length ≤ 32

theorem Doubles.Bounded.shortPrints (h : dbl.Bounded) {clock : ℕ → ℤ}
    (hclock : ∀ n, (clock n).natAbs ≤ 2 ^ 63) : ShortPrints dbl clock where
  print x := (h.print x).trans (by norm_num)
  volume x := by
    have hcast := h.toInt64 x
    have hlength : (decimalInt (20000000 + dbl.toInt64 x)).length ≤ 20 + 1 :=
      length_decimalInt_le (by norm_num) (by omega)
    omega
  date n i hi := by
    have hn := hclock n
    exact (length_formatDate_le (by omega)).trans (by norm_num)

variable {clock : ℕ → ℤ}

theorem length_candleText_le (h : ShortPrints dbl clock) (base : D) (n i : ℕ) (hi : i < 365) :
    (candleText dbl (candle dbl base (clock n) i)).length ≤ 245 := by
  have hdate : (candle dbl base (clock n) i).date.length ≤ 32 := h.date n i hi
  have hvolume : (decimalInt (candle dbl base (clock n) i).volume).length ≤ 32 := h.volume _
  have hopen := h.print (candle dbl base (clock n) i).open_
  have hhigh := h.print (candle dbl base (clock n) i).high
  have hlow := h.print (candle dbl base (clock n) i).low
  have hclose := h.print (candle dbl base (clock n) i).close_
  have h₁ : (ascii "\x7b\"date\":\"").length = 9 := rfl
  have h₂ : (ascii "\",\"open\":").length = 9 := rfl
  have h₃ : (ascii ",\"high\":").length = 8 := rfl
  have h₄ : (ascii ",\"low\":").length = 7 := rfl
  have h₅ : (ascii ",\"close\":").length = 9 := rfl
  have h₆ : (ascii ",\"volume\":").length = 10 := rfl
  simp only [candleText, List.length_append, List.length_singleton, h₁, h₂, h₃, h₄, h₅, h₆]
  omega

theorem length_commaJoin_le {ts : List Bytes} {n : ℕ} (h : ∀ t ∈ ts, t.length ≤ n) :
    (commaJoin ts).length ≤ ts.length * (n + 1) := by
  have hflat : ∀ us : List Bytes, (∀ u ∈ us, u.length ≤ n) →
      (us.flatMap fun u => comma :: u).length ≤ us.length * (n + 1) := by
    intro us hus
    induction us with
    | nil => simp
    | cons u us ih =>
      have hu := hus u (by simp)
      have hrest := ih fun v hv => hus v (by simp [hv])
      rw [List.flatMap_cons, List.length_append, List.length_cons, List.length_cons, Nat.add_mul]
      omega
  cases ts with
  | nil => simp [commaJoin]
  | cons t ts =>
    have ht := h t (by simp)
    have hts := hflat ts fun u hu => h u (by simp [hu])
    rw [commaJoin, List.length_append, List.length_cons, Nat.add_mul]
    omega

theorem candlesSize_le (h : ShortPrints dbl clock) (p : Bytes) (n : ℕ) :
    candlesSize dbl p (clock n) ≤ 365 * 246 := by
  have hdays := (effectiveDays_bounds p).2
  have htexts : ∀ t ∈ (historyCandles dbl p (clock n)).map (candleText dbl), t.length ≤ 245 := by
    intro t ht
    simp only [historyCandles, List.map_map, List.mem_map, List.mem_reverse, List.mem_range] at ht
    obtain ⟨i, hi, rfl⟩ := ht
    exact length_candleText_le h _ n i (by omega)
  have hjoin := length_commaJoin_le htexts
  simp only [historyCandles, List.length_map, List.length_reverse, List.length_range] at hjoin
  refine hjoin.trans ?_
  exact Nat.mul_le_mul_right _ hdays

end Candles

theorem length_extractNumber_le (json key : Bytes) :
    (extractNumber json key).length ≤ json.length + 1 := by
  simp only [extractNumber]
  split
  · exact Nat.le_add_left 1 _
  · refine Nat.le_succ_of_le ?_
    refine (List.takeWhile_prefix _).length_le.trans ?_
    refine (List.dropWhile_suffix _).length_le.trans ?_
    rw [List.length_drop]
    omega

theorem length_orDefault_le {extracted fallback : Bytes} {n : ℕ} (he : extracted.length ≤ n)
    (hf : fallback.length ≤ n) : (orDefault extracted fallback).length ≤ n := by
  obtain h | h := orDefault_eq_or extracted fallback
  · rw [h]
    exact hf
  · rw [h]
    exact he

theorem size_readOrder_le (p : Bytes) : (readOrder p).size ≤ 4 * (p.length + 7) := by
  have hsymbol := length_extractString_le p (ascii "symbol")
  have hqty := length_extractNumber_le p (ascii "qty")
  have hprice := length_extractNumber_le p (ascii "price")
  have haccount := length_extractString_le p (ascii "account")
  have h₁ : (readOrder p).symbol.length ≤ p.length + 7 :=
    length_orDefault_le (by omega) (Nat.le_add_left 7 _)
  have h₂ : (readOrder p).qty.length ≤ p.length + 7 :=
    length_orDefault_le (by omega) (Nat.le_add_left_of_le (by decide))
  have h₃ : (readOrder p).price.length ≤ p.length + 7 :=
    length_orDefault_le (by omega) (Nat.le_add_left_of_le (by decide))
  have h₄ : (readOrder p).account.length ≤ p.length + 7 :=
    length_orDefault_le (by omega) (Nat.le_add_left_of_le (by decide))
  simp only [Order.size]
  omega

theorem length_responsePayload_le {D : Type*} {dbl : Doubles D} (request : Message) {w : World}
    (hprints : ShortPrints dbl w.clock) :
    (responsePayload dbl request w).length ≤ 4 * request.payload.length + 90000 := by
  have horder := size_readOrder_le request.payload
  have hid : (decimal w.orderCounter.toNat).length ≤ 20 :=
    length_decimal_le (by norm_num) (w.orderCounter.toNat_lt.trans (by norm_num))
  by_cases hsql : request.header.messageType = MessageType.kSqlQuery
  · have hextract := length_extractString_le request.payload (ascii "sql")
    have hescape := List.countP_le_length (p := needsEscape)
      (l := extractString request.payload (ascii "sql"))
    rw [responsePayload_sql w hsql, length_handleSqlQuery]
    split_ifs <;> omega
  by_cases hbuy : request.header.messageType = MessageType.kBuyOrder
  · have hside : Side.buy.text.length = 3 := rfl
    rw [responsePayload_buy w hbuy, length_orderAckText]
    omega
  by_cases hsell : request.header.messageType = MessageType.kSellOrder
  · have hside : Side.sell.text.length = 4 := rfl
    rw [responsePayload_sell w hsell, length_orderAckText]
    omega
  by_cases hposition : request.header.messageType = MessageType.kGetPosition
  · have haccount : (orDefault (extractString request.payload (ascii "account"))
        (ascii "UNKNOWN")).length ≤ request.payload.length + 7 :=
      length_orDefault_le (Nat.le_add_right_of_le (length_extractString_le _ _))
        (Nat.le_add_left 7 _)
    rw [responsePayload_position w hposition, length_handleGetPosition]
    omega
  by_cases hhistory : request.header.messageType = MessageType.kGetPriceHistory
  · have hsymbol : (historySymbol request.payload).length ≤ request.payload.length + 7 :=
      length_orDefault_le (Nat.le_add_right_of_le (length_extractString_le _ _))
        (Nat.le_add_left_of_le (by decide))
    have hcandles := candlesSize_le hprints request.payload w.clockReads
    rw [responsePayload_history w hhistory, length_handleGetPriceHistory]
    simp only [World.time]
    omega
  by_cases hping : request.header.messageType = MessageType.kPing
  · have hempty : (ascii "\x7b\"seq\":0\x7d").length = 9 := rfl
    rw [responsePayload_ping w hping, handlePing]
    split_ifs <;> omega
  have hunknown : unknownMessageType.length = 45 := rfl
  simp only [responsePayload, hping, hhistory, hposition, hsell, hbuy, hsql, if_false, hunknown]
  omega

theorem length_responsePayload_lt {D : Type*} {dbl : Doubles D} (request : Message) {w : World}
    (hprints : ShortPrints dbl w.clock)
    (hrequest : request.payload.length ≤ kMaxPayloadSize.toNat) :
    (responsePayload dbl request w).length < 2 ^ 32 := by
  have hle := length_responsePayload_le request hprints
  rw [kMaxPayloadSize_toNat] at hrequest
  omega

theorem make_payloadLength {payload : Bytes} (h : payload.length < 2 ^ 32) (type : MessageType)
    (flags : UInt8) :
    (Message.make type payload flags).header.payloadLength.toNat = payload.length :=
  UInt32.toNat_ofNat_of_lt' h

theorem failure_announces_its_length {σ : Type*} {router : ServiceRouter σ} {request : Message}
    {store store' : σ} {handler : ServiceHandler σ} {what : Bytes}
    (hhandler : router.handlers request.header.messageType = some handler)
    (hthrows : handler request.payload store = (.error what, store'))
    (hwhat : what.length < 2 ^ 31) :
    (router.dispatch request store).1.header.payloadLength.toNat =
      (router.dispatch request store).1.payload.length := by
  rw [ServiceRouter.dispatch_of_throws hhandler hthrows]
  apply make_payloadLength
  rw [handlerFailure_length]
  omega

/-- The header of every response announces as many bytes as `do_write` puts after it. -/
theorem response_announces_its_length {D : Type*} {dbl : Doubles D} (host : HostOrder)
    (session : Session) (request : Message) (w : World) (hprints : ShortPrints dbl w.clock)
    (hrequest : request.payload.length ≤ kMaxPayloadSize.toNat) :
    let response := ((serverRouter dbl).dispatch request w).1
    ∃ appended, (session.doWrite host response).writeBuf =
        encodeHeader host response.header ++ appended ∧
      response.header.payloadLength.toNat = appended.length := by
  obtain ⟨type, payload, hmake⟩ := (serverRouter dbl).dispatch_make request w
  have hlt := length_responsePayload_lt request hprints hrequest
  rw [← dispatch_payload, hmake, Message.make_payload] at hlt
  refine ⟨payload, ?_, ?_⟩
  · simp only [hmake, Session.doWrite, Message.serialise, Message.make_payload]
  · rw [hmake, make_payloadLength hlt]

theorem response_announces_its_length_backslashes :
    ∃ appended : Bytes, ((Session.construct 1).doWrite .little ((serverRouter shortDoubles).dispatch
        (Message.make MessageType.kSqlQuery (ascii "\x7b\"sql\":\"\\\\\"\x7d") 0)
        (World.initial fun _ => 0)).1).writeBuf.drop kHeaderSize = appended ∧
      ((serverRouter shortDoubles).dispatch
        (Message.make MessageType.kSqlQuery (ascii "\x7b\"sql\":\"\\\\\"\x7d") 0)
        (World.initial fun _ => 0)).1.header.payloadLength.toNat = appended.length := by
  obtain ⟨appended, hbuf, hlength⟩ := response_announces_its_length .little (Session.construct 1)
    (Message.make MessageType.kSqlQuery (ascii "\x7b\"sql\":\"\\\\\"\x7d") 0)
    (World.initial fun _ => 0)
    (shortDoubles_bounded.shortPrints fun _ => by norm_num [World.initial]) (by decide)
  refine ⟨appended, ?_, hlength⟩
  rw [hbuf, List.drop_left' (encodeHeader_length .little _)]

end HSFinancialServices.Services
