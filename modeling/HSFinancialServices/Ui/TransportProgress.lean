import HSFinancialServices.Ui.Transport

/-!
# The UI client's transport over short transfers

Where no call fails and each moves at least one byte, the loops of the client come to an end
and what is sent is what is received, however the calls cut it into pieces.
-/

namespace HSFinancialServices.Ui
open WordBytes

variable {σ : Type*} (host : HostOrder) (router : ServiceRouter σ)

def Call.Moves (call : Call) : Prop := call.error = false ∧ 0 < call.count

/-- A script that is left over behind some of the first calls, no more than `steps` of them. -/
def Used (steps : ℕ) (good good' : List Call) : Prop :=
  good' <:+ good ∧ good.length ≤ good'.length + steps

theorem Used.refl (good : List Call) : Used 0 good good := ⟨List.suffix_refl _, le_rfl⟩

theorem Used.trans {m n : ℕ} {good good' good'' : List Call} (h : Used m good good')
    (h' : Used n good' good'') : Used (m + n) good good'' := by
  refine ⟨h'.1.trans h.1, ?_⟩
  have hfirst := h.2
  have hsecond := h'.2
  omega

theorem Used.cons {n : ℕ} {good good' : List Call} (call : Call) (h : Used n good good') :
    Used (n + 1) (call :: good) good' := by
  refine ⟨h.1.trans (List.suffix_cons _ _), ?_⟩
  have hlength := h.2
  rw [List.length_cons]
  omega

theorem Used.moves {n : ℕ} {good good' : List Call} (h : Used n good good')
    (hgood : ∀ call ∈ good, call.Moves) : ∀ call ∈ good', call.Moves :=
  fun call hcall => hgood call (h.1.subset hcall)

theorem Used.mono {m n : ℕ} {good good' : List Call} (h : Used m good good') (hle : m ≤ n) :
    Used n good good' := by
  refine ⟨h.1, ?_⟩
  have hlength := h.2
  omega

theorem send_of_moves (link : Link σ) {data : Bytes} {call : Call} (hcall : call.Moves)
    (hdata : data ≠ []) :
    ∃ n link', link.send host router data call = (some (n + 1), link') := by
  have hlength := List.length_pos_of_ne_nil hdata
  have hmin : min call.count data.length ≠ 0 := by
    have hcount := hcall.2
    omega
  obtain ⟨n, hn⟩ := Nat.exists_eq_succ_of_ne_zero hmin
  refine ⟨n, (link.send host router data call).2, Prod.ext ?_ rfl⟩
  simp only [Link.send, hcall.1, hn, Nat.succ_eq_add_one, Bool.false_eq_true, if_false]

theorem sendAll_progress {good : List Call} (hgood : ∀ call ∈ good, call.Moves) (rest : List Call)
    (data : Bytes) (hlength : data.length ≤ good.length) (link : Link σ) :
    ∃ good' link', sendAll host router (good ++ rest) data link = (true, good' ++ rest, link') ∧
      Used data.length good good' := by
  induction good generalizing data link with
  | nil =>
    obtain rfl := List.length_eq_zero_iff.mp (Nat.le_zero.mp hlength)
    refine ⟨[], link, ?_, .refl _⟩
    cases rest <;> rfl
  | cons call good ih =>
    by_cases hdata : data = []
    · subst hdata
      exact ⟨call :: good, link, by rw [List.cons_append, sendAll, if_pos rfl], .refl _⟩
    · obtain ⟨n, link₁, hsend⟩ := send_of_moves host router link (hgood call List.mem_cons_self)
        hdata
      have hpos := List.length_pos_of_ne_nil hdata
      have hshorter : (data.drop (n + 1)).length ≤ good.length := by
        rw [List.length_drop]
        rw [List.length_cons] at hlength
        omega
      obtain ⟨good', link', hsendAll, hused⟩ :=
        ih (List.forall_mem_of_forall_mem_cons hgood) _ hshorter link₁
      refine ⟨good', link', ?_, (hused.cons call).mono ?_⟩
      · rw [List.cons_append, sendAll, if_neg hdata, hsend]
        exact hsendAll
      · rw [List.length_drop]
        omega

theorem sendAll_nil (calls : List Call) (link : Link σ) :
    sendAll host router calls [] link = (true, calls, link) := by
  cases calls <;> rfl

theorem sendMsg_progress {good : List Call} (hgood : ∀ call ∈ good, call.Moves) (rest : List Call)
    (type : UInt16) (payload : Bytes) (hlength : kHeaderSize + payload.length ≤ good.length)
    (link : Link σ) :
    ∃ good' link', sendMsg host router type payload (good ++ rest) link =
        (true, good' ++ rest, link') ∧
      Used (kHeaderSize + payload.length) good good' ∧
      link'.line.connection.arrived =
        link.line.connection.arrived ++ requestBytes type payload := by
  obtain ⟨good₁, link₁, hheader, hused₁⟩ := sendAll_progress host router hgood rest
    (encodeHeader (UInt32.ofNat payload.length) type 0) (by rw [encodeHeader_length]; omega) link
  rw [encodeHeader_length] at hused₁
  have hlength₁ : payload.length ≤ good₁.length := by
    have hleft := hused₁.2
    omega
  obtain ⟨good₂, link₂, hbody, hused₂⟩ := sendAll_progress host router
    (hused₁.moves hgood) rest payload hlength₁ link₁
  have hsend : sendMsg host router type payload (good ++ rest) link =
      (true, good₂ ++ rest, link₂) := by
    simp only [sendMsg, hheader]
    split
    · rename_i hempty
      rw [← hbody, hempty, sendAll_nil]
    · exact hbody
  refine ⟨good₂, link₂, hsend, hused₁.trans hused₂, ?_⟩
  obtain ⟨sent, hevolves, -, hall⟩ :=
    sendMsg_spec (P := fun _ => True) (fun _ _ _ => trivial) type payload _ link hsend
  rw [hevolves.arrived, hall rfl]

def Link.unread (link : Link σ) : Bytes := link.line.connection.written.drop link.received

theorem unread_elapse (link : Link σ) (turns : List ServerTurn) :
    link.unread <+: (link.elapse host router turns).unread :=
  (elapse_evolves (P := fun _ => True) (fun _ _ _ => trivial) link turns).written.drop
    link.received

theorem recv_eq {link : Link σ} {len : ℕ} {call : Call} (h : call.error = false) :
    link.recv host router len call =
      (some ((link.elapse host router call.turns).unread.take (min call.count len)),
        { link.elapse host router call.turns with
          received := link.received +
            ((link.elapse host router call.turns).unread.take (min call.count len)).length }) := by
  simp only [Link.recv, h, Bool.false_eq_true, if_false]
  rfl

theorem recv_of_moves {link : Link σ} {len : ℕ} {call : Call} (hcall : call.Moves) (hlen : 0 < len)
    (hunread : len ≤ link.unread.length) :
    ∃ more link', link.recv host router len call = (some more, link') ∧ more ≠ [] ∧
      more.length ≤ len ∧ len ≤ more.length + link'.unread.length := by
  have hcount := hcall.2
  have hgrown := (unread_elapse host router link call.turns).length_le
  generalize hmore : (link.elapse host router call.turns).unread.take (min call.count len) = more
  have hlength : more.length = min call.count len := by
    rw [← hmore, List.length_take]
    omega
  refine ⟨more, _, by rw [recv_eq host router hcall.1, hmore], ?_, by omega, ?_⟩
  · apply List.ne_nil_of_length_pos
    omega
  · have hleft : (link.elapse host router call.turns).unread.length =
        (link.elapse host router call.turns).line.connection.written.length - link.received :=
      List.length_drop
    simp only [Link.unread, List.length_drop]
    omega

theorem recvAll_progress {good : List Call} (hgood : ∀ call ∈ good, call.Moves) (rest : List Call)
    (len : ℕ) (hlength : len ≤ good.length) (data : Bytes) (link : Link σ)
    (hunread : len ≤ link.unread.length) :
    ∃ all good' link', recvAll host router (good ++ rest) len data link =
        (some all, good' ++ rest, link') ∧ Used len good good' := by
  induction good generalizing len data link with
  | nil =>
    obtain rfl := Nat.le_zero.mp hlength
    refine ⟨data, [], link, ?_, .refl _⟩
    cases rest <;> rfl
  | cons call good ih =>
    by_cases hlen : len = 0
    · subst hlen
      exact ⟨data, call :: good, link, by rw [List.cons_append, recvAll, if_pos rfl], .refl _⟩
    · obtain ⟨more, link₁, hrecv, hne, hle, hleft⟩ := recv_of_moves host router
        (hgood call List.mem_cons_self) (Nat.pos_of_ne_zero hlen) hunread
      have hpos := List.length_pos_of_ne_nil hne
      rw [List.length_cons] at hlength
      obtain ⟨all, good', link', hrecvAll, hused⟩ :=
        ih (List.forall_mem_of_forall_mem_cons hgood) (len - more.length) (by omega)
          (data ++ more) link₁ (by omega)
      refine ⟨all, good', link', ?_, (hused.cons call).mono (by omega)⟩
      obtain ⟨b, bs, rfl⟩ := List.exists_cons_of_ne_nil hne
      rw [List.cons_append, recvAll, if_neg hlen, hrecv]
      exact hrecvAll

theorem recvAll_reads {good : List Call} (hgood : ∀ call ∈ good, call.Moves) (rest : List Call)
    {front r : Bytes} (hlength : front.length ≤ good.length) (data : Bytes) {link : Link σ}
    (hunread : front ++ r <+: link.unread) :
    ∃ good' link', recvAll host router (good ++ rest) front.length data link =
        (some (data ++ front), good' ++ rest, link') ∧ Used front.length good good' ∧
      link'.received = link.received + front.length ∧ r <+: link'.unread := by
  have henough : front.length ≤ link.unread.length := by
    have hle := hunread.length_le
    rw [List.length_append] at hle
    omega
  obtain ⟨all, good', link', hrecvAll, hused⟩ := recvAll_progress host router hgood rest
    front.length hlength data link henough
  obtain ⟨hevolves, hresult⟩ := recvAll_spec (P := fun _ => True) (fun _ _ _ => trivial) _
    front.length data link hrecvAll
  obtain ⟨got, rfl, hgot, hreceived, hread⟩ := hresult all rfl
  have hwritten : front ++ r <+: link'.line.connection.written.drop link.received :=
    hunread.trans (hevolves.written.drop link.received)
  have hsame : got = front := by
    have hprefix := List.prefix_of_prefix_length_le hread
      ((List.prefix_append front r).trans hwritten) hgot.le
    exact hprefix.eq_of_length hgot
  subst hsame
  refine ⟨good', link', hrecvAll, hused, hreceived, ?_⟩
  have hleft := hwritten.drop got.length
  rwa [List.drop_left, List.drop_drop, ← hreceived] at hleft

theorem recvAll_zero (calls : List Call) (data : Bytes) (link : Link σ) :
    recvAll host router calls 0 data link = (some data, calls, link) := by
  cases calls <;> rfl

def Complete (header payload : Bytes) : Prop :=
  header.length = kHeaderSize ∧ (decodeHeader header).1 ≤ kMaxPayload ∧
    payload.length = (decodeHeader header).1.toNat

theorem recvMsg_reads {good : List Call} (hgood : ∀ call ∈ good, call.Moves) (rest : List Call)
    {header payload : Bytes} (r : Bytes) (hcomplete : Complete header payload)
    (hlength : kHeaderSize + payload.length ≤ good.length) {link : Link σ}
    (hunread : header ++ payload ++ r <+: link.unread) :
    ∃ good' link', recvMsg host router (good ++ rest) link =
        (some ((decodeHeader header).2, payload), good' ++ rest, link') ∧
      Used (kHeaderSize + payload.length) good good' ∧
      link'.received = link.received + (kHeaderSize + payload.length) ∧ r <+: link'.unread := by
  obtain ⟨hheader, hmax, hpayload⟩ := hcomplete
  rw [List.append_assoc] at hunread
  obtain ⟨good₁, link₁, hread₁, hused₁, hreceived₁, hunread₁⟩ := recvAll_reads host router
    hgood rest (by omega) [] hunread
  rw [hheader] at hread₁ hused₁ hreceived₁
  have hlength₁ : payload.length ≤ good₁.length := by
    have hleft := hused₁.2
    omega
  obtain ⟨good₂, link₂, hread₂, hused₂, hreceived₂, hunread₂⟩ := recvAll_reads host router
    (hused₁.moves hgood) rest hlength₁ [] hunread₁
  rw [hpayload] at hread₂
  refine ⟨good₂, link₂, ?_, hused₁.trans hused₂, by omega, hunread₂⟩
  simp only [recvMsg, hread₁, List.nil_append, UInt32.not_lt.mpr hmax, if_false]
  split
  · rename_i hzero
    rw [hzero, UInt32.toNat_zero, recvAll_zero] at hread₂
    simp only [Prod.mk.injEq, Option.some.injEq, List.nil_append] at hread₂ ⊢
    exact ⟨⟨trivial, hread₂.1⟩, hread₂.2⟩
  · rw [hread₂, List.nil_append]

def sendMsgs : List (UInt16 × Bytes) → List Call → Link σ → List Bool × List Call × Link σ
  | [], calls, link => ([], calls, link)
  | (type, payload) :: msgs, calls, link =>
    let (ok, calls, link) := sendMsg host router type payload calls link
    let (oks, calls, link) := sendMsgs msgs calls link
    (ok :: oks, calls, link)

def recvMsgs : ℕ → List Call → Link σ → List (Option (UInt16 × Bytes) × ℕ) × List Call × Link σ
  | 0, calls, link => ([], calls, link)
  | n + 1, calls, link =>
    let (result, calls, after) := recvMsg host router calls link
    let (results, calls, last) := recvMsgs n calls after
    ((result, after.received - link.received) :: results, calls, last)

def wire (msgs : List (UInt16 × Bytes)) : Bytes := msgs.flatMap fun m => requestBytes m.1 m.2

theorem requestBytes_length (type : UInt16) (payload : Bytes) :
    (requestBytes type payload).length = kHeaderSize + payload.length := by
  rw [requestBytes, List.length_append, encodeHeader_length]

theorem decodeHeader_encodeHeader (n : UInt32) (t : UInt16) (f : UInt8) :
    decodeHeader (encodeHeader n t f) = (n, t) := by
  obtain ⟨a, b, c, d, rfl⟩ := exists_be32 n
  obtain ⟨p, q, rfl⟩ := exists_be16 t
  rw [encodeHeader_be, decodeHeader_be]

theorem complete_encodeHeader {payload : Bytes} (hpayload : payload.length ≤ kMaxPayload.toNat)
    (type : UInt16) :
    Complete (encodeHeader (UInt32.ofNat payload.length) type 0) payload := by
  have hmax : kMaxPayload.toNat = 16777216 := by decide
  have hlength : (UInt32.ofNat payload.length).toNat = payload.length :=
    UInt32.toNat_ofNat_of_lt' (by rw [UInt32.size]; omega)
  refine ⟨encodeHeader_length _ _ _, ?_, ?_⟩
  · rw [decodeHeader_encodeHeader, UInt32.le_iff_toNat_le, hlength]
    exact hpayload
  · rw [decodeHeader_encodeHeader, hlength]

theorem sendMsgs_progress (rest : List Call) {good : List Call}
    (hgood : ∀ call ∈ good, call.Moves) (msgs : List (UInt16 × Bytes))
    (hlength : (wire msgs).length ≤ good.length) (link : Link σ) :
    ∃ good' link', sendMsgs host router msgs (good ++ rest) link =
        (msgs.map fun _ => true, good' ++ rest, link') ∧ Used (wire msgs).length good good' ∧
      link'.line.connection.arrived = link.line.connection.arrived ++ wire msgs := by
  induction msgs generalizing good link with
  | nil => exact ⟨good, link, rfl, .refl _, (List.append_nil _).symm⟩
  | cons m msgs ih =>
    obtain ⟨type, payload⟩ := m
    have hwire : wire ((type, payload) :: msgs) = requestBytes type payload ++ wire msgs := rfl
    rw [hwire, List.length_append, requestBytes_length] at hlength
    obtain ⟨good₁, link₁, hsend, hused, harrived⟩ := sendMsg_progress host router
      hgood rest type payload (by omega) link
    have hleft := hused.2
    obtain ⟨good₂, link₂, hsends, hused', harrived'⟩ := ih (hused.moves hgood) (by omega) link₁
    refine ⟨good₂, link₂, ?_, ?_, ?_⟩
    · simp only [sendMsgs, hsend, hsends, List.map_cons]
    · rw [hwire, List.length_append, requestBytes_length]
      exact hused.trans hused'
    · rw [harrived', harrived, hwire, List.append_assoc]

theorem recvMsgs_progress (rest : List Call) {good : List Call}
    (hgood : ∀ call ∈ good, call.Moves) {msgs : List (UInt16 × Bytes)}
    (hmsgs : ∀ m ∈ msgs, m.2.length ≤ kMaxPayload.toNat)
    (hlength : (wire msgs).length ≤ good.length) (r : Bytes) {link : Link σ}
    (hunread : wire msgs ++ r <+: link.unread) :
    ∃ good' link', recvMsgs host router msgs.length (good ++ rest) link =
        (msgs.map fun m => (some m, kHeaderSize + m.2.length), good' ++ rest, link') ∧
      Used (wire msgs).length good good' ∧
      link'.received = link.received + (wire msgs).length ∧ r <+: link'.unread := by
  induction msgs generalizing good link with
  | nil => exact ⟨good, link, rfl, .refl _, rfl, hunread⟩
  | cons m msgs ih =>
    obtain ⟨type, payload⟩ := m
    have hwire : wire ((type, payload) :: msgs) = requestBytes type payload ++ wire msgs := rfl
    rw [hwire, List.length_append, requestBytes_length] at hlength
    rw [hwire, List.append_assoc] at hunread
    have hcomplete := complete_encodeHeader (hmsgs _ List.mem_cons_self) type
    obtain ⟨good₁, link₁, hrecv, hused, hreceived, hunread₁⟩ := recvMsg_reads host router
      hgood rest _ hcomplete (by simp only; omega) hunread
    have hleft := hused.2
    obtain ⟨good₂, link₂, hrecvs, hused', hreceived', hunread₂⟩ :=
      ih (hused.moves hgood) (List.forall_mem_of_forall_mem_cons hmsgs) (by simp only at *; omega)
        hunread₁
    rw [decodeHeader_encodeHeader] at hrecv
    refine ⟨good₂, link₂, ?_, ?_, ?_, hunread₂⟩
    · simp only [recvMsgs, List.length_cons, hrecv, hrecvs, List.map_cons, hreceived]
      rw [Nat.add_sub_cancel_left]
    · rw [hwire, List.length_append, requestBytes_length]
      exact hused.trans hused'
    · rw [hreceived', hreceived, hwire, List.length_append, requestBytes_length, Nat.add_assoc]

theorem recvAll_quiet {calls : List Call} (hquiet : ∀ call ∈ calls, call.turns = []) {len : ℕ}
    {data : Bytes} {link link' : Link σ} {result : Option Bytes} {calls' : List Call}
    (h : recvAll host router calls len data link = (result, calls', link')) :
    link'.line = link.line ∧ calls' <:+ calls := by
  induction calls generalizing len data link with
  | nil =>
    simp only [recvAll, Prod.mk.injEq] at h
    obtain ⟨-, rfl, rfl⟩ := h
    exact ⟨rfl, List.suffix_refl _⟩
  | cons call calls ih =>
    have hrest := List.forall_mem_of_forall_mem_cons hquiet
    have hline : (link.recv host router len call).2.line = link.line := by
      simp only [Link.recv, Link.elapse, hquiet call List.mem_cons_self, List.foldl_nil]
      split <;> rfl
    rw [recvAll] at h
    split at h
    · simp only [Prod.mk.injEq] at h
      obtain ⟨-, rfl, rfl⟩ := h
      exact ⟨rfl, List.suffix_refl _⟩
    · generalize hrecv : link.recv host router len call = r at h hline
      obtain ⟨got, link₁⟩ := r
      have hsuffix := List.suffix_cons call calls
      cases got with
      | none =>
        simp only [Prod.mk.injEq] at h
        obtain ⟨-, rfl, rfl⟩ := h
        exact ⟨hline, hsuffix⟩
      | some more =>
        cases more with
        | nil =>
          simp only [Prod.mk.injEq] at h
          obtain ⟨-, rfl, rfl⟩ := h
          exact ⟨hline, hsuffix⟩
        | cons b bs =>
          obtain ⟨hline', hsuffix'⟩ := ih hrest h
          exact ⟨hline'.trans hline, hsuffix'.trans hsuffix⟩

theorem recvMsg_quiet {calls : List Call} (hquiet : ∀ call ∈ calls, call.turns = [])
    (link : Link σ) : (recvMsg host router calls link).2.2.line = link.line := by
  simp only [recvMsg]
  generalize hheader : recvAll host router calls kHeaderSize [] link = r
  obtain ⟨header, calls₁, link₁⟩ := r
  obtain ⟨hline, hsuffix⟩ := recvAll_quiet host router hquiet hheader
  cases header with
  | none => exact hline
  | some header =>
    simp only
    split
    · exact hline
    split
    · exact hline
    generalize hbody : recvAll host router calls₁ (decodeHeader header).1.toNat [] link₁ = r
    obtain ⟨body, calls₂, link₂⟩ := r
    have hquiet' : ∀ call ∈ calls₁, call.turns = [] := fun call hcall =>
      hquiet call (hsuffix.subset hcall)
    have hline' := (recvAll_quiet host router hquiet' hbody).1
    cases body <;> exact hline'.trans hline

theorem recvMsg_isSome_iff {good rest : List Call} (hgood : ∀ call ∈ good, call.Moves)
    (hquiet : ∀ call ∈ good ++ rest, call.turns = []) {link : Link σ}
    (hlength : link.unread.length ≤ good.length) :
    (recvMsg host router (good ++ rest) link).1 ≠ none ↔
      ∃ header payload, Complete header payload ∧ header ++ payload <+: link.unread := by
  constructor
  · intro hsome
    generalize hrecv : recvMsg host router (good ++ rest) link = r at hsome
    obtain ⟨result, calls', link'⟩ := r
    have hline := recvMsg_quiet host router hquiet link
    rw [hrecv] at hline
    obtain ⟨-, hread⟩ := recvMsg_spec (P := fun _ => True) (fun _ _ _ => trivial) _ link hrecv
    obtain ⟨⟨type, payload⟩, rfl⟩ := Option.ne_none_iff_exists'.mp hsome
    obtain ⟨header, hheader, -, hmax, hpayload, -, hfront⟩ := hread type payload rfl
    simp only at hline
    rw [hline] at hfront
    exact ⟨header, payload, ⟨hheader, hmax, hpayload⟩, hfront⟩
  · rintro ⟨header, payload, hcomplete, hfront⟩
    have hle := hfront.length_le
    rw [List.length_append, hcomplete.1] at hle
    obtain ⟨good', link', hrecv, -⟩ := recvMsg_reads host router hgood rest [] hcomplete
      (by omega) (by rwa [List.append_nil])
    rw [hrecv]
    exact Option.some_ne_none _

/-- Messages go through unchanged over any short transfers, and a stream that ends early
delivers a message exactly if all of it is there. -/
theorem transport_exact {msgs : List (UInt16 × Bytes)}
    (hmsgs : ∀ m ∈ msgs, m.2.length ≤ kMaxPayload.toNat) :
    (∀ (calls : List Call) (link : Link σ), (∀ call ∈ calls, call.Moves) →
      (wire msgs).length ≤ calls.length →
      ∃ calls' link', sendMsgs host router msgs calls link =
          (msgs.map fun _ => true, calls', link') ∧
        Used (wire msgs).length calls calls' ∧
        link'.line.connection.arrived = link.line.connection.arrived ++ wire msgs) ∧
    (∀ (calls : List Call) (link : Link σ), (∀ call ∈ calls, call.Moves) →
      (wire msgs).length ≤ calls.length → wire msgs <+: link.unread →
      ∃ calls' link', recvMsgs host router msgs.length calls link =
          (msgs.map fun m => (some m, kHeaderSize + m.2.length), calls', link') ∧
        Used (wire msgs).length calls calls' ∧
        link'.received = link.received + (wire msgs).length) ∧
    ∀ (calls rest : List Call) (link : Link σ), (∀ call ∈ calls, call.Moves) →
      (∀ call ∈ calls ++ rest, call.turns = []) → link.unread.length ≤ calls.length →
      ((recvMsg host router (calls ++ rest) link).1 ≠ none ↔
        ∃ header payload, Complete header payload ∧ header ++ payload <+: link.unread) := by
  refine ⟨?_, ?_, ?_⟩
  · intro calls link hcalls hlength
    have hsent := sendMsgs_progress host router [] hcalls msgs hlength link
    simpa only [List.append_nil] using hsent
  · intro calls link hcalls hlength hunread
    obtain ⟨calls', link', hrecv, hused, hreceived, -⟩ := recvMsgs_progress host router [] hcalls
      hmsgs hlength [] (by rwa [List.append_nil])
    simp only [List.append_nil] at hrecv
    exact ⟨calls', link', hrecv, hused, hreceived⟩
  · intro calls rest link hcalls hquiet hlength
    exact recvMsg_isSome_iff host router hcalls hquiet hlength

def twoPings : List (UInt16 × Bytes) := [(MessageType.kPing, [49]), (MessageType.kPing, [])]

def pingLink (written : Bytes) : Link Unit :=
  ⟨⟨{ Connection.accept 1 with written := written }, (), [], 0⟩, 0⟩

theorem transport_exact_pings :
    ∃ calls' link', recvMsgs .little ServiceRouter.empty 2 (List.replicate 17 ⟨[], false, 1⟩)
        (pingLink (wire twoPings)) =
        ([(some (MessageType.kPing, [49]), 9), (some (MessageType.kPing, []), 8)],
          calls', link') ∧
      Used 17 (List.replicate 17 ⟨[], false, 1⟩) calls' ∧ link'.received = 17 := by
  have hmsgs : ∀ m ∈ twoPings, m.2.length ≤ kMaxPayload.toNat :=
    List.forall_mem_cons.mpr ⟨by decide, List.forall_mem_cons.mpr ⟨by decide,
      List.forall_mem_nil _⟩⟩
  have hcalls : ∀ call ∈ List.replicate 17 (⟨[], false, 1⟩ : Call), call.Moves := by
    intro call hcall
    rw [List.eq_of_mem_replicate hcall]
    exact ⟨rfl, Nat.one_pos⟩
  exact (transport_exact .little ServiceRouter.empty hmsgs).2.1 _ (pingLink (wire twoPings)) hcalls
    (by decide) (List.prefix_refl _)

end HSFinancialServices.Ui
