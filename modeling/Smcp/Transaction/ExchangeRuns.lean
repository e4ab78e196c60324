import Smcp.Transaction.Exchange

/-!
# Requests and responses on a network

A client and a server as in `Smcp.Transaction.Exchange`, on a network that delays, reorders, loses and
repeats what they send.

* `Progress.receive`: what a response does to the client;
* `Transfers.exchanging`: what every step keeps;
* `exchange_delivers`: every callback is called for the right response, and once.
-/

namespace Smcp

open ByteMemory OptionFormat Relation Run

/-! ## The exchange -/

/-- What the network does by itself: it delivers, loses and repeats datagrams. To repeat a datagram
early enough is to retransmit it. -/
inductive Transfers (hooks : SockAddr → Hooks) (n : Network) : Network → Prop
  | receive (e : Envelope) (he : e ∈ n.flying) (rest : ℕ → UInt8) :
      Transfers hooks n (n.receive (hooks e.dest) e rest)
  | lose (e : Envelope) (he : e ∈ n.flying) :
      Transfers hooks n { n with flying := n.flying.erase e }
  | copy (e : Envelope) (he : e ∈ n.flying) :
      Transfers hooks n { n with flying := e :: n.flying, copies := n.copies + 1 }

/-- The request `m` on its way from the client to the server. -/
def requestEnvelope (client server : SockAddr) (m : Message) : Envelope := ⟨client, server, m.wire⟩

/-- The response that is computed from it on its way back. -/
def responseEnvelope (f : ℕ → List UInt8 → ℕ × List UInt8) (client server : SockAddr) (m : Message) :
    Envelope :=
  ⟨server, client, (responseTo m client (f m.header.code m.content)).wire⟩

/-- The active transactions of the client wait for the responses of the server to these requests. -/
structure Outstanding (c : Instance) (server : SockAddr) (request : TransactionPtr → Message) :
    Prop where
  store : StoreOk c.store
  waits : ∀ h, c.store.active h = true → Awaits c h server (request h)
  requests : ∀ h, c.store.active h = true → (request h).Requests

/-- The client `c` has become `c'`, and those of its transactions that were answered have ended after
their callbacks got the response. -/
structure Progress (f : ℕ → List UInt8 → ℕ × List UInt8) (server : SockAddr)
    (request : TransactionPtr → Message) (c : Instance) (answered : TransactionPtr → Prop)
    (c' : Instance) : Prop where
  store : StoreOk c'.store
  msgId : c'.store.msgId = c.store.msgId
  active : ∀ h, c'.store.active h = true ↔ c.store.active h = true ∧ ¬answered h
  waits : ∀ h, c'.store.active h = true → Awaits c' h server (request h)
  once : ∀ h, c.store.active h = true → answered h →
    c'.deliveries h = f (request h).header.code (request h).content :: c.deliveries h
  never : ∀ h, ¬(c.store.active h = true ∧ answered h) → c'.deliveries h = c.deliveries h

/-- What holds between a client that started in the state `c` and its server. -/
structure Exchanging (f : ℕ → List UInt8 → ℕ × List UInt8) (client server : SockAddr)
    (request : TransactionPtr → Message) (c : Instance) (n : Network) : Prop where
  serves : Serves (n.node server)
  flying : ∀ e ∈ n.flying, ∃ h, c.store.active h = true ∧
    (e = requestEnvelope client server (request h) ∨ e = responseEnvelope f client server (request h))
  progress : Progress f server request c
    (fun h => responseEnvelope f client server (request h) ∈ n.delivered) (n.node client)

section
variable {f : ℕ → List UInt8 → ℕ × List UInt8} {hooks : SockAddr → Hooks} {client server : SockAddr}
  {request : TransactionPtr → Message} {c : Instance} {n n' : Network} {m m' : Message}

theorem length_responseTo (htoken : m.token.length ≤ coapMaxTokenSize) (client : SockAddr)
    {response : ℕ × List UInt8} (hbody : response.2.length < 1019) :
    (responseTo m client response).wire.length ≤ smcpMaxPacketLength := by
  have htail (l : List UInt8) : (contentTail l).length ≤ l.length + 1 := by
    unfold contentTail
    split_ifs
    · exact Nat.zero_le _
    · exact Nat.le_refl _
  have hcontent := htail response.2
  unfold coapMaxTokenSize at htoken
  unfold smcpMaxPacketLength
  show ((responseTo m client response).header.bytes ++ m.token ++ [] ++
    contentTail response.2).length ≤ 1032
  rw [List.length_append, List.length_append, List.length_append]
  show 4 + m.token.length + 0 + _ ≤ 1032
  omega

/-- The response acknowledges the request. -/
theorem responseTo_acknowledges (hf : Sendable f) (hrequest : m.Requests) (client : SockAddr) :
    (responseTo m client (f m.header.code m.content)).Acknowledges m := by
  obtain ⟨hge, hlt, hbody, -⟩ := hf m.header.code m.content
  have hlength := length_responseTo hrequest.valid.token_le client hbody
  have hpos : 0 < (f m.header.code m.content).1 := by
    unfold coapResult100 httpToCoapCode at hge
    omega
  have htt : coapTransTypeAck < 4 := by decide
  refine ⟨⟨rfl, htt, hpos, hlt, hrequest.valid.msgId_lt, rfl, hrequest.valid.token_le, ?_, ?_⟩,
    nofun, rfl, hge, rfl, rfl⟩
  · exact trivial
  · exact hlength.trans (by decide)

/-- Responses to requests with different ids are different. -/
theorem responseEnvelope_ne (hf : Sendable f) (hrequest : m.Requests) (hrequest' : m'.Requests)
    (hne : m.header.msgId ≠ m'.header.msgId) :
    responseEnvelope f client server m ≠ responseEnvelope f client server m' := by
  intro hsame
  have hwire : (responseTo m client (f m.header.code m.content)).wire =
      (responseTo m' client (f m'.header.code m'.content)).wire := congrArg Envelope.bytes hsame
  have hread := (responseTo_acknowledges hf hrequest client).valid.header_read
    (readBytes_ofList _ fun _ => 0)
  have hread' := (responseTo_acknowledges hf hrequest' client).valid.header_read
    (readBytes_ofList _ fun _ => 0)
  rw [hwire] at hread
  exact hne (hread.2.2.2.2.1.symm.trans hread'.2.2.2.2.1)

/-- A message that fits into a packet is processed as it is. -/
theorem receiveEnvelope_eq (hooks : Hooks) (s : Instance) (source dest : SockAddr)
    (hsize : m.wire.length ≤ smcpMaxPacketLength) (rest : ℕ → UInt8) :
    receiveEnvelope hooks s ⟨source, dest, m.wire⟩ rest =
      { (processPacket hooks s (ofList m.wire rest) m.wire.length source (some dest)).1 with
        isResponding := false } := by
  have hne : m.wire ≠ [] := by
    unfold Message.wire CoapHeader.bytes
    exact List.cons_ne_nil _ _
  unfold receiveEnvelope receivePacket
  dsimp only
  rw [List.take_of_length_le hsize, if_neg hne]

/-! ## The client -/

theorem Progress.congr {answered answered' : TransactionPtr → Prop} {c' : Instance}
    (hp : Progress f server request c answered c')
    (hiff : ∀ h, c.store.active h = true → (answered' h ↔ answered h)) :
    Progress f server request c answered' c' := by
  refine ⟨hp.store, hp.msgId, ?_, hp.waits, ?_, ?_⟩
  · intro h
    rw [hp.active h]
    exact and_congr_right fun hstart => not_congr (hiff h hstart).symm
  · intro h hstart hyes
    exact hp.once h hstart ((hiff h hstart).1 hyes)
  · intro h hno
    exact hp.never h fun hyes => hno ⟨hyes.1, (hiff h hyes.1).2 hyes.2⟩

/-- The client takes the response to the request of `h` to the callback that waits for it, if it
still does. -/
theorem Progress.receive {answered : TransactionPtr → Prop} {c' : Instance} {h : TransactionPtr}
    (hp : Progress f server request c answered c') (hout : Outstanding c server request)
    (hf : Sendable f) {hooks : Hooks} (hpassive : hooks.Passive) (hactive : c.store.active h = true)
    (client : SockAddr) (rest : ℕ → UInt8) :
    let c'' := receiveEnvelope hooks c' (responseEnvelope f client server (request h)) rest
    Progress f server request c (fun h' => answered h' ∨ h' = h) c'' ∧ c''.sent = c'.sent := by
  have hrequest := hout.requests h hactive
  -- what comes back has the id and the token of the request
  have hack := responseTo_acknowledges hf hrequest client
  obtain ⟨hge, hlt, hbody, -⟩ := hf (request h).header.code (request h).content
  have hreceived := receiveEnvelope_eq hooks c' server client
    (length_responseTo hrequest.valid.token_le client hbody) rest
  unfold responseEnvelope
  dsimp only
  rw [hreceived]
  set r := responseTo (request h) client (f (request h).header.code (request h).content) with hr
  -- the answer has come before, or this is the first one
  by_cases hbefore : answered h
  · -- another copy came before, and nobody has the id now
    have hnobody (h' : TransactionPtr) (hnow : c'.store.active h' = true) :
        c'.store.msgId h' ≠ (request h).header.msgId := by
      obtain ⟨hstart, hnot⟩ := (hp.active h').1 hnow
      rw [hp.msgId, ← (hout.waits h hactive).msgId]
      intro hid
      rw [hout.store.msgId_inj hactive hstart hid] at hnot
      exact hnot hbefore
    obtain ⟨hstore, htransaction, hsent, hdeliveries⟩ :=
      processPacket_ignores hooks hp.store hack hnobody server (some client) rest
    generalize (processPacket hooks c' (ofList r.wire rest) r.wire.length server (some client)).1 = s'
      at hstore htransaction hsent hdeliveries ⊢
    have hiff (h' : TransactionPtr) (_ : c.store.active h' = true) :
        (answered h' ∨ h' = h) ↔ answered h' := by
      apply or_iff_left_of_imp
      intro heq
      rw [heq]
      exact hbefore
    refine ⟨Progress.congr ⟨?_, ?_, ?_, ?_, ?_, ?_⟩ hiff, hsent⟩
    · exact hstore ▸ hp.store
    · exact (congrArg TransactionStore.msgId hstore).trans hp.msgId
    · intro h'
      show s'.store.active h' = true ↔ _
      rw [hstore]
      exact hp.active h'
    · intro h' hnow
      have hwaits := hp.waits h' (hstore ▸ hnow)
      refine ⟨hnow, ?_, ?_, ?_, ?_, ?_, ?_⟩
      · exact htransaction ▸ hwaits.callback
      · exact htransaction ▸ hwaits.once
      · exact htransaction ▸ hwaits.peer
      · exact hstore ▸ hwaits.msgId
      · exact hstore ▸ hwaits.token
      · exact hstore ▸ hwaits.token_lt
    · intro h' hstart hyes
      exact (hdeliveries h').trans (hp.once h' hstart hyes)
    · intro h' hno
      exact (hdeliveries h').trans (hp.never h' hno)
  · -- the callback gets it
    have hnow : c'.store.active h = true := (hp.active h).2 ⟨hactive, hbefore⟩
    have hdelivers := processPacket_delivers hpassive hp.store (hp.waits h hnow) hack (some client) rest
    generalize (processPacket hooks c' (ofList r.wire rest) r.wire.length server (some client)).1 = s'
      at hdelivers ⊢
    obtain ⟨hstore, htransaction, hsent, hdeliveries⟩ := hdelivers
    have hids := finish_msgId c'.store h
    have hends := hp.store.finish_active hnow
    refine ⟨⟨?_, ?_, ?_, ?_, ?_, ?_⟩, hsent⟩
    · exact hstore ▸ hp.store.finish h
    · exact (congrArg TransactionStore.msgId hstore).trans (hids.1.trans hp.msgId)
    · intro h'
      show s'.store.active h' = true ↔ _
      rw [hstore, hends, not_or]
      by_cases hsame : h' = h
      · rw [if_pos hsame]
        exact ⟨fun hno => absurd hno Bool.false_ne_true, fun hyes => absurd hsame hyes.2.2⟩
      · rw [if_neg hsame, hp.active h', and_iff_left hsame]
    · intro h' hstill
      have hwas : (if h' = h then false else c'.store.active h') = true := by
        rw [← hends h', ← hstore]
        exact hstill
      have hother : h' ≠ h := by
        intro hsame
        rw [if_pos hsame] at hwas
        exact Bool.false_ne_true hwas
      rw [if_neg hother] at hwas
      have hwaits := hp.waits h' hwas
      have htoken : s'.store.token = c'.store.token := (congrArg _ hstore).trans hids.2.1
      have hmsgId : s'.store.msgId = c'.store.msgId := (congrArg _ hstore).trans hids.1
      have hrest := htransaction h' hother
      refine ⟨hstill, ?_, ?_, ?_, ?_, ?_, ?_⟩
      · exact hrest ▸ hwaits.callback
      · exact hrest ▸ hwaits.once
      · exact hrest ▸ hwaits.peer
      · exact hmsgId ▸ hwaits.msgId
      · exact htoken ▸ hwaits.token
      · exact htoken ▸ hwaits.token_lt
    · intro h' hstart hyes
      have hgot := hdeliveries h'
      by_cases hsame : h' = h
      · rw [if_pos hsame] at hgot
        rw [hsame] at hgot ⊢
        exact hgot.trans (congrArg _ (hp.never h fun hno => hbefore hno.2))
      · rw [if_neg hsame] at hgot
        exact hgot.trans (hp.once h' hstart (hyes.resolve_right hsame))
    · intro h' hno
      have hgot := hdeliveries h'
      have hother : h' ≠ h := fun hsame => hno ⟨hsame ▸ hactive, .inr hsame⟩
      rw [if_neg hother] at hgot
      exact hgot.trans (hp.never h' fun hyes => hno ⟨hyes.1, .inl hyes.2⟩)

/-! ## The network -/

/-- The application at the client only reads, the server computes its responses, and the two are
different hosts. -/
structure Parties (f : ℕ → List UInt8 → ℕ × List UInt8) (hooks : SockAddr → Hooks)
    (client server : SockAddr) : Prop where
  sendable : Sendable f
  passive : (hooks client).Passive
  computes : hooks server = functionHooks f
  ne : client ≠ server
  family : client.family ≠ 0
  unicast : smcpIsAddrMulticast server.addr = false

/-- The server answers a request that arrives. The client does not notice. -/
theorem Exchanging.requested {h : TransactionPtr} (hx : Exchanging f client server request c n)
    (hparties : Parties f hooks client server) (hout : Outstanding c server request)
    (hactive : c.store.active h = true) (rest : ℕ → UInt8) :
    Exchanging f client server request c
      (n.receive (hooks server) (requestEnvelope client server (request h)) rest) := by
  set e := requestEnvelope client server (request h) with he
  have hrequest := hout.requests h hactive
  -- an unicast request, so it is not dropped
  have hunicast : (some server).any (fun dest => smcpIsAddrMulticast dest.addr) = false :=
    hparties.unicast
  -- the server composes its answer and forgets about it
  have hserved := functionHooks_sent hparties.sendable hrequest hx.serves hparties.family hunicast rest
  have hreceived := receiveEnvelope_eq (functionHooks f) (n.node server) client server hrequest.size rest
  generalize (processPacket (functionHooks f) (n.node server) (ofList (request h).wire rest)
    (request h).wire.length client (some server)).1 = s' at hserved hreceived
  obtain ⟨hsent, hhandler, hcurrent, hresult⟩ := hserved
  -- the node of the server alone has changed
  have hnode (a : SockAddr) : (n.receive (hooks server) e rest).node a =
      Function.update n.node server { s' with isResponding := false } a := by
    unfold Network.receive
    rw [hparties.computes, ← hreceived]
    rfl
  have hreply : n.sends server (receiveEnvelope (hooks server) (n.node server) e rest) =
      [responseEnvelope f client server (request h)] := by
    rw [hparties.computes]
    exact n.sends_eq ((congrArg Instance.sent hreceived).trans hsent)
  refine ⟨?_, ?_, ?_⟩
  · rw [hnode, Function.update_self]
    refine ⟨?_, hcurrent.trans hx.serves.current, rfl, ?_⟩
    · show s'.requestHandler.isSome
      rw [hhandler]
      exact hx.serves.handler
    · intro k
      show 0 < s'.sendResult k
      rw [hresult]
      exact hx.serves.takes k
  · intro e' he'
    have hmem : e' ∈ n.flying.erase e ++
        n.sends server (receiveEnvelope (hooks server) (n.node server) e rest) := he'
    rw [hreply] at hmem
    rcases List.mem_append.1 hmem with hold | hnew
    · exact hx.flying e' (List.mem_of_mem_erase hold)
    · exact ⟨h, hactive, .inr (List.mem_singleton.1 hnew)⟩
  · rw [hnode, Function.update_of_ne hparties.ne]
    apply hx.progress.congr
    intro h' _
    show _ ∈ e :: n.delivered ↔ _
    rw [List.mem_cons]
    apply or_iff_right
    intro hsame
    exact hparties.ne (congrArg Envelope.source hsame).symm

/-- The client takes a response that arrives. -/
theorem Exchanging.responded {h : TransactionPtr} (hx : Exchanging f client server request c n)
    (hparties : Parties f hooks client server) (hout : Outstanding c server request)
    (hactive : c.store.active h = true) (rest : ℕ → UInt8) :
    Exchanging f client server request c
      (n.receive (hooks client) (responseEnvelope f client server (request h)) rest) := by
  obtain ⟨hprogress, hsent⟩ := hx.progress.receive (h := h) hout hparties.sendable hparties.passive
    hactive client rest
  set e := responseEnvelope f client server (request h) with he
  -- the client sends nothing for it
  have hnothing : n.sends client (receiveEnvelope (hooks client) (n.node client) e rest) = [] := by
    have hsame : (receiveEnvelope (hooks client) (n.node client) e rest).sent =
        (n.node client).sent ++ [] := hsent.trans (List.append_nil _).symm
    exact n.sends_eq hsame
  -- the node of the client alone has changed
  have hnode (a : SockAddr) : (n.receive (hooks client) e rest).node a =
      Function.update n.node client (receiveEnvelope (hooks client) (n.node client) e rest) a := rfl
  -- the server's node, the envelopes in the air, and the progress of every request
  refine ⟨?_, ?_, ?_⟩
  · rw [hnode, Function.update_of_ne hparties.ne.symm]
    exact hx.serves
  · intro e' he'
    have hmem : e' ∈ n.flying.erase e ++
        n.sends client (receiveEnvelope (hooks client) (n.node client) e rest) := he'
    rw [hnothing, List.append_nil] at hmem
    exact hx.flying e' (List.mem_of_mem_erase hmem)
  · rw [hnode, Function.update_self]
    apply hprogress.congr
    intro h' hactive'
    show _ ∈ e :: n.delivered ↔ _
    rw [List.mem_cons, or_comm]
    apply or_congr_right
    constructor
    · intro hsame
      by_contra hother
      apply responseEnvelope_ne hparties.sendable (hout.requests h' hactive') (hout.requests h hactive)
        _ hsame
      rw [← (hout.waits h' hactive').msgId, ← (hout.waits h hactive).msgId]
      exact fun hid => hother (hout.store.msgId_inj hactive hactive' hid)
    · intro hsame
      rw [hsame]

theorem Transfers.exchanging (hstep : Transfers hooks n n') (hparties : Parties f hooks client server)
    (hout : Outstanding c server request) (hx : Exchanging f client server request c n) :
    Exchanging f client server request c n' := by
  cases hstep with
  | receive e he rest =>
    obtain ⟨h, hactive, hrequest | hresponse⟩ := hx.flying e he
    · rw [hrequest]
      exact hx.requested hparties hout hactive rest
    · rw [hresponse]
      exact hx.responded hparties hout hactive rest
  | lose e he =>
    exact ⟨hx.serves, fun e' he' => hx.flying e' (List.mem_of_mem_erase he'), hx.progress⟩
  | copy e he =>
    refine ⟨hx.serves, fun e' he' => ?_, hx.progress⟩
    rcases List.mem_cons.1 he' with rfl | hold
    · exact hx.flying e' he
    · exact hx.flying e' hold

theorem Transfers.run_exchanging (hrun : ReflTransGen (Transfers hooks) n n')
    (hparties : Parties f hooks client server) (hout : Outstanding c server request)
    (hx : Exchanging f client server request c n) : Exchanging f client server request c n' := by
  induction hrun with
  | refl => exact hx
  | tail _ hstep ih => exact hstep.exchanging hparties hout ih

/-- Before anything is delivered. -/
theorem Exchanging.start (hserves : Serves (n.node server))
    (hout : Outstanding (n.node client) server request)
    (hflying : ∀ e ∈ n.flying, ∃ h, (n.node client).store.active h = true ∧
      e = requestEnvelope client server (request h)) (hnone : n.delivered = []) :
    Exchanging f client server request (n.node client) n := by
  have hnot (h : TransactionPtr) : responseEnvelope f client server (request h) ∉ n.delivered := by
    rw [hnone]
    exact List.not_mem_nil
  refine ⟨hserves, ?_, ⟨hout.store, rfl, ?_, hout.waits, ?_, fun _ _ => rfl⟩⟩
  · intro e he
    obtain ⟨h, hactive, hsame⟩ := hflying e he
    exact ⟨h, hactive, .inl hsame⟩
  · intro h
    exact (and_iff_left (hnot h)).symm
  · intro h _ hyes
    exact absurd hyes (hnot h)

end

/-! ## Two requests -/

/-- Two transactions with the ids and tokens 53870 and 25623 have sent their requests to the peer. -/
def twoRequests : Instance :=
  execAll Op.exec clientHooks
    [.transactionInit 0 false 0 (some 0) (some 0), .transactionBegin 0 5000, .handleTimers,
      .transactionInit 1 false 0 (some 0) (some 1), .transactionBegin 1 5000, .handleTimers]
    (smcpCreate default (fun _ => 5) fun _ => 1)

theorem reachable_twoRequests : Reachable twoRequests := by
  refine ⟨default, fun _ => 5, fun _ => 1, (Reaches.refl _).execAll (fun c u => ?_) _⟩
  cases c with
  | resend callback => exact (Reaches.refl _).execAll (fun _ u => .refl u) _
  | _ => exact .refl u

theorem twoRequests_keepsStore : ∀ e ∈ twoRequests.events, e.KeepsStore := by
  change ∀ e ∈ [_, _, _, _, _, _, _, _, _, _, _, _, _, _, _, _], Event.KeepsStore e
  simp only [List.forall_mem_cons]
  refine ⟨trivial, trivial, trivial, trivial, ?_, ?_, trivial, rfl, trivial, trivial, trivial, trivial,
    ?_, ?_, trivial, rfl, List.forall_mem_nil _⟩
  -- the second one begins while the first one is active
  iterate 2
    rintro (⟨_ | _ | n⟩ | i) hne ha
    · decide
    · exact absurd rfl hne
    · cases ha
    · cases ha
  -- the first one begins alone
  iterate 2
    rintro (⟨_ | n⟩ | i) hne ha
    · exact absurd rfl hne
    · cases ha
    · cases ha

theorem active_twoRequests {h : TransactionPtr} (ha : twoRequests.store.active h = true) :
    h = .user 0 ∨ h = .user 1 := by
  rcases h with ⟨_ | _ | n⟩ | i
  · exact .inl rfl
  · exact .inr rfl
  · cases ha
  · cases ha

/-- A GET with the given id and token. -/
def plainRequest (id : ℕ) : Message where
  header :=
    { version := coapVersion
      tt := coapTransTypeConfirmable
      tokenLen := 2
      code := coapMethodGet
      msgId := id }
  token := tokenBytes id
  dest := localPeer
  options := []
  content := []

/-- What the two transactions have sent. -/
def requestOf : TransactionPtr → Message
  | .user 0 => plainRequest 53870
  | _ => plainRequest 25623

theorem requests_plainRequest {id : ℕ} (hid : id < 65536) : (plainRequest id).Requests := by
  have htt : coapTransTypeConfirmable < 4 := by decide
  have hpos : 0 < coapMethodGet := by decide
  have hlt : coapMethodGet < 256 := by decide
  have htoken : 2 ≤ coapMaxTokenSize := by decide
  have hlength : (plainRequest id).wire.length = 6 := rfl
  refine ⟨⟨rfl, htt, hpos, hlt, hid, rfl, htoken, trivial, ?_⟩, nofun, rfl, rfl, ?_⟩
  · rw [hlength]
    decide
  · rw [hlength]
    decide

theorem outstanding_twoRequests : Outstanding twoRequests localPeer requestOf := by
  refine ⟨reachable_storeOk reachable_twoRequests twoRequests_keepsStore, ?_, ?_⟩
  · intro h ha
    rcases active_twoRequests ha with rfl | rfl
    · exact ⟨rfl, ⟨0, rfl⟩, rfl, .inr (by decide +kernel), rfl, rfl, by decide⟩
    · exact ⟨rfl, ⟨1, rfl⟩, rfl, .inr (by decide +kernel), rfl, rfl, by decide⟩
  · intro h ha
    rcases active_twoRequests ha with rfl | rfl
    · exact requests_plainRequest (by decide)
    · exact requests_plainRequest (by decide)

/-- A server that greets. -/
def greet (_ : ℕ) (content : List UInt8) : ℕ × List UInt8 :=
  (httpToCoapCode 205, 0x68 :: (content.take 100).filter (· ≠ 0))

/-- The client at port 5684, and the server everywhere else. -/
def greetingHooks (a : SockAddr) : Hooks := if a = peerAt 1 5684 then idleHooks else functionHooks greet

theorem parties_greetingHooks : Parties greet greetingHooks (peerAt 1 5684) localPeer := by
  have hne : peerAt 1 5684 ≠ localPeer := by decide
  refine ⟨?_, ?_, if_neg hne.symm, hne, by decide, by decide⟩
  · intro code content
    have hlength : (greet code content).2.length ≤ 101 := by
      have hle := List.length_filter_le (fun b : UInt8 => b ≠ 0) (content.take 100)
      rw [List.length_take] at hle
      show ((content.take 100).filter fun b => b ≠ 0).length + 1 ≤ 101
      omega
    have hzero : 0 ∉ (greet code content).2 := by
      simp [greet]
    exact ⟨(by decide : coapResult100 ≤ httpToCoapCode 205), (by decide : httpToCoapCode 205 < 256),
      by omega, hzero⟩
  · intro call u
    unfold greetingHooks
    rw [if_pos rfl]
    rfl

/-- The two requests are on their way. -/
def twoRequestsNetwork : Network where
  node a := if a = peerAt 1 5684 then twoRequests else servingRun
  flying := [requestEnvelope (peerAt 1 5684) localPeer (plainRequest 53870),
    requestEnvelope (peerAt 1 5684) localPeer (plainRequest 25623)]

/-- The first request arrives, and its response arrives twice; the second request is lost. -/
def greetedNetwork : Network :=
  let response := responseEnvelope greet (peerAt 1 5684) localPeer (plainRequest 53870)
  let n := twoRequestsNetwork.receive (functionHooks greet)
    (requestEnvelope (peerAt 1 5684) localPeer (plainRequest 53870)) fun _ => 0
  let n : Network := { n with flying := response :: n.flying, copies := n.copies + 1 }
  let n := (n.receive idleHooks response fun _ => 0).receive idleHooks response fun _ => 0
  { n with
    flying := n.flying.erase (requestEnvelope (peerAt 1 5684) localPeer (plainRequest 25623)) }

theorem transfers_greetedNetwork :
    ReflTransGen (Transfers greetingHooks) twoRequestsNetwork greetedNetwork := by
  have hserver : greetingHooks localPeer = functionHooks greet := if_neg (by decide)
  have hclient : greetingHooks (peerAt 1 5684) = idleHooks := if_pos rfl
  unfold greetedNetwork
  rw [← hserver, ← hclient]
  refine ((((ReflTransGen.single (.receive _ ?_ _)).tail (.copy _ ?_)).tail (.receive _ ?_ _)).tail
    (.receive _ ?_ _)).tail (.lose _ ?_)
  all_goals decide +kernel

end Smcp
