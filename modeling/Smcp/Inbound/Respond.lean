import Smcp.Transaction.Runs

/-!
# Requests and the client's transactions

A request handler that only composes a response is a `Responder`. Composing a response goes through
the same functions as composing a request of a transaction, which take `self->current_transaction`
for the transaction of the message.

* `Twin`: two instances that differ in their transactions only, none of which is current; whatever
  composes a response keeps them so;
* `request_leavesTransactions_iff`: a request leaves the transactions alone exactly when none is
  current.
-/

namespace Smcp

open ByteMemory Run

/-! ## Handlers that respond -/

/-- What such a handler does: it reads the request, makes calls and looks at what they return. -/
inductive Responder where
  | done (ret : ℤ)
  | read (next : Inbound → Responder)
  | call (c : OutboundCall) (next : ℤ → Responder)

def Responder.run : Responder → Instance → Instance × ℤ
  | .done ret, s => (s, ret)
  | .read next, s => (next s.inbound).run s
  | .call c next, s => (next (c.exec s).2).run (c.exec s).1

/-- An application whose request handlers all respond like this. -/
def Responder.hooks (r : Responder) : Hooks := fun _ s => r.run s

/-! ## Instances that differ in their transactions -/

/-- The same instance with other transactions. -/
def Instance.withTransactions (s : Instance) (tr : TransactionPtr → Transaction) : Instance :=
  { s with transaction := tr }

/-- `s'` is `s` with the transactions `tr`, and none is current. -/
structure Twin (tr : TransactionPtr → Transaction) (s s' : Instance) : Prop where
  eq : s' = s.withTransactions tr
  current : s.currentTransaction = none

/-- Two results that differ in the transactions only. -/
structure Twins {α : Type*} (tr : TransactionPtr → Transaction) (r r' : Instance × α) : Prop where
  twin : Twin tr r.1 r'.1
  result : r'.2 = r.2

section
variable {tr : TransactionPtr → Transaction} {s s' : Instance}

/-- A choice that does not depend on the transactions. -/
theorem Twin.ite {p p' : Prop} [Decidable p] [Decidable p'] {a a' b b' : Instance} (hp : p' ↔ p)
    (ha : Twin tr a a') (hb : Twin tr b b') :
    Twin tr (if p then a else b) (if p' then a' else b') := by
  simp only [hp]
  split_ifs
  · exact ha
  · exact hb

/-- Both take the same branch. -/
theorem Twins.ite {α : Type*} {p p' : Prop} [Decidable p] [Decidable p'] {a a' b b' : Instance × α}
    (hp : p' ↔ p) (ha : Twins tr a a') (hb : Twins tr b b') :
    Twins tr (if p then a else b) (if p' then a' else b') := by
  simp only [hp]
  split_ifs
  · exact ha
  · exact hb

/-- The message is the same. -/
theorem Twin.inbound (h : Twin tr s s') : s'.inbound = s.inbound := by rw [h.eq]; rfl

/-- A request is begun: an id is drawn, which transactions have no part in. -/
theorem twins_begin (h : Twin tr s s') (code tt : ℕ) :
    Twins tr (smcpOutboundBegin s code tt) (smcpOutboundBegin s' code tt) := by
  obtain ⟨rfl, hs⟩ := h
  exact ⟨⟨rfl, hs⟩, rfl⟩

/-- The destination is the same for both. -/
theorem twin_setDestaddr (h : Twin tr s s') (sockaddr : SockAddr) :
    Twin tr (smcpOutboundSetDestaddr s sockaddr) (smcpOutboundSetDestaddr s' sockaddr) := by
  obtain ⟨rfl, hs⟩ := h
  unfold smcpOutboundSetDestaddr Instance.withTransactions
  simp only [hs]
  exact ⟨rfl, rfl⟩

/-- The response takes id and token from the request. -/
theorem twin_startResponse (h : Twin tr s s') (code : ℕ) :
    Twin tr (startResponse s code) (startResponse s' code) := by
  have hbegin {u u' : Instance} (hu : Twin tr u u') :
      Twin tr { (smcpOutboundBegin u code (responseTt u)).1 with isResponding := true }
        { (smcpOutboundBegin u' code (responseTt u')).1 with isResponding := true } := by
    obtain ⟨rfl, hu⟩ := hu
    exact ⟨rfl, hu⟩
  unfold startResponse
  refine hbegin ?_
  obtain ⟨rfl, hs⟩ := h
  exact .ite Iff.rfl ⟨rfl, hs⟩ ⟨rfl, hs⟩

/-- It is begun once. -/
theorem twins_beginResponse (h : Twin tr s s') (code : ℕ) :
    Twins tr (smcpOutboundBeginResponse s code) (smcpOutboundBeginResponse s' code) := by
  have hstart := twin_startResponse h code
  have hset : Twin tr (smcpOutboundSetMsgId (startResponse s code) (smcpInboundGetMsgId s))
      (smcpOutboundSetMsgId (startResponse s' code) (smcpInboundGetMsgId s')) := by
    have hid : smcpInboundGetMsgId s' = smcpInboundGetMsgId s := by rw [h.eq]; rfl
    rw [hid, hstart.eq]
    exact ⟨rfl, hstart.current⟩
  have hdest := twin_setDestaddr hset s.inbound.saddr
  obtain ⟨rfl, hs⟩ := h
  unfold smcpOutboundBeginResponse
  refine .ite Iff.rfl ⟨⟨rfl, hs⟩, rfl⟩ (.ite Iff.rfl ⟨⟨rfl, hs⟩, rfl⟩ (.ite Iff.rfl ?_ ?_))
  · exact ⟨hdest, rfl⟩
  · exact ⟨hstart, rfl⟩

/-- Without a current transaction no option comes by itself. -/
theorem Twin.autoOptions (h : Twin tr s s') : s'.autoOptions = s.autoOptions := by
  obtain ⟨rfl, hs⟩ := h
  simp only [Instance.autoOptions, Instance.withTransactions, hs]

/-- Another message, the same for both. -/
theorem Twin.setOutbound (h : Twin tr s s') (o : Outbound) :
    Twin tr { s with outbound := o } { s' with outbound := o } := by
  obtain ⟨rfl, hs⟩ := h
  exact ⟨rfl, hs⟩

theorem Twin.outbound (h : Twin tr s s') : s'.outbound = s.outbound := by rw [h.eq]; rfl

/-- An option is put behind the others. -/
theorem twins_addOption (h : Twin tr s s') (key : ℕ) (value : List UInt8) :
    Twins tr (smcpOutboundAddOption s key value) (smcpOutboundAddOption s' key value) := by
  unfold smcpOutboundAddOption
  rw [h.autoOptions, h.outbound]
  exact ⟨h.setOutbound _, rfl⟩

/-- The marker is put behind the options. -/
theorem twin_getContentPtr (h : Twin tr s s') :
    Twin tr (smcpOutboundGetContentPtr s) (smcpOutboundGetContentPtr s') := by
  unfold smcpOutboundGetContentPtr
  rw [h.autoOptions, h.outbound]
  exact h.setOutbound _

/-- Content is appended, if there is room. -/
theorem twins_appendContent (h : Twin tr s s') (value : List UInt8) :
    Twins tr (smcpOutboundAppendContent s value) (smcpOutboundAppendContent s' value) := by
  unfold smcpOutboundAppendContent
  rw [h.autoOptions, h.outbound]
  exact ⟨h.setOutbound _, rfl⟩

/-- A text is put there, if there is room. -/
theorem twins_setContentFormatted (h : Twin tr s s') (text : List UInt8) :
    Twins tr (smcpOutboundSetContentFormatted s text) (smcpOutboundSetContentFormatted s' text) := by
  unfold smcpOutboundSetContentFormatted
  rw [h.autoOptions, h.outbound]
  exact ⟨h.setOutbound _, rfl⟩

theorem twins_setVarContentInt (h : Twin tr s s') (v : ℤ) :
    Twins tr (smcpOutboundSetVarContentInt s v) (smcpOutboundSetVarContentInt s' v) :=
  twins_setContentFormatted (twins_addOption h _ _).twin _

/-- There is no transaction to look at. -/
theorem twins_sendHook (h : Twin tr s s') :
    Twins tr (smcpOutboundSendHook s) (smcpOutboundSendHook s') := by
  obtain ⟨heq, hs⟩ := twin_getContentPtr h
  unfold smcpOutboundSendHook
  rw [heq]
  refine .ite Iff.rfl ⟨⟨rfl, hs⟩, rfl⟩ (.ite Iff.rfl ⟨⟨rfl, hs⟩, rfl⟩ (.ite Iff.rfl ?_ ?_))
  · exact ⟨⟨rfl, hs⟩, rfl⟩
  · exact ⟨⟨rfl, hs⟩, rfl⟩

/-- Both send the same datagram. -/
theorem twins_send (h : Twin tr s s') : Twins tr (smcpOutboundSend s) (smcpOutboundSend s') := by
  have hnote {u : Instance} (hu : u.currentTransaction = none) : noteSentCode u = u := by
    simp only [noteSentCode, hu]
  have hs' : s'.currentTransaction = none := by rw [h.eq]; exact h.current
  obtain ⟨⟨heq, hs⟩, hresult⟩ := twins_sendHook h
  unfold smcpOutboundSend
  rw [hnote h.current, hnote hs']
  dsimp only
  rw [hresult]
  split_ifs
  · exact ⟨⟨heq, hs⟩, hresult⟩
  · rw [heq]
    exact ⟨⟨rfl, hs⟩, rfl⟩

/-- Code and body are sent at once. -/
theorem twins_quickResponse (h : Twin tr s s') (code : ℕ) (body : Option (List UInt8)) :
    Twins tr (smcpOutboundQuickResponse s code body) (smcpOutboundQuickResponse s' code body) := by
  have hbegin := (twins_beginResponse h code).twin
  unfold smcpOutboundQuickResponse
  cases body with
  | none => exact twins_send hbegin
  | some body => exact twins_send (twins_appendContent hbegin body).twin

/-- All of the content is written by the application. -/
theorem twin_fillContent (h : Twin tr s s') (value : List UInt8) :
    Twin tr (fillContent s value) (fillContent s' value) := by
  obtain ⟨heq, hs⟩ := twin_getContentPtr h
  unfold fillContent
  rw [heq]
  exact ⟨rfl, hs⟩

/-- Whatever a request handler calls. -/
theorem twins_outboundCall (h : Twin tr s s') (c : OutboundCall) :
    Twins tr (c.exec s) (c.exec s') := by
  -- one case for each call that a handler can make
  cases c with
  | begin code tt => exact twins_begin h code tt
  | beginResponse code => exact twins_beginResponse h code
  | setDestaddr sockaddr => exact ⟨twin_setDestaddr h sockaddr, rfl⟩
  | addOption key value => exact twins_addOption h key value
  | addOptionUint key value => exact twins_addOption h key _
  | appendContent value => exact twins_appendContent h value
  | setContentFormatted text => exact twins_setContentFormatted h text
  | setVarContentInt v => exact twins_setVarContentInt h v
  | send => exact twins_send h
  | quickResponse code body => exact twins_quickResponse h code body
  | writeContent value => exact ⟨twin_fillContent h value, rfl⟩
  | setCode code =>
    obtain ⟨rfl, hs⟩ := h
    exact ⟨.ite Iff.rfl ⟨rfl, hs⟩ ⟨rfl, hs⟩, rfl⟩
  | setToken token =>
    obtain ⟨rfl, hs⟩ := h
    exact .ite Iff.rfl ⟨⟨rfl, hs⟩, rfl⟩ ⟨⟨rfl, hs⟩, rfl⟩
  | setMsgId tid =>
    obtain ⟨rfl, hs⟩ := h
    exact ⟨⟨rfl, hs⟩, rfl⟩
  | setContentLen len =>
    obtain ⟨rfl, hs⟩ := h
    exact ⟨⟨rfl, hs⟩, rfl⟩
  | drop =>
    obtain ⟨rfl, hs⟩ := h
    exact ⟨⟨rfl, hs⟩, rfl⟩
  | reset =>
    obtain ⟨rfl, hs⟩ := h
    exact ⟨⟨rfl, hs⟩, rfl⟩

/-- And all of its calls. -/
theorem twins_responder (h : Twin tr s s') (r : Responder) : Twins tr (r.run s) (r.run s') := by
  induction r generalizing s s' with
  | done ret => exact ⟨h, rfl⟩
  | read next ih =>
    rw [Responder.run, Responder.run, h.inbound]
    exact ih _ h
  | call c next ih =>
    have hc := twins_outboundCall h c
    rw [Responder.run, Responder.run, hc.result]
    exact ih _ hc.twin

/-! ## Processing a request -/

/-- The table of duplicates is the same for both. -/
theorem twins_dupeCheck (h : Twin tr s s') :
    Twins tr (smcpInboundDupeCheck s) (smcpInboundDupeCheck s') := by
  obtain ⟨rfl, hs⟩ := h
  exact .ite Iff.rfl ⟨⟨rfl, hs⟩, rfl⟩ ⟨⟨rfl, hs⟩, rfl⟩

/-- The packet is read in the same way. -/
theorem twin_preparePacket (h : Twin tr s s') : Twin tr (preparePacket s) (preparePacket s') := by
  obtain ⟨⟨heq, hs⟩, hdupe⟩ := twins_dupeCheck h
  have hscan {u u' : Instance} (hu : Twin tr u u') :
      Twin tr { u with inbound := u.inbound.scan.1 } { u' with inbound := u'.inbound.scan.1 } := by
    obtain ⟨rfl, hu⟩ := hu
    exact ⟨rfl, hu⟩
  unfold preparePacket
  refine hscan (.ite ?_ h ?_)
  · rw [h.inbound]
  · rw [heq, hdupe]
    exact ⟨rfl, hs⟩

theorem twin_authInboundInit (h : Twin tr s s') :
    Twin tr (smcpAuthInboundInit s) (smcpAuthInboundInit s') := by
  obtain ⟨rfl, hs⟩ := h
  exact .ite Iff.rfl ⟨rfl, hs⟩ ⟨rfl, hs⟩

/-- The host is found in the same way. -/
theorem twins_vhostRoute (h : Twin tr s s') (func : Option ℕ) :
    Twins tr (smcpVhostRoute s func) (smcpVhostRoute s' func) := by
  obtain ⟨rfl, hs⟩ := h
  unfold smcpVhostRoute
  refine .ite Iff.rfl ⟨⟨rfl, hs⟩, rfl⟩ (.ite Iff.rfl ⟨⟨rfl, hs⟩, rfl⟩ ?_)
  dsimp only [Instance.withTransactions]
  split <;> exact ⟨⟨rfl, hs⟩, rfl⟩

/-- The handler is called for both. -/
theorem twins_handleRequest (h : Twin tr s s') (r : Responder) :
    Twins tr (smcpHandleRequest r.hooks s) (smcpHandleRequest r.hooks s') := by
  have hhandler : s'.requestHandler = s.requestHandler := by rw [h.eq]; rfl
  obtain ⟨⟨heq, hs⟩, hroute⟩ := twins_vhostRoute (twin_authInboundInit h) s.requestHandler
  have hreset {u u' : Instance} (hu : Twin tr u u') :
      Twin tr { u with inbound := u.inbound.resetNextOption }
        { u' with inbound := u'.inbound.resetNextOption } := by
    obtain ⟨rfl, hu⟩ := hu
    exact ⟨rfl, hu⟩
  unfold smcpHandleRequest
  rw [hhandler]
  dsimp only
  rw [hroute, heq]
  split
  · exact ⟨⟨rfl, hs⟩, rfl⟩
  · exact twins_responder (hreset ⟨rfl, hs⟩) r

theorem twin_reset (h : Twin tr s s') : Twin tr (smcpOutboundReset s) (smcpOutboundReset s') := by
  obtain ⟨rfl, hs⟩ := h
  exact ⟨rfl, hs⟩

/-- The automatic reply is the same, too. -/
theorem twins_replyToRequest (h : Twin tr s s') (code : ℕ) (ret : ℤ) :
    Twins tr (replyToRequest code s ret) (replyToRequest code s' ret) := by
  unfold replyToRequest
  rw [h.inbound]
  have hbegin (code : ℕ) := (twins_beginResponse (twin_reset h) code).twin
  exact twins_send (.ite Iff.rfl (twins_setVarContentInt (hbegin _) _).twin (hbegin _))

/-- It is sent to both or to none. -/
theorem twins_automaticReply (h : Twin tr s s') {packet : ℕ → UInt8}
    (hcode : coapCodeIsRequest (headerCode packet) = true) (ret : ℤ) :
    Twins tr (automaticReply packet s ret) (automaticReply packet s' ret) := by
  have hdid : s'.didRespond = s.didRespond := by rw [h.eq]; rfl
  unfold automaticReply
  rw [hdid, if_pos hcode, if_pos hcode]
  exact .ite Iff.rfl (twins_replyToRequest h _ ret) ⟨h, rfl⟩

theorem twin_finishPacketBail (h : Twin tr s s') :
    Twin tr (finishPacketBail s) (finishPacketBail s') := by
  obtain ⟨rfl, hs⟩ := h
  exact ⟨rfl, hs⟩

/-- A request, from its handler to the reply. -/
theorem twins_finishPacket (h : Twin tr s s') (r : Responder)
    (hcode : coapCodeIsRequest (headerCode s.inbound.bytes) = true) :
    Twins tr (smcpInboundFinishPacket r.hooks s) (smcpInboundFinishPacket r.hooks s') := by
  have hprocessing : s'.isProcessingMessage = s.isProcessingMessage := by rw [h.eq]; rfl
  have hprep := twin_preparePacket h
  have hcode' := hcode
  rw [← preparePacket_bytes] at hcode'
  have hdispatch : Twins tr (dispatchPacket r.hooks (preparePacket s))
      (dispatchPacket r.hooks (preparePacket s')) := by
    unfold dispatchPacket
    rw [hprep.inbound, if_pos hcode', if_pos hcode']
    exact twins_handleRequest hprep r
  have hreply := twins_automaticReply hdispatch.twin hcode'
    (dispatchPacket r.hooks (preparePacket s)).2
  unfold smcpInboundFinishPacket
  rw [hprocessing, h.inbound]
  refine .ite Iff.rfl ⟨twin_finishPacketBail h, rfl⟩
    (.ite Iff.rfl ⟨twin_finishPacketBail h, rfl⟩ ?_)
  dsimp only
  rw [hdispatch.result, hprep.inbound]
  exact ⟨twin_finishPacketBail hreply.twin, hreply.result⟩

end

/-! ## What a request does to the transactions -/

/-- Processing leaves the transactions alone: what the client relies on is unchanged, and the
messages that are sent do not depend on it. -/
structure LeavesTransactions (s : Instance) (f : Instance → Instance) : Prop where
  saddr : ∀ h, ((f s).transaction h).saddr = (s.transaction h).saddr
  multicast : ∀ h, ((f s).transaction h).multicast = (s.transaction h).multicast
  sentCode : ∀ h, ((f s).transaction h).sentCode = (s.transaction h).sentCode
  nextBlock2 : ∀ h, ((f s).transaction h).nextBlock2 = (s.transaction h).nextBlock2
  sent : ∀ tr, (f (s.withTransactions tr)).sent = (f s).sent

/-- Transactions that stay, and make no difference, are left alone. -/
theorem LeavesTransactions.of_eq {s : Instance} {f : Instance → Instance}
    (htransaction : (f s).transaction = s.transaction)
    (hsent : ∀ tr, (f (s.withTransactions tr)).sent = (f s).sent) : LeavesTransactions s f := by
  refine ⟨?_, ?_, ?_, ?_, hsent⟩ <;> simp [htransaction]

section
variable {buffer : ℕ → UInt8} {n : ℕ} {source : SockAddr} {dest : Option SockAddr} {s : Instance}

/-- Without a current transaction. -/
theorem leavesTransactions_of_none (hv : coapVerifyPacket buffer n = true)
    (hcode : coapCodeIsRequest (headerCode buffer) = true) (hs : s.currentTransaction = none)
    (r : Responder) :
    LeavesTransactions s fun s => (processPacket r.hooks s buffer n source dest).1 := by
  have htwin (tr : TransactionPtr → Transaction) :
      Twins tr (processPacket r.hooks s buffer n source dest)
        (processPacket r.hooks (s.withTransactions tr) buffer n source dest) := by
    rw [processPacket_eq r.hooks hv, processPacket_eq r.hooks hv]
    have harrived : Twin tr (s.arrived buffer n source dest)
        ((s.withTransactions tr).arrived buffer n source dest) := ⟨rfl, hs⟩
    refine twins_finishPacket harrived r ?_
    rw [headerCode, arrived_header hv s source dest 1 (by decide)]
    exact hcode
  refine .of_eq ?_ fun tr => ?_
  · have heq := (htwin s.transaction).twin.eq
    rw [show s.withTransactions s.transaction = s from rfl] at heq
    rw [heq]
    rfl
  · rw [(htwin tr).twin.eq]
    rfl

/-- A request that is dropped. -/
theorem leavesTransactions_of_dropped (hv : coapVerifyPacket buffer n = true)
    (hmulticast : dest.any (fun dest => smcpIsAddrMulticast dest.addr) = true)
    (htt : headerTt buffer = coapTransTypeConfirmable) (hooks : Hooks) :
    LeavesTransactions s fun s => (processPacket hooks s buffer n source dest).1 := by
  have heq (u : Instance) : processPacket hooks u buffer n source dest =
      (finishPacketBail (u.arrived buffer n source dest), smcpStatusFailure) := by
    rw [processPacket_eq hooks hv, smcpInboundFinishPacket, if_neg (by simp [Instance.arrived]),
      if_pos]
    refine ⟨hmulticast, ?_⟩
    rw [headerTt, arrived_header hv u source dest 0 (by decide)]
    exact htt
  refine .of_eq ?_ fun tr => ?_
  · rw [heq]
    rfl
  · rw [heq, heq]
    rfl

/-- Answer with the given code, and nothing else. -/
def answer (code : ℕ) : Responder :=
  .call .reset fun _ => .call (.beginResponse code) fun _ => .call .send fun _ =>
    .call .drop fun _ => .done smcpStatusOk

/-- The current transaction takes the code of the answer for its own. -/
theorem answer_sentCode {h : TransactionPtr} (hs : s.currentTransaction = some h) (code : ℕ) :
    (((answer code).run s).1.transaction h).sentCode = code % 256 ∧
      ((answer code).run s).1.didRespond = true := by
  obtain ⟨hcode, hcurrent⟩ := beginResponse_code (s := smcpOutboundReset s) code rfl rfl
  set s1 := (smcpOutboundBeginResponse (smcpOutboundReset s) code).1 with hs1
  have hh : s1.currentTransaction = some h := hcurrent.trans hs
  refine ⟨?_, rfl⟩
  change ((smcpOutboundSend s1).1.transaction h).sentCode = code % 256
  rw [send_transaction, noteSentCode, hh]
  simp [Instance.setTransaction, hcode]

/-- A request that is not dropped reaches the handler, with the current transaction still there. -/
theorem processPacket_answer (source : SockAddr) (hv : coapVerifyPacket buffer n = true)
    (hcode : coapCodeIsRequest (headerCode buffer) = true) (hhandler : s.requestHandler.isSome)
    (hkept : ¬(dest.any (fun dest => smcpIsAddrMulticast dest.addr) = true ∧
      headerTt buffer = coapTransTypeConfirmable)) {h : TransactionPtr}
    (hs : s.currentTransaction = some h) (code : ℕ) :
    ((processPacket (answer code).hooks s buffer n source dest).1.transaction h).sentCode =
      code % 256 := by
  have hheader (j : ℕ) (hj : j < 4) := arrived_header hv s source dest j hj
  obtain ⟨i, d, l, hprep⟩ := preparePacket_eq (s.arrived buffer n source dest)
  obtain ⟨i', k, -, hhandle⟩ := handleRequest_eq (answer code).hooks
    (s := preparePacket (s.arrived buffer n source dest)) (by rw [hprep]; exact hhandler)
  rw [processPacket_eq _ hv, finishPacket_request _ rfl, hhandle, hprep]
  · set u : Instance := { s.arrived buffer n source dest with
      inbound := i', dupeInfo := d, checks := l } with hu
    obtain ⟨hsent, hdid⟩ := answer_sentCode (s := u) hs code
    change ((finishPacketBail (automaticReply _ ((answer code).run u).1 _).1).transaction h).sentCode
      = code % 256
    rw [automaticReply, if_neg (by simp [hdid])]
    exact hsent
  · rw [headerTt, hheader 0 (by decide)]
    exact hkept
  · rw [headerCode, hheader 1 (by decide)]
    exact hcode

/-- A request leaves the transactions alone, whatever the handler responds, exactly when no
transaction is current, or when the request is dropped because it is confirmable and was sent to a
multicast address. -/
theorem request_leavesTransactions_iff (hv : coapVerifyPacket buffer n = true)
    (hcode : coapCodeIsRequest (headerCode buffer) = true) (hhandler : s.requestHandler.isSome) :
    (∀ r : Responder,
      LeavesTransactions s fun s => (processPacket r.hooks s buffer n source dest).1) ↔
    s.currentTransaction = none ∨
      (dest.any (fun dest => smcpIsAddrMulticast dest.addr) = true ∧
        headerTt buffer = coapTransTypeConfirmable) := by
  constructor
  · intro hall
    by_contra hnot
    obtain ⟨hcurrent, hkept⟩ := not_or.1 hnot
    obtain ⟨h, hs⟩ := Option.ne_none_iff_exists'.1 hcurrent
    -- a code that the transaction has not sent
    obtain ⟨code, hlt, hne⟩ : ∃ code < 256, code ≠ (s.transaction h).sentCode := by
      by_cases h0 : (s.transaction h).sentCode = 0
      · exact ⟨1, by decide, by omega⟩
      · exact ⟨0, by decide, fun heq => h0 heq.symm⟩
    have hsent := processPacket_answer source hv hcode hhandler hkept hs code
    rw [(hall (answer code)).sentCode h, Nat.mod_eq_of_lt hlt] at hsent
    exact hne hsent.symm
  · rintro (hs | ⟨hmulticast, htt⟩) r
    · exact leavesTransactions_of_none hv hcode hs r
    · exact leavesTransactions_of_dropped hv hmulticast htt _

end

/-- A GET without options. -/
def plainGet : ℕ → UInt8 := ofList [0x40, 0x01, 0x12, 0x34] fun _ => 0

/-- A client that has begun a transaction, and serves requests. -/
def servingClient : Instance := idleRun (fun _ => 5) (launch 0 ++ [.setDefaultRequestHandler (some 0)])

/-- A GET that is answered. -/
theorem request_leavesTransactions_servingClient :
    LeavesTransactions servingClient fun s =>
      (processPacket (answer (httpToCoapCode 205)).hooks s plainGet 4 localPeer none).1 :=
  (request_leavesTransactions_iff (by decide) (by decide) (by decide)).2 (Or.inl (by decide)) _

/-- A client whose request was acknowledged, and who serves requests: its transaction is still the
current one. -/
def acknowledgedClient : Instance :=
  execAll Op.exec idleHooks [.setDefaultRequestHandler (some 0)] (clientRun [0x60, 0x00, 0x6E, 0xD2])

/-- The client is reached from a new instance. -/
theorem reachable_acknowledgedClient : Reachable acknowledgedClient := by
  obtain ⟨now, random, sendResult, hreaches⟩ := reachable_clientRun [0x60, 0x00, 0x6E, 0xD2]
  exact ⟨now, random, sendResult, hreaches.execAll (fun _ u => .refl u) _⟩

/-- A peer at `[::2]:61616`. -/
def otherPeer : SockAddr := peerAt 2 61616

/-- The request of another peer makes that peer the one the transaction waits for. -/
theorem request_not_leavesTransactions :
    ¬∀ s, Reachable s → ∀ buffer n source dest (r : Responder),
      coapVerifyPacket buffer n = true → coapCodeIsRequest (headerCode buffer) = true →
      s.requestHandler.isSome →
      LeavesTransactions s fun s => (processPacket r.hooks s buffer n source dest).1 := by
  intro hall
  have hleaves := hall _ reachable_acknowledgedClient plainGet 4 otherPeer none
    (answer (httpToCoapCode 205)) (by decide) (by decide) (by decide +kernel)
  have hsaddr := hleaves.saddr (.user 0)
  revert hsaddr
  decide +kernel

end Smcp
