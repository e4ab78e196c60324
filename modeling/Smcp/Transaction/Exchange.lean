import Smcp.Inbound.Network
import Smcp.Transaction.Passive

/-!
# A request and its response

A client that waits for the response to a request, and a server that computes its responses from the
method and the content of the request.

* `hears_preparePacket`: a message arrives as it was sent;
* `functionHooks_sent`: what the server sends;
* `processPacket_delivers`: what the client's callback gets;
* `processPacket_ignores`: what becomes of a second copy.
-/

namespace Smcp

open ByteMemory OptionFormat

/-! ## Reading a message that arrived -/

/-- The same message, with other addresses and another verdict of the duplicate check. -/
def Inbound.readdress (i : Inbound) (saddr : SockAddr) (multicast isDupe : Bool) : Inbound :=
  { i with saddr := saddr, wasSentToMulticast := multicast, isDupe := isDupe }

/-- The content of the message. -/
def Inbound.content (i : Inbound) : List UInt8 := readBytes i.bytes i.contentPtr i.contentLen

section
variable {i : Inbound} {saddr : SockAddr} {multicast isDupe : Bool}

theorem nextOption_readdress : (i.readdress saddr multicast isDupe).nextOption =
    { i.nextOption with inbound := i.nextOption.inbound.readdress saddr multicast isDupe } := by
  have hthis : (i.readdress saddr multicast isDupe).thisOption = i.thisOption := rfl
  have hlen : (i.readdress saddr multicast isDupe).packetLen = i.packetLen := rfl
  have hbytes : (i.readdress saddr multicast isDupe).bytes = i.bytes := rfl
  have hlast : (i.readdress saddr multicast isDupe).lastOptionKey = i.lastOptionKey := rfl
  unfold Inbound.nextOption
  rw [hthis, hlen, hbytes, hlast]
  cases i.thisOption with
  | none => rfl
  | some p =>
    dsimp only
    by_cases hinside : p < i.packetLen ∧ i.bytes p ≠ 0xFF
    · rw [if_pos hinside, if_pos hinside]
      cases coapDecodeOption i.bytes p i.lastOptionKey with
      | none => rfl
      | some d => rfl
    · rw [if_neg hinside, if_neg hinside]
      rfl

theorem noteOption_readdress (key value len : ℕ) :
    (i.readdress saddr multicast isDupe).noteOption key value len =
      (i.noteOption key value len).readdress saddr multicast isDupe := by
  have hbytes : (i.readdress saddr multicast isDupe).bytes = i.bytes := rfl
  unfold Inbound.noteOption
  rw [hbytes]
  generalize coapDecodeUint32 i.bytes value len = number
  generalize number % 65536 = contentType
  dsimp only
  generalize int32 (int32 number + 1) = maxAge
  split_ifs <;> rfl

theorem scanOptions_readdress (fuel : ℕ) : (i.readdress saddr multicast isDupe).scanOptions fuel =
    ((i.scanOptions fuel).1.readdress saddr multicast isDupe, (i.scanOptions fuel).2) := by
  induction fuel generalizing i with
  | zero => rfl
  | succ fuel ih =>
    rw [Inbound.scanOptions, Inbound.scanOptions]
    dsimp only
    rw [nextOption_readdress]
    dsimp only
    split_ifs
    · rfl
    · rw [noteOption_readdress, ih]
      rfl

/-- Who sent the message, and to whom, does not matter for what it says. -/
theorem scan_readdress : (i.readdress saddr multicast isDupe).scan =
    (i.scan.1.readdress saddr multicast isDupe, i.scan.2) := by
  have hlocate (j : Inbound) : (j.readdress saddr multicast isDupe).locateContent =
      j.locateContent.readdress saddr multicast isDupe := by
    unfold Inbound.locateContent Inbound.readdress
    dsimp only
    split_ifs <;> rfl
  unfold Inbound.scan
  dsimp only
  have hreset : (i.readdress saddr multicast isDupe).resetNextOption =
      i.resetNextOption.readdress saddr multicast isDupe := rfl
  rw [hreset, scanOptions_readdress]
  dsimp only
  rw [hlocate]
  rfl

end

/-- The message `m` is in `inbound`, and was parsed. -/
structure Hears (i : Inbound) (m : Message) : Prop where
  tt : headerTt i.bytes = m.header.tt
  code : headerCode i.bytes = m.header.code
  msgId : headerMsgId i.bytes = m.header.msgId
  tokenLen : headerTokenLen i.bytes = m.token.length
  token : readBytes i.bytes 4 m.token.length = m.token
  content : i.content = m.content

section
variable {m : Message} {rest : ℕ → UInt8}

/-- The scan, behind the duplicate check. -/
theorem preparePacket_scan {a : Instance} (hfake : a.inbound.isFake = false) :
    (preparePacket a).inbound =
      ({ a.inbound with isDupe := (smcpInboundDupeCheck a).2 } : Inbound).scan.1 := by
  unfold preparePacket
  dsimp only
  rw [if_neg (by rw [hfake]; exact Bool.false_ne_true)]
  dsimp only
  rw [dupeCheck_inbound]

/-- What the scan makes of a message that arrived. -/
theorem preparePacket_inbound (s : Instance) (source : SockAddr) (dest : Option SockAddr)
    (hv : coapVerifyPacket (ofList m.wire rest) m.wire.length = true) :
    ∃ multicast isDupe,
      (preparePacket (s.arrived (ofList m.wire rest) m.wire.length source dest)).inbound =
        (smcpInboundStartPacket s (ofList m.wire rest)
          m.wire.length).1.inbound.scan.1.readdress source multicast isDupe := by
  have hstart := startPacket_inbound s hv
  set a := s.arrived (ofList m.wire rest) m.wire.length source dest with ha
  have hinbound : a.inbound =
      (smcpInboundStartPacket s (ofList m.wire rest) m.wire.length).1.inbound.readdress source
        (dest.any fun dest => smcpIsAddrMulticast dest.addr) false := by
    rw [hstart]
    rfl
  have hfake : a.inbound.isFake = false := rfl
  clear_value a
  rw [preparePacket_scan hfake, hinbound]
  generalize (smcpInboundStartPacket s (ofList m.wire rest) m.wire.length).1.inbound = i
  generalize (smcpInboundDupeCheck a).2 = isDupe
  have hsame (multicast : Bool) :
      ({ i.readdress source multicast false with isDupe := isDupe } : Inbound) =
        i.readdress source multicast isDupe := rfl
  rw [hsame, scan_readdress]
  exact ⟨_, _, rfl⟩

/-- A valid message arrives as it was sent. -/
theorem hears_preparePacket (hvalid : m.Valid) (hkeys : ∀ o ∈ m.options, o.1 ≠ coapOptionInvalid)
    (s : Instance) (source : SockAddr) (dest : Option SockAddr) (rest : ℕ → UInt8) :
    Hears (preparePacket (s.arrived (ofList m.wire rest) m.wire.length source dest)).inbound m := by
  have hparsed := hvalid.parsed hkeys s rest
  obtain ⟨multicast, isDupe, hinbound⟩ := preparePacket_inbound s source dest (hvalid.verified rest)
  rw [hinbound]
  dsimp only at hparsed
  generalize (smcpInboundStartPacket s (ofList m.wire rest) m.wire.length).1.inbound.scan = r at hparsed
  obtain ⟨hbytes, -, hcontent⟩ := hparsed
  obtain ⟨-, htt, htl, hcode, hmsgId, htok⟩ := hvalid.header_read hbytes
  exact ⟨htt, hcode, hmsgId, htl, htok, hcontent⟩

end

/-! ## The server -/

/-- A server whose responses are computed from the method and the content of the request: a code and
a body for `smcp_outbound_quick_response`. -/
def functionHooks (f : ℕ → List UInt8 → ℕ × List UInt8) : Hooks
  | .request _, s =>
    let response := f (headerCode s.inbound.bytes) s.inbound.content
    smcpOutboundQuickResponse s response.1 (some response.2)
  | _, s => (s, smcpStatusOk)

/-- The responses have response codes, and their bodies are C strings that fit into a packet. -/
def Sendable (f : ℕ → List UInt8 → ℕ × List UInt8) : Prop :=
  ∀ code content, coapResult100 ≤ (f code content).1 ∧ (f code content).1 < 256 ∧
    (f code content).2.length < 1019 ∧ 0 ∉ (f code content).2

/-- The response to the request `m` from `client`. -/
def responseTo (m : Message) (client : SockAddr) (response : ℕ × List UInt8) : Message where
  header :=
    { version := coapVersion
      tt := coapTransTypeAck
      tokenLen := m.token.length
      code := response.1
      msgId := m.header.msgId }
  token := m.token
  dest := client
  options := []
  content := response.2

/-- A server that is ready for the next request. -/
structure Serves (s : Instance) : Prop where
  handler : s.requestHandler.isSome
  current : s.currentTransaction = none
  idle : s.isResponding = false
  takes : ∀ k, 0 < s.sendResult k

/-- A confirmable request that fits into a packet. -/
structure Message.Requests (m : Message) : Prop where
  valid : m.Valid
  keys : ∀ o ∈ m.options, o.1 ≠ coapOptionInvalid
  tt : m.header.tt = coapTransTypeConfirmable
  code : coapCodeIsRequest m.header.code = true
  size : m.wire.length ≤ smcpMaxPacketLength

section
variable {s : Instance} {m : Message} {source : SockAddr} {dest : Option SockAddr}

theorem Replies.appendContent (h : Replies s m) (hcontent : m.content = []) {l : List UInt8}
    (hspace : l.length < s.outbound.spaceRemaining) :
    Replies (smcpOutboundAppendContent s l).1 { m with content := l } := by
  have hlt : l.length < 65536 := by
    have hle := spaceRemaining_le s.outbound
    have hmax : s.outbound.maxPacketLen = smcpMaxPacketLength := h.composes.composed.max_eq
    rw [hmax, smcpMaxPacketLength] at hle
    omega
  have hok : (smcpOutboundAppendContent { s with currentTransaction := none } l).2 = smcpStatusOk := by
    unfold smcpOutboundAppendContent outboundAppendContent
    dsimp only
    rw [word16_of_lt hlt, if_pos hspace]
  have happend := h.composes.appendContent ⟨l, hlt⟩ hok
  rw [hcontent, List.nil_append] at happend
  have hauto : ({ s with currentTransaction := none } : Instance).autoOptions = s.autoOptions := by
    rw [h.auto, h.composes.autoOptions_eq]
  refine ⟨happend.congr ?_ rfl, h.auto, h.family, h.takes⟩
  unfold smcpOutboundAppendContent
  dsimp only
  rw [hauto]

/-- What `smcp_outbound_quick_response` sends. -/
theorem quickResponse_sent (hpacket : s.inbound.packet.isSome)
    (hprocessing : s.isProcessingMessage = true) (hdid : s.didRespond = false)
    (hresponding : s.isResponding = false) {code : ℕ} (hcode : coapResult100 ≤ code) (hlt : code < 256)
    (htoken : headerTokenLen s.inbound.bytes ≤ 8) (hauto : s.autoOptions = {})
    (hfamily : s.inbound.saddr.family ≠ 0) (htakes : ∀ n, 0 < s.sendResult n) {body : List UInt8}
    (hbody : body.length < 1019) :
    (smcpOutboundQuickResponse s code (some body)).1.sent =
        s.sent ++ [⟨s.inbound.saddr, { replyMessage s.inbound code with content := body }.wire⟩] ∧
      (smcpOutboundQuickResponse s code (some body)).1.didRespond = true := by
  obtain ⟨-, hreplies⟩ := replies_beginResponse code hpacket hprocessing hdid hresponding
    (.inr hcode) hlt hauto hfamily htakes
  have hsame := sameSetup_beginResponse s code
  -- the begin composes the header, and what has been composed is sent with the body
  obtain ⟨tr, o, force, hbegun⟩ := beginResponse_eq hprocessing hdid hresponding code
  have hactive : (smcpOutboundBeginResponse s code).1.isResponding = true := by rw [hbegun]
  have htoken' : (replyMessage s.inbound code).token.length ≤ 8 := by
    show (replyToken s.inbound code).length ≤ 8
    unfold replyToken
    split_ifs
    · exact Nat.zero_le 8
    · rw [length_readBytes]
      exact htoken
  unfold smcpOutboundQuickResponse
  dsimp only
  generalize (smcpOutboundBeginResponse s code).1 = u at hreplies hsame hactive ⊢
  -- the body fits behind the header and the token
  have hroom := hreplies.spaceRemaining_ge rfl rfl htoken'
  obtain ⟨hok, hsent⟩ := (hreplies.appendContent rfl (hbody.trans_le hroom)).send
  constructor
  · rw [hsent]
    show u.sent ++ _ = _
    rw [hsame.sent]
    rfl
  · obtain ⟨tr', sent, did, responding, heq, hdone⟩ := send_eq (smcpOutboundAppendContent u body).1
    rcases hdone with ⟨-, hdid'⟩ | ⟨hfails, -⟩
    · rw [heq, hdid']
      show (u.didRespond || u.isResponding) = true
      rw [hactive, Bool.or_true]
    · exact absurd hok hfails

/-- What `smcp_outbound_quick_response` leaves alone. -/
theorem quickResponse_eq (hprocessing : s.isProcessingMessage = true) (hdid : s.didRespond = false)
    (hresponding : s.isResponding = false) (code : ℕ) (body : List UInt8) :
    ∃ tr o force sent did responding, (smcpOutboundQuickResponse s code (some body)).1 =
      { s with
        transaction := tr
        outbound := o
        forceCurrentOutboundCode := force
        sent := sent
        didRespond := did
        isResponding := responding } := by
  obtain ⟨tr, o, force, hbegun⟩ := beginResponse_eq hprocessing hdid hresponding code
  unfold smcpOutboundQuickResponse
  dsimp only
  rw [hbegun]
  obtain ⟨tr', sent, did, responding, hsend, -⟩ := send_eq (smcpOutboundAppendContent
    { s with
      transaction := tr
      outbound := o
      forceCurrentOutboundCode := force
      isResponding := true } body).1
  rw [hsend]
  exact ⟨_, _, _, _, _, _, rfl⟩

/-- The response that the server sends is the one to the request. -/
theorem replyMessage_eq {i : Inbound} (h : Hears i m) (hsaddr : i.saddr = source)
    (htt : m.header.tt = coapTransTypeConfirmable) {response : ℕ × List UInt8}
    (hcode : coapResult100 ≤ response.1) :
    { replyMessage i response.1 with content := response.2 } = responseTo m source response := by
  have hne : response.1 ≠ 0 := by
    unfold coapResult100 httpToCoapCode at hcode
    omega
  have htoken : replyToken i response.1 = m.token := by
    unfold replyToken
    rw [if_neg hne, h.tokenLen, h.token]
  unfold replyMessage responseTo
  rw [htoken, h.tt, htt, h.msgId, hsaddr]
  rfl

/-- The server answers a request with the response that is computed from it. -/
theorem functionHooks_sent {f : ℕ → List UInt8 → ℕ × List UInt8} (hf : Sendable f)
    (hrequest : m.Requests) (hserves : Serves s) (hfamily : source.family ≠ 0)
    (hunicast : dest.any (fun dest => smcpIsAddrMulticast dest.addr) = false) (rest : ℕ → UInt8) :
    let s' := (processPacket (functionHooks f) s (ofList m.wire rest) m.wire.length source dest).1
    s'.sent = s.sent ++ [⟨source, (responseTo m source (f m.header.code m.content)).wire⟩] ∧
      s'.requestHandler = s.requestHandler ∧ s'.currentTransaction = s.currentTransaction ∧
      s'.sendResult = s.sendResult := by
  have hv := hrequest.valid.verified rest
  have hhears := hears_preparePacket hrequest.valid hrequest.keys s source dest rest
  rw [processPacket_eq _ hv]
  set a := s.arrived (ofList m.wire rest) m.wire.length source dest with ha
  have hfresh : Fresh a.inbound (preparePacket a) :=
    fresh_preparePacket hfamily hserves.idle hserves.takes
  have hbytes := preparePacket_bytes a
  obtain ⟨i, d, l, hprepared⟩ := preparePacket_eq a
  have hkept : ¬(a.inbound.wasSentToMulticast = true ∧
      headerTt a.inbound.bytes = coapTransTypeConfirmable) := by
    intro hdropped
    exact Bool.false_ne_true (hunicast.symm.trans hdropped.1)
  rw [finishPacket_request _ rfl hkept (by rw [← hbytes, hhears.code]; exact hrequest.code)]
  rw [hprepared] at hhears hfresh ⊢
  set p : Instance := { a with inbound := i, dupeInfo := d, checks := l } with hp
  obtain ⟨i', k, ⟨key, option, rfl⟩, hhandled⟩ :=
    handleRequest_eq (s := p) (functionHooks f) hserves.handler
  dsimp only
  rw [hhandled]
  -- the handler composes the response from the message as it arrived
  set u : Instance := { p with
    inbound := { p.inbound with lastOptionKey := key, thisOption := option } } with hu
  have hread : Hears u.inbound m :=
    ⟨hhears.tt, hhears.code, hhears.msgId, hhears.tokenLen, hhears.token, hhears.content⟩
  obtain ⟨hge, hlt, hbody, -⟩ := hf m.header.code m.content
  have hpacket : u.inbound.packet.isSome := by
    show i.packet.isSome
    rw [hfresh.packet]
    exact hfresh.isSome
  have hfrom : u.inbound.saddr = source := hfresh.saddr
  have htoken : headerTokenLen u.inbound.bytes ≤ 8 := by
    rw [hread.tokenLen]
    exact hrequest.valid.token_le
  have hauto : u.autoOptions = {} := by
    unfold Instance.autoOptions
    have hcurrent : u.currentTransaction = none := hserves.current
    rw [hcurrent]
  have hcall : functionHooks f (.request k) u =
      smcpOutboundQuickResponse u (f m.header.code m.content).1 (some (f m.header.code m.content).2) := by
    show smcpOutboundQuickResponse u (f (headerCode u.inbound.bytes) u.inbound.content).1
      (some (f (headerCode u.inbound.bytes) u.inbound.content).2) = _
    rw [hread.code, hread.content]
  obtain ⟨hsent, hdone⟩ := quickResponse_sent (s := u) hpacket rfl rfl hserves.idle hge hlt htoken
    hauto (by rw [hfrom]; exact hfamily) hserves.takes hbody
  rw [hfrom, replyMessage_eq hread hfrom hrequest.tt hge] at hsent
  rw [hcall, automaticReply_none fun hno => Bool.false_ne_true (hno.1.symm.trans hdone)]
  obtain ⟨tr, o, force, sent, did, responding, heq⟩ := quickResponse_eq (s := u) rfl rfl
    hserves.idle (f m.header.code m.content).1 (f m.header.code m.content).2
  rw [heq] at hsent ⊢
  exact ⟨hsent, rfl, rfl, rfl⟩

end

/-! ## The client -/

/-- What a call of the callback of `h` hands over: the code and the content of the response. -/
def Event.delivery (h : TransactionPtr) : Event → Option (ℕ × List UInt8)
  | .responded h' i _ _ => if h' = h then some (headerCode i.bytes, i.content) else none
  | _ => none

/-- What the callback of `h` has got so far, newest first. -/
def Instance.deliveries (s : Instance) (h : TransactionPtr) : List (ℕ × List UInt8) :=
  s.events.filterMap (Event.delivery h)

section
variable {hooks : Hooks} {u : Instance} {h : TransactionPtr}

theorem delivery_deletedEvents (h : TransactionPtr) (t : Transaction) (h' : TransactionPtr) :
    (deletedEvents h t).filterMap (Event.delivery h') = [] := by
  unfold deletedEvents
  split_ifs
  · rfl
  · rfl

theorem setTransaction_self (s : Instance) (h : TransactionPtr) (f : Transaction → Transaction) :
    (s.setTransaction h f).transaction h = f (s.transaction h) :=
  Function.update_self _ _ _

theorem setTransaction_twice (s : Instance) (h : TransactionPtr) (f g : Transaction → Transaction) :
    (s.setTransaction h f).setTransaction h g = s.setTransaction h fun t => g (f t) := by
  unfold Instance.setTransaction
  dsimp only
  rw [Function.update_idem, Function.update_self]

/-- A transaction that is called once ends after its callback, whatever that returns. -/
theorem respondFinish_once (hooks : Hooks) (honce : calledOnce (u.transaction h).flags = true) (ret : ℤ) :
    (respondFinish hooks u h ret).1 =
      smcpTransactionEnd hooks (u.setTransaction h fun t => { t with resendCallback := none }) h := by
  unfold calledOnce at honce
  rw [Bool.and_eq_true, Bool.and_eq_true, decide_eq_true_eq, decide_eq_true_eq, decide_eq_true_eq]
    at honce
  obtain ⟨⟨halways, hobserve⟩, hauto⟩ := honce
  have hflags : ((u.setTransaction h fun t => { t with resendCallback := none }).transaction h).flags =
      (u.transaction h).flags := by
    rw [setTransaction_self]
  unfold respondFinish
  dsimp only
  rw [if_neg fun hc => Bool.false_ne_true (halways.symm.trans hc.2.2)]
  rw [if_neg fun hc => Bool.false_ne_true (hobserve.symm.trans hc.2)]
  dsimp only
  rw [hflags, if_neg fun hc => Bool.false_ne_true (hauto.symm.trans hc)]

/-- What is known about a transaction after its callback was called. -/
def Transaction.answered (t : Transaction) : Transaction :=
  { t with callback := none, attemptCount := 0, waitingForAsyncResponse := false }

/-- Behind a callback that leaves the transaction alone. -/
theorem respondOnce_finish {callback : ResponseFunc} {r : Instance × ℤ} {d : Instance}
    (hd : disarmCallback ((u.logResponded h).log (.called h u.inbound.responseStatus)) h = d)
    (hr : callResponse hooks d callback d.inbound.responseStatus = r)
    (hcurrent : r.1.currentTransaction = some h)
    (hkept : r.1.store.active h = true ∧ u.store.msgId h = r.1.store.msgId h) :
    respondOnce hooks u h callback = respondFinish hooks
      ((r.1.log (.answered h false)).setTransaction h fun t =>
        { t with attemptCount := 0, waitingForAsyncResponse := false }) h r.2 := by
  unfold respondOnce
  dsimp only
  rw [hd, hr, if_neg (not_not.2 hcurrent)]
  exact if_pos hkept

/-- The callback of a transaction that is called once gets the message, and the transaction ends. -/
theorem respondOnce_passive (hpassive : hooks.Passive) (hok : StoreOk u.store)
    (hactive : u.store.active h = true) (hcurrent : u.currentTransaction = some h)
    (honce : calledOnce (u.transaction h).flags = true) (callback : ℕ) :
    ∃ t l te es, (respondOnce hooks u h (.user callback)).1 =
        { u with
          transaction := Function.update u.transaction h t
          store := u.store.finish h
          timers := l
          timerEvents := te
          currentTransaction := none
          events := es ++ .responded h u.inbound u.store (u.transaction h) :: u.events } ∧
      ∀ h', es.filterMap (Event.delivery h') = [] := by
  -- the state in which the callback is called, with its two events
  set v := (u.logResponded h).log (.called h u.inbound.responseStatus) with hv
  have hdisarmed : disarmCallback v h = v.setTransaction h fun t => { t with callback := none } := by
    unfold calledOnce at honce
    rw [Bool.and_eq_true, Bool.and_eq_true, decide_eq_true_eq, decide_eq_true_eq] at honce
    exact if_pos honce.1
  -- the callback does nothing to the state, so the answer is noted on what was there
  set a := v.log (.answered h false) with ha
  have hended : (respondOnce hooks u h (.user callback)).1 = smcpTransactionEnd hooks
      (a.setTransaction h fun t => { t.answered with resendCallback := none }) h := by
    have hflags : calledOnce ((a.setTransaction h Transaction.answered).transaction h).flags = true := by
      rw [setTransaction_self]
      exact honce
    have hfinish (ret : ℤ) := respondFinish_once hooks hflags ret
    set d := v.setTransaction h fun t => { t with callback := none } with hd
    have hsame : a.setTransaction h Transaction.answered =
        (d.log (.answered h false)).setTransaction h fun t =>
          { t with attemptCount := 0, waitingForAsyncResponse := false } := by
      have hlogged : d.log (.answered h false) = a.setTransaction h fun t =>
          { t with callback := none } := rfl
      rw [hlogged, setTransaction_twice]
      rfl
    have hcalled : (callResponse hooks d (.user callback) d.inbound.responseStatus).1 = d :=
      hpassive _ _
    generalize hr : callResponse hooks d (.user callback) d.inbound.responseStatus = r at hcalled
    rw [respondOnce_finish hdisarmed hr (by rw [hcalled]; exact hcurrent)
      (by rw [hcalled]; exact ⟨hactive, rfl⟩), hcalled, ← hsame, hfinish, setTransaction_twice]
  have hanswered : a.setTransaction h (fun t => { t.answered with resendCallback := none }) =
      { u with
        transaction := Function.update u.transaction h
          { (u.transaction h).answered with resendCallback := none }
        events := .answered h false :: .called h u.inbound.responseStatus ::
          .responded h u.inbound u.store (u.transaction h) :: u.events } := rfl
  -- and the last thing is the end of the transaction
  rw [hanswered] at hended
  clear_value a v
  set w : Instance := { u with
    transaction := Function.update u.transaction h
      { (u.transaction h).answered with resendCallback := none }
    events := .answered h false :: .called h u.inbound.responseStatus ::
      .responded h u.inbound u.store (u.transaction h) :: u.events } with hw
  have hend : smcpTransactionEnd hooks w h = w.ended h := end_passive hpassive hok hactive
  refine ⟨{ (u.transaction h).answered with resendCallback := none }, (w.ended h).timers,
    (w.ended h).timerEvents, deletedEvents h (w.transaction h) ++
      [.ended h (some h), .answered h false, .called h u.inbound.responseStatus], ?_, ?_⟩
  · have hnow : w.currentTransaction = some h := hcurrent
    rw [hended, hend, Instance.ended, if_pos hnow, List.append_assoc]
    rfl
  · intro h'
    rw [List.filterMap_append, delivery_deletedEvents]
    rfl

/-- A message for a transaction that is called once goes to its callback, and the transaction ends.
The other transactions, and what their callbacks got, stay as they are. -/
theorem handleResponse_passive (hpassive : hooks.Passive) (hok : StoreOk u.store)
    (hactive : u.store.active h = true) (hhandler : u.responseHandler = some h)
    (hcode : headerCode u.inbound.bytes ≠ coapCodeEmpty)
    (honce : calledOnce (u.transaction h).flags = true) {callback : ℕ}
    (hcallback : (u.transaction h).callback = some (.user callback)) :
    ∃ i t l te es, (smcpHandleResponse hooks u).1 =
        { u with
          inbound := i
          transaction := Function.update u.transaction h t
          store := u.store.finish h
          timers := l
          timerEvents := te
          currentTransaction := none
          events := es ++ u.events } ∧
      ∀ h', es.filterMap (Event.delivery h') =
        if h' = h then [(headerCode u.inbound.bytes, u.inbound.content)] else [] := by
  -- the lookup by the message id has made `h` the current transaction
  set v : Instance := { u with
    events := .received u.inbound u.store u.transaction :: u.events
    currentTransaction := some h } with hv
  have hto : smcpHandleResponse hooks u = respondTo hooks v h := by
    have hsame : (u.log (.received u.inbound u.store u.transaction)).responseHandler = some h := hhandler
    unfold smcpHandleResponse
    dsimp only
    rw [hsame]
    rfl
  -- the message is neither an announcement nor a notification: it is the response
  have hannounces : v.inbound.announcesResponse (v.transaction h) = false := by
    unfold Inbound.announcesResponse
    rw [decide_eq_false hcode, Bool.and_false, Bool.false_and]
  have hnotifies : v.inbound.notifies (v.transaction h) = false := by
    unfold calledOnce at honce
    rw [Bool.and_eq_true, Bool.and_eq_true, decide_eq_true_eq, decide_eq_true_eq] at honce
    have hobserve : hasFlag (v.transaction h).flags smcpTransactionObserve = false := honce.1.2
    unfold Inbound.notifies
    rw [hobserve, Bool.false_and]
  -- the check of its authority reads the message and leaves it
  obtain ⟨i, ⟨key, option, hi⟩, hauth⟩ := authInboundInit_eq v
  have hprepared : prepareCallback v = { v with inbound := i.resetNextOption } := by
    unfold prepareCallback
    rw [hauth]
  -- what the callback reads are the bytes of the message
  have hheard : headerCode i.resetNextOption.bytes = headerCode u.inbound.bytes ∧
      i.resetNextOption.content = u.inbound.content := by
    rw [hi]
    exact ⟨rfl, rfl⟩
  have hcall : (v.transaction h).callback = some (.user callback) := hcallback
  obtain ⟨t, l, te, es, hrespond, hnothing⟩ := respondOnce_passive
    (u := { v with inbound := i.resetNextOption }) hpassive hok hactive rfl honce callback
  refine ⟨i.resetNextOption, t, l, te, es ++ [.responded h i.resetNextOption u.store (u.transaction h),
    .received u.inbound u.store u.transaction], ?_, ?_⟩
  · rw [hto]
    unfold respondTo
    dsimp only
    rw [hannounces, if_neg Bool.false_ne_true, hcall]
    dsimp only
    rw [hnotifies, if_neg Bool.false_ne_true, hprepared, hrespond, List.append_assoc]
    rfl
  · intro h'
    rw [List.filterMap_append, hnothing, List.nil_append, ← hheard.1, ← hheard.2]
    by_cases hsame : h' = h
    · rw [if_pos hsame, hsame]
      simp [Event.delivery]
    · rw [if_neg hsame]
      simp [Event.delivery, Ne.symm hsame]

/-- An acknowledgement that nobody waits for is ignored. -/
theorem handleResponse_unknown (hooks : Hooks) (hhandler : u.responseHandler = none)
    (htt : headerTt u.inbound.bytes = coapTransTypeAck) :
    (smcpHandleResponse hooks u).1 =
      { u with
        currentTransaction := none
        events := .received u.inbound u.store u.transaction :: u.events } := by
  have hsame : (u.log (.received u.inbound u.store u.transaction)).responseHandler = none := hhandler
  set v : Instance := { u with
    currentTransaction := none
    events := .received u.inbound u.store u.transaction :: u.events } with hv
  have hto : smcpHandleResponse hooks u = respondUnknown v := by
    unfold smcpHandleResponse
    dsimp only
    rw [hsame]
    rfl
  have hack : headerTt v.inbound.bytes = coapTransTypeAck := htt
  rw [hto]
  unfold respondUnknown
  rw [hack, if_neg (by decide)]

/-- An acknowledgement with a response goes to the transactions, and is not answered. -/
theorem finishPacket_ack {a : Instance} (hprocessing : a.isProcessingMessage = true)
    (htt : headerTt a.inbound.bytes = coapTransTypeAck)
    (hcode : coapResult100 ≤ headerCode a.inbound.bytes) :
    (smcpInboundFinishPacket hooks a).1 =
      finishPacketBail (smcpHandleResponse hooks (preparePacket a)).1 := by
  have hother : headerTt a.inbound.bytes ≠ coapTransTypeConfirmable := by
    rw [htt]
    decide
  have hrequest : coapCodeIsRequest (headerCode a.inbound.bytes) = false := by
    simp only [coapCodeIsRequest, Bool.and_eq_false_iff, decide_eq_false_iff_not]
    exact .inr (Nat.not_lt.2 hcode)
  have hresult : coapCodeIsResult (headerCode a.inbound.bytes) = true := by
    simp only [coapCodeIsResult, Bool.or_eq_true, decide_eq_true_eq]
    exact .inr hcode
  unfold smcpInboundFinishPacket
  rw [if_neg (by rw [hprocessing]; exact Bool.noConfusion), if_neg fun hdropped => hother hdropped.2]
  dsimp only
  unfold dispatchPacket
  rw [preparePacket_bytes, hrequest, if_neg Bool.false_ne_true, if_pos hresult,
    automaticReply_none fun hno => hother hno.2]

end

/-- The transaction `h` waits for the response of `server` to the request `m`. -/
structure Awaits (c : Instance) (h : TransactionPtr) (server : SockAddr) (m : Message) : Prop where
  active : c.store.active h = true
  callback : ∃ n, (c.transaction h).callback = some (.user n)
  once : calledOnce (c.transaction h).flags = true
  peer : (c.transaction h).multicast = true ∨
    (c.transaction h).saddr.addr = server.addr ∧ (c.transaction h).saddr.port = server.port
  msgId : c.store.msgId h = m.header.msgId
  token : tokenBytes (c.store.token h) = m.token
  token_lt : c.store.token h < 65536

/-- The callback of `h` got `response`, and `h` ended. Nothing else happened to the transactions. -/
structure Delivers (c c' : Instance) (h : TransactionPtr) (response : ℕ × List UInt8) : Prop where
  store : c'.store = c.store.finish h
  transaction : ∀ h' ≠ h, c'.transaction h' = c.transaction h'
  sent : c'.sent = c.sent
  deliveries : ∀ h', c'.deliveries h' =
    if h' = h then response :: c.deliveries h' else c.deliveries h'

/-- A response that acknowledges the request `m`. -/
structure Message.Acknowledges (r m : Message) : Prop where
  valid : r.Valid
  keys : ∀ o ∈ r.options, o.1 ≠ coapOptionInvalid
  tt : r.header.tt = coapTransTypeAck
  code : coapResult100 ≤ r.header.code
  msgId : r.header.msgId = m.header.msgId
  token : r.token = m.token

section
variable {hooks : Hooks} {c : Instance} {h : TransactionPtr} {m r : Message} {server : SockAddr}

/-- The token of a message, as the number that the transactions have. -/
theorem Hears.responseToken {i : Inbound} (hhears : Hears i r) {token : ℕ} (hlt : token < 65536)
    (htoken : tokenBytes token = r.token) : i.responseToken = token := by
  have hread := hhears.token
  rw [← htoken] at hread
  simp only [tokenBytes, List.length_cons, List.length_nil, readBytes, List.cons.injEq, and_true]
    at hread
  have hlen : headerTokenLen i.bytes = 2 := by
    rw [hhears.tokenLen, ← htoken]
    rfl
  unfold Inbound.responseToken
  rw [if_pos hlen, hread.1, hread.2, UInt8.toNat_ofNat', UInt8.toNat_ofNat']
  omega

/-- The response is for the transaction that waits for it. -/
theorem Awaits.responseHandler (hwaits : Awaits c h server m) (hok : StoreOk c.store)
    (hack : r.Acknowledges m) (hhears : Hears c.inbound r) (hsaddr : c.inbound.saddr = server) :
    c.responseHandler = some h := by
  have hfound : c.store.findViaMsgId (headerMsgId c.inbound.bytes) = some h := by
    rw [hhears.msgId, hack.msgId, ← hwaits.msgId]
    exact hok.findViaMsgId h hwaits.active
  have htoken : c.inbound.responseToken = c.store.token h :=
    hhears.responseToken hwaits.token_lt (hwaits.token.trans hack.token.symm)
  have hlookup : c.inbound.lookup c.store = some h := by
    unfold Inbound.lookup
    rw [hfound]
    exact if_neg fun hc => hc.2 htoken
  have hpeer : c.inbound.fromPeer (c.transaction h) = true := by
    unfold Inbound.fromPeer
    rw [hsaddr, Bool.or_eq_true, Bool.and_eq_true, decide_eq_true_eq, decide_eq_true_eq]
    exact hwaits.peer
  unfold Instance.responseHandler
  rw [hlookup]
  exact if_pos hpeer

/-- The response arrives, and the callback gets what the server sent. -/
theorem processPacket_delivers (hpassive : hooks.Passive) (hok : StoreOk c.store)
    (hwaits : Awaits c h server m) (hack : r.Acknowledges m) (dest : Option SockAddr)
    (rest : ℕ → UInt8) :
    Delivers c (processPacket hooks c (ofList r.wire rest) r.wire.length server dest).1 h
      (r.header.code, r.content) := by
  have hhears := hears_preparePacket hack.valid hack.keys c server dest rest
  -- the packet is verified, so it gets past the header
  rw [processPacket_eq _ (hack.valid.verified rest)]
  set a := c.arrived (ofList r.wire rest) r.wire.length server dest with ha
  have hbytes := preparePacket_bytes a
  have hsaddr : (preparePacket a).inbound.saddr = server :=
    (preparePacket_samePacket (s := a) rfl).saddr
  -- the duplicate table and the iterator move, the message stays
  obtain ⟨i, d, l, hprepared⟩ := preparePacket_eq a
  rw [finishPacket_ack rfl (by rw [← hbytes, hhears.tt]; exact hack.tt)
    (by rw [← hbytes, hhears.code]; exact hack.code)]
  -- an acknowledgement is neither answered nor dropped
  rw [hprepared] at hhears hsaddr ⊢
  set u : Instance := { a with inbound := i, dupeInfo := d, checks := l } with hu
  have hready : Awaits u h server m :=
    ⟨hwaits.active, hwaits.callback, hwaits.once, hwaits.peer, hwaits.msgId, hwaits.token,
      hwaits.token_lt⟩
  have hhandler := hready.responseHandler (r := r) hok hack hhears hsaddr
  have hcode : headerCode u.inbound.bytes ≠ coapCodeEmpty := by
    rw [hhears.code]
    intro hempty
    exact absurd (hempty ▸ hack.code) (by decide)
  obtain ⟨n, hcallback⟩ := hready.callback
  obtain ⟨i', t, timers, te, es, hhandled, hes⟩ :=
    handleResponse_passive (u := u) hpassive hok hready.active hhandler hcode hready.once hcallback
  rw [hhandled]
  refine ⟨rfl, fun h' hne => Function.update_of_ne hne _ _, rfl, fun h' => ?_⟩
  show (es ++ c.events).filterMap (Event.delivery h') = _
  rw [List.filterMap_append, hes, hhears.code, hhears.content]
  by_cases hsame : h' = h
  · rw [if_pos hsame, if_pos hsame]
    rfl
  · rw [if_neg hsame, if_neg hsame]
    rfl

/-- A response that nobody waits for any more changes nothing. -/
theorem processPacket_ignores (hooks : Hooks) (hok : StoreOk c.store) (hack : r.Acknowledges m)
    (hnobody : ∀ h, c.store.active h = true → c.store.msgId h ≠ m.header.msgId) (server : SockAddr)
    (dest : Option SockAddr) (rest : ℕ → UInt8) :
    let c' := (processPacket hooks c (ofList r.wire rest) r.wire.length server dest).1
    c'.store = c.store ∧ c'.transaction = c.transaction ∧ c'.sent = c.sent ∧
      ∀ h', c'.deliveries h' = c.deliveries h' := by
  have hhears := hears_preparePacket hack.valid hack.keys c server dest rest
  -- as for the response that is waited for, up to the transaction that is looked up
  rw [processPacket_eq _ (hack.valid.verified rest)]
  set a := c.arrived (ofList r.wire rest) r.wire.length server dest with ha
  have hbytes := preparePacket_bytes a
  obtain ⟨i, d, l, hprepared⟩ := preparePacket_eq a
  rw [finishPacket_ack rfl (by rw [← hbytes, hhears.tt]; exact hack.tt)
    (by rw [← hbytes, hhears.code]; exact hack.code)]
  rw [hprepared] at hhears ⊢
  -- `u` is the state in which the id is looked up, and nothing has it
  set u : Instance := { a with inbound := i, dupeInfo := d, checks := l } with hu
  have hfound : u.store.findViaMsgId (headerMsgId u.inbound.bytes) = none := by
    rw [Option.eq_none_iff_forall_ne_some]
    intro h hfound
    have hready : StoreOk u.store := hok
    obtain ⟨hactive, hid⟩ := hready.findViaMsgId_iff.1 hfound
    rw [hhears.msgId, hack.msgId] at hid
    exact hnobody h hactive hid
  have htt : headerTt u.inbound.bytes = coapTransTypeAck := hhears.tt.trans hack.tt
  have hhandler : u.responseHandler = none := by
    unfold Instance.responseHandler Inbound.lookup
    rw [hfound, htt]
    rfl
  rw [handleResponse_unknown hooks hhandler htt]
  exact ⟨rfl, rfl, rfl, fun _ => rfl⟩

end

end Smcp
