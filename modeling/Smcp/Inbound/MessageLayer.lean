import Smcp.Inbound.Answered
import Smcp.Outbound.Response

/-!
# The message layer

Which messages are acknowledged or reset, whatever they say: the datagrams that are sent while a
packet is finished, for an application whose own functions send nothing.

* `Reticent`: nothing was sent, and the message is still there to be answered;
* `reticent_handleResponse`, `reticent_handleRequest`: what the handlers of the library do;
* `processPacket_messageLayer`: the replies to every packet that is accepted.
-/

namespace Smcp

open ByteMemory OptionFormat

/-! ## Nothing is sent -/

/-- Nothing was sent, and the message in `inbound` is the same. -/
structure Reticent (u u' : Instance) : Prop where
  samePacket : u.inbound.SamePacket u'.inbound
  sent : u'.sent = u.sent
  sendResult : u'.sendResult = u.sendResult
  didRespond : u'.didRespond = u.didRespond
  isResponding : u'.isResponding = u.isResponding
  isProcessingMessage : u'.isProcessingMessage = u.isProcessingMessage

/-- The callbacks of the application send nothing. Its request handlers may. -/
def CallbacksQuiet (hooks : Hooks) : Prop :=
  ∀ c u, (∀ k, c ≠ .request k) → Reticent u (hooks c u).1

section
variable {u u' u'' : Instance} {hooks : Hooks}

theorem Reticent.refl (u : Instance) : Reticent u u := ⟨⟨rfl, rfl, rfl, rfl, rfl⟩, rfl, rfl, rfl, rfl, rfl⟩

/-- One after the other. -/
theorem Reticent.trans (h : Reticent u u') (h' : Reticent u' u'') : Reticent u u'' where
  samePacket := h.samePacket.trans h'.samePacket
  sent := h'.sent.trans h.sent
  sendResult := h'.sendResult.trans h.sendResult
  didRespond := h'.didRespond.trans h.didRespond
  isResponding := h'.isResponding.trans h.isResponding
  isProcessingMessage := h'.isProcessingMessage.trans h.isProcessingMessage

/-- What has nothing to do with messages has changed. -/
theorem reticent_of_eq {random : ℕ → ℕ} {randomUsed lastMsgId : ℕ} {timers : TimerList}
    {store : TransactionStore}
    {transaction : TransactionPtr → Transaction} {current : Option TransactionPtr}
    {observerTable : ℕ → Observer} {observables : ℕ → Observable} {events : List Event}
    {timerEvents : List TimerEvent} {observerEvents : List ObserverEvent} {fault : Bool}
    (h : u' =
      { u with
        random := random
        randomUsed := randomUsed
        lastMsgId := lastMsgId
        timers := timers
        store := store
        transaction := transaction
        currentTransaction := current
        observerTable := observerTable
        observables := observables
        events := events
        timerEvents := timerEvents
        observerEvents := observerEvents
        fault := fault }) : Reticent u u' := by
  rw [h]
  exact ⟨⟨rfl, rfl, rfl, rfl, rfl⟩, rfl, rfl, rfl, rfl, rfl⟩

theorem reticent_log (u : Instance) (e : Event) : Reticent u (u.log e) := reticent_of_eq rfl

/-- A transaction is no message. -/
theorem reticent_setTransaction (u : Instance) (h : TransactionPtr) (f : Transaction → Transaction) :
    Reticent u (u.setTransaction h f) := reticent_of_eq rfl

/-- The cancel callback of the timer is one of those that send nothing. -/
theorem reticent_invalidateTimer (hquiet : CallbacksQuiet hooks) (u : Instance) (timer : TimerPtr) :
    Reticent u (smcpInvalidateTimer hooks u timer) := by
  unfold smcpInvalidateTimer
  dsimp only
  split
  · next cancel _ =>
    apply Reticent.trans _ (hquiet (.timerCancel cancel) _ nofun)
    exact reticent_of_eq rfl
  · exact reticent_of_eq rfl

/-- So is the callback of a transaction, which is told of its end. -/
theorem reticent_deleteTransaction (hquiet : CallbacksQuiet hooks) (u : Instance)
    (h : TransactionPtr) : Reticent u (smcpInternalDeleteTransaction_ hooks u h) := by
  have htimer := reticent_invalidateTimer hquiet u (.ofTransaction h)
  unfold smcpInternalDeleteTransaction_
  dsimp only
  generalize smcpInvalidateTimer hooks u (.ofTransaction h) = v at htimer ⊢
  set w := ({ v with store := v.store.setActive h false } : Instance).log
    (.deleted h (v.transaction h).callback.isSome) with hw
  have hmarked : Reticent u w := htimer.trans (reticent_of_eq hw)
  have hfinal (x : Instance) (hx : Reticent u x) :
      Reticent u (if (x.transaction h).shouldDealloc then x.log (.freed h) else x) := by
    split_ifs
    · exact hx.trans (reticent_of_eq rfl)
    · exact hx
  apply hfinal
  split
  · next callback _ =>
    exact hmarked.trans (hquiet (.response callback smcpStatusTransactionInvalidated) w nofun)
  · exact hmarked

/-- Its timer is invalidated, and it is deleted. -/
theorem reticent_end (hquiet : CallbacksQuiet hooks) (u : Instance) (h : TransactionPtr) :
    Reticent u (smcpTransactionEnd hooks u h) := by
  unfold smcpTransactionEnd deleteFound
  dsimp only
  set v := if u.currentTransaction = some h then { u with currentTransaction := none } else u with hv
  have hcurrent : Reticent u v := by
    rw [hv]
    split_ifs
    · exact reticent_of_eq rfl
    · exact .refl u
  clear_value v
  split_ifs
  · split
    · apply Reticent.trans _ (reticent_deleteTransaction hquiet _ _)
      exact hcurrent.trans (reticent_of_eq rfl)
    · exact hcurrent.trans (reticent_of_eq rfl)
  · exact hcurrent

/-- A transaction that is pushed out of the tree is told, too. -/
theorem reticent_newMsgId (hquiet : CallbacksQuiet hooks) (u : Instance) (h : TransactionPtr)
    (msgId : ℕ) : Reticent u (smcpTransactionNewMsgId hooks u h msgId) := by
  unfold smcpTransactionNewMsgId insertTransaction
  dsimp only
  split_ifs
  · split
    · apply Reticent.trans _ (reticent_deleteTransaction hquiet _ _)
      exact reticent_of_eq rfl
    · exact reticent_of_eq rfl
  · exact .refl u

theorem reticent_scheduleTimer (u : Instance) (timer : TimerPtr) (cms : ℤ) :
    Reticent u (smcpScheduleTimer u timer cms).1 := by
  unfold smcpScheduleTimer
  by_cases hscheduled : smcpTimerIsScheduled u timer = true
  · rw [if_pos hscheduled]
    exact .refl u
  · rw [if_neg hscheduled]
    dsimp only
    split
    · exact reticent_of_eq rfl
    · exact reticent_of_eq rfl

/-- An id is drawn, which nobody sees yet. -/
theorem reticent_getNextMsgId (u : Instance) (purpose : DrawPurpose) :
    Reticent u (smcpGetNextMsgId u purpose).1 := by
  unfold smcpGetNextMsgId
  dsimp only
  split_ifs <;> exact reticent_of_eq rfl

/-! ## The handlers of the library -/

/-- The lists of observers change. -/
theorem reticent_unlinkObserver (u : Instance) (context i : ℕ) :
    Reticent u (unlinkObserver u context i) := by
  unfold unlinkObserver
  dsimp only
  split_ifs
  · exact reticent_of_eq rfl
  · exact reticent_of_eq rfl
  · split
    · exact reticent_of_eq rfl
    · split_ifs <;> exact reticent_of_eq rfl
  · exact reticent_of_eq rfl

/-- The transaction of the observer ends, and it is taken out of its list. -/
theorem reticent_freeObserver (hquiet : CallbacksQuiet hooks) (u : Instance) (i : ℕ) :
    Reticent u (freeObserver hooks u i) := by
  have hset (v : Instance) (f : Observer → Observer) (hv : Reticent u v) :
      Reticent u (v.setObserver i f) := hv.trans (reticent_of_eq rfl)
  unfold freeObserver
  dsimp only
  apply hset
  split
  · exact .refl u
  · apply Reticent.trans _ (reticent_unlinkObserver _ _ i)
    exact (reticent_end hquiet u (.observer i)).trans (reticent_of_eq rfl)

/-- Either the application is told of a response or an observer is freed. -/
theorem reticent_callResponse (hquiet : CallbacksQuiet hooks) (u : Instance) (callback : ResponseFunc)
    (statuscode : ℤ) : Reticent u (callResponse hooks u callback statuscode).1 := by
  cases callback with
  | user callback => exact hquiet (.response callback statuscode) u nofun
  | eventResponseHandler i =>
    show Reticent u (eventResponseHandler hooks u statuscode i).1
    unfold eventResponseHandler
    extract_lets reported answered
    by_cases hreset : answered = smcpStatusReset
    · rw [if_pos hreset]
      exact reticent_freeObserver hquiet u i
    · rw [if_neg hreset]
      exact .refl u

/-- A transaction whose callback fails ends. -/
theorem reticent_responseBail (hquiet : CallbacksQuiet hooks) (u : Instance) (ret : ℤ)
    (handler : Option TransactionPtr) : Reticent u (responseBail hooks u ret handler).1 := by
  unfold responseBail
  split
  · split_ifs
    · exact reticent_end hquiet u _
    · exact .refl u
  · exact .refl u

theorem reticent_rescheduleObserve (u : Instance) (h : TransactionPtr) (cms : ℤ) :
    Reticent u (rescheduleObserve u h cms) := by
  unfold rescheduleObserve
  dsimp only
  apply Reticent.trans _ (reticent_scheduleTimer _ _ _)
  exact reticent_of_eq rfl

/-- A notification is taken to the callback, and the next one waited for. -/
theorem reticent_respondObserve (hquiet : CallbacksQuiet hooks) (u : Instance) (h : TransactionPtr)
    (callback : ResponseFunc) : Reticent u (respondObserve hooks u h callback).1 := by
  unfold respondObserve
  dsimp only
  -- an older observation is skipped, but its transaction stays
  by_cases hold : u.inbound.isOldObservation (u.transaction h) = true
  · rw [if_pos hold]
    apply Reticent.trans _ (reticent_responseBail hquiet _ _ _)
    exact (reticent_log _ _).trans (reticent_log _ _)
  · rw [if_neg hold]
    have hlogged : Reticent u (((u.logResponded h).log (.notification h u.inbound.observeValue
        (u.transaction h))).log (.delivered h u.inbound.observeValue)) :=
      ((reticent_log u _).trans (reticent_log _ _)).trans (reticent_log _ _)
    generalize ((u.logResponded h).log (.notification h u.inbound.observeValue
      (u.transaction h))).log (.delivered h u.inbound.observeValue) = v at hlogged ⊢
    have hready : Reticent u ((v.log (.called h v.inbound.responseStatus)).setTransaction h fun t =>
        { t with lastObserve := u.inbound.observeValue }) :=
      (hlogged.trans (reticent_log v _)).trans (reticent_setTransaction _ h _)
    generalize (v.log (.called h v.inbound.responseStatus)).setTransaction h (fun t =>
      { t with lastObserve := u.inbound.observeValue }) = w at hready ⊢
    have hcalled := hready.trans (reticent_callResponse hquiet w callback w.inbound.responseStatus)
    generalize callResponse hooks w callback w.inbound.responseStatus = r at hcalled ⊢
    split_ifs
    · exact hcalled
    · apply Reticent.trans _ (reticent_responseBail hquiet _ _ _)
      apply Reticent.trans _ (reticent_rescheduleObserve _ h _)
      apply Reticent.trans _ (reticent_invalidateTimer hquiet _ _)
      have hanswered := hcalled.trans (reticent_log r.1 (.answered h
        ((r.1.transaction h).waitingForAsyncResponse || r.1.inbound.hasObserveOption)))
      exact hanswered.trans ((reticent_setTransaction _ h _).trans (reticent_of_eq rfl))

/-- Behind the callback the transaction ends or goes on. -/
theorem reticent_respondFinish (hquiet : CallbacksQuiet hooks) (u : Instance) (h : TransactionPtr)
    (ret : ℤ) : Reticent u (respondFinish hooks u h ret).1 := by
  unfold respondFinish
  dsimp only
  split_ifs
  · apply Reticent.trans _ (reticent_responseBail hquiet _ _ _)
    apply Reticent.trans _ (reticent_scheduleTimer _ _ _)
    apply Reticent.trans _ (reticent_invalidateTimer hquiet _ _)
    apply Reticent.trans _ (reticent_newMsgId hquiet _ _ _)
    apply Reticent.trans _ (reticent_getNextMsgId _ _)
    exact reticent_of_eq rfl
  · apply Reticent.trans _ (reticent_responseBail hquiet _ _ _)
    apply Reticent.trans _ (reticent_rescheduleObserve _ h _)
    apply Reticent.trans _ (reticent_invalidateTimer hquiet _ _)
    exact reticent_of_eq rfl
  · exact reticent_of_eq rfl
  · apply Reticent.trans _ (reticent_end hquiet _ _)
    exact reticent_of_eq rfl

/-- Any other callback is called for the last time. -/
theorem reticent_respondOnce (hquiet : CallbacksQuiet hooks) (u : Instance) (h : TransactionPtr)
    (callback : ResponseFunc) : Reticent u (respondOnce hooks u h callback).1 := by
  unfold respondOnce
  dsimp only
  have hlogged : Reticent u ((u.logResponded h).log (.called h u.inbound.responseStatus)) :=
    (reticent_log u _).trans (reticent_log _ _)
  generalize (u.logResponded h).log (.called h u.inbound.responseStatus) = v at hlogged ⊢
  have hdisarmed : Reticent u (disarmCallback v h) := by
    unfold disarmCallback
    split_ifs
    · exact hlogged.trans (reticent_setTransaction v h _)
    · exact hlogged
  generalize disarmCallback v h = w at hdisarmed ⊢
  have hcalled := hdisarmed.trans (reticent_callResponse hquiet w callback w.inbound.responseStatus)
  generalize callResponse hooks w callback w.inbound.responseStatus = r at hcalled ⊢
  split_ifs
  · exact hcalled
  · apply Reticent.trans _ (reticent_respondFinish hquiet _ h _)
    exact hcalled.trans ((reticent_log r.1 (.answered h false)).trans (reticent_setTransaction _ h _))
  · apply Reticent.trans _ (reticent_responseBail hquiet _ _ _)
    exact hcalled.trans ((reticent_log r.1 (.answered h false)).trans (reticent_setTransaction _ h _))

/-- Looking at the options moves the option iterator only. -/
theorem Reticent.setInbound (h : Reticent u u') {i : Inbound} (hi : u'.inbound.SamePacket i) :
    Reticent u { u' with inbound := i } :=
  ⟨h.samePacket.trans hi, h.sent, h.sendResult, h.didRespond, h.isResponding, h.isProcessingMessage⟩

/-- However the response is taken. -/
theorem reticent_respondTo (hquiet : CallbacksQuiet hooks) (u : Instance) (h : TransactionPtr) :
    Reticent u (respondTo hooks u h).1 := by
  obtain ⟨i, hi, hauth⟩ := authInboundInit_eq u
  have hprepared : Reticent u (prepareCallback u) := by
    unfold prepareCallback
    rw [hauth]
    exact (Reticent.refl u).setInbound (hi.trans i.sameMessage_resetNextOption).samePacket
  unfold respondTo
  dsimp only
  by_cases hlater : u.inbound.announcesResponse (u.transaction h) = true
  · rw [if_pos hlater]
    show Reticent u ((u.log (.acknowledged h (headerTt u.inbound.bytes))).setTransaction h fun t =>
      { t with waitingForAsyncResponse := true })
    exact (reticent_log u _).trans (reticent_setTransaction _ h _)
  · rw [if_neg hlater]
    split
    · exact .refl u
    · next callback _ =>
      split_ifs
      · exact hprepared.trans (reticent_respondObserve hquiet _ h callback)
      · exact hprepared.trans (reticent_respondOnce hquiet _ h callback)

/-- Looking for a virtual host moves the option pointer, and nothing else. -/
theorem vhostRoute_inbound (u : Instance) (func : Option ℕ) :
    ∃ i k, u.inbound.SameMessage i ∧ smcpVhostRoute u func = ({ u with inbound := i }, k) := by
  have hscan := (Inbound.sameMessage_resetNextOption u.inbound).trans
    (sameMessage_vhostScan (u.inbound.packetLen + 1) _ (0, 0))
  unfold smcpVhostRoute
  dsimp only
  split_ifs
  · exact ⟨_, _, .refl _, rfl⟩
  · exact ⟨_, _, hscan, rfl⟩
  · split <;> exact ⟨_, _, hscan, rfl⟩

/-- A request is being processed, and nothing was sent in reply. -/
structure Serving (u : Instance) : Prop where
  packet : u.inbound.packet.isSome
  isRequest : coapCodeIsRequest (headerCode u.inbound.bytes) = true
  family : u.inbound.saddr.family ≠ 0
  isProcessingMessage : u.isProcessingMessage = true
  didRespond : u.didRespond = false
  isResponding : u.isResponding = false
  takes : ∀ k, 0 < u.sendResult k

/-- The datagram is a response to the message: an ACK, or a NON if the message is one. -/
structure Datagram.Responds (d : Datagram) (i : Inbound) : Prop where
  dest : d.dest = i.saddr
  tt : headerTt d.memory =
    if headerTt i.bytes = coapTransTypeNonconfirmable then coapTransTypeNonconfirmable
    else coapTransTypeAck
  code : coapResult100 ≤ headerCode d.memory
  msgId : headerMsgId d.memory = headerMsgId i.bytes
  tokenLen : headerTokenLen d.memory = headerTokenLen i.bytes
  token : readBytes d.memory 4 (headerTokenLen i.bytes) = readBytes i.bytes 4 (headerTokenLen i.bytes)

/-- One response was sent, and nothing else. -/
structure Responded (u u' : Instance) : Prop where
  samePacket : u.inbound.SamePacket u'.inbound
  sent : ∃ d : Datagram, u'.sent = u.sent ++ [d] ∧ d.Responds u.inbound
  sendResult : u'.sendResult = u.sendResult
  didRespond : u'.didRespond = true

/-- A request handler sends one response, or leaves the reply to `smcp_inbound_finish_packet`. -/
def RespondsAtMostOnce (hooks : Hooks) : Prop :=
  ∀ k u, Serving u → Reticent u (hooks (.request k) u).1 ∨ Responded u (hooks (.request k) u).1

/-- The message is the same when its options have been read. -/
theorem Serving.setInbound (h : Serving u) {i : Inbound} (hi : u.inbound.SamePacket i) :
    Serving { u with inbound := i } where
  packet := by rw [hi.packet]; exact h.packet
  isRequest := by rw [hi.bytes]; exact h.isRequest
  family := by rw [hi.saddr]; exact h.family
  isProcessingMessage := h.isProcessingMessage
  didRespond := h.didRespond
  isResponding := h.isResponding
  takes := h.takes

/-- What responds to a message responds to the same message, read further. -/
theorem Datagram.Responds.congr {d : Datagram} {i i' : Inbound} (h : d.Responds i')
    (hsame : i.SamePacket i') : d.Responds i := by
  obtain ⟨hdest, htt, hcode, hid, hlen, htoken⟩ := h
  rw [hsame.bytes] at htt hid hlen htoken
  rw [hsame.saddr] at hdest
  exact ⟨hdest, htt, hcode, hid, hlen, htoken⟩

/-- A request handler is looked for and called once, if there is one. -/
theorem handleRequest_reply (honce : RespondsAtMostOnce hooks) (hu : Serving u) :
    Reticent u (smcpHandleRequest hooks u).1 ∨ Responded u (smcpHandleRequest hooks u).1 := by
  obtain ⟨i, hi, hauth⟩ := authInboundInit_eq u
  obtain ⟨i', k, hi', hroute⟩ := vhostRoute_inbound { u with inbound := i } u.requestHandler
  have hrouted := hi.trans hi'
  unfold smcpHandleRequest
  rw [hauth]
  dsimp only
  rw [hroute]
  cases k with
  | none => exact .inl ((Reticent.refl u).setInbound hrouted.samePacket)
  | some handler =>
    have hfound : u.inbound.SamePacket i'.resetNextOption :=
      (hrouted.trans i'.sameMessage_resetNextOption).samePacket
    rcases honce handler _ (hu.setInbound hfound) with hquiet | hresponded
    · exact .inl (((Reticent.refl u).setInbound hfound).trans hquiet)
    · obtain ⟨d, hd, hresponds⟩ := hresponded.sent
      exact .inr ⟨hfound.trans hresponded.samePacket, ⟨d, hd, hresponds.congr hfound⟩,
        hresponded.sendResult, hresponded.didRespond⟩

end

/-! ## Empty messages -/

/-- The bytes of an empty message. -/
def emptyMessage (tt msgId : ℕ) : List UInt8 :=
  ({ version := coapVersion, tt := tt, tokenLen := 0, code := 0, msgId := msgId } : CoapHeader).bytes

section
variable {s : Instance} {m : Message}

/-- Nothing is added to an empty message, whatever the transaction. -/
theorem send_code_zero (h : Composes { s with currentTransaction := none } m)
    (hcode : m.header.code = 0) (hfamily : m.dest.family ≠ 0) (htakes : ∀ k, 0 < s.sendResult k) :
    (smcpOutboundSend s).1.sent = s.sent ++ [⟨m.dest, m.wire⟩] ∧
      (smcpOutboundSend s).2 = smcpStatusOk ∧
      (smcpOutboundSend s).1.didRespond = (s.didRespond || s.isResponding) := by
  obtain ⟨hout, hsent, hresult, -⟩ := noteSentCode_same s
  -- the note of the code leaves what the message is composed from
  have hflags : (noteSentCode s).didRespond = s.didRespond ∧
      (noteSentCode s).isResponding = s.isResponding := by
    unfold noteSentCode
    split <;> exact ⟨rfl, rfl⟩
  have hcode' : s.outbound.header.code = 0 := (congrArg CoapHeader.code h.header_eq).trans hcode
  -- the code 0 stops the automatic options
  have hget (auto : AutoOptions) : outboundGetContentPtr auto s.outbound = s.outbound := by
    unfold outboundGetContentPtr
    rw [if_neg (not_not.2 hcode')]
  have hbytes : s.outbound.bytes s.outbound.sendLength = m.wire := h.bytes_eq
  have hdest : s.outbound.saddr = m.dest := h.dest_eq
  -- the hook sends the bytes that the message has, to the place it is for
  have htaken := htakes s.sent.length
  have hhook : smcpOutboundSendHook (noteSentCode s) =
      ({ noteSentCode s with sent := s.sent ++ [⟨m.dest, m.wire⟩] }, smcpStatusOk) := by
    have hsame : smcpOutboundGetContentPtr (noteSentCode s) = noteSentCode s := by
      unfold smcpOutboundGetContentPtr
      rw [hout, hget, ← hout]
    unfold smcpOutboundSendHook
    rw [hsame]
    dsimp only
    rw [hout, hsent, hresult, hdest, hbytes, if_neg hfamily, if_neg (by omega), if_neg (by omega)]
  unfold smcpOutboundSend
  dsimp only
  rw [hhook, if_neg (not_not.2 rfl)]
  exact ⟨rfl, rfl, by rw [← hflags.1, ← hflags.2]⟩

/-- The message that both kinds of empty replies begin with. -/
theorem composes_empty (hpacket : s.inbound.packet.isSome) (hprocessing : s.isProcessingMessage = true)
    (hdid : s.didRespond = false) (hresponding : s.isResponding = false) (tt : ℕ) :
    Composes
      { smcpOutboundSetTt (smcpOutboundBeginResponse s 0).1 tt with currentTransaction := none }
      { replyMessage s.inbound 0 with
        header := { (replyMessage s.inbound 0).header with tt := tt % 4 } } := by
  have hbegun := composes_beginResponse hpacket hprocessing hdid hresponding (.inl rfl) (by decide)
  have hset := hbegun.setHeader { (replyMessage s.inbound 0).header with tt := tt % 4 } rfl
  apply hset.congr _ rfl
  show ({ (smcpOutboundBeginResponse s 0).1.outbound with
      header := { (smcpOutboundBeginResponse s 0).1.outbound.header with tt := tt % 4 } } : Outbound) = _
  rw [show (smcpOutboundBeginResponse s 0).1.outbound.header = (replyMessage s.inbound 0).header from
    hbegun.header_eq]

/-- Sending such a message. -/
theorem send_empty {i : Inbound} (tt : ℕ)
    (h : Composes { s with currentTransaction := none }
      { replyMessage i 0 with header := { (replyMessage i 0).header with tt := tt % 4 } })
    (hfamily : i.saddr.family ≠ 0) (htakes : ∀ k, 0 < s.sendResult k) :
    (smcpOutboundSend s).1.sent =
        s.sent ++ [⟨i.saddr, emptyMessage (tt % 4) (headerMsgId i.bytes)⟩] ∧
      (smcpOutboundSend s).1.didRespond = (s.didRespond || s.isResponding) := by
  obtain ⟨hsent, -, hdid⟩ := send_code_zero h rfl hfamily htakes
  have hwire : ({ replyMessage i 0 with
      header := { (replyMessage i 0).header with tt := tt % 4 } } : Message).wire =
      emptyMessage (tt % 4) (headerMsgId i.bytes) := rfl
  rw [hwire] at hsent
  exact ⟨hsent, hdid⟩

/-- The reply to a response that nothing waits for. -/
theorem respondUnknown_sent (hpacket : s.inbound.packet.isSome)
    (hprocessing : s.isProcessingMessage = true) (hdid : s.didRespond = false)
    (hresponding : s.isResponding = false) (hfamily : s.inbound.saddr.family ≠ 0)
    (htakes : ∀ k, 0 < s.sendResult k)
    (htt : headerTt s.inbound.bytes ≤ coapTransTypeNonconfirmable) :
    (respondUnknown s).1.sent = s.sent ++
        [⟨s.inbound.saddr, emptyMessage coapTransTypeReset (headerMsgId s.inbound.bytes)⟩] ∧
      (respondUnknown s).1.didRespond = true := by
  have hcomposes := composes_empty hpacket hprocessing hdid hresponding coapTransTypeReset
  have hsame := sameSetup_beginResponse s 0
  -- the begin of the reply, and then the reset that takes the place of its type
  obtain ⟨tr, o, force, hbegun⟩ := beginResponse_eq hprocessing hdid hresponding 0
  have hactive : (smcpOutboundBeginResponse s 0).1.isResponding = true := by rw [hbegun]
  unfold respondUnknown
  rw [if_pos htt]
  generalize (smcpOutboundBeginResponse s 0).1 = u at hcomposes hsame hactive ⊢
  -- what goes out is the header alone
  obtain ⟨hsent, hresponded⟩ := send_empty (s := smcpOutboundSetTt u coapTransTypeReset) _ hcomposes
    hfamily (fun k => by
      show 0 < u.sendResult k
      rw [hsame.sendResult]
      exact htakes k)
  constructor
  · rw [hsent]
    show u.sent ++ _ = _
    rw [hsame.sent]
    rfl
  · rw [hresponded]
    show (u.didRespond || u.isResponding) = true
    rw [hactive, Bool.or_true]

/-- The automatic reply to a confirmable message that is no request. -/
theorem replyToResult_sent (hpacket : s.inbound.packet.isSome)
    (hprocessing : s.isProcessingMessage = true) (hfamily : s.inbound.saddr.family ≠ 0)
    (htakes : ∀ k, 0 < s.sendResult k) (ret : ℤ) :
    (replyToResult s ret).1.sent = s.sent ++
      [⟨s.inbound.saddr, emptyMessage (if ret ≠ 0 ∧ s.inbound.isDupe = false then coapTransTypeReset
        else coapTransTypeAck) (headerMsgId s.inbound.bytes)⟩] := by
  -- reset for a failure that is no duplicate, acknowledgement otherwise
  have htt : (if ret ≠ 0 ∧ s.inbound.isDupe = false then coapTransTypeReset
      else coapTransTypeAck) % 4 =
      if ret ≠ 0 ∧ s.inbound.isDupe = false then coapTransTypeReset else coapTransTypeAck := by
    split_ifs <;> rfl
  have hcomposes := composes_empty (s := smcpOutboundReset s) hpacket hprocessing rfl rfl
    (if ret ≠ 0 ∧ s.inbound.isDupe = false then coapTransTypeReset else coapTransTypeAck)
  have hsame := sameSetup_beginResponse (smcpOutboundReset s) 0
  have hdupe : (smcpOutboundBeginResponse (smcpOutboundReset s) 0).1.inbound = s.inbound := by
    obtain ⟨tr, o, force, hbegun⟩ :=
      beginResponse_eq (s := smcpOutboundReset s) hprocessing rfl rfl 0
    rw [hbegun]
    rfl
  unfold replyToResult
  dsimp only
  generalize (smcpOutboundBeginResponse (smcpOutboundReset s) 0).1 = u at hcomposes hsame hdupe ⊢
  rw [hdupe]
  -- the type is kept as a value: both of them are sent the same way
  generalize (if ret ≠ 0 ∧ s.inbound.isDupe = false then coapTransTypeReset
    else coapTransTypeAck) = tt at htt hcomposes ⊢
  have htyped : SameSetup s (smcpOutboundSetTt u tt) := ⟨hsame.sent, hsame.sendResult, hsame.auto⟩
  have hset := htyped.trans (sameSetup_setToken _ [])
  have hnone : ([] : List UInt8).length ≤ 8 := Nat.zero_le 8
  have htoken := hcomposes.setToken rfl rfl hnone
  obtain ⟨hsent, -⟩ := send_empty (s := (smcpOutboundSetToken (smcpOutboundSetTt u tt) []).1)
    (i := s.inbound) tt (htoken.congr (setToken_outbound rfl []) rfl) hfamily (fun k => by
      rw [hset.sendResult]
      exact htakes k)
  rw [hsent, hset.sent, htt]

end

/-! ## Every packet -/

/-- A confirmable message that was sent to a group is dropped. -/
def Inbound.Dropped (i : Inbound) : Prop :=
  i.wasSentToMulticast = true ∧ headerTt i.bytes = coapTransTypeConfirmable

/-- The replies to the message `i`, when a transaction waits for it or not. -/
inductive MessageLayer (i : Inbound) (known : Bool) : List Datagram → Prop
  | dropped (hdropped : i.Dropped) : MessageLayer i known []
  | answered (hkept : ¬i.Dropped) (hcode : coapCodeIsRequest (headerCode i.bytes) = true)
      (htt : headerTt i.bytes = coapTransTypeConfirmable) {d : Datagram} (hanswers : d.Answers i)
      (hresponse : coapResult100 ≤ headerCode d.memory) : MessageLayer i known [d]
  | responded (hkept : ¬i.Dropped) (hcode : coapCodeIsRequest (headerCode i.bytes) = true)
      (htt : headerTt i.bytes ≠ coapTransTypeConfirmable) {d : Datagram} (hresponds : d.Responds i) :
      MessageLayer i known [d]
  | unanswered (hkept : ¬i.Dropped) (hcode : coapCodeIsRequest (headerCode i.bytes) = true)
      (htt : headerTt i.bytes ≠ coapTransTypeConfirmable) : MessageLayer i known []
  | unknown (hkept : ¬i.Dropped) (hcode : coapCodeIsResult (headerCode i.bytes) = true)
      (hunknown : known = false) (htt : headerTt i.bytes ≤ coapTransTypeNonconfirmable) :
      MessageLayer i known [⟨i.saddr, emptyMessage coapTransTypeReset (headerMsgId i.bytes)⟩]
  | known (hkept : ¬i.Dropped) (hcode : coapCodeIsResult (headerCode i.bytes) = true)
      (hknown : known = true) (htt : headerTt i.bytes = coapTransTypeConfirmable) {tt : ℕ}
      (hreply : tt = coapTransTypeAck ∨ tt = coapTransTypeReset) :
      MessageLayer i known [⟨i.saddr, emptyMessage tt (headerMsgId i.bytes)⟩]
  | silent (hcode : coapCodeIsResult (headerCode i.bytes) = true)
      (htt : headerTt i.bytes ≠ coapTransTypeConfirmable)
      (hsilent : coapTransTypeAck ≤ headerTt i.bytes ∨ known = true) : MessageLayer i known []

section
variable {hooks : Hooks} {s u u' : Instance} {packet : ℕ → UInt8} {ret : ℤ}

/-- The response goes to the transaction that waits for it. -/
theorem reticent_handleResponse (hquiet : CallbacksQuiet hooks) (u : Instance) {h : TransactionPtr}
    (hfound : u.responseHandler = some h) : Reticent u (smcpHandleResponse hooks u).1 := by
  have hready : Reticent u { u.log (.received u.inbound u.store u.transaction) with
      currentTransaction := some h } := reticent_of_eq rfl
  have hlogged : (u.log (.received u.inbound u.store u.transaction)).responseHandler = some h := hfound
  unfold smcpHandleResponse
  dsimp only
  rw [hlogged]
  exact hready.trans (reticent_respondTo hquiet _ h)

/-- A response without a transaction is left to the reset. -/
theorem handleResponse_none (hooks : Hooks) (u : Instance) (hnone : u.responseHandler = none) :
    ∃ v, Reticent u v ∧ (smcpHandleResponse hooks u) = respondUnknown v := by
  have hlogged : (u.log (.received u.inbound u.store u.transaction)).responseHandler = none := hnone
  unfold smcpHandleResponse
  dsimp only
  rw [hlogged]
  exact ⟨_, reticent_of_eq rfl, rfl⟩

/-- Nothing is added to what was sent. -/
theorem automaticReply_none (hno : ¬(u.didRespond = false ∧ headerTt packet = coapTransTypeConfirmable)) :
    (automaticReply packet u ret).1 = u := by
  unfold automaticReply
  rw [if_neg hno]

/-- The sockets go on as they are. -/
theorem send_sendResult (u : Instance) : (smcpOutboundSend u).1.sendResult = u.sendResult := by
  obtain ⟨tr, sent, did, responding, heq, -⟩ := send_eq u
  rw [heq]

theorem respondUnknown_sendResult (u : Instance) :
    (respondUnknown u).1.sendResult = u.sendResult := by
  unfold respondUnknown
  split_ifs
  · rw [send_sendResult]
    exact (sameSetup_beginResponse u 0).sendResult
  · rfl

theorem automaticReply_sendResult (packet : ℕ → UInt8) (u : Instance) (ret : ℤ) :
    (automaticReply packet u ret).1.sendResult = u.sendResult := by
  have hbegun (code : ℕ) :
      (smcpOutboundBeginResponse (smcpOutboundReset u) code).1.sendResult = u.sendResult :=
    (sameSetup_beginResponse (smcpOutboundReset u) code).sendResult
  unfold automaticReply
  by_cases hreply : u.didRespond = false ∧ headerTt packet = coapTransTypeConfirmable
  · rw [if_pos hreply]
    by_cases hrequest : coapCodeIsRequest (headerCode packet) = true
    · rw [if_pos hrequest]
      unfold replyToRequest
      dsimp only
      rw [send_sendResult]
      split_ifs <;> exact hbegun _
    · rw [if_neg hrequest]
      unfold replyToResult
      dsimp only
      rw [send_sendResult, (sameSetup_setToken _ []).sendResult]
      exact hbegun 0
  · rw [if_neg hreply]

/-- A response to a confirmable message answers it. -/
theorem Datagram.Responds.answers {d : Datagram} {i : Inbound} (h : d.Responds i)
    (htt : headerTt i.bytes = coapTransTypeConfirmable) : d.Answers i where
  dest := h.dest
  tt := by
    have hd := h.tt
    rw [htt, if_neg (by decide)] at hd
    exact hd
  msgId := h.msgId
  tokenLen := h.tokenLen
  token := h.token

/-- The message `i` is being processed, and nothing was sent in reply. -/
structure Fresh (i : Inbound) (u : Instance) : Prop where
  packet : u.inbound.packet = i.packet
  saddr : u.inbound.saddr = i.saddr
  isSome : i.packet.isSome
  family : i.saddr.family ≠ 0
  isProcessingMessage : u.isProcessingMessage = true
  didRespond : u.didRespond = false
  isResponding : u.isResponding = false
  takes : ∀ k, 0 < u.sendResult k

/-- The replies to `i` were sent behind what was sent before. -/
structure Replied (i : Inbound) (known : Bool) (u u' : Instance) : Prop where
  replies : ∃ ds, u'.sent = u.sent ++ ds ∧ MessageLayer i known ds
  sendResult : u'.sendResult = u.sendResult

section
variable {i : Inbound} {known : Bool}

/-- The message is the one that is processed. -/
theorem Fresh.bytes (h : Fresh i u) : u.inbound.bytes = i.bytes := by
  rw [Inbound.bytes, h.packet, Inbound.bytes]

/-- It is as fresh as before when nothing was sent. -/
theorem Fresh.reticent (h : Fresh i u) (h' : Reticent u u') : Fresh i u' where
  packet := h'.samePacket.packet.trans h.packet
  saddr := h'.samePacket.saddr.trans h.saddr
  isSome := h.isSome
  family := h.family
  isProcessingMessage := h'.isProcessingMessage.trans h.isProcessingMessage
  didRespond := h'.didRespond.trans h.didRespond
  isResponding := h'.isResponding.trans h.isResponding
  takes := by rw [h'.sendResult]; exact h.takes

/-- The automatic reply to a request. -/
theorem Fresh.replyToRequest (h : Fresh i u) (hkept : ¬i.Dropped)
    (hcode : coapCodeIsRequest (headerCode i.bytes) = true) (known : Bool) (ret : ℤ) :
    Replied i known u (automaticReply i.bytes u ret).1 := by
  by_cases htt : headerTt i.bytes = coapTransTypeConfirmable
  · have hsome : u.inbound.packet.isSome := by rw [h.packet]; exact h.isSome
    have hfamily : u.inbound.saddr.family ≠ 0 := by rw [h.saddr]; exact h.family
    obtain ⟨d, hd, hanswers, hdcode⟩ := replyToRequest_sent hsome h.isProcessingMessage
      (by rw [h.bytes]; exact htt) hfamily (headerCode i.bytes) ret
    have hresponse : coapResult100 ≤ headerCode d.memory := by
      rw [hdcode]
      exact (automaticResultCode_range _ _ _).1
    refine ⟨⟨[d], ?_, .answered hkept hcode htt (hanswers.congr h.packet h.saddr) hresponse⟩,
      automaticReply_sendResult _ _ _⟩
    unfold automaticReply
    rw [if_pos ⟨h.didRespond, htt⟩, if_pos hcode]
    exact hd
  · rw [automaticReply_none fun hno => htt hno.2]
    exact ⟨⟨[], (List.append_nil _).symm, .unanswered hkept hcode htt⟩, rfl⟩

/-- The automatic reply to another confirmable message. -/
theorem Fresh.replyToResult (h : Fresh i u) (htt : headerTt i.bytes = coapTransTypeConfirmable)
    (hcode : coapCodeIsRequest (headerCode i.bytes) = false) (ret : ℤ) :
    (automaticReply i.bytes u ret).1.sent = u.sent ++
      [⟨i.saddr, emptyMessage (if ret ≠ 0 ∧ u.inbound.isDupe = false then coapTransTypeReset
        else coapTransTypeAck) (headerMsgId i.bytes)⟩] := by
  have hsome : u.inbound.packet.isSome := by rw [h.packet]; exact h.isSome
  have hfamily : u.inbound.saddr.family ≠ 0 := by rw [h.saddr]; exact h.family
  have hsent := replyToResult_sent hsome h.isProcessingMessage hfamily h.takes ret
  rw [h.bytes, h.saddr] at hsent
  unfold automaticReply
  rw [if_pos ⟨h.didRespond, htt⟩, if_neg (by rw [hcode]; exact Bool.false_ne_true)]
  exact hsent

/-- The replies to a request: that of the handler, or the automatic one. -/
theorem Fresh.request (h : Fresh i u) (honce : RespondsAtMostOnce hooks) (hkept : ¬i.Dropped)
    (hcode : coapCodeIsRequest (headerCode i.bytes) = true) :
    Replied i known u (automaticReply i.bytes (smcpHandleRequest hooks u).1
      (smcpHandleRequest hooks u).2).1 := by
  have hserving : Serving u :=
    ⟨by rw [h.packet]; exact h.isSome, by rw [h.bytes]; exact hcode, by rw [h.saddr]; exact h.family,
      h.isProcessingMessage, h.didRespond, h.isResponding, h.takes⟩
  rcases handleRequest_reply honce hserving with hnothing | hone
  · obtain ⟨⟨ds, hds, hlayer⟩, hresult⟩ := (h.reticent hnothing).replyToRequest hkept hcode known
      (smcpHandleRequest hooks u).2
    exact ⟨⟨ds, by rw [hds, hnothing.sent], hlayer⟩, hresult.trans hnothing.sendResult⟩
  · obtain ⟨d, hd, hresponds⟩ := hone.sent
    have hresponds : d.Responds i := by
      obtain ⟨hdest, htt, hdcode, hid, hlen, htoken⟩ := hresponds
      rw [h.bytes] at htt hid hlen htoken
      exact ⟨hdest.trans h.saddr, htt, hdcode, hid, hlen, htoken⟩
    have hdone := hone.didRespond
    rw [automaticReply_none fun hno => Bool.false_ne_true (hno.1.symm.trans hdone)]
    refine ⟨⟨[d], hd, ?_⟩, hone.sendResult⟩
    by_cases htt : headerTt i.bytes = coapTransTypeConfirmable
    · exact .answered hkept hcode htt (hresponds.answers htt) hresponds.code
    · exact .responded hkept hcode htt hresponds

/-- A response, or an empty message. -/
theorem Fresh.result (h : Fresh i u) (hquiet : CallbacksQuiet hooks) (hkept : ¬i.Dropped)
    (hcode : coapCodeIsResult (headerCode i.bytes) = true) :
    Replied i u.responseHandler.isSome u (automaticReply i.bytes (smcpHandleResponse hooks u).1
      (smcpHandleResponse hooks u).2).1 := by
  -- the code is read once: the request's branch is closed for this message
  have hrequest : coapCodeIsRequest (headerCode i.bytes) = false := by
    simp only [coapCodeIsResult, coapCodeIsRequest, Bool.or_eq_true, decide_eq_true_eq,
      Bool.and_eq_false_iff, decide_eq_false_iff_not] at hcode ⊢
    omega
  -- without a handler the message is unknown, and a reset may answer it
  cases hfound : u.responseHandler with
  | none =>
    obtain ⟨v, hv, heq⟩ := handleResponse_none hooks u hfound
    have hfresh := h.reticent hv
    rw [heq]
    by_cases htt : headerTt i.bytes ≤ coapTransTypeNonconfirmable
    · have hsome : v.inbound.packet.isSome := by rw [hfresh.packet]; exact h.isSome
      have hfamily : v.inbound.saddr.family ≠ 0 := by rw [hfresh.saddr]; exact h.family
      obtain ⟨hsent, hdone⟩ := respondUnknown_sent hsome hfresh.isProcessingMessage
        hfresh.didRespond hfresh.isResponding hfamily hfresh.takes (by rw [hfresh.bytes]; exact htt)
      rw [hfresh.bytes, hfresh.saddr, hv.sent] at hsent
      rw [automaticReply_none fun hno => Bool.false_ne_true (hno.1.symm.trans hdone)]
      exact ⟨⟨_, hsent, .unknown hkept hcode rfl htt⟩,
        (respondUnknown_sendResult v).trans hv.sendResult⟩
    · have hlate : coapTransTypeAck ≤ headerTt i.bytes := Nat.not_le.1 htt
      have hnothing : respondUnknown v = (v, smcpStatusOk) := by
        unfold respondUnknown
        rw [hfresh.bytes, if_neg htt]
      have hother : headerTt i.bytes ≠ coapTransTypeConfirmable := by
        intro hcon
        rw [hcon] at hlate
        exact absurd hlate (by decide)
      rw [hnothing, automaticReply_none fun hno => hother hno.2]
      exact ⟨⟨[], by rw [hv.sent, List.append_nil], .silent hcode hother (.inl hlate)⟩,
        hv.sendResult⟩
  | some handler =>
    have hnothing := reticent_handleResponse hquiet u hfound
    by_cases htt : headerTt i.bytes = coapTransTypeConfirmable
    · have hsent := (h.reticent hnothing).replyToResult htt hrequest (smcpHandleResponse hooks u).2
      rw [hnothing.sent] at hsent
      refine ⟨⟨_, hsent, .known hkept hcode rfl htt ?_⟩,
        (automaticReply_sendResult _ _ _).trans hnothing.sendResult⟩
      split_ifs
      · exact .inr rfl
      · exact .inl rfl
    · rw [automaticReply_none fun hno => htt hno.2]
      exact ⟨⟨[], by rw [hnothing.sent, List.append_nil], .silent hcode htt (.inr rfl)⟩,
        hnothing.sendResult⟩

/-- Every code is that of a request or of a result. -/
theorem isResult_of_not_isRequest {code : ℕ} (h : coapCodeIsRequest code ≠ true) :
    coapCodeIsResult code = true := by
  unfold coapCodeIsRequest at h
  unfold coapCodeIsResult
  rw [Bool.or_eq_true, decide_eq_true_iff, decide_eq_true_iff]
  rw [Ne, Bool.and_eq_true, decide_eq_true_iff, decide_eq_true_iff] at h
  omega

/-- The end of `smcp_inbound_finish_packet`, with its automatic reply. -/
theorem Fresh.finish (h : Fresh i u) (hquiet : CallbacksQuiet hooks) (honce : RespondsAtMostOnce hooks)
    (hkept : ¬i.Dropped) :
    Replied i u.responseHandler.isSome u
      (automaticReply i.bytes (dispatchPacket hooks u).1 (dispatchPacket hooks u).2).1 := by
  unfold dispatchPacket
  rw [h.bytes]
  by_cases hrequest : coapCodeIsRequest (headerCode i.bytes) = true
  · rw [if_pos hrequest]
    exact h.request honce hkept hrequest
  · have hresult := isResult_of_not_isRequest hrequest
    rw [if_neg hrequest, if_pos hresult]
    exact h.result hquiet hkept hresult

end

section
variable {buffer : ℕ → UInt8} {n : ℕ} {source : SockAddr} {dest : Option SockAddr}

/-- Behind the options of an accepted packet nothing was sent yet. -/
theorem fresh_preparePacket (hfamily : source.family ≠ 0) (hresponding : s.isResponding = false)
    (htakes : ∀ k, 0 < s.sendResult k) :
    Fresh (s.arrived buffer n source dest).inbound
      (preparePacket (s.arrived buffer n source dest)) := by
  have hmark := preparePacket_samePacket (s := s.arrived buffer n source dest) rfl
  obtain ⟨i0, d0, l0, hprep⟩ := preparePacket_eq (s.arrived buffer n source dest)
  rw [hprep] at hmark ⊢
  exact ⟨hmark.packet, hmark.saddr, rfl, hfamily, rfl, rfl, hresponding, htakes⟩

/-- The transaction that waits for the message does not depend on what was read from it. -/
theorem responseHandler_congr (hpacket : u'.inbound.packet = u.inbound.packet)
    (hsaddr : u'.inbound.saddr = u.inbound.saddr) (hstore : u'.store = u.store)
    (htransaction : u'.transaction = u.transaction) : u'.responseHandler = u.responseHandler := by
  have hbytes : u'.inbound.bytes = u.inbound.bytes := by
    rw [Inbound.bytes, hpacket, Inbound.bytes]
  unfold Instance.responseHandler Inbound.lookup Inbound.fromPeer Inbound.responseToken
  rw [hbytes, hsaddr, hstore, htransaction]

/-- Requests, responses and what is dropped, from the packet as it comes. -/
theorem replied_processPacket (hquiet : CallbacksQuiet hooks) (honce : RespondsAtMostOnce hooks)
    (hv : coapVerifyPacket buffer n = true) (hfamily : source.family ≠ 0)
    (hresponding : s.isResponding = false) (htakes : ∀ k, 0 < s.sendResult k) :
    Replied (s.arrived buffer n source dest).inbound
      (s.arrived buffer n source dest).responseHandler.isSome s
      (processPacket hooks s buffer n source dest).1 := by
  rw [processPacket_eq hooks hv]
  -- `a` is the state with the message in it, and nothing done about it yet
  set a := s.arrived buffer n source dest with ha
  have hsent : a.sent = s.sent := rfl
  have hprocessing : a.isProcessingMessage = true := rfl
  have hfresh : Fresh a.inbound (preparePacket a) := fresh_preparePacket hfamily hresponding htakes
  have hprepared : (preparePacket a).sent = a.sent ∧ (preparePacket a).sendResult = a.sendResult ∧
      (preparePacket a).responseHandler = a.responseHandler := by
    obtain ⟨i0, d0, l0, hprep⟩ := preparePacket_eq a
    have hpacket := hfresh.packet
    have hsaddr := hfresh.saddr
    rw [hprep] at hpacket hsaddr ⊢
    exact ⟨rfl, rfl, responseHandler_congr hpacket hsaddr rfl rfl⟩
  have hresult : a.sendResult = s.sendResult := rfl
  clear_value a
  unfold smcpInboundFinishPacket
  -- no message is under way, so this one is not dropped
  rw [if_neg (by rw [hprocessing]; exact Bool.noConfusion)]
  by_cases hdropped : a.inbound.wasSentToMulticast = true ∧
      headerTt a.inbound.bytes = coapTransTypeConfirmable
  · rw [if_pos hdropped]
    refine ⟨⟨[], ?_, .dropped hdropped⟩, hresult⟩
    rw [List.append_nil]
    exact hsent
  · rw [if_neg hdropped]
    obtain ⟨⟨ds, hds, hlayer⟩, hkept⟩ := hfresh.finish hquiet honce hdropped
    rw [hprepared.2.2] at hlayer
    rw [hprepared.1, hsent] at hds
    rw [hprepared.2.1, hresult] at hkept
    dsimp only
    rw [preparePacket_bytes a]
    exact ⟨⟨ds, hds, hlayer⟩, hkept⟩

/-- The replies to every packet that is accepted. -/
theorem processPacket_messageLayer (hquiet : CallbacksQuiet hooks) (honce : RespondsAtMostOnce hooks)
    (hv : coapVerifyPacket buffer n = true) (hfamily : source.family ≠ 0)
    (hresponding : s.isResponding = false) (htakes : ∀ k, 0 < s.sendResult k) :
    ∃ ds, (processPacket hooks s buffer n source dest).1.sent = s.sent ++ ds ∧
      MessageLayer (s.arrived buffer n source dest).inbound
        (s.arrived buffer n source dest).responseHandler.isSome ds :=
  (replied_processPacket hquiet honce hv hfamily hresponding htakes).replies

end

end

/-! ## A server that answers -/

/-- The request handlers answer confirmable requests with the code and the body. -/
def answeringHooks (code : ℕ) (body : List UInt8) : Hooks
  | .request _, s =>
    if headerTt s.inbound.bytes = coapTransTypeConfirmable then
      smcpOutboundQuickResponse s code (some body)
    else (s, smcpStatusOk)
  | _, s => (s, smcpStatusOk)

/-- Only the request handlers do anything. -/
theorem callbacksQuiet_answeringHooks (code : ℕ) (body : List UInt8) :
    CallbacksQuiet (answeringHooks code body) := by
  intro c u hc
  cases c with
  | request k => exact absurd rfl (hc k)
  | response callback statuscode => exact .refl u
  | resend callback => exact .refl u
  | timer callback => exact .refl u
  | timerCancel callback => exact .refl u

/-- A confirmable request is answered once, and any other not at all. -/
theorem respondsAtMostOnce_answeringHooks {code : ℕ} (hcode : coapResult100 ≤ code) (hlt : code < 256)
    (body : List UInt8) : RespondsAtMostOnce (answeringHooks code body) := by
  intro k u hu
  by_cases htt : headerTt u.inbound.bytes = coapTransTypeConfirmable
  · right
    show Responded u (if headerTt u.inbound.bytes = coapTransTypeConfirmable then
      smcpOutboundQuickResponse u code (some body) else (u, smcpStatusOk)).1
    rw [if_pos htt]
    have hconfirmable : u.inbound.Confirmable := ⟨hu.packet, htt, hu.family⟩
    have hnothing : Answered True u.inbound u.sent 0 u :=
      ⟨⟨rfl, rfl, rfl, rfl, rfl⟩, hu.isProcessingMessage, ⟨[], (List.append_nil _).symm, rfl, nofun⟩,
        fun hdid => absurd (hdid.symm.trans hu.didRespond) (by decide), fun _ => hu.takes,
        fun _ _ => rfl⟩
    obtain ⟨-, hbegun⟩ := hnothing.beginResponse hconfirmable hu.didRespond hu.isResponding hcode
    have hcode' := (beginResponse_code (s := u) code hu.didRespond hu.isResponding).1
    have hsetup := sameSetup_beginResponse u code
    unfold smcpOutboundQuickResponse
    dsimp only
    generalize (smcpOutboundBeginResponse u code).1 = v at hbegun hcode' hsetup ⊢
    -- the body is behind the options, if there is room for it
    obtain ⟨hreply, hsame⟩ : Replying u.inbound (smcpOutboundAppendContent v body).1.outbound ∧
        (smcpOutboundAppendContent v body).1.outbound.header.code = v.outbound.header.code := by
      obtain ⟨hreply, -, hsame⟩ := hbegun.replying.getContentPtr hbegun.contentLen_eq v.autoOptions
      unfold smcpOutboundAppendContent outboundAppendContent
      dsimp only
      split_ifs
      · exact ⟨hreply.write _ (Nat.le_add_right _ _) _, hsame⟩
      · exact ⟨hbegun.replying, rfl⟩
    have hmoved := hbegun.answered.move ⟨rfl, rfl, rfl, rfl, rfl⟩
      (smcpOutboundAppendContent v body).1.outbound
    obtain ⟨d, hd, hanswers, hdcode⟩ := hreply.send hu.family
    obtain ⟨hone, -, -⟩ := hmoved.send hconfirmable hreply hbegun.due
    rw [hsame, hcode', Nat.mod_eq_of_lt hlt, Nat.mod_eq_of_lt hlt] at hdcode
    refine ⟨hone.samePacket, ⟨d, ?_, ?_⟩, ?_, ?_⟩
    · rw [hd]
      show v.sent ++ [d] = _
      rw [hsetup.sent]
    · refine ⟨hanswers.dest, ?_, by rw [hdcode]; exact hcode, hanswers.msgId, hanswers.tokenLen,
        hanswers.token⟩
      rw [htt, if_neg (by decide)]
      exact hanswers.tt
    · rw [send_sendResult]
      exact hsetup.sendResult
    · by_contra hno
      exact absurd (hone.unanswered trivial (Bool.eq_false_iff.2 hno)) (by decide)
  · left
    show Reticent u (if headerTt u.inbound.bytes = coapTransTypeConfirmable then
      smcpOutboundQuickResponse u code (some body) else (u, smcpStatusOk)).1
    rw [if_neg htt]
    exact .refl u

/-- A GET, answered with two bytes. -/
theorem processPacket_messageLayer_answered :
    let s := servingRun
    ∃ ds, (processPacket (answeringHooks (httpToCoapCode 205) [0x68, 0x69]) s plainGet 4 localPeer
        none).1.sent = s.sent ++ ds ∧
      MessageLayer (s.arrived plainGet 4 localPeer none).inbound
        (s.arrived plainGet 4 localPeer none).responseHandler.isSome ds :=
  processPacket_messageLayer (callbacksQuiet_answeringHooks _ _)
    (respondsAtMostOnce_answeringHooks (by decide) (by decide) _) (by decide) (by decide) rfl
    fun _ => Int.one_pos

end Smcp
