import Smcp.Application

/-!
# The numbers of the observers

What decides the value of the Observe option: the observer table and the observables, how often
each observer was triggered and registered, and the flags of their transactions.

* `Numbers.Step`: what can happen to them;
* messages and transactions leave them alone, apart from a transaction that begins and one that
  goes on with a new id, which is what `smcp_observable_trigger` brings about.
-/

namespace Smcp

/-! ## The machine -/

/-- `smcp_observable_trigger` came to this observer, and its transaction began or got a new id. -/
def Event.triggered : Event → Option ℕ
  | .began (.observer i) _ _ => some i
  | .drew (.renewing (.observer i)) _ _ _ _ => some i
  | _ => none

/-- How often the observer was triggered. -/
def triggersOf (i : ℕ) (events : List Event) : ℕ := events.countP fun e => e.triggered = some i

def ObserverEvent.registers (i : ℕ) : ObserverEvent → Bool
  | .registered _ j _ => j = i
  | _ => false

/-- How often an observer was entered in this place of the table. -/
def registrationsOf (i : ℕ) (events : List ObserverEvent) : ℕ := events.countP (·.registers i)

structure Numbers where
  table : ℕ → Observer
  observables : ℕ → Observable
  flags : ℕ → ℕ
  triggers : ℕ → ℕ
  registrations : ℕ → ℕ

def Instance.numbers (s : Instance) : Numbers where
  table := s.observerTable
  observables := s.observables
  flags i := (s.transaction (.observer i)).flags
  triggers i := triggersOf i s.events
  registrations i := registrationsOf i s.observerEvents

namespace Numbers

/-- The entry of the table is triggered. -/
def trigger (n : Numbers) (i : ℕ) : Numbers :=
  { n with triggers := Function.update n.triggers i (n.triggers i + 1) }

/-- It gets the next number. -/
def count (n : Numbers) (i : ℕ) : Numbers :=
  { n with
    table := Function.update n.table i
      { n.table i with seq := ((n.table i).seq + 1) % 4294967296 } }

/-- Its transaction is initialised. -/
def clear (n : Numbers) (i : ℕ) : Numbers := { n with flags := Function.update n.flags i 0 }

/-- What can happen. -/
inductive Step : Numbers → Numbers → Prop
  | link (n : Numbers) (table : ℕ → Observer) (observables : ℕ → Observable)
      (hseq : ∀ j, (table j).seq = (n.table j).seq) :
      Step n { n with table := table, observables := observables }
  | register (n : Numbers) (i : ℕ) (table : ℕ → Observer) (observables : ℕ → Observable)
      (hseq : ∀ j, (table j).seq = if j = i then 0 else (n.table j).seq) :
      Step n
        { n with
          table := table, observables := observables
          registrations := Function.update n.registrations i (n.registrations i + 1) }
  | notify (n : Numbers) (i : ℕ) : Step n ((n.count i).trigger i)
  | clear (n : Numbers) (i : ℕ) : Step n (n.clear i)

end Numbers

/-! ## Histories -/

section
variable {s s' : Instance} {e : Event}

/-- The history of the numbers is that of the observers, and the rest is the rest. -/
theorem numbers_eq (htable : s'.observerTable = s.observerTable)
    (hobservables : s'.observables = s.observables)
    (hflags : ∀ i, (s'.transaction (.observer i)).flags = (s.transaction (.observer i)).flags)
    (htriggers : ∀ i, triggersOf i s'.events = triggersOf i s.events)
    (hregistrations : s'.observerEvents = s.observerEvents) : s'.numbers = s.numbers := by
  unfold Instance.numbers
  rw [htable, hobservables, funext hflags, funext htriggers, hregistrations]

/-- The triggers are counted event by event. -/
theorem triggersOf_cons (i : ℕ) (events : List Event) :
    triggersOf i (e :: events) = triggersOf i events + if e.triggered = some i then 1 else 0 := by
  unfold triggersOf
  rw [List.countP_cons]
  simp only [decide_eq_true_eq]

/-- Other events do not count. -/
theorem numbers_log (s : Instance) (he : e.triggered = none) : (s.log e).numbers = s.numbers := by
  refine numbers_eq rfl rfl (fun _ => rfl) ?_ rfl
  intro i
  show triggersOf i (e :: s.events) = _
  rw [triggersOf_cons, he, if_neg nofun, add_zero]

/-- A trigger is counted for its observer. -/
theorem numbers_log_triggered (s : Instance) {i : ℕ} (he : e.triggered = some i) :
    (s.log e).numbers = s.numbers.trigger i := by
  have htriggers : (fun j => triggersOf j (s.log e).events) =
      Function.update (fun j => triggersOf j s.events) i (triggersOf i s.events + 1) := by
    funext j
    show triggersOf j (e :: s.events) = _
    rw [triggersOf_cons, he]
    by_cases hj : j = i
    · rw [hj, Function.update_self, if_pos rfl]
    · rw [Function.update_of_ne hj, if_neg fun heq => hj (Option.some.inj heq).symm, add_zero]
  unfold Instance.numbers Numbers.trigger
  rw [htriggers]
  rfl

/-- The flags of a transaction are all that counts of it. -/
theorem numbers_setTransaction (s : Instance) (h : TransactionPtr) {f : Transaction → Transaction}
    (hf : ∀ t, (f t).flags = t.flags) : (s.setTransaction h f).numbers = s.numbers := by
  refine numbers_eq rfl rfl ?_ (fun _ => rfl) rfl
  intro i
  unfold Instance.setTransaction
  dsimp only
  by_cases hi : TransactionPtr.observer i = h
  · rw [← hi, Function.update_self, hf]
  · rw [Function.update_of_ne hi]

end

/-! ## Messages -/

section
variable (s : Instance)

/-- A token that is set counts nothing. -/
theorem numbers_setToken (token : List UInt8) :
    (smcpOutboundSetToken s token).1.numbers = s.numbers := by
  unfold smcpOutboundSetToken
  split_ifs
  · rfl
  · rfl

/-- Nor does a destination. -/
theorem numbers_setDestaddr (sockaddr : SockAddr) :
    (smcpOutboundSetDestaddr s sockaddr).numbers = s.numbers := by
  unfold smcpOutboundSetDestaddr
  dsimp only
  split
  · apply numbers_setTransaction
    exact fun _ => rfl
  · rfl

/-- Beginning a response counts nothing for the observers. -/
theorem numbers_beginResponse (code : ℕ) :
    (smcpOutboundBeginResponse s code).1.numbers = s.numbers := by
  have hstart : (startResponse s code).numbers = s.numbers := by
    unfold startResponse
    split_ifs
    · rfl
    · rfl
  unfold smcpOutboundBeginResponse
  split_ifs
  · rfl
  · rfl
  · apply (numbers_setDestaddr _ _).trans
    exact hstart
  · exact hstart

/-- A send counts nothing: a notification is counted when it is triggered. -/
theorem numbers_send : (smcpOutboundSend s).1.numbers = s.numbers := by
  have hnote : (noteSentCode s).numbers = s.numbers := by
    unfold noteSentCode
    split
    · apply numbers_setTransaction
      exact fun _ => rfl
    · rfl
  have hhook : (smcpOutboundSendHook (noteSentCode s)).1.numbers = s.numbers := by
    rw [← hnote]
    unfold smcpOutboundSendHook
    dsimp only
    split_ifs
    all_goals rfl
  unfold smcpOutboundSend
  dsimp only
  split_ifs
  · exact hhook
  · exact hhook

/-- A response in one call counts nothing. -/
theorem numbers_quickResponse (code : ℕ) (body : Option (List UInt8)) :
    (smcpOutboundQuickResponse s code body).1.numbers = s.numbers := by
  have hbegin := numbers_beginResponse s code
  unfold smcpOutboundQuickResponse
  dsimp only
  split
  · exact (numbers_send _).trans hbegin
  · exact (numbers_send _).trans hbegin

/-- A request is copied to be answered later. -/
theorem numbers_startAsyncResponse (x : AsyncResponse) (dontAck : Bool) :
    (smcpStartAsyncResponse s x dontAck).state.numbers = s.numbers := by
  have hbegin := numbers_beginResponse s coapCodeEmpty
  have hsend := (numbers_send (smcpOutboundBeginResponse s coapCodeEmpty).1).trans hbegin
  unfold smcpStartAsyncResponse
  dsimp only
  split_ifs
  · exact numbers_quickResponse s _ _
  · rfl
  · exact hbegin
  · exact hsend
  · exact hsend
  · exact hsend
  · rfl
  · rfl

/-- The copy is taken back. -/
theorem numbers_beginAsyncResponse (code : ℕ) (x : AsyncResponse) :
    (smcpOutboundBeginAsyncResponse s code x).1.numbers = s.numbers := by
  unfold smcpOutboundBeginAsyncResponse
  dsimp only
  set s1 : Instance := { s with inbound := _, isProcessingMessage := true, didRespond := false }
    with hs1
  have hbegin : (smcpOutboundBeginResponse s1 code).1.numbers = s.numbers :=
    numbers_beginResponse s1 code
  split
  · exact hbegin
  · have htoken (msgId tt : ℕ) (token : List UInt8) : (smcpOutboundSetToken (smcpOutboundSetTt
        (smcpOutboundSetMsgId (smcpOutboundBeginResponse s1 code).1 msgId) tt)
          token).1.numbers = s.numbers := by
      rw [numbers_setToken]
      exact hbegin
    split_ifs
    · exact htoken _ _ _
    · exact (numbers_setDestaddr _ _).trans (htoken _ _ _)

theorem numbers_setCode (code : ℕ) : (smcpOutboundSetCode s code).numbers = s.numbers := by
  unfold smcpOutboundSetCode
  split_ifs
  · rfl
  · rfl

theorem numbers_outboundCall (call : OutboundCall) : (call.exec s).1.numbers = s.numbers := by
  cases call with
  | beginResponse code => exact numbers_beginResponse s code
  | setCode code => exact numbers_setCode s code
  | setToken token => exact numbers_setToken s token
  | setDestaddr sockaddr => exact numbers_setDestaddr s sockaddr
  | send => exact numbers_send s
  | quickResponse code body => exact numbers_quickResponse s code body
  | _ => rfl

theorem numbers_authInboundInit : (smcpAuthInboundInit s).numbers = s.numbers := by
  unfold smcpAuthInboundInit
  split_ifs
  · rfl
  · rfl

/-- Reading the options of a request counts nothing. -/
theorem numbers_vhostRoute (func : Option ℕ) : (smcpVhostRoute s func).1.numbers = s.numbers := by
  unfold smcpVhostRoute
  dsimp only
  split_ifs
  · rfl
  · rfl
  · split
    · rfl
    · rfl

/-- An arriving packet counts nothing. -/
theorem numbers_startPacket (buffer : ℕ → UInt8) (n : ℕ) :
    (smcpInboundStartPacket s buffer n).1.numbers = s.numbers := by
  unfold smcpInboundStartPacket
  split_ifs
  · rfl
  · rfl

/-- Nor does its source. -/
theorem numbers_setSrcaddr (sockaddr : SockAddr) :
    (smcpInboundSetSrcaddr s sockaddr).1.numbers = s.numbers := by
  unfold smcpInboundSetSrcaddr
  split_ifs
  · rfl
  · rfl

/-- Nor does its destination. -/
theorem numbers_inboundSetDestaddr (sockaddr : SockAddr) :
    (smcpInboundSetDestaddr s sockaddr).1.numbers = s.numbers := by
  unfold smcpInboundSetDestaddr
  split_ifs
  · rfl
  · rfl

/-- Reading its options counts nothing. -/
theorem numbers_preparePacket : (preparePacket s).numbers = s.numbers := by
  unfold preparePacket smcpInboundDupeCheck
  dsimp only
  split_ifs
  all_goals rfl

/-- The automatic reply counts nothing. -/
theorem numbers_automaticReply (packet : ℕ → UInt8) (ret : ℤ) :
    (automaticReply packet s ret).1.numbers = s.numbers := by
  have hbegin (code : ℕ) :
      (smcpOutboundBeginResponse (smcpOutboundReset s) code).1.numbers = s.numbers :=
    numbers_beginResponse (smcpOutboundReset s) code
  unfold automaticReply
  split_ifs
  · unfold replyToRequest
    rw [numbers_send]
    split_ifs
    · exact hbegin _
    · exact hbegin _
    · exact hbegin _
  · unfold replyToResult
    rw [numbers_send, numbers_setToken]
    exact hbegin _
  · rfl

/-! ## Timers and message ids -/

/-- A timer that is scheduled counts nothing. -/
theorem numbers_scheduleTimer (timer : TimerPtr) (cms : ℤ) :
    (smcpScheduleTimer s timer cms).1.numbers = s.numbers := by
  unfold smcpScheduleTimer
  split
  · rfl
  · dsimp only
    split
    · rfl
    · rfl

/-- A random delay counts nothing. -/
theorem numbers_delayStart (flags range : ℕ) :
    (delayStart s flags range).1.numbers = s.numbers := by
  unfold delayStart
  split_ifs
  · rfl
  · rfl

/-- Nor does the time of the next attempt. -/
theorem numbers_minRetransmitTimeout (cms : ℤ) (retries : ℕ) :
    (minRetransmitTimeout s cms retries).1.numbers = s.numbers := by
  rw [minRetransmitTimeout_eq]
  generalize retransmitTimeout retries = timeout
  by_cases hlt : cms < timeout s.randomUint32.2
  · rw [if_pos hlt]
    rfl
  · rw [if_neg hlt]
    rfl

/-- An id that is drawn for something else than an observer. -/
theorem numbers_getNextMsgId {purpose : DrawPurpose}
    (hother : ∀ i, purpose ≠ .renewing (.observer i)) :
    (smcpGetNextMsgId s purpose).1.numbers = s.numbers := by
  have hseeded : (if s.lastMsgId = 0 then
      ({ s.randomUint32.1 with lastMsgId := s.randomUint32.2 % 65536 } : Instance)
      else s).numbers = s.numbers := by
    split_ifs
    · rfl
    · rfl
  unfold smcpGetNextMsgId
  dsimp only
  rw [numbers_log]
  · exact hseeded
  · unfold Event.triggered
    split
    · next heq => cases heq
    · next heq => cases heq; exact absurd rfl (hother _)
    · rfl

/-- An id that is drawn to trigger an observer counts. -/
theorem numbers_getNextMsgId_renewing (i : ℕ) :
    (smcpGetNextMsgId s (.renewing (.observer i))).1.numbers = s.numbers.trigger i := by
  have hseeded : (if s.lastMsgId = 0 then
      ({ s.randomUint32.1 with lastMsgId := s.randomUint32.2 % 65536 } : Instance)
      else s).numbers = s.numbers := by
    split_ifs
    · rfl
    · rfl
  unfold smcpGetNextMsgId
  dsimp only
  rw [numbers_log_triggered _ rfl, ← hseeded]
  rfl

end

/-! ## Transactions -/

section
variable {K : Numbers → Prop} {hooks : Hooks} {s : Instance}

variable (hhooks : ∀ c u, K u.numbers → K (hooks c u).1.numbers)
include hhooks

/-- The cancel callback keeps the property, as every hook does. -/
theorem number_invalidateTimer (timer : TimerPtr) (hs : K s.numbers) :
    K (smcpInvalidateTimer hooks s timer).numbers := by
  unfold smcpInvalidateTimer
  dsimp only
  split
  · apply hhooks
    exact hs
  · exact hs

/-- So does the callback of a transaction that is deleted. -/
theorem number_delete (h : TransactionPtr) (hs : K s.numbers) :
    K (smcpInternalDeleteTransaction_ hooks s h).numbers := by
  have htimer := number_invalidateTimer hhooks (.ofTransaction h) hs
  unfold smcpInternalDeleteTransaction_
  dsimp only
  generalize smcpInvalidateTimer hooks s (.ofTransaction h) = v at htimer ⊢
  set w := ({ v with store := v.store.setActive h false } : Instance).log
    (.deleted h (v.transaction h).callback.isSome) with hw
  have hlogged : K w.numbers := by
    rw [hw, numbers_log _ rfl]
    exact htimer
  have hfinal (x : Instance) (hx : K x.numbers) :
      K (if (x.transaction h).shouldDealloc then x.log (.freed h) else x).numbers := by
    split_ifs
    · rw [numbers_log _ rfl]
      exact hx
    · exact hx
  apply hfinal
  split
  · exact hhooks _ _ hlogged
  · exact hlogged

/-- Both of them are called at the end of a transaction. -/
theorem number_end (h : TransactionPtr) (hs : K s.numbers) :
    K (smcpTransactionEnd hooks s h).numbers := by
  have hcurrent : K (if s.currentTransaction = some h then
      ({ s with currentTransaction := none } : Instance) else s).numbers := by
    split_ifs
    · exact hs
    · exact hs
  unfold smcpTransactionEnd deleteFound
  dsimp only
  generalize (if s.currentTransaction = some h then
    ({ s with currentTransaction := none } : Instance) else s) = v at hcurrent ⊢
  split_ifs
  · split
    · apply number_delete hhooks
      rw [numbers_log _ rfl]
      exact hcurrent
    · rw [numbers_log _ rfl]
      exact hcurrent
  · exact hcurrent

/-- The transaction that is pushed out is deleted. -/
theorem number_insert (h : TransactionPtr) (hs : K s.numbers) :
    K (insertTransaction hooks s h).numbers := by
  unfold insertTransaction
  dsimp only
  split
  · apply number_delete hhooks
    rw [numbers_log _ rfl]
    exact hs
  · exact hs

/-- It is so under a new id. -/
theorem number_newMsgId (h : TransactionPtr) (msgId : ℕ) (hs : K s.numbers) :
    K (smcpTransactionNewMsgId hooks s h msgId).numbers := by
  unfold smcpTransactionNewMsgId
  split_ifs
  · apply number_insert hhooks
    exact hs
  · exact hs

/-- The timer is set again, without its cancel callback. -/
theorem number_tickle (h : TransactionPtr) (hs : K s.numbers) :
    K (smcpTransactionTickle hooks s h).numbers := by
  unfold smcpTransactionTickle
  rw [numbers_scheduleTimer]
  exact number_invalidateTimer hhooks _ hs

omit hhooks in
/-- Dates are set. -/
theorem numbers_beginTimer (s : Instance) (h : TransactionPtr) (expiration : ℤ) :
    (beginTimer s h expiration).numbers = s.numbers := by
  have hset (cms : ℤ) : (s.setTransaction h fun t =>
      { t with
        waitingForAsyncResponse := false, attemptCount := 0, lastObserve := 0, nextBlock2 := 0
        expiration := convertCmsToTimeval s.now cms }).numbers = s.numbers := by
    apply numbers_setTransaction
    exact fun _ => rfl
  have hinit (u : Instance) (timer : TimerPtr) (callback : TimerFunc) (cancel : Option ℕ) :
      (smcpTimerInit u timer callback cancel).numbers = u.numbers := rfl
  unfold beginTimer
  dsimp only
  generalize (if expiration < 0 then coapExchangeLifetime else expiration) = cms
  rw [numbers_scheduleTimer, hinit]
  split_ifs
  · rw [numbers_delayStart]
    exact hset cms
  · exact hset cms

omit hhooks in
/-- The begin of a transaction is noted. -/
theorem numbers_beginIdentity (s : Instance) (h : TransactionPtr) :
    (beginIdentity s h).numbers =
      ((s.log (.began h (s.store.active h) (s.transaction h))).log (.begun h s.store)).numbers := by
  have hdrawn (u : Instance) : (smcpGetNextMsgId u (.beginning h)).1.numbers = u.numbers := by
    apply numbers_getNextMsgId
    exact fun _ heq => nomatch heq
  unfold beginIdentity
  exact hdrawn _

/-- A transaction that is not an observer's begins. -/
theorem number_begin (h : TransactionPtr) (expiration : ℤ) (hother : ∀ i, h ≠ .observer i)
    (hs : K s.numbers) : K (smcpTransactionBegin hooks s h expiration).numbers := by
  unfold smcpTransactionBegin
  apply number_insert hhooks
  rw [numbers_beginTimer, numbers_beginIdentity, numbers_log _ rfl, numbers_log]
  · exact hs
  · unfold Event.triggered
    split
    · next heq => cases heq; exact absurd rfl (hother _)
    · next heq => cases heq
    · rfl

/-- The transaction of an observer begins. -/
theorem number_begin_observer (i : ℕ) (expiration : ℤ) (hs : K (s.numbers.trigger i)) :
    K (smcpTransactionBegin hooks s (.observer i) expiration).numbers := by
  unfold smcpTransactionBegin
  apply number_insert hhooks
  rw [numbers_beginTimer, numbers_beginIdentity, numbers_log _ rfl, numbers_log_triggered _ rfl]
  exact hs

end

end Smcp
