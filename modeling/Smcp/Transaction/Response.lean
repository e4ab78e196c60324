import Smcp.Observable

/-!
# Timeouts and responses

`smcp_internal_transaction_timeout_`, `smcp_handle_timers` and `smcp_handle_response`.
-/

namespace Smcp

open ByteMemory

section
variable (hooks : Hooks)

/-- Call a response callback. -/
def callResponse (s : Instance) (callback : ResponseFunc) (statuscode : ℤ) : Instance × ℤ :=
  match callback with
  | .user callback => hooks (.response callback statuscode) s
  | .eventResponseHandler i => eventResponseHandler hooks s statuscode i

/-- Call a resend callback. -/
def callResend (s : Instance) (callback : ResendFunc) : Instance × ℤ :=
  match callback with
  | .user callback => hooks (.resend callback) s
  | .retrySendingEvent i => retrySendingEvent hooks s i

/-! ## Timeouts -/

/-- `calc_retransmit_timeout` for the given random number, in 32-bit arithmetic. -/
def retransmitTimeout (retries random : ℕ) : ℤ :=
  let ret := int32 ((1500 * 2 ^ retries : ℕ) * (512 + random % 256 : ℕ))
  let ret := ret.tdiv 512
  if ret > 14000 then 14000 else ret

/-- `calc_retransmit_timeout`. -/
def calcRetransmitTimeout (s : Instance) (retries : ℕ) : Instance × ℤ :=
  let r := s.randomUint32
  (r.1, retransmitTimeout retries r.2)

/-- `MIN(cms, calc_retransmit_timeout(retries))`. The macro computes the timeout again to take its
value. -/
def minRetransmitTimeout (s : Instance) (cms : ℤ) (retries : ℕ) : Instance × ℤ :=
  let first := calcRetransmitTimeout s retries
  if cms < first.2 then (first.1, cms) else calcRetransmitTimeout first.1 retries

def smcpTransactionMaxAttempts : ℕ := 15

/-- What a step of the timeout handler decides: the status and the time until the next one. -/
structure TimeoutStep where
  state : Instance
  status : ℤ
  cms : ℤ

/-- The resend attempt. -/
def timeoutResend (s : Instance) (h : TransactionPtr) (resend : ResendFunc) (cms : ℤ) :
    TimeoutStep :=
  let t := s.transaction h
  let r := callResend hooks
    { s.log (.resent h t s.now) with
      outbound.nextTid := s.store.msgId h
      isProcessingMessage := false
      isResponding := false
      didRespond := false } resend
  let u := r.1.log (.resendReturned h r.2)
  if r.2 = smcpStatusOk then
    let attemptCount := (u.transaction h).attemptCount
    let timeout := minRetransmitTimeout u cms attemptCount
    let u' := timeout.1.setTransaction h fun t =>
      if t.attemptCount ≠ smcpTransactionMaxAttempts then
        { t with attemptCount := t.attemptCount + 1 }
      else t
    ⟨u'.log (.backedOff h t s.now attemptCount u.randomUint32.2 u.randomUint32.1.randomUint32.2
      timeout.2), smcpStatusOk, timeout.2⟩
  else if r.2 = smcpStatusWaitForDns then ⟨u, smcpStatusOk, 100⟩
  else ⟨u, r.2, cms⟩

/-- The branch for a transaction with time left, or without an attempt yet. -/
def timeoutAttempt (s : Instance) (h : TransactionPtr) (cms : ℤ) : Instance × ℤ :=
  let t := s.transaction h
  let cms := keepaliveCap t.flags cms
  let cms := if cms ≤ 0 then 0 else cms
  let status := if t.attemptCount = 0 ∧ t.waitingForAsyncResponse ∧
      hasFlag t.flags smcpTransactionKeepalive = false then smcpStatusOk else smcpStatusTimeout
  let step : TimeoutStep :=
    match t.resendCallback with
    | some resend =>
      if status = smcpStatusTimeout then timeoutResend hooks s h resend cms
      else ⟨(s.log (.passed h)).setTransaction h fun t =>
        { t with attemptCount := if t.attemptCount = 0 then 1 else t.attemptCount }, status, cms⟩
    | none => ⟨(s.log (.passed h)).setTransaction h fun t =>
        { t with attemptCount := if t.attemptCount = 0 then 1 else t.attemptCount }, status, cms⟩
  ((smcpScheduleTimer step.state (.ofTransaction h) step.cms).1, step.status)

/-- The branch for an observing transaction that has expired: it starts over. -/
def timeoutRestart (s : Instance) (h : TransactionPtr) (cms : ℤ) : Instance × ℤ :=
  let s := (s.log (.restarted h)).setTransaction h fun t =>
    { t with
      waitingForAsyncResponse := false, attemptCount := 0, lastObserve := 0, nextBlock2 := 0 }
  let drawn := smcpGetNextMsgId s (.renewing h)
  let s := smcpTransactionNewMsgId hooks drawn.1 h drawn.2
  let s := s.setTransaction h fun t =>
    { t with expiration := convertCmsToTimeval s.now smcpObservationDefaultMaxAge }
  let t := s.transaction h
  let delay := if t.resendCallback.isSome then delayStart s t.flags 290 else (s, cms)
  smcpScheduleTimer delay.1 (.ofTransaction h) (keepaliveCap t.flags delay.2)

/-- What happens when the timeout handler has a status to report. -/
def timeoutReport (s : Instance) (h : TransactionPtr) (status : ℤ) : Instance :=
  let t := s.transaction h
  let s := if hasFlag t.flags smcpTransactionAlwaysInvalidate = false ∧
      hasFlag t.flags smcpTransactionNoAutoEnd = false then
      s.setTransaction h fun t => { t with callback := none }
    else s
  let s := match t.callback with
    | some callback => (callResponse hooks (s.log (.called h status)) callback status).1
    | none => s
  if s.currentTransaction ≠ some h then s
  else
    let s := if hasFlag (s.transaction h).flags smcpTransactionNoAutoEnd then s
      else smcpTransactionEnd hooks s h
    { s with currentTransaction := none }

/-- `smcp_internal_transaction_timeout_`. -/
def smcpInternalTransactionTimeout_ (s : Instance) (h : TransactionPtr) : Instance :=
  let t := s.transaction h
  let cms := convertTimevalToCms s.now t.expiration
  let s := { s.log (.timedOut h t s.now) with currentTransaction := some h }
  let r :=
    if cms > 0 ∨ t.attemptCount = 0 then timeoutAttempt hooks s h cms
    else if hasFlag t.flags smcpTransactionObserve then timeoutRestart hooks s h cms
    else (s, smcpStatusTimeout)
  if r.2 ≠ smcpStatusOk then timeoutReport hooks r.1 h r.2
  else { r.1 with currentTransaction := none }

/-- `smcp_handle_timers`. -/
def smcpHandleTimers (s : Instance) : Instance :=
  match s.timers.head with
  | none => s
  | some timer =>
    if convertTimevalToCms s.now (s.timers.timer timer).fireDate ≤ 0 then
      let callback := (s.timers.timer timer).callback
      let s := s.logTimer (.fired timer (s.timers.timer timer).fireDate s.now)
      let s := { s with timers := s.timers.modify timer fun t => { t with cancel := none } }
      let s := smcpInvalidateTimer hooks s timer
      match callback with
      | some (.transactionTimeout h) => smcpInternalTransactionTimeout_ hooks s h
      | some (.user callback) => (hooks (.timer callback) s).1
      | none => s
    else s

/-! ## Responses -/

/-- The token of the message, as `smcp_handle_response` takes it: 0 unless it has two bytes. -/
def Inbound.responseToken (i : Inbound) : ℕ :=
  if headerTokenLen i.bytes = 2 then (i.bytes 4).toNat + (i.bytes 5).toNat * 256 else 0

/-- The two lookups of `smcp_handle_response`. -/
def Inbound.lookup (i : Inbound) (st : TransactionStore) : Option TransactionPtr :=
  match st.findViaMsgId (headerMsgId i.bytes) with
  | none =>
    if headerTt i.bytes < coapTransTypeAck then st.findViaToken i.responseToken else none
  | some h =>
    if headerCode i.bytes ≠ coapCodeEmpty ∧ i.responseToken ≠ st.token h then none else some h

/-- The message comes from where the transaction expects it. -/
def Inbound.fromPeer (i : Inbound) (t : Transaction) : Bool :=
  t.multicast || (t.saddr.addr = i.saddr.addr && t.saddr.port = i.saddr.port)

/-- The transaction that the message in `inbound` belongs to. -/
def Instance.responseHandler (s : Instance) : Option TransactionPtr :=
  match s.inbound.lookup s.store with
  | none => none
  | some h => if s.inbound.fromPeer (s.transaction h) then some h else none

/-- An empty ACK, or an empty NON, for a request: the response comes later. -/
def Inbound.announcesResponse (i : Inbound) (t : Transaction) : Bool :=
  (headerTt i.bytes = coapTransTypeAck || headerTt i.bytes = coapTransTypeNonconfirmable) &&
    headerCode i.bytes = coapCodeEmpty && t.sentCode < coapResult100

/-- The transaction observes, and the message is a notification. -/
def Inbound.notifies (i : Inbound) (t : Transaction) : Bool :=
  hasFlag t.flags smcpTransactionObserve && i.hasObserveOption

/-- A notification that is skipped. -/
def Inbound.isOldObservation (i : Inbound) (t : Transaction) : Bool :=
  i.observeValue ≤ t.lastObserve && t.lastObserve - i.observeValue > 0x7FFFFF

/-- The status code that the callback gets. -/
def Inbound.responseStatus (i : Inbound) : ℤ :=
  if headerTt i.bytes = coapTransTypeReset then smcpStatusReset else headerCode i.bytes

/-- Record that the callback of `h` is called for the message in `inbound`. -/
def Instance.logResponded (s : Instance) (h : TransactionPtr) : Instance :=
  s.log (.responded h s.inbound s.store (s.transaction h))

/-- A new expiration and timer for an observing transaction. -/
def rescheduleObserve (s : Instance) (h : TransactionPtr) (cms : ℤ) : Instance :=
  let cms := if cms = 0 then
      if s.inbound.hasObserveOption then cmsDistantFuture else smcpObservationDefaultMaxAge
    else cms
  let s := s.setTransaction h fun t => { t with expiration := convertCmsToTimeval s.now cms }
  (smcpScheduleTimer s (.ofTransaction h) (keepaliveCap (s.transaction h).flags cms)).1

/-- The status `ret` ends the transaction. -/
def endsTransaction (t : Transaction) (ret : ℤ) : Bool :=
  ret ≠ 0 && hasFlag t.flags smcpTransactionNoAutoEnd = false

/-- The end of `smcp_handle_response` behind `bail`, with the handler if it is still known. -/
def responseBail (s : Instance) (ret : ℤ) (handler : Option TransactionPtr) : Instance × ℤ :=
  match handler with
  | some h =>
    if endsTransaction (s.transaction h) ret then (smcpTransactionEnd hooks s h, ret) else (s, ret)
  | none => (s, ret)

/-- The branch for a notification to an observing transaction. -/
def respondObserve (s : Instance) (h : TransactionPtr) (callback : ResponseFunc) : Instance × ℤ :=
  let msgId := s.store.msgId h
  let cms := int32 (s.inbound.maxAge * 1000)
  let value := s.inbound.observeValue
  let t := s.transaction h
  if s.inbound.isOldObservation t then
    let s := (s.log (.notification h value t)).log
      (.skipped h value (endsTransaction t smcpStatusDupe))
    responseBail hooks s smcpStatusDupe (some h)
  else
    let s := ((s.logResponded h).log (.notification h value t)).log (.delivered h value)
    let s := (s.log (.called h s.inbound.responseStatus)).setTransaction h fun t =>
      { t with lastObserve := value }
    let r := callResponse hooks s callback s.inbound.responseStatus
    let s := r.1
    if s.currentTransaction = none ∨ msgId ≠ s.store.msgId h then (s, r.2)
    else
      let waits := (s.transaction h).waitingForAsyncResponse || s.inbound.hasObserveOption
      let s := (s.log (.answered h waits)).setTransaction h fun t =>
        { t with waitingForAsyncResponse := waits, attemptCount := 0 }
      let s := { s with
        timers := s.timers.modify (.ofTransaction h) fun t => { t with cancel := none } }
      let s := smcpInvalidateTimer hooks s (.ofTransaction h)
      responseBail hooks (rescheduleObserve s h cms) r.2 (some h)

/-- After the callback of another transaction: the next block, the next observation, or the
end. -/
def respondFinish (s : Instance) (h : TransactionPtr) (ret : ℤ) : Instance × ℤ :=
  let flags := (s.transaction h).flags
  if ret = 0 ∧ s.inbound.block2Value / 8 % 2 = 1 ∧
      hasFlag flags smcpTransactionAlwaysInvalidate then
    let s := s.setTransaction h fun t =>
      { t with nextBlock2 := (s.inbound.block2Value + 16) % 4294967296 }
    let drawn := smcpGetNextMsgId s (.renewing h)
    let s := smcpTransactionNewMsgId hooks drawn.1 h drawn.2
    let s := smcpInvalidateTimer hooks s (.ofTransaction h)
    responseBail hooks (smcpScheduleTimer s (.ofTransaction h) 0).1 ret (some h)
  else if ret = 0 ∧ hasFlag flags smcpTransactionObserve then
    let cms := int32 (s.inbound.maxAge * 1000)
    let s := s.setTransaction h fun t => { t with nextBlock2 := 0 }
    let s := smcpInvalidateTimer hooks s (.ofTransaction h)
    responseBail hooks (rescheduleObserve s h cms) ret (some h)
  else
    let s := s.setTransaction h fun t => { t with resendCallback := none }
    let s := if hasFlag (s.transaction h).flags smcpTransactionNoAutoEnd then s
      else smcpTransactionEnd hooks s h
    (s, ret)

/-- A transaction that is called back only once forgets its callback. -/
def disarmCallback (s : Instance) (h : TransactionPtr) : Instance :=
  if hasFlag (s.transaction h).flags smcpTransactionAlwaysInvalidate = false ∧
      hasFlag (s.transaction h).flags smcpTransactionObserve = false then
    s.setTransaction h fun t => { t with callback := none }
  else s

/-- The branch for every other response. -/
def respondOnce (s : Instance) (h : TransactionPtr) (callback : ResponseFunc) : Instance × ℤ :=
  let msgId := s.store.msgId h
  let s := disarmCallback ((s.logResponded h).log (.called h s.inbound.responseStatus)) h
  let r := callResponse hooks s callback s.inbound.responseStatus
  let s := r.1
  if s.currentTransaction ≠ some h then (s, r.2)
  else
    let s := (s.log (.answered h false)).setTransaction h fun t =>
      { t with attemptCount := 0, waitingForAsyncResponse := false }
    if s.store.active h ∧ msgId = s.store.msgId h then respondFinish hooks s h r.2
    else responseBail hooks s r.2 (some h)

/-- A response that no transaction waits for: reset it, unless it is an ACK or a reset. -/
def respondUnknown (s : Instance) : Instance × ℤ :=
  if headerTt s.inbound.bytes ≤ coapTransTypeNonconfirmable then
    smcpOutboundSend (smcpOutboundSetTt (smcpOutboundBeginResponse s 0).1 coapTransTypeReset)
  else (s, smcpStatusOk)

/-- What precedes the callback: the message is authenticated, and read from its first option. -/
def prepareCallback (s : Instance) : Instance :=
  let s := smcpAuthInboundInit s
  { s with inbound := s.inbound.resetNextOption }

/-- A message for the transaction `h`. -/
def respondTo (s : Instance) (h : TransactionPtr) : Instance × ℤ :=
  let t := s.transaction h
  if s.inbound.announcesResponse t then
    ((s.log (.acknowledged h (headerTt s.inbound.bytes))).setTransaction h fun t =>
      { t with waitingForAsyncResponse := true }, smcpStatusOk)
  else
    match t.callback with
    | none => (s, smcpStatusOk)
    | some callback =>
      if s.inbound.notifies t then respondObserve hooks (prepareCallback s) h callback
      else respondOnce hooks (prepareCallback s) h callback

/-- `smcp_handle_response`. -/
def smcpHandleResponse (s : Instance) : Instance × ℤ :=
  let s := s.log (.received s.inbound s.store s.transaction)
  let handler := s.responseHandler
  let s := { s with currentTransaction := handler }
  match handler with
  | none => respondUnknown s
  | some h => respondTo hooks s h

end

end Smcp
