import Smcp.Inbound.Request
import Smcp.Transaction.Basic

/-!
# Observable resources

`smcp-observable.c`. The observer table has `SMCP_MAX_OBSERVERS` entries, linked by indices that
are one too large. Indices are `int8_t` values; reading or writing the table outside of its bounds,
or going round in it for ever, is a `fault`.
-/

namespace Smcp

def smcpMaxObservers : ℕ := 8
def smcpObservableBroadcastKey : ℕ := 255
def smcpObserverConEventExpiration : ℤ := 30000
def smcpObserverNonEventExpiration : ℤ := 1000

/-- `SHOULD_CONFIRM_EVENT_FOR_OBSERVER`. -/
def shouldConfirmEventForObserver (obs : Observer) : Bool := obs.seq % 8 = 0

namespace Instance

/-- The entry `i` of the observer table. -/
def observer (s : Instance) (i : ℤ) : Observer := s.observerTable i.toNat

/-- Change the entry `i` of the observer table. -/
def setObserver (s : Instance) (i : ℤ) (f : Observer → Observer) : Instance :=
  { s with observerTable := Function.update s.observerTable i.toNat (f (s.observer i)) }

def setObservable (s : Instance) (context : ℕ) (f : Observable → Observable) : Instance :=
  { s with observables := Function.update s.observables context (f (s.observables context)) }

end Instance

/-- The index is one of the table. -/
def inTable (i : ℤ) : Bool := 0 ≤ i && i < smcpMaxObservers

/-- `get_unused_observer_index`. -/
def getUnusedObserverIndex (s : Instance) : ℤ :=
  match (List.range smcpMaxObservers).find? fun i =>
      (s.observerTable i).asyncResponse.requestLen = 0 ∧ (s.observerTable i).next = 0 ∧
        s.store.active (.observer i) = false with
  | some i => i
  | none => -1

/-! ## Removing an observer -/

/-- The search of `free_observer` for the predecessor. It moves `i` and keeps `prev`. -/
def freeObserverSearch (s : Instance) (prev : ℤ) : (fuel : ℕ) → (i : ℤ) → Option ℤ
  | 0, _ => none
  | fuel + 1, i =>
    if (s.observer prev).next = i then some i
    else if inTable i then freeObserverSearch s prev fuel ((s.observer i).next - 1)
    else none

/-- The part of `free_observer` that takes the entry `i` out of the list of the observable. -/
def unlinkObserver (s : Instance) (context : ℕ) (i : ℕ) : Instance :=
  let c := s.observables context
  if c.firstObserver = i + 1 ∧ c.lastObserver = i + 1 then
    s.setObservable context fun c => { c with firstObserver := 0, lastObserver := 0 }
  else if c.firstObserver = i + 1 then
    s.setObservable context fun c => { c with firstObserver := (s.observer i).next }
  else
    let prev := c.firstObserver - 1
    if inTable prev then
      match freeObserverSearch s prev (smcpMaxObservers + 1) i with
      | none => { s with fault := true }
      | some i =>
        if inTable i then
          let s := s.setObserver prev fun o => { o with next := (s.observer i).next }
          if c.lastObserver = i + 1 then
            s.setObservable context fun c => { c with lastObserver := prev }
          else s
        else { s with fault := true }
    else { s with fault := true }

section
variable (hooks : Hooks)

/-- `free_observer`. -/
def freeObserver (s : Instance) (i : ℕ) : Instance :=
  let s := match (s.observerTable i).observable with
    | none => s
    | some context =>
      let s := smcpTransactionEnd hooks s (.observer i)
      let c := s.observables context
      unlinkObserver (s.logObserver (.released context i c.firstObserver c.lastObserver)) context i
  s.setObserver i fun o => { o with asyncResponse := smcpFinishAsyncResponse o.asyncResponse }

/-! ## Registering an observer -/

/-- The search of `smcp_observable_update`, from the index `i`: the entry for this key and peer,
or -1. -/
def findObserver (s : Instance) (key : ℕ) : (fuel : ℕ) → (i : ℤ) → Option ℤ
  | 0, _ => none
  | fuel + 1, i =>
    if i ≥ 0 then
      if inTable i = false then none
      else if (s.observer i).key = key ∧
          smcpInboundIsRelatedToAsyncResponse s (s.observer i).asyncResponse then some i
      else findObserver s key fuel ((s.observer i).next - 1)
    else some (-1)

/-- Take an unused entry of the table into the list of the observable. -/
def addObserver (s : Instance) (context key : ℕ) (i : ℤ) : Instance :=
  let c := s.observables context
  let s := if c.lastObserver = 0 then s
    else s.setObserver (c.lastObserver - 1) fun o => { o with next := i + 1 }
  let s := s.setObservable context fun c =>
    { c with
      firstObserver := if c.lastObserver = 0 then i + 1 else c.firstObserver
      lastObserver := i + 1 }
  s.setObserver i fun o => { o with key := key, seq := 0, observable := some context }

/-- Answer a registration for the entry `i`. -/
def confirmObserver (s : Instance) (i : ℤ) : Instance × ℤ :=
  let start := smcpStartAsyncResponse s (s.observer i).asyncResponse true
  let s := start.state.setObserver i fun o => { o with asyncResponse := start.response }
  smcpOutboundAddOptionUint s coapOptionObserve (s.observer i).seq

/-- `smcp_observable_update`. -/
def smcpObservableUpdate (s : Instance) (context key : ℕ) : Instance × ℤ :=
  let s := s.setObservable context fun c => { c with hasInterface := true }
  if s.inbound.packet.isNone ∨ s.inbound.isFake ∨ s.inbound.isDupe then (s, smcpStatusOk)
  else
    match findObserver s key (smcpMaxObservers + 1) ((s.observables context).firstObserver - 1) with
    | none => ({ s with fault := true }, smcpStatusFailure)
    | some i =>
      if s.inbound.hasObserveOption then
        if i = -1 then
          let i := getUnusedObserverIndex s
          if i = -1 then (s, smcpStatusOk)
          else confirmObserver (addObserver (s.logObserver
            (.registered context i.toNat (s.inbound.packetLen - s.inbound.contentLen))) context key i) i
        else confirmObserver (s.logObserver
          (.renewed i.toNat (s.inbound.packetLen - s.inbound.contentLen))) i
      else if i = -1 then (s, smcpStatusOk)
      else (freeObserver hooks s i.toNat, smcpStatusOk)

/-! ## Notifying observers -/

/-- `event_response_handler`. -/
def eventResponseHandler (s : Instance) (statuscode : ℤ) (i : ℕ) : Instance × ℤ :=
  let statuscode :=
    if statuscode = smcpStatusTimeout then
      if shouldConfirmEventForObserver (s.observerTable i) then smcpStatusReset else smcpStatusOk
    else statuscode
  let statuscode :=
    if statuscode ≠ smcpStatusTransactionInvalidated ∧ statuscode ≠ 0 ∧
        (statuscode < coapResult200 ∨ statuscode ≥ coapResult400) then smcpStatusReset
    else statuscode
  if statuscode = smcpStatusReset then (freeObserver hooks s i, smcpStatusReset)
  else (s, smcpStatusOk)

/-- `retry_sending_event`. -/
def retrySendingEvent (s : Instance) (i : ℕ) : Instance × ℤ :=
  let finish (r : Instance × ℤ) : Instance × ℤ :=
    ({ r.1 with isProcessingMessage := false, didRespond := false }, r.2)
  let r := smcpOutboundBeginAsyncResponse s (httpToCoapCode 205) (s.observerTable i).asyncResponse
  if r.2 ≠ smcpStatusOk then finish r
  else
    let r := smcpOutboundAddOptionUint r.1 coapOptionObserve (r.1.observerTable i).seq
    if r.2 ≠ smcpStatusOk then finish r
    else
      let s := smcpOutboundSetTt r.1 (if shouldConfirmEventForObserver (r.1.observerTable i)
        then coapTransTypeConfirmable else coapTransTypeNonconfirmable)
      let s :=
        { s with
          inbound.hasObserveOption := true
          isResponding := true
          forceCurrentOutboundCode := true
          isProcessingMessage := true
          didRespond := false }
      let r := smcpHandleRequest hooks s
      if r.2 = smcpStatusNotFound ∨ r.2 = smcpStatusNotAllowed then
        finish ((smcpOutboundSend (smcpOutboundSetContentLen r.1 0)).1, r.2)
      else finish r

/-- What `smcp_observable_trigger` does for one observer. -/
def notifyObserver (s : Instance) (i : ℕ) : Instance :=
  let s := s.setObserver i fun o => { o with seq := (o.seq + 1) % 4294967296 }
  if s.store.active (.observer i) then
    let drawn := smcpGetNextMsgId s (.renewing (.observer i))
    smcpTransactionTickle hooks (smcpTransactionNewMsgId hooks drawn.1 (.observer i) drawn.2)
      (.observer i)
  else
    let s := smcpTransactionInit s (.observer i) false 0 (some (.retrySendingEvent i))
      (some (.eventResponseHandler i))
    smcpTransactionBegin hooks s (.observer i)
      (if shouldConfirmEventForObserver (s.observerTable i) then smcpObserverConEventExpiration
        else smcpObserverNonEventExpiration)

/-- The loop of `smcp_observable_trigger`. -/
def triggerFrom (key : ℕ) : (fuel : ℕ) → Instance → (i : ℤ) → Instance
  | 0, s, _ => { s with fault := true }
  | fuel + 1, s, i =>
    if i ≥ 0 then
      if inTable i = false then { s with fault := true }
      else
        let s := if (s.observer i).key ≠ smcpObservableBroadcastKey ∧
            key ≠ smcpObservableBroadcastKey ∧ (s.observer i).key ≠ key then s
          else notifyObserver hooks s i.toNat
        triggerFrom key fuel s ((s.observer i).next - 1)
    else s

/-- `smcp_observable_trigger`. -/
def smcpObservableTrigger (s : Instance) (context key : ℕ) : Instance :=
  if (s.observables context).hasInterface then
    triggerFrom hooks key (smcpMaxObservers + 1) s ((s.observables context).firstObserver - 1)
  else s

end

end Smcp
