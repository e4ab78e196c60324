import Smcp.Btree
import Smcp.Timer

/-!
# Transactions

The part of `smcp-transaction.c` that looks transactions up, begins and ends them, and
`smcp_get_next_msg_id` of `smcp.c`.
-/

namespace Smcp

open LinkedTree

/-! ## The transaction store -/

namespace TransactionStore

/-- `smcp_transaction_compare_msg_id`; `smcp_transaction_compare` is the same with the `msg_id` of
the other transaction. -/
def compareMsgId (st : TransactionStore) (msgId : ℕ) (lhs : TransactionPtr) : ℤ :=
  if st.msgId lhs > msgId then 1 else if st.msgId lhs < msgId then -1 else 0

/-- `bt_remove` of the transaction with the given `msg_id`, and which one it was. -/
def btRemove (st : TransactionStore) (msgId : ℕ) : TransactionStore × Option TransactionPtr :=
  let r := Smcp.btRemove st.links (st.compareMsgId msgId) (st.inserted + 1)
  ({ st with links := r.1 }, r.2)

/-- `bt_insert`, and the transaction it replaced. -/
def btInsert (st : TransactionStore) (h : TransactionPtr) :
    TransactionStore × Option TransactionPtr :=
  let r := Smcp.btInsert h (st.compareMsgId (st.msgId h)) (st.inserted + 1) st.links .root 0
  ({ st with links := r.links, inserted := st.inserted + 1 }, r.deleted)

def setMsgId (st : TransactionStore) (h : TransactionPtr) (msgId : ℕ) : TransactionStore :=
  { st with msgId := Function.update st.msgId h msgId }

def setToken (st : TransactionStore) (h : TransactionPtr) (token : ℕ) : TransactionStore :=
  { st with token := Function.update st.token h token }

def setActive (st : TransactionStore) (h : TransactionPtr) (active : Bool) : TransactionStore :=
  { st with active := Function.update st.active h active }

/-- What `memset` does to the part of a transaction that is kept in the store. -/
def clear (st : TransactionStore) (h : TransactionPtr) : TransactionStore :=
  let st := ((st.setMsgId h 0).setToken h 0).setActive h false
  { st with links := ((st.links.set (.lhs h) none).set (.rhs h) none).setParent h none }

/-- `smcp_transaction_find_via_msg_id`. -/
def findViaMsgId (st : TransactionStore) (msgId : ℕ) : Option TransactionPtr :=
  btFind st.links (st.compareMsgId msgId) (st.inserted + 1) st.links.root

/-- The loop of `smcp_transaction_find_via_token`. -/
def findViaTokenFrom (st : TransactionStore) (token : ℕ) :
    (fuel : ℕ) → Option TransactionPtr → Option TransactionPtr
  | 0, _ => none
  | _ + 1, none => none
  | fuel + 1, some ret =>
    if st.token ret ≠ token then
      findViaTokenFrom st token fuel (btNext st.links (st.inserted + 1) ret)
    else some ret

/-- `smcp_transaction_find_via_token`. -/
def findViaToken (st : TransactionStore) (token : ℕ) : Option TransactionPtr :=
  st.findViaTokenFrom token (st.inserted + 1)
    (st.links.root.map (btFirst st.links (st.inserted + 1)))

end TransactionStore

/-! ## Message ids -/

/-- One step of the generator behind `smcp_get_next_msg_id`. -/
def nextMsgId (lastMsgId : ℕ) : ℕ := (lastMsgId * 23873 + 41) % 65536

/-- The id drawn after `lastMsgId`, when the random source gives `random` where it is asked. -/
def drawnId (lastMsgId random : ℕ) : ℕ :=
  nextMsgId (if lastMsgId = 0 then random % 65536 else lastMsgId)

/-- `smcp_get_next_msg_id`. -/
def smcpGetNextMsgId (s : Instance) (purpose : DrawPurpose) : Instance × ℕ :=
  let seeded := if s.lastMsgId = 0 then
      ({ s.randomUint32.1 with lastMsgId := s.randomUint32.2 % 65536 } : Instance)
    else s
  let id := nextMsgId seeded.lastMsgId
  (({ seeded with lastMsgId := id }).log
    (.drew purpose s.store s.lastMsgId s.randomUint32.2 id), id)

/-! ## Ending transactions -/

section
variable (hooks : Hooks)

/-- `smcp_internal_delete_transaction_`. The only callback of the library itself,
`event_response_handler`, does nothing for this status. -/
def smcpInternalDeleteTransaction_ (s : Instance) (h : TransactionPtr) : Instance :=
  let s := smcpInvalidateTimer hooks s (.ofTransaction h)
  let s := { s with store := s.store.setActive h false }
  let s := s.log (.deleted h (s.transaction h).callback.isSome)
  let s := match (s.transaction h).callback with
    | some (.user callback) =>
      (hooks (.response callback smcpStatusTransactionInvalidated) s).1
    | _ => s
  if (s.transaction h).shouldDealloc then s.log (.freed h) else s

/-- The delete function is called for the item that `bt_insert` or `bt_remove` took out. -/
def deleteFound (s : Instance) (found : Option TransactionPtr) : Instance :=
  match found with
  | some h => smcpInternalDeleteTransaction_ hooks s h
  | none => s

/-- `bt_insert(&self->transactions, handler, ...)` with the delete function. -/
def insertTransaction (s : Instance) (h : TransactionPtr) : Instance :=
  let r := s.store.btInsert h
  let s := { s with store := r.1 }
  match r.2 with
  | some old => smcpInternalDeleteTransaction_ hooks (s.log (.replaced h old)) old
  | none => s

/-- `smcp_transaction_new_msg_id`. -/
def smcpTransactionNewMsgId (s : Instance) (h : TransactionPtr) (msgId : ℕ) : Instance :=
  if s.store.active h then
    let st := (s.store.btRemove (s.store.msgId h)).1
    insertTransaction hooks { s with store := st.setMsgId h msgId } h
  else s

/-- `smcp_transaction_end`. -/
def smcpTransactionEnd (s : Instance) (h : TransactionPtr) : Instance :=
  let s := if s.currentTransaction = some h then { s with currentTransaction := none } else s
  if s.store.active h then
    let r := (s.store.setActive h false).btRemove (s.store.msgId h)
    deleteFound hooks (({ s with store := r.1 }).log (.ended h r.2)) r.2
  else s

/-! ## Beginning transactions -/

/-- `smcp_transaction_init` of the object `h`, which is allocated when `alloc` is set. -/
def smcpTransactionInit (s : Instance) (h : TransactionPtr) (alloc : Bool) (flags : ℕ)
    (resendCallback : Option ResendFunc) (callback : Option ResponseFunc) : Instance :=
  let s := s.log (.initialized h s.store)
  let s := s.logTimer (.cleared (.ofTransaction h) (smcpTimerIsScheduled s (.ofTransaction h)))
  { s with
    store := s.store.clear h
    timers := s.timers.modify (.ofTransaction h) fun _ => {}
    transaction := Function.update s.transaction h
      { resendCallback := resendCallback, callback := callback, flags := flags % 256
        shouldDealloc := alloc } }

/-- `COAP_EXCHANGE_LIFETIME` in milliseconds. -/
def coapExchangeLifetime : ℤ := 271250
def smcpObservationKeepaliveInterval : ℤ := 45000
def smcpObservationDefaultMaxAge : ℤ := 30000
def cmsDistantFuture : ℤ := 2147483647

/-- The pause before the first attempt, if the flag asks for one: 10 ms and a random part. -/
def delayStart (s : Instance) (flags : ℕ) (range : ℕ) : Instance × ℤ :=
  if hasFlag flags smcpTransactionDelayStart then
    let r := s.randomUint32
    (r.1, 10 + (r.2 % range : ℕ))
  else (s, 0)

/-- A timer of an observing transaction fires at least once in a keep-alive interval. -/
def keepaliveCap (flags : ℕ) (cms : ℤ) : ℤ :=
  if hasFlag flags smcpTransactionKeepalive ∧ cms > smcpObservationKeepaliveInterval then
    smcpObservationKeepaliveInterval
  else cms

/-- The first part of `smcp_transaction_begin`: take the transaction out and give it a new
identity. -/
def beginIdentity (s : Instance) (h : TransactionPtr) : Instance :=
  let s := (s.log (.began h (s.store.active h) (s.transaction h))).log (.begun h s.store)
  let s := { s with store := (s.store.btRemove (s.store.msgId h)).1 }
  let drawn := smcpGetNextMsgId s (.beginning h)
  let s := drawn.1
  { s with store := ((s.store.setToken h drawn.2).setMsgId h drawn.2).setActive h true }

/-- The second part: its timer. -/
def beginTimer (s : Instance) (h : TransactionPtr) (expiration : ℤ) : Instance :=
  let expiration := if expiration < 0 then coapExchangeLifetime else expiration
  let s := s.setTransaction h fun t =>
    { t with
      waitingForAsyncResponse := false, attemptCount := 0, lastObserve := 0, nextBlock2 := 0
      expiration := convertCmsToTimeval s.now expiration }
  let t := s.transaction h
  let delay := if t.resendCallback.isSome then delayStart s t.flags 5000 else (s, expiration)
  let s := smcpTimerInit delay.1 (.ofTransaction h) (.transactionTimeout h) none
  (smcpScheduleTimer s (.ofTransaction h) (keepaliveCap t.flags delay.2)).1

/-- `smcp_transaction_begin`. -/
def smcpTransactionBegin (s : Instance) (h : TransactionPtr) (expiration : ℤ) : Instance :=
  insertTransaction hooks (beginTimer (beginIdentity s h) h expiration) h

/-- `smcp_transaction_tickle`. -/
def smcpTransactionTickle (s : Instance) (h : TransactionPtr) : Instance :=
  (smcpScheduleTimer (smcpInvalidateTimer hooks s (.ofTransaction h)) (.ofTransaction h) 0).1

end

end Smcp
