import Smcp.Application
import Smcp.Transaction.Store

/-!
# The static pool

The build with `SMCP_AVOID_MALLOC`, in which transactions that the application does not bring along
come from `smcp_transaction_pool`. It differs in two places: `smcp_transaction_init` looks for an
object without a callback, and `smcp_internal_delete_transaction_` clears the callback instead of
freeing the object. The objects of the pool are `.user 0` to `.user 3`.

`delete_poolHooks`: with the hooks `poolHooks` the functions of the other build delete as this one
does.
-/

namespace Smcp

open Run LinkedTree

/-! ## The functions -/

def smcpConfMaxTransactions : ℕ := 4

/-- `smcp_transaction_init` without an object: nothing but these fields is written. -/
def poolTransactionInit (s : Instance) (flags : ℕ) (resendCallback callback : Option ℕ) :
    Instance × Option ℕ :=
  match (List.range smcpConfMaxTransactions).find? fun i =>
      (s.transaction (.user i)).callback.isNone with
  | none => (s, none)
  | some i =>
    ((s.log (.initialized (.user i) s.store)).setTransaction (.user i) fun t =>
      { t with
        shouldDealloc := true, resendCallback := resendCallback.map .user
        callback := callback.map .user, flags := flags % 256 }, some i)

/-- `handler->callback = NULL`. -/
def Instance.clearCallback (s : Instance) (h : TransactionPtr) : Instance :=
  s.setTransaction h fun t => { t with callback := none }

/-- `smcp_internal_delete_transaction_`. -/
def poolDeleteTransaction_ (hooks : Hooks) (s : Instance) (h : TransactionPtr) : Instance :=
  let s := smcpInvalidateTimer hooks s (.ofTransaction h)
  let s := { s with store := s.store.setActive h false }
  let s := s.log (.deleted h (s.transaction h).callback.isSome)
  let s := match (s.transaction h).callback with
    | some (.user callback) =>
      (hooks (.response callback smcpStatusTransactionInvalidated) s).1
    | _ => s
  if (s.transaction h).shouldDealloc then
    (s.clearCallback h).log (.freed h)
  else s

/-- The application, and behind its last callback what the library does to the transaction: with
these hooks the functions of the other build are those of this one. -/
def poolHooks (hooks : Hooks) : Hooks := fun call s =>
  let r := hooks call s
  match call, s.events.head? with
  | .response _ statuscode, some (.deleted h _) =>
    if statuscode = smcpStatusTransactionInvalidated ∧ (r.1.transaction h).shouldDealloc then
      (r.1.clearCallback h, r.2)
    else r
  | _, _ => r

/-- The calls that obtain transactions, begin and end them, and those that make the library call
back. -/
inductive PoolOp where
  | tick (now : Timeval)
  | process (arrival : Option Arrival) (rest : ℕ → UInt8)
  | handleTimers
  | outbound (call : OutboundCall)
  | transactionInit (flags : ℕ) (resendCallback callback : Option ℕ)
  | transactionBegin (n : ℕ) (expiration : ℤ)
  | transactionEnd (n : ℕ)
  | transactionNewMsgId (n : ℕ) (msgId : Fin 65536)
  | transactionTickle (n : ℕ)

/-- Do it. -/
def PoolOp.exec (hooks : Hooks) (op : PoolOp) (s : Instance) : Instance :=
  match op with
  | .tick now => { s with now := now }
  | .process arrival rest => smcpProcess (poolHooks hooks) s arrival rest
  | .handleTimers => smcpHandleTimers (poolHooks hooks) s
  | .outbound call => (call.exec s).1
  | .transactionInit flags resendCallback callback =>
    (poolTransactionInit s flags resendCallback callback).1
  | .transactionBegin n expiration => smcpTransactionBegin (poolHooks hooks) s (.user n) expiration
  | .transactionEnd n => smcpTransactionEnd (poolHooks hooks) s (.user n)
  | .transactionNewMsgId n msgId =>
    smcpTransactionNewMsgId (poolHooks hooks)
      (s.log (.renamed (.user n) msgId s.store s.lastMsgId)) (.user n) msgId
  | .transactionTickle n => smcpTransactionTickle (poolHooks hooks) s (.user n)

/-! ## Conditions -/

/-- `smcp_transaction_init` has returned the transaction, and it has not been deleted since. -/
def isObtained (h : TransactionPtr) : List Event → Bool
  | [] => false
  | .initialized h' _ :: events => h' = h || isObtained h events
  | .deleted h' _ :: events => h' ≠ h && isObtained h events
  | _ :: events => isObtained h events

/-- Only transactions that have been obtained, and not ended since, are begun. -/
def PoolOp.Legal : PoolOp → Instance → Prop
  | .transactionBegin n _, s => isObtained (.user n) s.events = true
  | _, _ => True

/-- And when one is obtained, those that have been obtained and not ended have their callback
pointers: no call is under way, or was not followed by the end, in front of which it was cleared. -/
def PoolOp.KeepsPointers (op : PoolOp) (s : Instance) : Prop :=
  op.Legal s ∧ match op with
    | .transactionInit _ _ _ =>
      ∀ h, isObtained h s.events = true → (s.transaction h).callback.isSome = true
    | _ => True

/-- An id that a transaction gets, or that it had, is not that of another one that is active. -/
def Event.SparesOthers : Event → Prop
  | .initialized _ _ => True
  | e => e.KeepsStore

/-- A transaction is returned that is neither active nor in the store. -/
def Event.ReturnsFree : Event → Prop
  | .initialized h st => st.active h = false ∧ ¬Linked st.links h
  | _ => True

/-! ## Deleting -/

section
variable {hooks : Hooks} {s : Instance} {h : TransactionPtr}

theorem shouldDealloc_clearCallback (s : Instance) (h : TransactionPtr) :
    ((s.clearCallback h).transaction h).shouldDealloc = (s.transaction h).shouldDealloc := by
  unfold Instance.clearCallback Instance.setTransaction
  dsimp only
  rw [Function.update_self]

/-- Clearing the callback and giving the object back, one after the other or both at the end. -/
theorem freed_clearCallback {r r' : Instance}
    (hr : r' = if (r.transaction h).shouldDealloc then r.clearCallback h else r) :
    (if (r'.transaction h).shouldDealloc then r'.log (.freed h) else r') =
      if (r.transaction h).shouldDealloc then (r.clearCallback h).log (.freed h) else r := by
  by_cases hdealloc : (r.transaction h).shouldDealloc = true
  · rw [if_pos hdealloc] at hr
    have hstill : (r'.transaction h).shouldDealloc = true := by
      rw [hr, shouldDealloc_clearCallback]
      exact hdealloc
    rw [if_pos hstill, if_pos hdealloc, hr]
  · rw [if_neg hdealloc] at hr
    rw [hr, if_neg hdealloc, if_neg hdealloc]

theorem invalidateTimer_poolHooks (hooks : Hooks) (s : Instance) (timer : TimerPtr) :
    smcpInvalidateTimer (poolHooks hooks) s timer = smcpInvalidateTimer hooks s timer := by
  unfold smcpInvalidateTimer
  dsimp only
  split
  · rfl
  · rfl

/-- A transaction of the application is deleted as this build does it. -/
theorem delete_poolHooks (hcallback : ∀ i, ((smcpInvalidateTimer hooks s
    (.ofTransaction h)).transaction h).callback ≠ some (.eventResponseHandler i)) :
    smcpInternalDeleteTransaction_ (poolHooks hooks) s h = poolDeleteTransaction_ hooks s h := by
  unfold smcpInternalDeleteTransaction_ poolDeleteTransaction_
  dsimp only
  rw [invalidateTimer_poolHooks]
  -- its timer is cancelled first
  generalize smcpInvalidateTimer hooks s (.ofTransaction h) = s1 at hcallback ⊢
  -- the state in which the callback hears of the end
  set s2 : Instance := ({ s1 with store := s1.store.setActive h false }).log
    (.deleted h (s1.transaction h).callback.isSome) with hs2
  have htransaction : s2.transaction h = s1.transaction h := rfl
  rw [← htransaction] at hcallback
  -- without a callback there is nothing to tell
  cases hc : (s2.transaction h).callback with
  | none =>
    have hsame : s2.clearCallback h = s2 := by
      unfold Instance.clearCallback Instance.setTransaction
      rw [← hc, Function.update_eq_self]
    dsimp only
    rw [hsame]
  | some callback =>
    cases callback with
    | eventResponseHandler i => exact absurd hc (hcallback i)
    | user callback =>
      have hpool : (poolHooks hooks (.response callback smcpStatusTransactionInvalidated) s2).1 =
          if ((hooks (.response callback smcpStatusTransactionInvalidated) s2).1.transaction
              h).shouldDealloc then
            (hooks (.response callback smcpStatusTransactionInvalidated) s2).1.clearCallback h
          else (hooks (.response callback smcpStatusTransactionInvalidated) s2).1 := by
        unfold poolHooks
        dsimp only
        rw [show s2.events.head? = some (.deleted h (s1.transaction h).callback.isSome) from rfl]
        dsimp only
        split_ifs with hcond hdealloc hdealloc
        · rfl
        · exact absurd hcond.2 hdealloc
        · exact absurd ⟨rfl, hdealloc⟩ hcond
        · rfl
      exact freed_clearCallback hpool

end

end Smcp
