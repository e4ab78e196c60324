import Smcp.Transaction.Pool

/-!
# Runs with the static pool

* `PoolOk`: the active transactions are those in the store, they have been obtained from the pool,
  and every one that was returned was free;
* `PoolKeeps s s'`: the history has grown, and if the ids in it spare other transactions then `s'`
  is in order if `s` is. Every function of the library has this property when the hooks have it;
* `pool_returns_free`: what follows for the runs of a program.
-/

namespace Smcp

open Run LinkedTree

/-! ## The invariant -/

structure PoolOk (s : Instance) : Prop where
  store : StoreOk s.store
  obtained : ∀ h, s.store.active h = true → isObtained h s.events = true
  noCancel : s.timers.NoCancel
  returned : ∀ e ∈ s.events, e.ReturnsFree

structure PoolKeeps (s s' : Instance) : Prop where
  history : s.events <:+ s'.events
  ok : (∀ e ∈ s'.events, e.SparesOthers) → PoolOk s → PoolOk s'

/-- The event is not about obtaining or deleting a transaction. -/
def Event.Passes : Event → Prop
  | .initialized _ _ | .deleted _ _ => False
  | _ => True

section
variable {hooks : Hooks} {s s' s'' : Instance} {h : TransactionPtr} {e : Event}

/-- Events that pass say nothing about who has the transaction. -/
theorem isObtained_cons (hpass : e.Passes) (h : TransactionPtr) (events : List Event) :
    isObtained h (e :: events) = isObtained h events := by
  cases e with
  | initialized _ _ => exact hpass.elim
  | deleted _ _ => exact hpass.elim
  | _ => rfl

/-- Nor do they return one. -/
theorem returnsFree_of_passes (hpass : e.Passes) : e.ReturnsFree := by
  cases e with
  | initialized _ _ => exact hpass.elim
  | _ => trivial

theorem PoolKeeps.refl (s : Instance) : PoolKeeps s s := ⟨List.suffix_refl _, fun _ hs => hs⟩

/-- One operation after another. -/
theorem PoolKeeps.trans (h : PoolKeeps s s') (h' : PoolKeeps s' s'') : PoolKeeps s s'' := by
  refine ⟨h.history.trans h'.history, fun hids hs => h'.ok hids (h.ok ?_ hs)⟩
  exact fun e he => hids e (h'.history.subset he)

/-- Only timers have changed, and what the pool has nothing to do with. -/
theorem Quiet.poolKeeps (h : Quiet s s') : PoolKeeps s s' := by
  have hcore : s'.core = s.core := congrArg World.core h.world
  have hstore : s'.store = s.store := congrArg Core.store hcore
  have hevents : s'.events = s.events := congrArg Core.events hcore
  constructor
  · rw [hevents]
  · intro _ hs
    refine ⟨?_, ?_, h.acts.noCancel hs.noCancel, ?_⟩
    · rw [hstore]
      exact hs.store
    · rw [hstore, hevents]
      exact hs.obtained
    · rw [hevents]
      exact hs.returned

theorem Same.poolKeeps (h : Same s s') : PoolKeeps s s' := h.quiet.poolKeeps

/-- The fields of a transaction other than those of the store. -/
theorem pool_setTransaction (s : Instance) (h : TransactionPtr) (f : Transaction → Transaction) :
    PoolKeeps s (s.setTransaction h f) :=
  ⟨List.suffix_refl _, fun _ hs => ⟨hs.store, hs.obtained, hs.noCancel, hs.returned⟩⟩

theorem pool_clearCallback (s : Instance) (h : TransactionPtr) : PoolKeeps s (s.clearCallback h) :=
  pool_setTransaction s h _

/-- An event that passes may be noted. -/
theorem pool_log (s : Instance) (hpass : e.Passes) : PoolKeeps s (s.log e) := by
  refine ⟨List.suffix_cons _ _, fun _ hs => ⟨hs.store, fun h ha => ?_, hs.noCancel, ?_⟩⟩
  · exact (isObtained_cons hpass h s.events).trans (hs.obtained h ha)
  · exact List.forall_mem_cons.2 ⟨returnsFree_of_passes hpass, hs.returned⟩

/-- The hooks of the pool keep what those of the application keep. -/
theorem pool_hooks (hhooks : ∀ c u, PoolKeeps u (hooks c u).1) (c : Call) (u : Instance) :
    PoolKeeps u (poolHooks hooks c u).1 := by
  have hcall := hhooks c u
  unfold poolHooks
  dsimp only
  split
  · split
    · exact hcall.trans (pool_clearCallback _ _)
    · exact hcall
  · exact hcall

variable (hhooks : ∀ c u, PoolKeeps u (hooks c u).1)
include hhooks

/-- The cancel callback is the only one that may act. -/
theorem pool_invalidateTimer (timer : TimerPtr) :
    PoolKeeps s (smcpInvalidateTimer hooks s timer) := by
  have hquiet : Quiet s _ := quiet_unlink timer
  unfold smcpInvalidateTimer
  dsimp only
  split
  · exact hquiet.poolKeeps.trans (hhooks _ _)
  · exact hquiet.poolKeeps

/-! ## Deleting and ending -/

/-- The end of `smcp_internal_delete_transaction_`. -/
theorem pool_deleted (s : Instance) (h : TransactionPtr) :
    PoolKeeps s
      (let s := match (s.transaction h).callback with
        | some (.user callback) =>
          (hooks (.response callback smcpStatusTransactionInvalidated) s).1
        | _ => s
      if (s.transaction h).shouldDealloc then s.log (.freed h) else s) := by
  have hfree (u : Instance) : PoolKeeps u (if (u.transaction h).shouldDealloc then u.log (.freed h)
      else u) := by
    split_ifs
    · exact pool_log u trivial
    · exact PoolKeeps.refl u
  refine PoolKeeps.trans ?_ (hfree _)
  split
  · exact hhooks _ _
  · exact PoolKeeps.refl s

/-- A deletion adds to the history. -/
theorem history_delete (s : Instance) (h : TransactionPtr) :
    s.events <:+ (smcpInternalDeleteTransaction_ hooks s h).events := by
  have hquiet := (pool_invalidateTimer hhooks (s := s) (.ofTransaction h)).history
  unfold smcpInternalDeleteTransaction_
  dsimp only
  generalize smcpInvalidateTimer hooks s (.ofTransaction h) = s1 at hquiet ⊢
  refine hquiet.trans (List.IsSuffix.trans ?_ (pool_deleted hhooks _ h).history)
  exact List.suffix_cons _ _

/-- A transaction that has been taken out of the store is deleted. -/
theorem ok_delete (hs : PoolOk s) (hinactive : s.store.active h = false)
    (hids : ∀ e ∈ (smcpInternalDeleteTransaction_ hooks s h).events, e.SparesOthers) :
    PoolOk (smcpInternalDeleteTransaction_ hooks s h) := by
  -- the timer is cancelled, and that changes nothing in the store
  have hquiet : Quiet s (smcpInvalidateTimer hooks s (.ofTransaction h)) :=
    quiet_invalidate hs.noCancel h
  unfold smcpInternalDeleteTransaction_ at hids ⊢
  dsimp only at hids ⊢
  generalize smcpInvalidateTimer hooks s (.ofTransaction h) = s1 at hquiet hids ⊢
  have hcore : s1.core = s.core := congrArg World.core hquiet.world
  have hstore : s1.store = s.store := congrArg Core.store hcore
  have hevents : s1.events = s.events := congrArg Core.events hcore
  -- the transaction is out of the store already
  have hsame : s1.store.setActive h false = s.store := by
    unfold TransactionStore.setActive
    rw [hstore, ← hinactive, Function.update_eq_self]
  refine (pool_deleted hhooks _ h).ok hids ?_
  refine ⟨?_, ?_, hquiet.acts.noCancel hs.noCancel, ?_⟩
  · show StoreOk (s1.store.setActive h false)
    rw [hsame]
    exact hs.store
  · show ∀ x, (s1.store.setActive h false).active x = true →
      isObtained x (.deleted h _ :: s1.events) = true
    rw [hsame, hevents]
    intro x ha
    have hne : h ≠ x := fun heq => by rw [heq, ha] at hinactive; cases hinactive
    unfold isObtained
    rw [decide_eq_true hne, hs.obtained x ha]
    rfl
  · show ∀ e ∈ .deleted h (s1.transaction h).callback.isSome :: s1.events, e.ReturnsFree
    rw [hevents]
    exact List.forall_mem_cons.2 ⟨trivial, hs.returned⟩

/-- An active transaction ends. -/
theorem pool_endActive (h : TransactionPtr) (hactive : s.store.active h = true) :
    PoolKeeps s (deleteFound hooks
      (({ s with store := ((s.store.setActive h false).btRemove (s.store.msgId h)).1 }).log
        (.ended h ((s.store.setActive h false).btRemove (s.store.msgId h)).2))
      ((s.store.setActive h false).btRemove (s.store.msgId h)).2) := by
  -- the history grows, and the invariant holds again
  constructor
  · generalize (s.store.setActive h false).btRemove (s.store.msgId h) = r
    obtain ⟨st, found⟩ := r
    have hlog : s.events <:+ (({ s with store := st } : Instance).log (.ended h found)).events :=
      List.suffix_cons _ _
    cases found with
    | none => exact hlog
    | some x => exact hlog.trans (history_delete hhooks _ x)
  · intro hids hs
    have hself := hs.store.btRemove_self hactive
    have hfinish := hs.store.finish h
    unfold TransactionStore.finish at hfinish
    rw [if_pos hactive] at hfinish
    dsimp only at hfinish
    rw [hself] at hfinish hids ⊢
    have hinactive : ((s.store.setActive h false).btRemove (s.store.msgId h)).1.active h = false :=
      Function.update_self _ _ _
    have hother (x : TransactionPtr)
        (ha : ((s.store.setActive h false).btRemove (s.store.msgId h)).1.active x = true) :
        s.store.active x = true :=
      TransactionStore.active_of_setActive_false ha
    generalize ((s.store.setActive h false).btRemove (s.store.msgId h)).1 = st
      at hfinish hids hinactive hother ⊢
    have hsame : st.setActive h false = st := by
      unfold TransactionStore.setActive
      rw [← hinactive, Function.update_eq_self]
    dsimp only at hfinish
    rw [hsame] at hfinish
    refine ok_delete hhooks ⟨hfinish, fun x ha => hs.obtained x (hother x ha), hs.noCancel, ?_⟩
      hinactive hids
    exact List.forall_mem_cons.2 ⟨trivial, hs.returned⟩

/-- The end of a transaction deletes it, and returns it if it came from the pool. -/
theorem pool_end (h : TransactionPtr) : PoolKeeps s (smcpTransactionEnd hooks s h) := by
  have hcurrent : Same s (if s.currentTransaction = some h then
      { s with currentTransaction := none } else s) := by
    split_ifs <;> exact ⟨rfl⟩
  unfold smcpTransactionEnd
  dsimp only
  split_ifs at hcurrent ⊢ with hcur hactive hactive
  · exact hcurrent.poolKeeps.trans (pool_endActive hhooks h hactive)
  · exact hcurrent.poolKeeps
  · exact pool_endActive hhooks h hactive
  · exact PoolKeeps.refl s

/-! ## Beginning -/

omit hhooks in
/-- An insertion that replaces nothing. -/
theorem insertTransaction_eq (hnone : (s.store.insertOver h).2 = none) :
    insertTransaction hooks s h = { s with store := (s.store.insertOver h).1 } := by
  unfold TransactionStore.insertOver at hnone ⊢
  unfold insertTransaction
  dsimp only at hnone ⊢
  cases hold : (s.store.btInsert h).2 with
  | none => rfl
  | some old =>
    rw [hold] at hnone
    cases hnone

/-- An insertion adds to the history, and so does what it pushes out. -/
theorem history_insert (s : Instance) (h : TransactionPtr) :
    s.events <:+ (insertTransaction hooks s h).events := by
  unfold insertTransaction
  dsimp only
  split
  · next old _ =>
    refine List.IsSuffix.trans ?_ (history_delete hhooks _ old)
    exact List.suffix_cons _ _
  · exact List.suffix_refl _

/-- So does the insertion under a new id. -/
theorem history_newMsgId (s : Instance) (h : TransactionPtr) (msgId : ℕ) :
    s.events <:+ (smcpTransactionNewMsgId hooks s h msgId).events := by
  unfold smcpTransactionNewMsgId
  split
  · exact history_insert hhooks { s with
      store := (s.store.btRemove (s.store.msgId h)).1.setMsgId h msgId } h
  · exact List.suffix_refl _

omit hhooks in
/-- Under an id that no other transaction has, nobody is pushed out. -/
theorem ok_newMsgId {msgId : ℕ} (hs : PoolOk s) (hno : s.store.NoOther h msgId) :
    PoolOk (smcpTransactionNewMsgId hooks s h msgId) := by
  obtain ⟨hstore, hnone⟩ := hs.store.rename msgId hno
  have hactive (x : TransactionPtr) (ha : (s.store.rename h msgId).1.active x = true) :
      s.store.active x = true := TransactionStore.active_of_rename ha
  unfold TransactionStore.rename at hstore hnone hactive
  unfold smcpTransactionNewMsgId
  by_cases ha : s.store.active h = true
  · rw [if_pos ha] at hstore hnone hactive ⊢
    dsimp only
    have hinsert := @insertTransaction_eq hooks { s with
      store := (s.store.btRemove (s.store.msgId h)).1.setMsgId h msgId } h hnone
    rw [hinsert]
    exact ⟨hstore, fun x hx => hs.obtained x (hactive x hx), hs.noCancel, hs.returned⟩
  · rw [if_neg ha]
    exact hs

/-- An active transaction goes on with a new id. -/
theorem pool_renew (h : TransactionPtr) :
    PoolKeeps s (smcpTransactionNewMsgId hooks (smcpGetNextMsgId s (.renewing h)).1 h
      (smcpGetNextMsgId s (.renewing h)).2) := by
  obtain ⟨r, hid, hworld⟩ := getNextMsgId_world s (.renewing h)
  -- the drawn id is a value from here on
  generalize smcpGetNextMsgId s (.renewing h) = drawn at hid hworld ⊢
  have hstore : drawn.1.store = s.store := congrArg (fun w => w.core.store) hworld
  have hevents : drawn.1.events = _ := congrArg (fun w => w.core.events) hworld
  have hcancel : drawn.1.timers = s.timers := congrArg (fun w => w.timers.list) hworld
  have hhistory := history_newMsgId hhooks drawn.1 h drawn.2
  -- the new id and its entry, and then what it keeps
  constructor
  · refine List.IsSuffix.trans ?_ hhistory
    rw [hevents]
    exact List.suffix_cons _ _
  · intro hids hs
    have hno : drawn.1.store.NoOther h drawn.2 := by
      rw [hstore, hid]
      apply hids (.drew (.renewing h) s.store s.lastMsgId r (drawnId s.lastMsgId r))
      apply hhistory.subset
      rw [hevents]
      exact List.mem_cons_self
    refine ok_newMsgId ⟨?_, ?_, ?_, ?_⟩ hno
    · rw [hstore]
      exact hs.store
    · rw [hstore, hevents]
      exact hs.obtained
    · rw [hcancel]
      exact hs.noCancel
    · rw [hevents]
      exact List.forall_mem_cons.2 ⟨trivial, hs.returned⟩

/-- The application gives a transaction an id. -/
theorem pool_renamed (h : TransactionPtr) (msgId : ℕ) :
    PoolKeeps s (smcpTransactionNewMsgId hooks (s.log (.renamed h msgId s.store s.lastMsgId)) h
      msgId) := by
  have hlog := @pool_log (.renamed h msgId s.store s.lastMsgId) s trivial
  have hhistory := history_newMsgId hhooks (s.log (.renamed h msgId s.store s.lastMsgId)) h msgId
  refine ⟨hlog.history.trans hhistory, fun hids hs => ?_⟩
  refine ok_newMsgId (hlog.ok (fun e he => hids e (hhistory.subset he)) hs) ?_
  exact hids (.renamed h msgId s.store s.lastMsgId) (hhistory.subset List.mem_cons_self)

/-- A transaction that has been obtained begins. -/
theorem pool_begin (h : TransactionPtr) (expiration : ℤ)
    (hobtained : isObtained h s.events = true) :
    PoolKeeps s (smcpTransactionBegin hooks s h expiration) := by
  -- the three parts of the source: the identity, the timer, and the entry in the store
  obtain ⟨r, hidentity⟩ := beginIdentity_world s h
  unfold smcpTransactionBegin
  generalize beginIdentity s h = s1 at hidentity ⊢
  obtain ⟨l, hsteps, hworld⟩ := beginTimer_world s1 h expiration
  generalize beginTimer s1 h expiration = s2 at hworld ⊢
  have htimers1 : s1.timerState = s.timerState := congrArg World.timers hidentity
  have hevents : s2.events = s1.events := congrArg (fun w => w.core.events) hworld
  have hstore : s2.store = s1.store := congrArg (fun w => w.core.store) hworld
  have hcancel : s2.timers = l.list := congrArg (fun w => w.timers.list) hworld
  rw [show s1.events = _ from congrArg (fun w => w.core.events) hidentity] at hevents
  rw [show s1.store = _ from congrArg (fun w => w.core.store) hidentity] at hstore
  dsimp only at hevents hstore
  have hhistory := history_insert hhooks s2 h
  constructor
  · refine List.IsSuffix.trans ?_ hhistory
    rw [hevents]
    exact List.suffix_append [_, _, _] s.events
  · intro hids hs
    have hevent (e : Event) (he : e ∈ s2.events) : e.SparesOthers := hids e (hhistory.subset he)
    rw [hevents] at hevent
    have hown : s.store.NoOther h (s.store.msgId h) := hevent (.begun h s.store) (by simp)
    have hno : s.store.NoOther h (drawnId s.lastMsgId r) :=
      hevent (.drew (.beginning h) (s.store.btRemove (s.store.msgId h)).1 s.lastMsgId r
        (drawnId s.lastMsgId r)) List.mem_cons_self
    obtain ⟨hstart, hnone⟩ := hs.store.start (drawnId s.lastMsgId r) hown hno
    have hactive (x : TransactionPtr)
        (ha : (s.store.start h (drawnId s.lastMsgId r)).1.active x = true) :
        s.store.active x = true ∨ x = h := TransactionStore.active_of_start ha
    unfold TransactionStore.start at hstart hnone hactive
    dsimp only at hstart hnone hactive
    rw [← hstore] at hstart hnone hactive
    rw [insertTransaction_eq hnone]
    refine ⟨hstart, fun x hx => ?_, ?_, ?_⟩
    · show isObtained x s2.events = true
      rw [hevents]
      rcases hactive x hx with ha | heq
      · exact hs.obtained x ha
      · rw [heq]
        exact hobtained
    · show s2.timers.NoCancel
      rw [hcancel]
      rw [htimers1] at hsteps
      have hacts : Acts s.world { s.world with timers := l } := acts_timers hsteps
      exact hacts.noCancel hs.noCancel
    · show ∀ e ∈ s2.events, e.ReturnsFree
      rw [hevents]
      exact List.forall_mem_cons.2 ⟨trivial, List.forall_mem_cons.2
        ⟨trivial, List.forall_mem_cons.2 ⟨trivial, hs.returned⟩⟩⟩

/-- The timer is set again. -/
theorem pool_tickle (h : TransactionPtr) : PoolKeeps s (smcpTransactionTickle hooks s h) :=
  (pool_invalidateTimer hhooks _).trans (quiet_scheduleTimer _ _ _).poolKeeps

/-! ## Calling back -/

/-- The request handlers of the application may use the pool. -/
theorem pool_handleRequest : PoolKeeps s (smcpHandleRequest hooks s).1 := by
  have hroute := (same_authInboundInit s).trans (same_vhostRoute _ s.requestHandler)
  unfold smcpHandleRequest
  dsimp only
  split
  · exact hroute.poolKeeps
  · refine PoolKeeps.trans ?_ (hhooks _ _)
    exact hroute.poolKeeps.trans (Same.poolKeeps ⟨rfl⟩)

omit hhooks in
/-- The table of observers knows nothing of the pool. -/
theorem pool_unlinkObserver (s : Instance) (context i : ℕ) :
    PoolKeeps s (unlinkObserver s context i) := by
  obtain ⟨o, -, hworld⟩ := unlinkObserver_world s context i
  have htimers : (unlinkObserver s context i).timerState = s.timerState :=
    congrArg World.timers hworld
  have hcore : (unlinkObserver s context i).core = s.core := congrArg World.core hworld
  have hstore : (unlinkObserver s context i).store = s.store := congrArg Core.store hcore
  have hevents : (unlinkObserver s context i).events = s.events := congrArg Core.events hcore
  have hlist : (unlinkObserver s context i).timers = s.timers := congrArg TimerState.list htimers
  generalize unlinkObserver s context i = u at hstore hevents hlist ⊢
  constructor
  · rw [hevents]
  · intro _ hs
    refine ⟨?_, ?_, ?_, ?_⟩
    · rw [hstore]
      exact hs.store
    · rw [hstore, hevents]
      exact hs.obtained
    · rw [hlist]
      exact hs.noCancel
    · rw [hevents]
      exact hs.returned

omit hhooks in
/-- Nothing that the pool has to do with is in the observer table. -/
theorem pool_of_eq {table : ℕ → Observer} {events : List ObserverEvent} :
    PoolKeeps s { s with observerTable := table, observerEvents := events } :=
  ⟨List.suffix_refl _, fun _ hs => ⟨hs.store, hs.obtained, hs.noCancel, hs.returned⟩⟩

/-- An observer ends its transaction, which is its own and not of the pool. -/
theorem pool_freeObserver (i : ℕ) : PoolKeeps s (freeObserver hooks s i) := by
  unfold freeObserver
  dsimp only
  split
  · exact pool_of_eq
  · next context _ =>
    refine PoolKeeps.trans ?_ pool_of_eq
    refine (pool_end hhooks (.observer i)).trans (PoolKeeps.trans ?_ (pool_unlinkObserver _ _ _))
    exact pool_of_eq

/-- The callback of the transaction of an observer frees the observer. -/
theorem pool_eventResponseHandler (statuscode : ℤ) (i : ℕ) :
    PoolKeeps s (eventResponseHandler hooks s statuscode i).1 := by
  have hfree := pool_freeObserver (s := s) hhooks i
  have hcases (p : Prop) [Decidable p] :
      PoolKeeps s (if p then (freeObserver hooks s i, smcpStatusReset) else (s, smcpStatusOk)).1 := by
    split_ifs
    · exact hfree
    · exact PoolKeeps.refl s
  exact hcases _

theorem pool_retrySendingEvent (i : ℕ) : PoolKeeps s (retrySendingEvent hooks s i).1 := by
  have hbegin := same_beginAsyncResponse s (httpToCoapCode 205) (s.observerTable i).asyncResponse
  unfold retrySendingEvent
  dsimp only
  -- the response of an observer, from its begin to its sending
  generalize smcpOutboundBeginAsyncResponse s (httpToCoapCode 205)
    (s.observerTable i).asyncResponse = r at hbegin ⊢
  -- a begin that fails sends nothing
  by_cases hr : r.2 = smcpStatusOk
  · have hoption : Same s (smcpOutboundAddOptionUint r.1 coapOptionObserve
        (r.1.observerTable i).seq).1 := hbegin.trans ⟨rfl⟩
    rw [if_neg (not_not.2 hr)]
    generalize smcpOutboundAddOptionUint r.1 coapOptionObserve (r.1.observerTable i).seq = r2
      at hoption ⊢
    by_cases hr2 : r2.2 = smcpStatusOk
    · rw [if_neg (not_not.2 hr2)]
      set s2 : Instance := { smcpOutboundSetTt r2.1 _ with
        inbound.hasObserveOption := true, isResponding := true, forceCurrentOutboundCode := true
        isProcessingMessage := true, didRespond := false }
      have hs2 : Same s s2 := hoption.trans ⟨rfl⟩
      have hhandle : PoolKeeps s (smcpHandleRequest hooks s2).1 :=
        hs2.poolKeeps.trans (pool_handleRequest hhooks)
      split_ifs
      · refine hhandle.trans (Same.poolKeeps ?_)
        refine Same.trans (Same.trans ?_ (same_send _)) ⟨rfl⟩
        exact ⟨rfl⟩
      · exact hhandle.trans (Same.poolKeeps ⟨rfl⟩)
    · rw [if_pos hr2]
      exact hoption.poolKeeps.trans (Same.poolKeeps ⟨rfl⟩)
  · rw [if_pos hr]
    exact hbegin.poolKeeps.trans (Same.poolKeeps ⟨rfl⟩)

/-- Either the application is called or an observer is freed. -/
theorem pool_callResponse (callback : ResponseFunc) (statuscode : ℤ) :
    PoolKeeps s (callResponse hooks s callback statuscode).1 := by
  cases callback with
  | user callback => exact hhooks _ _
  | eventResponseHandler i => exact pool_eventResponseHandler hhooks _ _

theorem pool_callResend (callback : ResendFunc) :
    PoolKeeps s (callResend hooks s callback).1 := by
  cases callback with
  | user callback => exact hhooks _ _
  | retrySendingEvent i => exact pool_retrySendingEvent hhooks _

/-! ## Timeouts -/

/-- Behind the resend the timer is set again. -/
theorem pool_timeoutResend (h : TransactionPtr) (resend : ResendFunc) (cms : ℤ) :
    PoolKeeps s (timeoutResend hooks s h resend cms).state := by
  unfold timeoutResend
  dsimp only
  set s1 : Instance := { s.log (.resent h (s.transaction h) s.now) with
    outbound.nextTid := s.store.msgId h, isProcessingMessage := false, isResponding := false
    didRespond := false }
  have hlog : PoolKeeps s (s.log (.resent h (s.transaction h) s.now)) := pool_log s trivial
  have h1 : PoolKeeps s s1 := hlog.trans (Same.poolKeeps ⟨rfl⟩)
  have hcall : PoolKeeps s (callResend hooks s1 resend).1 := h1.trans (pool_callResend hhooks _)
  generalize callResend hooks s1 resend = r at hcall ⊢
  have hu : PoolKeeps s (r.1.log (.resendReturned h r.2)) := hcall.trans (pool_log _ trivial)
  generalize r.1.log (.resendReturned h r.2) = u at hu ⊢
  split
  · refine PoolKeeps.trans ?_ (pool_log _ trivial)
    refine PoolKeeps.trans ?_ (pool_setTransaction _ _ _)
    exact hu.trans (minRetransmitTimeout_fst u cms _).1.poolKeeps
  · split
    · exact hu
    · exact hu

theorem pool_timeoutAttempt (h : TransactionPtr) (cms : ℤ) :
    PoolKeeps s (timeoutAttempt hooks s h cms).1 := by
  have hpassed : PoolKeeps s (s.log (.passed h)) := pool_log s trivial
  have hidle := hpassed.trans (pool_setTransaction _ h Transaction.noteAttempt)
  have hstep (resend : ResendFunc) (p : Prop) [Decidable p] (cms status cms' : ℤ) :
      PoolKeeps s (if p then timeoutResend hooks s h resend cms
        else ⟨(s.log (.passed h)).setTransaction h Transaction.noteAttempt, status, cms'⟩).state := by
    split_ifs
    · exact pool_timeoutResend hhooks h resend cms
    · exact hidle
  unfold timeoutAttempt
  dsimp only
  refine PoolKeeps.trans ?_ (quiet_scheduleTimer _ _ _).poolKeeps
  cases (s.transaction h).resendCallback with
  | none => exact hidle
  | some resend => exact hstep resend _ _ _ _

theorem pool_timeoutRestart (h : TransactionPtr) (cms : ℤ) :
    PoolKeeps s (timeoutRestart hooks s h cms).1 := by
  unfold timeoutRestart
  dsimp only
  set s1 := (s.log (.restarted h)).setTransaction h _
  have hlog : PoolKeeps s (s.log (.restarted h)) := pool_log s trivial
  have h1 : PoolKeeps s s1 := hlog.trans (pool_setTransaction _ h _)
  have hrenew := h1.trans (pool_renew hhooks h)
  generalize smcpTransactionNewMsgId hooks _ h _ = s2 at hrenew ⊢
  set s3 := s2.setTransaction h _
  have h3 : PoolKeeps s s3 := hrenew.trans (pool_setTransaction s2 h _)
  refine PoolKeeps.trans ?_ (quiet_scheduleTimer _ _ _).poolKeeps
  split_ifs
  · exact h3.trans (same_delayStart _ _ _).poolKeeps
  · exact h3

/-- The callback is told the status, and the transaction ends. -/
theorem pool_timeoutReport (h : TransactionPtr) (status : ℤ) :
    PoolKeeps s (timeoutReport hooks s h status) := by
  have hend (u : Instance) : PoolKeeps u
      (if hasFlag (u.transaction h).flags smcpTransactionNoAutoEnd then u
        else smcpTransactionEnd hooks u h) := by
    split_ifs
    · exact PoolKeeps.refl u
    · exact pool_end hhooks h
  have hlast (u : Instance) : PoolKeeps u (if u.currentTransaction ≠ some h then u
      else { (if hasFlag (u.transaction h).flags smcpTransactionNoAutoEnd then u
        else smcpTransactionEnd hooks u h) with currentTransaction := none }) := by
    split
    · exact PoolKeeps.refl u
    · exact (hend u).trans (Same.poolKeeps ⟨rfl⟩)
  unfold timeoutReport
  refine PoolKeeps.trans ?_ (hlast _)
  -- the state in which the callback is called
  set u := if hasFlag (s.transaction h).flags smcpTransactionAlwaysInvalidate = false ∧
      hasFlag (s.transaction h).flags smcpTransactionNoAutoEnd = false then
      s.setTransaction h fun t => { t with callback := none }
    else s with hu
  have hready : PoolKeeps s u := by
    rw [hu]
    split
    · exact pool_setTransaction s h _
    · exact PoolKeeps.refl s
  have hlog : PoolKeeps s (u.log (.called h status)) := hready.trans (pool_log u trivial)
  split
  · exact hlog.trans (pool_callResponse hhooks _ _)
  · exact hready

/-- What a timer of a transaction does is one of these. -/
theorem pool_transactionTimeout (h : TransactionPtr) :
    PoolKeeps s (smcpInternalTransactionTimeout_ hooks s h) := by
  unfold smcpInternalTransactionTimeout_
  dsimp only
  set s1 : Instance := { s.log (.timedOut h (s.transaction h) s.now) with
    currentTransaction := some h }
  have hlog : PoolKeeps s (s.log (.timedOut h (s.transaction h) s.now)) := pool_log s trivial
  have h1 : PoolKeeps s s1 := hlog.trans (Same.poolKeeps ⟨rfl⟩)
  have hreport (r : Instance × ℤ) (hr : PoolKeeps s1 r.1) :
      PoolKeeps s (if r.2 ≠ smcpStatusOk then timeoutReport hooks r.1 h r.2
        else { r.1 with currentTransaction := none }) := by
    refine (h1.trans hr).trans ?_
    split
    · exact pool_timeoutReport hhooks _ _
    · exact Same.poolKeeps ⟨rfl⟩
  apply hreport
  split_ifs
  · exact pool_timeoutAttempt hhooks h _
  · exact pool_timeoutRestart hhooks h _
  · exact PoolKeeps.refl s1

/-- The first timer fires, if it is due. -/
theorem pool_handleTimers : PoolKeeps s (smcpHandleTimers hooks s) := by
  unfold smcpHandleTimers
  split
  · exact PoolKeeps.refl s
  · next timer htimer =>
    dsimp only
    split
    · next hdue =>
      have hfired := (@quiet_fire hooks s timer htimer hdue).poolKeeps
      split
      · exact hfired.trans (pool_transactionTimeout hhooks _)
      · exact hfired.trans (hhooks _ _)
      · exact hfired
    · exact PoolKeeps.refl s

/-! ## Responses -/

omit hhooks in
/-- An observing transaction waits for the next notification. -/
theorem pool_rescheduleObserve (h : TransactionPtr) (cms : ℤ) :
    PoolKeeps s (rescheduleObserve s h cms) := by
  unfold rescheduleObserve
  exact (pool_setTransaction s h _).trans (quiet_scheduleTimer _ _ _).poolKeeps

/-- A transaction that failed is told so, and ends. -/
theorem pool_responseBail (ret : ℤ) (handler : Option TransactionPtr) :
    PoolKeeps s (responseBail hooks s ret handler).1 := by
  unfold responseBail
  split
  · split_ifs
    · exact pool_end hhooks _
    · exact PoolKeeps.refl s
  · exact PoolKeeps.refl s

/-- After the callback has been called for a notification. -/
theorem pool_afterNotification (r : Instance × ℤ) (h : TransactionPtr) (msgId : ℕ) (cms : ℤ) :
    PoolKeeps r.1
      (if r.1.currentTransaction = none ∨ msgId ≠ r.1.store.msgId h then r
      else
        let waits := (r.1.transaction h).waitingForAsyncResponse || r.1.inbound.hasObserveOption
        let s := (r.1.log (.answered h waits)).setTransaction h fun t =>
          { t with waitingForAsyncResponse := waits, attemptCount := 0 }
        let s := { s with
          timers := s.timers.modify (.ofTransaction h) fun t => { t with cancel := none } }
        let s := smcpInvalidateTimer hooks s (.ofTransaction h)
        responseBail hooks (rescheduleObserve s h cms) r.2 (some h)).1 := by
  split
  · exact PoolKeeps.refl r.1
  · refine PoolKeeps.trans ?_ (pool_responseBail hhooks _ _)
    refine PoolKeeps.trans ?_ (pool_rescheduleObserve _ _)
    refine PoolKeeps.trans ?_ (pool_invalidateTimer hhooks _)
    have hanswered (waits : Bool) : PoolKeeps r.1 (r.1.log (.answered h waits)) :=
      pool_log r.1 trivial
    exact ((hanswered _).trans (pool_setTransaction _ h _)).trans (quiet_uncancel _ _).poolKeeps

/-- The callback of an observing transaction is called with a notification. -/
theorem pool_respondObserve (h : TransactionPtr) (callback : ResponseFunc) :
    PoolKeeps s (respondObserve hooks s h callback).1 := by
  unfold respondObserve
  dsimp only
  split
  · refine PoolKeeps.trans ?_ (pool_responseBail hhooks _ _)
    exact PoolKeeps.trans (pool_log s (e := .notification h _ _) trivial) (pool_log _ trivial)
  · refine PoolKeeps.trans ?_ (pool_afterNotification hhooks _ h _ _)
    refine PoolKeeps.trans ?_ (pool_callResponse hhooks callback _)
    refine PoolKeeps.trans ?_ (pool_setTransaction _ h _)
    have hresponded : PoolKeeps s (s.logResponded h) := pool_log s trivial
    refine ((hresponded.trans (pool_log _ ?_)).trans (pool_log _ ?_)).trans (pool_log _ ?_)
    all_goals trivial

theorem pool_respondFinish (h : TransactionPtr) (ret : ℤ) :
    PoolKeeps s (respondFinish hooks s h ret).1 := by
  unfold respondFinish
  dsimp only
  split
  · refine PoolKeeps.trans ?_ (pool_responseBail hhooks _ _)
    refine PoolKeeps.trans ?_ (quiet_scheduleTimer _ _ _).poolKeeps
    refine PoolKeeps.trans ?_ (pool_invalidateTimer hhooks _)
    exact (pool_setTransaction s h _).trans (pool_renew hhooks h)
  · split
    · refine PoolKeeps.trans ?_ (pool_responseBail hhooks _ _)
      refine PoolKeeps.trans ?_ (pool_rescheduleObserve _ _)
      exact (pool_setTransaction s h _).trans (pool_invalidateTimer hhooks _)
    · have hset := pool_setTransaction s h fun t => { t with resendCallback := none }
      split
      · exact hset
      · exact hset.trans (pool_end hhooks h)

omit hhooks in
/-- A callback that is called for the last time is taken away before. -/
theorem pool_disarmCallback (h : TransactionPtr) : PoolKeeps s (disarmCallback s h) := by
  unfold disarmCallback
  split
  · exact pool_setTransaction s h _
  · exact PoolKeeps.refl s

/-- Every other callback is called for the last time. -/
theorem pool_respondOnce (h : TransactionPtr) (callback : ResponseFunc) :
    PoolKeeps s (respondOnce hooks s h callback).1 := by
  unfold respondOnce
  dsimp only
  have hresponded : PoolKeeps s (s.logResponded h) := pool_log s trivial
  have hcalled : PoolKeeps s ((s.logResponded h).log (.called h s.inbound.responseStatus)) :=
    hresponded.trans (pool_log _ trivial)
  have h1 := hcalled.trans (pool_disarmCallback h)
  generalize disarmCallback ((s.logResponded h).log (.called h s.inbound.responseStatus)) h = s1
    at h1 ⊢
  have hcall := h1.trans (pool_callResponse hhooks callback s1.inbound.responseStatus)
  generalize callResponse hooks s1 callback _ = r at hcall ⊢
  split
  · exact hcall
  · have hanswered : PoolKeeps r.1 (r.1.log (.answered h false)) := pool_log r.1 trivial
    have hreset := hcall.trans (hanswered.trans (pool_setTransaction _ h fun t =>
      { t with attemptCount := 0, waitingForAsyncResponse := false }))
    split
    · exact hreset.trans (pool_respondFinish hhooks _ _)
    · exact hreset.trans (pool_responseBail hhooks _ _)

theorem pool_respondTo (h : TransactionPtr) : PoolKeeps s (respondTo hooks s h).1 := by
  have hprepare : PoolKeeps s (prepareCallback s) :=
    (same_authInboundInit s).poolKeeps.trans (Same.poolKeeps ⟨rfl⟩)
  have hacknowledge (tt : ℕ) : PoolKeeps s (s.log (.acknowledged h tt)) := pool_log s trivial
  unfold respondTo
  dsimp only
  split
  · refine (hacknowledge (headerTt s.inbound.bytes)).trans ?_
    exact pool_setTransaction _ h fun t => { t with waitingForAsyncResponse := true }
  · split
    · exact PoolKeeps.refl s
    · split
      · exact hprepare.trans (pool_respondObserve hhooks h _)
      · exact hprepare.trans (pool_respondOnce hhooks h _)

/-- The response is taken to the transaction that it belongs to. -/
theorem pool_handleResponse : PoolKeeps s (smcpHandleResponse hooks s).1 := by
  have hlog : PoolKeeps s (s.log (.received s.inbound s.store s.transaction)) := pool_log s trivial
  have hcurrent (handler : Option TransactionPtr) : PoolKeeps s
      { s.log (.received s.inbound s.store s.transaction) with currentTransaction := handler } :=
    hlog.trans (Same.poolKeeps ⟨rfl⟩)
  unfold smcpHandleResponse
  dsimp only
  split
  · exact (hcurrent _).trans (same_respondUnknown _).poolKeeps
  · exact (hcurrent _).trans (pool_respondTo hhooks _)

/-! ## Packets -/

theorem pool_dispatchPacket : PoolKeeps s (dispatchPacket hooks s).1 := by
  unfold dispatchPacket
  split_ifs
  · exact pool_handleRequest hhooks
  · exact pool_handleResponse hhooks
  · exact PoolKeeps.refl s

omit hhooks in
theorem pool_preparePacket : PoolKeeps s (preparePacket s) := by
  unfold preparePacket smcpInboundDupeCheck
  dsimp only
  split_ifs
  all_goals exact ⟨List.suffix_refl _, fun _ hs => ⟨hs.store, hs.obtained, hs.noCancel, hs.returned⟩⟩

/-- The message is handled and, if nobody did, replied to. -/
theorem pool_finishPacket : PoolKeeps s (smcpInboundFinishPacket hooks s).1 := by
  have hbail (u : Instance) : Same u (finishPacketBail u) := ⟨rfl⟩
  unfold smcpInboundFinishPacket
  dsimp only
  split_ifs
  · exact (hbail s).poolKeeps
  · exact (hbail s).poolKeeps
  · refine PoolKeeps.trans ?_ ((same_automaticReply _ _ _).trans (hbail _)).poolKeeps
    exact pool_preparePacket.trans (pool_dispatchPacket hhooks)

/-- The packet is checked and handled. -/
theorem pool_processPacket (buffer : ℕ → UInt8) (packetLength : ℕ) (source : SockAddr)
    (dest : Option SockAddr) :
    PoolKeeps s (processPacket hooks s buffer packetLength source dest).1 := by
  have hstart := same_startPacket s buffer packetLength
  unfold processPacket
  dsimp only
  split_ifs
  · exact hstart.poolKeeps
  · have hsrc := hstart.trans (same_setSrcaddr _ source)
    refine PoolKeeps.trans ?_ (pool_finishPacket hhooks)
    unfold addressPacket
    split
    · exact (hsrc.trans (same_inboundSetDestaddr _ _)).poolKeeps
    · exact hsrc.poolKeeps

/-- One round of `smcp_process` with a datagram or without one. -/
theorem pool_process (arrival : Option Arrival) (rest : ℕ → UInt8) :
    PoolKeeps s (smcpProcess hooks s arrival rest) := by
  have htimers (r : Instance × Bool) (hr : PoolKeeps s r.1) :
      PoolKeeps s (if r.2 then smcpHandleTimers hooks r.1 else r.1) := by
    split_ifs
    · exact hr.trans (pool_handleTimers hhooks)
    · exact hr
  unfold smcpProcess
  refine PoolKeeps.trans (htimers _ ?_) (Same.poolKeeps ⟨rfl⟩)
  split
  · unfold receivePacket
    dsimp only
    split_ifs
    · exact PoolKeeps.refl s
    · exact pool_processPacket hhooks _ _ _ _
  · exact PoolKeeps.refl s

end

/-! ## Runs -/

section
variable {hooks : Hooks} {s s' : Instance} {now : Timeval} {random : ℕ → ℕ} {sendResult : ℕ → ℤ}

/-- A transaction without a callback is not active, if all that have been obtained have one. -/
theorem pool_init (flags : ℕ) (resendCallback callback : Option ℕ)
    (hpointers : ∀ h, isObtained h s.events = true → (s.transaction h).callback.isSome = true) :
    PoolKeeps s (poolTransactionInit s flags resendCallback callback).1 := by
  unfold poolTransactionInit
  -- no place is free, or the first one that is
  split
  · exact PoolKeeps.refl s
  · next i hfound =>
    have hfields := pool_setTransaction (s.log (.initialized (.user i) s.store)) (.user i) fun t =>
      { t with
        shouldDealloc := true, resendCallback := resendCallback.map .user
        callback := callback.map .user, flags := flags % 256 }
    refine PoolKeeps.trans ?_ hfields
    refine ⟨List.suffix_cons _ _, fun _ hs => ⟨hs.store, fun h ha => ?_, hs.noCancel, ?_⟩⟩
    · show isObtained h (.initialized (.user i) s.store :: s.events) = true
      unfold isObtained
      rw [hs.obtained h ha, Bool.or_true]
    -- a transaction that has been obtained has a callback, and this one has none
    · have hnone : (s.transaction (.user i)).callback.isNone = true := by
        have hfree := List.find?_some hfound
        exact hfree
      have hinactive : s.store.active (.user i) = false := by
        by_contra hactive
        rw [Bool.not_eq_false] at hactive
        have hsome := hpointers (.user i) (hs.obtained _ hactive)
        rw [Option.isNone_iff_eq_none.1 hnone] at hsome
        cases hsome
      refine List.forall_mem_cons.2 ⟨⟨hinactive, ?_⟩, hs.returned⟩
      rw [← hs.store.linked_iff, hinactive]
      exact Bool.false_ne_true

/-- Every operation that leaves the pointers alone keeps the pool in order. -/
theorem pool_op (hhooks : ∀ c u, PoolKeeps u (hooks c u).1) {op : PoolOp}
    (hop : op.KeepsPointers s) : PoolKeeps s (op.exec hooks s) := by
  have hpool := pool_hooks hhooks
  cases op with
  | tick now => exact Same.poolKeeps ⟨rfl⟩
  | process arrival rest => exact pool_process hpool _ _
  | handleTimers => exact pool_handleTimers hpool
  | outbound call => exact (same_outboundCall call s).poolKeeps
  | transactionInit flags resendCallback callback => exact pool_init _ _ _ hop.2
  | transactionBegin n expiration => exact pool_begin hpool _ _ hop.1
  | transactionEnd n => exact pool_end hpool _
  | transactionNewMsgId n msgId => exact pool_renamed hpool _ _
  | transactionTickle n => exact pool_tickle hpool _

/-- At first the pool is full and nobody has anything of it. -/
theorem poolOk_create : PoolOk (smcpCreate now random sendResult) where
  store := storeOk_create now random sendResult
  obtained _ ha := Bool.noConfusion ha
  noCancel _ := rfl
  returned _ he := nomatch he

/-- A run of a program that uses the pool. -/
abbrev PoolRun (C : PoolOp → Instance → Prop) : Instance → Instance → Prop :=
  ReachesIf PoolOp.exec C

/-- Every transaction that is taken from the pool in a run is neither active nor in the store, if
those that have been obtained have their callback pointers then. -/
theorem pool_returns_free (hrun : PoolRun PoolOp.KeepsPointers (smcpCreate now random sendResult) s)
    (hids : ∀ e ∈ s.events, e.SparesOthers) : ∀ e ∈ s.events, e.ReturnsFree := by
  have hkeeps : PoolKeeps (smcpCreate now random sendResult) s := by
    apply ReachesIf.rel PoolKeeps.refl _ _ hrun
    · exact fun _ _ _ => PoolKeeps.trans
    · exact fun hooks op u hhooks hop => pool_op hhooks hop
  exact (hkeeps.ok hids poolOk_create).returned

end

/-- Obtain a transaction of the pool and begin it. -/
def poolLaunch (expiration : ℤ) : List PoolOp :=
  [.transactionInit 0 none (some 0), .transactionBegin 0 expiration]

/-- One that is obtained when the first one has ended. -/
def poolAgain : Instance :=
  execAll PoolOp.exec (fun _ s => (s, smcpStatusOk))
    (poolLaunch 5000 ++ [.transactionEnd 0, .transactionInit 0 none (some 0)])
    (smcpCreate default (fun _ => 5) fun _ => 1)

/-- Each step of the run meets the condition. -/
theorem poolRun_again : PoolRun PoolOp.KeepsPointers (smcpCreate default (fun _ => 5) fun _ => 1)
    poolAgain := by
  apply ReachesIf.execAll (fun c u => .refl u) (.refl _)
  refine ⟨⟨trivial, ?_⟩, ⟨rfl, trivial⟩, ⟨trivial, trivial⟩, ⟨trivial, ?_⟩, trivial⟩
  · intro h hobtained
    cases hobtained
  · rintro (⟨_ | n⟩ | i) hobtained
    · cases hobtained
    · cases hobtained
    · cases hobtained

theorem poolAgain_sparesOthers : ∀ e ∈ poolAgain.events, e.SparesOthers := by
  change ∀ e ∈ [_, _, _, _, _, _, _, _], Event.SparesOthers e
  simp only [List.forall_mem_cons]
  refine ⟨trivial, trivial, trivial, trivial, ?_, ?_, trivial, trivial, List.forall_mem_nil _⟩
  -- it is alone
  iterate 2
    rintro (⟨_ | n⟩ | i) hne ha
    · exact absurd rfl hne
    · cases ha
    · cases ha

/-- All that is returned was obtained, and is returned once. -/
theorem pool_returns_free_again :
    (∀ e ∈ poolAgain.events, e.ReturnsFree) ∧ poolAgain.events.length = 8 :=
  ⟨pool_returns_free poolRun_again poolAgain_sparesOthers, by decide⟩

/-- An application that obtains another transaction when it is called back. -/
def obtainingHooks : Hooks
  | .response _ _, s => ((poolTransactionInit s 0 none (some 1)).1, smcpStatusOk)
  | _, s => (s, smcpStatusOk)

/-- It is called back for a timeout. -/
def poolTimeout : Instance :=
  execAll PoolOp.exec obtainingHooks (poolLaunch 0 ++ [.handleTimers])
    (smcpCreate default (fun _ => 5) fun _ => 1)

theorem poolRun_timeout : PoolRun PoolOp.Legal (smcpCreate default (fun _ => 5) fun _ => 1)
    poolTimeout := by
  apply ReachesIf.execAll ?_ (.refl _)
  · exact ⟨trivial, rfl, trivial, trivial⟩
  · intro c u
    unfold obtainingHooks
    split
    · exact (ReachesIf.refl u).step (fun _ s => (s, smcpStatusOk)) (fun _ s => .refl s)
        (PoolOp.transactionInit 0 none (some 1)) trivial
    · exact .refl u

def Event.returnsActive : Event → Bool
  | .initialized h st => st.active h
  | _ => false

/-- What is returned is not active any more. -/
theorem Event.ReturnsFree.not_active {e : Event} (hfree : e.ReturnsFree) :
    e.returnsActive = false := by
  cases e with
  | initialized h st => exact hfree.1
  | _ => rfl

/-- The pointer to the callback has been cleared when it is called, and so it gets the transaction
that it is called for. -/
theorem pool_returns_active : ¬∀ now random sendResult s,
    PoolRun PoolOp.Legal (smcpCreate now random sendResult) s →
      ∀ e ∈ s.events, e.ReturnsFree := by
  intro hall
  have hfree := hall _ _ _ _ poolRun_timeout
  have hactive : poolTimeout.events.any Event.returnsActive = true := by decide +kernel
  obtain ⟨e, he, hreturns⟩ := List.any_eq_true.1 hactive
  rw [(hfree e he).not_active] at hreturns
  cases hreturns

end Smcp
