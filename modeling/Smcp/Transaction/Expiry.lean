import Smcp.Timer.Cancel

/-!
# Expired transactions

The timer of a transaction that fires at or past its expiration, in
`smcp_internal_transaction_timeout_`. A transaction without an attempt so far is given one, however
often its timer has fired before; every other one is ended.

* `Keeps`: what the callbacks of the application and the functions of the library leave of a
  transaction;
* `transactionTimeout_ends`: the step;
* `expired_ends`: the run.
-/

namespace Smcp

open Run

/-- The transaction `h` is not begun again, is current as long as it is active, and keeps its flag
that it is not ended automatically; the history goes on. -/
structure Keeps (h : TransactionPtr) (u u' : Instance) : Prop where
  ended : u.store.active h = false → u'.store.active h = false
  current : u.currentTransaction = some h →
    u'.currentTransaction = some h ∨ u'.store.active h = false
  flag : hasFlag (u'.transaction h).flags smcpTransactionNoAutoEnd =
    hasFlag (u.transaction h).flags smcpTransactionNoAutoEnd
  events : u.events <:+ u'.events

section
variable {hooks : Hooks} {h h' : TransactionPtr} {s u u' u'' : Instance}

theorem Keeps.refl (h : TransactionPtr) (u : Instance) : Keeps h u u :=
  ⟨id, .inl, rfl, List.suffix_refl _⟩

theorem Keeps.trans (hk : Keeps h u u') (hk' : Keeps h u' u'') : Keeps h u u'' where
  ended hu := hk'.ended (hk.ended hu)
  current hu := (hk.current hu).elim hk'.current fun hended => .inr (hk'.ended hended)
  flag := hk'.flag.trans hk.flag
  events := hk.events.trans hk'.events

theorem keeps_log (h : TransactionPtr) (s : Instance) (e : Event) : Keeps h s (s.log e) :=
  ⟨id, .inl, rfl, List.suffix_cons _ _⟩

/-- Neither the transaction nor what is current changes. -/
theorem Keeps.of_eq (hactive : u'.store.active h = u.store.active h)
    (hcurrent : u'.currentTransaction = u.currentTransaction)
    (hflag : (u'.transaction h).flags = (u.transaction h).flags) (hevents : u.events <:+ u'.events) :
    Keeps h u u' where
  ended hu := hactive.trans hu
  current hu := .inl (hcurrent.trans hu)
  flag := by rw [hflag]
  events := hevents

theorem setActive_false_active {st : TransactionStore} (hst : h' = h ∨ st.active h = false) :
    (st.setActive h' false).active h = false := by
  by_cases heq : h = h'
  · rw [heq]
    exact Function.update_self _ _ _
  · rw [← hst.resolve_left (Ne.symm heq)]
    exact Function.update_of_ne heq _ _

/-- The transaction is current, or it has been ended. -/
def CurrentOrEnded (h : TransactionPtr) (u : Instance) : Prop :=
  u.currentTransaction = some h ∨ u.store.active h = false

theorem Keeps.currentOrEnded (hk : Keeps h u u') (hu : CurrentOrEnded h u) : CurrentOrEnded h u' :=
  hu.elim hk.current fun hended => .inr (hk.ended hended)

variable (hhooks : ∀ c u, Keeps h u (hooks c u).1)
include hhooks

theorem keeps_invalidateTimer (s : Instance) (t : TimerPtr) :
    Keeps h s (smcpInvalidateTimer hooks s t) := by
  unfold smcpInvalidateTimer
  dsimp only
  split
  · refine Keeps.trans ?_ (hhooks _ _)
    exact .of_eq rfl rfl rfl (List.suffix_refl _)
  · exact .of_eq rfl rfl rfl (List.suffix_refl _)

theorem keeps_deleteTransaction (s : Instance) (h' : TransactionPtr) :
    Keeps h s (smcpInternalDeleteTransaction_ hooks s h') := by
  have hfreed (u : Instance) (dealloc : Bool) : Keeps h u (if dealloc then u.log (.freed h') else u) := by
    split_ifs
    · exact keeps_log h u _
    · exact .refl h u
  unfold smcpInternalDeleteTransaction_
  dsimp only
  have hinvalidated := keeps_invalidateTimer hhooks s (.ofTransaction h')
  generalize smcpInvalidateTimer hooks s (.ofTransaction h') = s1 at hinvalidated ⊢
  have hinactive : Keeps h s1 { s1 with store := s1.store.setActive h' false } :=
    ⟨fun hu => setActive_false_active (.inr hu), .inl, rfl, List.suffix_refl _⟩
  have hdeleted := hinvalidated.trans (hinactive.trans
    (keeps_log h _ (.deleted h' (s1.transaction h').callback.isSome)))
  refine Keeps.trans ?_ (hfreed _ _)
  split
  · exact hdeleted.trans (hhooks _ _)
  · exact hdeleted

/-- Whatever transaction is ended, `h` is not active afterwards if it is that one. -/
theorem keeps_transactionEnd (s : Instance) (h' : TransactionPtr) :
    Keeps h s (smcpTransactionEnd hooks s h') ∧
      (h' = h → (smcpTransactionEnd hooks s h').store.active h = false) := by
  have hfound (u : Instance) (found : Option TransactionPtr) : Keeps h u (deleteFound hooks u found) := by
    cases found with
    | none => exact .refl h u
    | some x => exact keeps_deleteTransaction hhooks u x
  unfold smcpTransactionEnd
  dsimp only
  -- the source forgets the current transaction first, if it is the one to end
  generalize hs1 : (if s.currentTransaction = some h' then { s with currentTransaction := none } else s) =
    s1
  have hsame : s1.store = s.store ∧ s1.transaction = s.transaction ∧ s1.events = s.events := by
    rw [← hs1]
    split_ifs <;> exact ⟨rfl, rfl, rfl⟩
  have hcurrent : s.currentTransaction = some h → h' ≠ h → s1.currentTransaction = some h := by
    intro hs hne
    rw [← hs1, if_neg fun hs' => hne (Option.some.inj (hs'.symm.trans hs))]
    exact hs
  -- with `h` out of the store, or not there before, the state without it keeps what `Keeps` says
  have hstart (st : TransactionStore)
      (hst : h' = h ∨ s.store.active h = false → st.active h = false) :
      Keeps h s { s1 with store := st } := by
    refine ⟨fun hs => hst (.inr hs), fun hs => ?_, ?_, ?_⟩
    · by_cases heq : h' = h
      · exact .inr (hst (.inl heq))
      · exact .inl (hcurrent hs heq)
    · show hasFlag (s1.transaction h).flags _ = _
      rw [hsame.2.1]
    · show s.events <:+ s1.events
      rw [hsame.2.2]
  -- ended while it is active, or already taken out
  by_cases hactive : s1.store.active h' = true
  · rw [if_pos hactive]
    have hremoved : h' = h ∨ s.store.active h = false →
        (((s1.store.setActive h' false).btRemove (s1.store.msgId h')).1).active h = false := by
      rw [← hsame.1]
      exact setActive_false_active
    generalize (s1.store.setActive h' false).btRemove (s1.store.msgId h') = removed at hremoved ⊢
    have hended := hfound (({ s1 with store := removed.1 }).log (.ended h' removed.2)) removed.2
    exact ⟨((hstart _ hremoved).trans (keeps_log h _ _)).trans hended,
      fun heq => hended.ended (hremoved (.inl heq))⟩
  · rw [if_neg hactive]
    have hinactive : h' = h ∨ s.store.active h = false → s1.store.active h = false := by
      rintro (rfl | hs)
      · simpa using hactive
      · rw [hsame.1]
        exact hs
    exact ⟨hstart s1.store hinactive, fun heq => hinactive (.inl heq)⟩

omit hhooks in
theorem keeps_unlinkObserver (h : TransactionPtr) (s : Instance) (context i : ℕ) :
    Keeps h s (unlinkObserver s context i) := by
  unfold unlinkObserver
  dsimp only
  split_ifs
  · exact .of_eq rfl rfl rfl (List.suffix_refl _)
  · exact .of_eq rfl rfl rfl (List.suffix_refl _)
  · cases freeObserverSearch s ((s.observables context).firstObserver - 1) (smcpMaxObservers + 1) i with
    | none => exact .of_eq rfl rfl rfl (List.suffix_refl _)
    | some j =>
      dsimp only
      split_ifs <;> exact .of_eq rfl rfl rfl (List.suffix_refl _)
  · exact .of_eq rfl rfl rfl (List.suffix_refl _)

theorem keeps_freeObserver (s : Instance) (i : ℕ) : Keeps h s (freeObserver hooks s i) := by
  unfold freeObserver
  dsimp only
  cases (s.observerTable i).observable with
  | none => exact .of_eq rfl rfl rfl (List.suffix_refl _)
  | some context =>
    have hended := (keeps_transactionEnd hhooks s (.observer i)).1
    dsimp only
    generalize smcpTransactionEnd hooks s (.observer i) = s1 at hended ⊢
    have hreleased : Keeps h s1 (s1.logObserver (.released context i
        (s1.observables context).firstObserver (s1.observables context).lastObserver)) :=
      .of_eq rfl rfl rfl (List.suffix_refl _)
    refine (hended.trans (hreleased.trans (keeps_unlinkObserver h _ context i))).trans ?_
    exact .of_eq rfl rfl rfl (List.suffix_refl _)

theorem keeps_callResponse (s : Instance) (callback : ResponseFunc) (status : ℤ) :
    Keeps h s (callResponse hooks s callback status).1 := by
  cases callback with
  | user callback => exact hhooks _ _
  | eventResponseHandler i =>
    unfold callResponse eventResponseHandler
    dsimp only
    split_ifs
    all_goals first | exact keeps_freeObserver hhooks s i | exact .refl h s

/-- `h` has been ended between `u` and `u'`, and its callback, if it had one, was called for the
timeout. -/
def EndedByTimeout (h : TransactionPtr) (u u' : Instance) : Prop :=
  u'.store.active h = false ∧ ∃ es, u'.events = es ++ u.events ∧
    ((u.transaction h).callback.isSome = true → .called h smcpStatusTimeout ∈ es)

/-- The last part of the timeout handler: a transaction that is still current is ended. -/
theorem endCurrent_ends (hcurrent : CurrentOrEnded h u)
    (hauto : hasFlag (u.transaction h).flags smcpTransactionNoAutoEnd = false) {r : Instance}
    (hr : r = if u.currentTransaction ≠ some h then u
      else
        { (if hasFlag (u.transaction h).flags smcpTransactionNoAutoEnd then u
            else smcpTransactionEnd hooks u h) with currentTransaction := none }) :
    r.store.active h = false ∧ u.events <:+ r.events := by
  rw [hr]
  by_cases hne : u.currentTransaction ≠ some h
  · rw [if_pos hne]
    exact ⟨hcurrent.resolve_left hne, List.suffix_refl _⟩
  · have hended := keeps_transactionEnd hhooks u h
    rw [if_neg hne, if_neg (by simp [hauto])]
    exact ⟨hended.2 rfl, hended.1.events⟩

/-- A timeout that is reported ends the transaction. -/
theorem timeoutReport_ends (hcurrent : CurrentOrEnded h s)
    (hauto : hasFlag (s.transaction h).flags smcpTransactionNoAutoEnd = false) :
    EndedByTimeout h s (timeoutReport hooks s h smcpStatusTimeout) := by
  unfold timeoutReport
  dsimp only
  -- the callback is taken out, unless it is called once more when the transaction is deleted
  have hdisarmed : Keeps h s (if hasFlag (s.transaction h).flags smcpTransactionAlwaysInvalidate =
        false ∧ hasFlag (s.transaction h).flags smcpTransactionNoAutoEnd = false then
      s.setTransaction h fun t => { t with callback := none } else s) := by
    split_ifs
    · refine .of_eq rfl rfl ?_ (List.suffix_refl _)
      show (Function.update s.transaction h _ h).flags = _
      rw [Function.update_self]
    · exact .refl h s
  have hevents : (if hasFlag (s.transaction h).flags smcpTransactionAlwaysInvalidate =
        false ∧ hasFlag (s.transaction h).flags smcpTransactionNoAutoEnd = false then
      s.setTransaction h fun t => { t with callback := none } else s).events = s.events := by
    split_ifs <;> rfl
  generalize (if hasFlag (s.transaction h).flags smcpTransactionAlwaysInvalidate =
        false ∧ hasFlag (s.transaction h).flags smcpTransactionNoAutoEnd = false then
      s.setTransaction h fun t => { t with callback := none } else s) = s1 at hdisarmed hevents ⊢
  cases hcallback : (s.transaction h).callback with
  | none =>
    dsimp only
    obtain ⟨hended, es, hes⟩ := endCurrent_ends hhooks (hdisarmed.currentOrEnded hcurrent)
      (hdisarmed.flag.trans hauto) rfl
    refine ⟨hended, es, ?_, fun hsome => ?_⟩
    · rw [← hes, hevents]
    · rw [hcallback] at hsome
      exact absurd hsome (by decide)
  | some callback =>
    have hcalled := keeps_callResponse hhooks (s1.log (.called h smcpStatusTimeout)) callback
      smcpStatusTimeout
    have hkeeps := (hdisarmed.trans (keeps_log h s1 (.called h smcpStatusTimeout))).trans hcalled
    dsimp only
    obtain ⟨hended, hes⟩ := endCurrent_ends hhooks (hkeeps.currentOrEnded hcurrent)
      (hkeeps.flag.trans hauto) rfl
    obtain ⟨es, hes⟩ := hcalled.events.trans hes
    refine ⟨hended, es ++ [.called h smcpStatusTimeout], ?_, fun _ => by simp⟩
    rw [← hes]
    show es ++ (_ :: s1.events) = _
    rw [hevents]
    simp

omit hhooks in
theorem EndedByTimeout.of_before (hended : EndedByTimeout h u u') (hevents : s.events <:+ u.events)
    (hcallback : (u.transaction h).callback = (s.transaction h).callback) :
    EndedByTimeout h s u' := by
  obtain ⟨hinactive, es, hes, hcalled⟩ := hended
  obtain ⟨es', hes'⟩ := hevents
  refine ⟨hinactive, es ++ es', ?_, fun hsome => ?_⟩
  · rw [hes, ← hes', List.append_assoc]
  · rw [← hcallback] at hsome
    exact List.mem_append_left _ (hcalled hsome)

omit hhooks in
/-- Scheduling a timer is no matter of the transactions. -/
theorem scheduleTimer_same (s : Instance) (t : TimerPtr) (cms : ℤ) :
    (smcpScheduleTimer s t cms).1.transaction = s.transaction ∧
      (smcpScheduleTimer s t cms).1.currentTransaction = s.currentTransaction ∧
      (smcpScheduleTimer s t cms).1.events = s.events := by
  unfold smcpScheduleTimer
  dsimp only
  generalize convertCmsToTimeval s.now (if cms < 0 then 0 else cms) = date
  split_ifs
  · exact ⟨rfl, rfl, rfl⟩
  · split <;> exact ⟨rfl, rfl, rfl⟩

/-- An attempt has been made since the transaction began or was answered last, or there is none to
make and nothing to wait for. -/
def Transaction.Attempted (t : Transaction) : Prop :=
  t.attemptCount ≠ 0 ∨ t.resendCallback = none ∧ t.suppressesResend = false

instance (t : Transaction) : Decidable t.Attempted := inferInstanceAs (Decidable (_ ∨ _ ∧ _))

/-- The timer of `h` has fired. -/
def Instance.firing (s : Instance) (h : TransactionPtr) : Instance :=
  { s.log (.timedOut h (s.transaction h) s.now) with currentTransaction := some h }

omit hhooks in
/-- The choice of the timeout handler, and what follows it. -/
theorem transactionTimeout_eq {cms : ℤ} {r : Instance × ℤ}
    (hcms : convertTimevalToCms s.now (s.transaction h).expiration = cms)
    (hr : (if cms > 0 ∨ (s.transaction h).attemptCount = 0 then
        timeoutAttempt hooks (s.firing h) h cms
      else if hasFlag (s.transaction h).flags smcpTransactionObserve then
        timeoutRestart hooks (s.firing h) h cms
      else (s.firing h, smcpStatusTimeout)) = r) (hstatus : r.2 = smcpStatusTimeout) :
    smcpInternalTransactionTimeout_ hooks s h = timeoutReport hooks r.1 h smcpStatusTimeout := by
  have hreported : (if r.2 ≠ smcpStatusOk then timeoutReport hooks r.1 h r.2
      else { r.1 with currentTransaction := none }) = timeoutReport hooks r.1 h smcpStatusTimeout := by
    rw [hstatus]
    exact if_pos (by decide)
  rw [← hreported, ← hr, ← hcms]
  rfl

omit hhooks in
/-- Such a transaction that fires at or past its expiration has its timeout reported. -/
theorem transactionTimeout_reports
    (hexpired : convertTimevalToCms s.now (s.transaction h).expiration ≤ 0)
    (hobserve : hasFlag (s.transaction h).flags smcpTransactionObserve = false)
    (hattempted : (s.transaction h).Attempted) :
    ∃ u, smcpInternalTransactionTimeout_ hooks s h = timeoutReport hooks u h smcpStatusTimeout ∧
      u.currentTransaction = some h ∧ (u.transaction h).flags = (s.transaction h).flags ∧
      (u.transaction h).callback = (s.transaction h).callback ∧ s.events <:+ u.events := by
  have hlogged : s.events <:+ (s.firing h).events := List.suffix_cons _ _
  by_cases hcount : (s.transaction h).attemptCount = 0
  · -- there is nothing to send, and that is a timeout
    obtain ⟨hresend, hsuppress⟩ := hattempted.resolve_left (not_not.2 hcount)
    have hidle := @timeoutAttempt_idle hooks (s.firing h) h (.inl hresend)
    have hstatus : (if ((s.firing h).transaction h).suppressesResend then smcpStatusOk
        else smcpStatusTimeout) = smcpStatusTimeout := by
      show (if (s.transaction h).suppressesResend then _ else _) = _
      rw [hsuppress]
      exact if_neg (by decide)
    obtain ⟨htransaction, hcurrent, hevents⟩ := scheduleTimer_same
      (((s.firing h).log (.passed h)).setTransaction h Transaction.noteAttempt) (.ofTransaction h)
      (((s.firing h).transaction h).attemptCms (s.firing h).now)
    have hnoted : (((s.firing h).log (.passed h)).setTransaction h
        Transaction.noteAttempt).transaction h = (s.transaction h).noteAttempt :=
      Function.update_self _ _ _
    have hpassed : (s.firing h).events <:+ (((s.firing h).log (.passed h)).setTransaction h
        Transaction.noteAttempt).events := List.suffix_cons _ _
    refine ⟨_, transactionTimeout_eq rfl ((if_pos (.inr hcount)).trans hidle) hstatus, hcurrent, ?_, ?_,
      ?_⟩
    · rw [htransaction, hnoted]
      rfl
    · rw [htransaction, hnoted]
      rfl
    · rw [hevents]
      exact hlogged.trans hpassed
  · have hnot : ¬(convertTimevalToCms s.now (s.transaction h).expiration > 0 ∨
        (s.transaction h).attemptCount = 0) := by omega
    have hreports := @transactionTimeout_eq hooks h s _ (s.firing h, smcpStatusTimeout) rfl
      ((if_neg hnot).trans (if_neg (by simp [hobserve]))) rfl
    exact ⟨s.firing h, hreports, rfl, rfl, rfl, hlogged⟩

/-- The timer of a transaction fires at or past its expiration. -/
theorem transactionTimeout_ends
    (hexpired : convertTimevalToCms s.now (s.transaction h).expiration ≤ 0)
    (hobserve : hasFlag (s.transaction h).flags smcpTransactionObserve = false)
    (hauto : hasFlag (s.transaction h).flags smcpTransactionNoAutoEnd = false)
    (hattempted : (s.transaction h).Attempted) :
    EndedByTimeout h s (smcpInternalTransactionTimeout_ hooks s h) := by
  obtain ⟨u, hreport, hcurrent, hflags, hcallback, hevents⟩ :=
    @transactionTimeout_reports hooks h s hexpired hobserve hattempted
  rw [hreport]
  apply (timeoutReport_ends hhooks (.inl hcurrent) ?_).of_before hevents hcallback
  rw [hflags]
  exact hauto

end

/-! ## Runs -/

/-- The timer of `h` has fired since it was begun last. -/
def hasFired (h : TransactionPtr) : List Event → Bool
  | [] => false
  | .began h' _ _ :: earlier => if h' = h then false else hasFired h earlier
  | .timedOut h' _ _ :: earlier => if h' = h then true else hasFired h earlier
  | _ :: earlier => hasFired h earlier

/-- The timer of `h` fires in `u`, not for the first time, at or past the expiration: not a
millisecond is left. `h` is neither an observing transaction nor one that is not ended
automatically. -/
structure FiresExpired (h : TransactionPtr) (u : Instance) : Prop where
  fires : ∃ t ∈ u.fireTimer.map Prod.fst, (u.timers.timer t).callback = some (.transactionTimeout h)
  again : hasFired h u.events = true
  expired : timeLeft u.now (u.transaction h).expiration = 0
  observe : hasFlag (u.transaction h).flags smcpTransactionObserve = false
  auto : hasFlag (u.transaction h).flags smcpTransactionNoAutoEnd = false

/-- The 32-bit clock is exact about the expiration of `h`: it is not too far from the time. -/
def ClockExactFor (h : TransactionPtr) (u : Instance) : Prop :=
  convertTimevalToCms u.now (u.transaction h).expiration =
    timeLeft u.now (u.transaction h).expiration

instance (h : TransactionPtr) (u : Instance) : Decidable (ClockExactFor h u) :=
  inferInstanceAs (Decidable (_ = _))

/-- The instance in which a call gets to `smcp_handle_timers`. -/
def Op.handlesTimersIn (hooks : Hooks) (op : Op) (s : Instance) : Option Instance :=
  match op with
  | .handleTimers => some s
  | .process (some a) rest =>
    if (receivePacket hooks s a rest).2 then some (receivePacket hooks s a rest).1 else none
  | .process none _ => some s
  | _ => none

section
variable {hooks : Hooks} {h : TransactionPtr} {s u : Instance} {op : Op}

/-- `smcp_handle_timers` with the timer of `h`. -/
theorem handleTimers_ends (hhooks : ∀ c u, Keeps h u (hooks c u).1) (hfires : FiresExpired h u)
    (hattempted : (u.transaction h).Attempted) (hclock : ClockExactFor h u) :
    EndedByTimeout h u (smcpHandleTimers hooks u) := by
  obtain ⟨⟨t, ht, hcallback⟩, -, hleft, hobserve, hauto⟩ := hfires
  -- the timer of `h` is the head of the list, and its expiration is over
  have hexpired : convertTimevalToCms u.now (u.transaction h).expiration ≤ 0 :=
    (hclock.trans hleft).le
  obtain ⟨x, hx, rfl⟩ := Option.map_eq_some_iff.1 ht
  have hsame : x.2.transaction = u.transaction ∧ x.2.now = u.now ∧ x.2.events = u.events := by
    unfold Instance.fireTimer at hx
    cases hhead : u.timers.head with
    | none =>
      rw [hhead] at hx
      exact absurd hx.symm (Option.some_ne_none x)
    | some t =>
      rw [hhead] at hx
      dsimp only at hx
      split_ifs at hx
      rw [← Option.some.inj hx]
      exact ⟨rfl, rfl, rfl⟩
  -- the loop of the source fires the head, and that is the timer of `h`
  have hhandled : smcpHandleTimers hooks u = smcpInternalTransactionTimeout_ hooks x.2 h := by
    rw [handleTimers_eq, hx]
    dsimp only
    rw [hcallback]
    rfl
  rw [hhandled]
  -- the firing ends the transaction, by the two conditions on its flags
  have hended := @transactionTimeout_ends hooks h x.2 hhooks (by rw [hsame.1, hsame.2.1]; exact hexpired)
    (by rw [hsame.1]; exact hobserve) (by rw [hsame.1]; exact hauto) (by rw [hsame.1]; exact hattempted)
  exact hended.of_before (by rw [hsame.2.2]) (by rw [hsame.1])

theorem exec_handleTimers (hu : op.handlesTimersIn hooks s = some u) :
    (op.exec hooks s).store = (smcpHandleTimers hooks u).store ∧
      (op.exec hooks s).events = (smcpHandleTimers hooks u).events := by
  cases op with
  | handleTimers =>
    rw [← Option.some.inj hu]
    exact ⟨rfl, rfl⟩
  | process arrival rest =>
    cases arrival with
    | none =>
      rw [← Option.some.inj hu]
      exact ⟨rfl, rfl⟩
    | some a =>
      unfold Op.handlesTimersIn at hu
      dsimp only at hu
      unfold Op.exec smcpProcess
      dsimp only
      split_ifs at hu ⊢
      rw [← Option.some.inj hu]
      exact ⟨rfl, rfl⟩
  | _ => exact absurd hu.symm (Option.some_ne_none u)

end

/-- In every run whose callbacks leave the current transaction alone, a transaction that fires at or
past its expiration, not for the first time, is ended with its callback, if it has been attempted
since it began or was answered last, and the clock has not gone too far. -/
theorem expired_ends {hooks : Hooks} {h : TransactionPtr}
    (hhooks : ∀ c u, Keeps h u (hooks c u).1) {s : Instance} {ops : List Op}
    (hattempted : AllSteps (Op.exec hooks) (fun op s => ∀ u ∈ op.handlesTimersIn hooks s,
      FiresExpired h u → (u.transaction h).Attempted ∧ ClockExactFor h u) s ops) :
    AllSteps (Op.exec hooks) (fun op s => ∀ u ∈ op.handlesTimersIn hooks s,
      FiresExpired h u → EndedByTimeout h u (op.exec hooks s)) s ops := by
  refine hattempted.imp fun op s hstep u hu hfires => ?_
  obtain ⟨hstore, hevents⟩ := exec_handleTimers hu
  obtain ⟨hattempt, hclock⟩ := hstep u hu hfires
  have hended := handleTimers_ends hhooks hfires hattempt hclock
  unfold EndedByTimeout at hended ⊢
  rw [hstore, hevents]
  exact hended

/-- A transaction of five seconds with something to send, and a firing at its start and after six
seconds. -/
def expiringOps : List Op :=
  [.transactionInit 0 false 0 (some 0) (some 0), .transactionBegin 0 5000, .handleTimers,
    .tick ⟨6, 0⟩, .handleTimers]

/-- The instance before the last call. -/
def expiring (hooks : Hooks) : Instance :=
  (expiringOps.take 4).foldl (fun s op => op.exec hooks s)
    (smcpCreate default (fun _ => 5) fun _ => 1)

theorem expiring_fires {hooks : Hooks} {t : TimerPtr}
    (ht : (expiring hooks).fireTimer.map Prod.fst = some t)
    (hcallback : ((expiring hooks).timers.timer t).callback = some (.transactionTimeout (.user 0)))
    (hagain : hasFired (.user 0) (expiring hooks).events = true)
    (hrest : timeLeft (expiring hooks).now
        ((expiring hooks).transaction (.user 0)).expiration = 0 ∧
      hasFlag ((expiring hooks).transaction (.user 0)).flags smcpTransactionObserve = false ∧
      hasFlag ((expiring hooks).transaction (.user 0)).flags smcpTransactionNoAutoEnd = false) :
    FiresExpired (.user 0) (expiring hooks) :=
  ⟨⟨t, ht, hcallback⟩, hagain, hrest.1, hrest.2.1, hrest.2.2⟩

theorem expired_ends_sent :
    (expiring idleHooks).store.active (.user 0) = true ∧
      EndedByTimeout (.user 0) (expiring idleHooks) (Op.handleTimers.exec idleHooks
        (expiring idleHooks)) := by
  have hattempted : AllSteps (Op.exec idleHooks) (fun op s => ∀ u ∈ op.handlesTimersIn idleHooks s,
      FiresExpired (.user 0) u → (u.transaction (.user 0)).Attempted ∧ ClockExactFor (.user 0) u)
      (smcpCreate default (fun _ => 5) fun _ => 1) expiringOps := by
    refine ⟨fun u hu => ?_, fun u hu => ?_, fun u hu hfires => ?_, fun u hu => ?_,
      fun u hu hfires => ?_, trivial⟩
    · exact absurd hu.symm (Option.some_ne_none u)
    · exact absurd hu.symm (Option.some_ne_none u)
    · -- the first firing
      have hagain := hfires.again
      rw [← Option.some.inj hu] at hagain
      exact absurd hagain (by decide +kernel)
    · exact absurd hu.symm (Option.some_ne_none u)
    · rw [← Option.some.inj hu]
      decide +kernel
  have hfires : FiresExpired (.user 0) (expiring idleHooks) :=
    @expiring_fires idleHooks (.ofTransaction (.user 0)) (by decide +kernel) (by decide +kernel)
      (by decide +kernel) (by decide +kernel)
  have hends := expired_ends (fun _ u => Keeps.refl _ u) hattempted
  exact ⟨by decide +kernel, hends.2.2.2.2.1 _ rfl hfires⟩

/-- The resend callback always waits for DNS. -/
def waitingHooks : Hooks := fun call s =>
  (s, if call = .resend 0 then smcpStatusWaitForDns else smcpStatusOk)

/-- The transaction goes on after its expiration. -/
theorem expired_waits :
    ¬∀ (hooks : Hooks) (h : TransactionPtr) (s : Instance) (ops : List Op),
      (∀ c u, Keeps h u (hooks c u).1) →
      AllSteps (Op.exec hooks) (fun op s => ∀ u ∈ op.handlesTimersIn hooks s,
        FiresExpired h u → EndedByTimeout h u (op.exec hooks s)) s ops := by
  intro hall
  have hkeeps (c : Call) (u : Instance) : Keeps (.user 0) u (waitingHooks c u).1 := .refl _ u
  have hfires : FiresExpired (.user 0) (expiring waitingHooks) :=
    @expiring_fires waitingHooks (.ofTransaction (.user 0)) (by decide +kernel) (by decide +kernel)
      (by decide +kernel) (by decide +kernel)
  have hended := (hall waitingHooks (.user 0) (smcpCreate default (fun _ => 5) fun _ => 1) expiringOps
    hkeeps).2.2.2.2.1 _ rfl hfires
  have hactive : (Op.handleTimers.exec waitingHooks (expiring waitingHooks)).store.active (.user 0) =
      true := by decide +kernel
  exact absurd (hactive.symm.trans hended.1) (by decide)

end Smcp
