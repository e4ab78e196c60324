import Smcp.Observable.Numbers
import Smcp.Observable.Table
import Smcp.Outbound.RoundTrip
import Smcp.Transaction.Notify

/-!
# The numbers of notifications

* `number_exec`: what every step of the machine keeps holds behind every call, and wherever the
  application is called back;
* `seq_of_reaches`: the number of an observer counts its triggers, modulo 2^32;
* `notifications_newer_iff`: when the value of one notification is newer than that of another, with
  three bytes each.
-/

namespace Smcp

open Run

/-! ## Observers -/

section
variable {K : Numbers → Prop} {hooks : Hooks} {s : Instance}

/-- The entries of the table have the same numbers. -/
theorem number_link (hK : ∀ n n', n.Step n' → K n → K n') (hs : K s.numbers)
    {table : ℕ → Observer} {observables : ℕ → Observable}
    (hseq : ∀ j, (table j).seq = (s.observerTable j).seq) :
    K ({ s with observerTable := table, observables := observables } : Instance).numbers :=
  hK _ _ (.link s.numbers table observables hseq) hs

/-- The number of an observer stays when something else of it changes. -/
theorem seq_setObserver (s : Instance) (i : ℤ) {f : Observer → Observer}
    (hf : ∀ o, (f o).seq = o.seq) (j : ℕ) :
    ((s.setObserver i f).observerTable j).seq = (s.observerTable j).seq := by
  unfold Instance.setObserver
  dsimp only
  by_cases hj : j = i.toNat
  · rw [hj, Function.update_self, hf]
    rfl
  · rw [Function.update_of_ne hj]

/-- So the numbers stay. -/
theorem number_setObserver (hK : ∀ n n', n.Step n' → K n → K n') (hs : K s.numbers) (i : ℤ)
    {f : Observer → Observer} (hf : ∀ o, (f o).seq = o.seq) : K (s.setObserver i f).numbers :=
  number_link hK hs (seq_setObserver s i hf)

/-- An observable has no numbers. -/
theorem number_setObservable (hK : ∀ n n', n.Step n' → K n → K n') (hs : K s.numbers)
    (context : ℕ) (f : Observable → Observable) : K (s.setObservable context f).numbers :=
  number_link hK hs fun _ => rfl

/-- Only the event of a registration counts. -/
theorem numbers_logObserver (s : Instance) {e : ObserverEvent}
    (he : ∀ i, e.registers i = false) : (s.logObserver e).numbers = s.numbers := by
  have hregistrations : (fun i => registrationsOf i (s.logObserver e).observerEvents) =
      fun i => registrationsOf i s.observerEvents := by
    funext i
    show List.countP _ (e :: s.observerEvents) = _
    rw [List.countP_cons_of_neg]
    · rfl
    · rw [he]
      exact Bool.false_ne_true
  unfold Instance.numbers
  rw [hregistrations]
  rfl

/-- The lists change, and not the numbers. -/
theorem number_unlinkObserver (hK : ∀ n n', n.Step n' → K n → K n') (hs : K s.numbers)
    (context i : ℕ) : K (unlinkObserver s context i).numbers := by
  have hfault : K ({ s with fault := true } : Instance).numbers := hs
  unfold unlinkObserver
  dsimp only
  split_ifs
  · exact number_setObservable hK hs _ _
  · exact number_setObservable hK hs _ _
  · split
    · exact hfault
    · split_ifs
      · apply number_setObservable hK
        apply number_setObserver hK hs
        exact fun _ => rfl
      · apply number_setObserver hK hs
        exact fun _ => rfl
      · exact hfault
  · exact hfault

/-- A registration is counted for the observer. -/
theorem numbers_registered (s : Instance) (context i requestLen : ℕ) :
    (s.logObserver (.registered context i requestLen)).numbers =
      { s.numbers with
        registrations := Function.update s.numbers.registrations i
          (s.numbers.registrations i + 1) } := by
  have hregistrations : (fun j => registrationsOf j
      (s.logObserver (.registered context i requestLen)).observerEvents) =
      Function.update s.numbers.registrations i (s.numbers.registrations i + 1) := by
    funext j
    show List.countP _ (_ :: s.observerEvents) = _
    by_cases hj : j = i
    · rw [hj, Function.update_self, List.countP_cons_of_pos]
      · rfl
      · exact decide_eq_true rfl
    · rw [Function.update_of_ne hj, List.countP_cons_of_neg]
      · rfl
      · unfold ObserverEvent.registers
        rw [decide_eq_true_eq]
        exact fun heq => hj heq.symm
  unfold Instance.numbers
  rw [hregistrations]
  rfl

/-- A new observer begins with the number 0. -/
theorem seq_addObserver (s : Instance) (context key : ℕ) (i : ℤ) (j : ℕ) :
    ((addObserver s context key i).observerTable j).seq =
      if j = i.toNat then 0 else (s.observerTable j).seq := by
  unfold addObserver
  dsimp only
  by_cases hj : j = i.toNat
  · rw [if_pos hj, hj]
    unfold Instance.setObserver
    dsimp only
    rw [Function.update_self]
  · rw [if_neg hj, Instance.setObserver]
    dsimp only
    rw [Function.update_of_ne hj]
    split_ifs
    · rfl
    · have hlink (o : Observer) : ({ o with next := i + 1 } : Observer).seq = o.seq := rfl
      exact seq_setObserver s ((s.observables context).lastObserver - 1) hlink j

/-- An observer is entered, with the number 0. -/
theorem number_addObserver (hK : ∀ n n', n.Step n' → K n → K n') (hs : K s.numbers)
    (context key requestLen : ℕ) (i : ℤ) :
    K (addObserver (s.logObserver (.registered context i.toNat requestLen)) context key
      i).numbers := by
  have hlogged := numbers_registered s context i.toNat requestLen
  have hseq := seq_addObserver (s.logObserver (.registered context i.toNat requestLen)) context
    key i
  have hadded (u : Instance) : (addObserver u context key i).numbers =
      { u.numbers with
        table := (addObserver u context key i).observerTable
        observables := (addObserver u context key i).observables } := by
    unfold addObserver
    dsimp only
    split_ifs
    · rfl
    · rfl
  rw [hadded, hlogged]
  exact hK _ _ (.register s.numbers i.toNat _ _ hseq) hs

/-- The observer that answered is confirmed. -/
theorem number_confirmObserver (hK : ∀ n n', n.Step n' → K n → K n') (hs : K s.numbers) (i : ℤ) :
    K (confirmObserver s i).1.numbers := by
  have hoption (u : Instance) (seq : ℕ) :
      (smcpOutboundAddOptionUint u coapOptionObserve seq).1.numbers = u.numbers := rfl
  unfold confirmObserver
  dsimp only
  rw [hoption]
  apply number_setObserver hK
  · rw [numbers_startAsyncResponse]
    exact hs
  · exact fun _ => rfl

variable (hhooks : ∀ c u, K u.numbers → K (hooks c u).1.numbers)
include hhooks

/-- Its transaction ends, and it is taken out of its list. -/
theorem number_freeObserver (hK : ∀ n n', n.Step n' → K n → K n') (i : ℕ) (hs : K s.numbers) :
    K (freeObserver hooks s i).numbers := by
  unfold freeObserver
  dsimp only
  apply number_setObserver hK ?_ i
  · exact fun _ => rfl
  · split
    · exact hs
    · apply number_unlinkObserver hK
      rw [numbers_logObserver]
      · exact number_end hhooks _ hs
      · exact fun _ => rfl

/-- A GET registers an observer, or gets the number that is due. -/
theorem number_observableUpdate (hK : ∀ n n', n.Step n' → K n → K n') (context key : ℕ)
    (hs : K s.numbers) : K (smcpObservableUpdate hooks s context key).1.numbers := by
  have hcontext : K (s.setObservable context fun c => { c with hasInterface := true }).numbers :=
    number_setObservable hK hs _ _
  unfold smcpObservableUpdate
  dsimp only
  -- the observable has its instance, and its number has not moved
  generalize s.setObservable context (fun c => { c with hasInterface := true }) = u at hcontext ⊢
  -- no token, an observer that is known, or a new one
  split
  · exact hcontext
  · split
    · exact hcontext
    · next i _ =>
      split
      · split
        · split
          · exact hcontext
          · apply number_confirmObserver hK
            exact number_addObserver hK hcontext _ _ _ _
        · apply number_confirmObserver hK
          rw [numbers_logObserver]
          · exact hcontext
          · exact fun _ => rfl
      · split
        · exact hcontext
        · exact number_freeObserver hhooks hK _ hcontext

/-- An observer that cannot be reached is freed. -/
theorem number_eventResponseHandler (hK : ∀ n n', n.Step n' → K n → K n') (statuscode : ℤ) (i : ℕ)
    (hs : K s.numbers) : K (eventResponseHandler hooks s statuscode i).1.numbers := by
  have hcases (p : Prop) [Decidable p] :
      K (if p then (freeObserver hooks s i, smcpStatusReset) else (s, smcpStatusOk)).1.numbers := by
    split_ifs
    · exact number_freeObserver hhooks hK i hs
    · exact hs
  exact hcases _

/-- A request handler takes the steps that it may take. -/
theorem number_handleRequest (hs : K s.numbers) : K (smcpHandleRequest hooks s).1.numbers := by
  have hroute (u : Instance) (func : Option ℕ) (hu : u.numbers = s.numbers) :
      (smcpVhostRoute u func).1.numbers = s.numbers := (numbers_vhostRoute u func).trans hu
  have hauth := numbers_authInboundInit s
  unfold smcpHandleRequest
  dsimp only
  split
  · rw [hroute _ _ hauth]
    exact hs
  · apply hhooks
    have hprepared := hroute _ s.requestHandler hauth
    rw [← hprepared] at hs
    exact hs

/-- The number is not changed by sending it. -/
theorem number_retrySendingEvent (i : ℕ) (hs : K s.numbers) :
    K (retrySendingEvent hooks s i).1.numbers := by
  have hbegin := numbers_beginAsyncResponse s (httpToCoapCode 205)
    (s.observerTable i).asyncResponse
  unfold retrySendingEvent
  dsimp only
  -- the begin, the option and the sending read the number and leave it
  generalize smcpOutboundBeginAsyncResponse s (httpToCoapCode 205)
    (s.observerTable i).asyncResponse = r at hbegin ⊢
  rw [← hbegin] at hs
  split
  · exact hs
  · split
    · exact hs
    · set s2 : Instance := { smcpOutboundSetTt _ _ with
        inbound.hasObserveOption := true, isResponding := true, forceCurrentOutboundCode := true
        isProcessingMessage := true, didRespond := false }
      have hs2 : K s2.numbers := hs
      have hrequest := number_handleRequest hhooks hs2
      have hsent (u : Instance) : ({ (smcpOutboundSend (smcpOutboundSetContentLen u 0)).1 with
          isProcessingMessage := false, didRespond := false } : Instance).numbers = u.numbers :=
        numbers_send (smcpOutboundSetContentLen u 0)
      split
      · rw [hsent]
        exact hrequest
      · exact hrequest

/-- Whoever is called for a response. -/
theorem number_callResponse (hK : ∀ n n', n.Step n' → K n → K n') (callback : ResponseFunc)
    (statuscode : ℤ) (hs : K s.numbers) :
    K (callResponse hooks s callback statuscode).1.numbers := by
  cases callback with
  | user callback => exact hhooks _ _ hs
  | eventResponseHandler i => exact number_eventResponseHandler hhooks hK _ _ hs

/-- Whoever is called to send again: a retry takes the number that was sent before. -/
theorem number_callResend (callback : ResendFunc) (hs : K s.numbers) :
    K (callResend hooks s callback).1.numbers := by
  cases callback with
  | user callback => exact hhooks _ _ hs
  | retrySendingEvent i => exact number_retrySendingEvent hhooks _ hs

/-! ## Triggers -/

omit hhooks in
/-- A transaction that is set up for an observer has no flags. -/
theorem numbers_initObserver (s : Instance) (i : ℕ) (alloc : Bool)
    (resendCallback : Option ResendFunc) (callback : Option ResponseFunc) :
    (smcpTransactionInit s (.observer i) alloc 0 resendCallback callback).numbers =
      s.numbers.clear i := by
  have hlogged : (s.log (.initialized (.observer i) s.store)).numbers = s.numbers :=
    numbers_log s rfl
  have hflags : (fun j => ((smcpTransactionInit s (.observer i) alloc 0 resendCallback
      callback).transaction (.observer j)).flags) = Function.update s.numbers.flags i 0 := by
    funext j
    unfold smcpTransactionInit
    dsimp only
    by_cases hj : j = i
    · rw [hj, Function.update_self, Function.update_self]
    · have hne : TransactionPtr.observer j ≠ .observer i := fun heq => by
        cases heq
        exact hj rfl
      rw [Function.update_of_ne hne, Function.update_of_ne hj]
      rfl
  unfold Numbers.clear
  rw [← hflags, ← hlogged]
  rfl

omit hhooks in
/-- One that is set up by the application is no concern of the observers. -/
theorem numbers_initUser (s : Instance) (n : ℕ) (alloc : Bool) (flags : ℕ)
    (resendCallback : Option ResendFunc) (callback : Option ResponseFunc) :
    (smcpTransactionInit s (.user n) alloc flags resendCallback callback).numbers = s.numbers := by
  have hlogged : (s.log (.initialized (.user n) s.store)).numbers = s.numbers := numbers_log s rfl
  rw [← hlogged]
  refine numbers_eq rfl rfl ?_ (fun _ => rfl) rfl
  intro i
  unfold smcpTransactionInit
  dsimp only
  have hne : TransactionPtr.observer i ≠ .user n := nofun
  rw [Function.update_of_ne hne]
  rfl

/-- `smcp_observable_trigger` for one observer: it gets the next number, and its transaction begins
or goes on. -/
theorem number_notifyObserver (i : ℕ) (hs : K ((s.numbers.count i).trigger i))
    (hclear : K (((s.numbers.count i).clear i).trigger i)) :
    K (notifyObserver hooks s i).numbers := by
  have hcount : (s.setObserver i fun o => { o with seq := (o.seq + 1) % 4294967296 }).numbers =
      s.numbers.count i := rfl
  unfold notifyObserver
  dsimp only
  generalize s.setObserver i (fun o => { o with seq := (o.seq + 1) % 4294967296 }) = u at hcount ⊢
  rw [← hcount] at hs hclear
  split
  · apply number_tickle hhooks
    apply number_newMsgId hhooks
    rw [numbers_getNextMsgId_renewing]
    exact hs
  · apply number_begin_observer hhooks
    rw [numbers_initObserver]
    exact hclear

/-- Each observer on the way gets its next number. -/
theorem number_triggerFrom (hK : ∀ n n', n.Step n' → K n → K n') (key fuel : ℕ) (i : ℤ)
    (hs : K s.numbers) : K (triggerFrom hooks key fuel s i).numbers := by
  induction fuel generalizing s i with
  | zero => exact hs
  | succ fuel ih =>
    rw [triggerFrom]
    split
    · split
      · exact hs
      · dsimp only
        apply ih
        split
        · exact hs
        · have hnotified := hK _ _ (.notify s.numbers i.toNat) hs
          have hcleared := hK _ _ (.notify _ i.toNat) (hK _ _ (.clear s.numbers i.toNat) hs)
          exact number_notifyObserver hhooks _ hnotified hcleared
    · exact hs

/-- So do all observers of an observable. -/
theorem number_observableTrigger (hK : ∀ n n', n.Step n' → K n → K n') (context key : ℕ)
    (hs : K s.numbers) : K (smcpObservableTrigger hooks s context key).numbers := by
  unfold smcpObservableTrigger
  split
  · exact number_triggerFrom hhooks hK _ _ _ hs
  · exact hs

/-! ## Timeouts -/

/-- A transaction that is not an observer's gets a new id. -/
theorem number_renew (h : TransactionPtr) (hother : ∀ i, h ≠ .observer i) (msgId : ℕ)
    (hs : K s.numbers) :
    K (smcpTransactionNewMsgId hooks (smcpGetNextMsgId s (.renewing h)).1 h msgId).numbers := by
  apply number_newMsgId hhooks
  rw [numbers_getNextMsgId]
  · exact hs
  · intro i heq
    cases heq
    exact hother i rfl

/-- A resend is the application's, or a retry of an observer. -/
theorem number_timeoutResend (h : TransactionPtr) (resend : ResendFunc) (cms : ℤ)
    (hs : K s.numbers) : K (timeoutResend hooks s h resend cms).state.numbers := by
  unfold timeoutResend
  dsimp only
  set s1 : Instance := { s.log (.resent h (s.transaction h) s.now) with
    outbound.nextTid := s.store.msgId h, isProcessingMessage := false, isResponding := false
    didRespond := false }
  have h1 : s1.numbers = s.numbers := numbers_log s rfl
  rw [← h1] at hs
  have hcall := number_callResend hhooks resend hs
  generalize callResend hooks s1 resend = r at hcall ⊢
  have hlog := numbers_log r.1 (e := .resendReturned h r.2) rfl
  rw [← hlog] at hcall
  generalize r.1.log (.resendReturned h r.2) = u at hcall ⊢
  split
  · rw [numbers_log _ rfl, numbers_setTransaction, numbers_minRetransmitTimeout]
    · exact hcall
    · intro t
      split_ifs
      · rfl
      · rfl
  · split
    · exact hcall
    · exact hcall

theorem number_timeoutAttempt (h : TransactionPtr) (cms : ℤ) (hs : K s.numbers) :
    K (timeoutAttempt hooks s h cms).1.numbers := by
  have hidle : K ((s.log (.passed h)).setTransaction h Transaction.noteAttempt).numbers := by
    rw [numbers_setTransaction, numbers_log _ rfl]
    · exact hs
    · exact fun _ => rfl
  have hstep (resend : ResendFunc) (p : Prop) [Decidable p] (cms status cms' : ℤ) :
      K (if p then timeoutResend hooks s h resend cms
        else ⟨(s.log (.passed h)).setTransaction h Transaction.noteAttempt, status,
          cms'⟩).state.numbers := by
    split_ifs
    · exact number_timeoutResend hhooks h resend cms hs
    · exact hidle
  unfold timeoutAttempt
  dsimp only
  rw [numbers_scheduleTimer]
  cases (s.transaction h).resendCallback with
  | none => exact hidle
  | some resend => exact hstep resend _ _ _ _

theorem number_timeoutRestart (h : TransactionPtr) (hother : ∀ i, h ≠ .observer i) (cms : ℤ)
    (hs : K s.numbers) : K (timeoutRestart hooks s h cms).1.numbers := by
  have hset (f : Transaction → Transaction) (hf : ∀ t, (f t).flags = t.flags) :
      ((s.log (.restarted h)).setTransaction h f).numbers = s.numbers := by
    rw [numbers_setTransaction _ _ hf, numbers_log _ rfl]
  unfold timeoutRestart
  dsimp only
  set s1 := (s.log (.restarted h)).setTransaction h _ with hs1
  have h1 : s1.numbers = s.numbers := hset _ fun _ => rfl
  rw [← h1] at hs
  have hrenew := number_renew hhooks h hother (smcpGetNextMsgId s1 (.renewing h)).2 hs
  generalize smcpTransactionNewMsgId hooks _ h _ = s2 at hrenew ⊢
  set s3 := s2.setTransaction h _ with hs3
  have h3 : s3.numbers = s2.numbers := by
    rw [hs3, numbers_setTransaction]
    exact fun _ => rfl
  rw [← h3] at hrenew
  rw [numbers_scheduleTimer]
  split
  · rw [numbers_delayStart]
    exact hrenew
  · exact hrenew

/-- The report of a timeout may free an observer. -/
theorem number_timeoutReport (hK : ∀ n n', n.Step n' → K n → K n') (h : TransactionPtr)
    (status : ℤ) (hs : K s.numbers) : K (timeoutReport hooks s h status).numbers := by
  have hend (u : Instance) (hu : K u.numbers) :
      K (if hasFlag (u.transaction h).flags smcpTransactionNoAutoEnd then u
        else smcpTransactionEnd hooks u h).numbers := by
    split_ifs
    · exact hu
    · exact number_end hhooks h hu
  have hlast (u : Instance) (hu : K u.numbers) : K (if u.currentTransaction ≠ some h then u
      else { (if hasFlag (u.transaction h).flags smcpTransactionNoAutoEnd then u
        else smcpTransactionEnd hooks u h) with currentTransaction := none }).numbers := by
    split
    · exact hu
    · exact hend u hu
  unfold timeoutReport
  apply hlast
  -- the state in which the callback is called
  set u := if hasFlag (s.transaction h).flags smcpTransactionAlwaysInvalidate = false ∧
      hasFlag (s.transaction h).flags smcpTransactionNoAutoEnd = false then
      s.setTransaction h fun t => { t with callback := none }
    else s with hu
  have hready : K u.numbers := by
    rw [hu]
    split
    · rw [numbers_setTransaction]
      · exact hs
      · exact fun _ => rfl
    · exact hs
  split
  · apply number_callResponse hhooks hK
    rw [numbers_log _ rfl]
    exact hready
  · exact hready

omit hhooks in
/-- The transactions of observers have no flags. -/
theorem not_observer_of_flag (hplain : ∀ n, K n → ∀ i, n.flags i = 0) (hs : K s.numbers)
    {h : TransactionPtr} {flag : ℕ} (hflag : hasFlag (s.transaction h).flags flag = true) :
    ∀ i, h ≠ .observer i := by
  rintro i rfl
  have hzero : (s.transaction (.observer i)).flags = 0 := hplain _ hs i
  rw [hzero] at hflag
  unfold hasFlag at hflag
  rw [Nat.zero_and] at hflag
  exact absurd hflag (by decide)

/-- The timers of transactions, and those of observers among them. -/
theorem number_transactionTimeout (hK : ∀ n n', n.Step n' → K n → K n')
    (hplain : ∀ n, K n → ∀ i, n.flags i = 0) (h : TransactionPtr) (hs : K s.numbers) :
    K (smcpInternalTransactionTimeout_ hooks s h).numbers := by
  unfold smcpInternalTransactionTimeout_
  dsimp only
  set s1 : Instance := { s.log (.timedOut h (s.transaction h) s.now) with
    currentTransaction := some h } with hs1
  have h1 : s1.numbers = s.numbers := numbers_log s rfl
  have hlogged : K s1.numbers := by
    rw [h1]
    exact hs
  have hreport (r : Instance × ℤ) (hr : K r.1.numbers) :
      K (if r.2 ≠ smcpStatusOk then timeoutReport hooks r.1 h r.2
        else { r.1 with currentTransaction := none }).numbers := by
    split
    · exact number_timeoutReport hhooks hK _ _ hr
    · exact hr
  apply hreport
  split_ifs with hleft hobserve
  · exact number_timeoutAttempt hhooks h _ hlogged
  · have hother := not_observer_of_flag hplain hs hobserve
    exact number_timeoutRestart hhooks h hother _ hlogged
  · exact hlogged

/-- Whatever timer fires. -/
theorem number_handleTimers (hK : ∀ n n', n.Step n' → K n → K n')
    (hplain : ∀ n, K n → ∀ i, n.flags i = 0) (hs : K s.numbers) :
    K (smcpHandleTimers hooks s).numbers := by
  unfold smcpHandleTimers
  split
  · exact hs
  · next timer _ =>
    dsimp only
    split
    · set s1 : Instance := { s.logTimer _ with timers := _ }
      have h1 : K s1.numbers := hs
      have hinvalidated := number_invalidateTimer hhooks timer h1
      split
      · exact number_transactionTimeout hhooks hK hplain _ hinvalidated
      · exact hhooks _ _ hinvalidated
      · exact hinvalidated
    · exact hs

/-! ## Responses -/

omit hhooks in
/-- Only timers are set. -/
theorem numbers_rescheduleObserve (s : Instance) (h : TransactionPtr) (cms : ℤ) :
    (rescheduleObserve s h cms).numbers = s.numbers := by
  unfold rescheduleObserve
  dsimp only
  rw [numbers_scheduleTimer, numbers_setTransaction]
  exact fun _ => rfl

theorem number_responseBail (ret : ℤ) (handler : Option TransactionPtr) (hs : K s.numbers) :
    K (responseBail hooks s ret handler).1.numbers := by
  unfold responseBail
  split
  · split_ifs
    · exact number_end hhooks _ hs
    · exact hs
  · exact hs

/-- After the callback has been called for a notification. -/
theorem number_afterNotification (r : Instance × ℤ) (h : TransactionPtr) (msgId : ℕ) (cms : ℤ)
    (hr : K r.1.numbers) :
    K (if r.1.currentTransaction = none ∨ msgId ≠ r.1.store.msgId h then r
      else
        let waits := (r.1.transaction h).waitingForAsyncResponse || r.1.inbound.hasObserveOption
        let s := (r.1.log (.answered h waits)).setTransaction h fun t =>
          { t with waitingForAsyncResponse := waits, attemptCount := 0 }
        let s := { s with
          timers := s.timers.modify (.ofTransaction h) fun t => { t with cancel := none } }
        let s := smcpInvalidateTimer hooks s (.ofTransaction h)
        responseBail hooks (rescheduleObserve s h cms) r.2 (some h)).1.numbers := by
  have hset (waits : Bool) : K ((r.1.log (.answered h waits)).setTransaction h fun t =>
      { t with waitingForAsyncResponse := waits, attemptCount := 0 }).numbers := by
    rw [numbers_setTransaction, numbers_log _ rfl]
    · exact hr
    · exact fun _ => rfl
  split
  · exact hr
  · dsimp only
    apply number_responseBail hhooks
    rw [numbers_rescheduleObserve]
    apply number_invalidateTimer hhooks
    exact hset _

/-- Transactions of observers do not observe. -/
theorem number_respondObserve (hK : ∀ n n', n.Step n' → K n → K n') (h : TransactionPtr)
    (callback : ResponseFunc) (hs : K s.numbers) :
    K (respondObserve hooks s h callback).1.numbers := by
  have hresponded : (s.logResponded h).numbers = s.numbers := numbers_log s rfl
  unfold respondObserve
  dsimp only
  split
  · apply number_responseBail hhooks
    rw [numbers_log _ rfl, numbers_log _ rfl]
    exact hs
  · apply number_afterNotification hhooks
    apply number_callResponse hhooks hK
    rw [numbers_setTransaction, numbers_log _ rfl, numbers_log _ rfl, numbers_log _ rfl, hresponded]
    · exact hs
    · exact fun _ => rfl

/-- What is left to do behind the callback. -/
theorem number_respondFinish (hplain : ∀ n, K n → ∀ i, n.flags i = 0) (h : TransactionPtr)
    (ret : ℤ) (hs : K s.numbers) : K (respondFinish hooks s h ret).1.numbers := by
  have hset (f : Transaction → Transaction) (hf : ∀ t, (f t).flags = t.flags) :
      K (s.setTransaction h f).numbers := by
    rw [numbers_setTransaction _ _ hf]
    exact hs
  unfold respondFinish
  dsimp only
  split
  · next hmore =>
    apply number_responseBail hhooks
    rw [numbers_scheduleTimer]
    apply number_invalidateTimer hhooks
    apply number_renew hhooks h (not_observer_of_flag hplain hs hmore.2.2)
    exact hset _ fun _ => rfl
  · split
    · apply number_responseBail hhooks
      rw [numbers_rescheduleObserve]
      apply number_invalidateTimer hhooks
      exact hset _ fun _ => rfl
    · split
      · exact hset _ fun _ => rfl
      · apply number_end hhooks
        exact hset _ fun _ => rfl

theorem number_respondOnce (hK : ∀ n n', n.Step n' → K n → K n')
    (hplain : ∀ n, K n → ∀ i, n.flags i = 0) (h : TransactionPtr) (callback : ResponseFunc)
    (hs : K s.numbers) : K (respondOnce hooks s h callback).1.numbers := by
  have hresponded : (s.logResponded h).numbers = s.numbers := numbers_log s rfl
  -- the callback is forgotten, or kept; its number is none of the table's
  have hdisarm (u : Instance) : (disarmCallback u h).numbers = u.numbers := by
    unfold disarmCallback
    split
    · rw [numbers_setTransaction]
      exact fun _ => rfl
    · rfl
  have h1 := hdisarm ((s.logResponded h).log (.called h s.inbound.responseStatus))
  rw [numbers_log _ rfl, hresponded] at h1
  unfold respondOnce
  dsimp only
  generalize disarmCallback ((s.logResponded h).log (.called h s.inbound.responseStatus)) h = s1
    at h1 ⊢
  rw [← h1] at hs
  have hcall := number_callResponse hhooks hK callback s1.inbound.responseStatus hs
  generalize callResponse hooks s1 callback _ = r at hcall ⊢
  split
  · exact hcall
  · set s2 := (r.1.log (.answered h false)).setTransaction h _ with hs2
    have h2 : s2.numbers = r.1.numbers := by
      rw [hs2, numbers_setTransaction, numbers_log _ rfl]
      exact fun _ => rfl
    rw [← h2] at hcall
    split
    · exact number_respondFinish hhooks hplain _ _ hcall
    · exact number_responseBail hhooks _ _ hcall

/-- However the response is taken. -/
theorem number_respondTo (hK : ∀ n n', n.Step n' → K n → K n')
    (hplain : ∀ n, K n → ∀ i, n.flags i = 0) (h : TransactionPtr) (hs : K s.numbers) :
    K (respondTo hooks s h).1.numbers := by
  have hprepare : (prepareCallback s).numbers = s.numbers := numbers_authInboundInit s
  unfold respondTo
  dsimp only
  split
  · rw [numbers_setTransaction, numbers_log _ rfl]
    · exact hs
    · exact fun _ => rfl
  · split
    · exact hs
    · rw [← hprepare] at hs
      split
      · exact number_respondObserve hhooks hK h _ hs
      · exact number_respondOnce hhooks hK hplain h _ hs

/-- Whether or not there is a transaction for it. -/
theorem number_handleResponse (hK : ∀ n n', n.Step n' → K n → K n')
    (hplain : ∀ n, K n → ∀ i, n.flags i = 0) (hs : K s.numbers) :
    K (smcpHandleResponse hooks s).1.numbers := by
  have hlog : (s.log (.received s.inbound s.store s.transaction)).numbers = s.numbers :=
    numbers_log s rfl
  have hcurrent (handler : Option TransactionPtr) :
      K ({ s.log (.received s.inbound s.store s.transaction) with
        currentTransaction := handler } : Instance).numbers := by
    rw [← hlog] at hs
    exact hs
  have hunknown (u : Instance) : (respondUnknown u).1.numbers = u.numbers := by
    unfold respondUnknown
    split
    · rw [numbers_send]
      exact numbers_beginResponse u 0
    · rfl
  unfold smcpHandleResponse
  dsimp only
  split
  · rw [hunknown]
    exact hcurrent _
  · exact number_respondTo hhooks hK hplain _ (hcurrent _)

/-! ## Packets and calls -/

/-- Requests and responses are all that can change a number. -/
theorem number_finishPacket (hK : ∀ n n', n.Step n' → K n → K n')
    (hplain : ∀ n, K n → ∀ i, n.flags i = 0) (hs : K s.numbers) :
    K (smcpInboundFinishPacket hooks s).1.numbers := by
  have hprepared := hs
  rw [← numbers_preparePacket s] at hprepared
  have hdispatched : K (dispatchPacket hooks (preparePacket s)).1.numbers := by
    unfold dispatchPacket
    split_ifs
    · exact number_handleRequest hhooks hprepared
    · exact number_handleResponse hhooks hK hplain hprepared
    · exact hprepared
  have hbail (u : Instance) : (finishPacketBail u).numbers = u.numbers := rfl
  unfold smcpInboundFinishPacket
  dsimp only
  split_ifs
  · exact hs
  · exact hs
  · rw [hbail, numbers_automaticReply]
    exact hdispatched

/-- A round of `smcp_process` receives a packet at most, and fires a timer at most. -/
theorem number_process (hK : ∀ n n', n.Step n' → K n → K n')
    (hplain : ∀ n, K n → ∀ i, n.flags i = 0) (arrival : Option Arrival) (rest : ℕ → UInt8)
    (hs : K s.numbers) : K (smcpProcess hooks s arrival rest).numbers := by
  -- a packet is taken through the inbound calls, one after the other
  have hpacket (buffer : ℕ → UInt8) (packetLength : ℕ) (source : SockAddr)
      (dest : Option SockAddr) :
      K (processPacket hooks s buffer packetLength source dest).1.numbers := by
    have hstart := numbers_startPacket s buffer packetLength
    have hsource := (numbers_setSrcaddr (smcpInboundStartPacket s buffer packetLength).1
      source).trans hstart
    unfold processPacket
    dsimp only
    split_ifs
    · rw [hstart]
      exact hs
    · apply number_finishPacket hhooks hK hplain
      unfold addressPacket
      split
      · rw [numbers_inboundSetDestaddr, hsource]
        exact hs
      · rw [hsource]
        exact hs
  -- the timers are handled after that
  have htimers (r : Instance × Bool) (hr : K r.1.numbers) :
      K (if r.2 then smcpHandleTimers hooks r.1 else r.1).numbers := by
    split_ifs
    · exact number_handleTimers hhooks hK hplain hr
    · exact hr
  unfold smcpProcess
  dsimp only
  apply htimers
  split
  · unfold receivePacket
    dsimp only
    split_ifs
    · exact hs
    · exact hpacket _ _ _ _
  · exact hs

/-- What every step of the machine keeps is kept by every call, and by what the application does
when it is called back. -/
theorem number_exec (hK : ∀ n n', n.Step n' → K n → K n')
    (hplain : ∀ n, K n → ∀ i, n.flags i = 0) (op : Op) (hs : K s.numbers) :
    K (op.exec hooks s).numbers := by
  -- one case for each call of the application
  cases op with
  | process arrival rest => exact number_process hhooks hK hplain _ _ hs
  | startPacket buffer packetLength => exact (congrArg K (numbers_startPacket s _ _)).mpr hs
  | setSrcaddr sockaddr => exact (congrArg K (numbers_setSrcaddr s _)).mpr hs
  | setDestaddr sockaddr => exact (congrArg K (numbers_inboundSetDestaddr s _)).mpr hs
  | finishPacket => exact number_finishPacket hhooks hK hplain hs
  | handleTimers => exact number_handleTimers hhooks hK hplain hs
  | outbound call => exact (congrArg K (numbers_outboundCall s call)).mpr hs
  | transactionInit n alloc flags resendCallback callback =>
    exact (congrArg K (numbers_initUser s n alloc flags _ _)).mpr hs
  | transactionBegin n expiration =>
    have hother (i : ℕ) : TransactionPtr.user n ≠ .observer i := nofun
    exact number_begin hhooks _ _ hother hs
  | transactionEnd n => exact number_end hhooks _ hs
  | transactionNewMsgId n msgId =>
    have hlog := numbers_log s (e := .renamed (.user n) msgId s.store s.lastMsgId) rfl
    rw [← hlog] at hs
    exact number_newMsgId hhooks _ _ hs
  | transactionTickle n => exact number_tickle hhooks _ hs
  | getNextMsgId =>
    have hother (i : ℕ) : DrawPurpose.other ≠ .renewing (.observer i) := nofun
    exact (congrArg K (numbers_getNextMsgId s hother)).mpr hs
  | scheduleTimer n cms => exact (congrArg K (numbers_scheduleTimer s _ _)).mpr hs
  | invalidateTimer n => exact number_invalidateTimer hhooks _ hs
  | observableUpdate context key => exact number_observableUpdate hhooks hK _ _ hs
  | observableTrigger context key => exact number_observableTrigger hhooks hK _ _ hs
  | vhostAdd name func =>
    unfold Op.exec smcpVhostAdd
    dsimp only
    split_ifs
    · exact hs
    · exact hs
    · exact hs
  | startAsyncResponse x dontAck =>
    exact (congrArg K (numbers_startAsyncResponse s x dontAck)).mpr hs
  | beginAsyncResponse code x => exact (congrArg K (numbers_beginAsyncResponse s code x)).mpr hs
  | _ => exact hs

end

/-! ## Runs -/

namespace Numbers

/-- What holds behind `n₀`: the number of the observer `i` has gone up with its triggers, unless
another one was entered in its place. -/
structure From (n₀ : Numbers) (i : ℕ) (n : Numbers) : Prop where
  plain : ∀ j, n.flags j = 0
  bounded : ∀ j, (n.table j).seq < 4294967296
  triggers : n₀.triggers i ≤ n.triggers i
  registrations : n₀.registrations i ≤ n.registrations i
  seq : n.registrations i = n₀.registrations i →
    (n.table i).seq = ((n₀.table i).seq + (n.triggers i - n₀.triggers i)) % 4294967296

variable {n₀ n n' : Numbers} {i : ℕ}

/-- At the start, an observer has sent nothing. -/
theorem From.refl (hplain : ∀ j, n.flags j = 0) (hbounded : ∀ j, (n.table j).seq < 4294967296) :
    n.From i n where
  plain := hplain
  bounded := hbounded
  triggers := le_refl _
  registrations := le_refl _
  seq _ := by rw [Nat.sub_self, add_zero, Nat.mod_eq_of_lt (hbounded i)]

/-- A step, from any state that was reached. -/
theorem From.step (h : n₀.From i n) (hstep : n.Step n') : n₀.From i n' := by
  -- one case for each step of the table
  cases hstep with
  | link table observables hseq =>
    refine ⟨h.plain, fun j => ?_, h.triggers, h.registrations, fun hsame => ?_⟩
    · show (table j).seq < _
      rw [hseq]
      exact h.bounded j
    · show (table i).seq = _
      rw [hseq]
      exact h.seq hsame
  | register k table observables hseq =>
    refine ⟨h.plain, fun j => ?_, h.triggers, ?_, ?_⟩
    · show (table j).seq < _
      rw [hseq]
      split_ifs
      · exact Nat.zero_lt_succ _
      · exact h.bounded j
    · show _ ≤ Function.update n.registrations k _ i
      by_cases hk : i = k
      · rw [hk, Function.update_self, ← hk]
        exact h.registrations.trans (Nat.le_succ _)
      · rw [Function.update_of_ne hk]
        exact h.registrations
    · show Function.update n.registrations k _ i = _ → (table i).seq = _
      by_cases hk : i = k
      · -- there has been another registration
        rw [hk, Function.update_self, ← hk]
        have hle := h.registrations
        omega
      · rw [Function.update_of_ne hk, hseq, if_neg hk]
        exact h.seq
  | notify k =>
    have htable (j : ℕ) : (((n.count k).trigger k).table j).seq =
        if j = k then ((n.table k).seq + 1) % 4294967296 else (n.table j).seq := by
      show (Function.update n.table k _ j).seq = _
      by_cases hj : j = k
      · rw [hj, Function.update_self, if_pos rfl]
      · rw [Function.update_of_ne hj, if_neg hj]
    refine ⟨h.plain, fun j => ?_, ?_, h.registrations, fun hsame => ?_⟩
    · rw [htable]
      split_ifs
      · exact Nat.mod_lt _ (by decide)
      · exact h.bounded j
    · show _ ≤ Function.update n.triggers k _ i
      by_cases hk : i = k
      · rw [hk, Function.update_self, ← hk]
        exact h.triggers.trans (Nat.le_succ _)
      · rw [Function.update_of_ne hk]
        exact h.triggers
    · have hseq := h.seq hsame
      have hle := h.triggers
      rw [htable]
      show _ = (_ + (Function.update n.triggers k (n.triggers k + 1) i - _)) % _
      by_cases hk : i = k
      · rw [if_pos hk, hk, Function.update_self, ← hk, hseq]
        omega
      · rw [if_neg hk, Function.update_of_ne hk]
        exact hseq
  | clear k =>
    refine ⟨fun j => ?_, h.bounded, h.triggers, h.registrations, h.seq⟩
    show Function.update n.flags k 0 j = 0
    by_cases hj : j = k
    · rw [hj, Function.update_self]
    · rw [Function.update_of_ne hj]
      exact h.plain j

end Numbers

section
variable {s s₀ s₁ s₂ : Instance} {i : ℕ}

/-- What every step of the machine keeps holds in a whole run. -/
theorem number_of_reaches {K : Numbers → Prop} (hK : ∀ n n', n.Step n' → K n → K n')
    (hplain : ∀ n, K n → ∀ i, n.flags i = 0) (hreach : Reaches Op.exec s₀ s) :
    K s₀.numbers → K s.numbers := by
  apply hreach.rel (R := fun s s' => K s.numbers → K s'.numbers)
  · exact fun _ hs => hs
  · exact fun _ _ _ h h' hs => h' (h hs)
  · exact fun _ op _ hhooks hs => number_exec hhooks hK hplain op hs

/-- So all that is reached from there. -/
theorem Numbers.From.of_reaches (h₀ : s₀.numbers.From i s₀.numbers)
    (hreach : Reaches Op.exec s₀ s) : s₀.numbers.From i s.numbers :=
  number_of_reaches (fun _ _ hstep h => h.step hstep) (fun _ h => h.plain) hreach h₀

theorem Reachable.from (hreach : Reachable s) (i : ℕ) : s.numbers.From i s.numbers := by
  obtain ⟨now, random, sendResult, hreaches⟩ := hreach
  have hcreated : (smcpCreate now random sendResult).numbers.From i
      (smcpCreate now random sendResult).numbers := by
    apply Numbers.From.refl
    · exact fun _ => rfl
    · exact fun _ => Nat.zero_lt_succ _
  have h := hcreated.of_reaches hreaches
  exact .refl h.plain h.bounded

/-- The number of an observer that was entered with 0 counts its triggers. -/
theorem seq_of_reaches (hreach : Reachable s₀) (hzero : (s₀.observerTable i).seq = 0)
    (h : Reaches Op.exec s₀ s)
    (hsame : registrationsOf i s.observerEvents = registrationsOf i s₀.observerEvents) :
    (s.observerTable i).seq =
      (triggersOf i s.events - triggersOf i s₀.events) % 4294967296 := by
  have hseq := ((hreach.from i).of_reaches h).seq hsame
  have hcount : (s.observerTable i).seq = ((s₀.observerTable i).seq +
      (triggersOf i s.events - triggersOf i s₀.events)) % 4294967296 := hseq
  rw [hcount, hzero, zero_add]

/-! ## Notifications -/

/-- What a notification to the observer `i` has in its Observe option when it is sent now, and an
answer to its registration. -/
def Instance.notificationValue (s : Instance) (i : ℕ) : List UInt8 :=
  uintOptionValue (s.observerTable i).seq

/-- The value of a notification, and that of another one behind it: three bytes at most, and the
second one is newer. -/
def GetsNewer (v v' : List UInt8) : Prop :=
  v.length ≤ 3 ∧ v'.length ≤ 3 ∧ NewerThan (decodeUint v') (decodeUint v)

/-- Three bytes are enough for 24 bits. -/
theorem length_uintOptionValue_le_three {n : ℕ} (hn : n < 4294967296) :
    (uintOptionValue n).length ≤ 3 ↔ n < 16777216 := by
  have hdecoded := decodeUint_uintOptionValue hn
  constructor
  · intro hlen
    have hlt := decodeUint_lt (uintOptionValue n)
    rw [hdecoded] at hlt
    exact hlt.trans_le (Nat.pow_le_pow_right (by decide) hlen)
  · intro hlt
    have hlen : (uintOptionValue n).length = 4 - (4 - smcpCalcUint32OptionSize (htonl n)) := by
      simp [uintOptionValue, htonl]
    rw [hlen, smcpCalcUint32OptionSize_htonl, if_neg (by omega)]
    split_ifs
    all_goals omega

/-- The values after `n` triggers, and `k` triggers later. -/
theorem getsNewer_iff {n k : ℕ} (hk : 0 < k) (hbehind : k ≤ 8388607) :
    GetsNewer (uintOptionValue (n % 4294967296)) (uintOptionValue ((n + k) % 4294967296)) ↔
      n % 4294967296 + k < 16777216 := by
  have hn : n % 4294967296 < 4294967296 := Nat.mod_lt _ (by decide)
  have hn' : (n + k) % 4294967296 < 4294967296 := Nat.mod_lt _ (by decide)
  unfold GetsNewer NewerThan
  rw [length_uintOptionValue_le_three hn, length_uintOptionValue_le_three hn',
    decodeUint_uintOptionValue hn, decodeUint_uintOptionValue hn']
  omega

end

/-! ## A run with one observer -/

/-- A peer registers, and then the observable is triggered again and again. -/
def triggeredRun : ℕ → Instance
  | 0 => observedRun [([0x42, 0x01, 0, 1, 0xA, 0xA, 0x60], 5683)]
  | n + 1 => Op.exec idleHooks (.observableTrigger 0 255) (triggeredRun n)

/-- Triggering is an operation. -/
theorem reaches_triggeredRun (n k : ℕ) :
    Reaches Op.exec (triggeredRun n) (triggeredRun (n + k)) := by
  induction k with
  | zero => exact .refl _
  | succ k ih => exact ih.step idleHooks (fun _ u => .refl u) (.observableTrigger 0 255)

/-- There is one observer, and it has been triggered `t` times. -/
structure Numbers.Alone (t : ℕ) (n : Numbers) : Prop where
  hasInterface : (n.observables 0).hasInterface = true
  firstObserver : (n.observables 0).firstObserver = 1
  next : (n.table 0).next = 0
  seq : (n.table 0).seq = t % 4294967296
  triggers : n.triggers 0 = t
  registrations : n.registrations 0 = 1

/-- One observer alone gets one number more. -/
theorem Numbers.Alone.trigger {t : ℕ} {s : Instance} (hs : s.numbers.Alone t) :
    (Op.exec idleHooks (.observableTrigger 0 255) s).numbers.Alone (t + 1) := by
  -- an application that does nothing
  have hidle (c : Call) (u : Instance) (hu : u.numbers.Alone (t + 1)) :
      (idleHooks c u).1.numbers.Alone (t + 1) := hu
  have hcounted : ((s.numbers.count 0).trigger 0).Alone (t + 1) := by
    refine ⟨hs.hasInterface, hs.firstObserver, hs.next, ?_, ?_, hs.registrations⟩
    · show ((s.numbers.table 0).seq + 1) % 4294967296 = _
      rw [hs.seq, Nat.mod_add_mod]
    · show s.numbers.triggers 0 + 1 = _
      rw [hs.triggers]
  -- the entry of an observer that is lost is cleared, and keeps the counts
  have hcleared : (((s.numbers.count 0).clear 0).trigger 0).Alone (t + 1) :=
    ⟨hcounted.hasInterface, hcounted.firstObserver, hcounted.next, hcounted.seq,
      hcounted.triggers, hcounted.registrations⟩
  -- the first entry gets its number, and there is no second one
  have hnotified := number_notifyObserver hidle 0 hcounted hcleared
  have hinterface : (s.observables 0).hasInterface = true := hs.hasInterface
  have hfirst : (s.observables 0).firstObserver = 1 := hs.firstObserver
  have hnext : ((notifyObserver idleHooks s 0).observer 0).next = 0 := hnotified.next
  have hdone (u : Instance) : triggerFrom idleHooks 255 8 u (-1) = u := by
    rw [triggerFrom, if_neg (by decide)]
  show (smcpObservableTrigger idleHooks s 0 255).numbers.Alone (t + 1)
  unfold smcpObservableTrigger
  rw [if_pos hinterface, hfirst]
  show (triggerFrom idleHooks 255 9 s 0).numbers.Alone (t + 1)
  rw [triggerFrom, if_pos (by decide), if_neg (by decide)]
  dsimp only
  rw [if_neg fun hkey => hkey.2.1 rfl]
  show (triggerFrom idleHooks 255 8 (notifyObserver idleHooks s 0)
    (((notifyObserver idleHooks s 0).observer 0).next - 1)).numbers.Alone (t + 1)
  rw [hnext]
  exact (congrArg _ (congrArg _ (hdone _))).mpr hnotified

/-- After so many triggers its number is that. -/
theorem alone_triggeredRun (n : ℕ) : (triggeredRun n).numbers.Alone n := by
  induction n with
  | zero =>
    refine ⟨?_, ?_, ?_, ?_, ?_, ?_⟩
    all_goals decide +kernel
  | succ n ih => exact ih.trigger

end Smcp
