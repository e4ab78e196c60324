import Smcp.Observable.Refine

/-!
# Timeouts and responses take the steps of the machines

The functions that call the callbacks of transactions, under the assumption that the application
takes steps of the machines only. The last one is `smcp_process`.
-/

namespace Smcp

section
variable {hooks : Hooks} {s : Instance}

variable (hhooks : ∀ c u, Evolves u (hooks c u).1)
include hhooks

/-! ## Callbacks -/

/-- The callback is the application's or that of an observer. -/
theorem evolves_callResponse (callback : ResponseFunc) (statuscode : ℤ) :
    Evolves s (callResponse hooks s callback statuscode).1 := by
  cases callback with
  | user callback => exact hhooks _ _
  | eventResponseHandler i => exact evolves_eventResponseHandler hhooks _ _

/-- A resend is one of theirs, too. -/
theorem evolves_callResend (callback : ResendFunc) :
    Evolves s (callResend hooks s callback).1 := by
  cases callback with
  | user callback => exact hhooks _ _
  | retrySendingEvent i => exact evolves_retrySendingEvent hhooks _

/-! ## Timeouts -/

omit hhooks in
theorem same_randomUint32 (s : Instance) : Same s s.randomUint32.1 := ⟨rfl⟩

omit hhooks in
/-- The smaller of two times is computed from random numbers twice. -/
theorem minRetransmitTimeout_eq (s : Instance) (cms : ℤ) (retries : ℕ) :
    minRetransmitTimeout s cms retries =
      if cms < retransmitTimeout retries s.randomUint32.2 then (s.randomUint32.1, cms)
      else (s.randomUint32.1.randomUint32.1,
        retransmitTimeout retries s.randomUint32.1.randomUint32.2) := by
  unfold minRetransmitTimeout calcRetransmitTimeout
  generalize retransmitTimeout retries = timeout
  rfl

omit hhooks in
/-- Only random numbers are taken. -/
theorem minRetransmitTimeout_fst (s : Instance) (cms : ℤ) (retries : ℕ) :
    Same s (minRetransmitTimeout s cms retries).1 ∧
      (minRetransmitTimeout s cms retries).1.transaction = s.transaction := by
  rw [minRetransmitTimeout_eq]
  generalize retransmitTimeout retries = timeout
  by_cases hlt : cms < timeout s.randomUint32.2
  · rw [if_pos hlt]
    exact ⟨same_randomUint32 s, rfl⟩
  · rw [if_neg hlt]
    exact ⟨(same_randomUint32 s).trans (same_randomUint32 _), rfl⟩

omit hhooks in
/-- The delay after a resend at the time `now`. -/
theorem minRetransmitTimeout_snd (s : Instance) (t : Transaction) (now : Timeval) (retries : ℕ) :
    (minRetransmitTimeout s (t.attemptCms now) retries).2 =
      backOffDelay t now retries s.randomUint32.2 s.randomUint32.1.randomUint32.2 := by
  rw [minRetransmitTimeout_eq]
  unfold backOffDelay
  generalize retransmitTimeout retries = timeout
  by_cases hlt : t.attemptCms now < timeout s.randomUint32.2
  · rw [if_pos hlt, if_pos hlt]
  · rw [if_neg hlt, if_neg hlt]

/-- One more attempt, unless there were as many as can be counted. -/
def Transaction.countAttempt (t : Transaction) : Transaction :=
  if t.attemptCount ≠ smcpTransactionMaxAttempts then
    { t with attemptCount := t.attemptCount + 1 }
  else t

omit hhooks in
/-- An attempt is counted, in four bits and up to a limit. -/
theorem life_countAttempt (t : Transaction) :
    ∃ n, n ≠ 0 ∧
      (n ≤ smcpTransactionMaxAttempts ∨ smcpTransactionMaxAttempts < t.attemptCount) ∧
      t.countAttempt.life = { t.life with attemptCount := n } := by
  unfold Transaction.countAttempt
  by_cases hmax : t.attemptCount = smcpTransactionMaxAttempts
  · rw [if_neg (by simpa using hmax)]
    have hpos : t.attemptCount ≠ 0 := by
      rw [hmax]
      decide
    exact ⟨t.attemptCount, hpos, .inl hmax.le, rfl⟩
  · rw [if_pos hmax]
    exact ⟨t.attemptCount + 1, Nat.succ_ne_zero _, by omega, rfl⟩

omit hhooks in
/-- One more attempt, and a delay. -/
theorem evolves_countAttempt (u : Instance) (h : TransactionPtr) (t : Transaction) (now : Timeval)
    (random random' : ℕ) (delay : ℤ)
    (hdelay : delay = backOffDelay t now (u.core.life h).attemptCount random random') :
    Evolves u ((u.setTransaction h Transaction.countAttempt).log
      (.backedOff h t now (u.core.life h).attemptCount random random' delay)) := by
  obtain ⟨n, hpos, hn, hlife⟩ := life_countAttempt (u.transaction h)
  have hworld := world_setTransaction u h Transaction.countAttempt
  rw [hlife] at hworld
  have hstep : LifeStep u.core.life u.events _ _ := .backOff h t now random random' n hpos hn
  rw [← hdelay] at hstep
  refine evolves_live hstep ?_
  rw [world_log, hworld]
  rfl

omit hhooks in
/-- What follows a resend that went well. -/
theorem evolves_backOff (u : Instance) (h : TransactionPtr) (t : Transaction) (now : Timeval)
    {timeout : Instance × ℤ} (htimeout : minRetransmitTimeout u (t.attemptCms now)
      (u.transaction h).attemptCount = timeout) :
    Evolves u ((timeout.1.setTransaction h Transaction.countAttempt).log
      (.backedOff h t now (u.transaction h).attemptCount u.randomUint32.2
        u.randomUint32.1.randomUint32.2 timeout.2)) := by
  have hfst := minRetransmitTimeout_fst u (t.attemptCms now) (u.transaction h).attemptCount
  have hdelay := minRetransmitTimeout_snd u t now (u.transaction h).attemptCount
  rw [htimeout] at hfst hdelay
  rw [← hfst.2] at hdelay ⊢
  refine Evolves.trans hfst.1.evolves ?_
  exact evolves_countAttempt timeout.1 h t now _ _ timeout.2 hdelay

/-- The resend attempt of a transaction that does not wait for its response. -/
theorem evolves_timeoutResend (h : TransactionPtr) {resend : ResendFunc}
    (hfired : s.events.head? = some (.timedOut h (s.transaction h) s.now))
    (hcallback : (s.transaction h).resendCallback = some resend)
    (hleft : convertTimevalToCms s.now (s.transaction h).expiration > 0 ∨
      (s.transaction h).attemptCount = 0)
    (hresend : (s.transaction h).suppressesResend = false) :
    Evolves s (timeoutResend hooks s h resend ((s.transaction h).attemptCms s.now)).state := by
  unfold timeoutResend
  dsimp only
  have hlog : Evolves s (s.log (.resent h (s.transaction h) s.now)) :=
    evolves_log (.resend h _ _ hfired (by rw [hcallback]; rfl) hleft hresend)
  -- the resend callback runs with the transaction as the current one
  set s1 : Instance := { s.log (.resent h (s.transaction h) s.now) with
    outbound.nextTid := s.store.msgId h, isProcessingMessage := false, isResponding := false
    didRespond := false }
  have h1 : Evolves s s1 := hlog.trans (Same.evolves ⟨rfl⟩)
  have hcall : Evolves s (callResend hooks s1 resend).1 := h1.trans (evolves_callResend hhooks _)
  -- what it has returned is all that the branches below look at
  generalize callResend hooks s1 resend = r at hcall ⊢
  have hu : Evolves s (r.1.log (.resendReturned h r.2)) :=
    hcall.trans (evolves_log (.resendReturn h r.2))
  generalize r.1.log (.resendReturned h r.2) = u at hu ⊢
  split
  · generalize htimeout : minRetransmitTimeout u ((s.transaction h).attemptCms s.now)
      (u.transaction h).attemptCount = timeout
    exact hu.trans (evolves_backOff u h (s.transaction h) s.now htimeout)
  · split
    · exact hu
    · exact hu

omit hhooks in
/-- The request is not sent when its response was announced before any attempt. -/
theorem suppressesResend_eq_true (t : Transaction) :
    t.suppressesResend = true ↔ t.attemptCount = 0 ∧ t.waitingForAsyncResponse = true ∧
      hasFlag t.flags smcpTransactionKeepalive = false := by
  simp [Transaction.suppressesResend, and_assoc]

/-- What a transaction with nothing to resend does at a timeout. -/
def Transaction.noteAttempt (t : Transaction) : Transaction :=
  { t with attemptCount := if t.attemptCount = 0 then 1 else t.attemptCount }

omit hhooks in
/-- There is something to send. -/
theorem timeoutAttempt_resend {h : TransactionPtr} {resend : ResendFunc}
    (hresend : (s.transaction h).resendCallback = some resend)
    (hsuppress : (s.transaction h).suppressesResend = false) :
    timeoutAttempt hooks s h (convertTimevalToCms s.now (s.transaction h).expiration) =
      let step := timeoutResend hooks s h resend ((s.transaction h).attemptCms s.now)
      ((smcpScheduleTimer step.state (.ofTransaction h) step.cms).1, step.status) := by
  have hnot : ¬ ((s.transaction h).attemptCount = 0 ∧
      (s.transaction h).waitingForAsyncResponse = true ∧
      hasFlag (s.transaction h).flags smcpTransactionKeepalive = false) := by
    rw [← suppressesResend_eq_true, hsuppress]
    decide
  unfold timeoutAttempt Transaction.attemptCms
  generalize convertTimevalToCms s.now (s.transaction h).expiration = cms
  dsimp only
  rw [hresend, if_neg hnot]
  dsimp only
  rw [if_pos rfl]

omit hhooks in
/-- There is nothing to send, and the timer is set to the expiration. -/
theorem timeoutAttempt_idle {h : TransactionPtr}
    (hidle : (s.transaction h).resendCallback = none ∨ (s.transaction h).suppressesResend = true) :
    timeoutAttempt hooks s h (convertTimevalToCms s.now (s.transaction h).expiration) =
      ((smcpScheduleTimer ((s.log (.passed h)).setTransaction h Transaction.noteAttempt)
          (.ofTransaction h)
          ((s.transaction h).attemptCms s.now)).1,
        if (s.transaction h).suppressesResend then smcpStatusOk else smcpStatusTimeout) := by
  have hstatus : (if (s.transaction h).attemptCount = 0 ∧
      (s.transaction h).waitingForAsyncResponse = true ∧
      hasFlag (s.transaction h).flags smcpTransactionKeepalive = false then smcpStatusOk
      else smcpStatusTimeout) =
      if (s.transaction h).suppressesResend then smcpStatusOk else smcpStatusTimeout :=
    if_congr (suppressesResend_eq_true _).symm rfl rfl
  unfold timeoutAttempt Transaction.attemptCms
  generalize convertTimevalToCms s.now (s.transaction h).expiration = cms
  dsimp only
  rw [hstatus]
  cases hresend : (s.transaction h).resendCallback with
  | none => rfl
  | some resend =>
    have hsuppress : (s.transaction h).suppressesResend = true := by simpa [hresend] using hidle
    rw [hsuppress, if_pos rfl]
    rfl

omit hhooks in
/-- A firing without a send is counted as an attempt. -/
theorem evolves_noteAttempt (h : TransactionPtr) :
    Evolves s ((s.log (.passed h)).setTransaction h Transaction.noteAttempt) :=
  evolves_logSet h (.pass h) rfl

/-- The branch for a transaction whose timer has just fired. -/
theorem evolves_timeoutAttempt (h : TransactionPtr)
    (hfired : s.events.head? = some (.timedOut h (s.transaction h) s.now))
    (hleft : convertTimevalToCms s.now (s.transaction h).expiration > 0 ∨
      (s.transaction h).attemptCount = 0) :
    Evolves s (timeoutAttempt hooks s h
      (convertTimevalToCms s.now (s.transaction h).expiration)).1 := by
  by_cases hidle : (s.transaction h).resendCallback = none ∨
      (s.transaction h).suppressesResend = true
  · rw [timeoutAttempt_idle hidle]
    exact (evolves_noteAttempt h).trans (quiet_scheduleTimer _ _ _).evolves
  · rw [not_or, Bool.not_eq_true] at hidle
    obtain ⟨resend, hresend⟩ := Option.ne_none_iff_exists'.1 hidle.1
    rw [timeoutAttempt_resend hresend hidle.2]
    exact (evolves_timeoutResend hhooks h hfired hresend hleft hidle.2).trans
      (quiet_scheduleTimer _ _ _).evolves

omit hhooks in
/-- Timers have a history of their own. -/
theorem scheduleTimer_events (s : Instance) (timer : TimerPtr) (cms : ℤ) :
    (smcpScheduleTimer s timer cms).1.events = s.events := by
  have hcore := congrArg World.core (quiet_scheduleTimer s timer cms).world
  exact congrArg Core.events hcore

omit hhooks in
theorem statusOk_ne_invalidated : smcpStatusOk ≠ smcpStatusTransactionInvalidated := by decide

omit hhooks in
theorem statusFailure_ne_invalidated : smcpStatusFailure ≠ smcpStatusTransactionInvalidated := by
  decide

omit hhooks in
theorem statusTimeout_ne_invalidated : smcpStatusTimeout ≠ smcpStatusTransactionInvalidated := by
  decide

omit hhooks in
/-- Only the resend callback can make the transaction look invalidated. -/
theorem timeoutResend_status (h : TransactionPtr) (resend : ResendFunc) (cms : ℤ) :
    (timeoutResend hooks s h resend cms).status ≠ smcpStatusTransactionInvalidated ∨
      .resendReturned h (timeoutResend hooks s h resend cms).status ∈
        (timeoutResend hooks s h resend cms).state.events := by
  unfold timeoutResend
  dsimp only
  generalize callResend hooks _ resend = r
  by_cases hret : r.2 = smcpStatusOk
  · simp only [if_pos hret]
    exact .inl statusOk_ne_invalidated
  · by_cases hdns : r.2 = smcpStatusWaitForDns
    · simp only [if_neg hret, if_pos hdns]
      exact .inl statusOk_ne_invalidated
    · simp only [if_neg hret, if_neg hdns]
      exact .inr List.mem_cons_self

omit hhooks in
/-- The status is `SMCP_STATUS_TRANSACTION_INVALIDATED` only if a callback returned it. -/
theorem timeoutAttempt_status (h : TransactionPtr) :
    (timeoutAttempt hooks s h (convertTimevalToCms s.now (s.transaction h).expiration)).2 ≠
        smcpStatusTransactionInvalidated ∨
      .resendReturned h
        (timeoutAttempt hooks s h (convertTimevalToCms s.now (s.transaction h).expiration)).2 ∈
          (timeoutAttempt hooks s h
            (convertTimevalToCms s.now (s.transaction h).expiration)).1.events := by
  by_cases hidle : (s.transaction h).resendCallback = none ∨
      (s.transaction h).suppressesResend = true
  · rw [timeoutAttempt_idle hidle]
    left
    cases (s.transaction h).suppressesResend with
    | false => exact statusTimeout_ne_invalidated
    | true => exact statusOk_ne_invalidated
  · rw [not_or, Bool.not_eq_true] at hidle
    obtain ⟨resend, hresend⟩ := Option.ne_none_iff_exists'.1 hidle.1
    rw [timeoutAttempt_resend hresend hidle.2]
    dsimp only
    rw [scheduleTimer_events]
    exact timeoutResend_status h resend _

/-- The branch for a transaction that starts over. -/
theorem evolves_timeoutRestart (h : TransactionPtr) (cms : ℤ) :
    Evolves s (timeoutRestart hooks s h cms).1 := by
  unfold timeoutRestart
  dsimp only
  set s1 := (s.log (.restarted h)).setTransaction h _ with hs1
  have h1 : Evolves s s1 := by
    refine evolves_live (.restart h) ?_
    rw [hs1, world_setTransaction, world_log]
    rfl
  clear_value s1
  have hrenew := h1.trans (evolves_renew hhooks h)
  generalize smcpTransactionNewMsgId hooks _ h _ = s2 at hrenew ⊢
  set s3 := s2.setTransaction h _ with hs3
  have h3 : Evolves s s3 := by
    refine hrenew.trans (Same.evolves ?_)
    exact same_setTransaction s2 h fun _ => rfl
  clear_value s3
  refine Evolves.trans ?_ (quiet_scheduleTimer _ _ _).evolves
  split_ifs
  · exact h3.trans (same_delayStart _ _ _).evolves
  · exact h3

omit hhooks in
/-- Starting over does not fail in this way. -/
theorem timeoutRestart_status (h : TransactionPtr) (cms : ℤ) :
    (timeoutRestart hooks s h cms).2 ≠ smcpStatusTransactionInvalidated := by
  have hschedule (u : Instance) (timer : TimerPtr) (cms : ℤ) :
      (smcpScheduleTimer u timer cms).2 ≠ smcpStatusTransactionInvalidated := by
    unfold smcpScheduleTimer
    dsimp only
    by_cases hsched : smcpTimerIsScheduled u timer = true
    · rw [if_pos hsched]
      exact statusFailure_ne_invalidated
    · rw [if_neg hsched]
      split
      · exact statusOk_ne_invalidated
      · exact statusFailure_ne_invalidated
  exact hschedule _ _ _

/-- The callback hears of a timeout, and the transaction ends. -/
theorem evolves_timeoutReport (h : TransactionPtr) {status : ℤ}
    (hstatus : status ≠ smcpStatusTransactionInvalidated ∨ .resendReturned h status ∈ s.events) :
    Evolves s (timeoutReport hooks s h status) := by
  -- the transaction ends here, unless it is to be ended by its owner
  have hend (u : Instance) : Evolves u (if hasFlag (u.transaction h).flags smcpTransactionNoAutoEnd
      then u else smcpTransactionEnd hooks u h) := by
    split_ifs
    · exact Evolves.refl u
    · exact evolves_end hhooks h
  have hlast (u : Instance) : Evolves u (if u.currentTransaction ≠ some h then u
      else { (if hasFlag (u.transaction h).flags smcpTransactionNoAutoEnd then u
        else smcpTransactionEnd hooks u h) with currentTransaction := none }) := by
    split
    · exact Evolves.refl u
    · exact (hend u).trans (Same.evolves ⟨rfl⟩)
  unfold timeoutReport
  refine Evolves.trans ?_ (hlast _)
  -- the callback is forgotten before it is called, unless one of the two flags keeps it
  set disarm : Bool := hasFlag (s.transaction h).flags smcpTransactionAlwaysInvalidate = false &&
    hasFlag (s.transaction h).flags smcpTransactionNoAutoEnd = false with hdisarm
  have hcleared : (if hasFlag (s.transaction h).flags smcpTransactionAlwaysInvalidate = false ∧
      hasFlag (s.transaction h).flags smcpTransactionNoAutoEnd = false then
      s.setTransaction h fun t => { t with callback := none } else s) =
      s.setTransaction h fun t => { t with callback := if disarm then none else t.callback } := by
    by_cases hcond : hasFlag (s.transaction h).flags smcpTransactionAlwaysInvalidate = false ∧
      hasFlag (s.transaction h).flags smcpTransactionNoAutoEnd = false
    · have htrue : disarm = true := by simp [hdisarm, hcond]
      rw [if_pos hcond, htrue]
      rfl
    · have hfalse : disarm = false := by simpa [hdisarm] using hcond
      rw [if_neg hcond, hfalse]
      unfold Instance.setTransaction
      simp
  -- without a callback there is nobody to hear of it
  rw [hcleared]
  cases hcallback : (s.transaction h).callback with
  | none =>
    refine (same_setTransaction_at h ?_).evolves
    simp [Transaction.life, hcallback]
  | some callback =>
    refine Evolves.trans ?_ (evolves_callResponse hhooks callback status)
    have hsome : (s.core.life h).callback.isSome = true := by
      rw [show (s.core.life h).callback = _ from hcallback]
      rfl
    have hstep : LifeStep s.core.life s.events _ _ := .call h status disarm hsome
      (fun honce => by simp_all [calledOnce, Instance.core, Transaction.life])
      (fun halways => by simp_all [Instance.core, Transaction.life]) hstatus
    refine evolves_live hstep ?_
    rw [world_log, world_setTransaction]
    rfl


/-- The timer of a transaction has fired. -/
theorem evolves_transactionTimeout (h : TransactionPtr) :
    Evolves s (smcpInternalTransactionTimeout_ hooks s h) := by
  unfold smcpInternalTransactionTimeout_
  dsimp only
  -- the state from which the source computes: the timer has fired and the attempts are as they
  -- were
  set s1 : Instance := { s.log (.timedOut h (s.transaction h) s.now) with
    currentTransaction := some h }
  have hlog : Evolves s (s.log (.timedOut h (s.transaction h) s.now)) := evolves_log (.timeOut h _ _ rfl)
  have h1 : Evolves s s1 := hlog.trans (Same.evolves ⟨rfl⟩)
  have hfired : s1.events.head? = some (.timedOut h (s1.transaction h) s1.now) := rfl
  -- the conversion is of the time and the expiration of the moment of the firing
  have hcms : convertTimevalToCms s.now (s.transaction h).expiration =
      convertTimevalToCms s1.now (s1.transaction h).expiration := rfl
  have hcount : (s.transaction h).attemptCount = (s1.transaction h).attemptCount := rfl
  rw [hcms, hcount]
  clear_value s1
  -- the report comes last, whatever way the attempt has gone
  have hreport (r : Instance × ℤ) (hr : Evolves s1 r.1) (hstatus : r.2 ≠
      smcpStatusTransactionInvalidated ∨ .resendReturned h r.2 ∈ r.1.events) :
      Evolves s (if r.2 ≠ smcpStatusOk then timeoutReport hooks r.1 h r.2
        else { r.1 with currentTransaction := none }) := by
    refine (h1.trans hr).trans ?_
    split
    · exact evolves_timeoutReport hhooks _ hstatus
    · exact Same.evolves ⟨rfl⟩
  refine hreport _ ?_ ?_
  · split_ifs with hleft
    · exact evolves_timeoutAttempt hhooks h hfired hleft
    · exact evolves_timeoutRestart hhooks _ _
    · exact Evolves.refl s1
  · split_ifs
    · exact timeoutAttempt_status h
    · exact .inl (timeoutRestart_status h _)
    · exact .inl statusTimeout_ne_invalidated

omit hhooks in
/-- Firing a timer takes it out of the list and calls nothing. -/
theorem invalidateTimer_fire (timer : TimerPtr) :
    smcpInvalidateTimer hooks
        { s.logTimer (.fired timer (s.timers.timer timer).fireDate s.now) with
          timers := s.timers.modify timer fun t => { t with cancel := none } } timer =
      Instance.logTimer { s.logTimer (.fired timer (s.timers.timer timer).fireDate s.now) with
        timers := (s.timers.modify timer fun t => { t with cancel := none }).unlink timer }
        (.invalidated timer) := by
  have hcancel := SameCancel.unlink (s.timers.modify timer fun t => { t with cancel := none }) timer timer
  have hnone : ((s.timers.modify timer fun t => { t with cancel := none }).timer timer).cancel =
      none := by
    simp [TimerList.modify]
  rw [hnone] at hcancel
  unfold TimerList.unlink at hcancel
  unfold smcpInvalidateTimer
  dsimp only
  rw [hcancel]
  rfl

omit hhooks in
/-- The timer that fires is taken out of the list. -/
theorem quiet_fire {timer : TimerPtr} (hhead : s.timers.head = some timer)
    (hdue : convertTimevalToCms s.now (s.timers.timer timer).fireDate ≤ 0) :
    Quiet s (smcpInvalidateTimer hooks
      { s.logTimer (.fired timer (s.timers.timer timer).fireDate s.now) with
        timers := s.timers.modify timer fun t => { t with cancel := none } } timer) := by
  rw [invalidateTimer_fire]
  exact ⟨.single (.fire s.timerState timer s.now hhead hdue), rfl⟩

/-- The timer that is first fires, if it is due. -/
theorem evolves_handleTimers : Evolves s (smcpHandleTimers hooks s) := by
  unfold smcpHandleTimers
  split
  · exact Evolves.refl s
  · rename_i timer htimer
    dsimp only
    split
    · rename_i hdue
      have hfired := (@quiet_fire hooks s timer htimer hdue).evolves
      split
      · exact hfired.trans (evolves_transactionTimeout hhooks _)
      · exact hfired.trans (hhooks _ _)
      · exact hfired
    · exact Evolves.refl s

/-! ## Responses -/

omit hhooks in
/-- An observing transaction waits again. -/
theorem evolves_rescheduleObserve (h : TransactionPtr) (cms : ℤ) :
    Evolves s (rescheduleObserve s h cms) := by
  unfold rescheduleObserve
  refine Evolves.of_same (quiet_scheduleTimer _ _ _).evolves ?_
  exact same_setTransaction s h fun _ => rfl

/-- One that failed is told so, and ends. -/
theorem evolves_responseBail (ret : ℤ) (handler : Option TransactionPtr) :
    Evolves s (responseBail hooks s ret handler).1 := by
  unfold responseBail
  split
  · split_ifs
    · exact evolves_end hhooks _
    · exact Evolves.refl s
  · exact Evolves.refl s

/-- A notification that is skipped. -/
theorem evolves_respondObserve_old {h : TransactionPtr} (callback : ResponseFunc)
    (hobserve : hasFlag (s.transaction h).flags smcpTransactionObserve = true)
    (hold : s.inbound.isOldObservation (s.transaction h) = true) :
    Evolves s (respondObserve hooks s h callback).1 := by
  unfold respondObserve
  dsimp only
  rw [if_pos hold]
  refine Evolves.trans ?_ (evolves_responseBail hhooks _ _)
  exact evolves_live (.skip h s.inbound (s.transaction h) rfl hobserve hold) rfl

/-- After the callback has been called for a notification. -/
theorem evolves_afterNotification (r : Instance × ℤ) (h : TransactionPtr) (msgId : ℕ) (cms : ℤ) :
    Evolves r.1
      (if r.1.currentTransaction = none ∨ msgId ≠ r.1.store.msgId h then r
      else
        let waits := (r.1.transaction h).waitingForAsyncResponse || r.1.inbound.hasObserveOption
        let s := (r.1.log (.answered h waits)).setTransaction h fun t =>
          { t with waitingForAsyncResponse := waits, attemptCount := 0 }
        let s := { s with
          timers := s.timers.modify (.ofTransaction h) fun t => { t with cancel := none } }
        let s := smcpInvalidateTimer hooks s (.ofTransaction h)
        responseBail hooks (rescheduleObserve s h cms) r.2 (some h)).1 := by
  split
  · exact Evolves.refl r.1
  · refine Evolves.trans ?_ (evolves_responseBail hhooks _ _)
    refine Evolves.trans ?_ (evolves_rescheduleObserve _ _)
    refine Evolves.trans ?_ (evolves_invalidateTimer hhooks _)
    refine Evolves.trans ?_ (quiet_uncancel _ _).evolves
    exact evolves_logSet h (.answer h _) rfl

/-- A notification for which the callback is called. -/
theorem evolves_respondObserve {h : TransactionPtr} (callback : ResponseFunc)
    (hobserve : hasFlag (s.transaction h).flags smcpTransactionObserve = true)
    (hold : s.inbound.isOldObservation (s.transaction h) = false) :
    Evolves (s.logResponded h) (respondObserve hooks s h callback).1 := by
  have hdelivered : Evolves (s.logResponded h)
      (((((s.logResponded h).log (.notification h s.inbound.observeValue (s.transaction h))).log
        (.delivered h s.inbound.observeValue)).log
        (.called h s.inbound.responseStatus)).setTransaction h
          fun t => { t with lastObserve := s.inbound.observeValue }) := by
    refine evolves_live (.deliver h s.inbound (s.transaction h) rfl hobserve hold) ?_
    rw [world_setTransaction]
    rfl
  unfold respondObserve
  dsimp only
  rw [if_neg (by simp [hold])]
  refine Evolves.trans ?_ (evolves_afterNotification hhooks _ h _ _)
  exact hdelivered.trans (evolves_callResponse hhooks callback _)

/-- What is done behind the callback. -/
theorem evolves_respondFinish (h : TransactionPtr) (ret : ℤ) :
    Evolves s (respondFinish hooks s h ret).1 := by
  unfold respondFinish
  dsimp only
  split
  · refine Evolves.trans ?_ (evolves_responseBail hhooks _ _)
    refine Evolves.trans ?_ (quiet_scheduleTimer _ _ _).evolves
    refine Evolves.trans ?_ (evolves_invalidateTimer hhooks _)
    refine (evolves_renew hhooks h).of_same ?_
    exact same_setTransaction s h fun _ => rfl
  · split
    · refine Evolves.trans ?_ (evolves_responseBail hhooks _ _)
      refine Evolves.trans ?_ (evolves_rescheduleObserve _ _)
      refine (evolves_invalidateTimer hhooks _).of_same ?_
      exact same_setTransaction s h fun _ => rfl
    · have hset : Same s (s.setTransaction h fun t => { t with resendCallback := none }) :=
        same_setTransaction s h fun _ => rfl
      split
      · exact hset.evolves
      · exact (evolves_end hhooks h).of_same hset

omit hhooks in
theorem responseStatus_ne_invalidated (i : Inbound) :
    i.responseStatus ≠ smcpStatusTransactionInvalidated := by
  unfold Inbound.responseStatus
  split_ifs
  · decide
  · have hnonneg : (0 : ℤ) ≤ headerCode i.bytes := Int.natCast_nonneg _
    intro heq
    rw [heq] at hnonneg
    exact absurd hnonneg (by decide)

omit hhooks in
/-- The callback is called for a response, and forgotten if it is called only once. -/
theorem evolves_disarmCallback {h : TransactionPtr} {callback : ResponseFunc} {statuscode : ℤ}
    (hcallback : (s.transaction h).callback = some callback)
    (hstatus : statuscode ≠ smcpStatusTransactionInvalidated) :
    Evolves s (disarmCallback (s.log (.called h statuscode)) h) := by
  have hsome : (s.core.life h).callback.isSome = true := by
    rw [show (s.core.life h).callback = _ from hcallback]
    rfl
  unfold disarmCallback
  rw [show (s.log (.called h statuscode)).transaction h = s.transaction h from rfl]
  -- with the flag for one call, the callback is gone when the call is over
  split_ifs with hcond
  · have hstep : LifeStep s.core.life s.events _ _ := .call h statuscode true hsome (fun _ => rfl)
      (fun halways => by simp_all [Instance.core, Transaction.life]) (.inl hstatus)
    refine evolves_live hstep ?_
    rw [world_setTransaction, world_log]
    rfl
  · have hstep : LifeStep s.core.life s.events _ _ := .call h statuscode false hsome
      (fun honce => by simp_all [calledOnce, Instance.core, Transaction.life]) (fun _ => rfl)
      (.inl hstatus)
    refine evolves_live hstep ?_
    rw [world_log]
    have hsame : Function.update s.core.life h
        { s.core.life h with callback := if false = true then none else (s.core.life h).callback } =
        s.core.life := Function.update_eq_self h s.core.life
    rw [hsame]
    rfl

/-- A response for which the callback is called. -/
theorem evolves_respondOnce (h : TransactionPtr) {callback : ResponseFunc}
    (hcallback : (s.transaction h).callback = some callback) :
    Evolves (s.logResponded h) (respondOnce hooks s h callback).1 := by
  unfold respondOnce
  dsimp only
  have h1 : Evolves (s.logResponded h)
      (disarmCallback ((s.logResponded h).log (.called h s.inbound.responseStatus)) h) :=
    evolves_disarmCallback hcallback (responseStatus_ne_invalidated s.inbound)
  generalize disarmCallback ((s.logResponded h).log (.called h s.inbound.responseStatus)) h = s1
    at h1 ⊢
  have hcall := h1.trans (evolves_callResponse hhooks callback s1.inbound.responseStatus)
  generalize callResponse hooks s1 callback _ = r at hcall ⊢
  have hreset : Evolves (s.logResponded h) ((r.1.log (.answered h false)).setTransaction h fun t =>
      { t with attemptCount := 0, waitingForAsyncResponse := false }) :=
    hcall.trans (evolves_logSet h (.answer h false) rfl)
  split
  · exact hcall
  · split
    · exact hreset.trans (evolves_respondFinish hhooks _ _)
    · exact hreset.trans (evolves_responseBail hhooks _ _)

omit hhooks in
/-- A reset is composed and sent. -/
theorem same_respondUnknown (s : Instance) : Same s (respondUnknown s).1 := by
  unfold respondUnknown
  split_ifs
  · refine Same.trans ?_ (same_send _)
    exact (same_beginResponse s 0).trans ⟨rfl⟩
  · exact Same.refl s

end

/-! ## Handling a response -/

section
variable {hooks : Hooks} {s s' : Instance} {h : TransactionPtr}

/-- `s'` is `s` on the way to the callback: the message was received, and the iterator moved. -/
structure Received (s s' : Instance) : Prop where
  same : Same (s.log (.received s.inbound s.store s.transaction)) s'
  transaction : s'.transaction = s.transaction
  inbound : s.inbound.SameMessage s'.inbound

/-- The message does not reach a callback. -/
theorem Received.evolves (hr : Received s s') (hreach : s.inbound.reaches s.store s.transaction = none) :
    Evolves s s' := by
  have hstep := Step.respond s.core s.inbound s.inbound s.transaction rfl rfl
  have hevents : responseEvents s.inbound s.inbound s.core.store s.transaction =
      [.received s.inbound s.store s.transaction] := by
    unfold responseEvents
    rw [show s.core.store = s.store from rfl, hreach]
  rw [hevents] at hstep
  refine Evolves.trans ?_ hr.same.evolves
  exact fun _ => .single (.core s.world _ hstep fun _ => .inl)

/-- The message reaches the callback of `h`. -/
theorem Received.evolves_responded (hr : Received s s')
    (hreach : s.inbound.reaches s.store s.transaction = some h) :
    Evolves s (s'.logResponded h) := by
  obtain ⟨key, option, hinbound⟩ := hr.inbound
  have hstep := Step.respond s.core s.inbound s'.inbound s.transaction (by rw [hinbound])
    (by rw [hinbound])
  have hevents : responseEvents s.inbound s'.inbound s.core.store s.transaction =
      [.responded h s'.inbound s.store (s.transaction h),
        .received s.inbound s.store s.transaction] := by
    unfold responseEvents
    rw [show s.core.store = s.store from rfl, hreach]
  rw [hevents] at hstep
  have hstore : s'.store = s.store := congrArg (fun w => w.core.store) hr.same.world
  have hworld : (s'.logResponded h).world = { s'.world with
      core := { s'.world.core with
        events := .responded h s'.inbound s'.store (s'.transaction h) :: s'.world.core.events } } :=
    rfl
  intro _
  rw [hworld, hr.same.world, hr.transaction, hstore]
  exact .single (.core s.world _ hstep fun _ => .inl)

/-- The response is noted, with the transaction that it reaches. -/
theorem received_handled (s : Instance) (handler : Option TransactionPtr) :
    Received s
      { s.log (.received s.inbound s.store s.transaction) with currentTransaction := handler } :=
  ⟨⟨rfl⟩, rfl, .refl _⟩

/-- Setting up for the callback changes none of it. -/
theorem Received.prepareCallback (hr : Received s s') : Received s (prepareCallback s') := by
  have hauth : (smcpAuthInboundInit s').transaction = s'.transaction ∧
      s'.inbound.SameMessage (smcpAuthInboundInit s').inbound := by
    unfold smcpAuthInboundInit
    split_ifs
    · exact ⟨rfl, (Inbound.sameMessage_resetNextOption _).trans (Inbound.sameMessage_skipOptions _ _)⟩
    · exact ⟨rfl, .refl _⟩
  refine ⟨(hr.same.trans (same_authInboundInit s')).trans ⟨rfl⟩, ?_, ?_⟩
  · exact hauth.1.trans hr.transaction
  · exact (hr.inbound.trans hauth.2).trans (Inbound.sameMessage_resetNextOption _)

/-- A response that belongs to no transaction reaches none. -/
theorem reaches_of_responseHandler_none (hhandler : s.responseHandler = none) :
    s.inbound.reaches s.store s.transaction = none := by
  unfold Instance.responseHandler at hhandler
  unfold Inbound.reaches
  cases hlookup : s.inbound.lookup s.store with
  | none => rfl
  | some h' =>
    rw [hlookup] at hhandler
    simp_all

/-- Otherwise it reaches the callback, unless it only announces a response or notifies too late. -/
theorem reaches_of_responseHandler (hhandler : s.responseHandler = some h) :
    s.inbound.reaches s.store s.transaction =
      if !s.inbound.announcesResponse (s.transaction h) && (s.transaction h).callback.isSome &&
        !(s.inbound.notifies (s.transaction h) && s.inbound.isOldObservation (s.transaction h))
      then some h else none := by
  unfold Instance.responseHandler at hhandler
  unfold Inbound.reaches
  cases hlookup : s.inbound.lookup s.store with
  | none =>
    rw [hlookup] at hhandler
    exact absurd hhandler (by simp)
  | some h' =>
    rw [hlookup] at hhandler
    dsimp only at hhandler
    split_ifs at hhandler with hpeer
    obtain rfl := Option.some.inj hhandler
    simp [hpeer]

/-- The response is taken to the callback that it reaches, and to no other. -/
theorem evolves_respondTo (hhooks : ∀ c u, Evolves u (hooks c u).1)
    (hhandler : s.responseHandler = some h) (hr : Received s s') (hsame : s'.inbound = s.inbound) :
    Evolves s (respondTo hooks s' h).1 := by
  have hreach := reaches_of_responseHandler hhandler
  -- what prepares the call leaves the transaction and what it waits for
  have hr2 := hr.prepareCallback
  obtain ⟨key, option, hmsg⟩ := hr2.inbound
  have hisOld : (prepareCallback s').inbound.isOldObservation ((prepareCallback s').transaction h) =
      s.inbound.isOldObservation (s.transaction h) := by
    rw [hmsg, hr2.transaction]
    rfl
  unfold respondTo
  dsimp only
  -- an announcement, a notification, or the response itself
  rw [hr.transaction, hsame]
  split
  · rename_i hannounces
    refine (hr.evolves ?_).trans (evolves_logSet h (.acknowledge h _) rfl)
    rw [hreach, hannounces]
    rfl
  · rename_i hannounces
    split
    · rename_i hcallback
      refine hr.evolves ?_
      rw [hreach, hcallback]
      simp
    · rename_i callback hcallback
      split
      · rename_i hnotifies
        have hobserve : hasFlag ((prepareCallback s').transaction h).flags
            smcpTransactionObserve = true := by
          rw [hr2.transaction]
          exact (Bool.and_eq_true_iff.1 hnotifies).1
        cases hold : s.inbound.isOldObservation (s.transaction h) with
        | true =>
          refine (hr2.evolves ?_).trans
            (evolves_respondObserve_old hhooks callback hobserve (hisOld.trans hold))
          rw [hreach, hnotifies, hold]
          simp
        | false =>
          refine (hr2.evolves_responded ?_).trans
            (evolves_respondObserve hhooks callback hobserve (hisOld.trans hold))
          rw [hreach, hold, hcallback]
          simp [hannounces]
      · rename_i hnotifies
        refine (hr2.evolves_responded ?_).trans (evolves_respondOnce hhooks h ?_)
        · rw [hreach, hcallback]
          simp [hannounces, hnotifies]
        · rw [hr2.transaction, hcallback]

/-- With a transaction for it or without one. -/
theorem evolves_handleResponse (hhooks : ∀ c u, Evolves u (hooks c u).1) :
    Evolves s (smcpHandleResponse hooks s).1 := by
  have hr := received_handled s s.responseHandler
  unfold smcpHandleResponse
  dsimp only
  rw [show (s.log (.received s.inbound s.store s.transaction)).responseHandler =
    s.responseHandler from rfl]
  cases hhandler : s.responseHandler with
  | none =>
    rw [hhandler] at hr
    exact (hr.evolves (reaches_of_responseHandler_none hhandler)).trans
      (same_respondUnknown _).evolves
  | some h =>
    rw [hhandler] at hr
    exact evolves_respondTo hhooks hhandler hr rfl

/-! ## Packets -/

variable (hhooks : ∀ c u, Evolves u (hooks c u).1)
include hhooks

/-- Requests to the handlers, everything else to the transactions. -/
theorem evolves_dispatchPacket : Evolves s (dispatchPacket hooks s).1 := by
  unfold dispatchPacket
  split_ifs
  · exact evolves_handleRequest hhooks
  · exact evolves_handleResponse hhooks
  · exact Evolves.refl s

/-- Then the automatic reply. -/
theorem evolves_finishPacket : Evolves s (smcpInboundFinishPacket hooks s).1 := by
  have hbail (u : Instance) : Same u (finishPacketBail u) := ⟨rfl⟩
  unfold smcpInboundFinishPacket
  dsimp only
  split_ifs
  · exact (hbail s).evolves
  · exact (hbail s).evolves
  · refine Evolves.trans ?_ ((same_automaticReply _ _ _).trans (hbail _)).evolves
    exact (evolves_preparePacket s).trans (evolves_dispatchPacket hhooks)

/-- A packet that is not accepted changes nothing. -/
theorem evolves_processPacket (buffer : ℕ → UInt8) (packetLength : ℕ) (source : SockAddr)
    (dest : Option SockAddr) :
    Evolves s (processPacket hooks s buffer packetLength source dest).1 := by
  have hstart := same_startPacket s buffer packetLength
  unfold processPacket
  dsimp only
  split_ifs
  · exact hstart.evolves
  · have hsrc := hstart.trans (same_setSrcaddr _ source)
    refine Evolves.trans ?_ (evolves_finishPacket hhooks)
    unfold addressPacket
    split
    · exact (hsrc.trans (same_inboundSetDestaddr _ _)).evolves
    · exact hsrc.evolves

/-- An empty datagram is not looked at. -/
theorem evolves_receivePacket (a : Arrival) (rest : ℕ → UInt8) :
    Evolves s (receivePacket hooks s a rest).1 := by
  unfold receivePacket
  dsimp only
  split_ifs
  · exact Evolves.refl s
  · exact evolves_processPacket hhooks _ _ _ _

/-- One round of `smcp_process`. -/
theorem evolves_process (arrival : Option Arrival) (rest : ℕ → UInt8) :
    Evolves s (smcpProcess hooks s arrival rest) := by
  have htimers (r : Instance × Bool) (hr : Evolves s r.1) :
      Evolves s (if r.2 then smcpHandleTimers hooks r.1 else r.1) := by
    split_ifs
    · exact hr.trans (evolves_handleTimers hhooks)
    · exact hr
  unfold smcpProcess
  refine Evolves.trans (htimers _ ?_) (Same.evolves ⟨rfl⟩)
  split
  · exact evolves_receivePacket hhooks _ _
  · exact Evolves.refl s

end

end Smcp
