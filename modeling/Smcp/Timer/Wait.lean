import Smcp.Timer.Cancel

/-!
# Waiting for the next timer

`smcp_wait`, which sleeps until the first timer is due, and the calls of `smcp_handle_timers` that
follow it, one timer each.

* `timeLeft_mono`, `timeLeft_eq_zero`: the time left of a timer, in whole milliseconds;
* `reachable_smcpWait`: no timer is overslept, in every run;
* `handleTimers_drain`: the timers that are due are fired one after another, in the order of their
  dates.
-/

namespace Smcp

open Run

/-! ## Time -/

/-- In microseconds. -/
def Timeval.micros (t : Timeval) : ℤ := t.sec * 1000000 + t.usec

/-- As `gettimeofday` gives it. -/
def Timeval.Normal (t : Timeval) : Prop := 0 ≤ t.usec ∧ t.usec < 1000000

/-- Two times less than 2147483 seconds apart, so that the 32-bit arithmetic between them is exact. -/
structure ClockFits (now date : Timeval) : Prop where
  now_normal : now.Normal
  date_normal : date.Normal
  near : -2147483 < date.sec - now.sec ∧ date.sec - now.sec < 2147483

instance (now date : Timeval) : Decidable (ClockFits now date) :=
  decidable_of_iff ((0 ≤ now.usec ∧ now.usec < 1000000) ∧ (0 ≤ date.usec ∧ date.usec < 1000000) ∧
      (-2147483 < date.sec - now.sec ∧ date.sec - now.sec < 2147483))
    ⟨fun h => ⟨h.1, h.2.1, h.2.2⟩, fun h => ⟨h.1, h.2, h.3⟩⟩

/-- Division by 1000, rounded towards zero. -/
theorem tdiv_thousand (x : ℤ) :
    ∃ r, x = 1000 * x.tdiv 1000 + r ∧ -1000 < r ∧ r < 1000 ∧ (0 ≤ x → 0 ≤ r) ∧ (x ≤ 0 → r ≤ 0) := by
  refine ⟨x.tmod 1000, (Int.mul_tdiv_add_tmod x 1000).symm, Int.lt_tmod_of_pos x (by decide),
    Int.tmod_lt_of_pos x (by decide), fun hx => Int.tmod_nonneg 1000 hx, fun hx => ?_⟩
  have hneg := Int.tmod_nonneg (a := -x) 1000 (by omega)
  rw [Int.neg_tmod] at hneg
  omega

section
variable {now date date' : Timeval}

theorem ClockFits.convert_eq (h : ClockFits now date) :
    convertTimevalToCms now date = timeLeft now date := by
  obtain ⟨⟨hn0, hn1⟩, ⟨hd0, hd1⟩, hlo, hhi⟩ := h
  obtain ⟨r, hr, hr0, hr1, -⟩ := tdiv_thousand (date.usec - now.usec)
  apply convertTimevalToCms_eq
  · omega
  · omega

/-- The later of two dates has at least as much time left. -/
theorem timeLeft_mono (hdate : date.Normal) (hdate' : date'.Normal) (h : ¬date'.Before date) :
    timeLeft now date ≤ timeLeft now date' := by
  obtain ⟨hd0, hd1⟩ := hdate
  obtain ⟨hd0', hd1'⟩ := hdate'
  obtain ⟨r, hr, hr0, hr1, hpos, hneg⟩ := tdiv_thousand (date.usec - now.usec)
  obtain ⟨r', hr', hr0', hr1', hpos', hneg'⟩ := tdiv_thousand (date'.usec - now.usec)
  unfold Timeval.Before at h
  unfold timeLeft
  rcases Int.lt_or_le date.sec date'.sec with hlt | hge
  · omega
  · omega

theorem timeLeft_nonneg (now date : Timeval) : 0 ≤ timeLeft now date := by
  unfold timeLeft
  omega

/-- What is left when there is no time left is less than a millisecond. -/
theorem micros_le_timeLeft (now date : Timeval) :
    date.micros - now.micros < 1000 * timeLeft now date + 1000 := by
  obtain ⟨r, hr, hr0, hr1, hpos, hneg⟩ := tdiv_thousand (date.usec - now.usec)
  unfold timeLeft Timeval.micros
  omega

/-- Once the date has come, there is no time left. -/
theorem timeLeft_eq_zero (hnow : now.Normal) (hdate : date.Normal) (h : date.micros ≤ now.micros) :
    timeLeft now date = 0 := by
  obtain ⟨hn0, hn1⟩ := hnow
  obtain ⟨hd0, hd1⟩ := hdate
  obtain ⟨r, hr, hr0, hr1, hpos, hneg⟩ := tdiv_thousand (date.usec - now.usec)
  unfold Timeval.micros at h
  unfold timeLeft
  omega

end

/-! ## Waiting -/

/-- What `poll` returns, and whether it set `errno`. -/
structure Polled where
  ready : ℤ
  failed : Bool

/-- The milliseconds that `smcp_wait` gives to `poll`. -/
def waitTimeout (s : Instance) (cms : ℤ) : ℤ :=
  if cms ≥ 0 then min cms (smcpGetTimeout s) else smcpGetTimeout s

/-- `smcp_wait`. -/
def smcpWait (s : Instance) (cms : ℤ) (poll : ℤ → Polled) : ℤ :=
  let polled := poll (waitTimeout s cms)
  if polled.failed then smcpStatusErrno
  else if polled.ready = 0 then smcpStatusTimeout
  else smcpStatusOk

/-- The timers in every run. -/
theorem Reachable.timersOk {s : Instance} (hreach : Reachable s)
    (hkeeps : ∀ e ∈ s.timerEvents, e.KeepsQueue) : s.timerState.Ok := by
  obtain ⟨now, random, sendResult, hacts⟩ := hreach.acts
  have hinit : (smcpCreate now random sendResult).timerState.Ok :=
    ⟨⟨[], ⟨.nil, .nil, fun _ => rfl⟩, ⟨.empty, by simp⟩⟩, Nat.zero_le _, trivial⟩
  exact hinit.steps hacts.timers hkeeps

/-- A sorted list begins with the first one to fire. -/
theorem SortedByDate.isFirst {p q : List (TimerPtr × Timeval)} {x : TimerPtr × Timeval}
    (h : SortedByDate p (x :: q)) : x ∈ p ∧ IsFirst p x := by
  refine ⟨h.perm.mem_iff.1 List.mem_cons_self, ?_, fun y hy => ?_⟩
  · rw [← h.stable x.2]
    simp
  · rcases List.mem_cons.1 (h.perm.mem_iff.2 hy) with heq | hy
    · rw [heq]
      exact x.2.not_before_self
    · exact (List.pairwise_cons.1 h.sorted).1 y hy

/-- The head of the list is the first one to fire. -/
theorem TimerState.Ok.head_cases {l : TimerState} (h : l.Ok) :
    l.list.head = none ∧ pending l.events = [] ∨
      ∃ x, l.list.head = some x.1 ∧ (l.list.timer x.1).fireDate = x.2 ∧ x ∈ pending l.events ∧
        IsFirst (pending l.events) x := by
  obtain ⟨⟨q, hsorted, hqueue⟩, -, -⟩ := h
  cases q with
  | nil => exact .inl ⟨hqueue.holds.head_eq, List.perm_nil.1 hsorted.perm.symm⟩
  | cons x q =>
    exact .inr ⟨x, hqueue.holds.head_eq, hqueue.fireDate x List.mem_cons_self, hsorted.isFirst⟩

/-- `smcp_handle_timers` takes the timer out of the list and runs it. -/
def Fires (hooks : Hooks) (s : Instance) (x : TimerPtr × Timeval) : Prop :=
  ∃ s', s'.timerEvents = .invalidated x.1 :: .fired x.1 x.2 s.now :: s.timerEvents ∧
    smcpHandleTimers hooks s = runTimer hooks s' (s.timers.timer x.1).callback

theorem fires_head {hooks : Hooks} {s : Instance} {x : TimerPtr × Timeval}
    (hhead : s.timers.head = some x.1) (hdate : (s.timers.timer x.1).fireDate = x.2)
    (hdue : convertTimevalToCms s.now x.2 ≤ 0) : Fires hooks s x := by
  rw [← hdate] at hdue
  have hfire := @invalidateTimer_fire hooks s x.1
  refine ⟨smcpInvalidateTimer hooks _ x.1, (congrArg Instance.timerEvents hfire).trans ?_, ?_⟩
  · rw [← hdate]
    rfl
  · unfold smcpHandleTimers
    rw [hhead]
    dsimp only
    rw [if_pos hdue]
    rfl

/-- The time until the first timer is due. -/
theorem smcpGetTimeout_first {s : Instance} {x : TimerPtr × Timeval} (hhead : s.timers.head = some x.1)
    (hdate : (s.timers.timer x.1).fireDate = x.2) (hclock : ClockFits s.now x.2) :
    smcpGetTimeout s = min smcpMaxTimeout (timeLeft s.now x.2) := by
  have hnonneg := timeLeft_nonneg s.now x.2
  unfold smcpGetTimeout
  rw [hhead]
  dsimp only
  rw [hdate, hclock.convert_eq]
  unfold smcpMaxTimeout
  omega

/-- Waiting, in every run: `smcp_wait` polls for at most 30 seconds, and never goes on sleeping for
more than a millisecond when the date of a pending timer has come; and unless it polls for the time
it was given or for 30 seconds, `smcp_handle_timers` fires the first timer a millisecond later at the
latest. -/
theorem reachable_smcpWait {s : Instance} (hreach : Reachable s)
    (hkeeps : ∀ e ∈ s.timerEvents, e.KeepsQueue)
    (hclock : ∀ x ∈ pending s.timerEvents, ClockFits s.now x.2) (cms : ℤ) :
    ∃ wait,
      (∀ poll poll', poll wait = poll' wait → smcpWait s cms poll = smcpWait s cms poll') ∧
      0 ≤ wait ∧ wait ≤ smcpMaxTimeout ∧
      (∀ x ∈ pending s.timerEvents, wait = 0 ∨
        s.now.micros + 1000 * wait < x.2.micros + 1000) ∧
      (wait ≠ cms → wait ≠ smcpMaxTimeout → ∃ x, IsFirst (pending s.timerEvents) x ∧
        ∀ now, ClockFits now x.2 → s.now.micros + 1000 * (wait + 1) ≤ now.micros → ∀ hooks,
          Fires hooks { s with now := now } x) := by
  -- the time that is polled for is all that the hooks say
  have hpoll (poll poll' : ℤ → Polled) (hsame : poll (waitTimeout s cms) = poll' (waitTimeout s cms)) :
      smcpWait s cms poll = smcpWait s cms poll' := by
    unfold smcpWait
    rw [hsame]
  have hmax : smcpMaxTimeout = 30000 := rfl
  refine ⟨waitTimeout s cms, hpoll, ?_⟩
  -- no timer is pending, or the first of them decides
  rcases (hreach.timersOk hkeeps).head_cases with ⟨hhead, hnil⟩ | ⟨x, hhead, hdate, hx, hfirst⟩
  · -- no timer is pending
    have hhead : s.timers.head = none := hhead
    have hnil : pending s.timerEvents = [] := hnil
    have htimeout : smcpGetTimeout s = smcpMaxTimeout := by
      unfold smcpGetTimeout
      rw [hhead]
    rw [hnil]
    unfold waitTimeout
    rw [htimeout]
    refine ⟨?_, ?_, fun x hx => absurd hx List.not_mem_nil, fun hcms hfull => ?_⟩
    · split_ifs <;> omega
    · split_ifs <;> omega
    · exfalso
      split_ifs at hcms hfull <;> omega
  · have htimeout := smcpGetTimeout_first hhead hdate (hclock x hx)
    have hnonneg := timeLeft_nonneg s.now x.2
    have hle : waitTimeout s cms ≤ smcpGetTimeout s := by
      unfold waitTimeout
      split_ifs <;> omega
    refine ⟨?_, ?_, fun y hy => ?_, fun hcms hfull => ?_⟩
    · unfold waitTimeout
      split_ifs <;> omega
    · omega
    · -- the first timer is the one that has the least time left
      have hmono : timeLeft s.now x.2 ≤ timeLeft s.now y.2 :=
        timeLeft_mono (hclock x hx).date_normal (hclock y hy).date_normal (hfirst.2 y hy)
      obtain ⟨r, hr, hr0, hr1, -⟩ := tdiv_thousand (y.2.usec - s.now.usec)
      by_cases hzero : timeLeft s.now y.2 = 0
      · have hwait : 0 ≤ waitTimeout s cms := by
          unfold waitTimeout
          split_ifs <;> omega
        exact .inl (by omega)
      · have hwait : waitTimeout s cms ≤ timeLeft s.now y.2 := by omega
        unfold timeLeft at hwait hzero
        unfold Timeval.micros
        omega
    · have hwait : waitTimeout s cms = timeLeft s.now x.2 := by
        unfold waitTimeout at hcms hfull ⊢
        split_ifs at hcms hfull ⊢ <;> omega
      refine ⟨x, hfirst, fun now hfits hlater hooks => ?_⟩
      have hleft := micros_le_timeLeft s.now x.2
      have hzero := timeLeft_eq_zero hfits.now_normal hfits.date_normal (by omega)
      have hdue : convertTimevalToCms now x.2 ≤ 0 := by
        rw [hfits.convert_eq]
        omega
      exact fires_head (s := { s with now := now }) hhead hdate hdue

/-- Two transactions have just begun: their timers are due. -/
theorem reachable_smcpWait_twoTransactions :
    ∃ wait, 0 ≤ wait ∧ ∀ x ∈ pending twoTransactions.timerEvents, wait = 0 ∨
      twoTransactions.now.micros + 1000 * wait < x.2.micros + 1000 := by
  obtain ⟨wait, -, hnonneg, -, hbefore, -⟩ := reachable_smcpWait (reachable_idleRun _ _)
    (by decide +kernel : ∀ e ∈ twoTransactions.timerEvents, e.KeepsQueue) (by decide +kernel) 500
  exact ⟨wait, hnonneg, hbefore⟩

/-! ## Firing what is due -/

/-- The pending timers that `smcp_handle_timers` would fire now. -/
def dueTimers (s : Instance) : List (TimerPtr × Timeval) :=
  (pending s.timerEvents).filter fun x => convertTimevalToCms s.now x.2 ≤ 0

/-- The timers that fired, the latest first. -/
def firedTimers (events : List TimerEvent) : List (TimerPtr × Timeval) :=
  events.filterMap fun
    | .fired timer date _ => some (timer, date)
    | _ => none

/-- So many rounds of `smcp_process` without a datagram. -/
def processRounds (hooks : Hooks) (rest : ℕ → UInt8) : ℕ → Instance → Instance
  | 0, s => s
  | n + 1, s => processRounds hooks rest n (smcpProcess hooks s none rest)

/-- The clock fits the pending timers, and the callback of the timer that fires next takes no time,
fires no timer, and changes nothing about the timers that are due. -/
structure CallbackCalm (hooks : Hooks) (s : Instance) : Prop where
  clock : ∀ x ∈ pending s.timerEvents, ClockFits s.now x.2
  calm : ∀ t u, s.fireTimer = some (t, u) →
    (smcpHandleTimers hooks s).now = s.now ∧ dueTimers (smcpHandleTimers hooks s) = dueTimers u ∧
      firedTimers (smcpHandleTimers hooks s).timerEvents = firedTimers u.timerEvents

section
variable {p q : List (TimerPtr × Timeval)} {x y : TimerPtr × Timeval}

theorem Timeval.eq_of_not_before {a b : Timeval} (hab : ¬a.Before b) (hba : ¬b.Before a) : a = b := by
  unfold Timeval.Before at hab hba
  have hsec : a.sec = b.sec := by omega
  have husec : a.usec = b.usec := by omega
  cases a
  cases b
  exact congrArg₂ Timeval.mk hsec husec

theorem IsFirst.unique (hx : x ∈ p) (hy : y ∈ p) (hfirst : IsFirst p x) (hfirst' : IsFirst p y) :
    x = y := by
  have hdate : x.2 = y.2 := Timeval.eq_of_not_before (hfirst'.2 x hx) (hfirst.2 y hy)
  have hhead := hfirst.1
  rw [hdate, hfirst'.1] at hhead
  exact (Option.some.inj hhead).symm

/-- The first timer is the first one of those with certain dates, if it is one of them. -/
theorem IsFirst.filter (h : IsFirst p x) (due : Timeval → Bool) (hx : due x.2 = true) :
    IsFirst (p.filter fun y => due y.2) x := by
  refine ⟨?_, fun y hy => h.2 y (List.mem_of_mem_filter hy)⟩
  have hsame : ((p.filter fun y => due y.2).filter fun y => y.2 = x.2) =
      p.filter fun y => y.2 = x.2 := by
    rw [List.filter_filter]
    apply List.filter_congr
    intro y _
    by_cases hdate : y.2 = x.2
    · rw [hdate, hx, Bool.and_true]
    · rw [decide_eq_false hdate, Bool.false_and]
  rw [hsame]
  exact h.1

/-- Without its first timer. -/
theorem SortedByDate.tail (h : SortedByDate p (x :: q)) (hnodup : (p.map Prod.fst).Nodup) :
    SortedByDate (p.filter fun y => y.1 ≠ x.1) q := by
  have hq := h.filter fun y => y.1 ≠ x.1
  have hnodup' : ((x :: q).map Prod.fst).Nodup := (h.perm.map Prod.fst).nodup_iff.2 hnodup
  rw [List.map_cons, List.nodup_cons] at hnodup'
  have htail : (x :: q).filter (fun y => decide (y.1 ≠ x.1)) = q := by
    rw [List.filter_cons_of_neg (by simp), List.filter_eq_self]
    intro y hy
    apply decide_eq_true
    intro heq
    exact hnodup'.1 (heq ▸ List.mem_map_of_mem hy)
  rwa [htail] at hq

end

section
variable {hooks : Hooks} {s : Instance}

theorem TimerState.Ok.nodup {l : TimerState} (h : l.Ok) : ((pending l.events).map Prod.fst).Nodup := by
  obtain ⟨⟨q, hsorted, hqueue⟩, -, -⟩ := h
  exact (hsorted.perm.map Prod.fst).nodup_iff.1 hqueue.holds.nodup

/-- One round, when a timer is due: the first one of them fires, and the others stay due. -/
theorem process_fires (hok : s.timerState.Ok) (hcalm : CallbackCalm hooks s) (rest : ℕ → UInt8)
    {y : TimerPtr × Timeval} (hy : y ∈ dueTimers s) :
    ∃ x ∈ dueTimers s, IsFirst (dueTimers s) x ∧
      firedTimers (smcpProcess hooks s none rest).timerEvents = x :: firedTimers s.timerEvents ∧
      dueTimers (smcpProcess hooks s none rest) = (dueTimers s).filter (fun z => z.1 ≠ x.1) := by
  -- the timer that is due is in the queue
  obtain ⟨hpending, hdue⟩ := List.mem_filter.1 hy
  have hdue := of_decide_eq_true hdue
  -- the queue is not empty, so its head is the one to fire
  rcases hok.head_cases with ⟨-, hnil⟩ | ⟨x, hhead, hdate, hx, hfirst⟩
  · have hnil : pending s.timerEvents = [] := hnil
    rw [hnil] at hpending
    exact absurd hpending List.not_mem_nil
  · -- the first timer has no more time left than the one that is due
    have hxfits := hcalm.clock x hx
    have hyfits := hcalm.clock y hpending
    have hmono : timeLeft s.now x.2 ≤ timeLeft s.now y.2 :=
      timeLeft_mono hxfits.date_normal hyfits.date_normal (hfirst.2 y hpending)
    have hnow : convertTimevalToCms s.now x.2 ≤ 0 := by
      rw [hyfits.convert_eq] at hdue
      rw [hxfits.convert_eq]
      omega
    obtain ⟨u, hfire, hunow, huevents⟩ : ∃ u, s.fireTimer = some (x.1, u) ∧ u.now = s.now ∧
        u.timerEvents = .invalidated x.1 :: .fired x.1 x.2 s.now :: s.timerEvents := by
      have hhead : s.timers.head = some x.1 := hhead
      have hdate : (s.timers.timer x.1).fireDate = x.2 := hdate
      unfold Instance.fireTimer
      rw [hhead]
      dsimp only
      rw [hdate, if_pos hnow]
      exact ⟨_, rfl, rfl, rfl⟩
    obtain ⟨hclock, hkept, hquiet⟩ := hcalm.calm _ _ hfire
    have hfirstDue : IsFirst (dueTimers s) x :=
      hfirst.filter (fun date => convertTimevalToCms s.now date ≤ 0) (decide_eq_true hnow)
    refine ⟨x, List.mem_filter.2 ⟨hx, decide_eq_true hnow⟩, hfirstDue, ?_, ?_⟩
    · show firedTimers (smcpHandleTimers hooks s).timerEvents = _
      rw [hquiet, huevents]
      rfl
    · show dueTimers (smcpHandleTimers hooks s) = _
      rw [hkept]
      unfold dueTimers
      rw [huevents, hunow, pending, pending, List.filter_filter, List.filter_filter,
        List.filter_filter]
      apply List.filter_congr
      intro z _
      rw [Bool.and_assoc, Bool.and_self, Bool.and_comm]

/-- Events are only added. -/
theorem Reachable.timerEvents_suffix {s' : Instance} (hreach : Reachable s)
    (h : Reaches Op.exec s s') : s.timerEvents <:+ s'.timerEvents := by
  have hsteps := (evolves_of_reaches h hreach.callbacksOk).timers
  have hsuffix {l l' : TimerState} (h : Relation.ReflTransGen TimerStep l l') :
      l.events <:+ l'.events := by
    induction h with
    | refl => exact List.suffix_refl _
    | tail _ hlast ih => exact ih.trans hlast.events_suffix
  exact hsuffix hsteps

theorem reaches_processRounds (hhooks : ∀ c u, Reaches Op.exec u (hooks c u).1) (rest : ℕ → UInt8)
    (n : ℕ) (s : Instance) : Reaches Op.exec s (processRounds hooks rest n s) := by
  induction n generalizing s with
  | zero => exact .refl s
  | succ n ih =>
    have hfirst : Reaches Op.exec s (smcpProcess hooks s none rest) :=
      (Reaches.refl s).step hooks hhooks (.process none rest)
    exact hfirst.trans (ih _)

/-- When a timer is due, `smcp_wait` does not sleep. -/
theorem waitTimeout_due (hok : s.timerState.Ok) (hclock : ∀ x ∈ pending s.timerEvents, ClockFits s.now x.2)
    {x : TimerPtr × Timeval} (hx : x ∈ dueTimers s) (cms : ℤ) : waitTimeout s cms = 0 := by
  obtain ⟨hpending, hdue⟩ := List.mem_filter.1 hx
  have hdue := of_decide_eq_true hdue
  rcases hok.head_cases with ⟨-, hnil⟩ | ⟨y, hhead, hdate, hy, hfirst⟩
  · have hnil : pending s.timerEvents = [] := hnil
    rw [hnil] at hpending
    exact absurd hpending List.not_mem_nil
  · have hmono : timeLeft s.now y.2 ≤ timeLeft s.now x.2 :=
      timeLeft_mono (hclock y hy).date_normal (hclock x hpending).date_normal (hfirst.2 x hpending)
    have htimeout := smcpGetTimeout_first hhead hdate (hclock y hy)
    have hnonneg := timeLeft_nonneg s.now y.2
    rw [(hclock x hpending).convert_eq] at hdue
    have hmax : smcpMaxTimeout = 30000 := rfl
    unfold waitTimeout
    split_ifs <;> omega

theorem drains_from (hhooks : ∀ c u, Reaches Op.exec u (hooks c u).1) (rest : ℕ → UInt8) (n : ℕ)
    (hreach : Reachable s) (hlen : (dueTimers s).length = n)
    (hkeeps : ∀ e ∈ (processRounds hooks rest n s).timerEvents, e.KeepsQueue)
    (hcalm : ∀ k < n, CallbackCalm hooks (processRounds hooks rest k s))
    {q : List (TimerPtr × Timeval)} (hq : SortedByDate (dueTimers s) q) :
    dueTimers (processRounds hooks rest n s) = [] ∧
      firedTimers (processRounds hooks rest n s).timerEvents =
        q.reverse ++ firedTimers s.timerEvents ∧
      ∀ k < n, ∀ cms, waitTimeout (processRounds hooks rest k s) cms = 0 := by
  -- induction on the number of the timers that are due
  induction n generalizing s q with
  | zero =>
    have hnil := List.eq_nil_of_length_eq_zero hlen
    rw [hnil] at hq
    rw [List.perm_nil.1 hq.perm]
    exact ⟨hnil, rfl, fun k hk => absurd hk (Nat.not_lt_zero k)⟩
  | succ n ih =>
    have hsuffix := hreach.timerEvents_suffix (reaches_processRounds hhooks rest (n + 1) s)
    have hok := hreach.timersOk fun e he => hkeeps e (hsuffix.subset he)
    have hfirstCalm := hcalm 0 (Nat.succ_pos n)
    obtain ⟨y, hy⟩ := List.exists_mem_of_length_pos (by omega : 0 < (dueTimers s).length)
    obtain ⟨x, hx, hxfirst, hfired, hrest⟩ := process_fires hok hfirstCalm rest hy
    have hnodup : ((dueTimers s).map Prod.fst).Nodup :=
      hok.nodup.sublist (List.filter_sublist.map Prod.fst)
    cases q with
    | nil =>
      have hzero := hq.perm.length_eq
      rw [hlen] at hzero
      exact absurd hzero (Nat.succ_ne_zero n).symm
    | cons z q =>
      obtain ⟨hz, hzfirst⟩ := hq.isFirst
      obtain rfl : x = z := hxfirst.unique hx hz hzfirst
      have htail := hq.tail hnodup
      rw [← hrest] at htail
      have hnext : Reachable (smcpProcess hooks s none rest) := by
        obtain ⟨now, random, sendResult, hreaches⟩ := hreach
        exact ⟨now, random, sendResult, hreaches.step hooks hhooks (.process none rest)⟩
      have hcount : (dueTimers (smcpProcess hooks s none rest)).length = n := by
        have htotal := hq.perm.length_eq
        rw [hlen, List.length_cons] at htotal
        rw [← htail.perm.length_eq]
        omega
      obtain ⟨hnone, hall, hwaits⟩ := ih hnext hcount hkeeps
        (fun k hk => hcalm (k + 1) (Nat.succ_lt_succ hk)) htail
      refine ⟨hnone, ?_, fun k hk => ?_⟩
      · show firedTimers (processRounds hooks rest n (smcpProcess hooks s none rest)).timerEvents = _
        rw [hall, hfired, List.reverse_cons, List.append_assoc]
        rfl
      · cases k with
        | zero => exact waitTimeout_due hok hfirstCalm.clock hx
        | succ k => exact hwaits k (Nat.lt_of_succ_lt_succ hk)

/-- The timers that are due are fired by as many rounds of `smcp_process`, one in each and in the
order of their dates, those with equal dates in the order in which they were scheduled; in between
`smcp_wait` does not sleep, and afterwards no timer is due. -/
theorem process_drains (hreach : Reachable s) (hhooks : ∀ c u, Reaches Op.exec u (hooks c u).1)
    (rest : ℕ → UInt8)
    (hkeeps : ∀ e ∈ (processRounds hooks rest (dueTimers s).length s).timerEvents, e.KeepsQueue)
    (hcalm : ∀ k < (dueTimers s).length, CallbackCalm hooks (processRounds hooks rest k s)) :
    let s' := processRounds hooks rest (dueTimers s).length s
    dueTimers s' = [] ∧
      (∃ q, SortedByDate (dueTimers s) q ∧
        firedTimers s'.timerEvents = q.reverse ++ firedTimers s.timerEvents) ∧
      ∀ k < (dueTimers s).length, ∀ cms, waitTimeout (processRounds hooks rest k s) cms = 0 := by
  intro s'
  have hsuffix := hreach.timerEvents_suffix
    (reaches_processRounds hhooks rest (dueTimers s).length s)
  have hok := hreach.timersOk fun e he => hkeeps e (hsuffix.subset he)
  obtain ⟨⟨p, hsorted, -⟩, -, -⟩ := hok
  have hq : SortedByDate (dueTimers s) _ :=
    hsorted.filter fun x => convertTimevalToCms s.now x.2 ≤ 0
  obtain ⟨hnone, hall, hwaits⟩ := drains_from hhooks rest _ hreach rfl hkeeps hcalm hq
  exact ⟨hnone, ⟨_, hq, hall⟩, hwaits⟩

end

/-- Callbacks of an application that does nothing are calm. -/
theorem callbackCalm_idleHooks {s : Instance}
    (hclock : ∀ x ∈ pending s.timerEvents, ClockFits s.now x.2)
    (huser : ∀ t, s.timers.head = some t → ∃ n, (s.timers.timer t).callback = some (.user n)) :
    CallbackCalm idleHooks s := by
  refine ⟨hclock, fun t u hfire => ?_⟩
  have hhandled := handleTimers_eq idleHooks s
  rw [hfire] at hhandled
  unfold Instance.fireTimer at hfire
  cases hhead : s.timers.head with
  | none =>
    rw [hhead] at hfire
    cases hfire
  | some t' =>
    rw [hhead] at hfire
    dsimp only at hfire
    split_ifs at hfire
    obtain ⟨rfl, rfl⟩ := Prod.mk.inj (Option.some.inj hfire)
    obtain ⟨n, hn⟩ := huser t' hhead
    dsimp only at hhandled
    rw [hn] at hhandled
    rw [hhandled]
    exact ⟨rfl, rfl, rfl⟩

/-- Three timers, for the times 20 ms, 10 ms and 5000 ms; then 30 ms pass. -/
def threeTimers : Instance := idleRun (fun _ => 5)
  [.timerInit 0 0 none, .timerInit 1 1 none, .timerInit 2 2 none, .scheduleTimer 0 20,
    .scheduleTimer 1 10, .scheduleTimer 2 5000, .tick ⟨0, 30000⟩]

theorem process_drains_threeTimers :
    dueTimers threeTimers = [(.user 0, ⟨0, 20000⟩), (.user 1, ⟨0, 10000⟩)] ∧
      dueTimers (processRounds idleHooks (fun _ => 0) 2 threeTimers) = [] := by
  -- the timers of the example that are due, and their number
  have hdue : dueTimers threeTimers = [(.user 0, ⟨0, 20000⟩), (.user 1, ⟨0, 10000⟩)] := by
    decide +kernel
  have hlen : (dueTimers threeTimers).length = 2 := congrArg List.length hdue
  -- the two rounds are calm: the timers have no callbacks that could do anything
  have hcalm : ∀ k < (dueTimers threeTimers).length,
      CallbackCalm idleHooks (processRounds idleHooks (fun _ => 0) k threeTimers) := by
    rw [hlen]
    intro k hk
    have hcases : k = 0 ∨ k = 1 := by omega
    rcases hcases with rfl | rfl
    · apply callbackCalm_idleHooks
      · decide +kernel
      · intro t ht
        obtain rfl : .user 1 = t := Option.some.inj ((by decide +kernel : _ = _).trans ht)
        exact ⟨1, by decide +kernel⟩
    · apply callbackCalm_idleHooks
      · decide +kernel
      · intro t ht
        obtain rfl : .user 0 = t := Option.some.inj ((by decide +kernel : _ = _).trans ht)
        exact ⟨0, by decide +kernel⟩
  have hkeeps : ∀ e ∈ (processRounds idleHooks (fun _ => 0) (dueTimers threeTimers).length
      threeTimers).timerEvents, e.KeepsQueue := by
    rw [hlen]
    decide +kernel
  -- the general result, for the two of them
  have hdrained := (process_drains (s := threeTimers) (reachable_idleRun _ _) (fun _ u => .refl u)
    (fun _ => 0) hkeeps hcalm).1
  rw [hlen] at hdrained
  exact ⟨hdue, hdrained⟩

end Smcp
