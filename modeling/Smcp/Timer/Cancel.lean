import Smcp.Timer.Queue

/-!
# Cancel callbacks

What becomes of a timer with a cancel callback, along a run of `smcp_schedule_timer`,
`smcp_invalidate_timer` and `smcp_handle_timers` that ends with `smcp_release`. All of them call the
application as the last thing they do, so what a callback does with the timers is simply the next
part of the run.

* `invalidateTimer_eq`, `handleTimers_eq`: the callbacks come last;
* `Tracks`: the list of timers against the record of the calls;
* `timers_complete_once`: every scheduling ends with one call, in every run that does not go on with
  a timer whose cancel callback is gone, invalidates only timers that are scheduled, and leaves no
  timer with a cancel callback to `smcp_release`.
-/

namespace Smcp

open Run

/-! ## Callbacks come last -/

section
variable (hooks : Hooks) (s : Instance) (t : TimerPtr)

/-- The timer is out of the list, and its callback has not been called yet. -/
def Instance.unlinkTimer : Instance :=
  ({ s with timers := s.timers.unlink t }).logTimer (.invalidated t)

/-- Call the cancel callback, if there is one. -/
def callCancel : Instance :=
  match (s.timers.timer t).cancel with
  | some cancel => (hooks (.timerCancel cancel) s).1
  | none => s

theorem invalidateTimer_eq : smcpInvalidateTimer hooks s t = callCancel hooks (s.unlinkTimer t) t :=
  rfl

/-- The first timer when it is due, and the instance that its callback is called in. -/
def Instance.fireTimer : Option (TimerPtr × Instance) :=
  match s.timers.head with
  | none => none
  | some t =>
    if convertTimevalToCms s.now (s.timers.timer t).fireDate ≤ 0 then
      let s := s.logTimer (.fired t (s.timers.timer t).fireDate s.now)
      let s := { s with timers := s.timers.modify t fun x => { x with cancel := none } }
      some (t, s.unlinkTimer t)
    else none

theorem handleTimers_eq : smcpHandleTimers hooks s =
    match s.fireTimer with
    | none => s
    | some (t, s') => runTimer hooks s' (s.timers.timer t).callback := by
  unfold smcpHandleTimers Instance.fireTimer
  cases s.timers.head with
  | none => rfl
  | some t =>
    dsimp only
    by_cases hdue : convertTimevalToCms s.now (s.timers.timer t).fireDate ≤ 0
    · rw [if_pos hdue, if_pos hdue]
      exact congrArg (fun s' => runTimer hooks s' (s.timers.timer t).callback)
        (@invalidateTimer_fire hooks s t)
    · rw [if_neg hdue, if_neg hdue]

end

/-! ## Releasing -/

section
variable (hooks : Hooks)

/-- The loop of `smcp_release` over the transactions. -/
def endTransactions : (fuel : ℕ) → Instance → Instance
  | 0, s => { s with fault := true }
  | fuel + 1, s =>
    match s.store.links.root with
    | some h => endTransactions fuel (smcpTransactionEnd hooks s h)
    | none => s

/-- The loop of `smcp_release` over the timers. The callback is called here, and once more by
`smcp_invalidate_timer`. -/
def releaseTimers : (fuel : ℕ) → Instance → Instance
  | 0, s => { s with fault := true }
  | fuel + 1, s =>
    match s.timers.head with
    | some t => releaseTimers fuel (smcpInvalidateTimer hooks (callCancel hooks s t) t)
    | none => s

/-- `smcp_release`. -/
def smcpRelease (s : Instance) : Instance :=
  let s := endTransactions hooks (s.store.inserted + 1) s
  releaseTimers hooks (s.timers.scheduled + 1) s

end

/-! ## The record of a run -/

/-- A timer was scheduled, with a cancel callback or without, or one of its callbacks was called. -/
inductive TimerCall where
  | scheduled (t : TimerPtr) (cancel : Option ℕ)
  | fired (t : TimerPtr)
  | cancelled (t : TimerPtr)
deriving DecidableEq

/-- The instance, and what was recorded, the latest first. -/
structure TimerTrace where
  state : Instance
  calls : List TimerCall

/-- The call of the cancel callback, if there is one. -/
def cancelCalls (s : Instance) (t : TimerPtr) : List TimerCall :=
  match (s.timers.timer t).cancel with
  | some _ => [.cancelled t]
  | none => []

/-- The functions of `smcp-timer.h` that a program calls, and the clock. -/
inductive TimerOp where
  | tick (now : Timeval)
  | schedule (t : TimerPtr) (cms : ℤ)
  | invalidate (t : TimerPtr)
  | handleTimers

/-- Do it, up to the callback. -/
def TimerOp.exec : TimerOp → TimerTrace → TimerTrace
  | .tick now, r => { r with state := { r.state with now := now } }
  | .schedule t cms, r =>
    let scheduled := smcpScheduleTimer r.state t cms
    ⟨scheduled.1, if scheduled.2 = smcpStatusOk then
      .scheduled t (r.state.timers.timer t).cancel :: r.calls else r.calls⟩
  | .invalidate t, r => ⟨r.state.unlinkTimer t, cancelCalls r.state t ++ r.calls⟩
  | .handleTimers, r =>
    match r.state.fireTimer with
    | some (t, s) =>
      ⟨s, if (r.state.timers.timer t).callback.isSome then .fired t :: r.calls else r.calls⟩
    | none => r

/-- A run of them. -/
def runTimers (ops : List TimerOp) (r : TimerTrace) : TimerTrace :=
  ops.foldl (fun r op => op.exec r) r

/-- The loop of `smcp_release` over the timers, with callbacks that do nothing. -/
def TimerTrace.release : (fuel : ℕ) → TimerTrace → TimerTrace
  | 0, r => r
  | fuel + 1, r =>
    match r.state.timers.head with
    | some t => release fuel
        ⟨r.state.unlinkTimer t, cancelCalls r.state t ++ (cancelCalls r.state t ++ r.calls)⟩
    | none => r

/-- The cancel callback with which `t` was scheduled last, and how often it has fired or has been
cancelled since. -/
def scheduling (t : TimerPtr) : List TimerCall → Option (Option ℕ × ℕ)
  | [] => none
  | .scheduled t' cancel :: earlier => if t' = t then some (cancel, 0) else scheduling t earlier
  | .fired t' :: earlier | .cancelled t' :: earlier =>
    if t' = t then (scheduling t earlier).map fun x => (x.1, x.2 + 1) else scheduling t earlier

/-- A timer with a cancel callback fires or is cancelled once before it is scheduled again, and has
its cancel callback then. -/
def TimerCall.Once : TimerCall → List TimerCall → Prop
  | .scheduled t cancel, earlier =>
    ∀ k n, scheduling t earlier = some (some k, n) → n = 1 ∧ cancel = some k
  | .fired t, earlier | .cancelled t, earlier =>
    ∀ k n, scheduling t earlier = some (some k, n) → n = 0

/-- Every scheduling of a timer with a cancel callback was followed by one call. -/
def CompletesOnce (calls : List TimerCall) : Prop :=
  Along TimerCall.Once calls ∧ ∀ t k n, scheduling t calls = some (some k, n) → n = 1

/-! ## Proper runs -/

/-- A timer that had a cancel callback is not scheduled again once it has fired; only timers that are
scheduled, were never scheduled or have no cancel callback are invalidated; and a timer with a cancel
callback that fires has something to call. -/
def TimerOp.Proper : TimerOp → TimerTrace → Prop
  | .tick _, _ => True
  | .schedule t _, r => ∀ k n, scheduling t r.calls = some (some k, n) → .fired t ∉ r.calls
  | .invalidate t, r => (r.state.timers.timer t).cancel = none ∨
      smcpTimerIsScheduled r.state t = true ∨ scheduling t r.calls = none
  | .handleTimers, r => ∀ t ∈ r.state.fireTimer.map Prod.fst,
      (r.state.timers.timer t).cancel ≠ none → (r.state.timers.timer t).callback ≠ none

/-- No timer that is scheduled has a cancel callback. -/
def Instance.ReleasesQuietly (s : Instance) : Prop :=
  ∀ t, smcpTimerIsScheduled s t = true → (s.timers.timer t).cancel = none

/-- What the record says about one timer: it is pending while it is in the list `q`, it has fired or
was cancelled, once, when it no longer is, and it keeps its cancel callback until it fires. -/
structure TracksTimer (r : TimerTrace) (q : List TimerPtr) (t : TimerPtr) : Prop where
  pending : t ∈ q → scheduling t r.calls = some ((r.state.timers.timer t).cancel, 0)
  done : t ∉ q → ∀ k n, scheduling t r.calls = some (some k, n) → n = 1
  kept : ∀ k n, scheduling t r.calls = some (some k, n) → .fired t ∉ r.calls →
    (r.state.timers.timer t).cancel = some k
  without : ∀ n, scheduling t r.calls = some (none, n) → (r.state.timers.timer t).cancel = none

/-- The list of the timers is `q`, and fits the record. -/
structure Tracks (r : TimerTrace) (q : List TimerPtr) : Prop where
  holds : r.state.timers.Holds q
  length_le : q.length ≤ r.state.timers.scheduled
  timer : ∀ t, TracksTimer r q t
  once : Along TimerCall.Once r.calls

section
variable {r r' : TimerTrace} {q q' : List TimerPtr} {t t' : TimerPtr} {calls : List TimerCall}

theorem TracksTimer.congr (h : TracksTimer r q t)
    (hscheduling : scheduling t r'.calls = scheduling t r.calls)
    (hfired : .fired t ∈ r'.calls ↔ .fired t ∈ r.calls)
    (hcancel : (r'.state.timers.timer t).cancel = (r.state.timers.timer t).cancel)
    (hmem : t ∈ q' ↔ t ∈ q) : TracksTimer r' q' t where
  pending ht := by
    rw [hscheduling, hcancel]
    exact h.pending (hmem.1 ht)
  done ht := by
    rw [hscheduling]
    exact h.done (mt hmem.2 ht)
  kept k n := by
    rw [hscheduling, hfired, hcancel]
    exact h.kept k n
  without n := by
    rw [hscheduling, hcancel]
    exact h.without n

/-- The cancel callback of another timer is called, or not. -/
theorem scheduling_cancelCalls_of_ne (s : Instance) (hne : t' ≠ t) :
    scheduling t (cancelCalls s t' ++ calls) = scheduling t calls := by
  unfold cancelCalls
  cases (s.timers.timer t').cancel with
  | none => rfl
  | some k => exact if_neg hne

theorem fired_mem_cancelCalls (s : Instance) :
    .fired t ∈ cancelCalls s t' ++ calls ↔ .fired t ∈ calls := by
  unfold cancelCalls
  cases (s.timers.timer t').cancel with
  | none => rfl
  | some k => simp

/-- What is left of the timers when the first one fires. -/
theorem fireTimer_some {s : Instance} {x : TimerPtr × Instance} (h : s.fireTimer = some x) :
    s.timers.head = some x.1 ∧
      x.2.timers = (s.timers.modify x.1 fun t => { t with cancel := none }).unlink x.1 := by
  unfold Instance.fireTimer at h
  cases hhead : s.timers.head with
  | none =>
    rw [hhead] at h
    exact absurd h.symm (Option.some_ne_none x)
  | some t =>
    rw [hhead] at h
    dsimp only at h
    split_ifs at h
    rw [Option.some.injEq] at h
    rw [← h]
    exact ⟨rfl, rfl⟩

/-- A timer is scheduled. -/
theorem Tracks.schedule (h : Tracks r q) (t : TimerPtr) (cms : ℤ)
    (hproper : ∀ k n, scheduling t r.calls = some (some k, n) → .fired t ∉ r.calls) :
    ∃ q', Tracks ((TimerOp.schedule t cms).exec r) q' := by
  unfold TimerOp.exec smcpScheduleTimer
  dsimp only
  by_cases hlinked : smcpTimerIsScheduled r.state t = true
  · -- it is in the list already
    have hfailure : ¬smcpStatusFailure = smcpStatusOk := by decide
    rw [if_pos hlinked, if_neg hfailure]
    exact ⟨q, h⟩
  · rw [if_neg hlinked]
    have hmem : t ∉ q := fun ht => hlinked ((TimerList.isLinked_iff h.holds).2 ht)
    generalize convertCmsToTimeval r.state.now (if cms < 0 then 0 else cms) = date
    have hdated : (r.state.timers.setFireDate t date).Holds q :=
      h.holds.modify t (fun _ => rfl) fun _ => rfl
    obtain ⟨l', hinsert, hholds, hsame⟩ := TimerList.sortedInsert_spec hdated hmem h.length_le
    have hcancel : SameCancel r.state.timers l' :=
      (SameCancel.modify _ t (fun x => { x with fireDate := date }) fun _ => rfl).trans
        (.sortedInsert hinsert)
    have hperm := List.perm_orderedInsert (TimerList.FiresBefore (r.state.timers.setFireDate t date))
      t q
    unfold TimerList.setFireDate at hinsert
    rw [hinsert]
    dsimp only
    rw [if_pos rfl]
    refine ⟨_, hholds.congr rfl (fun _ => rfl) fun _ => rfl, ?_, fun u => ?_, ?_, h.once⟩
    · rw [hperm.length_eq, List.length_cons]
      show q.length + 1 ≤ l'.scheduled + 1
      rw [hsame.scheduled]
      exact Nat.succ_le_succ h.length_le
    · by_cases hu : t = u
      · subst hu
        have hself : scheduling t (.scheduled t (r.state.timers.timer t).cancel :: r.calls) =
            some ((r.state.timers.timer t).cancel, 0) := if_pos rfl
        refine ⟨fun _ => ?_, fun hnot => ?_, fun k n hk _ => ?_, fun n hn => ?_⟩
        · exact hself.trans (congrArg (fun c => some (c, 0)) (hcancel t).symm)
        · exact absurd (hperm.mem_iff.2 List.mem_cons_self) hnot
        · rw [hself, Option.some.injEq, Prod.mk.injEq] at hk
          exact (hcancel t).trans hk.1
        · rw [hself, Option.some.injEq, Prod.mk.injEq] at hn
          exact (hcancel t).trans hn.1
      · refine (h.timer u).congr (if_neg hu) ?_ (hcancel u) ?_
        · simp
        · rw [hperm.mem_iff, List.mem_cons, or_iff_right (Ne.symm hu)]
    · intro k n hk
      have hdone := (h.timer t).done hmem k n hk
      exact ⟨hdone, (h.timer t).kept k n hk (hproper k n hk)⟩

/-- A timer is out of the list, and the record of the others is what it was. -/
theorem Tracks.unlink (h : Tracks r q) (t : TimerPtr)
    (hholds : r'.state.timers.Holds (q.filter fun u => u ≠ t))
    (hscheduled : r'.state.timers.scheduled = r.state.timers.scheduled)
    (hcancel : ∀ u, u ≠ t → (r'.state.timers.timer u).cancel = (r.state.timers.timer u).cancel)
    (hscheduling : ∀ u, u ≠ t → scheduling u r'.calls = scheduling u r.calls)
    (hfired : ∀ u, u ≠ t → (.fired u ∈ r'.calls ↔ .fired u ∈ r.calls))
    (hself : TracksTimer r' (q.filter fun u => u ≠ t) t) (honce : Along TimerCall.Once r'.calls) :
    Tracks r' (q.filter fun u => u ≠ t) where
  holds := hholds
  length_le := by
    rw [hscheduled]
    exact (List.length_filter_le _ _).trans h.length_le
  timer u := by
    by_cases hu : u = t
    · rw [hu]
      exact hself
    · apply (h.timer u).congr (hscheduling u hu) (hfired u hu) (hcancel u hu)
      simp [hu]
  once := honce

/-- The timer's own record when its cancel callback is called, or when it has none. -/
theorem TracksTimer.cancelled (h : TracksTimer r q t) (r' : TimerTrace) (hcancel :
      (r'.state.timers.timer t).cancel = (r.state.timers.timer t).cancel)
    (hcalls : r'.calls = cancelCalls r.state t ++ r.calls)
    (hproper : (r.state.timers.timer t).cancel = none ∨ t ∈ q ∨ scheduling t r.calls = none) :
    TracksTimer r' (q.filter fun u => u ≠ t) t ∧
      (Along TimerCall.Once r.calls → Along TimerCall.Once r'.calls) := by
  have hfired : .fired t ∈ r'.calls ↔ .fired t ∈ r.calls := by
    rw [hcalls]
    exact fired_mem_cancelCalls r.state
  cases hnone : (r.state.timers.timer t).cancel with
  | none =>
    have hsame : r'.calls = r.calls := by
      rw [hcalls, cancelCalls, hnone]
      rfl
    rw [hnone] at hcancel
    -- a timer without a cancel callback was not scheduled with one, unless it has fired
    refine ⟨⟨fun ht => ?_, fun _ k n hk => ?_, fun k n hk hnot => ?_, fun n _ => hcancel⟩, fun h => ?_⟩
    · exact absurd ht (by simp)
    · rw [hsame] at hk
      by_cases ht : t ∈ q
      · rw [h.pending ht, hnone] at hk
        simp at hk
      · exact h.done ht k n hk
    · rw [hsame] at hk hnot
      rw [hcancel, ← hnone]
      exact h.kept k n hk hnot
    · rw [hsame]
      exact h
  | some c =>
    have hcons : r'.calls = .cancelled t :: r.calls := by
      rw [hcalls, cancelCalls, hnone]
      rfl
    have hscheduling : scheduling t r'.calls =
        (scheduling t r.calls).map fun x => (x.1, x.2 + 1) := by
      rw [hcons]
      exact if_pos rfl
    -- it is pending, or it was never scheduled
    have hpending : ∀ x n, scheduling t r.calls = some (x, n) → x = some c ∧ n = 0 := by
      intro x n hx
      rcases hproper with hp | ht | hp
      · rw [hnone] at hp
        exact absurd hp (Option.some_ne_none c)
      · rw [h.pending ht, hnone, Option.some.injEq, Prod.mk.injEq] at hx
        exact ⟨hx.1.symm, hx.2.symm⟩
      · rw [hp] at hx
        exact absurd hx.symm (Option.some_ne_none _)
    have hended : ∀ x n, scheduling t r'.calls = some (x, n) → x = some c ∧ n = 1 := by
      intro x n hx
      rw [hscheduling, Option.map_eq_some_iff] at hx
      obtain ⟨y, hy, heq⟩ := hx
      obtain ⟨hcancelled, hzero⟩ := hpending y.1 y.2 hy
      rw [Prod.mk.injEq] at heq
      exact ⟨heq.1.symm.trans hcancelled, by omega⟩
    refine ⟨⟨fun ht => ?_, fun _ k n hk => ?_, fun k n hk _ => ?_, fun n hn => ?_⟩, fun h => ?_⟩
    · exact absurd ht (by simp)
    · exact (hended _ n hk).2
    · rw [hcancel, hnone]
      exact (hended _ n hk).1.symm
    · exact absurd (hended _ n hn).1.symm (Option.some_ne_none c)
    · rw [hcons]
      exact ⟨fun k n hk => (hpending _ n hk).2, h⟩

/-- A timer is invalidated. -/
theorem Tracks.invalidate (h : Tracks r q) (t : TimerPtr)
    (hproper : (r.state.timers.timer t).cancel = none ∨ smcpTimerIsScheduled r.state t = true ∨
      scheduling t r.calls = none) :
    Tracks ((TimerOp.invalidate t).exec r) (q.filter fun u => u ≠ t) := by
  have hmem : smcpTimerIsScheduled r.state t = true ↔ t ∈ q := TimerList.isLinked_iff h.holds
  rw [hmem] at hproper
  have hcancel := SameCancel.unlink r.state.timers t
  obtain ⟨hself, honce⟩ := (h.timer t).cancelled ((TimerOp.invalidate t).exec r) (hcancel t) rfl
    hproper
  exact h.unlink t (TimerList.unlink_spec h.holds)
    (TimerList.SameTimers.unlink r.state.timers t).scheduled (fun u _ => hcancel u)
    (fun u hu => scheduling_cancelCalls_of_ne r.state (Ne.symm hu))
    (fun u _ => fired_mem_cancelCalls r.state) hself (honce h.once)

/-- The timer's own record when it fires. -/
theorem TracksTimer.fired (h : TracksTimer r q t) (ht : t ∈ q) (r' : TimerTrace)
    (hcancel : (r'.state.timers.timer t).cancel = none)
    (hcalls : r'.calls = if (r.state.timers.timer t).callback.isSome then .fired t :: r.calls
      else r.calls)
    (hproper : (r.state.timers.timer t).cancel ≠ none → (r.state.timers.timer t).callback ≠ none) :
    TracksTimer r' (q.filter fun u => u ≠ t) t ∧
      (Along TimerCall.Once r.calls → Along TimerCall.Once r'.calls) := by
  have hlast : ∀ c n, scheduling t r.calls = some (c, n) →
      (r.state.timers.timer t).cancel = c ∧ n = 0 := by
    intro c n hn
    rw [h.pending ht, Option.some.injEq, Prod.mk.injEq] at hn
    exact ⟨hn.1, hn.2.symm⟩
  -- a timer with a callback says so when it is called
  by_cases hcallback : (r.state.timers.timer t).callback.isSome = true
  · -- the call is recorded
    rw [if_pos hcallback] at hcalls
    have hfired : scheduling t r'.calls = some ((r.state.timers.timer t).cancel, 1) := by
      rw [hcalls, scheduling, if_pos rfl, h.pending ht]
      rfl
    refine ⟨⟨fun ht => absurd ht (by simp), fun _ k n hk => ?_, fun k n _ hnot => ?_,
      fun _ _ => hcancel⟩, fun honce => ?_⟩
    · rw [hfired, Option.some.injEq, Prod.mk.injEq] at hk
      exact hk.2.symm
    · rw [hcalls] at hnot
      exact absurd List.mem_cons_self hnot
    · rw [hcalls]
      exact ⟨fun k n hk => (hlast _ n hk).2, honce⟩
  · -- there is nothing to call, so it has no cancel callback either
    rw [if_neg hcallback] at hcalls
    have hwithout : ∀ k n, scheduling t r'.calls ≠ some (some k, n) := by
      intro k n hk
      rw [hcalls] at hk
      apply hcallback
      apply Option.isSome_iff_ne_none.2
      apply hproper
      rw [(hlast _ n hk).1]
      exact Option.some_ne_none k
    refine ⟨⟨fun ht => absurd ht (by simp), fun _ k n hk => absurd hk (hwithout k n),
      fun k n hk _ => absurd hk (hwithout k n), fun _ _ => hcancel⟩, fun honce => ?_⟩
    rw [hcalls]
    exact honce

/-- The first timer fires. -/
theorem Tracks.handleTimers (h : Tracks r q)
    (hproper : ∀ t ∈ r.state.fireTimer.map Prod.fst,
      (r.state.timers.timer t).cancel ≠ none → (r.state.timers.timer t).callback ≠ none) :
    ∃ q', Tracks (TimerOp.handleTimers.exec r) q' := by
  -- no timer is due, or the first one fires
  cases hfire : r.state.fireTimer with
  | none =>
    have hsame : TimerOp.handleTimers.exec r = r := by
      simp only [TimerOp.exec, hfire]
    rw [hsame]
    exact ⟨q, h⟩
  | some x =>
    have hproper := hproper x.1 (by rw [hfire]; rfl)
    obtain ⟨hhead, hs⟩ := fireTimer_some hfire
    have hexec : TimerOp.handleTimers.exec r =
        ⟨x.2, if (r.state.timers.timer x.1).callback.isSome then .fired x.1 :: r.calls
          else r.calls⟩ := by
      simp only [TimerOp.exec, hfire]
    rw [hexec]
    have hmem : x.1 ∈ q := by
      rw [h.holds.head_eq] at hhead
      exact List.mem_of_mem_head? hhead
    have huncancelled : (r.state.timers.modify x.1 fun t => { t with cancel := none }).Holds q :=
      h.holds.modify x.1 (fun _ => rfl) fun _ => rfl
    have hcancel (u : TimerPtr) : (x.2.timers.timer u).cancel =
        if u = x.1 then none else (r.state.timers.timer u).cancel := by
      rw [hs, SameCancel.unlink _ _ u, TimerList.timer_modify]
      split_ifs <;> rfl
    obtain ⟨hself, honce⟩ := (h.timer x.1).fired hmem ⟨x.2, _⟩
      ((hcancel x.1).trans (if_pos rfl)) rfl hproper
    refine ⟨q.filter fun u => u ≠ x.1, h.unlink x.1 ?_ ?_ ?_ ?_ ?_ hself (honce h.once)⟩
    · rw [hs]
      exact TimerList.unlink_spec huncancelled
    · rw [hs]
      exact (TimerList.SameTimers.unlink _ x.1).scheduled
    · intro u hu
      exact (hcancel u).trans (if_neg hu)
    · intro u hu
      dsimp only
      split_ifs
      · exact if_neg (Ne.symm hu)
      · rfl
    · intro u hu
      dsimp only
      split_ifs
      · simp [hu]
      · rfl

/-- Before the first call. -/
theorem tracks_idle {s : Instance} (h : s.timers.Holds []) : Tracks ⟨s, []⟩ [] where
  holds := h
  length_le := Nat.zero_le _
  timer t :=
    { pending := fun ht => absurd ht (by simp)
      done := fun _ _ _ hk => absurd hk.symm (Option.some_ne_none _)
      kept := fun _ _ hk => absurd hk.symm (Option.some_ne_none _)
      without := fun _ hk => absurd hk.symm (Option.some_ne_none _) }
  once := trivial

theorem Tracks.step (h : Tracks r q) {op : TimerOp} (hproper : op.Proper r) :
    ∃ q', Tracks (op.exec r) q' := by
  cases op with
  | tick now =>
    exact ⟨q, h.holds, h.length_le, fun t => (h.timer t).congr rfl Iff.rfl rfl Iff.rfl, h.once⟩
  | schedule t cms => exact h.schedule t cms hproper
  | invalidate t => exact ⟨_, h.invalidate t hproper⟩
  | handleTimers => exact h.handleTimers hproper

theorem Tracks.run (h : Tracks r q) {ops : List TimerOp}
    (hproper : AllSteps TimerOp.exec TimerOp.Proper r ops) : ∃ q', Tracks (runTimers ops r) q' := by
  induction ops generalizing r q with
  | nil => exact ⟨q, h⟩
  | cons op ops ih =>
    obtain ⟨q', h'⟩ := h.step hproper.1
    exact ih h' hproper.2

/-- One round of the loop of `smcp_release`, on a timer without a cancel callback. -/
theorem Tracks.releaseFirst (h : Tracks r (t :: q)) (hquiet : r.state.ReleasesQuietly) :
    cancelCalls r.state t = [] ∧ Tracks ⟨r.state.unlinkTimer t, r.calls⟩ q ∧
      (r.state.unlinkTimer t).ReleasesQuietly := by
  have hlinked (u : TimerPtr) : smcpTimerIsScheduled r.state u = true ↔ u ∈ t :: q :=
    TimerList.isLinked_iff h.holds
  have hnone := hquiet t ((hlinked t).2 List.mem_cons_self)
  have hcalls : cancelCalls r.state t = [] := by
    rw [cancelCalls, hnone]
  have hstep := h.invalidate t (.inl hnone)
  have hexec : (TimerOp.invalidate t).exec r = ⟨r.state.unlinkTimer t, r.calls⟩ := by
    show TimerTrace.mk _ (cancelCalls r.state t ++ r.calls) = _
    rw [hcalls]
    rfl
  have hnodup := List.nodup_cons.1 h.holds.nodup
  have hfilter : (t :: q).filter (fun u => u ≠ t) = q := by
    rw [List.filter_cons_of_neg (by simp), List.filter_eq_self]
    intro u hu
    exact decide_eq_true fun heq => hnodup.1 (heq ▸ hu)
  rw [hexec, hfilter] at hstep
  refine ⟨hcalls, hstep, fun u hu => ?_⟩
  have huq : u ∈ q := (TimerList.isLinked_iff hstep.holds).1 hu
  apply (SameCancel.unlink r.state.timers t u).trans
  exact hquiet u ((hlinked u).2 (List.mem_cons_of_mem t huq))

/-- Every timer is taken out, and nothing is called. -/
theorem Tracks.release {fuel : ℕ} (h : Tracks r q) (hquiet : r.state.ReleasesQuietly)
    (hfuel : q.length < fuel) : Tracks (r.release fuel) [] := by
  induction fuel generalizing r q with
  | zero => omega
  | succ fuel ih =>
    rw [TimerTrace.release, h.holds.head_eq]
    cases q with
    | nil => exact h
    | cons t q =>
      obtain ⟨hcalls, hstep, hquiet'⟩ := h.releaseFirst hquiet
      dsimp only [List.head?_cons]
      rw [hcalls, List.nil_append, List.nil_append]
      exact ih hstep hquiet' (by simpa using hfuel)

/-- No callback is called, so it does not matter what they do. -/
theorem releaseTimers_eq (hooks : Hooks) {fuel : ℕ} (h : Tracks r q)
    (hquiet : r.state.ReleasesQuietly) (hfuel : q.length < fuel) :
    releaseTimers hooks fuel r.state = (r.release fuel).state := by
  induction fuel generalizing r q with
  | zero => omega
  | succ fuel ih =>
    rw [TimerTrace.release, releaseTimers, h.holds.head_eq]
    cases q with
    | nil => rfl
    | cons t q =>
      obtain ⟨hcalls, hstep, hquiet'⟩ := h.releaseFirst hquiet
      have hnone : (r.state.timers.timer t).cancel = none :=
        hquiet t ((TimerList.isLinked_iff h.holds).2 List.mem_cons_self)
      have hunlinked : ((r.state.unlinkTimer t).timers.timer t).cancel = none :=
        (SameCancel.unlink r.state.timers t t).trans hnone
      have hfirst : callCancel hooks r.state t = r.state := by
        rw [callCancel, hnone]
      have hsecond : smcpInvalidateTimer hooks r.state t = r.state.unlinkTimer t := by
        rw [invalidateTimer_eq, callCancel, hunlinked]
      dsimp only [List.head?_cons]
      rw [hfirst, hsecond, hcalls, List.nil_append, List.nil_append]
      exact ih hstep hquiet' (by simpa using hfuel)

end

/-- Every scheduling of a timer with a cancel callback is followed by one call, and by `smcp_release`
at the latest, in every run whose steps are proper and that leaves no timer with a cancel callback to
`smcp_release`. -/
theorem timers_complete_once {s : Instance} (hidle : s.timers.Holds []) {ops : List TimerOp}
    (hproper : AllSteps TimerOp.exec TimerOp.Proper ⟨s, []⟩ ops)
    (hquiet : (runTimers ops ⟨s, []⟩).state.ReleasesQuietly) :
    let r := runTimers ops ⟨s, []⟩
    let released := r.release (r.state.timers.scheduled + 1)
    CompletesOnce released.calls ∧ released.state.timers.head = none ∧
      ∀ hooks, releaseTimers hooks (r.state.timers.scheduled + 1) r.state = released.state := by
  obtain ⟨q, htracks⟩ := (tracks_idle hidle).run hproper
  have hfuel := Nat.lt_succ_of_le htracks.length_le
  have hreleased := htracks.release hquiet hfuel
  refine ⟨⟨hreleased.once, fun t => (hreleased.timer t).done (by simp)⟩, hreleased.holds.head_eq,
    fun hooks => releaseTimers_eq hooks htracks hquiet hfuel⟩

instance (op : TimerOp) (r : TimerTrace) : Decidable (op.Proper r) :=
  match op with
  | .tick _ => isTrue trivial
  | .schedule t _ =>
    decidable_of_iff (∀ x ∈ scheduling t r.calls, x.1 ≠ none → .fired t ∉ r.calls)
      ⟨fun h k n hk => h (some k, n) hk (Option.some_ne_none k), fun h x hx hsome => by
        obtain ⟨k, hk⟩ := Option.ne_none_iff_exists.1 hsome
        exact h k x.2 (hx.trans (congrArg (fun c => some (c, x.2)) hk.symm))⟩
  | .invalidate _ => inferInstanceAs (Decidable (_ ∨ _ ∨ _))
  | .handleTimers => inferInstanceAs (Decidable (∀ t ∈ Option.map Prod.fst _, _ → _))

/-- No timer is scheduled, and every one has both callbacks. -/
def cancellableTimers : Instance :=
  { smcpCreate default (fun _ => 0) (fun _ => 1) with
    timers := ⟨none, fun _ => { callback := some (.user 0), cancel := some 7 }, 0⟩ }

theorem cancellableTimers_holds : cancellableTimers.timers.Holds [] :=
  ⟨rfl, fun _ => rfl, fun _ => rfl, List.nodup_nil⟩

/-- One timer fires, and another one is invalidated. -/
def firedAndCancelled : List TimerOp :=
  [.schedule (.user 0) 10, .schedule (.user 1) 1000, .tick ⟨0, 20000⟩, .handleTimers,
    .invalidate (.user 1)]

theorem timers_complete_once_two :
    (runTimers firedAndCancelled ⟨cancellableTimers, []⟩).calls =
      [.cancelled (.user 1), .fired (.user 0), .scheduled (.user 1) (some 7),
        .scheduled (.user 0) (some 7)] ∧
    CompletesOnce ((runTimers firedAndCancelled ⟨cancellableTimers, []⟩).release 3).calls := by
  have hproper : AllSteps TimerOp.exec TimerOp.Proper ⟨cancellableTimers, []⟩ firedAndCancelled := by
    refine ⟨?_, ?_, ?_, ?_, ?_, trivial⟩
    all_goals decide +kernel
  have hempty : (runTimers firedAndCancelled ⟨cancellableTimers, []⟩).state.timers.head = none := by
    decide +kernel
  have hquiet : (runTimers firedAndCancelled ⟨cancellableTimers, []⟩).state.ReleasesQuietly := by
    obtain ⟨q, htracks⟩ := (tracks_idle cancellableTimers_holds).run hproper
    have hnil : q = [] := List.head?_eq_none_iff.1 (htracks.holds.head_eq.symm.trans hempty)
    intro t ht
    have hmem := (TimerList.isLinked_iff htracks.holds).1 ht
    rw [hnil] at hmem
    exact absurd hmem List.not_mem_nil
  exact ⟨by decide +kernel, (timers_complete_once cancellableTimers_holds hproper hquiet).1⟩

/-- A timer with a cancel callback is left to `smcp_release`, which calls it twice. -/
theorem timers_cancelled_twice :
    ¬∀ (s : Instance) (ops : List TimerOp), s.timers.Holds [] →
      CompletesOnce ((runTimers ops ⟨s, []⟩).release
        ((runTimers ops ⟨s, []⟩).state.timers.scheduled + 1)).calls := by
  intro hall
  have honce := (hall cancellableTimers [.schedule (.user 0) 1000] cancellableTimers_holds).1
  have hcalls : ((runTimers [.schedule (.user 0) 1000] ⟨cancellableTimers, []⟩).release
      ((runTimers [.schedule (.user 0) 1000] ⟨cancellableTimers, []⟩).state.timers.scheduled +
        1)).calls =
      [.cancelled (.user 0), .cancelled (.user 0), .scheduled (.user 0) (some 7)] := by
    decide +kernel
  rw [hcalls] at honce
  exact absurd (honce.1 7 1 (by decide)) (by decide)

end Smcp
