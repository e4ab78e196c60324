import Smcp.Timer.Wait
import Smcp.Transaction.Runs

/-!
# Transactions that end quietly

What `smcp_transaction_end` and `smcp_release` do when the callbacks of the application leave the
instance as it is.

* `end_passive`: an active transaction ends;
* `release_passive`: everything ends, in the order of the two loops;
* `reachable_release`: what is left after a run.
-/

namespace Smcp

open LinkedTree Run

/-! ## The store -/

section
variable {st : TransactionStore} {h h' : TransactionPtr}

theorem finish_msgId (st : TransactionStore) (h : TransactionPtr) :
    (st.finish h).msgId = st.msgId ∧ (st.finish h).token = st.token ∧
      (st.finish h).inserted = st.inserted := by
  unfold TransactionStore.finish
  dsimp only
  split_ifs
  · split
    · exact ⟨rfl, rfl, rfl⟩
    · exact ⟨rfl, rfl, rfl⟩
  · exact ⟨rfl, rfl, rfl⟩

/-- The end of a transaction concerns no other. -/
theorem StoreOk.finish_active (hok : StoreOk st) (hactive : st.active h = true) (h' : TransactionPtr) :
    (st.finish h).active h' = if h' = h then false else st.active h' := by
  have hfound := hok.btRemove_self hactive
  unfold TransactionStore.finish
  rw [if_pos hactive]
  dsimp only
  rw [hfound]
  show Function.update (Function.update st.active h false) h false h' = _
  rw [Function.update_idem]
  by_cases hsame : h' = h
  · rw [hsame, Function.update_self, if_pos rfl]
  · rw [Function.update_of_ne hsame, if_neg hsame]

/-- Active transactions have different ids. -/
theorem StoreOk.msgId_inj (hok : StoreOk st) (hactive : st.active h = true)
    (hactive' : st.active h' = true) (hid : st.msgId h' = st.msgId h) : h' = h := by
  have hfound := hok.findViaMsgId h' hactive'
  rw [hid, hok.findViaMsgId h hactive] at hfound
  exact (Option.some.inj hfound).symm

/-- The root is an active transaction, as long as there is one. -/
theorem StoreOk.root_cases (hok : StoreOk st) :
    st.links.root = none ∧ (∀ h, st.active h = false) ∨
      ∃ h, st.links.root = some h ∧ st.active h = true := by
  obtain ⟨t, hs, hactive⟩ := hok
  have hrep := hs.rep
  cases t with
  | nil =>
    left
    refine ⟨hrep, fun h => ?_⟩
    rw [Bool.eq_false_iff]
    exact fun ha => List.not_mem_nil ((hactive h).1 ha)
  | node h l r =>
    right
    refine ⟨h, hrep.1, (hactive h).2 ?_⟩
    rw [inorder]
    exact List.mem_append_right _ List.mem_cons_self

/-- The active transactions, each once. -/
theorem StoreOk.exists_list (hok : StoreOk st) :
    ∃ l : List TransactionPtr, l.Nodup ∧ (∀ h, st.active h = true ↔ h ∈ l) ∧ l.length ≤ st.inserted := by
  obtain ⟨t, hs, hactive⟩ := hok
  exact ⟨inorder t, hs.nodup, hactive, hs.fuel⟩

end

/-! ## The end of a transaction -/

/-- An application whose callbacks leave the instance as it is. -/
def Hooks.Passive (hooks : Hooks) : Prop := ∀ c u, (hooks c u).1 = u

/-- The history of a transaction that is deleted. -/
def deletedEvents (h : TransactionPtr) (t : Transaction) : List Event :=
  (if t.shouldDealloc then [.freed h] else []) ++ [.deleted h t.callback.isSome]

/-- The instance after the end of `h`. -/
def Instance.ended (u : Instance) (h : TransactionPtr) : Instance :=
  { u.unlinkTimer (.ofTransaction h) with
    store := u.store.finish h
    currentTransaction := if u.currentTransaction = some h then none else u.currentTransaction
    events := deletedEvents h (u.transaction h) ++ .ended h (some h) :: u.events }

section
variable {hooks : Hooks} {u : Instance} {h : TransactionPtr}

theorem invalidateTimer_passive (hpassive : hooks.Passive) (u : Instance) (t : TimerPtr) :
    smcpInvalidateTimer hooks u t = u.unlinkTimer t := by
  rw [invalidateTimer_eq]
  unfold callCancel
  split
  · exact hpassive _ _
  · rfl

theorem delete_passive (hpassive : hooks.Passive) (u : Instance) (h : TransactionPtr) :
    smcpInternalDeleteTransaction_ hooks u h =
      { u.unlinkTimer (.ofTransaction h) with
        store := u.store.setActive h false
        events := deletedEvents h (u.transaction h) ++ u.events } := by
  set v := ({ u.unlinkTimer (.ofTransaction h) with store := u.store.setActive h false } :
    Instance).log (.deleted h (u.transaction h).callback.isSome) with hv
  have hfinal (x : Instance) (hx : x = v) :
      (if (x.transaction h).shouldDealloc then x.log (.freed h) else x) =
        { u.unlinkTimer (.ofTransaction h) with
          store := u.store.setActive h false
          events := deletedEvents h (u.transaction h) ++ u.events } := by
    have hdealloc : (v.transaction h).shouldDealloc = (u.transaction h).shouldDealloc := rfl
    unfold deletedEvents
    rw [hx, hdealloc]
    split_ifs
    · rfl
    · rfl
  unfold smcpInternalDeleteTransaction_
  rw [invalidateTimer_passive hpassive]
  apply hfinal
  split
  · exact hpassive _ _
  · rfl

/-- The end of an active transaction. -/
theorem end_passive (hpassive : hooks.Passive) (hok : StoreOk u.store)
    (hactive : u.store.active h = true) : smcpTransactionEnd hooks u h = u.ended h := by
  -- an active transaction is found under its id, and that is `h`
  have hfound := hok.btRemove_self hactive
  set r := (u.store.setActive h false).btRemove (u.store.msgId h) with hr
  have hstore : u.store.finish h = r.1.setActive h false := by
    unfold TransactionStore.finish
    rw [if_pos hactive, ← hr]
    dsimp only
    rw [hfound]
  -- the current transaction is forgotten if it is this one
  set current := if u.currentTransaction = some h then none else u.currentTransaction with hcurrent
  have hend : smcpTransactionEnd hooks u h = smcpInternalDeleteTransaction_ hooks
      { u with
        currentTransaction := current
        store := r.1
        events := .ended h (some h) :: u.events } h := by
    unfold smcpTransactionEnd
    rw [hcurrent]
    split_ifs with hcur
    · dsimp only
      rw [if_pos hactive, ← hr, hfound]
      rfl
    · dsimp only
      rw [if_pos hactive, ← hr, hfound]
      rfl
  -- the callbacks do nothing, so the state is what the deletion makes of it
  rw [hend, delete_passive hpassive]
  unfold Instance.ended
  rw [hstore, ← hcurrent]
  rfl

end

/-! ## Releasing -/

/-- These transactions end, one after the other. -/
def Instance.endAll (u : Instance) (order : List TransactionPtr) : Instance :=
  order.foldl Instance.ended u

/-- These timers are taken out, one after the other. -/
def Instance.unlinkAll (u : Instance) (q : List TimerPtr) : Instance := q.foldl Instance.unlinkTimer u

/-- What the end of these transactions does to the rest. -/
structure EndsAll (order : List TransactionPtr) (u u' : Instance) : Prop where
  transaction : u'.transaction = u.transaction
  events : u'.events = (order.reverse.flatMap fun h =>
    deletedEvents h (u.transaction h) ++ [.ended h (some h)]) ++ u.events
  timerEvents : u'.timerEvents =
    (order.reverse.map fun h => .invalidated (.ofTransaction h)) ++ u.timerEvents
  timers : ∀ q, u.timers.Holds q →
    u'.timers.Holds (q.filter fun t => ∀ h ∈ order, t ≠ .ofTransaction h)
  scheduled : u'.timers.scheduled = u.timers.scheduled
  fault : u'.fault = u.fault

section
variable {hooks : Hooks} {u : Instance}

theorem endAll_spec (order : List TransactionPtr) (u : Instance) : EndsAll order u (u.endAll order) := by
  -- induction on the transactions that are ended, in the order of the loop
  induction order generalizing u with
  | nil =>
    refine ⟨rfl, rfl, rfl, fun q hq => ?_, rfl, rfl⟩
    have hall : (q.filter fun t => ∀ h ∈ ([] : List TransactionPtr), t ≠ .ofTransaction h) = q := by
      rw [List.filter_eq_self]
      intro t _
      exact decide_eq_true nofun
    rw [hall]
    exact hq
  | cons h order ih =>
    have hrest := ih (u.ended h)
    refine ⟨hrest.transaction, ?_, ?_, fun q hq => ?_, ?_, hrest.fault⟩
    · have hevents := hrest.events
      have hsame : (u.ended h).transaction = u.transaction := rfl
      have hended : (u.ended h).events =
          deletedEvents h (u.transaction h) ++ .ended h (some h) :: u.events := rfl
      rw [hsame, hended] at hevents
      show ((u.ended h).endAll order).events = _
      rw [hevents, List.reverse_cons, List.flatMap_append]
      simp
    · have htimers := hrest.timerEvents
      have hended : (u.ended h).timerEvents = .invalidated (.ofTransaction h) :: u.timerEvents := rfl
      rw [hended] at htimers
      show ((u.ended h).endAll order).timerEvents = _
      rw [htimers, List.reverse_cons, List.map_append]
      simp
    · have hunlinked : (u.ended h).timers.Holds (q.filter fun t => t ≠ .ofTransaction h) :=
        TimerList.unlink_spec hq
      have hall := hrest.timers _ hunlinked
      rw [List.filter_filter] at hall
      have hsame : (q.filter fun t => ∀ h' ∈ h :: order, t ≠ .ofTransaction h') =
          q.filter fun t => decide (∀ h' ∈ order, t ≠ .ofTransaction h') &&
            decide (t ≠ .ofTransaction h) := by
        apply List.filter_congr
        intro t _
        rw [← Bool.decide_and]
        apply decide_eq_decide.2
        rw [List.forall_mem_cons]
        exact and_comm
      rw [hsame]
      exact hall
    · exact hrest.scheduled.trans (TimerList.SameTimers.unlink u.timers (.ofTransaction h)).scheduled

/-- The first loop of `smcp_release` ends every active transaction, and then it ends. -/
theorem endTransactions_passive (hpassive : hooks.Passive) {fuel : ℕ} (hok : StoreOk u.store)
    {l : List TransactionPtr} (hnodup : l.Nodup) (hl : ∀ h, u.store.active h = true ↔ h ∈ l)
    (hfuel : l.length < fuel) :
    ∃ order, order.Perm l ∧ endTransactions hooks fuel u = u.endAll order ∧
      (u.endAll order).store.links.root = none ∧ ∀ h, (u.endAll order).store.active h = false := by
  -- induction on the fuel: every turn ends the root, and the list gets shorter
  induction fuel generalizing u l with
  | zero => omega
  | succ fuel ih =>
    rw [endTransactions]
    -- the loop stops when the tree is empty
    rcases hok.root_cases with ⟨hroot, hnone⟩ | ⟨h, hroot, hactive⟩
    · rw [hroot]
      have hempty : l = [] := by
        apply List.eq_nil_iff_forall_not_mem.2
        intro h hmem
        exact Bool.false_ne_true ((hnone h).symm.trans ((hl h).2 hmem))
      exact ⟨[], by rw [hempty], rfl, hroot, hnone⟩
    · rw [hroot]
      dsimp only
      rw [end_passive hpassive hok hactive]
      have hmem := (hl h).1 hactive
      have hlength := List.length_erase_of_mem hmem
      have hpos := List.length_pos_of_mem hmem
      have hrest (h' : TransactionPtr) : (u.ended h).store.active h' = true ↔ h' ∈ l.erase h := by
        show (u.store.finish h).active h' = true ↔ _
        rw [hok.finish_active hactive, hnodup.mem_erase_iff, ← hl h']
        by_cases hsame : h' = h
        · simp [hsame]
        · simp [hsame]
      obtain ⟨order, hperm, heq, hroot', hnone⟩ := ih (u := u.ended h) (hok.finish h)
        (hnodup.erase h) hrest (by omega)
      exact ⟨h :: order, (hperm.cons h).trans (List.perm_cons_erase hmem).symm, heq, hroot', hnone⟩

/-- The second loop takes every timer out of the list, and then it ends. -/
theorem releaseTimers_passive (hpassive : hooks.Passive) {fuel : ℕ} {q : List TimerPtr}
    (hq : u.timers.Holds q) (hfuel : q.length < fuel) :
    releaseTimers hooks fuel u = u.unlinkAll q ∧ (u.unlinkAll q).timers.head = none := by
  -- induction on the fuel: every turn takes the head
  induction fuel generalizing u q with
  | zero => omega
  | succ fuel ih =>
    rw [releaseTimers, hq.head_eq]
    -- the list of the timers is what decides when it stops
    cases q with
    | nil => exact ⟨rfl, hq.head_eq⟩
    | cons t q =>
      have hnodup := List.nodup_cons.1 hq.nodup
      have hfilter : (t :: q).filter (fun x => x ≠ t) = q := by
        rw [List.filter_cons_of_neg (by simp), List.filter_eq_self]
        intro x hx
        exact decide_eq_true fun heq => hnodup.1 (heq ▸ hx)
      have hrest : (u.unlinkTimer t).timers.Holds ((t :: q).filter fun x => x ≠ t) :=
        TimerList.unlink_spec hq
      have hcalled : callCancel hooks u t = u := by
        unfold callCancel
        split
        · exact hpassive _ _
        · rfl
      rw [hfilter] at hrest
      rw [List.length_cons] at hfuel
      dsimp only [List.head?_cons]
      rw [hcalled, invalidateTimer_passive hpassive]
      exact ih hrest (by omega)

theorem unlinkAll_eq (q : List TimerPtr) (u : Instance) :
    ∃ l, u.unlinkAll q =
      { u with timers := l, timerEvents := q.reverse.map TimerEvent.invalidated ++ u.timerEvents } := by
  induction q generalizing u with
  | nil => exact ⟨u.timers, rfl⟩
  | cons t q ih =>
    obtain ⟨l, hl⟩ := ih (u.unlinkTimer t)
    refine ⟨l, ?_⟩
    show (u.unlinkTimer t).unlinkAll q = _
    rw [hl, List.reverse_cons, List.map_append, List.append_assoc]
    rfl

/-- After any run, `smcp_release` ends every active transaction once: it is taken out, its callback,
if it has one, is called for the last time, and the object is given back if it was allocated. Every
timer that is left in the list is invalidated once. Then the store and the list are empty, and both
loops have come to an end. -/
theorem reachable_release {s : Instance} (hreach : Reachable s)
    (hsafe : ∀ e ∈ s.events, e.KeepsStore) (hkeeps : ∀ e ∈ s.timerEvents, e.KeepsQueue)
    (hooks : Hooks) (hpassive : hooks.Passive) :
    ∃ (order : List TransactionPtr) (q : List TimerPtr),
      order.Nodup ∧ (∀ h, h ∈ order ↔ s.store.active h = true) ∧
      q.Nodup ∧ (∀ t, t ∈ q ↔ smcpTimerIsScheduled s t = true ∧
        ∀ h, s.store.active h = true → t ≠ .ofTransaction h) ∧
      let s' := smcpRelease hooks s
      s'.events = (order.flatMap fun h =>
        deletedEvents h (s.transaction h) ++ [.ended h (some h)]) ++ s.events ∧
      s'.timerEvents = q.map TimerEvent.invalidated ++
        (order.map fun h => .invalidated (.ofTransaction h)) ++ s.timerEvents ∧
      s'.store.links.root = none ∧ (∀ h, s'.store.active h = false) ∧
      s'.timers.head = none ∧ s'.fault = s.fault := by
  have hok : StoreOk s.store := reachable_storeOk hreach hsafe
  -- the active transactions, without a duplicate, and in the order in which the loop ends them
  obtain ⟨l, hnodup, hl, hlength⟩ := hok.exists_list
  obtain ⟨order, hperm, hended, hroot, hnone⟩ :=
    endTransactions_passive hpassive hok hnodup hl (Nat.lt_succ_of_le hlength)
  have hspec := endAll_spec order s
  -- the timers that are queued, and how the end of a transaction takes one of them out
  obtain ⟨⟨q, hsorted, hqueue⟩, hcount, -⟩ := hreach.timersOk hkeeps
  have htimers := hspec.timers _ hqueue.holds
  -- `v` is the state between the two loops; `rest` are the timers that no transaction had
  set v := s.endAll order with hv
  set rest := (q.map Prod.fst).filter fun t => ∀ h ∈ order, t ≠ .ofTransaction h with hrest
  have hshort : rest.length < v.timers.scheduled + 1 := by
    have hle : rest.length ≤ (q.map Prod.fst).length := List.length_filter_le _ _
    rw [List.length_map, hsorted.perm.length_eq] at hle
    rw [hspec.scheduled]
    exact Nat.lt_succ_of_le (hle.trans hcount)
  obtain ⟨hreleased, hhead⟩ := releaseTimers_passive hpassive htimers hshort
  have hall : smcpRelease hooks s = v.unlinkAll rest := by
    unfold smcpRelease
    dsimp only
    rw [hended]
    exact hreleased
  have hmem (h : TransactionPtr) : h ∈ order ↔ s.store.active h = true := by
    rw [hperm.mem_iff, hl h]
  refine ⟨order.reverse, rest.reverse, List.nodup_reverse.2 (hperm.nodup_iff.2 hnodup), ?_,
    List.nodup_reverse.2 htimers.nodup, ?_, ?_⟩
  · intro h
    rw [List.mem_reverse, hmem]
  · intro t
    have hlinked : smcpTimerIsScheduled s t = true ↔ t ∈ q.map Prod.fst :=
      TimerList.isLinked_iff hqueue.holds
    rw [List.mem_reverse, hrest, List.mem_filter, hlinked, decide_eq_true_eq]
    apply and_congr_right
    intro _
    exact forall_congr' fun h => imp_congr (hmem h) Iff.rfl
  · obtain ⟨l', hl'⟩ := unlinkAll_eq rest v
    dsimp only
    rw [hall]
    refine ⟨?_, ?_, ?_, ?_, hhead, ?_⟩
    · rw [hl']
      exact hspec.events
    · rw [hl', hspec.timerEvents, List.append_assoc]
    · rw [hl']
      exact hroot
    · rw [hl']
      exact hnone
    · rw [hl']
      exact hspec.fault

/-- Two transactions are released. -/
theorem reachable_release_twoTransactions :
    (smcpRelease idleHooks twoTransactions).timers.head = none ∧
      ∀ h, (smcpRelease idleHooks twoTransactions).store.active h = false := by
  obtain ⟨order, q, -, -, -, -, -, -, -, hnone, hhead, -⟩ :=
    reachable_release (reachable_idleRun _ _) twoTransactions_keepsStore
      (by decide +kernel : ∀ e ∈ twoTransactions.timerEvents, e.KeepsQueue) idleHooks fun _ _ => rfl
  exact ⟨hhead, hnone⟩

end

end Smcp
