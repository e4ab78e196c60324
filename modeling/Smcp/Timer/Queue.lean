import Mathlib.Data.List.Sort
import Smcp.Lib.LinkedList
import Smcp.Transaction.Runs

/-!
# The timer queue in every run

`self->timers` against the history: `pending` says which timers are scheduled, in which order.

* `TimerList.sortedInsert_spec`, `TimerList.unlink_spec`: what `ll_sorted_insert` and `ll_remove` do
  to the list;
* `reachable_timerQueue`: the list is the doubly linked list of the pending timers, in every run in
  which no timer is cleared while it is in the list.
-/

namespace Smcp

open LinkedList Run

/-! ## Links -/

namespace TimerList

/-- The list at `self->timers` is `q`. -/
def Holds (l : TimerList) (q : List TimerPtr) : Prop :=
  Represents l.head (fun t => (l.timer t).next) (fun t => (l.timer t).prev) q

section
variable (l : TimerList) (item v : Option TimerPtr) (a : TimerPtr)

/-- Setting a link sets this link, if there is a timer to set it in. -/
theorem next_setNext :
    ((l.setNext item v).timer a).next = if item = some a then v else (l.timer a).next := by
  cases item with
  | none => rfl
  | some t =>
    by_cases ht : a = t
    · simp [setNext, modify, ht]
    · simp [setNext, modify, ht, Ne.symm ht]

theorem prev_setNext : ((l.setNext item v).timer a).prev = (l.timer a).prev := by
  cases item with
  | none => rfl
  | some t =>
    by_cases ht : a = t
    · simp [setNext, modify, ht]
    · simp [setNext, modify, ht]

theorem next_setPrev : ((l.setPrev item v).timer a).next = (l.timer a).next := by
  cases item with
  | none => rfl
  | some t =>
    by_cases ht : a = t
    · simp [setPrev, modify, ht]
    · simp [setPrev, modify, ht]

/-- Setting the link back sets this link, if there is a timer to set it in. -/
theorem prev_setPrev :
    ((l.setPrev item v).timer a).prev = if item = some a then v else (l.timer a).prev := by
  cases item with
  | none => rfl
  | some t =>
    by_cases ht : a = t
    · simp [setPrev, modify, ht]
    · simp [setPrev, modify, ht, Ne.symm ht]

/-- The head of the list is no link of a timer. -/
theorem head_setNext : (l.setNext item v).head = l.head := by
  cases item <;> rfl

theorem head_setPrev : (l.setPrev item v).head = l.head := by
  cases item <;> rfl

end

/-- Nothing but links is different. -/
structure SameTimers (l l' : TimerList) : Prop where
  fireDate : ∀ t, (l'.timer t).fireDate = (l.timer t).fireDate
  scheduled : l'.scheduled = l.scheduled

section
variable {l l' l'' : TimerList}

/-- One after the other. -/
theorem SameTimers.trans (h : SameTimers l l') (h' : SameTimers l' l'') : SameTimers l l'' :=
  ⟨fun t => (h'.fireDate t).trans (h.fireDate t), h'.scheduled.trans h.scheduled⟩

/-- A timer keeps its date. -/
theorem SameTimers.modify (l : TimerList) (t : TimerPtr) {f : Timer → Timer}
    (hf : ∀ x, (f x).fireDate = x.fireDate) : SameTimers l (l.modify t f) := by
  refine ⟨fun u => ?_, rfl⟩
  by_cases hu : u = t
  · simp [TimerList.modify, hu, hf]
  · simp [TimerList.modify, hu]

/-- Links are no dates. -/
theorem SameTimers.setNext (l : TimerList) (item v : Option TimerPtr) :
    SameTimers l (l.setNext item v) := by
  cases item with
  | none => exact ⟨fun _ => rfl, rfl⟩
  | some t => exact .modify l t (f := fun x => { x with next := v }) fun _ => rfl

theorem SameTimers.setPrev (l : TimerList) (item v : Option TimerPtr) :
    SameTimers l (l.setPrev item v) := by
  cases item with
  | none => exact ⟨fun _ => rfl, rfl⟩
  | some t => exact .modify l t (f := fun x => { x with prev := v }) fun _ => rfl

/-- Putting a timer behind another one sets links only. -/
theorem SameTimers.insertAfter (l : TimerList) (location item : TimerPtr) :
    SameTimers l (l.insertAfter location item) := by
  unfold TimerList.insertAfter
  refine SameTimers.trans (SameTimers.trans (SameTimers.trans ?_ (.setNext _ _ _)) (.setPrev _ _ _))
    (.setNext _ _ _)
  exact .setPrev l _ _

theorem SameTimers.insert (l : TimerList) (location item : TimerPtr) :
    SameTimers l (l.insert location item) := by
  unfold TimerList.insert
  refine SameTimers.trans (SameTimers.trans (SameTimers.trans ?_ (.setPrev _ _ _)) (.setPrev _ _ _))
    (.setNext _ _ _)
  exact .setNext l _ _

/-- So does taking it out. -/
theorem SameTimers.remove (l : TimerList) (item : TimerPtr) : SameTimers l (l.remove item) := by
  have h := (SameTimers.setNext l (l.timer item).prev (l.timer item).next).trans (.setPrev _
    ((l.setNext (l.timer item).prev (l.timer item).next).timer item).next
    ((l.setNext (l.timer item).prev (l.timer item).next).timer item).prev)
  unfold TimerList.remove
  dsimp only
  split_ifs
  · exact ⟨h.fireDate, h.scheduled⟩
  · exact h

end

/-! ## Insertion -/

section
variable {l : TimerList} {item location : TimerPtr} {pre rest : List TimerPtr}

/-- Behind the timer there is the new one, and behind it what was there before. -/
theorem next_insertAfter (a : TimerPtr) :
    ((l.insertAfter location item).timer a).next = if some location = some a then some item
      else if some item = some a then (l.timer location).next else (l.timer a).next := by
  unfold insertAfter
  dsimp only
  rw [next_setNext, next_setPrev, next_setNext, next_setPrev, next_setPrev]

/-- The new timer has the one that it is put behind in front of it. -/
theorem prev_insertAfter (a : TimerPtr) :
    ((l.insertAfter location item).timer a).prev =
      if (l.timer location).next = some a then some item
      else if some item = some a then some location else (l.timer a).prev := by
  unfold insertAfter
  dsimp only
  rw [prev_setNext, prev_setPrev, prev_setNext, prev_setPrev, next_setNext, if_pos rfl, next_setPrev]

/-- The head stays, since something is in front of the new timer. -/
theorem head_insertAfter : (l.insertAfter location item).head = l.head := by
  unfold insertAfter
  dsimp only
  rw [head_setNext, head_setPrev, head_setNext, head_setPrev]

/-- `ll_insert_after` puts the item behind the location. -/
theorem insertAfter_spec (h : l.Holds (pre ++ location :: rest))
    (hitem : item ∉ pre ++ location :: rest) :
    (l.insertAfter location item).Holds (pre ++ location :: item :: rest) := by
  -- the location is in the list once, and the item is not in it
  have hnot : location ∉ pre := fun hmem =>
    (List.nodup_append.1 h.nodup).2.2 location hmem location List.mem_cons_self rfl
  have hnext : (l.timer location).next = rest.head? := (h.next_eq location).trans (after_mid hnot)
  -- the list with the location taken apart
  have hsplit (t : List TimerPtr) : pre ++ location :: t = (pre ++ [location]) ++ t := by simp
  have hlast : (pre ++ [location]).getLast? = some location := by simp
  rw [hsplit] at h hitem ⊢
  have hlocation : ¬some location = some item := by
    intro heq
    exact hitem (by simp [Option.some.inj heq])
  have hrest : rest.head? ≠ some item := fun heq =>
    hitem (List.mem_append_right _ (List.mem_of_mem_head? heq))
  -- the insertion of the library, with the two neighbours of the item
  refine Represents.insert h hitem ?_ ?_ ?_
  · rw [head_insertAfter, h.head_eq]
    cases pre <;> rfl
  · intro a
    rw [next_insertAfter, hlast, hnext]
    by_cases ha : a = item
    · rw [if_pos ha, ha, if_neg hlocation, if_pos rfl]
    · have hne : ¬some item = some a := fun heq => ha (Option.some.inj heq).symm
      rw [if_neg ha, if_neg hne]
  · intro a
    rw [prev_insertAfter, hlast, hnext]
    by_cases ha : a = item
    · rw [if_pos ha, ha, if_neg hrest, if_pos rfl]
    · have hne : ¬some item = some a := fun heq => ha (Option.some.inj heq).symm
      rw [if_neg ha, if_neg hne]

/-- In front of the timer there is the new one. -/
theorem next_insert (a : TimerPtr) :
    ((l.insert location item).timer a).next =
      if (if some location = some item then some item else (l.timer location).prev) = some a
        then some item
      else if some item = some a then some location else (l.timer a).next := by
  unfold insert
  dsimp only
  rw [next_setNext, prev_setPrev, prev_setPrev, if_pos rfl, prev_setNext, next_setPrev, next_setPrev,
    next_setNext]

/-- The new timer has in front of it what was there before. -/
theorem prev_insert (a : TimerPtr) :
    ((l.insert location item).timer a).prev = if some location = some a then some item
      else if some item = some a then (l.timer location).prev else (l.timer a).prev := by
  unfold insert
  dsimp only
  rw [prev_setNext, prev_setPrev, prev_setPrev, prev_setNext, prev_setNext]

theorem head_insert : (l.insert location item).head = l.head := by
  unfold insert
  dsimp only
  rw [head_setNext, head_setPrev, head_setPrev, head_setNext]

/-- `ll_insert` puts the item before the location; `ll_prepend` makes it the first one. -/
theorem insert_spec (h : l.Holds (pre ++ location :: rest)) (hitem : item ∉ pre ++ location :: rest)
    {head : Option TimerPtr} (hhead : head = (pre ++ item :: location :: rest).head?) :
    ({ l.insert location item with head := head } : TimerList).Holds
      (pre ++ item :: location :: rest) := by
  -- the location is in the list once, and the item is not in it
  have hnot : location ∉ pre := fun hmem =>
    (List.nodup_append.1 h.nodup).2.2 location hmem location List.mem_cons_self rfl
  have hprev : (l.timer location).prev = pre.getLast? := (h.prev_eq location).trans (before_mid hnot)
  have hlocation : ¬some location = some item := by
    intro heq
    exact hitem (by simp [Option.some.inj heq])
  have hlast : pre.getLast? ≠ some item := fun heq =>
    hitem (List.mem_append_left _ (List.mem_of_mem_getLast? heq))
  -- the insertion of the library, with the two neighbours of the item
  refine Represents.insert h hitem hhead ?_ ?_
  · intro a
    show ((l.insert location item).timer a).next = _
    rw [next_insert, if_neg hlocation, hprev]
    by_cases ha : a = item
    · rw [if_pos ha, ha, if_neg hlast, if_pos rfl]
      rfl
    · have hne : ¬some item = some a := fun heq => ha (Option.some.inj heq).symm
      rw [if_neg ha, if_neg hne]
  · intro a
    show ((l.insert location item).timer a).prev = _
    rw [prev_insert, hprev]
    by_cases ha : a = item
    · rw [if_pos ha, ha, if_neg hlocation, if_pos rfl]
    · have hne : ¬some item = some a := fun heq => ha (Option.some.inj heq).symm
      rw [if_neg ha, if_neg hne]
      rfl

/-- The timer `a` is to fire before `b`. -/
def FiresBefore (l : TimerList) (a b : TimerPtr) : Prop :=
  (l.timer a).fireDate.Before (l.timer b).fireDate

instance (l : TimerList) : DecidableRel l.FiresBefore := fun a b =>
  inferInstanceAs (Decidable ((l.timer a).fireDate.Before (l.timer b).fireDate))

/-- The item is put before the location, which is the first one or not. -/
theorem insertBefore_spec (h : l.Holds (pre ++ location :: rest))
    (hitem : item ∉ pre ++ location :: rest) :
    (if l.head = some location then l.prepend item else l.insert location item).Holds
        (pre ++ item :: location :: rest) ∧
      SameTimers l (if l.head = some location then l.prepend item else l.insert location item) := by
  have hhead := h.head_eq
  -- before the first one the head changes, elsewhere it does not
  cases pre with
  | nil =>
    have hfirst : l.head = some location := hhead
    have hprepend : l.prepend item = { l.insert location item with head := some item } := by
      unfold prepend
      rw [hfirst]
    rw [if_pos hfirst, hprepend]
    exact ⟨insert_spec h hitem rfl, ⟨(SameTimers.insert l _ _).fireDate,
      (SameTimers.insert l location item).scheduled⟩⟩
  | cons b pre =>
    have hb : b ≠ location := fun heq =>
      (List.nodup_cons.1 h.nodup).1 (by simp [heq])
    have hfirst : ¬l.head = some location := by
      rw [hhead]
      exact fun heq => hb (Option.some.inj heq)
    rw [if_neg hfirst]
    refine ⟨?_, .insert l location item⟩
    have hspec := insert_spec h hitem hhead
    rwa [← head_insert] at hspec

/-- The search of `ll_sorted_insert` ends, and the item is put before the first one that is to fire
later. -/
theorem sortedInsertFrom_spec {fuel : ℕ} (h : l.Holds (pre ++ location :: rest))
    (hitem : item ∉ pre ++ location :: rest) (hfuel : rest.length < fuel) :
    ∃ l', sortedInsertFrom item fuel l location = some l' ∧
      l'.Holds (pre ++ (location :: rest).orderedInsert l.FiresBefore item) ∧ SameTimers l l' := by
  induction fuel generalizing pre location rest with
  | zero => omega
  | succ fuel ih =>
    rw [sortedInsertFrom]
    by_cases hbefore : l.FiresBefore item location
    · have hcompare : ¬smcpTimerCompareFunc (l.timer item) (l.timer location) ≥ 0 := by
        rw [smcpTimerCompareFunc_nonneg_iff, not_not]
        exact hbefore
      have hspec := insertBefore_spec h hitem
      rw [if_neg hcompare, List.orderedInsert_cons, if_pos hbefore]
      split_ifs at hspec ⊢
      · exact ⟨_, rfl, hspec⟩
      · exact ⟨_, rfl, hspec⟩
    · have hcompare : smcpTimerCompareFunc (l.timer item) (l.timer location) ≥ 0 :=
        (smcpTimerCompareFunc_nonneg_iff _ _).2 hbefore
      have hnot : location ∉ pre := fun hmem =>
        (List.nodup_append.1 h.nodup).2.2 location hmem location List.mem_cons_self rfl
      have hnext : (l.timer location).next = rest.head? :=
        (h.next_eq location).trans (after_mid hnot)
      rw [if_pos hcompare, hnext, List.orderedInsert_cons, if_neg hbefore]
      cases rest with
      | nil => exact ⟨_, rfl, insertAfter_spec h hitem, .insertAfter l location item⟩
      | cons next rest =>
        -- on to the next one
        have hsplit (t : List TimerPtr) : pre ++ location :: t = (pre ++ [location]) ++ t := by simp
        rw [hsplit] at h hitem ⊢
        exact ih h hitem (by simpa using hfuel)

/-- `ll_sorted_insert`. -/
theorem sortedInsert_spec {q : List TimerPtr} (h : l.Holds q) (hitem : item ∉ q)
    (hlen : q.length ≤ l.scheduled) :
    ∃ l', l.sortedInsert item = some l' ∧ l'.Holds (q.orderedInsert l.FiresBefore item) ∧
      SameTimers l l' := by
  unfold sortedInsert
  rw [h.head_eq]
  cases q with
  | nil =>
    refine ⟨_, rfl, ?_, ⟨fun _ => rfl, rfl⟩⟩
    have hempty : l.Holds ([] ++ []) := h
    refine Represents.insert hempty hitem rfl ?_ ?_
    · intro a
      show (l.timer a).next = _
      rw [h.next_eq]
      simp [after]
    · intro a
      show (l.timer a).prev = _
      rw [h.prev_eq]
      simp [before]
  | cons first rest =>
    have hall : l.Holds ([] ++ first :: rest) := h
    exact sortedInsertFrom_spec hall hitem (by simpa using Nat.lt_succ_of_lt hlen)

end

/-! ## Removal -/

section
variable {l : TimerList} {item : TimerPtr}

/-- No other timer changes. -/
theorem timer_modify (t : TimerPtr) (f : Timer → Timer) (a : TimerPtr) :
    (l.modify t f).timer a = if a = t then f (l.timer t) else l.timer a := by
  by_cases ha : a = t
  · rw [if_pos ha, ha]
    exact Function.update_self _ _ _
  · rw [if_neg ha]
    exact Function.update_of_ne ha _ _

/-- The timer in front of the one that is taken out gets its link. -/
theorem next_remove (a : TimerPtr) :
    ((l.remove item).timer a).next =
      if (l.timer item).prev = some a then (l.timer item).next else (l.timer a).next := by
  unfold remove
  dsimp only
  split_ifs
  all_goals
    rw [next_setPrev, next_setNext]
    simp [*]

/-- The timer behind the one that is taken out gets its link back. -/
theorem prev_remove (a : TimerPtr) :
    ((l.remove item).timer a).prev =
      if (l.timer item).next = some a then (l.timer item).prev else (l.timer a).prev := by
  have hself : ((l.setNext (l.timer item).prev (l.timer item).next).timer item).next =
      (l.timer item).next := by
    rw [next_setNext, ite_self]
  have hprev : ((l.setPrev (l.timer item).next (l.timer item).prev).timer a).prev =
      if (l.timer item).next = some a then (l.timer item).prev else (l.timer a).prev := prev_setPrev _ _ _ _
  unfold remove
  dsimp only
  rw [hself, prev_setNext]
  by_cases hhead : ((l.setNext (l.timer item).prev (l.timer item).next).setPrev (l.timer item).next
      (l.timer item).prev).head = some item
  · rw [if_pos hhead]
    show (((l.setNext _ _).setPrev _ _).timer a).prev = _
    rw [prev_setPrev, prev_setNext]
  · rw [if_neg hhead, prev_setPrev, prev_setNext]

/-- The list begins behind it, if it was the head. -/
theorem head_remove :
    (l.remove item).head = if l.head = some item then (l.timer item).next else l.head := by
  unfold remove
  dsimp only
  rw [head_setPrev, head_setNext]
  by_cases hhead : l.head = some item
  · rw [if_pos hhead, if_pos hhead]
    show (((l.setNext _ _).setPrev _ _).timer item).next = _
    rw [next_setPrev, next_setNext, ite_self]
  · rw [if_neg hhead, if_neg hhead, head_setPrev, head_setNext]

/-- `ll_remove`, and the clearing of the links that follows it. -/
theorem unlink_spec {q : List TimerPtr} (h : l.Holds q) :
    (l.unlink item).Holds (q.filter fun t => t ≠ item) := by
  -- only the two neighbours get other links, and the item gets none
  have hnext (a : TimerPtr) : ((l.unlink item).timer a).next = if a = item then none
      else if (l.timer item).prev = some a then (l.timer item).next else (l.timer a).next := by
    unfold unlink
    rw [timer_modify]
    split_ifs with ha
    · rfl
    · rw [next_remove, if_pos ‹_›]
    · rw [next_remove, if_neg ‹_›]
  have hprev (a : TimerPtr) : ((l.unlink item).timer a).prev = if a = item then none
      else if (l.timer item).next = some a then (l.timer item).prev else (l.timer a).prev := by
    unfold unlink
    rw [timer_modify]
    split_ifs with ha
    · rfl
    · rw [prev_remove, if_pos ‹_›]
    · rw [prev_remove, if_neg ‹_›]
  have hhead : (l.unlink item).head = _ := head_remove
  -- the item is taken out from between its neighbours
  by_cases hmem : item ∈ q
  · obtain ⟨pre, post, rfl⟩ := List.append_of_mem hmem
    have hnodup := h.nodup
    rw [List.nodup_middle, List.nodup_cons] at hnodup
    have hnot : item ∉ pre := fun hpre => hnodup.1 (List.mem_append_left _ hpre)
    have hfilter : (pre ++ item :: post).filter (fun t => t ≠ item) = pre ++ post := by
      rw [List.filter_append, List.filter_cons_of_neg (by simp), ← List.filter_append,
        List.filter_eq_self]
      intro t ht
      have hne : t ≠ item := fun heq => hnodup.1 (heq ▸ ht)
      simpa using hne
    have hitemNext : (l.timer item).next = post.head? := (h.next_eq item).trans (after_mid hnot)
    have hitemPrev : (l.timer item).prev = pre.getLast? := (h.prev_eq item).trans (before_mid hnot)
    rw [hitemNext, hitemPrev] at hnext hprev
    rw [hfilter]
    refine Represents.remove h ?_ hnext hprev
    rw [hhead, h.head_eq, hitemNext]
    cases pre with
    | nil => exact if_pos rfl
    | cons b pre =>
      have hb : b ≠ item := fun heq => hnot (by simp [heq])
      exact if_neg fun heq => hb (Option.some.inj heq)
  · -- a timer that is not in the list has no links
    have hfilter : q.filter (fun t => t ≠ item) = q := by
      rw [List.filter_eq_self]
      intro t ht
      have hne : t ≠ item := fun heq => hmem (heq ▸ ht)
      simpa using hne
    have hitemNext : (l.timer item).next = none := (h.next_eq item).trans (after_of_notMem hmem)
    have hitemPrev : (l.timer item).prev = none := (h.prev_eq item).trans (before_of_notMem hmem)
    rw [hfilter]
    refine ⟨?_, ?_, ?_, h.nodup⟩
    · rw [hhead, if_neg, h.head_eq]
      rw [h.head_eq]
      exact fun heq => hmem (List.mem_of_mem_head? heq)
    · intro a
      show ((l.unlink item).timer a).next = _
      rw [hnext, hitemPrev, ← h.next_eq]
      by_cases ha : a = item
      · rw [if_pos ha, ha, hitemNext]
      · rw [if_neg ha, if_neg (Option.some_ne_none a).symm]
    · intro a
      show ((l.unlink item).timer a).prev = _
      rw [hprev, hitemNext, ← h.prev_eq]
      by_cases ha : a = item
      · rw [if_pos ha, ha, hitemPrev]
      · rw [if_neg ha, if_neg (Option.some_ne_none a).symm]

/-- It is taken out if it is in the list. -/
theorem SameTimers.unlink (l : TimerList) (item : TimerPtr) : SameTimers l (l.unlink item) :=
  (SameTimers.remove l item).trans
    (.modify _ item (f := fun t => { t with next := none, prev := none }) fun _ => rfl)

/-- A timer looks scheduled exactly when it is in the list. -/
theorem isLinked_iff {q : List TimerPtr} (h : l.Holds q) : l.isLinked item = true ↔ item ∈ q := by
  rw [h.mem_iff]
  unfold isLinked
  simp [or_assoc]

/-- Links are all that matters. -/
theorem Holds.congr {l' : TimerList} {q : List TimerPtr} (h : l.Holds q) (hhead : l'.head = l.head)
    (hnext : ∀ t, (l'.timer t).next = (l.timer t).next)
    (hprev : ∀ t, (l'.timer t).prev = (l.timer t).prev) : l'.Holds q where
  head_eq := hhead.trans h.head_eq
  next_eq t := (hnext t).trans (h.next_eq t)
  prev_eq t := (hprev t).trans (h.prev_eq t)
  nodup := h.nodup

/-- The list stays when something else of a timer changes. -/
theorem Holds.modify {q : List TimerPtr} (h : l.Holds q) (timer : TimerPtr) {f : Timer → Timer}
    (hnext : ∀ x, (f x).next = x.next) (hprev : ∀ x, (f x).prev = x.prev) :
    (l.modify timer f).Holds q := by
  refine h.congr rfl (fun t => ?_) fun t => ?_
  all_goals
    rw [timer_modify]
    split_ifs with heq
    · rw [heq]
      first | exact hnext _ | exact hprev _
    · rfl

end

end TimerList

/-! ## The pending timers -/

/-- The timers that are scheduled and not yet fired or invalidated, with their dates, in the order in
which they were scheduled. -/
def pending : List TimerEvent → List (TimerPtr × Timeval)
  | [] => []
  | .scheduled timer date :: earlier =>
    (pending earlier).filter (fun x => x.1 ≠ timer) ++ [(timer, date)]
  | .invalidated timer :: earlier | .fired timer _ _ :: earlier =>
    (pending earlier).filter fun x => x.1 ≠ timer
  | .cleared _ _ :: earlier => pending earlier

/-- `q` are the timers of `p`, sorted by date, those with equal dates in the order of `p`. -/
structure SortedByDate (p q : List (TimerPtr × Timeval)) : Prop where
  perm : q.Perm p
  sorted : q.Pairwise fun x y => ¬y.2.Before x.2
  stable : ∀ date, q.filter (fun x => x.2 = date) = p.filter fun x => x.2 = date

/-- The list at `self->timers` is the list of the timers `q`. -/
structure TimerList.Queues (l : TimerList) (q : List (TimerPtr × Timeval)) : Prop where
  holds : l.Holds (q.map Prod.fst)
  fireDate : ∀ x ∈ q, (l.timer x.1).fireDate = x.2

/-- One timer more. -/
def insertByDate (x : TimerPtr × Timeval) (q : List (TimerPtr × Timeval)) :
    List (TimerPtr × Timeval) :=
  q.orderedInsert (fun x y => x.2.Before y.2) x

section
variable {p q : List (TimerPtr × Timeval)} {x : TimerPtr × Timeval}

/-- No time is before itself. -/
theorem Timeval.not_before_self (a : Timeval) : ¬a.Before a := by
  unfold Timeval.Before
  omega

/-- A list that is sorted stays so. -/
theorem sorted_insertByDate (h : q.Pairwise fun x y => ¬y.2.Before x.2) :
    (insertByDate x q).Pairwise fun x y => ¬y.2.Before x.2 := by
  induction q with
  | nil => exact List.pairwise_singleton _ _
  | cons y q ih =>
    rw [List.pairwise_cons] at h
    unfold insertByDate at ih ⊢
    rw [List.orderedInsert_cons]
    by_cases hbefore : x.2.Before y.2
    · rw [if_pos hbefore, List.pairwise_cons, List.pairwise_cons]
      refine ⟨?_, h⟩
      intro z hz hzx
      rcases List.mem_cons.1 hz with rfl | hz
      · unfold Timeval.Before at *
        omega
      · have hyz := h.1 z hz
        unfold Timeval.Before at *
        omega
    · rw [if_neg hbefore, List.pairwise_cons]
      refine ⟨?_, ih h.2⟩
      intro z hz
      rcases List.mem_cons.1 ((List.perm_orderedInsert _ x q).mem_iff.1 hz) with rfl | hz
      · exact hbefore
      · exact h.1 z hz

/-- Behind the ones with the same date. -/
theorem filter_insertByDate (h : q.Pairwise fun x y => ¬y.2.Before x.2) (date : Timeval) :
    (insertByDate x q).filter (fun y => y.2 = date) = (q ++ [x]).filter fun y => y.2 = date := by
  induction q with
  -- induction on the list, which is sorted already
  | nil => rfl
  | cons y q ih =>
    rw [List.pairwise_cons] at h
    unfold insertByDate at ih ⊢
    rw [List.orderedInsert_cons]
    -- before the head, since its date is earlier, or somewhere behind it
    by_cases hbefore : x.2.Before y.2
    · rw [if_pos hbefore]
      by_cases hx : x.2 = date
      · -- none of the others has this date
        have hnone : (y :: q).filter (fun z => z.2 = date) = [] := by
          rw [List.filter_eq_nil_iff]
          intro z hz hdate
          have hzx : z.2 = x.2 := (of_decide_eq_true hdate).trans hx.symm
          rcases List.mem_cons.1 hz with rfl | hz
          · rw [hzx] at hbefore
            exact x.2.not_before_self hbefore
          · refine h.1 z hz ?_
            rw [hzx]
            exact hbefore
        rw [List.filter_append, List.filter_cons, hnone]
        simp [hx]
      · rw [List.filter_append, List.filter_cons]
        simp [hx]
    · rw [if_neg hbefore, List.cons_append, List.filter_cons, List.filter_cons, ih h.2]

/-- The timer that is scheduled last is put behind those with its date. -/
theorem SortedByDate.insert (h : SortedByDate p q) : SortedByDate (p ++ [x]) (insertByDate x q) where
  perm := (List.perm_orderedInsert _ x q).trans
    ((h.perm.cons x).trans (List.perm_append_singleton x p).symm)
  sorted := sorted_insertByDate h.sorted
  stable date := by
    rw [filter_insertByDate h.sorted, List.filter_append, List.filter_append, h.stable]

/-- Of a sorted list every part is sorted. -/
theorem SortedByDate.filter (h : SortedByDate p q) (keep : TimerPtr × Timeval → Bool) :
    SortedByDate (p.filter keep) (q.filter keep) where
  perm := h.perm.filter keep
  sorted := h.sorted.filter keep
  stable date := by
    rw [List.filter_comm _ keep q, List.filter_comm _ keep p, h.stable]

end

section
variable {l : TimerList} {p q : List (TimerPtr × Timeval)} {timer : TimerPtr} {date : Timeval}

/-- The source compares the dates of the timers in the list, which are those of the queue. -/
theorem map_insertByDate (hdates : ∀ x ∈ q, (l.timer x.1).fireDate = x.2)
    (hdate : (l.timer timer).fireDate = date) :
    (insertByDate (timer, date) q).map Prod.fst =
      (q.map Prod.fst).orderedInsert l.FiresBefore timer := by
  induction q with
  | nil => rfl
  | cons y q ih =>
    have hiff : l.FiresBefore timer y.1 ↔ date.Before y.2 := by
      unfold TimerList.FiresBefore
      rw [hdate, hdates y List.mem_cons_self]
    have ih := ih fun x hx => hdates x (List.mem_cons_of_mem y hx)
    unfold insertByDate at ih ⊢
    rw [List.map_cons, List.orderedInsert_cons, List.orderedInsert_cons]
    by_cases hbefore : date.Before y.2
    · rw [if_pos hbefore, if_pos (hiff.2 hbefore)]
      rfl
    · rw [if_neg hbefore, if_neg (mt hiff.1 hbefore), List.map_cons, ih]

namespace TimerList.Queues

/-- A timer is in the list when it is pending. -/
theorem mem_iff (h : l.Queues q) : l.isLinked timer = true ↔ ∃ x ∈ q, x.1 = timer := by
  rw [isLinked_iff h.holds, List.mem_map]

/-- Nothing has this timer. -/
theorem ne_of_free (h : l.Queues q) (hfree : l.isLinked timer = false) :
    ∀ x ∈ q, x.1 ≠ timer := by
  intro x hx heq
  rw [h.mem_iff.2 ⟨x, hx, heq⟩] at hfree
  exact absurd hfree (by decide)

/-- A timer is scheduled, and the search for its place ends. -/
theorem schedule (h : l.Queues q) (hfree : l.isLinked timer = false)
    (hlen : q.length ≤ l.scheduled) (date : Timeval) :
    ∃ l', (l.setFireDate timer date).sortedInsert timer = some l' ∧
      l'.Queues (insertByDate (timer, date) q) ∧ l'.scheduled = l.scheduled := by
  -- the timer is not in the list, so its date is no key of it
  have hnot := h.ne_of_free hfree
  have hmem : timer ∉ q.map Prod.fst := by
    rw [List.mem_map]
    intro ⟨x, hx, heq⟩
    exact hnot x hx heq
  have htimer (t : TimerPtr) : (l.setFireDate timer date).timer t = if t = timer then
      { l.timer timer with fireDate := date } else l.timer t := timer_modify _ _ _
  -- the date is set before the search, and the links are not touched
  have hholds : (l.setFireDate timer date).Holds (q.map Prod.fst) :=
    h.holds.modify timer (fun _ => rfl) fun _ => rfl
  have hdates : ∀ x ∈ q, ((l.setFireDate timer date).timer x.1).fireDate = x.2 := by
    intro x hx
    rw [htimer, if_neg (hnot x hx)]
    exact h.fireDate x hx
  have hdate : ((l.setFireDate timer date).timer timer).fireDate = date := by
    rw [htimer, if_pos rfl]
  -- as many turns as the list is long
  have hfuel : (q.map Prod.fst).length ≤ (l.setFireDate timer date).scheduled := by
    rw [List.length_map]
    exact hlen
  obtain ⟨l', hinsert, hholds', hsame⟩ := sortedInsert_spec hholds hmem hfuel
  refine ⟨l', hinsert, ⟨?_, ?_⟩, hsame.scheduled⟩
  · rw [map_insertByDate hdates hdate]
    exact hholds'
  · intro x hx
    rw [hsame.fireDate]
    rcases List.mem_cons.1 ((List.perm_orderedInsert _ _ q).mem_iff.1 hx) with rfl | hx
    · exact hdate
    · exact hdates x hx

/-- A timer is taken out. -/
theorem unlink (h : l.Queues q) (timer : TimerPtr) :
    (l.unlink timer).Queues (q.filter fun x => x.1 ≠ timer) where
  holds := by
    have hholds : (l.unlink timer).Holds _ := unlink_spec h.holds
    rw [List.filter_map] at hholds
    exact hholds
  fireDate x hx := by
    rw [(SameTimers.unlink l timer).fireDate]
    exact h.fireDate x (List.mem_of_mem_filter hx)

/-- A timer changes, and neither its links nor the date of a timer in the list do. -/
theorem modify (h : l.Queues q) (timer : TimerPtr) {f : Timer → Timer}
    (hnext : (f (l.timer timer)).next = (l.timer timer).next)
    (hprev : (f (l.timer timer)).prev = (l.timer timer).prev)
    (hdate : l.isLinked timer = true → (f (l.timer timer)).fireDate = (l.timer timer).fireDate) :
    (l.modify timer f).Queues q where
  holds := by
    refine h.holds.congr rfl (fun t => ?_) fun t => ?_
    all_goals
      rw [timer_modify]
      split_ifs with heq
      · rw [heq]
        assumption
      · rfl
  fireDate x hx := by
    rw [timer_modify]
    split_ifs with heq
    · rw [hdate (h.mem_iff.2 ⟨x, hx, heq⟩), ← heq]
      exact h.fireDate x hx
    · exact h.fireDate x hx

end TimerList.Queues

end

/-! ## Runs -/

/-- The first to fire of the timers `p`: none has an earlier date, and of those with its date it was
scheduled first. -/
def IsFirst (p : List (TimerPtr × Timeval)) (x : TimerPtr × Timeval) : Prop :=
  (p.filter fun y => y.2 = x.2).head? = some x ∧ ∀ y ∈ p, ¬y.2.Before x.2

/-- A timer that fires is the first one, and its date is less than a millisecond ahead. -/
def TimerEvent.FiresFirst : TimerEvent → List TimerEvent → Prop
  | .fired timer date now, earlier =>
    IsFirst (pending earlier) (timer, date) ∧
      (date.sec - now.sec) * 1000000 + (date.usec - now.usec) < 1000
  | _, _ => True

/-- No timer is cleared while it is in the list, and the 32-bit clock is exact for the timers that
fire. -/
def TimerEvent.KeepsQueue : TimerEvent → Prop
  | .cleared _ linked => linked = false
  | .fired _ date now => convertTimevalToCms now date = timeLeft now date
  | _ => True

/-- The list is the list of the pending timers, and what fired was the first one. -/
structure TimerState.Ok (l : TimerState) : Prop where
  queue : ∃ q, SortedByDate (pending l.events) q ∧ l.list.Queues q
  length_le : (pending l.events).length ≤ l.list.scheduled
  fires : Along TimerEvent.FiresFirst l.events

/-- What counts as no time left is less than a millisecond. -/
theorem lt_millisecond {now date : Timeval} (hdue : convertTimevalToCms now date ≤ 0)
    (hclock : convertTimevalToCms now date = timeLeft now date) :
    (date.sec - now.sec) * 1000000 + (date.usec - now.usec) < 1000 := by
  rw [hclock] at hdue
  unfold timeLeft at hdue
  have hdiv := Int.mul_tdiv_add_tmod (date.usec - now.usec) 1000
  have hmod := Int.tmod_lt_of_pos (date.usec - now.usec) (b := 1000) (by decide)
  omega

/-- Each step of the timers keeps the queue, if it is one that should. -/
theorem TimerStep.ok {l l' : TimerState} (hstep : TimerStep l l') (hok : l.Ok)
    (hkeeps : ∀ e ∈ l'.events, e.KeepsQueue) : l'.Ok := by
  -- the list that the queue stands for, its length, and the timers that have fired
  obtain ⟨⟨q, hsorted, hqueue⟩, hlen, hfires⟩ := hok
  have hqlen : q.length ≤ l.list.scheduled := by
    rw [hsorted.perm.length_eq]
    exact hlen
  -- one case for each step of a timer
  cases hstep with
  | schedule timer date list hfree hinsert =>
    obtain ⟨list', hinsert', hqueue', hcount⟩ := hqueue.schedule hfree hqlen date
    obtain rfl : list' = list := Option.some.inj (hinsert'.symm.trans hinsert)
    have hpending : pending (.scheduled timer date :: l.events) =
        pending l.events ++ [(timer, date)] := by
      have hself : (pending l.events).filter (fun x => x.1 ≠ timer) = pending l.events := by
        rw [List.filter_eq_self]
        intro x hx
        exact decide_eq_true (hqueue.ne_of_free hfree x (hsorted.perm.mem_iff.2 hx))
      rw [pending, hself]
    refine ⟨⟨insertByDate (timer, date) q, ?_, ⟨hqueue'.holds.congr rfl (fun _ => rfl) fun _ => rfl,
      hqueue'.fireDate⟩⟩, ?_, trivial, hfires⟩
    · rw [hpending]
      exact hsorted.insert
    · rw [hpending, List.length_append]
      show _ + 1 ≤ list'.scheduled + 1
      omega
  | hang timer date hfree hinsert =>
    obtain ⟨list', hinsert', -⟩ := hqueue.schedule hfree hqlen date
    rw [hinsert] at hinsert'
    cases hinsert'
  | invalidate timer =>
    refine ⟨⟨_, hsorted.filter _, hqueue.unlink timer⟩, ?_, trivial, hfires⟩
    rw [(TimerList.SameTimers.unlink l.list timer).scheduled]
    exact (List.length_filter_le _ _).trans hlen
  | clear timer x hnext hprev hcancel =>
    have hfree : l.list.isLinked timer = false := hkeeps _ List.mem_cons_self
    have hnot : timer ∉ q.map Prod.fst := by
      rw [← TimerList.isLinked_iff hqueue.holds, hfree]
      decide
    refine ⟨⟨q, hsorted, hqueue.modify timer (f := fun _ => x) ?_ ?_ ?_⟩, hlen, trivial, hfires⟩
    · exact hnext.trans ((hqueue.holds.next_eq timer).trans (after_of_notMem hnot)).symm
    · exact hprev.trans ((hqueue.holds.prev_eq timer).trans (before_of_notMem hnot)).symm
    · intro hlinked
      rw [hfree] at hlinked
      exact absurd hlinked (by decide)
  | uncancel timer =>
    exact ⟨⟨q, hsorted, hqueue.modify timer (f := fun t => { t with cancel := none }) rfl rfl
      fun _ => rfl⟩, hlen, hfires⟩
  | fire timer now hhead hdue =>
    have hclock : convertTimevalToCms now _ = timeLeft now _ :=
      hkeeps _ (List.mem_cons_of_mem _ List.mem_cons_self)
    have hpending : pending (.invalidated timer ::
        .fired timer (l.list.timer timer).fireDate now :: l.events) =
        (pending l.events).filter fun x => x.1 ≠ timer := by
      rw [pending, pending, List.filter_filter]
      simp
    refine ⟨⟨q.filter fun x => x.1 ≠ timer, ?_, ?_⟩, ?_, trivial, ⟨?_, lt_millisecond hdue hclock⟩,
      hfires⟩
    · rw [hpending]
      exact hsorted.filter _
    · exact (hqueue.modify timer (f := fun t => { t with cancel := none }) rfl rfl
        fun _ => rfl).unlink timer
    · rw [hpending, (TimerList.SameTimers.unlink _ timer).scheduled]
      exact (List.length_filter_le _ _).trans hlen
    · -- the head of the list is the first one
      have hfirst := hqueue.holds.head_eq.symm.trans hhead
      cases q with
      | nil => cases hfirst
      | cons x q =>
        obtain rfl : x.1 = timer := Option.some.inj hfirst
        have hdate := hqueue.fireDate x List.mem_cons_self
        refine ⟨?_, fun y hy => ?_⟩
        · rw [hdate, ← hsorted.stable x.2]
          simp
        · rw [hdate]
          rcases List.mem_cons.1 (hsorted.perm.mem_iff.2 hy) with heq | hy
          · rw [heq]
            exact x.2.not_before_self
          · exact (List.pairwise_cons.1 hsorted.sorted).1 y hy

/-- It adds to the history. -/
theorem TimerStep.events_suffix {l l' : TimerState} (h : TimerStep l l') : l.events <:+ l'.events := by
  cases h with
  | fire timer now hhead hdue => exact List.suffix_append [_, _] l.events
  | hang timer date hfree hinsert => exact List.suffix_refl _
  | uncancel timer => exact List.suffix_refl _
  | _ => exact List.suffix_cons _ l.events

/-- So do all steps. -/
theorem TimerState.Ok.steps {l l' : TimerState} (hok : l.Ok) (h : Relation.ReflTransGen TimerStep l l')
    (hkeeps : ∀ e ∈ l'.events, e.KeepsQueue) : l'.Ok := by
  induction h with
  | refl => exact hok
  | tail _ hlast ih =>
    exact hlast.ok (ih fun e he => hkeeps e (hlast.events_suffix.subset he)) hkeeps

/-- What follows when a timer has been taken out of the list to fire. -/
def runTimer (hooks : Hooks) (s : Instance) : Option TimerFunc → Instance
  | some (.transactionTimeout h) => smcpInternalTransactionTimeout_ hooks s h
  | some (.user callback) => (hooks (.timer callback) s).1
  | none => s

/-- `smcp_handle_timers` does nothing, or takes the first timer out of the list, and only that one,
and runs it. -/
def FiresAtMostHead (hooks : Hooks) (s : Instance) : Prop :=
  smcpHandleTimers hooks s = s ∨
    ∃ timer s', s.timers.head = some timer ∧
      s'.timerEvents = .invalidated timer ::
        .fired timer (s.timers.timer timer).fireDate s.now :: s.timerEvents ∧
      smcpHandleTimers hooks s = runTimer hooks s' (s.timers.timer timer).callback

/-- Only the head of the list is looked at. -/
theorem firesAtMostHead (hooks : Hooks) (s : Instance) : FiresAtMostHead hooks s := by
  unfold FiresAtMostHead smcpHandleTimers
  cases hhead : s.timers.head with
  | none => exact .inl rfl
  | some timer =>
    by_cases hdue : convertTimevalToCms s.now (s.timers.timer timer).fireDate ≤ 0
    · have hfire := @invalidateTimer_fire hooks s timer
      dsimp only
      rw [if_pos hdue]
      exact .inr ⟨timer, smcpInvalidateTimer hooks _ timer, rfl,
        (congrArg Instance.timerEvents hfire).trans rfl, rfl⟩
    · exact .inl (if_neg hdue)

/-- The timer queue in every run. -/
theorem reachable_timerQueue {s : Instance} (hreach : Reachable s)
    (hkeeps : ∀ e ∈ s.timerEvents, e.KeepsQueue) :
    (∃ q, SortedByDate (pending s.timerEvents) q ∧ s.timers.Queues q) ∧
      (∀ e earlier, e :: earlier <:+ s.timerEvents → e.FiresFirst earlier) ∧
      ∀ hooks, FiresAtMostHead hooks s := by
  obtain ⟨now, random, sendResult, hacts⟩ := hreach.acts
  have hinit : (smcpCreate now random sendResult).timerState.Ok :=
    ⟨⟨[], ⟨.nil, .nil, fun _ => rfl⟩, ⟨.empty, by simp⟩⟩, Nat.zero_le _, trivial⟩
  have hok : s.timerState.Ok := hinit.steps hacts.timers hkeeps
  exact ⟨hok.queue, (along_iff _).1 hok.fires, fun hooks => firesAtMostHead hooks s⟩

instance : DecidablePred TimerEvent.KeepsQueue
  | .cleared _ linked => inferInstanceAs (Decidable (linked = false))
  | .fired _ date now => inferInstanceAs (Decidable (convertTimevalToCms now date = timeLeft now date))
  | .scheduled .. | .invalidated _ => isTrue trivial

/-- Two transactions, the timer of the first of which fires. -/
def firedRun : Instance := idleRun (fun _ => 5) (launch 0 ++ launch 1 ++ [.tick ⟨1, 0⟩, .handleTimers])

/-- A timer has fired, and others are left in order. -/
theorem reachable_timerQueue_fired :
    pending firedRun.timerEvents ≠ [] ∧ ∃ q, SortedByDate (pending firedRun.timerEvents) q ∧
      firedRun.timers.Queues q := by
  refine ⟨?_, (reachable_timerQueue (reachable_idleRun _ _) ?_).1⟩
  · decide +kernel
  · decide +kernel

/-- The first of two transactions is begun again. -/
def droppedRun : Instance := idleRun (fun _ => 5) (launch 0 ++ launch 1 ++ [.transactionBegin 0 5000])

/-- The timer of the second transaction is no longer in the list. -/
theorem timerQueue_drops :
    ¬∀ s, Reachable s → ∃ q, SortedByDate (pending s.timerEvents) q ∧ s.timers.Queues q := by
  intro hall
  obtain ⟨q, hsorted, hqueue⟩ := hall droppedRun (reachable_idleRun _ _)
  have hfirst : droppedRun.timers.head = some (.ofTransaction (.user 0)) := by decide +kernel
  have hend : (droppedRun.timers.timer (.ofTransaction (.user 0))).next = none := by decide +kernel
  have hsecond : ∃ x ∈ pending droppedRun.timerEvents, x.1 = .ofTransaction (.user 1) := by
    decide +kernel
  obtain ⟨x, hx, hx1⟩ := hsecond
  have hmem : .ofTransaction (.user 1) ∈ q.map Prod.fst :=
    List.mem_map.2 ⟨x, hsorted.perm.mem_iff.2 hx, hx1⟩
  rw [hqueue.holds.head_eq] at hfirst
  rw [hqueue.holds.next_eq] at hend
  cases hq : q.map Prod.fst with
  | nil =>
    rw [hq] at hfirst
    cases hfirst
  | cons a rest =>
    rw [hq] at hfirst hend hmem
    obtain rfl : a = _ := Option.some.inj hfirst
    rw [after, if_pos rfl, List.head?_eq_none_iff] at hend
    rw [hend] at hmem
    simp at hmem

end Smcp
