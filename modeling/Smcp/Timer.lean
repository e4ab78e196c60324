import Smcp.Instance

/-!
# Timers

`smcp-timer.c` and the list functions of `ll.h` that it uses, on the doubly linked list at
`self->timers`. A walk that is longer than the number of timers ever scheduled goes round in a
cycle; the code does not come back from it, which `fault` records.
-/

namespace Smcp

/-! ## Time -/

/-- A 32-bit signed value. -/
def int32 (n : ℤ) : ℤ := (n + 2147483648) % 4294967296 - 2147483648

/-- `convert_cms_to_timeval`, at the time `now`. -/
def convertCmsToTimeval (now : Timeval) (cms : ℤ) : Timeval :=
  let sec := now.sec + cms.tdiv 1000
  let cms := cms - cms.tdiv 1000 * 1000
  let usec := now.usec + cms.tmod 1000 * 1000
  ⟨sec + usec.tdiv 1000000, usec.tmod 1000000⟩

/-- `period_between_timevals_in_cms`. -/
def periodBetweenTimevalsInCms (lhs rhs : Timeval) : ℤ :=
  int32 (int32 (int32 (lhs.sec - rhs.sec) * 1000) + (int32 (lhs.usec - rhs.usec)).tdiv 1000)

/-- `convert_timeval_to_cms`, at the time `now`. -/
def convertTimevalToCms (now tv : Timeval) : ℤ :=
  let ret := periodBetweenTimevalsInCms tv now
  if ret < 0 then 0 else ret

/-- The time until `tv`, in milliseconds. -/
def timeLeft (now tv : Timeval) : ℤ := max 0 ((tv.sec - now.sec) * 1000 + (tv.usec - now.usec).tdiv 1000)

/-- `a` is earlier than `b`. -/
def Timeval.Before (a b : Timeval) : Prop := a.sec < b.sec ∨ a.sec = b.sec ∧ a.usec < b.usec

instance (a b : Timeval) : Decidable (a.Before b) := inferInstanceAs (Decidable (_ ∨ _ ∧ _))

/-- `smcp_timer_compare_func`. -/
def smcpTimerCompareFunc (lhs rhs : Timer) : ℤ :=
  if lhs.fireDate.sec > rhs.fireDate.sec then 1
  else if lhs.fireDate.sec < rhs.fireDate.sec then -1
  else if lhs.fireDate.usec > rhs.fireDate.usec then 1
  else if lhs.fireDate.usec < rhs.fireDate.usec then -1
  else 0

theorem smcpTimerCompareFunc_nonneg_iff (lhs rhs : Timer) :
    smcpTimerCompareFunc lhs rhs ≥ 0 ↔ ¬lhs.fireDate.Before rhs.fireDate := by
  unfold smcpTimerCompareFunc Timeval.Before
  split_ifs <;> omega

/-- The clock is exact for times that are less than 2^31 ms apart. -/
theorem convertTimevalToCms_eq {now tv : Timeval}
    (husec : -1000000 < tv.usec - now.usec ∧ tv.usec - now.usec < 1000000)
    (hrange : -2147483648 < (tv.sec - now.sec) * 1000 + (tv.usec - now.usec).tdiv 1000 ∧
      (tv.sec - now.sec) * 1000 + (tv.usec - now.usec).tdiv 1000 < 2147483648) :
    convertTimevalToCms now tv = timeLeft now tv := by
  unfold convertTimevalToCms periodBetweenTimevalsInCms timeLeft
  have hsame : int32 (tv.usec - now.usec) = tv.usec - now.usec := by
    unfold int32
    omega
  rw [hsame]
  generalize (tv.usec - now.usec).tdiv 1000 = usec at *
  generalize tv.sec - now.sec = sec at *
  have hexact : int32 (int32 (int32 sec * 1000) + usec) = sec * 1000 + usec := by
    unfold int32
    omega
  rw [hexact]
  dsimp only
  split_ifs <;> omega

/-! ## The list -/

namespace TimerList

/-- Change one timer. -/
def modify (l : TimerList) (t : TimerPtr) (f : Timer → Timer) : TimerList :=
  { l with timer := Function.update l.timer t (f (l.timer t)) }

/-- `item->next = v`, when there is an item. -/
def setNext (l : TimerList) (item v : Option TimerPtr) : TimerList :=
  match item with
  | none => l
  | some t => l.modify t fun x => { x with next := v }

/-- `item->prev = v`, when there is an item. -/
def setPrev (l : TimerList) (item v : Option TimerPtr) : TimerList :=
  match item with
  | none => l
  | some t => l.modify t fun x => { x with prev := v }

/-- `ll_insert_after`. -/
def insertAfter (l : TimerList) (location item : TimerPtr) : TimerList :=
  let l := l.setPrev (some item) (some location)
  let l := l.setNext (some item) (l.timer location).next
  let l := l.setPrev (l.timer item).next (some item)
  l.setNext (some location) (some item)

/-- `ll_insert`. -/
def insert (l : TimerList) (location item : TimerPtr) : TimerList :=
  let l := l.setNext (some item) (some location)
  let l := l.setPrev (some item) (l.timer location).prev
  let l := l.setPrev (some location) (some item)
  l.setNext (l.timer item).prev (some item)

/-- `ll_prepend`. -/
def prepend (l : TimerList) (item : TimerPtr) : TimerList :=
  let l := match l.head with
    | none => l
    | some first => l.insert first item
  { l with head := some item }

/-- The loop of `ll_sorted_insert`, and what follows it. -/
def sortedInsertFrom (item : TimerPtr) : (fuel : ℕ) → TimerList → TimerPtr → Option TimerList
  | 0, _, _ => none
  | fuel + 1, l, location =>
    if smcpTimerCompareFunc (l.timer item) (l.timer location) ≥ 0 then
      match (l.timer location).next with
      | some next => sortedInsertFrom item fuel l next
      | none => some (l.insertAfter location item)
    else if l.head = some location then some (l.prepend item)
    else some (l.insert location item)

/-- `ll_sorted_insert`. -/
def sortedInsert (l : TimerList) (item : TimerPtr) : Option TimerList :=
  match l.head with
  | some first => sortedInsertFrom item (l.scheduled + 1) l first
  | none => some { l with head := some item }

/-- `ll_remove`. -/
def remove (l : TimerList) (item : TimerPtr) : TimerList :=
  let l := l.setNext (l.timer item).prev (l.timer item).next
  let l := l.setPrev (l.timer item).next (l.timer item).prev
  if l.head = some item then { l with head := (l.timer item).next } else l

end TimerList

/-! ## Scheduling -/

/-- `smcp_timer_is_scheduled`. -/
def smcpTimerIsScheduled (s : Instance) (timer : TimerPtr) : Bool :=
  (s.timers.timer timer).next.isSome || (s.timers.timer timer).prev.isSome ||
    s.timers.head = some timer

/-- `smcp_timer_init`. -/
def smcpTimerInit (s : Instance) (timer : TimerPtr) (callback : TimerFunc) (cancel : Option ℕ) :
    Instance :=
  let s := s.logTimer (.cleared timer (smcpTimerIsScheduled s timer))
  { s with
    timers := s.timers.modify timer fun _ => { callback := some callback, cancel := cancel } }

/-- `smcp_schedule_timer`. -/
def smcpScheduleTimer (s : Instance) (timer : TimerPtr) (cms : ℤ) : Instance × ℤ :=
  if smcpTimerIsScheduled s timer then (s, smcpStatusFailure)
  else
    let fireDate := convertCmsToTimeval s.now (if cms < 0 then 0 else cms)
    let l := s.timers.modify timer fun t => { t with fireDate := fireDate }
    match l.sortedInsert timer with
    | some l =>
      (({ s with timers := { l with scheduled := l.scheduled + 1 } }).logTimer
        (.scheduled timer fireDate), smcpStatusOk)
    | none => ({ s with timers := l, fault := true }, smcpStatusFailure)

/-- `smcp_invalidate_timer`. -/
def smcpInvalidateTimer (hooks : Hooks) (s : Instance) (timer : TimerPtr) : Instance :=
  let l := (s.timers.remove timer).modify timer fun t => { t with next := none, prev := none }
  let s := ({ s with timers := l }).logTimer (.invalidated timer)
  match (l.timer timer).cancel with
  | some cancel => (hooks (.timerCancel cancel) s).1
  | none => s

/-- `SMCP_MAX_TIMEOUT`. -/
def smcpMaxTimeout : ℤ := 30 * 1000

/-- `smcp_get_timeout`. -/
def smcpGetTimeout (s : Instance) : ℤ :=
  match s.timers.head with
  | some first => max (min smcpMaxTimeout (convertTimevalToCms s.now (s.timers.timer first).fireDate)) 0
  | none => smcpMaxTimeout

end Smcp
