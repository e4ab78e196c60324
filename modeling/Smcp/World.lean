import Smcp.Inbound.Finish
import Smcp.Transaction.Core

/-!
# What can happen to the instance

The parts of the instance that outlive a message, each with a machine of its own: the transactions
(`Smcp.Transaction.Core`), the timers, the table of duplicates and the observers. An `Act` is a step
of one of them.

Every function of the library does nothing but such acts, whatever the application does when it is
called (`Smcp.Transaction.Refine` and what follows); so an invariant of a part is proved once, over
the steps of its machine.
-/

namespace Smcp

/-! ## Timers -/

/-- `self->timers` with its history. -/
structure TimerState where
  list : TimerList
  events : List TimerEvent

def Instance.timerState (s : Instance) : TimerState := ⟨s.timers, s.timerEvents⟩

/-- The timer looks scheduled. -/
def TimerList.isLinked (l : TimerList) (timer : TimerPtr) : Bool :=
  (l.timer timer).next.isSome || (l.timer timer).prev.isSome || l.head = some timer

/-- The timer with the time at which it is to fire. -/
def TimerList.setFireDate (l : TimerList) (timer : TimerPtr) (fireDate : Timeval) : TimerList :=
  l.modify timer fun t => { t with fireDate := fireDate }

/-- The list without the timer. -/
def TimerList.unlink (l : TimerList) (timer : TimerPtr) : TimerList :=
  (l.remove timer).modify timer fun t => { t with next := none, prev := none }

/-- What can happen to the timers. -/
inductive TimerStep : TimerState → TimerState → Prop
  | schedule (l : TimerState) (timer : TimerPtr) (fireDate : Timeval) (list : TimerList)
      (hfree : l.list.isLinked timer = false)
      (hinsert : (l.list.setFireDate timer fireDate).sortedInsert timer = some list) :
      TimerStep l
        ⟨{ list with scheduled := list.scheduled + 1 }, .scheduled timer fireDate :: l.events⟩
  /-- The search for the place in the list does not end. -/
  | hang (l : TimerState) (timer : TimerPtr) (fireDate : Timeval)
      (hfree : l.list.isLinked timer = false)
      (hinsert : (l.list.setFireDate timer fireDate).sortedInsert timer = none) :
      TimerStep l { l with list := l.list.setFireDate timer fireDate }
  | invalidate (l : TimerState) (timer : TimerPtr) :
      TimerStep l ⟨l.list.unlink timer, .invalidated timer :: l.events⟩
  | clear (l : TimerState) (timer : TimerPtr) (x : Timer) (hnext : x.next = none)
      (hprev : x.prev = none) (hcancel : ∀ h, timer = .ofTransaction h → x.cancel = none) :
      TimerStep l
        ⟨l.list.modify timer fun _ => x, .cleared timer (l.list.isLinked timer) :: l.events⟩
  | uncancel (l : TimerState) (timer : TimerPtr) :
      TimerStep l { l with list := l.list.modify timer fun t => { t with cancel := none } }
  | fire (l : TimerState) (timer : TimerPtr) (now : Timeval) (hhead : l.list.head = some timer)
      (hdue : convertTimevalToCms now (l.list.timer timer).fireDate ≤ 0) :
      TimerStep l
        ⟨(l.list.modify timer fun t => { t with cancel := none }).unlink timer,
          .invalidated timer :: .fired timer (l.list.timer timer).fireDate now :: l.events⟩

/-! ## Duplicates -/

/-- The table of duplicates with its history. -/
structure DupeState where
  info : DupeInfo
  checks : List DupeCheck

def Instance.dupeState (s : Instance) : DupeState := ⟨s.dupeInfo, s.checks⟩

/-- What can happen to the table of duplicates. -/
inductive DupeStep : DupeState → DupeState → Prop
  | known (d : DupeState) (i : Inbound) (hknows : d.info.knows i = true) :
      DupeStep d { d with checks := i.dupeCheck true :: d.checks }
  | fresh (d : DupeState) (i : Inbound) (hknows : d.info.knows i = false) :
      DupeStep d ⟨d.info.enter i.dupeEntry, i.dupeCheck false :: d.checks⟩

/-! ## Observers -/

/-- The fields of an observer that tell whether its entry is in use. -/
structure ObserverLink where
  observable : Option ℕ
  next : ℤ
  requestLen : ℕ

def Observer.link (o : Observer) : ObserverLink := ⟨o.observable, o.next, o.asyncResponse.requestLen⟩

/-- The observer table and the observables, with their history. -/
structure ObserverState where
  link : ℕ → ObserverLink
  first : ℕ → ℤ
  last : ℕ → ℤ
  events : List ObserverEvent

def Instance.observerState (s : Instance) : ObserverState where
  link i := (s.observerTable i).link
  first context := (s.observables context).firstObserver
  last context := (s.observables context).lastObserver
  events := s.observerEvents

/-- The length that `smcp_start_async_response` leaves. -/
def startedLen (requestLen old : ℕ) : ℕ := if requestLen > asyncRequestSize then old else requestLen

namespace ObserverState

/-- `get_unused_observer_index` may take the entry. -/
def unused (o : ObserverState) (active : ℕ → Bool) (i : ℕ) : Prop :=
  (o.link i).requestLen = 0 ∧ (o.link i).next = 0 ∧ active i = false

/-- An index leads to the entry `i`. -/
def PointsTo (o : ObserverState) (i : ℕ) : Prop :=
  (∃ context, o.first context = i + 1) ∨ ∃ j, j < smcpMaxObservers ∧ (o.link j).next = i + 1

/-- Take the entry `i` into the list of the observable, for a request of the given length. -/
def register (o : ObserverState) (context i requestLen : ℕ) : ObserverState where
  link :=
    let link := if o.last context = 0 then o.link
      else Function.update o.link (o.last context - 1).toNat
        { o.link (o.last context - 1).toNat with next := i + 1 }
    Function.update link i
      { link i with observable := some context, requestLen := startedLen requestLen (link i).requestLen }
  first := Function.update o.first context (if o.last context = 0 then i + 1 else o.first context)
  last := Function.update o.last context (i + 1)
  events := .registered context i requestLen :: o.events

/-- The observer `i` registers again. -/
def renew (o : ObserverState) (i requestLen : ℕ) : ObserverState :=
  { o with
    link := Function.update o.link i
      { o.link i with requestLen := startedLen requestLen (o.link i).requestLen }
    events := .renewed i requestLen :: o.events }

/-- The request of the observer `i` is forgotten. -/
def forget (o : ObserverState) (i : ℕ) : ObserverState :=
  { o with link := Function.update o.link i { o.link i with requestLen := 0 } }

/-- The only observer of an observable is taken out of its list. -/
def releaseOnly (o : ObserverState) (context : ℕ) : ObserverState :=
  { o with
    first := Function.update o.first context 0
    last := Function.update o.last context 0 }

end ObserverState

/-- The observers whose transactions are active. -/
def Core.activeObservers (c : Core) (i : ℕ) : Bool := c.store.active (.observer i)

/-- The end of the transaction of the observer took another transaction out of the store. -/
def Core.EndedAnother (c : Core) (i : ℕ) : Prop :=
  ∃ x, x ≠ .observer i ∧ .ended (.observer i) (some x) ∈ c.events

/-- What can happen to the observers, while the transactions are in the state `c`. What becomes of a
list with several observers is left open. -/
inductive ObserverStep (c : Core) : ObserverState → ObserverState → Prop
  | register (o : ObserverState) (context i requestLen : ℕ) (hi : i < smcpMaxObservers)
      (hunused : o.unused c.activeObservers i) :
      ObserverStep c o (o.register context i requestLen)
  | renew (o : ObserverState) (i requestLen : ℕ) (hi : i < smcpMaxObservers)
      (hpoints : o.PointsTo i) : ObserverStep c o (o.renew i requestLen)
  | forget (o : ObserverState) (i : ℕ) (hfree : (o.link i).observable = none) :
      ObserverStep c o (o.forget i)
  | release (o o' : ObserverState) (context i : ℕ)
      (hended : c.activeObservers i = false ∨ c.EndedAnother i)
      (hevents : o'.events =
        .released context i (o.first context) (o.last context) :: o.events)
      (honly : o.first context = i + 1 → o.last context = i + 1 →
        o' = { (o.releaseOnly context).forget i with events := o'.events }) :
      ObserverStep c o o'

/-! ## The world -/

/-- Everything that outlives a message. -/
structure World where
  core : Core
  timers : TimerState
  dupes : DupeState
  observers : ObserverState

def Instance.world (s : Instance) : World := ⟨s.core, s.timerState, s.dupeState, s.observerState⟩

/-- A step of one of the machines. The transaction of an observer begins only while an index leads
to the observer. -/
inductive Act : World → World → Prop
  | core (w : World) (c : Core) (hstep : Step w.core c)
      (hactive : ∀ i, c.activeObservers i = true →
        w.core.activeObservers i = true ∨ w.observers.PointsTo i) :
      Act w { w with core := c }
  | timers (w : World) (l : TimerState) (hstep : TimerStep w.timers l) : Act w { w with timers := l }
  | dupes (w : World) (d : DupeState) (hstep : DupeStep w.dupes d) : Act w { w with dupes := d }
  | observers (w : World) (o : ObserverState)
      (hstep : ObserverStep w.core w.observers o) :
      Act w { w with observers := o }

abbrev Acts : World → World → Prop := Relation.ReflTransGen Act

section
variable {w w' : World}

/-- What the transactions do. -/
theorem Acts.core (h : Acts w w') : Steps w.core w'.core := by
  induction h with
  | refl => exact .refl
  | tail _ hact ih =>
    cases hact with
    | core c hstep => exact ih.tail hstep
    | timers l hstep => exact ih
    | dupes d hstep => exact ih
    | observers o hstep => exact ih

/-- What the timers do. -/
theorem Acts.timers (h : Acts w w') : Relation.ReflTransGen TimerStep w.timers w'.timers := by
  induction h with
  | refl => exact .refl
  | tail _ hact ih =>
    cases hact with
    | core c hstep => exact ih
    | timers l hstep => exact ih.tail hstep
    | dupes d hstep => exact ih
    | observers o hstep => exact ih

/-- What the table of duplicates does. -/
theorem Acts.dupes (h : Acts w w') : Relation.ReflTransGen DupeStep w.dupes w'.dupes := by
  induction h with
  | refl => exact .refl
  | tail _ hact ih =>
    cases hact with
    | core c hstep => exact ih
    | timers l hstep => exact ih
    | dupes d hstep => exact ih.tail hstep
    | observers o hstep => exact ih

end

end Smcp
