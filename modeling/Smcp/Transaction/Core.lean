import Mathlib.Logic.Relation
import Smcp.Transaction.Response

/-!
# What can happen to the transactions

An abstract machine for the transactions: the store, the generator of message ids, the fields that
decide when a callback is called, and the history. `Step` lists everything that can happen to it;
each step is what the code does between two points where it may call the application.
-/

namespace Smcp

open LinkedTree

/-! ## Whole steps on the store -/

namespace TransactionStore

/-- `bt_insert`, with the transaction it replaced made inactive. -/
def insertOver (st : TransactionStore) (h : TransactionPtr) :
    TransactionStore × Option TransactionPtr :=
  let r := st.btInsert h
  match r.2 with
  | some old => (r.1.setActive old false, some old)
  | none => (r.1, none)

/-- A transaction that gets the id `msgId`, if it is active. -/
def rename (st : TransactionStore) (h : TransactionPtr) (msgId : ℕ) :
    TransactionStore × Option TransactionPtr :=
  if st.active h then ((st.btRemove (st.msgId h)).1.setMsgId h msgId).insertOver h else (st, none)

/-- A transaction that begins with the id `id`. -/
def start (st : TransactionStore) (h : TransactionPtr) (id : ℕ) :
    TransactionStore × Option TransactionPtr :=
  let st := (st.btRemove (st.msgId h)).1
  (((st.setToken h id).setMsgId h id).setActive h true).insertOver h

/-- A transaction that ends, if it is active. -/
def finish (st : TransactionStore) (h : TransactionPtr) : TransactionStore :=
  if st.active h then
    let r := (st.setActive h false).btRemove (st.msgId h)
    match r.2 with
    | some x => r.1.setActive x false
    | none => r.1
  else st

/-! Only a transaction that begins becomes active. -/

section
variable {st : TransactionStore} {h x : TransactionPtr}

theorem active_of_setActive_false (ha : (st.setActive h false).active x = true) :
    st.active x = true := by
  by_cases hx : x = h
  · simp [setActive, hx] at ha
  · simpa [setActive, hx] using ha

theorem active_of_insertOver (ha : (st.insertOver h).1.active x = true) : st.active x = true := by
  unfold insertOver at ha
  dsimp only at ha
  split at ha
  · exact @active_of_setActive_false (st.btInsert h).1 _ _ ha
  · exact ha

theorem active_of_rename {msgId : ℕ} (ha : (st.rename h msgId).1.active x = true) :
    st.active x = true := by
  unfold rename at ha
  split_ifs at ha
  · exact @active_of_insertOver ((st.btRemove (st.msgId h)).1.setMsgId h msgId) _ _ ha
  · exact ha

theorem active_of_finish (ha : (st.finish h).active x = true) : st.active x = true := by
  unfold finish at ha
  dsimp only at ha
  split_ifs at ha
  · split at ha
    · exact active_of_setActive_false (@active_of_setActive_false
        ((st.setActive h false).btRemove (st.msgId h)).1 _ _ ha)
    · exact active_of_setActive_false ha
  · exact ha

theorem active_of_clear (ha : (st.clear h).active x = true) : st.active x = true :=
  @active_of_setActive_false ((st.setMsgId h 0).setToken h 0) _ _ ha

theorem active_of_start {id : ℕ} (ha : (st.start h id).1.active x = true) :
    st.active x = true ∨ x = h := by
  have hbefore := @active_of_insertOver ((((st.btRemove (st.msgId h)).1.setToken h id).setMsgId h
    id).setActive h true) _ _ ha
  by_cases hx : x = h
  · exact .inr hx
  · left
    have hother : (Function.update st.active h true) x = true := hbefore
    rwa [Function.update_of_ne hx] at hother

end

end TransactionStore

/-! ## The machine -/

/-- The fields of a transaction that decide when it is called back, and when it sends again. -/
structure Life where
  callback : Option ResponseFunc
  flags : ℕ
  attemptCount : ℕ
  lastObserve : ℕ
  waitingForAsyncResponse : Bool

def Transaction.life (t : Transaction) : Life :=
  ⟨t.callback, t.flags, t.attemptCount, t.lastObserve, t.waitingForAsyncResponse⟩

/-- A transaction that has just begun, or starts over. -/
def Life.fresh (l : Life) : Life :=
  { l with attemptCount := 0, lastObserve := 0, waitingForAsyncResponse := false }

/-- A firing at which nothing is sent counts as an attempt, if there was none. -/
def Life.pass (l : Life) : Life :=
  { l with attemptCount := if l.attemptCount = 0 then 1 else l.attemptCount }

@[simp] theorem Life.fresh_callback (l : Life) : l.fresh.callback = l.callback := rfl

@[simp] theorem Life.fresh_flags (l : Life) : l.fresh.flags = l.flags := rfl

/-- The state of the machine. -/
structure Core where
  store : TransactionStore
  lastMsgId : ℕ
  life : TransactionPtr → Life
  events : List Event

def Instance.core (s : Instance) : Core :=
  ⟨s.store, s.lastMsgId, fun h => (s.transaction h).life, s.events⟩

/-- The history of an insertion: what was replaced is deleted. -/
def replacedEvents (life : TransactionPtr → Life) (h : TransactionPtr) :
    Option TransactionPtr → List Event
  | some old => [.deleted old (life old).callback.isSome, .replaced h old]
  | none => []

/-- The history of an end: what was found is deleted. -/
def endedEvents (life : TransactionPtr → Life) (h : TransactionPtr) :
    Option TransactionPtr → List Event
  | some x => [.deleted x (life x).callback.isSome, .ended h (some x)]
  | none => [.ended h none]

/-- The transaction whose callback the message in `i` reaches. -/
def Inbound.reaches (i : Inbound) (st : TransactionStore)
    (transaction : TransactionPtr → Transaction) : Option TransactionPtr :=
  match i.lookup st with
  | none => none
  | some h =>
    let t := transaction h
    if i.fromPeer t && !i.announcesResponse t && t.callback.isSome &&
      !(i.notifies t && i.isOldObservation t) then some h
    else none

/-- The history of a response. `i'` is the message as the callback sees it. -/
def responseEvents (i i' : Inbound) (st : TransactionStore)
    (transaction : TransactionPtr → Transaction) : List Event :=
  match i.reaches st transaction with
  | some h => [.responded h i' st (transaction h), .received i st transaction]
  | none => [.received i st transaction]

/-! ## Timeouts and callbacks -/

/-- The timeout handler is content to wait for the response. -/
def Transaction.suppressesResend (t : Transaction) : Bool :=
  t.attemptCount = 0 && t.waitingForAsyncResponse &&
    hasFlag t.flags smcpTransactionKeepalive = false

/-- The time until the expiration of the transaction, as the timeout handler takes it. -/
def Transaction.attemptCms (t : Transaction) (now : Timeval) : ℤ :=
  let cms := keepaliveCap t.flags (convertTimevalToCms now t.expiration)
  if cms ≤ 0 then 0 else cms

/-- The delay after a resend. The random source is asked twice. -/
def backOffDelay (t : Transaction) (now : Timeval) (attemptCount random random' : ℕ) : ℤ :=
  if t.attemptCms now < retransmitTimeout attemptCount random then t.attemptCms now
  else retransmitTimeout attemptCount random'

/-- The callback of a transaction with these flags is called once, and then forgotten. -/
def calledOnce (flags : ℕ) : Bool :=
  hasFlag flags smcpTransactionAlwaysInvalidate = false &&
    hasFlag flags smcpTransactionObserve = false && hasFlag flags smcpTransactionNoAutoEnd = false

/-- What can happen to the fields of the transactions, with the history it adds to `events`. -/
inductive LifeStep (life : TransactionPtr → Life) (events : List Event) :
    (TransactionPtr → Life) → List Event → Prop
  | pass (h : TransactionPtr) :
      LifeStep life events (Function.update life h (life h).pass) [.passed h]
  | answer (h : TransactionPtr) (waits : Bool) :
      LifeStep life events
        (Function.update life h
          { life h with attemptCount := 0, waitingForAsyncResponse := waits })
        [.answered h waits]
  | backOff (h : TransactionPtr) (t : Transaction) (now : Timeval) (random random' : ℕ) (n : ℕ)
      (hpos : n ≠ 0)
      (hn : n ≤ smcpTransactionMaxAttempts ∨ smcpTransactionMaxAttempts < (life h).attemptCount) :
      LifeStep life events (Function.update life h { life h with attemptCount := n })
        [.backedOff h t now (life h).attemptCount random random'
          (backOffDelay t now (life h).attemptCount random random')]
  | restart (h : TransactionPtr) :
      LifeStep life events (Function.update life h (life h).fresh) [.restarted h]
  | acknowledge (h : TransactionPtr) (tt : ℕ) :
      LifeStep life events (Function.update life h { life h with waitingForAsyncResponse := true })
        [.acknowledged h tt]
  | call (h : TransactionPtr) (statuscode : ℤ) (disarm : Bool)
      (hcallback : (life h).callback.isSome = true)
      (honce : calledOnce (life h).flags = true → disarm = true)
      (halways : hasFlag (life h).flags smcpTransactionAlwaysInvalidate = true → disarm = false)
      (hstatus : statuscode ≠ smcpStatusTransactionInvalidated ∨
        .resendReturned h statuscode ∈ events) :
      LifeStep life events
        (Function.update life h
          { life h with callback := if disarm then none else (life h).callback })
        [.called h statuscode]
  | deliver (h : TransactionPtr) (i : Inbound) (t : Transaction) (ht : t.life = life h)
      (hobserve : hasFlag t.flags smcpTransactionObserve = true)
      (hnew : i.isOldObservation t = false) :
      LifeStep life events (Function.update life h { life h with lastObserve := i.observeValue })
        [.called h i.responseStatus, .delivered h i.observeValue, .notification h i.observeValue t]
  | skip (h : TransactionPtr) (i : Inbound) (t : Transaction) (ht : t.life = life h)
      (hobserve : hasFlag t.flags smcpTransactionObserve = true)
      (hold : i.isOldObservation t = true) :
      LifeStep life events life
        [.skipped h i.observeValue (endsTransaction t smcpStatusDupe),
          .notification h i.observeValue t]
  | timeOut (h : TransactionPtr) (t : Transaction) (now : Timeval) (ht : t.life = life h) :
      LifeStep life events life [.timedOut h t now]
  | resend (h : TransactionPtr) (t : Transaction) (now : Timeval)
      (hfired : events.head? = some (.timedOut h t now)) (hcallback : t.resendCallback.isSome = true)
      (hleft : convertTimevalToCms now t.expiration > 0 ∨ t.attemptCount = 0)
      (hresend : t.suppressesResend = false) :
      LifeStep life events life [.resent h t now]
  | resendReturn (h : TransactionPtr) (status : ℤ) :
      LifeStep life events life [.resendReturned h status]

/-- The callback may be that of the transaction: observers have callbacks of the library only. -/
def CallbackFits (h : TransactionPtr) (callback : Option ResponseFunc) : Prop :=
  ∀ i f, h = .observer i → callback ≠ some (.user f)

/-- What can happen. -/
inductive Step : Core → Core → Prop
  | init (c : Core) (h : TransactionPtr) (t : Life) (hfresh : t = t.fresh)
      (hcallback : CallbackFits h t.callback) :
      Step c
        { c with
          store := c.store.clear h
          life := Function.update c.life h t
          events := .initialized h c.store :: c.events }
  | start (c : Core) (h : TransactionPtr) (r : ℕ) (t : Transaction) (ht : t.life = c.life h) :
      Step c
        { store := (c.store.start h (drawnId c.lastMsgId r)).1
          lastMsgId := drawnId c.lastMsgId r
          life := Function.update c.life h (c.life h).fresh
          events := replacedEvents c.life h (c.store.start h (drawnId c.lastMsgId r)).2 ++
            .drew (.beginning h) (c.store.btRemove (c.store.msgId h)).1 c.lastMsgId r
              (drawnId c.lastMsgId r) :: .begun h c.store :: .began h (c.store.active h) t ::
              c.events }
  | redraw (c : Core) (h : TransactionPtr) (r : ℕ) :
      Step c
        { c with
          store := (c.store.rename h (drawnId c.lastMsgId r)).1
          lastMsgId := drawnId c.lastMsgId r
          events := replacedEvents c.life h (c.store.rename h (drawnId c.lastMsgId r)).2 ++
            .drew (.renewing h) c.store c.lastMsgId r (drawnId c.lastMsgId r) :: c.events }
  | rename (c : Core) (h : TransactionPtr) (msgId : ℕ) :
      Step c
        { c with
          store := (c.store.rename h msgId).1
          events := replacedEvents c.life h (c.store.rename h msgId).2 ++
            .renamed h msgId c.store c.lastMsgId :: c.events }
  | draw (c : Core) (r : ℕ) :
      Step c
        { c with
          lastMsgId := drawnId c.lastMsgId r
          events := .drew .other c.store c.lastMsgId r (drawnId c.lastMsgId r) :: c.events }
  | finish (c : Core) (h : TransactionPtr) (hactive : c.store.active h = true) :
      Step c
        { c with
          store := c.store.finish h
          events := endedEvents c.life h
            ((c.store.setActive h false).btRemove (c.store.msgId h)).2 ++ c.events }
  | respond (c : Core) (i i' : Inbound) (transaction : TransactionPtr → Transaction)
      (hpacket : i'.packet = i.packet) (hsaddr : i'.saddr = i.saddr) :
      Step c { c with events := responseEvents i i' c.store transaction ++ c.events }
  | free (c : Core) (h : TransactionPtr) : Step c { c with events := .freed h :: c.events }
  | live (c : Core) (life : TransactionPtr → Life) (es : List Event)
      (hlife : LifeStep c.life c.events life es) :
      Step c { c with life := life, events := es ++ c.events }

/-- Runs of the machine. -/
abbrev Steps : Core → Core → Prop := Relation.ReflTransGen Step

/-- The events of timeouts and callbacks. They say nothing about the store. -/
def Event.IsLife : Event → Prop
  | .called _ _ | .acknowledged _ _ | .notification _ _ _ | .delivered _ _ | .skipped _ _ _
  | .timedOut _ _ _ | .resent _ _ _ | .resendReturned _ _ | .backedOff _ _ _ _ _ _ _
  | .restarted _ | .passed _ | .answered _ _ => True
  | _ => False

theorem LifeStep.isLife {life life' : TransactionPtr → Life} {events es : List Event}
    (h : LifeStep life events life' es) : ∀ e ∈ es, e.IsLife := by
  cases h <;> simp [Event.IsLife]

/-- The events of the store, of messages and of objects, other than those with which the life of a
transaction starts. -/
def Event.IsStore : Event → Prop
  | .received _ _ _ | .responded _ _ _ _ | .drew _ _ _ _ _ | .begun _ _ | .renamed _ _ _ _
  | .replaced _ _ | .freed _ | .ended _ _ | .deleted _ _ => True
  | _ => False

/-- What a step can do to the fields of the transactions, with the history it adds. -/
inductive Change (c : Core) : (TransactionPtr → Life) → List Event → Prop
  | init (h : TransactionPtr) (t : Life) (hfresh : t = t.fresh)
      (hcallback : CallbackFits h t.callback) :
      Change c (Function.update c.life h t) [.initialized h c.store]
  | start (h : TransactionPtr) (t : Transaction) (ht : t.life = c.life h) (es : List Event)
      (hes : ∀ e ∈ es, e.IsStore) :
      Change c (Function.update c.life h (c.life h).fresh)
        (es ++ [.began h (c.store.active h) t])
  | store (es : List Event) (hes : ∀ e ∈ es, e.IsStore) : Change c c.life es
  | live (life : TransactionPtr → Life) (es : List Event)
      (hlife : LifeStep c.life c.events life es) : Change c life es

theorem replacedEvents_isStore (life : TransactionPtr → Life) (h : TransactionPtr)
    (old : Option TransactionPtr) : ∀ e ∈ replacedEvents life h old, e.IsStore := by
  cases old <;> simp [replacedEvents, Event.IsStore]

/-- Every step is such a change. -/
theorem Step.change {c c' : Core} (h : Step c c') :
    ∃ es, c'.events = es ++ c.events ∧ Change c c'.life es := by
  -- one case for each step; most of them add one event of the store
  cases h with
  | init h t hfresh hcallback => exact ⟨_, rfl, .init h t hfresh hcallback⟩
  | start h r t ht =>
    refine ⟨_, ?_, .start h t ht (replacedEvents c.life h (c.store.start h (drawnId c.lastMsgId r)).2 ++
      [.drew (.beginning h) (c.store.btRemove (c.store.msgId h)).1 c.lastMsgId r
        (drawnId c.lastMsgId r), .begun h c.store]) ?_⟩
    · simp
    · rw [List.forall_mem_append]
      exact ⟨replacedEvents_isStore _ _ _, by simp [Event.IsStore]⟩
  | redraw h r =>
    refine ⟨replacedEvents c.life h (c.store.rename h (drawnId c.lastMsgId r)).2 ++
      [.drew (.renewing h) c.store c.lastMsgId r (drawnId c.lastMsgId r)], by simp, .store _ ?_⟩
    rw [List.forall_mem_append]
    exact ⟨replacedEvents_isStore _ _ _, by simp [Event.IsStore]⟩
  | rename h msgId =>
    refine ⟨replacedEvents c.life h (c.store.rename h msgId).2 ++
      [.renamed h msgId c.store c.lastMsgId], by simp, .store _ ?_⟩
    rw [List.forall_mem_append]
    exact ⟨replacedEvents_isStore _ _ _, by simp [Event.IsStore]⟩
  | draw r => exact ⟨[_], rfl, .store _ (by simp [Event.IsStore])⟩
  | finish h hactive =>
    refine ⟨_, rfl, .store _ ?_⟩
    unfold endedEvents
    split <;> simp [Event.IsStore]
  | respond i i' transaction hpacket hsaddr =>
    refine ⟨_, rfl, .store _ ?_⟩
    unfold responseEvents
    split <;> simp [Event.IsStore]
  | free h => exact ⟨[_], rfl, .store _ (by simp [Event.IsStore])⟩
  | live life es hlife => exact ⟨es, rfl, .live life es hlife⟩

/-- The history only grows. -/
theorem Step.events_suffix {c c' : Core} (h : Step c c') : c.events <:+ c'.events := by
  obtain ⟨es, hes, -⟩ := h.change
  rw [hes]
  exact List.suffix_append es c.events

theorem Steps.events_suffix {c c' : Core} (h : Steps c c') : c.events <:+ c'.events := by
  induction h with
  | refl => exact List.suffix_refl _
  | tail _ hlast ih => exact ih.trans hlast.events_suffix

theorem callbackFits_update {life : TransactionPtr → Life}
    (hfits : ∀ h, CallbackFits h (life h).callback) (h : TransactionPtr) {t : Life}
    (ht : CallbackFits h t.callback) :
    ∀ h', CallbackFits h' (Function.update life h t h').callback := by
  intro h'
  by_cases heq : h' = h
  · subst heq
    rw [Function.update_self]
    exact ht
  · rw [Function.update_of_ne heq]
    exact hfits h'

/-- No step gives an observer a callback of the application. -/
theorem Step.callbackFits {c c' : Core} (hstep : Step c c')
    (hfits : ∀ h, CallbackFits h (c.life h).callback) : ∀ h, CallbackFits h (c'.life h).callback := by
  obtain ⟨es, -, hchange⟩ := hstep.change
  generalize c'.life = life' at hchange
  cases hchange with
  | init h t hfresh hcallback => exact callbackFits_update hfits h hcallback
  | start h t ht es hes => exact callbackFits_update hfits h (hfits h)
  | store es hes => exact hfits
  | live life es hlife =>
    cases hlife with
    | call h statuscode disarm _ _ _ _ =>
      apply callbackFits_update hfits
      cases disarm with
      | true => exact fun _ _ _ => Option.some_ne_none _ ∘ Eq.symm
      | false => exact hfits h
    | pass h => exact callbackFits_update hfits h (hfits h)
    | answer h waits => exact callbackFits_update hfits h (hfits h)
    | backOff h t now random random' n hpos hn => exact callbackFits_update hfits h (hfits h)
    | restart h => exact callbackFits_update hfits h (hfits h)
    | acknowledge h tt => exact callbackFits_update hfits h (hfits h)
    | deliver h i t ht hobserve hnew => exact callbackFits_update hfits h (hfits h)
    | _ => exact hfits

/-- The invariant rule: what every step keeps, as long as its events are of the good kind, holds
throughout a run with good events only. -/
theorem Steps.invariant {P : Event → Prop} {c c' : Core} (h : Steps c c') (Inv : Core → Prop)
    (hstep : ∀ c c', Step c c' → Inv c → (∀ e ∈ c'.events, P e) → Inv c') (hinv : Inv c)
    (hgood : ∀ e ∈ c'.events, P e) : Inv c' := by
  induction h with
  | refl => exact hinv
  | tail _ hlast ih =>
    exact hstep _ _ hlast (ih fun e he => hgood e (hlast.events_suffix.subset he)) hgood

end Smcp
