import Smcp.Transaction.Runs

/-!
# Notifications in every run

An observing transaction remembers the Observe value of the last notification that it handed to its
callback. `smcp_handle_response` compares the value of a new one with it, but not as a serial number.

* `reachable_observed`: the transaction remembers what was delivered last, until it starts over;
* `notifications_inOrder_iff`: notifications are delivered and skipped in the order of their values,
  exactly when the values come in an order that the comparison happens to get right.
-/

namespace Smcp

open Run

/-! ## The order of Observe values -/

/-- `v` is newer than `v'`, as values of the Observe option. -/
def NewerThan (v v' : ℕ) : Prop :=
  (v' < v ∧ v - v' < 8388608) ∨ (v < v' ∧ v' - v > 8388608)

instance (v v' : ℕ) : Decidable (NewerThan v v') := inferInstanceAs (Decidable (_ ∧ _ ∨ _ ∧ _))

/-! ## What was delivered -/

/-- The value that was delivered last to `h` since it began. -/
def lastDelivered (h : TransactionPtr) : List Event → Option ℕ
  | [] => none
  | .delivered h' v :: earlier => if h' = h then some v else lastDelivered h earlier
  | .initialized h' _ :: earlier | .began h' _ _ :: earlier =>
    if h' = h then none else lastDelivered h earlier
  | _ :: earlier => lastDelivered h earlier

/-- Since then, `h` has started over. -/
def restartedSince (h : TransactionPtr) : List Event → Bool
  | [] => false
  | .restarted h' :: earlier => if h' = h then true else restartedSince h earlier
  | .delivered h' _ :: earlier | .initialized h' _ :: earlier | .began h' _ _ :: earlier =>
    if h' = h then false else restartedSince h earlier
  | _ :: earlier => restartedSince h earlier

/-- The value that `h` remembers. -/
def observed (h : TransactionPtr) (events : List Event) : ℕ :=
  if restartedSince h events then 0 else (lastDelivered h events).getD 0

section
variable {h : TransactionPtr} {e : Event} {es events : List Event}

/-- Events of the store do not change what was delivered. -/
theorem Event.IsStore.observed_cons (hstore : e.IsStore) : observed h (e :: events) = observed h events := by
  cases e <;> first | rfl | exact absurd hstore id

theorem observed_append (hstore : ∀ e ∈ es, e.IsStore) :
    observed h (es ++ events) = observed h events := by
  induction es with
  | nil => rfl
  | cons e es ih =>
    rw [List.cons_append, (hstore e List.mem_cons_self).observed_cons,
      ih fun e' he' => hstore e' (List.mem_cons_of_mem e he')]

/-- The events with which what `h` remembers becomes 0. -/
theorem observed_zero (h' : TransactionPtr)
    (hevent : (∃ st, e = .initialized h' st) ∨ (∃ active t, e = .began h' active t) ∨
      e = .restarted h') :
    observed h (e :: events) = if h' = h then 0 else observed h events := by
  by_cases heq : h' = h
  · rcases hevent with ⟨st, rfl⟩ | ⟨active, t, rfl⟩ | rfl <;>
      simp [observed, restartedSince, lastDelivered, heq]
  · rcases hevent with ⟨st, rfl⟩ | ⟨active, t, rfl⟩ | rfl <;>
      simp [observed, restartedSince, lastDelivered, heq]

theorem observed_delivered (h' : TransactionPtr) (v : ℕ) :
    observed h (.delivered h' v :: events) = if h' = h then v else observed h events := by
  by_cases heq : h' = h
  · simp [observed, restartedSince, lastDelivered, heq]
  · simp [observed, restartedSince, lastDelivered, heq]

end

/-- One field of one transaction is set. -/
theorem lastObserve_update {life : TransactionPtr → Life} (h : TransactionPtr) (t : Life)
    (h' : TransactionPtr) :
    (Function.update life h t h').lastObserve =
      if h = h' then t.lastObserve else (life h').lastObserve := by
  by_cases heq : h = h'
  · subst heq
    rw [Function.update_self, if_pos rfl]
  · rw [Function.update_of_ne (Ne.symm heq), if_neg heq]

/-- A step that leaves the field alone. -/
theorem lastObserve_keep {life : TransactionPtr → Life} (h : TransactionPtr) {t : Life}
    (ht : t.lastObserve = (life h).lastObserve) (h' : TransactionPtr) :
    (Function.update life h t h').lastObserve = (life h').lastObserve := by
  rw [lastObserve_update, ht]
  split_ifs with heq
  · rw [heq]
  · rfl

/-- What a step leaves of it is what the history says. -/
theorem LifeStep.observed_eq {life life' : TransactionPtr → Life} {events es : List Event}
    (hstep : LifeStep life events life' es)
    (hinv : ∀ h, (life h).lastObserve = observed h events) :
    ∀ h, (life' h).lastObserve = observed h (es ++ events) := by
  intro h
  cases hstep with
  | pass h' => exact (lastObserve_keep h' (by rfl) h).trans (hinv h)
  | answer h' waits => exact (lastObserve_keep h' (by rfl) h).trans (hinv h)
  | acknowledge h' tt => exact (lastObserve_keep h' (by rfl) h).trans (hinv h)
  | backOff h' t now random random' n hpos hn => exact (lastObserve_keep h' (by rfl) h).trans (hinv h)
  | restart h' =>
    have hzero : (life h').fresh.lastObserve = 0 := rfl
    rw [lastObserve_update, hzero, hinv h]
    exact (observed_zero h' (.inr (.inr rfl))).symm
  | call h' statuscode disarm hcallback honce halways hstatus =>
    exact (lastObserve_keep h' (by rfl) h).trans (hinv h)
  | deliver h' i t ht hobserve hnew =>
    rw [lastObserve_update, hinv h]
    exact (observed_delivered h' i.observeValue).symm
  | _ => exact hinv h

/-- What a transaction remembers, in every run. -/
theorem Step.observed_eq {c c' : Core} (hstep : Step c c')
    (hinv : ∀ h, (c.life h).lastObserve = observed h c.events) :
    ∀ h, (c'.life h).lastObserve = observed h c'.events := by
  obtain ⟨es, hes, hchange⟩ := hstep.change
  rw [hes]
  generalize c'.life = life' at hchange
  cases hchange with
  | init h' t hfresh =>
    intro h
    have hzero : t.lastObserve = 0 := congrArg Life.lastObserve hfresh
    rw [lastObserve_update, hzero, hinv h]
    exact (observed_zero h' (.inl ⟨c.store, rfl⟩)).symm
  | start h' t ht es hstore =>
    intro h
    have hzero : (c.life h').fresh.lastObserve = 0 := rfl
    rw [List.append_assoc, observed_append hstore, lastObserve_update, hzero, hinv h]
    exact (observed_zero h' (.inr (.inl ⟨c.store.active h', t, rfl⟩))).symm
  | store es hstore =>
    intro h
    rw [observed_append hstore, hinv h]
  | live life es hlife => exact hlife.observed_eq hinv

/-! ## The order of notifications -/

/-- A notification that is handed to the callback is not older than the last one; one that is not
handed to it is not newer, and does not end the transaction. -/
def Event.InOrder : Event → List Event → Prop
  | .delivered h v, earlier => ∀ v' ∈ lastDelivered h earlier, ¬NewerThan v' v
  | .skipped h v ends, earlier => (∃ v' ∈ lastDelivered h earlier, ¬NewerThan v v') ∧ ends = false
  | _, _ => True

/-- A notification, compared with the last one that was delivered: it is not older, if the
transaction has started over since; else it is at most 2^23 ahead, or it is 2^23 behind and the
transaction does not end by itself. -/
def Event.KeepsOrder : Event → List Event → Prop
  | .notification h v t, earlier => ∀ v' ∈ lastDelivered h earlier,
      if restartedSince h earlier then ¬NewerThan v' v
      else (v' ≤ v ∧ v ≤ v' + 8388608) ∨
        (v' = v + 8388608 ∧ hasFlag t.flags smcpTransactionNoAutoEnd = true)
  | _, _ => True

section
variable {h : TransactionPtr} {i : Inbound} {t : Transaction} {events : List Event}

theorem isOldObservation_iff : i.isOldObservation t = true ↔
    i.observeValue + 8388608 ≤ t.lastObserve := by
  unfold Inbound.isOldObservation
  rw [Bool.and_eq_true, decide_eq_true_eq, decide_eq_true_eq]
  omega

/-- A notification that is delivered. -/
theorem deliver_inOrder_iff (ht : t.lastObserve = observed h events)
    (hnew : i.isOldObservation t = false) :
    (Event.delivered h i.observeValue).InOrder (.notification h i.observeValue t :: events) ↔
      (Event.notification h i.observeValue t).KeepsOrder events := by
  rw [Bool.eq_false_iff, ne_eq, isOldObservation_iff, ht, observed] at hnew
  show (∀ v' ∈ lastDelivered h events, ¬NewerThan v' i.observeValue) ↔ _
  refine forall₂_congr fun v' hv' => ?_
  rw [hv'] at hnew
  cases hrestarted : restartedSince h events with
  | true => simp
  | false =>
    rw [hrestarted] at hnew
    simp only [Bool.false_eq_true, if_false, Option.getD_some] at hnew ⊢
    unfold NewerThan
    omega

/-- A notification that is skipped. -/
theorem skip_inOrder_iff (ht : t.lastObserve = observed h events)
    (hold : i.isOldObservation t = true) :
    (Event.skipped h i.observeValue (endsTransaction t smcpStatusDupe)).InOrder
        (.notification h i.observeValue t :: events) ↔
      (Event.notification h i.observeValue t).KeepsOrder events := by
  rw [isOldObservation_iff, ht, observed] at hold
  -- only a transaction that remembers a value can skip one
  cases hrestarted : restartedSince h events with
  | true =>
    rw [hrestarted] at hold
    exact absurd hold (by simp)
  | false =>
    cases hlast : lastDelivered h events with
    | none =>
      rw [hrestarted, hlast] at hold
      exact absurd hold (by simp)
    | some v' =>
      rw [hrestarted, hlast] at hold
      simp only [Bool.false_eq_true, if_false, Option.getD_some] at hold
      have hends : endsTransaction t smcpStatusDupe = false ↔
          hasFlag t.flags smcpTransactionNoAutoEnd = true := by
        simp [endsTransaction, smcpStatusDupe]
      show (∃ v' ∈ lastDelivered h events, ¬NewerThan i.observeValue v') ∧ _ ↔
        ∀ v' ∈ lastDelivered h events, if restartedSince h events then _ else _
      rw [hlast, hrestarted, hends]
      simp only [Option.mem_def, Option.some.injEq, exists_eq_left', forall_eq', Bool.false_eq_true,
        if_false]
      unfold NewerThan
      constructor
      · intro hskip
        right
        exact ⟨by omega, hskip.2⟩
      · intro hkeeps
        rcases hkeeps with hahead | hbehind
        · omega
        · exact ⟨by omega, hbehind.2⟩

end

theorem Event.IsStore.inOrder {e : Event} (hstore : e.IsStore) (earlier : List Event) :
    e.InOrder earlier ∧ e.KeepsOrder earlier := by
  cases e <;> first | exact ⟨trivial, trivial⟩ | exact absurd hstore id

theorem LifeStep.inOrder_iff {life life' : TransactionPtr → Life} {events es : List Event}
    (hstep : LifeStep life events life' es)
    (hobserved : ∀ h, (life h).lastObserve = observed h events)
    (hinv : Along Event.InOrder events ↔ Along Event.KeepsOrder events) :
    Along Event.InOrder (es ++ events) ↔ Along Event.KeepsOrder (es ++ events) := by
  -- an event of another kind says nothing about the numbers
  have htrivial (e : Event) (he : ∀ l, e.InOrder l = True) (hk : ∀ l, e.KeepsOrder l = True) :
      Along Event.InOrder (e :: events) ↔ Along Event.KeepsOrder (e :: events) := by
    rw [Along, Along, he, hk, true_and, true_and, hinv]
  -- only the two steps of a notification do: it is delivered, or skipped
  cases hstep with
  | deliver h i t ht hobserve hnew =>
    have hlast : t.lastObserve = observed h events := by
      rw [← hobserved h, ← ht]
      rfl
    have hiff := deliver_inOrder_iff hlast hnew
    show True ∧ Event.InOrder _ (.notification h i.observeValue t :: events) ∧ True ∧
      Along Event.InOrder events ↔ True ∧ True ∧ Event.KeepsOrder _ events ∧
      Along Event.KeepsOrder events
    rw [hiff, hinv]
    tauto
  | skip h i t ht hobserve hold =>
    have hlast : t.lastObserve = observed h events := by
      rw [← hobserved h, ← ht]
      rfl
    have hiff := skip_inOrder_iff hlast hold
    show Event.InOrder _ (.notification h i.observeValue t :: events) ∧ True ∧
      Along Event.InOrder events ↔ True ∧ Event.KeepsOrder _ events ∧ Along Event.KeepsOrder events
    rw [hiff, hinv]
    tauto
  | _ => exact htrivial _ (fun _ => rfl) fun _ => rfl

/-- The order of notifications, step by step. -/
theorem Step.inOrder_iff {c c' : Core} (hstep : Step c c')
    (hobserved : ∀ h, (c.life h).lastObserve = observed h c.events)
    (hinv : Along Event.InOrder c.events ↔ Along Event.KeepsOrder c.events) :
    Along Event.InOrder c'.events ↔ Along Event.KeepsOrder c'.events := by
  have hskip (es : List Event) (hstore : ∀ e ∈ es, e.IsStore) (l : List Event) :
      (Along Event.InOrder (es ++ l) ↔ Along Event.KeepsOrder (es ++ l)) ↔
        (Along Event.InOrder l ↔ Along Event.KeepsOrder l) := by
    rw [along_append fun e he l => ((hstore e he).inOrder l).1,
      along_append fun e he l => ((hstore e he).inOrder l).2]
  obtain ⟨es, hes, hchange⟩ := hstep.change
  rw [hes]
  generalize c'.life = life' at hchange
  cases hchange with
  | init h t => exact and_congr_right fun _ => hinv
  | start h t ht es hstore =>
    rw [List.append_assoc, hskip es hstore]
    exact and_congr_right fun _ => hinv
  | store es hstore => exact (hskip es hstore _).2 hinv
  | live life es hlife => exact hlife.inOrder_iff hobserved hinv

/-- Notifications in every run: they are handed on and skipped in the order of their values exactly
when each comes at most 2^23 after the last one that was delivered, with the exceptions that
`Event.KeepsOrder` lists. -/
theorem notifications_inOrder_iff {s : Instance} (hreach : Reachable s) :
    (∀ e earlier, e :: earlier <:+ s.events → e.InOrder earlier) ↔
      ∀ e earlier, e :: earlier <:+ s.events → e.KeepsOrder earlier := by
  obtain ⟨now, random, sendResult, hsteps⟩ := hreach.steps
  have hinv := hsteps.invariant (P := fun _ => True)
    (fun c => (∀ h, (c.life h).lastObserve = observed h c.events) ∧
      (Along Event.InOrder c.events ↔ Along Event.KeepsOrder c.events))
    (fun _ _ hstep hinv _ => ⟨hstep.observed_eq hinv.1, hstep.inOrder_iff hinv.1 hinv.2⟩)
    ⟨fun _ => rfl, Iff.rfl⟩ fun _ _ => trivial
  rw [← along_iff, ← along_iff]
  exact hinv.2

instance (e : Event) (earlier : List Event) : Decidable (e.KeepsOrder earlier) :=
  match e with
  | .notification h v t => inferInstanceAs (Decidable (∀ v' ∈ lastDelivered h earlier,
      if restartedSince h earlier then ¬NewerThan v' v
      else (v' ≤ v ∧ v ≤ v' + 8388608) ∨
        (v' = v + 8388608 ∧ hasFlag t.flags smcpTransactionNoAutoEnd = true)))
  | .received .. | .responded .. | .drew .. | .begun .. | .initialized .. | .renamed .. | .replaced ..
  | .freed .. | .began .. | .ended .. | .deleted .. | .called .. | .acknowledged .. | .backedOff ..
  | .delivered .. | .skipped .. | .timedOut .. | .resent .. | .resendReturned .. | .restarted ..
  | .passed .. | .answered .. =>
    isTrue trivial

/-- An observing transaction with the id and token 53870, no address yet, and two notifications for
it: the ACK with the first value, and a NON with the second one. -/
def observingRun (v v' : UInt8) : Instance :=
  idleRun (fun _ => 5) [.transactionInit 0 false 2 none (some 0), .transactionBegin 0 5000,
    .process (some ⟨[0x62, 0x45, 0x6E, 0xD2, 0x6E, 0xD2, 0x61, v], peerAt 0 0, none⟩) fun _ => 0,
    .process (some ⟨[0x52, 0x45, 0x00, 0x01, 0x6E, 0xD2, 0x61, v'], peerAt 0 0, none⟩) fun _ => 0]

theorem notifications_inOrder_five_six :
    (∀ e earlier, e :: earlier <:+ (observingRun 5 6).events → e.InOrder earlier) ∧
      lastDelivered (.user 0) (observingRun 5 6).events = some 6 := by
  refine ⟨(notifications_inOrder_iff (reachable_idleRun _ _)).2 ?_, by decide +kernel⟩
  have hall : ∀ l ∈ (observingRun 5 6).events.tails, ∀ e ∈ l.head?, e.KeepsOrder l.tail := by
    decide +kernel
  intro e earlier hsuffix
  exact hall (e :: earlier) ((List.mem_tails _ _).2 hsuffix) e rfl

/-- The last event hands over the value 4, after the value 5. -/
def fourAfterFive : List Event → Bool
  | .delivered h v :: earlier => decide (v = 4 ∧ lastDelivered h earlier = some 5)
  | _ => false

/-- The value 4 comes after the value 5, and is handed to the callback. -/
theorem notifications_not_inOrder :
    ¬∀ s, Reachable s → ∀ e earlier, e :: earlier <:+ s.events → e.InOrder earlier := by
  intro hall
  have horder := hall (observingRun 5 4) (reachable_idleRun _ _)
  have hdelivered : ∃ l ∈ (observingRun 5 4).events.tails, fourAfterFive l = true := by
    decide +kernel
  obtain ⟨l, hl, hfour⟩ := hdelivered
  have hsuffix := (List.mem_tails _ _).1 hl
  unfold fourAfterFive at hfour
  split at hfour
  · rename_i h v earlier
    obtain ⟨rfl, hlast⟩ := of_decide_eq_true hfour
    exact horder _ _ hsuffix 5 hlast (by decide)
  · exact absurd hfour (by decide)

end Smcp
