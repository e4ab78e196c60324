import Smcp.Lib.Congruential
import Smcp.Transaction.Store

/-!
# Message ids

The generator of `smcp_get_next_msg_id` goes through all 65536 ids, but it starts at a random place
again whenever it has come to 0. As long as it has not, the ids and tokens of the active
transactions are behind it (`IdsOk`), and the next id is a new one.
-/

namespace Smcp

open Congruential

theorem nextMsgId_lt (x : ℕ) : nextMsgId x < 65536 := Nat.mod_lt _ (by decide)

/-- The id `x` was drawn not later than `y`, since the generator was last at 0. -/
def DrawnBefore (x y : ℕ) : Prop := Precedes 23873 41 16 x y

theorem drawnBefore_self {x : ℕ} (hx : x < 65536) (h0 : x ≠ 0) : DrawnBefore x x :=
  precedes_self (by decide) (by decide) (by decide) hx h0

theorem DrawnBefore.next_ne {x y : ℕ} (h : DrawnBefore x y) : x ≠ nextMsgId y :=
  Precedes.next_ne h (by decide) (by decide) (by decide)

theorem DrawnBefore.next {x y : ℕ} (h : DrawnBefore x y) (h0 : nextMsgId y ≠ 0) :
    DrawnBefore x (nextMsgId y) :=
  Precedes.next h (by decide) (by decide) h0

/-! ## Identities of transactions -/

/-- The id and the token of the transaction were drawn not later than `last`. -/
def TransactionStore.Behind (st : TransactionStore) (last : ℕ) (h : TransactionPtr) : Prop :=
  DrawnBefore (st.msgId h) last ∧ DrawnBefore (st.token h) last

/-- Neither the id nor the token of the transaction is `id`. -/
def TransactionStore.Avoids (st : TransactionStore) (id : ℕ) (h : TransactionPtr) : Prop :=
  st.msgId h ≠ id ∧ st.token h ≠ id

/-- Unless the generator is at 0, the identities of the active transactions are behind it. -/
structure IdsOk (st : TransactionStore) (lastMsgId : ℕ) : Prop where
  lt : lastMsgId < 65536
  behind : lastMsgId ≠ 0 → ∀ h, st.active h = true → st.Behind lastMsgId h

section
variable {st : TransactionStore} {lastMsgId msgId r : ℕ} {h : TransactionPtr}

theorem drawnId_lt (lastMsgId r : ℕ) : drawnId lastMsgId r < 65536 := nextMsgId_lt _

theorem drawnId_of_ne (hlast : lastMsgId ≠ 0) : drawnId lastMsgId r = nextMsgId lastMsgId := by
  rw [drawnId, if_neg hlast]

/-- The drawn id is new, and what was behind the generator still is. -/
theorem IdsOk.draw (hok : IdsOk st lastMsgId) (hlast : lastMsgId ≠ 0) (ha : st.active h = true) :
    st.Avoids (drawnId lastMsgId r) h ∧
      (drawnId lastMsgId r ≠ 0 → st.Behind (drawnId lastMsgId r) h) := by
  obtain ⟨hid, htoken⟩ := hok.behind hlast h ha
  rw [drawnId_of_ne hlast]
  exact ⟨⟨hid.next_ne, htoken.next_ne⟩, fun h0 => ⟨hid.next h0, htoken.next h0⟩⟩

/-! ## What the steps do to identities -/

/-- An insertion that replaces nothing leaves the identities alone. -/
theorem insertOver_fields (hnone : (st.insertOver h).2 = none) :
    (st.insertOver h).1.active = st.active ∧ (st.insertOver h).1.msgId = st.msgId ∧
      (st.insertOver h).1.token = st.token := by
  have hr : (st.btInsert h).2 = none := by
    unfold TransactionStore.insertOver at hnone
    dsimp only at hnone
    split at hnone
    · simp at hnone
    · assumption
  have heq : st.insertOver h = ((st.btInsert h).1, none) := by
    unfold TransactionStore.insertOver
    simp only [hr]
  rw [heq]
  exact ⟨rfl, rfl, rfl⟩

theorem start_fields (hnone : (st.start h msgId).2 = none) :
    (st.start h msgId).1.active = Function.update st.active h true ∧
      (st.start h msgId).1.msgId = Function.update st.msgId h msgId ∧
      (st.start h msgId).1.token = Function.update st.token h msgId := by
  unfold TransactionStore.start at hnone ⊢
  exact insertOver_fields hnone

theorem rename_fields (ha : st.active h = true) (hnone : (st.rename h msgId).2 = none) :
    (st.rename h msgId).1.active = st.active ∧
      (st.rename h msgId).1.msgId = Function.update st.msgId h msgId ∧
      (st.rename h msgId).1.token = st.token := by
  unfold TransactionStore.rename at hnone ⊢
  rw [if_pos ha] at hnone ⊢
  exact insertOver_fields hnone

theorem finish_fields (a : TransactionPtr) (ha : (st.finish h).active a = true) :
    st.active a = true ∧ (st.finish h).msgId = st.msgId ∧ (st.finish h).token = st.token := by
  have hupdate {f : TransactionPtr → Bool} {b : TransactionPtr}
      (hf : Function.update f b false a = true) : f a = true := by
    by_cases hab : a = b
    · simp [hab] at hf
    · rwa [Function.update_of_ne hab] at hf
  unfold TransactionStore.finish at ha ⊢
  split_ifs at ha ⊢ with hactive
  · revert ha
    dsimp only
    split
    · exact fun ha => ⟨hupdate (hupdate ha), rfl, rfl⟩
    · exact fun ha => ⟨hupdate ha, rfl, rfl⟩
  · exact ⟨ha, rfl, rfl⟩

theorem IdsOk.start (hok : IdsOk st lastMsgId)
    (hlast : lastMsgId ≠ 0 ∨ ∀ h', st.active h' = true → h' = h)
    (hnone : (st.start h (drawnId lastMsgId r)).2 = none) :
    IdsOk (st.start h (drawnId lastMsgId r)).1 (drawnId lastMsgId r) := by
  obtain ⟨hactive, hid, htoken⟩ := start_fields hnone
  refine ⟨drawnId_lt _ _, fun h0 a ha => ?_⟩
  rw [TransactionStore.Behind, hid, htoken]
  by_cases hah : a = h
  · rw [hah, Function.update_self, Function.update_self]
    exact ⟨drawnBefore_self (drawnId_lt _ _) h0, drawnBefore_self (drawnId_lt _ _) h0⟩
  · rw [hactive, Function.update_of_ne hah] at ha
    rw [Function.update_of_ne hah, Function.update_of_ne hah]
    rcases hlast with hlast | honly
    · exact (hok.draw hlast ha).2 h0
    · exact absurd (honly a ha) hah

theorem IdsOk.redraw (hok : IdsOk st lastMsgId)
    (hlast : lastMsgId ≠ 0 ∨ ∀ h', st.active h' = false)
    (hnone : (st.rename h (drawnId lastMsgId r)).2 = none) :
    IdsOk (st.rename h (drawnId lastMsgId r)).1 (drawnId lastMsgId r) := by
  refine ⟨drawnId_lt _ _, fun h0 a ha => ?_⟩
  -- the transaction is renamed only while it is active
  by_cases hh : st.active h = true
  · obtain ⟨hactive, hid, htoken⟩ := rename_fields hh hnone
    rw [hactive] at ha
    rw [TransactionStore.Behind, hid, htoken]
    rcases hlast with hlast | hidle
    · have hbehind := (hok.draw (r := r) hlast ha).2 h0
      by_cases hah : a = h
      · subst hah
        rw [Function.update_self]
        exact ⟨drawnBefore_self (drawnId_lt _ _) h0, hbehind.2⟩
      · rw [Function.update_of_ne hah]
        exact hbehind
    · simp [hidle] at ha
  · have heq : (st.rename h (drawnId lastMsgId r)).1 = st := by
      unfold TransactionStore.rename
      rw [if_neg hh]
    rw [heq] at ha ⊢
    rcases hlast with hlast | hidle
    · exact (hok.draw hlast ha).2 h0
    · simp [hidle] at ha

theorem IdsOk.rename (hok : IdsOk st lastMsgId) (hlast : st.active h = true → msgId = lastMsgId)
    (hnone : (st.rename h msgId).2 = none) : IdsOk (st.rename h msgId).1 lastMsgId := by
  refine ⟨hok.lt, fun h0 a ha => ?_⟩
  by_cases hh : st.active h = true
  · obtain ⟨hactive, hid, htoken⟩ := rename_fields hh hnone
    rw [hactive] at ha
    rw [TransactionStore.Behind, hid, htoken]
    by_cases hah : a = h
    · subst hah
      rw [Function.update_self, hlast hh]
      exact ⟨drawnBefore_self hok.lt h0, (hok.behind h0 _ ha).2⟩
    · rw [Function.update_of_ne hah]
      exact hok.behind h0 a ha
  · have heq : (st.rename h msgId).1 = st := by
      unfold TransactionStore.rename
      rw [if_neg hh]
    rw [heq] at ha ⊢
    exact hok.behind h0 a ha

/-! ## Runs -/

/-- The event does not endanger the identities. An id may be drawn when the generator is not at 0,
or when nothing is active that keeps an older identity; the application gives a transaction no other
id than the last one drawn. For the store, a transaction is initialised when it is not active, and
begins when no other active transaction has the id it had before. -/
def Event.KeepsIds : Event → Prop
  | .initialized h st => st.active h = false
  | .begun h st => st.NoOther h (st.msgId h)
  | .drew (.beginning h) st lastMsgId _ _ => lastMsgId ≠ 0 ∨ ∀ h', st.active h' = true → h' = h
  | .drew (.renewing _) st lastMsgId _ _ => lastMsgId ≠ 0 ∨ ∀ h', st.active h' = false
  | .drew .other st lastMsgId _ _ => lastMsgId ≠ 0 ∨ ∀ h', st.active h' = false
  | .renamed h msgId st lastMsgId => st.NoOther h msgId ∧ (st.active h = true → msgId = lastMsgId)
  | _ => True

/-- An id that is drawn for a transaction is neither the id nor the token of another active one,
and no transaction takes the place of another one in the store. -/
def Event.DrawsFresh : Event → Prop
  | .drew (.beginning h) st _ _ id => ∀ h', h' ≠ h → st.active h' = true → st.Avoids id h'
  | .drew (.renewing h) st _ _ id => ∀ h', h' ≠ h → st.active h' = true → st.Avoids id h'
  | .replaced _ _ => False
  | _ => True

/-- The invariant of the runs. -/
structure FreshOk (c : Core) : Prop where
  store : StoreOk c.store
  ids : IdsOk c.store c.lastMsgId
  fresh : ∀ e ∈ c.events, e.DrawsFresh

theorem FreshOk.step {c c' : Core} (hstep : Step c c') (hok : FreshOk c)
    (hgood : ∀ e ∈ c'.events, e.KeepsIds) : FreshOk c' := by
  obtain ⟨hstore, hids, hfresh⟩ := hok
  -- one case for each step; the ids of the transactions that are active stay apart
  cases hstep with
  | init h =>
    have hinactive : c.store.active h = false := hgood (.initialized h c.store) (by simp)
    refine ⟨hstore.clear hinactive, ⟨hids.lt, fun h0 a ha => ?_⟩, ?_⟩
    · have hah : a ≠ h := by
        rintro rfl
        simp [TransactionStore.clear, TransactionStore.setActive] at ha
      have hact : c.store.active a = true := by
        simpa [TransactionStore.clear, TransactionStore.setActive, TransactionStore.setToken,
          TransactionStore.setMsgId, hah] using ha
      simpa [TransactionStore.Behind, TransactionStore.clear, TransactionStore.setActive,
        TransactionStore.setToken, TransactionStore.setMsgId, hah] using hids.behind h0 a hact
    · simpa [Event.DrawsFresh] using hfresh
  | start h r =>
    set id := drawnId c.lastMsgId r with hid
    have hown : c.store.NoOther h (c.store.msgId h) := hgood (.begun h c.store) (by simp)
    have hlast : c.lastMsgId ≠ 0 ∨ ∀ h', c.store.active h' = true → h' = h :=
      hgood (.drew (.beginning h) (c.store.btRemove (c.store.msgId h)).1 c.lastMsgId r id) (by simp)
    have havoid : ∀ h', h' ≠ h → c.store.active h' = true → c.store.Avoids id h' := by
      intro h' hne ha
      rcases hlast with hlast | honly
      · exact (hids.draw hlast ha).1
      · exact absurd (honly h' ha) hne
    obtain ⟨hstore', hnone⟩ := hstore.start id hown fun h' hne ha => (havoid h' hne ha).1
    refine ⟨hstore', hids.start hlast hnone, ?_⟩
    simp only [hnone, replacedEvents, List.nil_append, List.forall_mem_cons]
    exact ⟨havoid, trivial, trivial, hfresh⟩
  | redraw h r =>
    set id := drawnId c.lastMsgId r with hid
    have hlast : c.lastMsgId ≠ 0 ∨ ∀ h', c.store.active h' = false :=
      hgood (.drew (.renewing h) c.store c.lastMsgId r id) (by simp)
    have havoid : ∀ h', h' ≠ h → c.store.active h' = true → c.store.Avoids id h' := by
      intro h' hne ha
      rcases hlast with hlast | hidle
      · exact (hids.draw hlast ha).1
      · simp [hidle] at ha
    obtain ⟨hstore', hnone⟩ := hstore.rename (h := h) id
      fun h' hne ha => (havoid h' hne ha).1
    refine ⟨hstore', hids.redraw hlast hnone, ?_⟩
    simp only [hnone, replacedEvents, List.nil_append, List.forall_mem_cons]
    exact ⟨havoid, hfresh⟩
  | rename h msgId =>
    obtain ⟨hno, hlast⟩ : c.store.NoOther h msgId ∧
        (c.store.active h = true → msgId = c.lastMsgId) :=
      hgood (.renamed h msgId c.store c.lastMsgId) (by simp)
    obtain ⟨hstore', hnone⟩ := hstore.rename msgId hno
    refine ⟨hstore', hids.rename hlast hnone, ?_⟩
    simp only [hnone, replacedEvents, List.nil_append, List.forall_mem_cons]
    exact ⟨trivial, hfresh⟩
  | draw r =>
    have hlast : c.lastMsgId ≠ 0 ∨ ∀ h', c.store.active h' = false :=
      hgood (.drew .other c.store c.lastMsgId r (drawnId c.lastMsgId r)) (by simp)
    refine ⟨hstore, ⟨drawnId_lt _ _, fun h0 a ha => ?_⟩, ?_⟩
    · rcases hlast with hlast | hidle
      · exact (hids.draw hlast ha).2 h0
      · simp [hidle] at ha
    · simpa [Event.DrawsFresh] using hfresh
  | finish h =>
    refine ⟨hstore.finish h, ⟨hids.lt, fun h0 a ha => ?_⟩, ?_⟩
    · obtain ⟨hact, hid, htoken⟩ := finish_fields a ha
      rw [TransactionStore.Behind, hid, htoken]
      exact hids.behind h0 a hact
    · rw [List.forall_mem_append]
      refine ⟨?_, hfresh⟩
      unfold endedEvents
      split <;> simp [Event.DrawsFresh]
  | respond i i' transaction hpacket hsaddr =>
    refine ⟨hstore, hids, fun e he => ?_⟩
    rcases List.mem_append.1 he with he | he
    · unfold responseEvents at he
      split at he <;> simp only [List.mem_cons, List.not_mem_nil, or_false] at he
      · rcases he with rfl | rfl <;> trivial
      · rw [he]
        trivial
    · exact hfresh e he
  | free h => exact ⟨hstore, hids, by simpa [Event.DrawsFresh] using hfresh⟩
  | live life es hlife =>
    refine ⟨hstore, hids, ?_⟩
    rw [List.forall_mem_append]
    refine ⟨fun e he => ?_, hfresh⟩
    have hkind := hlife.isLife e he
    cases e <;> trivial

end

end Smcp
