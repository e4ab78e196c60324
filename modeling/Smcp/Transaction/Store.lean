import Mathlib.Data.List.Pairwise
import Smcp.Transaction.Core

/-!
# The transaction store

`Stores st t`: the links of the store are those of the search tree `t`, ordered by `msg_id`, and no
other transaction has links. `StoreOk` adds that the transactions in the tree are the active ones.

* `Stores.btRemove`, `Stores.btInsert`, `Stores.findViaMsgId`: the tree functions on such a store;
* `StoreOk.step`: every step of the machine keeps `StoreOk`, if its events are safe.
-/

namespace Smcp

open LinkedTree

namespace TransactionStore

variable {st : TransactionStore} {msgId : ℕ} {h : TransactionPtr}

/-- The comparison gives 0 if the id is the same. -/
theorem compareMsgId_eq_zero : st.compareMsgId msgId h = 0 ↔ st.msgId h = msgId := by
  unfold compareMsgId
  split_ifs <;> simp <;> omega

/-- It is negative if the transaction has the smaller id. -/
theorem compareMsgId_neg : st.compareMsgId msgId h < 0 ↔ st.msgId h < msgId := by
  unfold compareMsgId
  split_ifs <;> omega

/-- It is positive if the transaction has the greater id. -/
theorem compareMsgId_pos : 0 < st.compareMsgId msgId h ↔ msgId < st.msgId h := by
  unfold compareMsgId
  split_ifs <;> omega

end TransactionStore

/-- The store holds the tree `t` and nothing else. -/
structure Stores (st : TransactionStore) (t : BinaryTree TransactionPtr) : Prop where
  rep : Rep st.links none st.links.root t
  sorted : (inorder t).Pairwise fun a b => st.msgId a < st.msgId b
  clear : ∀ h, h ∉ inorder t → st.links.lhs h = none ∧ st.links.rhs h = none ∧
    st.links.parent h = none
  fuel : (inorder t).length ≤ st.inserted

section
variable {st st' : TransactionStore} {t : BinaryTree TransactionPtr} {msgId : ℕ}
  {h : TransactionPtr}

/-- No transaction is in the tree twice. -/
theorem Stores.nodup (hs : Stores st t) : (inorder t).Nodup :=
  hs.sorted.imp fun hlt heq => by simp [heq] at hlt

/-- The tree can be searched for an id. -/
theorem Stores.searchable (hs : Stores st t) (msgId : ℕ) :
    Searchable (st.compareMsgId msgId) (inorder t) := by
  refine hs.sorted.imp fun {a b} hlt hle => ?_
  have hge : ¬st.msgId a < msgId := fun hneg => by
    have := TransactionStore.compareMsgId_neg.2 hneg
    omega
  rw [TransactionStore.compareMsgId_pos]
  omega

/-- Transactions in the store have different ids. -/
theorem Stores.msgId_inj (hs : Stores st t) {a b : TransactionPtr} (ha : a ∈ inorder t)
    (hb : b ∈ inorder t) (heq : st.msgId a = st.msgId b) : a = b := by
  by_contra hne
  have hsymm : Std.Symm fun a b => st.msgId a ≠ st.msgId b := ⟨fun _ _ h => h.symm⟩
  have hdiff : (inorder t).Pairwise fun a b => st.msgId a ≠ st.msgId b :=
    hs.sorted.imp fun hlt => hlt.ne
  exact hdiff.forall ha hb hne heq

/-- What a lookup by id finds. -/
theorem Stores.find?_eq (hs : Stores st t) (ha : h ∈ inorder t) :
    ((inorder t).find? fun a => st.compareMsgId (st.msgId h) a = 0) = some h := by
  rcases hf : (inorder t).find? fun a => st.compareMsgId (st.msgId h) a = 0 with _ | b
  · rw [List.find?_eq_none] at hf
    exact absurd (TransactionStore.compareMsgId_eq_zero.2 rfl) (by simpa using hf h ha)
  · have hb := List.find?_some hf
    rw [decide_eq_true_eq, TransactionStore.compareMsgId_eq_zero] at hb
    rw [hs.msgId_inj (List.mem_of_find?_eq_some hf) ha hb]

/-- What is found is the first transaction with the id. -/
theorem Stores.findViaMsgId_eq (hs : Stores st t) :
    st.findViaMsgId msgId = (inorder t).find? fun a => st.compareMsgId msgId a = 0 := by
  have hfuel := hs.fuel
  rw [TransactionStore.findViaMsgId, btFind_eq hs.rep (by omega), find_eq_find? (hs.searchable msgId)]

/-- Every transaction of the tree is found by its id. -/
theorem Stores.findViaMsgId (hs : Stores st t) (ha : h ∈ inorder t) :
    st.findViaMsgId (st.msgId h) = some h := by
  rw [hs.findViaMsgId_eq, hs.find?_eq ha]

/-- The walk of `smcp_transaction_find_via_token` looks at the rest of the tree from left to
right. -/
theorem Stores.findViaTokenFrom_eq (hs : Stores st t) {before after : List TransactionPtr}
    {token fuel : ℕ} (hsplit : inorder t = before ++ after) (hfuel : after.length < fuel) :
    st.findViaTokenFrom token fuel after.head? = after.find? fun a => st.token a = token := by
  induction fuel generalizing before after with
  | zero => omega
  | succ fuel ih =>
    cases after with
    | nil => rfl
    | cons a after =>
      have hinserted := hs.fuel
      have hnext : btNext st.links (st.inserted + 1) a = after.head? :=
        btNext_eq hs.rep hs.nodup (by omega) hsplit
      rw [List.length_cons] at hfuel
      rw [List.head?_cons, TransactionStore.findViaTokenFrom, List.find?_cons]
      by_cases htoken : st.token a = token
      · simp [htoken]
      · rw [if_pos htoken, hnext, ih (hsplit.trans (List.append_cons before a after)) (by omega)]
        simp [htoken]

/-- By its token, the first one is found. -/
theorem Stores.findViaToken_eq (hs : Stores st t) (token : ℕ) :
    st.findViaToken token = (inorder t).find? fun a => st.token a = token := by
  have hinserted := hs.fuel
  have hfirst : st.links.root.map (btFirst st.links (st.inserted + 1)) = (inorder t).head? := by
    cases hroot : st.links.root with
    | none =>
      have htnil : t = .nil := (rep_none_iff hs.rep).1 hroot
      rw [htnil]
      rfl
    | some a =>
      have hrep := hs.rep
      rw [hroot] at hrep
      exact (btFirst_eq hrep (hinserted.trans (Nat.le_succ st.inserted))).symm
  rw [TransactionStore.findViaToken, hfirst]
  exact hs.findViaTokenFrom_eq (List.nil_append _).symm (by omega)

/-- `bt_remove` takes the transaction with the given id out. -/
theorem Stores.btRemove (hs : Stores st t) (msgId : ℕ) :
    ∃ t', Stores (st.btRemove msgId).1 t' ∧
      (inorder t' = (inorder t).filter fun a => st.msgId a ≠ msgId) ∧
      (st.btRemove msgId).2 = (inorder t).find? fun a => st.compareMsgId msgId a = 0 := by
  have hfuel := hs.fuel
  have hsearch := hs.searchable msgId
  -- the contract of the tree's own operation, at the order of the ids
  obtain ⟨hrep, hfound, hcleared, hout⟩ := btRemove_spec (st.compareMsgId msgId) hs.rep
    hs.nodup (hfuel.trans (Nat.le_succ st.inserted))
  have hinorder : inorder (removeAt (st.compareMsgId msgId) t) =
      (inorder t).filter fun a => st.msgId a ≠ msgId := by
    rw [inorder_removeAt hsearch]
    refine List.filter_congr fun a _ => ?_
    simp [TransactionStore.compareMsgId_eq_zero]
  -- the tree without the entry: it still represents the store, and it is still sorted
  refine ⟨_, ⟨hrep, ?_, ?_, ?_⟩, hinorder, ?_⟩
  · rw [hinorder]
    exact hs.sorted.filter _
  · intro a ha
    by_cases hmem : a ∈ inorder t
    · -- it was the one that was taken out
      rw [hinorder, List.mem_filter, not_and] at ha
      have hid : st.msgId a = msgId := by simpa using ha hmem
      refine hcleared a ?_
      rw [find_eq_find? hsearch, ← hid]
      exact hs.find?_eq hmem
    · obtain ⟨h1, h2, h3⟩ := hout a hmem a (by simp)
      obtain ⟨hl, hr, hp⟩ := hs.clear a hmem
      exact ⟨h1.trans hl, h2.trans hr, h3.trans hp⟩
  · rw [hinorder]
    exact (List.length_filter_le _ _).trans hfuel
  · exact hfound.trans (find_eq_find? hsearch)

/-- `bt_insert` of a transaction whose id is not in the store. -/
theorem Stores.btInsert (hs : Stores st t) (hout : h ∉ inorder t)
    (hfresh : ∀ a ∈ inorder t, st.msgId a ≠ st.msgId h) :
    ∃ t', Stores (st.btInsert h).1 t' ∧ (∀ a, a ∈ inorder t' ↔ a = h ∨ a ∈ inorder t) ∧
      (st.btInsert h).2 = none := by
  have hfuel := hs.fuel
  have hsearch := hs.searchable (st.msgId h)
  obtain ⟨hlhs, hrhs, hpar⟩ := hs.clear h hout
  -- the contract of the tree's own operation, with nothing to delete
  obtain ⟨hrep, hfound, hsame⟩ := btInsert_spec (st.compareMsgId (st.msgId h)) 0 hs.rep
    hs.nodup (Nat.lt_succ_of_le hfuel) hout hpar hlhs hrhs
  have hmem (a : TransactionPtr) :
      a ∈ inorder (insertAt (st.compareMsgId (st.msgId h)) h t) ↔ a = h ∨ a ∈ inorder t := by
    rw [inorder_insertAt hsearch]
    simp only [List.mem_append, List.mem_cons, List.mem_filter, decide_eq_true_eq,
      TransactionStore.compareMsgId_neg, TransactionStore.compareMsgId_pos]
    constructor
    · rintro (⟨ha, -⟩ | rfl | ⟨ha, -⟩)
      · exact .inr ha
      · exact .inl rfl
      · exact .inr ha
    · rintro (rfl | ha)
      · exact .inr (.inl rfl)
      · rcases lt_or_gt_of_ne (hfresh a ha) with hlt | hgt
        · exact .inl ⟨ha, hlt⟩
        · exact .inr (.inr ⟨ha, hgt⟩)
  -- the new id is put at its place, so the order is kept
  have hsorted : (inorder (insertAt (st.compareMsgId (st.msgId h)) h t)).Pairwise
      fun a b => st.msgId a < st.msgId b := by
    have hlow (a : TransactionPtr) (ha : a ∈ (inorder t).filter fun a =>
        st.compareMsgId (st.msgId h) a < 0) : st.msgId a < st.msgId h :=
      TransactionStore.compareMsgId_neg.1 (by simpa using (List.mem_filter.1 ha).2)
    have hhigh (a : TransactionPtr) (ha : a ∈ (inorder t).filter fun a =>
        0 < st.compareMsgId (st.msgId h) a) : st.msgId h < st.msgId a :=
      TransactionStore.compareMsgId_pos.1 (by simpa using (List.mem_filter.1 ha).2)
    rw [inorder_insertAt hsearch, List.pairwise_append, List.pairwise_cons]
    refine ⟨hs.sorted.filter _, ⟨hhigh, hs.sorted.filter _⟩, fun a ha b hb => ?_⟩
    rcases List.mem_cons.1 hb with rfl | hb
    · exact hlow a ha
    · exact (hlow a ha).trans (hhigh b hb)
  -- the links of those who are not in the tree stay clear
  refine ⟨_, ⟨hrep, hsorted, ?_, ?_⟩, hmem, ?_⟩
  · intro a ha
    rw [hmem, not_or] at ha
    obtain ⟨h1, h2, h3⟩ := hsame a ha.2 ha.1 a (by simp)
    obtain ⟨hl, hr, hp⟩ := hs.clear a ha.2
    exact ⟨h1.trans hl, h2.trans hr, h3.trans hp⟩
  · have hnodup : (inorder (insertAt (st.compareMsgId (st.msgId h)) h t)).Nodup :=
      hsorted.imp fun hlt heq => by simp [heq] at hlt
    have hsub : inorder (insertAt (st.compareMsgId (st.msgId h)) h t) ⊆ h :: inorder t :=
      fun a ha => List.mem_cons.2 ((hmem a).1 ha)
    exact (List.subperm_of_subset hnodup hsub).length_le.trans (Nat.succ_le_succ hfuel)
  · refine hfound.trans ?_
    rw [find_eq_find? hsearch, List.find?_eq_none]
    intro a ha
    simpa [TransactionStore.compareMsgId_eq_zero] using hfresh a ha

/-- The tree depends on the links and on the ids of the transactions in it. -/
theorem Stores.congr (hs : Stores st t) (hlinks : st'.links = st.links)
    (hinserted : st'.inserted = st.inserted) (hid : ∀ a ∈ inorder t, st'.msgId a = st.msgId a) :
    Stores st' t where
  rep := hlinks ▸ hs.rep
  sorted := hs.sorted.imp_of_mem fun ha hb hlt => by rwa [hid _ ha, hid _ hb]
  clear := hlinks ▸ hs.clear
  fuel := hinserted ▸ hs.fuel

/-! ## The store as a whole -/

/-- The transactions in the tree are the active ones. -/
def StoreOk (st : TransactionStore) : Prop :=
  ∃ t, Stores st t ∧ ∀ h, st.active h = true ↔ h ∈ inorder t

/-- No other active transaction has the given id. -/
def TransactionStore.NoOther (st : TransactionStore) (h : TransactionPtr) (msgId : ℕ) : Prop :=
  ∀ h', h' ≠ h → st.active h' = true → st.msgId h' ≠ msgId

/-- The active transactions are those in the tree. -/
theorem StoreOk.linked_iff (hok : StoreOk st) : st.active h = true ↔ Linked st.links h := by
  obtain ⟨t, hs, hactive⟩ := hok
  rw [hactive, linked_iff_mem hs.rep]

/-- Every active transaction is found. -/
theorem StoreOk.findViaMsgId (hok : StoreOk st) (h : TransactionPtr) (ha : st.active h = true) :
    st.findViaMsgId (st.msgId h) = some h := by
  obtain ⟨t, hs, hactive⟩ := hok
  exact hs.findViaMsgId ((hactive h).1 ha)

/-- A token that no other active transaction has is found. -/
theorem StoreOk.findViaToken (hok : StoreOk st) (ha : st.active h = true)
    (hdistinct : ∀ a, st.active a = true → st.token a = st.token h → a = h) :
    st.findViaToken (st.token h) = some h := by
  obtain ⟨t, hs, hactive⟩ := hok
  rw [hs.findViaToken_eq]
  rcases hf : (inorder t).find? fun a => st.token a = st.token h with _ | b
  · rw [List.find?_eq_none] at hf
    have hnot := hf h ((hactive h).1 ha)
    simp at hnot
  · have hb : st.token b = st.token h := by simpa using List.find?_some hf
    rw [hdistinct b ((hactive b).2 (List.mem_of_find?_eq_some hf)) hb]

/-- What a lookup by an id finds is the active transaction with that id. -/
theorem StoreOk.findViaMsgId_iff (hok : StoreOk st) :
    st.findViaMsgId msgId = some h ↔ st.active h = true ∧ st.msgId h = msgId := by
  constructor
  · intro hfound
    obtain ⟨t, hs, hactive⟩ := hok
    rw [hs.findViaMsgId_eq] at hfound
    have hcmp := List.find?_some hfound
    rw [decide_eq_true_eq, TransactionStore.compareMsgId_eq_zero] at hcmp
    exact ⟨(hactive h).2 (List.mem_of_find?_eq_some hfound), hcmp⟩
  · rintro ⟨ha, rfl⟩
    exact hok.findViaMsgId h ha

/-- Removing by the id of `h` removes `h`, if no other active transaction has that id. -/
theorem StoreOk.btRemove (hok : StoreOk st) (hno : st.NoOther h (st.msgId h)) :
    ∃ t, Stores (st.btRemove (st.msgId h)).1 t ∧
      ∀ a, a ∈ inorder t ↔ a ≠ h ∧ st.active a = true := by
  obtain ⟨t, hs, hactive⟩ := hok
  obtain ⟨t', hs', hin, -⟩ := hs.btRemove (st.msgId h)
  refine ⟨t', hs', fun a => ?_⟩
  rw [hin, List.mem_filter, ← hactive a, decide_eq_true_eq]
  constructor
  · rintro ⟨ha, hne⟩
    exact ⟨fun heq => hne (heq ▸ rfl), ha⟩
  · rintro ⟨hne, ha⟩
    exact ⟨ha, hno a hne ha⟩

/-- Inserting the active transaction that is missing, under an id that no other one has. -/
theorem insertOver_ok (hs : Stores st t) (hactive : st.active h = true)
    (hin : ∀ a, a ∈ inorder t ↔ a ≠ h ∧ st.active a = true) (hno : st.NoOther h (st.msgId h)) :
    StoreOk (st.insertOver h).1 ∧ (st.insertOver h).2 = none := by
  obtain ⟨t', hs', hin', hnone⟩ := hs.btInsert (h := h) (by simp [hin])
    fun a ha => hno a ((hin a).1 ha).1 ((hin a).1 ha).2
  have heq : st.insertOver h = ((st.btInsert h).1, none) := by
    unfold TransactionStore.insertOver
    simp only [hnone]
  rw [heq]
  refine ⟨⟨t', hs', fun a => ?_⟩, rfl⟩
  change st.active a = true ↔ _
  rw [hin', hin]
  by_cases ha : a = h
  · simp [ha, hactive]
  · simp [ha]

/-- A transaction gets an id that nobody else has. -/
theorem StoreOk.rename (hok : StoreOk st) (msgId : ℕ) (hno : st.NoOther h msgId) :
    StoreOk (st.rename h msgId).1 ∧ (st.rename h msgId).2 = none := by
  unfold TransactionStore.rename
  split_ifs with hactive
  · have hown : st.NoOther h (st.msgId h) := by
      obtain ⟨t, hs, hact⟩ := hok
      exact fun h' hne ha heq => hne (hs.msgId_inj ((hact h').1 ha) ((hact h).1 hactive) heq)
    obtain ⟨t, hs, hin⟩ := hok.btRemove hown
    refine insertOver_ok (hs.congr rfl rfl fun a ha => ?_) hactive hin fun h' hne ha => ?_
    · exact Function.update_of_ne ((hin a).1 ha).1 _ _
    · have hid := hno h' hne ha
      simpa [TransactionStore.setMsgId, TransactionStore.btRemove, hne] using hid
  · exact ⟨hok, rfl⟩

/-- A transaction begins with an id that nobody else has. -/
theorem StoreOk.start (hok : StoreOk st) (msgId : ℕ) (hown : st.NoOther h (st.msgId h))
    (hno : st.NoOther h msgId) : StoreOk (st.start h msgId).1 ∧ (st.start h msgId).2 = none := by
  obtain ⟨t, hs, hin⟩ := hok.btRemove hown
  unfold TransactionStore.start
  refine insertOver_ok (hs.congr rfl rfl fun a ha => ?_) ?_ (fun a => ?_) fun h' hne ha => ?_
  · exact Function.update_of_ne ((hin a).1 ha).1 _ _
  · simp [TransactionStore.setActive]
  · rw [hin]
    by_cases ha : a = h <;>
      simp [ha, TransactionStore.setActive, TransactionStore.setMsgId, TransactionStore.setToken,
        TransactionStore.btRemove]
  · simp only [TransactionStore.setActive, TransactionStore.setMsgId, TransactionStore.setToken,
      TransactionStore.btRemove, Function.update_of_ne hne, Function.update_self] at ha ⊢
    exact hno h' hne ha

/-- An active transaction is the one that its end takes out. -/
theorem StoreOk.btRemove_self (hok : StoreOk st) (ha : st.active h = true) :
    ((st.setActive h false).btRemove (st.msgId h)).2 = some h := by
  obtain ⟨t, hs, hactive⟩ := hok
  have hs1 : Stores (st.setActive h false) t := hs.congr rfl rfl fun _ _ => rfl
  obtain ⟨t', -, -, hfound⟩ := hs1.btRemove (st.msgId h)
  exact hfound.trans (hs1.find?_eq ((hactive h).1 ha))

/-- When nothing is replaced, no transaction becomes inactive. -/
theorem active_insertOver (hnone : (st.insertOver h).2 = none) :
    (st.insertOver h).1.active = st.active := by
  unfold TransactionStore.insertOver at hnone ⊢
  dsimp only at hnone ⊢
  split at hnone
  · cases hnone
  · rfl

/-- Nobody is pushed out. -/
theorem active_rename {msgId : ℕ} (hnone : (st.rename h msgId).2 = none) :
    (st.rename h msgId).1.active = st.active := by
  unfold TransactionStore.rename at hnone ⊢
  split_ifs at hnone ⊢
  · exact active_insertOver hnone
  · rfl

/-- A transaction is taken out of the tree. -/
theorem StoreOk.finish (hok : StoreOk st) (h : TransactionPtr) : StoreOk (st.finish h) := by
  unfold TransactionStore.finish
  split_ifs with ha
  · have hx := hok.btRemove_self ha
    obtain ⟨t, hs, hactive⟩ := hok
    have hmem := (hactive h).1 ha
    have hs1 : Stores (st.setActive h false) t := hs.congr rfl rfl fun _ _ => rfl
    obtain ⟨t', hs', hin, -⟩ := hs1.btRemove (st.msgId h)
    simp only [hx]
    refine ⟨t', hs'.congr rfl rfl fun _ _ => rfl, fun a => ?_⟩
    rw [hin, List.mem_filter, decide_eq_true_eq]
    change Function.update (Function.update st.active h false) h false a = true ↔
      a ∈ inorder t ∧ st.msgId a ≠ st.msgId h
    by_cases hah : a = h
    · simp [hah]
    · rw [Function.update_of_ne hah, Function.update_of_ne hah, hactive]
      exact ⟨fun hm => ⟨hm, fun heq => hah (hs.msgId_inj hm hmem heq)⟩, fun hm => hm.1⟩
  · exact hok

/-- A transaction that is not active can be cleared. -/
theorem StoreOk.clear (hok : StoreOk st) (hinactive : st.active h = false) :
    StoreOk (st.clear h) := by
  obtain ⟨t, hs, hactive⟩ := hok
  have hout : h ∉ inorder t := fun hmem => by
    rw [(hactive h).2 hmem] at hinactive
    cases hinactive
  have hne {a : TransactionPtr} (ha : a ∈ inorder t) : a ≠ h := fun heq => hout (heq ▸ ha)
  refine ⟨t, ⟨hs.rep.congr fun a ha => ?_, ?_, fun a ha => ?_, hs.fuel⟩, fun a => ?_⟩
  · simp [TransactionStore.clear, TransactionStore.setMsgId, TransactionStore.setToken,
      TransactionStore.setActive, Links.get_set, Links.parent_setParent, hne ha]
  · refine hs.sorted.imp_of_mem fun {a b} ha hb hlt => ?_
    simpa [TransactionStore.clear, TransactionStore.setMsgId, TransactionStore.setToken,
      TransactionStore.setActive, hne ha, hne hb] using hlt
  · obtain ⟨hl, hr, hp⟩ := hs.clear a ha
    by_cases hah : a = h
    · subst hah
      simp [TransactionStore.clear, Links.lhs_eq_get, Links.rhs_eq_get, Links.get_set]
    · simp [TransactionStore.clear, TransactionStore.setMsgId, TransactionStore.setToken,
        TransactionStore.setActive, Links.set, Links.setParent, hah, hl, hr, hp]
  · by_cases hah : a = h
    · subst hah
      simp [TransactionStore.clear, TransactionStore.setActive, hout]
    · simp [TransactionStore.clear, TransactionStore.setMsgId, TransactionStore.setToken,
        TransactionStore.setActive, hah, hactive]

/-! ## Runs -/

/-- The event does not endanger the store: a transaction is initialised when it is not active; when
it begins, no other active transaction has the id it had before; and an id that is given to a
transaction, drawn or chosen by the application, is not the id of another active one. -/
def Event.KeepsStore : Event → Prop
  | .initialized h st => st.active h = false
  | .begun h st => st.NoOther h (st.msgId h)
  | .drew (.beginning h) st lastMsgId random _ => st.NoOther h (drawnId lastMsgId random)
  | .drew (.renewing h) st lastMsgId random _ => st.NoOther h (drawnId lastMsgId random)
  | .renamed h msgId st _ => st.NoOther h msgId
  | _ => True

/-- Every step with safe events keeps the store. -/
theorem StoreOk.step {c c' : Core} (hstep : Step c c') (hok : StoreOk c.store)
    (hgood : ∀ e ∈ c'.events, e.KeepsStore) : StoreOk c'.store := by
  cases hstep with
  | init h => exact hok.clear (hgood (.initialized h c.store) (by simp))
  | start h r =>
    have hid : c.store.NoOther h (drawnId c.lastMsgId r) :=
      hgood (.drew (.beginning h) (c.store.btRemove (c.store.msgId h)).1 c.lastMsgId r
        (drawnId c.lastMsgId r)) (by simp)
    exact (hok.start _ (hgood (.begun h c.store) (by simp)) hid).1
  | redraw h r =>
    have hid : c.store.NoOther h (drawnId c.lastMsgId r) :=
      hgood (.drew (.renewing h) c.store c.lastMsgId r (drawnId c.lastMsgId r)) (by simp)
    exact (hok.rename _ hid).1
  | rename h msgId => exact (hok.rename _ (hgood (.renamed h msgId c.store c.lastMsgId) (by simp))).1
  | draw r => exact hok
  | finish h => exact hok.finish h
  | respond i i' transaction hpacket hsaddr => exact hok
  | free h => exact hok
  | live life es hlife => exact hok

/-- The empty store. -/
theorem storeOk_create (now : Timeval) (random : ℕ → ℕ) (sendResult : ℕ → ℤ) :
    StoreOk (smcpCreate now random sendResult).store := by
  refine ⟨.nil, ⟨rfl, ?_, fun h _ => ⟨rfl, rfl, rfl⟩, Nat.zero_le _⟩, fun h => ?_⟩
  · exact List.Pairwise.nil
  · simp [smcpCreate, inorder]

end

end Smcp
