import Mathlib.Data.Nat.Log
import Smcp.Btree.Balance

/-!
# Searching a balanced tree

What an application gets from the tree of `btree.c` when it calls the balancing functions between
its insertions and removals.

* `BtState.Holds.call`: one call, at any slot of the tree;
* `btCalls_lookup`: a whole sequence, and the number of comparisons of a search behind
  `bt_rebalance`.
-/

namespace LinkedTree

variable {α : Type*}

/-- The node is reached from the slot by child pointers. -/
inductive LinkedFrom (s : Links α) (bt : Slot α) : α → Prop
  | here {a : α} (h : s.get bt = some a) : LinkedFrom s bt a
  | lhs {a b : α} (ha : LinkedFrom s bt a) (h : s.lhs a = some b) : LinkedFrom s bt b
  | rhs {a b : α} (ha : LinkedFrom s bt a) (h : s.rhs a = some b) : LinkedFrom s bt b

theorem Rep.mem_of_linkedFrom {s : Links α} {bt : Slot α} {par : Option α} {u : BinaryTree α}
    (h : Rep s par (s.get bt) u) {a : α} (ha : LinkedFrom s bt a) : a ∈ inorder u := by
  induction ha with
  | here hget =>
    rw [hget] at h
    exact h.mem_of_eq_some
  | lhs _ hb ih => exact h.child_mem ih (.inl hb)
  | rhs _ hb ih => exact h.child_mem ih (.inr hb)

/-- A slot of the tree is the hole of a context. -/
theorem exists_holeSlot {s : Links α} {t : BinaryTree α} (h : Rep s none s.root t) (bt : Slot α)
    (howner : ∀ a, bt.owner = some a → Linked s a) : ∃ ctx u, t = plug ctx u ∧ bt = holeSlot ctx := by
  cases bt with
  | root => exact ⟨[], t, rfl, rfl⟩
  | lhs a =>
    have hmem : a ∈ inorder t := (linked_iff_mem h).1 (howner a rfl)
    obtain ⟨path, l, r, rfl⟩ := exists_plug hmem
    exact ⟨.left a r :: path, l, rfl, rfl⟩
  | rhs a =>
    have hmem : a ∈ inorder t := (linked_iff_mem h).1 (howner a rfl)
    obtain ⟨path, l, r, rfl⟩ := exists_plug hmem
    exact ⟨.right a l :: path, r, rfl, rfl⟩

end LinkedTree

namespace Smcp

open LinkedTree Run

variable {α : Type} [DecidableEq α]

/-! ## The calls -/

/-- The calls of an application: the operations of the store, and the balancing functions. -/
inductive BtCall (α : Type) where
  | store (op : BtOp α)
  | rotateRight (bt : Slot α)
  | rotateLeft (bt : Slot α)
  | unbalance (bt : Slot α)
  | splay (bt : Slot α) (item : α)
  | rebalance (bt : Slot α)

/-- Do it. -/
def BtCall.exec (compare : α → α → ℤ) : BtCall α → BtState α → BtState α
  | .store op, s => op.exec compare s
  | .rotateRight bt, s => { s with links := btRotateRight s.links bt }
  | .rotateLeft bt, s => { s with links := btRotateLeft s.links bt }
  | .unbalance bt, s => { s with links := (btUnbalance (2 * s.inserted + 1) s.links bt).1 }
  | .splay bt item, s => { s with links := (btSplay (2 * s.inserted + 1) s.links bt item).1 }
  | .rebalance bt, s =>
    { s with links := (btRebalance (2 * s.inserted + 1) (2 * s.inserted + 1) s.links bt).1 }

/-- The slot is the root pointer or belongs to a stored item. -/
def StoredSlot (s : Links α) (bt : Slot α) : Prop := ∀ a, bt.owner = some a → Linked s a

/-- Balancing is done at slots of the tree, and `bt_splay` is given an item of the subtree. -/
def BtCall.Allowed : BtCall α → BtState α → Prop
  | .store op, s => op.Allowed s
  | .rotateRight bt, s | .rotateLeft bt, s | .unbalance bt, s | .rebalance bt, s =>
    StoredSlot s.links bt
  | .splay bt item, s => StoredSlot s.links bt ∧ LinkedFrom s.links bt item

/-- Do all of it. -/
def btCalls (compare : α → α → ℤ) (calls : List (BtCall α)) (s : BtState α) : BtState α :=
  calls.foldl (fun s call => call.exec compare s) s

/-- The operations of the store among the calls. -/
def storeOps (calls : List (BtCall α)) : List (BtOp α) :=
  calls.filterMap fun
    | .store op => some op
    | _ => none

/-! ## Balancing keeps the contents -/

section
variable {compare : α → α → ℤ} {s : BtState α} {c : BtContents α}

omit [DecidableEq α] in
/-- The tree may take any shape with the same order. -/
theorem BtState.Holds.reshape {t : BinaryTree α} (htree : SortedTree compare s.links s.inserted t)
    (hperm : (inorder t).Perm c.stored) (hdeleted : s.deleted = c.deleted) {l : Links α}
    {t' : BinaryTree α} (hrep : Rep l none l.root t') (horder : inorder t' = inorder t) :
    ({ s with links := l } : BtState α).Holds compare c := by
  refine ⟨⟨t', ⟨hrep, ?_, ?_⟩, ?_⟩, hdeleted⟩
  · rw [horder]
    exact htree.sorted
  · rw [horder]
    exact htree.fuel
  · rw [horder]
    exact hperm

/-- A call of a balancing function. -/
theorem BtState.Holds.balance (hcmp : IsComparison compare) (h : s.Holds compare c) {call : BtCall α}
    (hallowed : call.Allowed s) (hcall : ∀ op, call ≠ .store op) :
    (call.exec compare s).Holds compare c := by
  obtain ⟨⟨t, htree, hperm⟩, hdeleted⟩ := h
  have hnd := htree.nodup hcmp
  have hfuel : 2 * (inorder t).length < 2 * s.inserted + 1 := by
    have := htree.fuel
    omega
  -- each function leaves some tree at the slot, with the nodes in the same order
  have hreshape (ctx : List (Frame α)) (u : BinaryTree α) (ht : t = plug ctx u) (l : Links α)
      (hl : ∃ u', Rep l none l.root (plug ctx u') ∧ inorder u' = inorder u) :
      ({ s with links := l } : BtState α).Holds compare c := by
    obtain ⟨u', hrep, horder⟩ := hl
    apply BtState.Holds.reshape htree hperm hdeleted hrep
    rw [ht, inorder_plug, inorder_plug, horder]
  cases call with
  | store op => exact absurd rfl (hcall op)
  | rotateRight bt =>
    obtain ⟨ctx, u, ht, rfl⟩ := exists_holeSlot htree.rep bt hallowed
    have hrep := ht ▸ htree.rep
    exact hreshape ctx u ht _ (btRotate_spec ctx hrep (ht ▸ hnd)).1
  | rotateLeft bt =>
    obtain ⟨ctx, u, ht, rfl⟩ := exists_holeSlot htree.rep bt hallowed
    have hrep := ht ▸ htree.rep
    exact hreshape ctx u ht _ (btRotate_spec ctx hrep (ht ▸ hnd)).2
  | unbalance bt =>
    obtain ⟨ctx, u, ht, rfl⟩ := exists_holeSlot htree.rep bt hallowed
    have hrep := ht ▸ htree.rep
    have hwork := unbalanceWork_le u
    have hle := length_inorder_le_plug ctx u
    rw [ht] at hfuel
    have henough : unbalanceWork u ≤ 2 * s.inserted + 1 := by omega
    obtain ⟨u', hnew, horder, -⟩ := btUnbalance_spec ctx hrep (ht ▸ hnd) henough
    exact hreshape ctx u ht _ ⟨u', hnew, horder⟩
  | splay bt item =>
    obtain ⟨ctx, u, ht, rfl⟩ := exists_holeSlot htree.rep bt hallowed.1
    have hrep := ht ▸ htree.rep
    have hmem := ((rep_plug ctx u).1 hrep).1.mem_of_linkedFrom hallowed.2
    obtain ⟨path, l, r, rfl⟩ := exists_plug hmem
    have hpath := length_le_plug (path ++ ctx) (.node item l r)
    rw [plug_append, ← ht, List.length_append] at hpath
    rw [← plug_append] at hrep
    have hnd' := ht ▸ hnd
    rw [← plug_append] at hnd'
    have henough : path.length ≤ 2 * s.inserted + 1 := by omega
    obtain ⟨hnew, -⟩ := btSplay_spec path ctx hrep hnd' henough
    exact hreshape ctx _ ht _ ⟨_, hnew, inorder_moveUp path item l r⟩
  | rebalance bt =>
    obtain ⟨ctx, u, ht, rfl⟩ := exists_holeSlot htree.rep bt hallowed
    have hrep := ht ▸ htree.rep
    have hle := length_inorder_le_plug ctx u
    rw [ht] at hfuel
    obtain ⟨u', hnew, horder, -⟩ := btRebalance_spec (2 * s.inserted + 1) (2 * s.inserted + 1) ctx
      hrep (ht ▸ hnd) (by omega) (by omega)
    exact hreshape ctx u ht _ ⟨u', hnew, horder⟩

/-- One call. -/
theorem BtState.Holds.call (hcmp : IsComparison compare) (h : s.Holds compare c) (call : BtCall α)
    (hallowed : call.Allowed s) :
    (call.exec compare s).Holds compare (btContents compare (storeOps [call]) c) := by
  cases call with
  | store op => exact h.step hcmp op hallowed
  | rotateRight bt => exact h.balance hcmp hallowed nofun
  | rotateLeft bt => exact h.balance hcmp hallowed nofun
  | unbalance bt => exact h.balance hcmp hallowed nofun
  | splay bt item => exact h.balance hcmp hallowed nofun
  | rebalance bt => exact h.balance hcmp hallowed nofun

/-- A whole sequence. -/
theorem BtState.Holds.calls (hcmp : IsComparison compare) (h : s.Holds compare c)
    (calls : List (BtCall α)) (hallowed : AllSteps (BtCall.exec compare) BtCall.Allowed s calls) :
    (btCalls compare calls s).Holds compare (btContents compare (storeOps calls) c) := by
  induction calls generalizing s c with
  | nil => exact h
  | cons call calls ih =>
    have hsplit : storeOps (call :: calls) = storeOps [call] ++ storeOps calls :=
      List.filterMap_append (l := [call])
    rw [hsplit, btContents, List.foldl_append]
    exact ih (h.call hcmp call hallowed.1) hallowed.2

end

/-! ## The number of comparisons -/

omit [DecidableEq α] in
/-- A search compares the items on one way down. -/
theorem length_btPath_le {s : Links α} {cmp : α → ℤ} {par p : Option α} {t : BinaryTree α}
    (h : Rep s par p t) (fuel : ℕ) : (btPath s cmp fuel p).length ≤ t.height := by
  induction t generalizing par p fuel with
  | nil =>
    have hp : p = none := h
    subst hp
    cases fuel <;> exact Nat.le_refl 0
  | node a l r ihl ihr =>
    obtain ⟨rfl, -, hl, hr⟩ := h
    show _ ≤ max l.height r.height + 1
    cases fuel with
    | zero => exact Nat.zero_le _
    | succ fuel =>
      rw [btPath]
      split_ifs
      · have hright := ihr hr fuel
        rw [List.length_cons, Links.rhs_eq_get]
        omega
      · have hleft := ihl hl fuel
        rw [List.length_cons, Links.lhs_eq_get]
        omega
      · exact Nat.le_add_left 1 _

/-- After every sequence of calls, starting with the empty tree and for every comparison function,
the tree represents the items that the insertions and removals alone would have left; and behind one
more `bt_rebalance` of the whole tree it still does, and no search for any probe compares more items
than the logarithm of their number, and one. -/
theorem btCalls_lookup (compare : α → α → ℤ) (hcmp : IsComparison compare) (calls : List (BtCall α))
    (hallowed : AllSteps (BtCall.exec compare) BtCall.Allowed .empty calls) :
    let s := btCalls compare calls .empty
    let c := btContents compare (storeOps calls) ⟨[], []⟩
    let balanced := (BtCall.rebalance .root).exec compare s
    s.Represents compare c ∧ balanced.Represents compare c ∧
      ∀ probe fuel, (btPath balanced.links (fun a => compare a probe) fuel balanced.links.root).length ≤
        Nat.log 2 c.stored.length + 1 := by
  intro s c balanced
  have hempty : BtState.empty.Holds compare ⟨[], []⟩ :=
    ⟨⟨.nil, ⟨rfl, List.Pairwise.nil, Nat.zero_le _⟩, List.Perm.refl _⟩, rfl⟩
  have hs : s.Holds compare c := hempty.calls hcmp calls hallowed
  have hbalanced : balanced.Holds compare c :=
    hs.call hcmp (.rebalance .root) nofun
  refine ⟨hs.represents hcmp, hbalanced.represents hcmp, fun probe fuel => ?_⟩
  obtain ⟨⟨t, htree, hperm⟩, -⟩ := hs
  have hfuel := htree.fuel
  obtain ⟨u, hrep, horder, hu⟩ := btRebalance_spec (2 * s.inserted + 1) (2 * s.inserted + 1) []
    htree.rep (htree.nodup hcmp) (Nat.lt_succ_of_le (by show (inorder t).length ≤ _; omega))
    (by omega)
  have hpath : (btPath balanced.links (fun a => compare a probe) fuel balanced.links.root).length ≤
      u.height := length_btPath_le hrep fuel
  by_cases hnil : u = .nil
  · rw [hnil] at hpath
    exact Nat.le_trans hpath (Nat.zero_le _)
  · have hpow := hu.two_pow_height_le hnil
    rw [horder, hperm.length_eq] at hpow
    apply Nat.le_trans hpath
    -- the root is one level
    obtain ⟨k, hk⟩ : ∃ k, u.height = k + 1 := by
      cases u with
      | nil => exact absurd rfl hnil
      | node a l r => exact ⟨_, rfl⟩
    rw [hk] at hpow ⊢
    rw [Nat.pow_succ] at hpow
    have hpos : c.stored.length ≠ 0 := by
      have := Nat.two_pow_pos k
      omega
    exact Nat.succ_le_succ (Nat.le_log_of_pow_le (by omega) (by omega))

theorem btCalls_lookup_tens :
    let calls : List (BtCall ℕ) := [.store (.insert 20), .store (.insert 10), .rotateRight .root,
      .store (.insert 30), .splay .root 30, .rebalance .root, .unbalance (.lhs 20),
      .store (.remove 15)]
    let balanced := (BtCall.rebalance .root).exec compareTens (btCalls compareTens calls .empty)
    balanced.Represents compareTens ⟨[30, 20], [10]⟩ ∧
      (btPath balanced.links (fun a => compareTens a 25) 3 balanced.links.root).length ≤
        Nat.log 2 2 + 1 := by
  intro calls balanced
  have hallowed : AllSteps (BtCall.exec compareTens) BtCall.Allowed .empty calls := by
    refine ⟨⟨rfl, rfl, rfl⟩, ⟨rfl, rfl, rfl⟩, nofun, ⟨rfl, rfl, rfl⟩, ⟨nofun, ?_⟩, nofun, ?_, trivial,
      trivial⟩
    · exact .rhs (.rhs (.here (a := 10) rfl) rfl) rfl
    · intro a ha
      obtain rfl := Option.some.inj ha
      exact .root rfl
  have h := btCalls_lookup compareTens isComparison_compareTens calls hallowed
  exact ⟨h.2.1, h.2.2 25 3⟩

end Smcp
