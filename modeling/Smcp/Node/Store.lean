import Mathlib.Data.Finset.Card
import Mathlib.Logic.Relation
import Smcp.Node.Basic

/-!
# The node tree as a store

What sequences of `smcp_node_init` and `smcp_node_delete` make of a tree of nodes, and what
`smcp_node_find` finds in it.

The children of every node are kept in the order of `strcmp`, as long as no comparison on the way
of an operation gives a number that does not fit a `signed char` (`NodeOp.Fits`). The library's
`strcmp` returns differences up to 255, so that for some names the comparison gets the wrong sign.
-/

namespace Smcp

open LinkedTree CStr Run

/-! ## Contents -/

/-- What a tree of nodes holds: the children, with their parents and their names. -/
structure NodeContents where
  live : Finset ℕ
  parent : ℕ → ℕ
  name : ℕ → ℕ

namespace NodeContents

def empty : NodeContents := ⟨∅, fun _ => 0, fun _ => 0⟩

/-- `x` is `n` or a node below it. -/
def Below (c : NodeContents) (n x : ℕ) : Prop :=
  Relation.ReflTransGen (fun x p => x ∈ c.live ∧ c.parent x = p) x n

open Classical in
/-- Without the node and all nodes below it. -/
noncomputable def without (c : NodeContents) (n : ℕ) : NodeContents :=
  { c with live := c.live.filter fun x => ¬c.Below n x }

/-- With one child more. -/
def insert (c : NodeContents) (x parent name : ℕ) : NodeContents :=
  ⟨Insert.insert x c.live, Function.update c.parent x parent, Function.update c.name x name⟩

/-- Without the node, but with what is below it. -/
def unlinked (c : NodeContents) (n : ℕ) : NodeContents := { c with live := c.live.erase n }

variable {c : NodeContents} {n m x : ℕ}

/-- What is below the node goes with it. -/
theorem mem_without : x ∈ (c.without n).live ↔ x ∈ c.live ∧ ¬c.Below n x := by
  simp [without]

theorem Below.refl (c : NodeContents) (n : ℕ) : c.Below n n := Relation.ReflTransGen.refl

/-- What is below a node below another one is below that one. -/
theorem Below.trans (hm : c.Below n m) (hx : c.Below m x) : c.Below n x :=
  Relation.ReflTransGen.trans hx hm

/-- A node is below whatever its parent is below. -/
theorem Below.of_parent (hx : x ∈ c.live) (h : c.Below n (c.parent x)) : c.Below n x :=
  Relation.ReflTransGen.head ⟨hx, rfl⟩ h

/-- Below a node there is the node itself, and all whose parents are below it. -/
theorem below_iff : c.Below n x ↔ x = n ∨ (x ∈ c.live ∧ c.Below n (c.parent x)) := by
  constructor
  · intro h
    rcases Relation.ReflTransGen.cases_head h with rfl | ⟨p, ⟨hx, rfl⟩, hp⟩
    · left
      rfl
    · right
      exact ⟨hx, hp⟩
  · rintro (rfl | ⟨hx, hp⟩)
    · exact Below.refl c x
    · exact Below.of_parent hx hp

/-- Without children there is nothing below a node. -/
theorem below_leaf_iff (hleaf : ∀ y ∈ c.live, c.parent y ≠ n) : c.Below n x ↔ x = n := by
  constructor
  · intro h
    rcases Relation.ReflTransGen.cases_tail h with heq | ⟨y, -, hy, hparent⟩
    · exact heq.symm
    · exact absurd hparent (hleaf y hy)
  · rintro rfl
    exact Below.refl c x

/-- Fewer nodes, fewer below. -/
theorem Below.of_without (h : (c.without m).Below n x) : c.Below n x := by
  refine Relation.ReflTransGen.mono ?_ x n h
  rintro y p ⟨hy, hparent⟩
  exact ⟨(mem_without.1 hy).1, hparent⟩

/-- What is below a node is below its child, or is below the node when that child is gone. -/
theorem Below.or_without (h : c.Below n x) : c.Below m x ∨ (c.without m).Below n x := by
  induction h using Relation.ReflTransGen.head_induction_on with
  | refl => exact .inr (Below.refl _ n)
  | @head y _ hstep _ ih =>
    obtain ⟨hy, rfl⟩ := hstep
    rcases ih with hbelow | hrest
    · exact .inl (Below.of_parent hy hbelow)
    · by_cases hbelow : c.Below m y
      · exact .inl hbelow
      · exact .inr (Below.of_parent (mem_without.2 ⟨hy, hbelow⟩) hrest)

/-- A node that is unlinked has nothing new below it. -/
theorem Below.of_unlinked (h : (c.unlinked m).Below n x) : c.Below n x := by
  refine Relation.ReflTransGen.mono ?_ x n h
  rintro y p ⟨hy, hparent⟩
  exact ⟨Finset.mem_of_mem_erase hy, hparent⟩

/-- Deleting a child first and then the node is deleting the node. -/
theorem without_without (hm : m ∈ c.live) (hparent : c.parent m = n) :
    (c.without m).without n = c.without n := by
  have hmn : c.Below n m := Below.of_parent hm (hparent ▸ Below.refl c _)
  have hlive : ((c.without m).without n).live = (c.without n).live := by
    ext x
    rw [mem_without, mem_without, mem_without, and_assoc, ← not_or]
    refine and_congr_right fun _ => not_congr ⟨?_, Below.or_without⟩
    rintro (h | h)
    · exact hmn.trans h
    · exact h.of_without
  rw [without, without, NodeContents.mk.injEq]
  exact ⟨hlive, rfl, rfl⟩

/-- No node is below one of its children: the parents come first in some order. -/
def Ranked (c : NodeContents) (rank : ℕ → ℕ) : Prop := ∀ x ∈ c.live, rank (c.parent x) < rank x

/-- The further below, the greater the rank. -/
theorem Ranked.le {rank : ℕ → ℕ} (h : c.Ranked rank) (hx : c.Below n x) : rank n ≤ rank x := by
  induction hx using Relation.ReflTransGen.head_induction_on with
  | refl => exact Nat.le_refl _
  | head hstep _ ih =>
    obtain ⟨hy, rfl⟩ := hstep
    exact ih.trans (Nat.le_of_lt (h _ hy))

/-- Fewer nodes keep their ranks. -/
theorem Ranked.without {rank : ℕ → ℕ} (h : c.Ranked rank) (n : ℕ) : (c.without n).Ranked rank :=
  fun x hx => h x (mem_without.1 hx).1

open Classical in
/-- A node can be put below a node that is not below it: it moves with everything below it. -/
theorem Ranked.insert {rank : ℕ → ℕ} {p name : ℕ} (h : c.Ranked rank) (hp : ¬c.Below x p) :
    (c.insert x p name).Ranked fun y => if c.Below x y then rank y + (rank p + 1) else rank y := by
  intro y hy
  have hmem : y = x ∨ y ∈ c.live := Finset.mem_insert.1 hy
  have hparent : (c.insert x p name).parent y = if y = x then p else c.parent y :=
    Function.update_apply ..
  dsimp only
  rw [hparent]
  by_cases hyx : y = x
  · rw [if_pos hyx, if_neg hp, hyx, if_pos (Below.refl c x)]
    omega
  · have hlive := hmem.resolve_left hyx
    have hbelow : c.Below x y ↔ c.Below x (c.parent y) := by
      rw [below_iff]
      tauto
    have hlt := h y hlive
    rw [if_neg hyx]
    by_cases hb : c.Below x y
    · rw [if_pos (hbelow.1 hb), if_pos hb]
      omega
    · rw [if_neg fun hb' => hb (hbelow.2 hb'), if_neg hb]
      exact hlt

end NodeContents

/-! ## The invariant -/

variable (text : ℕ → CStr)

/-- The order of two nodes by their names. -/
def NodeStore.order (s : NodeStore) (a b : ℕ) : ℤ :=
  nameOrder text (s.node a).name (s.node b).name

/-- The memory holds the contents: the children of every node are a sorted tree. -/
structure NodeStore.Holds (s : NodeStore) (c : NodeContents) : Prop where
  tree : ∀ p, ∃ t, SortedTree (s.order text) (s.links p) s.inserted t ∧
    ∀ x, x ∈ inorder t ↔ x ∈ c.live ∧ c.parent x = p
  name : ∀ x ∈ c.live, (s.node x).name = some (c.name x)
  parent : ∀ x ∈ c.live, (s.node x).parent = some (c.parent x)
  rank : ∃ rank, c.Ranked rank
  card : c.live.card ≤ s.inserted

section
variable {text} {s s' : NodeStore} {c : NodeContents} {n p q : ℕ}

variable (text) in
/-- The names are in a linear order. -/
theorem isComparison_order (s : NodeStore) : IsComparison (s.order text) :=
  isComparison_nameOrder fun a => (s.node a).name

/-- The order is that of the names only. -/
theorem SortedTree.congr_names {l : Links ℕ} {inserted : ℕ} {t : BinaryTree ℕ}
    (h : SortedTree (s.order text) l inserted t)
    (hname : ∀ a ∈ inorder t, (s'.node a).name = (s.node a).name) :
    SortedTree (s'.order text) l inserted t := by
  refine ⟨h.rep, h.sorted.imp_of_mem fun ha hb hab => ?_, h.fuel⟩
  unfold NodeStore.order
  rw [hname _ ha, hname _ hb]
  exact hab

/-- The parts of the memory that a tree of children consists of are the same. -/
def SameChildren (c : NodeContents) (s s' : NodeStore) (q : ℕ) : Prop :=
  (s'.node q).children = (s.node q).children ∧
    ∀ x ∈ c.live, c.parent x = q → SameOn (s.links q) (s'.links q) [x]

/-- Children that stay the same stay in their tree. -/
theorem SameChildren.sortedTree {t : BinaryTree ℕ} {inserted : ℕ} (h : SameChildren c s s' q)
    (htree : SortedTree (s.order text) (s.links q) s.inserted t)
    (hmem : ∀ x, x ∈ inorder t ↔ x ∈ c.live ∧ c.parent x = q)
    (hname : ∀ x ∈ c.live, (s'.node x).name = (s.node x).name) (hins : s.inserted ≤ inserted) :
    SortedTree (s'.order text) (s'.links q) inserted t := by
  have hsame : SameOn (s.links q) (s'.links q) (inorder t) := by
    intro a ha
    obtain ⟨hlive, hparent⟩ := (hmem a).1 ha
    exact h.2 a hlive hparent a (List.mem_singleton_self a)
  have hrep : Rep (s'.links q) none (s'.links q).root t := by
    have hroot : (s'.links q).root = (s.links q).root := h.1
    rw [hroot]
    exact htree.rep.congr hsame
  have hsorted := htree.congr_names fun a ha => hname a ((hmem a).1 ha).1
  exact ⟨hrep, hsorted.sorted, hsorted.fuel.trans hins⟩

/-- What changes the children of `p` only leaves the children of the others alone. -/
theorem sameChildren_setLinks {l : Links ℕ} {item : Option ℕ} {t : BinaryTree ℕ}
    (hmem : ∀ x, x ∈ inorder t ↔ x ∈ c.live ∧ c.parent x = p)
    (hout : ∀ b, b ∉ inorder t → some b ≠ item → SameOn (s.links p) l [b])
    (hitem : ∀ x ∈ c.live, some x ≠ item) (hq : q ≠ p) :
    SameChildren c s (s.setLinks p l) q := by
  constructor
  · simp [NodeStore.setLinks, hq]
  · intro x hx hparent
    have hnot : x ∉ inorder t := by
      intro hin
      exact hq (hparent.symm.trans ((hmem x).1 hin).2)
    exact hout x hnot (hitem x hx)

/-- The children of a node are found from its pointer. -/
theorem NodeStore.Holds.child {child : ℕ} (h : s.Holds text c)
    (hchild : (s.node n).children = some child) : child ∈ c.live ∧ c.parent child = n := by
  obtain ⟨t, htree, hmem⟩ := h.tree n
  have hrep := htree.rep
  have hroot : (s.links n).root = some child := hchild
  rw [hroot] at hrep
  exact (hmem child).1 hrep.mem_of_eq_some

/-- A node without a pointer has no children. -/
theorem NodeStore.Holds.children_eq_none_iff (h : s.Holds text c) :
    (s.node n).children = none ↔ ∀ x ∈ c.live, c.parent x ≠ n := by
  constructor
  · intro hnone x hx hparent
    obtain ⟨t, htree, hmem⟩ := h.tree n
    have hroot : (s.links n).root = none := hnone
    have hnil := (rep_none_iff htree.rep).1 hroot
    have hin := (hmem x).2 ⟨hx, hparent⟩
    rw [hnil] at hin
    exact absurd hin (by simp [inorder])
  · intro hleaf
    cases hchild : (s.node n).children with
    | none => rfl
    | some child =>
      obtain ⟨hlive, hparent⟩ := h.child hchild
      exact absurd hparent (hleaf child hlive)

/-- At first there are no nodes. -/
theorem NodeStore.Holds.empty : NodeStore.empty.Holds text .empty := by
  refine ⟨fun p => ⟨.nil, ⟨rfl, List.Pairwise.nil, Nat.le_refl _⟩, ?_⟩, ?_, ?_, ⟨fun _ => 0, ?_⟩,
    Nat.le_refl _⟩
  · simp [inorder, NodeContents.empty]
  all_goals exact fun x hx => absurd hx (Finset.notMem_empty x)

end

/-! ## Deleting -/

/-- On the way of a search for the name among the children of `p` every result of `strcmp` fits a
`signed char`. -/
def NodeStore.Fits (s : NodeStore) (p : ℕ) (name : Option ℕ) : Prop :=
  ∀ a ∈ btPath (s.links p) (fun a => smcpNodeCompare text (s.node a).name name) (s.inserted + 1)
      (s.node p).children,
    ∀ l ∈ (s.node a).name, ∀ r ∈ name, FitsChar (strcmp (text l) (text r))

instance (s : NodeStore) (p : ℕ) (name : Option ℕ) : Decidable (s.Fits text p name) :=
  inferInstanceAs (Decidable (∀ a ∈ btPath _ _ _ _, ∀ l ∈ (s.node a).name, ∀ r ∈ name, FitsChar _))

section
variable {text} {s s' : NodeStore} {c : NodeContents} {n p q : ℕ}

/-- As long as the differences fit, the search goes the way of the order. -/
theorem NodeStore.Fits.sameSign {name : Option ℕ} (h : s.Fits text p name) :
    ∀ a ∈ btPath (s.links p) (fun a => smcpNodeCompare text (s.node a).name name) (s.inserted + 1)
        (s.node p).children,
      SameSign (fun a => smcpNodeCompare text (s.node a).name name)
        (fun a => nameOrder text (s.node a).name name) a :=
  fun a ha => .of_eq (smcpNodeCompare_eq (h a ha))

/-- The first child of a node is found at once. -/
theorem NodeStore.fits_first {child : ℕ} (hchild : (s.node p).children = some child) :
    s.Fits text p (s.node child).name := by
  intro a ha l hl r hr
  have hzero : smcpNodeCompare text (s.node child).name (s.node child).name = 0 := if_pos rfl
  rw [hchild, btPath, if_neg (by rw [hzero]; simp), List.mem_singleton] at ha
  rw [ha] at hl
  rw [Option.mem_unique hl hr, strcmp_self]
  exact ⟨by decide, by decide⟩

/-- The search goes the same way when the children and the names are the same. -/
theorem NodeStore.Fits.same {name : Option ℕ} (h : s.Fits text p name) (hholds : s.Holds text c)
    (hsame : SameChildren c s s' p) (hname : ∀ x ∈ c.live, (s'.node x).name = (s.node x).name)
    (hins : s'.inserted = s.inserted) : s'.Fits text p name := by
  obtain ⟨t, htree, hmem⟩ := hholds.tree p
  have hlinks : SameOn (s.links p) (s'.links p) (inorder t) := by
    intro a ha
    obtain ⟨hlive, hparent⟩ := (hmem a).1 ha
    exact hsame.2 a hlive hparent a (List.mem_singleton_self a)
  have hnames (a : ℕ) (ha : a ∈ inorder t) : (s'.node a).name = (s.node a).name :=
    hname a ((hmem a).1 ha).1
  have hcmp (a : ℕ) (ha : a ∈ inorder t) : smcpNodeCompare text (s'.node a).name name =
      smcpNodeCompare text (s.node a).name name := by
    rw [hnames a ha]
  have hrep : Rep (s.links p) none (s.node p).children t := htree.rep
  have hpath := btPath_congr hrep hlinks hcmp (s.inserted + 1)
  intro a ha
  rw [hsame.1, hins, hpath] at ha
  rw [hnames a (btPath_subset hrep _ ha)]
  exact h a ha

variable (text) in
/-- The tree of the siblings changes, and so do the links of the node. -/
theorem removeChild_node (s : NodeStore) (n p : ℕ) :
    (removeChild text s n p).node = (s.setLinks p (btRemove (s.links p)
      (fun a => smcpNodeCompare text (s.node a).name (s.node n).name) (s.inserted + 1)).1).node := by
  unfold removeChild
  dsimp only
  generalize btRemove (s.links p) (fun a => smcpNodeCompare text (s.node a).name (s.node n).name)
    (s.inserted + 1) = r
  cases r.2 with
  | none => rfl
  | some item =>
    dsimp only
    split_ifs <;> rfl

variable (text) in
/-- Nothing is inserted on the way. -/
theorem removeChild_inserted (s : NodeStore) (n p : ℕ) :
    (removeChild text s n p).inserted = s.inserted := by
  unfold removeChild
  dsimp only
  generalize btRemove (s.links p) (fun a => smcpNodeCompare text (s.node a).name (s.node n).name)
    (s.inserted + 1) = r
  cases r.2 with
  | none => rfl
  | some item =>
    dsimp only
    split_ifs <;> rfl

variable (text) in
/-- Deleting leaves the names, the parents and the number of insertions alone. -/
theorem smcpNodeDelete_same (fuel : ℕ) (s : NodeStore) (n : ℕ) :
    (∀ a, ((smcpNodeDelete text fuel s n).node a).name = (s.node a).name) ∧
      (∀ a, ((smcpNodeDelete text fuel s n).node a).parent = (s.node a).parent) ∧
      (smcpNodeDelete text fuel s n).inserted = s.inserted := by
  induction fuel generalizing s n with
  | zero => exact ⟨fun _ => rfl, fun _ => rfl, rfl⟩
  | succ fuel ih =>
    rw [smcpNodeDelete]
    cases (s.node n).children with
    | some child =>
      dsimp only
      obtain ⟨hname, hparent, hins⟩ := ih s child
      obtain ⟨hname', hparent', hins'⟩ := ih (smcpNodeDelete text fuel s child) n
      exact ⟨fun a => (hname' a).trans (hname a), fun a => (hparent' a).trans (hparent a),
        hins'.trans hins⟩
    | none =>
      dsimp only
      cases (s.node n).parent with
      | none => exact ⟨fun _ => rfl, fun _ => rfl, rfl⟩
      | some p =>
        dsimp only
        rw [removeChild_node, removeChild_inserted]
        exact ⟨fun _ => rfl, fun _ => rfl, rfl⟩

/-- Deleting a node that has no children. -/
theorem removeChild_holds (h : s.Holds text c) (hn : n ∈ c.live) (hparent : c.parent n = p)
    (hleaf : ∀ x ∈ c.live, c.parent x ≠ n) (hfits : s.Fits text p (s.node n).name) :
    (removeChild text s n p).Holds text (c.without n) ∧
      ∀ q, q ≠ p → SameChildren c s (removeChild text s n p) q := by
  obtain ⟨t, htree, hmem⟩ := h.tree p
  have hcmp := isComparison_order text s
  have hnode := removeChild_node text s n p
  have hins := removeChild_inserted text s n p
  have hremove : btRemove (s.links p)
      (fun a => smcpNodeCompare text (s.node a).name (s.node n).name) (s.inserted + 1) =
      btRemove (s.links p) (fun a => s.order text a n) (s.inserted + 1) :=
    btRemove_congr hfits.sameSign
  rw [hremove] at hnode
  obtain ⟨t', htree', hin, -⟩ := htree.remove hcmp n
  have hfuel := htree.fuel
  have hout := (btRemove_spec (fun a => s.order text a n) htree.rep (htree.nodup hcmp)
    (by omega : (inorder t).length ≤ s.inserted + 1)).2.2.2
  -- the comparison gives 0 at the node only
  have hzero (a : ℕ) (ha : a ∈ inorder t) : s.order text a n = 0 ↔ a = n := by
    constructor
    · intro h0
      exact htree.eq_of_zero hcmp ha ((hmem n).2 ⟨hn, hparent⟩) h0 (hcmp.refl n)
    · rintro rfl
      exact hcmp.refl a
  generalize hl : (btRemove (s.links p) (fun a => s.order text a n) (s.inserted + 1)).1 = l at *
  have hother (q : ℕ) (hq : q ≠ p) : SameChildren c s (removeChild text s n p) q := by
    have hsame := sameChildren_setLinks hmem (fun b hb _ => hout b hb)
      (fun x _ => Option.some_ne_none x) hq
    unfold SameChildren NodeStore.links at hsame ⊢
    rw [hnode]
    exact hsame
  refine ⟨⟨fun q => ?_, fun x hx => ?_, fun x hx => ?_, ?_, ?_⟩, hother⟩
  · by_cases hq : q = p
    · subst hq
      refine ⟨t', ?_, fun x => ?_⟩
      · have hlinks : (removeChild text s n q).links q = l := by
          unfold NodeStore.links
          rw [hnode]
          exact s.links_setLinks q l
        rw [hlinks, hins]
        exact htree'.congr_names fun a _ => by rw [hnode]; rfl
      · rw [hin, List.mem_filter, NodeContents.mem_without, NodeContents.below_leaf_iff hleaf,
          decide_eq_true_eq]
        show _ ∧ _ ↔ (x ∈ c.live ∧ x ≠ n) ∧ c.parent x = q
        constructor
        · rintro ⟨hx, hne⟩
          obtain ⟨hlive, hxq⟩ := (hmem x).1 hx
          exact ⟨⟨hlive, fun heq => hne ((hzero x hx).2 heq)⟩, hxq⟩
        · rintro ⟨⟨hlive, hne⟩, hxq⟩
          have hx := (hmem x).2 ⟨hlive, hxq⟩
          exact ⟨hx, fun h0 => hne ((hzero x hx).1 h0)⟩
    · obtain ⟨u, hu, humem⟩ := h.tree q
      refine ⟨u, (hother q hq).sortedTree hu humem (fun x _ => by rw [hnode]; rfl)
        (Nat.le_of_eq hins.symm), fun x => ?_⟩
      rw [humem, NodeContents.mem_without, NodeContents.below_leaf_iff hleaf]
      show _ ∧ _ ↔ (x ∈ c.live ∧ x ≠ n) ∧ c.parent x = q
      constructor
      · rintro ⟨hlive, hxq⟩
        refine ⟨⟨hlive, ?_⟩, hxq⟩
        rintro rfl
        exact hq (hxq.symm.trans hparent)
      · rintro ⟨⟨hlive, -⟩, hxq⟩
        exact ⟨hlive, hxq⟩
  · rw [hnode]
    exact h.name x (NodeContents.mem_without.1 hx).1
  · rw [hnode]
    exact h.parent x (NodeContents.mem_without.1 hx).1
  · obtain ⟨rank, hrank⟩ := h.rank
    exact ⟨rank, hrank.without n⟩
  · rw [hins]
    have hsubset : (c.without n).live ⊆ c.live := fun x hx => (NodeContents.mem_without.1 hx).1
    exact (Finset.card_le_card hsubset).trans h.card

/-- Another parent pointer in one node. -/
def NodeStore.withParent (s : NodeStore) (x : ℕ) (v : Option ℕ) : NodeStore :=
  s.setNode x { s.node x with parent := v }

/-- One parent is set. -/
theorem NodeStore.withParent_node (s : NodeStore) (x : ℕ) (v : Option ℕ) (a : ℕ) :
    (s.withParent x v).node a = { s.node a with
      parent := if a = x then v else (s.node a).parent } := by
  unfold NodeStore.withParent
  rw [NodeStore.setNode_node]
  by_cases ha : a = x
  · rw [if_pos ha, if_pos ha, ha]
  · rw [if_neg ha, if_neg ha]

/-- The parents of nodes are no links of the trees of children. -/
@[simp] theorem NodeStore.withParent_links (s : NodeStore) (x : ℕ) (v : Option ℕ) (q : ℕ) :
    (s.withParent x v).links q = s.links q := by
  unfold NodeStore.links
  simp only [NodeStore.withParent_node]

theorem NodeStore.withParent_setLinks (s : NodeStore) (x : ℕ) (v : Option ℕ) (q : ℕ) (l : Links ℕ) :
    (s.withParent x v).setLinks q l = (s.setLinks q l).withParent x v := by
  have hnode : ((s.withParent x v).setLinks q l).node = ((s.setLinks q l).withParent x v).node := by
    funext a
    rw [NodeStore.withParent_node]
    unfold NodeStore.setLinks
    dsimp only
    rw [NodeStore.withParent_node]
  show NodeStore.mk _ s.inserted s.finalized = NodeStore.mk _ s.inserted s.finalized
  exact congrArg (NodeStore.mk · s.inserted s.finalized) hnode

/-- The last one counts. -/
theorem NodeStore.withParent_withParent (s : NodeStore) (x : ℕ) (v w : Option ℕ) :
    (s.withParent x v).withParent x w = s.withParent x w := by
  have hnode : ((s.withParent x v).withParent x w).node = (s.withParent x w).node := by
    funext a
    rw [NodeStore.withParent_node, NodeStore.withParent_node, NodeStore.withParent_node]
    by_cases ha : a = x <;> simp only [ha, if_true, if_false]
  exact congrArg (NodeStore.mk · s.inserted s.finalized) hnode

theorem NodeStore.withParent_self (s : NodeStore) (x : ℕ) :
    s.withParent x (s.node x).parent = s := by
  have hnode : (s.withParent x (s.node x).parent).node = s.node := Function.update_eq_self x s.node
  exact congrArg (NodeStore.mk · s.inserted s.finalized) hnode

/-- The end of a deletion does not look at parent pointers. -/
theorem removeChild_withParent (s : NodeStore) (n p x : ℕ) (v : Option ℕ) :
    removeChild text (s.withParent x v) n p = (removeChild text s n p).withParent x v := by
  have hinserted : (s.withParent x v).inserted = s.inserted := rfl
  unfold removeChild
  simp only [NodeStore.withParent_links, NodeStore.withParent_node, NodeStore.withParent_setLinks,
    hinserted]
  generalize btRemove (s.links p) (fun a => smcpNodeCompare text (s.node a).name (s.node n).name)
    (s.inserted + 1) = r
  cases r.2 with
  | none => rfl
  | some item =>
    dsimp only
    split_ifs <;> rfl

open Classical in
/-- `smcp_node_delete`: the node is gone with everything below it, the children of other nodes than
its parent and those below it stay as they are, and no parent pointers are read but those of the
node and of what is below it. -/
theorem smcpNodeDelete_holds {fuel : ℕ} (h : s.Holds text c) (hn : n ∈ c.live)
    (hfuel : (c.live.filter (c.Below n)).card ≤ fuel)
    (hfits : s.Fits text (c.parent n) (s.node n).name) :
    (smcpNodeDelete text fuel s n).Holds text (c.without n) ∧
      (∀ q, q ≠ c.parent n → ¬c.Below n q → SameChildren c s (smcpNodeDelete text fuel s n) q) ∧
      ∀ x v, ¬c.Below n x → smcpNodeDelete text fuel (s.withParent x v) n =
        (smcpNodeDelete text fuel s n).withParent x v := by
  induction fuel generalizing s c n with
  | zero =>
    have hmem : n ∈ c.live.filter (c.Below n) :=
      Finset.mem_filter.2 ⟨hn, NodeContents.Below.refl c n⟩
    rw [Finset.card_eq_zero.1 (Nat.le_zero.1 hfuel)] at hmem
    exact absurd hmem (Finset.notMem_empty n)
  | succ fuel ih =>
    rw [smcpNodeDelete]
    cases hchild : (s.node n).children with
    | none =>
      rw [h.parent n hn]
      dsimp only
      obtain ⟨hholds, hother⟩ :=
        removeChild_holds h hn rfl (h.children_eq_none_iff.1 hchild) hfits
      refine ⟨hholds, fun q hq _ => hother q hq, fun x v hx => ?_⟩
      have hnx : n ≠ x := fun heq => hx (heq ▸ NodeContents.Below.refl c n)
      rw [smcpNodeDelete, NodeStore.withParent_node, if_neg hnx]
      dsimp only
      rw [hchild, h.parent n hn]
      exact removeChild_withParent s n (c.parent n) x v
    | some child =>
      dsimp only
      obtain ⟨hlive, hparent⟩ := h.child hchild
      obtain ⟨rank, hrank⟩ := h.rank
      have hbelow : c.Below n child :=
        NodeContents.Below.of_parent hlive (hparent ▸ NodeContents.Below.refl c _)
      have hlt := hrank child hlive
      have hltn := hrank n hn
      rw [hparent] at hlt
      have hnot : ¬c.Below child n := fun hb => absurd (hrank.le hb) (by omega)
      have hnotParent : ¬c.Below child (c.parent n) := fun hb => absurd (hrank.le hb) (by omega)
      have hne : c.parent n ≠ c.parent child := by
        rw [hparent]
        intro heq
        rw [heq] at hltn
        exact Nat.lt_irrefl _ hltn
      -- the first child: the search meets nothing else
      have hsmaller : (c.live.filter (c.Below child)).card ≤ fuel := by
        have hsubset : c.live.filter (c.Below child) ⊂ c.live.filter (c.Below n) := by
          refine Finset.ssubset_iff_subset_ne.2 ⟨fun x hx => ?_, fun heq => ?_⟩
          · obtain ⟨hx, hb⟩ := Finset.mem_filter.1 hx
            exact Finset.mem_filter.2 ⟨hx, hbelow.trans hb⟩
          · have hmem : n ∈ c.live.filter (c.Below n) :=
              Finset.mem_filter.2 ⟨hn, NodeContents.Below.refl c n⟩
            rw [← heq] at hmem
            exact hnot (Finset.mem_filter.1 hmem).2
        have hcard := Finset.card_lt_card hsubset
        omega
      have hfirst : s.Fits text (c.parent child) (s.node child).name := by
        rw [hparent]
        exact NodeStore.fits_first hchild
      obtain ⟨hholds, hother, hskip⟩ := ih h hlive hsmaller hfirst
      obtain ⟨hname, -, hins⟩ := smcpNodeDelete_same text fuel s child
      generalize hs1 : smcpNodeDelete text fuel s child = s1 at *
      -- the rest of the loop, and the node
      have hn1 : n ∈ (c.without child).live := NodeContents.mem_without.2 ⟨hn, hnot⟩
      have hrest : ((c.without child).live.filter ((c.without child).Below n)).card ≤ fuel := by
        have hsubset : (c.without child).live.filter ((c.without child).Below n) ⊂
            c.live.filter (c.Below n) := by
          refine Finset.ssubset_iff_subset_ne.2 ⟨fun x hx => ?_, fun heq => ?_⟩
          · obtain ⟨hx, hb⟩ := Finset.mem_filter.1 hx
            exact Finset.mem_filter.2 ⟨(NodeContents.mem_without.1 hx).1, hb.of_without⟩
          · have hmem : child ∈ c.live.filter (c.Below n) := Finset.mem_filter.2 ⟨hlive, hbelow⟩
            rw [← heq] at hmem
            have hwithout := (NodeContents.mem_without.1 (Finset.mem_filter.1 hmem).1).2
            exact hwithout (NodeContents.Below.refl c child)
        have hcard := Finset.card_lt_card hsubset
        omega
      have hfits1 : s1.Fits text ((c.without child).parent n) (s1.node n).name := by
        rw [hname n]
        exact hfits.same h (hother (c.parent n) hne hnotParent) (fun x _ => hname x) hins
      obtain ⟨hholds', hother', hskip'⟩ := ih hholds hn1 hrest hfits1
      rw [NodeContents.without_without hlive hparent] at hholds'
      refine ⟨hholds', fun q hq hqn => ?_, fun x v hx => ?_⟩
      rotate_left
      · have hskipFirst := hskip x v fun hb => hx (hbelow.trans hb)
        have hskipRest := hskip' x v fun hb => hx hb.of_without
        rw [smcpNodeDelete, NodeStore.withParent_node]
        dsimp only
        rw [hchild]
        dsimp only
        rw [hskipFirst, hskipRest]
      have hqn' : q ≠ n := fun heq => hqn (heq ▸ NodeContents.Below.refl c q)
      have hfirstSame := hother q (by rw [hparent]; exact hqn') fun hb => hqn (hbelow.trans hb)
      have hrestSame := hother' q hq fun hb => hqn hb.of_without
      refine ⟨hrestSame.1.trans hfirstSame.1, fun x hx hxq => ?_⟩
      have hx1 : x ∈ (c.without child).live := by
        refine NodeContents.mem_without.2 ⟨hx, fun hb => ?_⟩
        rcases NodeContents.below_iff.1 hb with heq | ⟨-, hb⟩
        · exact hqn' (hxq.symm.trans (heq ▸ hparent))
        · exact hqn (hbelow.trans (hxq ▸ hb))
      intro a ha
      obtain ⟨hlhs, hrhs, hpar⟩ := hfirstSame.2 x hx hxq a ha
      obtain ⟨hlhs', hrhs', hpar'⟩ := hrestSame.2 x hx1 hxq a ha
      exact ⟨hlhs'.trans hlhs, hrhs'.trans hrhs, hpar'.trans hpar⟩

end

/-! ## Inserting -/

section
variable {text} {s s' : NodeStore} {c : NodeContents} {x p name : ℕ}

/-- Only the memory of a node changes that is not in the tree. -/
theorem NodeStore.Holds.setNode (h : s.Holds text c) (hx : x ∉ c.live)
    (hnode : ∀ y, y ≠ x → s'.node y = s.node y)
    (hchildren : (s'.node x).children = (s.node x).children) (hins : s'.inserted = s.inserted) :
    s'.Holds text c ∧ ∀ q, SameChildren c s s' q := by
  -- the new node is not in the tree
  have hne (y : ℕ) (hy : y ∈ c.live) : y ≠ x := by
    rintro rfl
    exact hx hy
  have hsame (q : ℕ) : SameChildren c s s' q := by
    constructor
    · by_cases hq : q = x
      · rw [hq, hchildren]
      · rw [hnode q hq]
    · intro y hy _ a ha
      rw [List.mem_singleton] at ha
      subst ha
      unfold NodeStore.links
      simp only [Links.get, hnode a (hne a hy), and_self]
  -- the trees of the children, the names, the parents, and the counts
  refine ⟨⟨fun q => ?_, fun y hy => ?_, fun y hy => ?_, h.rank, hins ▸ h.card⟩, hsame⟩
  · obtain ⟨t, htree, hmem⟩ := h.tree q
    refine ⟨t, ?_, hmem⟩
    exact (hsame q).sortedTree htree hmem (fun y hy => by rw [hnode y (hne y hy)])
      (Nat.le_of_eq hins.symm)
  · rw [hnode y (hne y hy)]
    exact h.name y hy
  · rw [hnode y (hne y hy)]
    exact h.parent y hy

/-- Other children of `p`, one of them new. -/
def NodeStore.linked (s : NodeStore) (p : ℕ) (l : Links ℕ) : NodeStore :=
  { s.setLinks p l with inserted := s.inserted + 1 }

/-- `bt_insert` of a node: it takes the place of the sibling of its name, which is then deleted. -/
theorem insertChild_eq {t : BinaryTree ℕ} (htree : SortedTree (s.order text) (s.links p) s.inserted t)
    (hfits : s.Fits text p (s.node x).name) (hx : x ∉ inorder t) (hlhs : (s.node x).lhs = none)
    (hrhs : (s.node x).rhs = none) (hpar : (s.node x).btParent = none) :
    ∃ l t', SortedTree (s.order text) l (s.inserted + 1) t' ∧
      (inorder t').Perm (x :: (inorder t).filter fun y => s.order text y x ≠ 0) ∧
      (∀ b, b ∉ inorder t → some b ≠ some x → SameOn (s.links p) l [b]) ∧
      insertChild text s x p = match (inorder t).find? fun y => s.order text y x = 0 with
        | none => s.linked p l
        | some old => smcpNodeDelete text (s.inserted + 2) (s.linked p l) old := by
  have hcmp := isComparison_order text s
  have hfuel := htree.fuel
  have hinsert : btInsert x (fun a => smcpNodeCompare text (s.node a).name (s.node x).name)
      (s.inserted + 1) (s.links p) .root 0 =
      btInsert x (fun a => s.order text a x) (s.inserted + 1) (s.links p) .root 0 :=
    btInsert_congr hfits.sameSign
  obtain ⟨t', htree', hperm, hdeleted⟩ := htree.insert hcmp hx hlhs hrhs hpar
  have hout := (btInsert_spec (fun a => s.order text a x) 0 htree.rep (htree.nodup hcmp)
    (by omega : (inorder t).length < s.inserted + 1) hx hpar hlhs hrhs).2.2
  unfold insertChild
  rw [hinsert]
  generalize btInsert x (fun a => s.order text a x) (s.inserted + 1) (s.links p) .root 0 = r at *
  dsimp only
  rw [← hdeleted]
  exact ⟨r.links, t', htree', hperm, fun b hb hne => hout b hb fun heq => hne (heq ▸ rfl), rfl⟩

/-- A new node linked into the children of its parent, in the place of `old` if that is a child.
What is below `old` stays. -/
theorem NodeStore.Holds.linked {old : ℕ} {l : Links ℕ} {t' : BinaryTree ℕ} (h : s.Holds text c)
    (hx : x ∉ c.live) (hp : ¬c.Below x p) (hname : (s.node x).name = some name)
    (hold : old ∈ c.live → c.parent old = p)
    (htree' : SortedTree (s.order text) l (s.inserted + 1) t')
    (hmem' : ∀ y, y ∈ inorder t' ↔ y = x ∨ (y ∈ c.live ∧ c.parent y = p) ∧ y ≠ old)
    (hout : ∀ b, ¬(b ∈ c.live ∧ c.parent b = p) → some b ≠ some x → SameOn (s.links p) l [b]) :
    ((s.linked p l).withParent x (some p)).Holds text ((c.unlinked old).insert x p name) := by
  -- the children of the parent, and those of all other nodes
  obtain ⟨t, htree, hmem⟩ := h.tree p
  have hne (y : ℕ) (hy : y ∈ c.live) : y ≠ x := by
    rintro rfl
    exact hx hy
  have hsame (q : ℕ) (hq : q ≠ p) : SameChildren c s (s.setLinks p l) q :=
    sameChildren_setLinks hmem (fun b hb => hout b fun hchild => hb ((hmem b).2 hchild))
      (fun y hy hyx => hne y hy (Option.some.inj hyx)) hq
  -- `s4` is the store at the end, of which only the node itself and one list have changed
  generalize hs4 : (s.linked p l).withParent x (some p) = s4
  have hlinks (q : ℕ) : s4.links q = (s.setLinks p l).links q := by
    rw [← hs4]
    exact (s.linked p l).withParent_links x (some p) q
  have hins : s4.inserted = s.inserted + 1 := by
    rw [← hs4]
    rfl
  have hnode (a : ℕ) : (s4.node a).name = (s.node a).name ∧
      (s4.node a).parent = if a = x then some p else (s.node a).parent := by
    rw [← hs4, NodeStore.withParent_node]
    exact ⟨rfl, rfl⟩
  -- the node is new, what was replaced is gone, and everything else lives on
  have hlive (y : ℕ) : y ∈ ((c.unlinked old).insert x p name).live ↔ y = x ∨ y ≠ old ∧ y ∈ c.live := by
    show y ∈ Insert.insert x (c.live.erase old) ↔ _
    rw [Finset.mem_insert, Finset.mem_erase]
  have hparent (y : ℕ) : ((c.unlinked old).insert x p name).parent y =
      if y = x then p else c.parent y := Function.update_apply ..
  refine ⟨fun q => ?_, fun y hy => ?_, fun y hy => ?_, ?_, ?_⟩
  · by_cases hq : q = p
    · subst hq
      refine ⟨t', ?_, fun y => ?_⟩
      · rw [hlinks, NodeStore.links_setLinks, hins]
        exact htree'.congr_names fun a _ => (hnode a).1
      · rw [hmem', hlive, hparent]
        by_cases hyx : y = x
        · simp [hyx]
        · simp only [hyx, false_or, if_false]
          tauto
    · obtain ⟨u, hu, humem⟩ := h.tree q
      refine ⟨u, ?_, fun y => ?_⟩
      · have hrest : SameChildren c s s4 q := by
          obtain ⟨hchildren, hitems⟩ := hsame q hq
          constructor
          · have hroot := congrArg Links.root (hlinks q)
            exact hroot.trans hchildren
          · rw [hlinks]
            exact hitems
        exact hrest.sortedTree hu humem (fun y _ => (hnode y).1) (by omega)
      · rw [humem, hlive, hparent]
        by_cases hyx : y = x
        · subst hyx
          simp [hx, Ne.symm hq]
        · simp only [hyx, false_or, if_false]
          constructor
          · rintro ⟨hy, hyq⟩
            refine ⟨⟨?_, hy⟩, hyq⟩
            rintro rfl
            exact hq (hyq.symm.trans (hold hy))
          · rintro ⟨⟨-, hy⟩, hyq⟩
            exact ⟨hy, hyq⟩
  · rw [(hnode y).1]
    show _ = some (Function.update c.name x name y)
    rcases (hlive y).1 hy with hyx | ⟨-, hy⟩
    · rw [hyx, Function.update_self, hname]
    · rw [Function.update_of_ne (hne y hy), h.name y hy]
  · rw [(hnode y).2, hparent]
    rcases (hlive y).1 hy with hyx | ⟨-, hy⟩
    · rw [if_pos hyx, if_pos hyx]
    · rw [if_neg (hne y hy), if_neg (hne y hy)]
      exact h.parent y hy
  · obtain ⟨rank, hrank⟩ := h.rank
    have hrank' : (c.unlinked old).Ranked rank := fun y hy => hrank y (Finset.mem_of_mem_erase hy)
    exact ⟨_, hrank'.insert fun hb => hp hb.of_unlinked⟩
  · rw [hins]
    have hcard := (Finset.card_insert_le x (c.live.erase old)).trans
      (Nat.succ_le_succ (Finset.card_erase_le.trans h.card))
    exact hcard

/-- The end of `smcp_node_init`, for a node with cleared links whose name none of its siblings has. -/
theorem insertChild_holds (h : s.Holds text c) (hx : x ∉ c.live) (hp : ¬c.Below x p)
    (hname : (s.node x).name = some name)
    (hlhs : (s.node x).lhs = none) (hrhs : (s.node x).rhs = none)
    (hpar : (s.node x).btParent = none) (hfits : s.Fits text p (some name))
    (hnames : ∀ y ∈ c.live, c.parent y = p → (text (c.name y)).bytes ≠ (text name).bytes) :
    ((insertChild text s x p).withParent x (some p)).Holds text (c.insert x p name) := by
  obtain ⟨t, htree, hmem⟩ := h.tree p
  have hnew : x ∉ inorder t := fun hin => hx ((hmem x).1 hin).1
  have horder : ∀ y ∈ inorder t, s.order text y x ≠ 0 := by
    intro y hy h0
    obtain ⟨hlive, hparent⟩ := (hmem y).1 hy
    unfold NodeStore.order at h0
    rw [hname, h.name y hlive] at h0
    exact hnames y hlive hparent (strcmp_eq_zero_iff.1 h0)
  obtain ⟨l, t', htree', hperm, hout, heq⟩ :=
    insertChild_eq htree (hname ▸ hfits) hnew hlhs hrhs hpar
  have hall : (inorder t).filter (fun a => s.order text a x ≠ 0) = inorder t :=
    List.filter_eq_self.2 fun a ha => decide_eq_true (horder a ha)
  have hnone : (inorder t).find? (fun a => s.order text a x = 0) = none :=
    List.find?_eq_none.2 fun a ha h0 => horder a ha (of_decide_eq_true h0)
  rw [hall] at hperm
  rw [hnone] at heq
  -- nothing is replaced
  have hunlinked : c.unlinked x = c := by
    rw [NodeContents.unlinked, Finset.erase_eq_of_notMem hx]
  rw [heq, ← hunlinked]
  refine h.linked hx hp hname (fun hlive => absurd hlive hx) htree' (fun y => ?_)
    fun b hb => hout b fun hin => hb ((hmem b).1 hin)
  rw [hperm.mem_iff, List.mem_cons, hmem]
  constructor
  · rintro (rfl | ⟨hlive, hparent⟩)
    · exact .inl rfl
    · exact .inr ⟨⟨hlive, hparent⟩, fun heq => hx (heq ▸ hlive)⟩
  · rintro (rfl | ⟨hchild, -⟩)
    · exact .inl rfl
    · exact .inr hchild

variable (text) in
/-- `smcp_node_init` of a child: the insertion, with the memory of the node prepared. -/
theorem smcpNodeInit_eq {self alloc : Option ℕ} (p name : ℕ) (hself : self.or alloc = some x)
    (hlinks : self = some x →
      (s.node x).lhs = none ∧ (s.node x).rhs = none ∧ (s.node x).btParent = none)
    (hfresh : self = none → (s.node x).children = none) :
    ∃ s1, smcpNodeInit text s self alloc (some p) (some name) =
        ((insertChild text s1 x p).withParent x (some p), some x) ∧
      (∀ y, y ≠ x → s1.node y = s.node y) ∧ (s1.node x).children = (s.node x).children ∧
      s1.inserted = s.inserted ∧ (s1.node x).name = some name ∧
      (s1.node x).lhs = none ∧ (s1.node x).rhs = none ∧ (s1.node x).btParent = none := by
  cases self with
  | some self =>
    obtain rfl : self = x := Option.some.inj hself
    refine ⟨_, rfl, fun y hy => ?_, ?_, rfl, ?_, ?_⟩
    · simp [NodeStore.setNode_node, hy]
    · simp [NodeStore.setNode_node]
    · simp [NodeStore.setNode_node]
    · simpa [NodeStore.setNode_node] using hlinks rfl
  | none =>
    obtain rfl : alloc = some x := hself
    refine ⟨_, rfl, fun y hy => ?_, ?_, rfl, ?_⟩
    · simp [NodeStore.setNode_node, hy]
    · simp [NodeStore.setNode_node, SmcpNode.zero, hfresh rfl]
    · simp [NodeStore.setNode_node, SmcpNode.zero]

end

/-! ## Finding -/

/-- The order of a name against the `len` bytes behind a pointer. If the terminator is among them
they are no name, and come right behind the string that it ends. -/
def probeOrder (rhs len : ℕ) : Option ℕ → ℤ
  | none => 1
  | some l =>
    if len ≤ (text rhs).bytes.length then strcmp (text l) ((text rhs).take len)
    else if strcmp (text l) (text rhs) = 0 then -1
    else strcmp (text l) (text rhs)

/-- On the way of `smcp_node_find` every result of `strncmp` fits a `signed char`, and a name that
is behind the same pointer has the same length. -/
def NodeStore.FindFits (s : NodeStore) (p rhs len : ℕ) : Prop :=
  ∀ a ∈ btPath (s.links p) (fun a => smcpNodeNcompareCstr text (s.node a).name (some rhs) len)
      (s.inserted + 1) (s.node p).children,
    ∀ l ∈ (s.node a).name,
      (l = rhs → (text l).bytes.length = len) ∧ FitsChar (strncmp (text l) (text rhs) len)

instance (s : NodeStore) (p rhs len : ℕ) : Decidable (s.FindFits text p rhs len) :=
  inferInstanceAs (Decidable (∀ a ∈ btPath _ _ _ _, ∀ l ∈ (s.node a).name, (_ → _) ∧ FitsChar _))

section
variable {text} {s : NodeStore} {c : NodeContents} {p rhs len : ℕ}

/-- All of a string is the string. -/
theorem cstr_take_length (u : CStr) : u.take u.bytes.length = u := by
  rw [CStr.take, CStr.mk.injEq, List.take_length]

/-- Where the result of `strncmp` fits, `smcp_node_ncompare_cstr` follows the order. -/
theorem smcpNodeNcompareCstr_sign {l : ℕ} (hptr : l = rhs → (text l).bytes.length = len)
    (hfits : FitsChar (strncmp (text l) (text rhs) len)) :
    (smcpNodeNcompareCstr text (some l) (some rhs) len < 0 ↔ probeOrder text rhs len (some l) < 0) ∧
      (smcpNodeNcompareCstr text (some l) (some rhs) len = 0 ↔
        probeOrder text rhs len (some l) = 0) := by
  unfold smcpNodeNcompareCstr probeOrder
  dsimp only
  -- a string with the same address is the same, and its characters are not looked at
  rw [btCompareResult_of_fits hfits]
  by_cases heq : l = rhs
  · subst heq
    rw [if_pos rfl, ← hptr rfl, if_pos (Nat.le_refl _), cstr_take_length, strcmp_self]
    exact ⟨Iff.rfl, Iff.rfl⟩
  · rw [if_neg fun h => heq (Option.some.inj h)]
    by_cases hlen : len ≤ (text rhs).bytes.length
    · rw [if_pos hlen]
      rcases strncmp_eq_or (s := text l) hlen with ⟨hzero, htake⟩ | ⟨hne, hval⟩
      · rw [if_pos hzero, hzero]
        have hsame : (text rhs).take len = (text l).take len := by
          rw [CStr.take, CStr.take, CStr.mk.injEq, htake]
        have hge : len ≤ (text l).bytes.length := by
          have hlength := congrArg List.length htake
          rw [List.length_take, List.length_take] at hlength
          omega
        rw [hsame]
        by_cases hlt : len < (text l).bytes.length
        · have hpos : 0 < strcmp (text l) ((text l).take len) := cmp_take_pos (text l).noNul hlt
          rw [if_pos hlt]
          omega
        · have hfull : len = (text l).bytes.length := by omega
          rw [if_neg hlt, if_neg (by omega), hfull, cstr_take_length, strcmp_self]
          exact ⟨Iff.rfl, Iff.rfl⟩
      · rw [if_neg hne, hval]
        exact ⟨Iff.rfl, Iff.rfl⟩
    · rw [if_neg hlen, strncmp_of_length_lt (by omega)]
      by_cases hzero : strcmp (text l) (text rhs) = 0
      · have hlength := congrArg List.length (strcmp_eq_zero_iff.1 hzero)
        rw [if_pos hzero, if_pos hzero, if_neg (by omega), if_pos (by omega)]
        exact ⟨Iff.rfl, Iff.rfl⟩
      · rw [if_neg hzero, if_neg hzero]
        exact ⟨Iff.rfl, Iff.rfl⟩

/-- Only the name itself is equal. -/
theorem probeOrder_eq_zero_iff {l : ℕ} : probeOrder text rhs len (some l) = 0 ↔
    (text l).bytes = (text rhs).bytes.take len ∧ (text l).bytes.length = len := by
  unfold probeOrder
  dsimp only
  split_ifs with hlen hzero
  · rw [strcmp_eq_zero_iff]
    constructor
    · intro h
      refine ⟨h, ?_⟩
      rw [h]
      show ((text rhs).bytes.take len).length = len
      rw [List.length_take]
      omega
    · exact fun h => h.1
  all_goals
    constructor
    · intro h
      first | exact absurd h (by decide) | exact absurd h hzero
    · rintro ⟨htake, hlength⟩
      rw [htake, List.length_take] at hlength
      omega

/-- A name can be searched for among the children. -/
theorem searchable_probeOrder {l : List ℕ} (hsorted : l.Pairwise fun a b => s.order text a b < 0)
    (hnames : ∀ a ∈ l, ∃ n, (s.node a).name = some n) :
    Searchable (fun a => probeOrder text rhs len (s.node a).name) l := by
  -- what is above a name that is not below the probe is above the probe
  have hstep (a b u : CStr) (hab : strcmp a b < 0) (hau : 0 ≤ strcmp a u) : 0 < strcmp b u := by
    by_contra hle
    have hswap := strcmp_swap a u
    have htrans := strcmp_trans (s := b) (t := u) (u := a) (by omega) (by omega)
    have hswap' := strcmp_swap a b
    omega
  refine hsorted.imp_of_mem fun {a b} ha hb hab => ?_
  obtain ⟨n, hn⟩ := hnames a ha
  obtain ⟨m, hm⟩ := hnames b hb
  have hnm : strcmp (text n) (text m) < 0 := by
    unfold NodeStore.order at hab
    rwa [hn, hm] at hab
  dsimp only
  rw [hn, hm]
  unfold probeOrder
  dsimp only
  by_cases hlen : len ≤ (text rhs).bytes.length
  · rw [if_pos hlen, if_pos hlen]
    exact hstep _ _ _ hnm
  · rw [if_neg hlen, if_neg hlen]
    by_cases hzero : strcmp (text n) (text rhs) = 0
    · rw [if_pos hzero]
      intro hge
      exact absurd hge (by decide)
    · rw [if_neg hzero]
      intro hge
      have hpos := hstep _ _ _ hnm hge
      rw [if_neg (by omega)]
      exact hpos

/-- `smcp_node_find` finds the child of that name. -/
theorem NodeStore.Holds.find (h : s.Holds text c) (hfits : s.FindFits text p rhs len) (x : ℕ) :
    smcpNodeFind text s p (some rhs) len = some x ↔
      x ∈ c.live ∧ c.parent x = p ∧ (text (c.name x)).bytes = (text rhs).bytes.take len ∧
        (text (c.name x)).bytes.length = len := by
  obtain ⟨t, htree, hmem⟩ := h.tree p
  have hrep : Rep (s.links p) none (s.node p).children t := htree.rep
  have hcmp := isComparison_order text s
  have hfuel := htree.fuel
  have hname (a : ℕ) (ha : a ∈ inorder t) : (s.node a).name = some (c.name a) :=
    h.name a ((hmem a).1 ha).1
  have hsign : ∀ a ∈ btPath (s.links p)
      (fun a => smcpNodeNcompareCstr text (s.node a).name (some rhs) len) (s.inserted + 1)
      (s.node p).children,
      SameSign (fun a => smcpNodeNcompareCstr text (s.node a).name (some rhs) len)
        (fun a => probeOrder text rhs len (s.node a).name) a := by
    intro a ha
    have hna := hname a (btPath_subset hrep _ ha)
    obtain ⟨hptr, hfit⟩ := hfits a ha _ hna
    unfold SameSign
    dsimp only
    rw [hna]
    exact smcpNodeNcompareCstr_sign hptr hfit
  have hsearch : Searchable (fun a => probeOrder text rhs len (s.node a).name) (inorder t) :=
    searchable_probeOrder htree.sorted fun a ha => ⟨_, hname a ha⟩
  have hzero (a : ℕ) (ha : a ∈ inorder t) : probeOrder text rhs len (s.node a).name = 0 ↔
      (text (c.name a)).bytes = (text rhs).bytes.take len ∧ (text (c.name a)).bytes.length = len := by
    rw [hname a ha]
    exact probeOrder_eq_zero_iff
  rw [smcpNodeFind, btFind_congr hsign, btFind_eq hrep (by omega), find_eq_find? hsearch]
  constructor
  · intro hfind
    have hx := List.mem_of_find?_eq_some hfind
    have h0 := List.find?_some hfind
    obtain ⟨hlive, hparent⟩ := (hmem x).1 hx
    exact ⟨hlive, hparent, (hzero x hx).1 (of_decide_eq_true h0)⟩
  · rintro ⟨hlive, hparent, hbytes⟩
    have hx := (hmem x).2 ⟨hlive, hparent⟩
    cases hfind : (inorder t).find? fun a => probeOrder text rhs len (s.node a).name = 0 with
    | none =>
      rw [List.find?_eq_none] at hfind
      exact absurd (decide_eq_true ((hzero x hx).2 hbytes)) (hfind x hx)
    | some y =>
      have hy := List.mem_of_find?_eq_some hfind
      have h0 := List.find?_some hfind
      have hybytes := (hzero y hy).1 (of_decide_eq_true h0)
      -- two children of one name are one child
      have horder : s.order text y x = 0 := by
        unfold NodeStore.order
        rw [hname y hy, hname x hx]
        exact strcmp_eq_zero_iff.2 (hybytes.1.trans hbytes.1.symm)
      rw [htree.eq_of_zero hcmp hy hx horder (hcmp.refl x)]

end

/-! ## Sequences of operations -/

/-- What is done with a tree of nodes. -/
inductive NodeOp where
  /-- `smcp_node_init` of a child. Without a `self` the node is the one that `calloc` returns. -/
  | init (self alloc : Option ℕ) (node name : ℕ)
  | delete (node : ℕ)
deriving Repr, DecidableEq

namespace NodeOp

def exec (op : NodeOp) (s : NodeStore) : NodeStore :=
  match op with
  | init self alloc node name => (smcpNodeInit text s self alloc (some node) (some name)).1
  | delete node => smcpNodeDelete text (s.inserted + 1) s node

/-- What the operation does to the contents. -/
noncomputable def apply (op : NodeOp) (c : NodeContents) : NodeContents :=
  match op with
  | init self alloc node name =>
    match self.or alloc with
    | none => c
    | some x => c.insert x node name
  | delete node => c.without node

/-- A node that is initialised is in no tree and no parent, what the caller passes has cleared links,
and no sibling has its name. A node that is deleted is in the tree. -/
def Allowed (op : NodeOp) (s : NodeStore) (c : NodeContents) : Prop :=
  match op with
  | init self alloc node name =>
    ∀ x, self.or alloc = some x →
      (x ∉ c.live ∧ (∀ y ∈ c.live, c.parent y ≠ x) ∧ node ≠ x) ∧
      (self = some x →
        (s.node x).lhs = none ∧ (s.node x).rhs = none ∧ (s.node x).btParent = none) ∧
      ∀ y ∈ c.live, c.parent y = node → (text (c.name y)).bytes ≠ (text name).bytes
  | delete node => node ∈ c.live

/-- No comparison of the operation gives a number that a `signed char` cannot hold. -/
def Fits (op : NodeOp) (s : NodeStore) : Prop :=
  match op with
  | init _ _ node name => s.Fits text node (some name)
  | delete node => ∀ p ∈ (s.node node).parent, s.Fits text p (s.node node).name

instance (op : NodeOp) (s : NodeStore) : Decidable (op.Fits text s) :=
  match op with
  | init _ _ node name => inferInstanceAs (Decidable (s.Fits text node (some name)))
  | delete node => inferInstanceAs (Decidable (∀ p ∈ (s.node node).parent, _))

/-- The operation, on the memory and on the contents. -/
noncomputable def run (op : NodeOp) (w : NodeStore × NodeContents) : NodeStore × NodeContents :=
  (op.exec text w.1, op.apply w.2)

end NodeOp

section
variable {text} {s : NodeStore} {c : NodeContents}

/-- One operation. -/
theorem NodeStore.Holds.exec (h : s.Holds text c) (op : NodeOp) (hallowed : op.Allowed text s c)
    (hfits : op.Fits text s) : (op.exec text s).Holds text (op.apply c) := by
  -- one case for each call
  cases op with
  | delete n =>
    have hfit : s.Fits text (c.parent n) (s.node n).name := hfits _ (h.parent n hallowed)
    classical
    have hcard : (c.live.filter (c.Below n)).card ≤ s.inserted + 1 :=
      (Finset.card_le_card (Finset.filter_subset _ _)).trans (Nat.le_succ_of_le h.card)
    exact (smcpNodeDelete_holds h hallowed hcard hfit).1
  | init self alloc node name =>
    unfold NodeOp.exec NodeOp.apply
    dsimp only
    cases hself : self.or alloc with
    | none =>
      obtain ⟨rfl, rfl⟩ := Option.or_eq_none_iff.1 hself
      exact h
    | some x =>
      obtain ⟨⟨hx, hleaf, hne⟩, hlinks, hnames⟩ := hallowed x hself
      have hnone : (s.node x).children = none := h.children_eq_none_iff.2 hleaf
      obtain ⟨s1, heq, hnode, hchildren, hins, hname, hlhs, hrhs, hpar⟩ :=
        smcpNodeInit_eq text node name hself hlinks fun _ => hnone
      obtain ⟨h1, hsame⟩ := h.setNode hx hnode hchildren hins
      have hfit : s1.Fits text node (some name) := by
        refine NodeStore.Fits.same hfits h (hsame node) (fun y hy => ?_) hins
        rw [hnode y fun heq => hx (heq ▸ hy)]
      have hp : ¬c.Below x node := fun hb => hne ((NodeContents.below_leaf_iff hleaf).1 hb)
      rw [heq]
      exact insertChild_holds h1 hx hp hname hlhs hrhs hpar hfit hnames

/-- A whole sequence. -/
theorem NodeStore.Holds.run {w : NodeStore × NodeContents} (h : w.1.Holds text w.2)
    (ops : List NodeOp)
    (hsteps : AllSteps (NodeOp.run text) (fun op w => op.Allowed text w.1 w.2 ∧ op.Fits text w.1) w
      ops) :
    (ops.foldl (fun w op => op.run text w) w).1.Holds text
      (ops.foldl (fun w op => op.run text w) w).2 := by
  induction ops generalizing w with
  | nil => exact h
  | cons op ops ih =>
    obtain ⟨⟨hallowed, hfits⟩, hrest⟩ := hsteps
    exact ih (h.exec op hallowed hfits) hrest

end

/-- Start with an empty memory and do a list of operations. -/
noncomputable def nodeRun (ops : List NodeOp) : NodeStore × NodeContents :=
  ops.foldl (fun w op => op.run text w) (.empty, .empty)

/-- The node tree as a store: after every sequence of operations in which no comparison gets the
wrong sign, `smcp_node_find` finds exactly the child of the given name, at every node. -/
theorem nodeRun_find (ops : List NodeOp)
    (hsteps : AllSteps (NodeOp.run text) (fun op w => op.Allowed text w.1 w.2 ∧ op.Fits text w.1)
      (.empty, .empty) ops) (p rhs len : ℕ) (hfits : (nodeRun text ops).1.FindFits text p rhs len)
    (x : ℕ) : smcpNodeFind text (nodeRun text ops).1 p (some rhs) len = some x ↔
      x ∈ (nodeRun text ops).2.live ∧ (nodeRun text ops).2.parent x = p ∧
        (text ((nodeRun text ops).2.name x)).bytes = (text rhs).bytes.take len ∧
        (text ((nodeRun text ops).2.name x)).bytes.length = len := by
  have hempty : (NodeStore.empty, NodeContents.empty).1.Holds text
      (NodeStore.empty, NodeContents.empty).2 := NodeStore.Holds.empty
  exact (hempty.run ops hsteps).find hfits x

section
variable {text} {s : NodeStore} {p rhs len : ℕ}

/-- ASCII names always fit. -/
theorem NodeStore.fits_of_ascii (hascii : ∀ n, ∀ b ∈ (text n).bytes, b < 128) (name : Option ℕ) :
    s.Fits text p name := by
  intro a _ l _ r _
  have hrange := cmp_range_of_ascii (hascii l) (hascii r)
  unfold FitsChar strcmp
  omega

/-- Names in ASCII never leave the range of a `signed char`. -/
theorem NodeStore.findFits_of_ascii (hascii : ∀ n, ∀ b ∈ (text n).bytes, b < 128)
    (hptr : ∀ a, (s.node a).name = some rhs → (text rhs).bytes.length = len) :
    s.FindFits text p rhs len := by
  intro a _ l hl
  refine ⟨fun heq => heq ▸ hptr a (heq ▸ hl), ?_⟩
  unfold FitsChar
  by_cases hlen : len ≤ (text rhs).bytes.length
  · have hrange := cmp_range_of_ascii (hascii l) (t := ((text rhs).take len).bytes)
      fun b hb => hascii rhs b (List.mem_of_mem_take hb)
    rcases strncmp_eq_or (s := text l) hlen with ⟨hzero, -⟩ | ⟨-, hval⟩
    · omega
    · rw [← hval]
      unfold strcmp
      omega
  · have hrange := cmp_range_of_ascii (hascii l) (hascii rhs)
    rw [strncmp_of_length_lt (by omega)]
    unfold strcmp
    omega

end

/-- The names `é`, `a`, `aé` and `ab`. -/
def exampleText : ℕ → CStr
  | 1 => ⟨[0xC3, 0xA9], by decide +kernel⟩
  | 2 => ⟨[0x61], by decide +kernel⟩
  | 3 => ⟨[0x61, 0xC3, 0xA9], by decide +kernel⟩
  | _ => ⟨[0x61, 0x62], by decide +kernel⟩

/-- A name that is taken off the front of a longer string is found. -/
theorem nodeRun_find_ab :
    smcpNodeFind exampleText (nodeRun exampleText [.init none (some 11) 10 2,
        .init (some 12) none 10 4, .delete 11]).1 10 (some 7) 2 = some 12 ↔
      12 ∈ (nodeRun exampleText [.init none (some 11) 10 2,
        .init (some 12) none 10 4, .delete 11]).2.live ∧
      (nodeRun exampleText [.init none (some 11) 10 2,
        .init (some 12) none 10 4, .delete 11]).2.parent 12 = 10 ∧
      (exampleText ((nodeRun exampleText [.init none (some 11) 10 2,
        .init (some 12) none 10 4, .delete 11]).2.name 12)).bytes =
          (exampleText 7).bytes.take 2 ∧
      (exampleText ((nodeRun exampleText [.init none (some 11) 10 2,
        .init (some 12) none 10 4, .delete 11]).2.name 12)).bytes.length = 2 := by
  apply nodeRun_find
  · refine ⟨⟨?_, by decide +kernel⟩, ⟨?_, by decide +kernel⟩, ⟨?_, ?_⟩, trivial⟩
    · intro x hx
      obtain rfl := Option.some.inj hx
      decide
    · intro x hx
      obtain rfl := Option.some.inj hx
      decide
    · exact Finset.mem_insert_of_mem (Finset.mem_insert_self 11 ∅)
    · decide +kernel
  · decide +kernel

/-- A node named `aé` hides the one named `a` that was inserted behind it. -/
theorem nodeFind_misses : ¬∀ (text : ℕ → CStr) (ops : List NodeOp),
    AllSteps (NodeOp.run text) (fun op w => op.Allowed text w.1 w.2) (.empty, .empty) ops →
    ∀ p rhs len x, smcpNodeFind text (nodeRun text ops).1 p (some rhs) len = some x ↔
      x ∈ (nodeRun text ops).2.live ∧ (nodeRun text ops).2.parent x = p ∧
        (text ((nodeRun text ops).2.name x)).bytes = (text rhs).bytes.take len ∧
        (text ((nodeRun text ops).2.name x)).bytes.length = len := by
  intro h
  have hfind := (h exampleText [.init none (some 11) 10 3, .init none (some 12) 10 2]
    ?_ 10 7 1 12).2 ⟨by decide, rfl, rfl, rfl⟩
  · revert hfind
    decide +kernel
  · refine ⟨?_, ?_, trivial⟩
    · intro x hx
      obtain rfl := Option.some.inj hx
      decide
    · intro x hx
      obtain rfl := Option.some.inj hx
      decide

end Smcp
