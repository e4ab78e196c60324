import Smcp.Node.Store

/-!
# Replacing a node

`smcp_node_init` with the name of a child that is there already. `bt_insert` links the new node in
the place of the old one and then deletes the old one with `smcp_node_delete`, which looks for the
name among the children and finds the new node.
-/

namespace Smcp

open LinkedTree CStr Run

/-- What a replacement has to do: the name is that of the new node, the old one and what is below it
are finalised once and the new one is not, and the other children are found as before. -/
structure Replaced (text : ℕ → CStr) (s s' : NodeStore) (c : NodeContents) (p old new name : ℕ) :
    Prop where
  found : smcpNodeFind text s' p (some name) (text name).bytes.length = some new
  finalized : ∀ x, c.Below old x → s'.finalized.count x = s.finalized.count x + 1
  kept : s'.finalized.count new = s.finalized.count new
  others : ∀ y ∈ c.live, c.parent y = p → y ≠ old →
    smcpNodeFind text s' p (some (c.name y)) (text (c.name y)).bytes.length = some y

section
variable {text : ℕ → CStr} {s : NodeStore} {c : NodeContents} {n p x old : ℕ}

/-! ## Deleting a node that is no child any more -/

open Classical in
/-- The loop of `smcp_node_delete` takes everything away that is below the node, and leaves the
children of its parent alone. Then comes the search for the name of the node among them. -/
theorem smcpNodeDelete_unlinked {fuel : ℕ} (h : s.Holds text c) (hold : old ∉ c.live)
    (hx : ¬c.Below old x) (hparent : (s.node old).parent = some p) (hp : ¬c.Below old p)
    (hfuel : (c.live.filter (c.Below old)).card < fuel) (v : Option ℕ) :
    ∃ s' c', s'.Holds text c' ∧
      (∀ y, y ∈ c'.live ∧ c'.parent y = p ↔ y ∈ c.live ∧ c.parent y = p) ∧
      (∀ a, (s'.node a).name = (s.node a).name) ∧
      smcpNodeDelete text fuel (s.withParent x v) old =
        (removeChild text s' old p).withParent x v := by
  induction fuel generalizing s c with
  | zero => exact absurd hfuel (Nat.not_lt_zero _)
  | succ fuel ih =>
    have hne : old ≠ x := fun heq => hx (heq ▸ NodeContents.Below.refl c old)
    rw [smcpNodeDelete, NodeStore.withParent_node, if_neg hne]
    dsimp only
    cases hchild : (s.node old).children with
    | none =>
      dsimp only
      rw [hparent]
      exact ⟨s, c, h, fun y => Iff.rfl, fun a => rfl, removeChild_withParent s old p x v⟩
    | some child =>
      dsimp only
      obtain ⟨hlive, hchildParent⟩ := h.child hchild
      have hbelow : c.Below old child :=
        NodeContents.Below.of_parent hlive (hchildParent ▸ NodeContents.Below.refl c _)
      -- one round: a child that is there in the contents
      have hsmaller : (c.live.filter (c.Below child)).card ≤ fuel := by
        have hsubset : c.live.filter (c.Below child) ⊆ c.live.filter (c.Below old) := by
          intro y hy
          obtain ⟨hy, hb⟩ := Finset.mem_filter.1 hy
          exact Finset.mem_filter.2 ⟨hy, hbelow.trans hb⟩
        have hcard := Finset.card_le_card hsubset
        omega
      have hfirst : s.Fits text (c.parent child) (s.node child).name := by
        rw [hchildParent]
        exact NodeStore.fits_first hchild
      obtain ⟨hholds, -, hskip⟩ := smcpNodeDelete_holds h hlive hsmaller hfirst
      obtain ⟨hname, hparents, -⟩ := smcpNodeDelete_same text fuel s child
      rw [hskip x v fun hb => hx (hbelow.trans hb)]
      generalize smcpNodeDelete text fuel s child = s1 at *
      -- the other rounds
      have hrest : ((c.without child).live.filter ((c.without child).Below old)).card < fuel := by
        have hsubset : (c.without child).live.filter ((c.without child).Below old) ⊂
            c.live.filter (c.Below old) := by
          apply Finset.ssubset_iff_subset_ne.2
          constructor
          · intro y hy
            obtain ⟨hy, hb⟩ := Finset.mem_filter.1 hy
            exact Finset.mem_filter.2 ⟨(NodeContents.mem_without.1 hy).1, hb.of_without⟩
          · intro heq
            have hmem : child ∈ c.live.filter (c.Below old) := Finset.mem_filter.2 ⟨hlive, hbelow⟩
            rw [← heq] at hmem
            have hwithout := (NodeContents.mem_without.1 (Finset.mem_filter.1 hmem).1).2
            exact hwithout (NodeContents.Below.refl c child)
        have hcard := Finset.card_lt_card hsubset
        omega
      obtain ⟨s', c', hholds', hmem, hname', heq⟩ := ih hholds
        (fun hin => hold (NodeContents.mem_without.1 hin).1) (fun hb => hx hb.of_without)
        ((hparents old).trans hparent) (fun hb => hp hb.of_without) hrest
      refine ⟨s', c', hholds', fun y => ?_, fun a => (hname' a).trans (hname a), heq⟩
      rw [hmem, NodeContents.mem_without]
      show (y ∈ c.live ∧ ¬c.Below child y) ∧ c.parent y = p ↔ _
      constructor
      · intro hy
        exact ⟨hy.1.1, hy.2⟩
      · intro hy
        refine ⟨⟨hy.1, fun hb => ?_⟩, hy.2⟩
        -- a child of `p` is not below a child of the node
        rcases NodeContents.below_iff.1 hb with heq | ⟨-, hb⟩
        · rw [heq, hchildParent] at hy
          exact hp (hy.2 ▸ NodeContents.Below.refl c old)
        · rw [hy.2] at hb
          exact hp (hbelow.trans hb)

/-- After `bt_remove` no child of that name is found any more. -/
theorem smcpNodeFind_removeChild (h : s.Holds text c) (hfits : s.Fits text p (s.node n).name)
    (horder : s.order text x n = 0) (name : Option ℕ) (len : ℕ) :
    smcpNodeFind text (removeChild text s n p) p name len ≠ some x := by
  intro hfind
  obtain ⟨t, htree, -⟩ := h.tree p
  have hremove : btRemove (s.links p)
      (fun a => smcpNodeCompare text (s.node a).name (s.node n).name) (s.inserted + 1) =
      btRemove (s.links p) (fun a => s.order text a n) (s.inserted + 1) :=
    btRemove_congr hfits.sameSign
  obtain ⟨t', htree', hin, -⟩ := htree.remove (isComparison_order text s) n
  have hlinks : (removeChild text s n p).links p =
      (btRemove (s.links p) (fun a => s.order text a n) (s.inserted + 1)).1 := by
    unfold NodeStore.links
    rw [removeChild_node, hremove]
    exact s.links_setLinks p _
  have hmem := btPath_subset (hlinks ▸ htree'.rep) _ (btFind_mem_btPath hfind)
  rw [hin, List.mem_filter] at hmem
  exact absurd horder (of_decide_eq_true hmem.2)

/-! ## The replacement -/

theorem smcpNodeFind_withParent (s : NodeStore) (x : ℕ) (v : Option ℕ) (p : ℕ) (name : Option ℕ)
    (len : ℕ) : smcpNodeFind text (s.withParent x v) p name len = smcpNodeFind text s p name len := by
  have hinserted : (s.withParent x v).inserted = s.inserted := rfl
  unfold smcpNodeFind
  simp only [NodeStore.withParent_links, NodeStore.withParent_node, hinserted]

/-- With the new node in the place of the old one, neither it nor its parent is below the old one. -/
theorem not_below_replaced {new : ℕ} (hrank : ∃ rank, c.Ranked rank) (hbelow : ¬c.Below new p)
    (hold : old ∈ c.live) (hparent : c.parent old = p) (hne : old ≠ new) (name : ℕ) :
    ¬((c.unlinked old).insert new p name).Below old new ∧
      ¬((c.unlinked old).insert new p name).Below old p := by
  obtain ⟨rank, hrank⟩ := hrank
  obtain ⟨rank', hrank'⟩ : ∃ rank', (c.insert new p name).Ranked rank' :=
    ⟨_, hrank.insert hbelow⟩
  have hlt : rank' p < rank' old := by
    have h := hrank' old (Finset.mem_insert_of_mem hold)
    have heq : (c.insert new p name).parent old = p := by
      show Function.update c.parent new p old = p
      rw [Function.update_of_ne hne, hparent]
    rwa [heq] at h
  have hsub : ((c.unlinked old).insert new p name).Ranked rank' := fun y hy =>
    hrank' y (Finset.insert_subset_insert new (Finset.erase_subset old c.live) hy)
  have hp : ¬((c.unlinked old).insert new p name).Below old p :=
    fun hb => absurd (hsub.le hb) (by omega)
  refine ⟨fun hb => ?_, hp⟩
  rcases NodeContents.below_iff.1 hb with heq | ⟨-, hb⟩
  · exact hne heq.symm
  · have heq : ((c.unlinked old).insert new p name).parent new = p := Function.update_self ..
    rw [heq] at hb
    exact hp hb

/-- The node that replaces another one is not found. -/
theorem smcpNodeInit_not_found {self alloc : Option ℕ} {new name : ℕ} (h : s.Holds text c)
    (hascii : ∀ n, ∀ b ∈ (text n).bytes, b < 128) (hself : self.or alloc = some new)
    (hnew : new ∉ c.live) (hbelow : ¬c.Below new p)
    (hlinks : self = some new →
      (s.node new).lhs = none ∧ (s.node new).rhs = none ∧ (s.node new).btParent = none)
    (hfresh : self = none → ∀ y ∈ c.live, c.parent y ≠ new) (hold : old ∈ c.live)
    (hparent : c.parent old = p) (hname : (text (c.name old)).bytes = (text name).bytes)
    (rhs : Option ℕ) (len : ℕ) :
    smcpNodeFind text (smcpNodeInit text s self alloc (some p) (some name)).1 p rhs len ≠
      some new := by
  classical
  obtain ⟨s1, hinit, hnode, hchildren, hins, hnameNew, hlhs, hrhs, hpar⟩ :=
    smcpNodeInit_eq text p name hself hlinks fun hnone => h.children_eq_none_iff.2 (hfresh hnone)
  obtain ⟨h1, -⟩ := h.setNode hnew hnode hchildren hins
  have hnameOld : (s1.node old).name = some (c.name old) := h1.name old hold
  obtain ⟨t, htree, hmem⟩ := h1.tree p
  have hcmp := isComparison_order text s1
  have hzero : s1.order text old new = 0 := by
    unfold NodeStore.order
    rw [hnameOld, hnameNew]
    exact strcmp_eq_zero_iff.2 hname
  have holdIn : old ∈ inorder t := (hmem old).2 ⟨hold, hparent⟩
  -- `bt_insert` finds the old node
  obtain ⟨l, t', htree', hperm, hout, heq⟩ := insertChild_eq htree (NodeStore.fits_of_ascii hascii _)
    (fun hin => hnew ((hmem new).1 hin).1) hlhs hrhs hpar
  rw [(htree.find?_eq_some_iff hcmp new old).2 ⟨holdIn, hzero⟩] at heq
  dsimp only at heq
  have hlinked := h1.linked hnew hbelow hnameNew (fun _ => hparent) htree' (fun y => by
      rw [hperm.mem_iff, List.mem_cons, List.mem_filter, hmem, decide_eq_true_eq]
      apply or_congr_right
      apply and_congr_right
      intro hy
      apply not_congr
      constructor
      · intro h0
        exact htree.eq_of_zero hcmp ((hmem y).2 hy) holdIn h0 hzero
      · intro heq
        rw [heq]
        exact hzero)
    fun b hb => hout b fun hin => hb ((hmem b).1 hin)
  -- the deletion runs before the parent pointer of the new node is set
  have hne : old ≠ new := fun heq => hnew (heq ▸ hold)
  have hback := (s1.linked p l).withParent_withParent new (some p) ((s1.linked p l).node new).parent
  rw [NodeStore.withParent_self] at hback
  have hparentOld : (((s1.linked p l).withParent new (some p)).node old).parent = some p := by
    rw [NodeStore.withParent_node, if_neg hne]
    show (s1.node old).parent = some p
    rw [h1.parent old hold, hparent]
  obtain ⟨hnotNew, hnotParent⟩ := not_below_replaced h.rank hbelow hold hparent hne name
  have hnotLive : old ∉ ((c.unlinked old).insert new p name).live := by
    intro hin
    rcases Finset.mem_insert.1 hin with heq | hin
    · exact hne heq
    · exact Finset.notMem_erase old c.live hin
  have hfuel : (((c.unlinked old).insert new p name).live.filter
      (((c.unlinked old).insert new p name).Below old)).card < s1.inserted + 2 :=
    Nat.lt_succ_of_le ((Finset.card_le_card (Finset.filter_subset _ _)).trans hlinked.card)
  obtain ⟨s', c', hholds', -, hname', hdelete⟩ := smcpNodeDelete_unlinked hlinked hnotLive hnotNew
    hparentOld hnotParent hfuel ((s1.linked p l).node new).parent
  rw [hback] at hdelete
  rw [hinit]
  dsimp only
  rw [heq, hdelete, smcpNodeFind_withParent, smcpNodeFind_withParent]
  -- the search for the name of the old node finds the new one
  apply smcpNodeFind_removeChild hholds' (NodeStore.fits_of_ascii hascii _)
  have hnames (a : ℕ) : (s'.node a).name = (s1.node a).name := by
    rw [hname', NodeStore.withParent_node]
    rfl
  unfold NodeStore.order
  rw [hnames, hnames, hnameOld, hnameNew]
  exact strcmp_eq_zero_iff.2 hname.symm

/-- No replacement of a node is one: the new node is taken away again in place of the old one. -/
theorem smcpNodeInit_not_replaced {self alloc : Option ℕ} {new name : ℕ} (h : s.Holds text c)
    (hascii : ∀ n, ∀ b ∈ (text n).bytes, b < 128) (hself : self.or alloc = some new)
    (hnew : new ∉ c.live) (hbelow : ¬c.Below new p)
    (hlinks : self = some new →
      (s.node new).lhs = none ∧ (s.node new).rhs = none ∧ (s.node new).btParent = none)
    (hfresh : self = none → ∀ y ∈ c.live, c.parent y ≠ new) (hold : old ∈ c.live)
    (hparent : c.parent old = p) (hname : (text (c.name old)).bytes = (text name).bytes) :
    ¬Replaced text s (smcpNodeInit text s self alloc (some p) (some name)).1 c p old new name :=
  fun hreplaced => smcpNodeInit_not_found h hascii hself hnew hbelow hlinks hfresh hold hparent hname
    _ _ hreplaced.found

end

theorem sameText_ne_zero (b : UInt8) (hb : b ∈ [(0x61 : UInt8)]) : b ≠ 0 := by
  rw [List.mem_singleton] at hb
  rw [hb]
  decide

/-- All names are `a`. -/
def sameText (_ : ℕ) : CStr := ⟨[0x61], sameText_ne_zero⟩

/-- The node 10 with the one child 11, which was allocated. -/
noncomputable def oneChild : NodeStore × NodeContents := nodeRun sameText [.init none (some 11) 10 2]

theorem oneChild_holds : oneChild.1.Holds sameText oneChild.2 := by
  have hempty : (NodeStore.empty, NodeContents.empty).1.Holds sameText
      (NodeStore.empty, NodeContents.empty).2 := NodeStore.Holds.empty
  apply hempty.run
  refine ⟨⟨fun x hx => ?_, by decide +kernel⟩, trivial⟩
  obtain rfl := Option.some.inj hx
  decide

theorem oneChild_not_below : ¬oneChild.2.Below 12 10 := by
  have hleaf : ∀ y ∈ oneChild.2.live, oneChild.2.parent y ≠ 12 := by decide
  rw [NodeContents.below_leaf_iff hleaf]
  decide

theorem sameText_ascii : ∀ n, ∀ b ∈ (sameText n).bytes, b < 128 := by
  intro n b hb
  rw [List.mem_singleton.1 hb]
  decide

theorem smcpNodeInit_not_replaced_one :
    ¬Replaced sameText oneChild.1
      (smcpNodeInit sameText oneChild.1 none (some 12) (some 10) (some 2)).1 oneChild.2 10 11 12 2 :=
  smcpNodeInit_not_replaced oneChild_holds sameText_ascii rfl (by decide) oneChild_not_below
    (fun h => absurd h (by decide)) (fun _ => by decide) (by decide) (by decide) rfl

/-- The second child of one name is finalised with the function of the first. -/
theorem smcpNodeInit_replaces_wrongly : ¬∀ (text : ℕ → CStr) (s : NodeStore) (c : NodeContents)
    (p old new name : ℕ), s.Holds text c → (∀ n, ∀ b ∈ (text n).bytes, b < 128) → new ∉ c.live →
    ¬c.Below new p →
    (s.node new).lhs = none ∧ (s.node new).rhs = none ∧ (s.node new).btParent = none →
    old ∈ c.live → c.parent old = p → (text (c.name old)).bytes = (text name).bytes →
    Replaced text s (smcpNodeInit text s (some new) none (some p) (some name)).1 c p old new name := by
  intro h
  have hreplaced := h sameText oneChild.1 oneChild.2 10 11 12 2 oneChild_holds sameText_ascii
    (by decide) oneChild_not_below (by decide) (by decide) (by decide) rfl
  have hkept := hreplaced.kept
  revert hkept
  decide +kernel

end Smcp
