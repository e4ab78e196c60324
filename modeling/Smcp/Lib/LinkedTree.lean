import Mathlib.Data.Int.Notation
import Mathlib.Data.List.Nodup
import Mathlib.Data.Tree.Basic
import Mathlib.Tactic.Tauto

/-!
# Binary trees made of pointers

Nodes with `lhs`, `rhs` and `parent` pointers, and the binary tree they represent.

* `Links` is the heap of pointers, `Slot` a place that holds a pointer to a node;
* `Rep s par p t` says that the pointer `p` leads to the tree `t` whose root has parent `par`;
* `Rep.focus` opens a tree at the node a search ends at: it names the slot that holds the node,
  and says that whatever is put there, the tree around it stays;
* `find`, `insertAt` and `removeAt` are what the pointer operations do to the tree, for a search
  that compares each node with a probe, and their effect on the nodes in order.
-/

namespace LinkedTree

variable {α : Type*}

/-! ## Pointers -/

/-- The pointers of all nodes, and the pointer to the root. -/
structure Links (α : Type*) where
  root : Option α
  lhs : α → Option α
  rhs : α → Option α
  parent : α → Option α

/-- A place that points to a node: the root pointer or a child pointer. -/
inductive Slot (α : Type*) where
  | root
  | lhs (a : α)
  | rhs (a : α)
deriving DecidableEq

/-- The node that the slot is a field of. -/
def Slot.owner : Slot α → Option α
  | .root => none
  | .lhs a => some a
  | .rhs a => some a

namespace Links

/-- Read a slot. -/
def get (s : Links α) : Slot α → Option α
  | .root => s.root
  | .lhs a => s.lhs a
  | .rhs a => s.rhs a

theorem lhs_eq_get (s : Links α) (a : α) : s.lhs a = s.get (.lhs a) := rfl

theorem rhs_eq_get (s : Links α) (a : α) : s.rhs a = s.get (.rhs a) := rfl

variable [DecidableEq α]

/-- Write a slot. -/
def set (s : Links α) (slot : Slot α) (v : Option α) : Links α :=
  match slot with
  | .root => { s with root := v }
  | .lhs a => { s with lhs := Function.update s.lhs a v }
  | .rhs a => { s with rhs := Function.update s.rhs a v }

/-- Write a parent pointer. -/
def setParent (s : Links α) (a : α) (v : Option α) : Links α :=
  { s with parent := Function.update s.parent a v }

/-- A slot holds what was put into it last. -/
theorem get_set (s : Links α) (slot slot' : Slot α) (v : Option α) :
    (s.set slot v).get slot' = if slot' = slot then v else s.get slot' := by
  cases slot <;> cases slot' <;> simp [set, get, Function.update_apply]

/-- Slots are no parent links. -/
@[simp] theorem parent_set (s : Links α) (slot : Slot α) (v : Option α) :
    (s.set slot v).parent = s.parent := by
  cases slot <;> rfl

/-- And the other way round. -/
@[simp] theorem get_setParent (s : Links α) (a : α) (v : Option α) (slot : Slot α) :
    (s.setParent a v).get slot = s.get slot := by
  cases slot <;> rfl

/-- The parent of one node is set. -/
theorem parent_setParent (s : Links α) (a b : α) (v : Option α) :
    (s.setParent a v).parent b = if b = a then v else s.parent b := by
  simp [setParent, Function.update_apply]

@[simp] theorem setParent_self (s : Links α) (a : α) (v : Option α) :
    (s.setParent a v).parent a = v := by
  simp [setParent]

/-- The last one counts. -/
@[simp] theorem setParent_setParent (s : Links α) (a : α) (v w : Option α) :
    (s.setParent a v).setParent a w = s.setParent a w := by
  simp [setParent]

theorem setParent_of_ne (s : Links α) {a b : α} (v : Option α) (h : b ≠ a) :
    (s.setParent a v).parent b = s.parent b := by
  simp [setParent, h]

end Links

/-! ## Trees -/

/-- The nodes of a tree from left to right. -/
def inorder : BinaryTree α → List α
  | .nil => []
  | .node a l r => inorder l ++ a :: inorder r

/-- The pointer `p` leads to the tree `t`, whose root has the parent `par`. -/
def Rep (s : Links α) : Option α → Option α → BinaryTree α → Prop
  | _, p, .nil => p = none
  | par, p, .node a l r =>
    p = some a ∧ s.parent a = par ∧ Rep s (some a) (s.get (.lhs a)) l ∧
      Rep s (some a) (s.get (.rhs a)) r

/-- The pointers of the nodes in `l` are the same. -/
def SameOn (s s' : Links α) (l : List α) : Prop :=
  ∀ a ∈ l, s'.get (.lhs a) = s.get (.lhs a) ∧ s'.get (.rhs a) = s.get (.rhs a) ∧
    s'.parent a = s.parent a

/-- Nothing but the slot `slot` and the pointers of the nodes in `l` is different. -/
def SameBut (s s' : Links α) (slot : Slot α) (l : List α) : Prop :=
  (∀ slot', slot' ≠ slot → (∀ a, slot'.owner = some a → a ∉ l) → s'.get slot' = s.get slot') ∧
    ∀ a, a ∉ l → s'.parent a = s.parent a

/-- What holds of some nodes holds of fewer. -/
theorem SameOn.mono {s s' : Links α} {l l' : List α} (h : SameOn s s' l) (hl : l' ⊆ l) :
    SameOn s s' l' :=
  fun a ha => h a (hl ha)

/-- What a tree is depends on the links of its own nodes. -/
theorem Rep.congr {s s' : Links α} {par p : Option α} {t : BinaryTree α}
    (h : Rep s par p t) (hsame : SameOn s s' (inorder t)) : Rep s' par p t := by
  induction t generalizing par p with
  | nil => exact h
  | node a l r ihl ihr =>
    obtain ⟨hp, hpar, hl, hr⟩ := h
    obtain ⟨h1, h2, h3⟩ := hsame a (by simp [inorder])
    refine ⟨hp, h3.trans hpar, ?_, ?_⟩
    · rw [h1]
      exact ihl hl (hsame.mono (by simp [inorder]))
    · rw [h2]
      exact ihr hr (hsame.mono (by intro b hb; simp [inorder, hb]))

/-- What a pointer that leads to a tree points to is in the tree. -/
theorem Rep.mem_of_eq_some {s : Links α} {par : Option α} {a : α} {t : BinaryTree α}
    (h : Rep s par (some a) t) : a ∈ inorder t := by
  cases t with
  | nil => exact absurd h (by simp [Rep])
  | node b l r =>
    rw [Rep, Option.some.injEq] at h
    rw [h.1]
    simp [inorder]

/-- Nodes that had nothing to do with the change keep their links. -/
theorem SameBut.sameOn {s s' : Links α} {slot : Slot α} {l l' : List α}
    (h : SameBut s s' slot l) (hdisj : ∀ a ∈ l', a ∉ l) (hslot : ∀ a ∈ l', slot.owner ≠ some a) :
    SameOn s s' l' := by
  intro a ha
  refine ⟨h.1 _ ?_ ?_, h.1 _ ?_ ?_, h.2 a (hdisj a ha)⟩
  · rintro rfl
    exact hslot a ha rfl
  · rintro b hb
    cases hb
    exact hdisj a ha
  · rintro rfl
    exact hslot a ha rfl
  · rintro b hb
    cases hb
    exact hdisj a ha

/-! ## Searching -/

/-- Search with the comparison `cmp` of each node with the probe: equal at `0`, to the right
when negative. -/
def find (cmp : α → ℤ) : BinaryTree α → Option α
  | .nil => none
  | .node a l r => if cmp a = 0 then some a else if cmp a < 0 then find cmp r else find cmp l

/-- Put another tree at the place where the search ends. -/
def modifyAt (cmp : α → ℤ) (f : BinaryTree α → BinaryTree α) : BinaryTree α → BinaryTree α
  | .nil => f .nil
  | .node a l r =>
    if cmp a = 0 then f (.node a l r)
    else if cmp a < 0 then .node a l (modifyAt cmp f r)
    else .node a (modifyAt cmp f l) r

/-- The tree at the place where the search ends. -/
def subtreeAt (cmp : α → ℤ) : BinaryTree α → BinaryTree α
  | .nil => .nil
  | .node a l r =>
    if cmp a = 0 then .node a l r
    else if cmp a < 0 then subtreeAt cmp r
    else subtreeAt cmp l

/-- The search goes down to a part of the tree. -/
theorem inorder_subtreeAt_sublist (cmp : α → ℤ) (t : BinaryTree α) :
    (inorder (subtreeAt cmp t)).Sublist (inorder t) := by
  induction t with
  | nil => simp [subtreeAt]
  | node a l r ihl ihr =>
    rw [subtreeAt, inorder]
    split_ifs
    · exact List.Sublist.refl _
    · exact (ihr.cons a).trans (List.sublist_append_right _ _)
    · exact ihl.trans (List.sublist_append_left _ _)

theorem inorder_subtreeAt_subset (cmp : α → ℤ) (t : BinaryTree α) :
    inorder (subtreeAt cmp t) ⊆ inorder t :=
  (inorder_subtreeAt_sublist cmp t).subset

/-- It finds the node at the top of this part. -/
theorem find_eq_subtreeAt (cmp : α → ℤ) (t : BinaryTree α) :
    find cmp t = match subtreeAt cmp t with
      | .nil => none
      | .node a _ _ => some a := by
  induction t with
  | nil => rfl
  | node a l r ihl ihr =>
    rw [find, subtreeAt]
    split_ifs
    · rfl
    · exact ihr
    · exact ihl

/-- The slot that leads to the place where the search ends, and the parent there, for a search
that starts at `slot` below `par`. -/
def slotAt (cmp : α → ℤ) : Slot α → Option α → BinaryTree α → Slot α × Option α
  | slot, par, .nil => (slot, par)
  | slot, par, .node a l r =>
    if cmp a = 0 then (slot, par)
    else if cmp a < 0 then slotAt cmp (.rhs a) (some a) r
    else slotAt cmp (.lhs a) (some a) l

/-- Where a search that started at `slot` below `par` ended: there, or at a child pointer of the
node `p`, whose other child pointer leads elsewhere. -/
def EndsAt (s : Links α) (slot : Slot α) (par : Option α) (bt : Slot α) (par' : Option α)
    (t sub : BinaryTree α) : Prop :=
  bt = slot ∧ par' = par ∨
    ∃ p ∈ inorder t, p ∉ inorder sub ∧ par' = some p ∧
      (bt = .lhs p ∧ (∀ b ∈ inorder sub, s.get (.rhs p) ≠ some b) ∨
        bt = .rhs p ∧ ∀ b ∈ inorder sub, s.get (.lhs p) ≠ some b)

/-- The slot where it ends is that of the tree, or belongs to a node of it. -/
theorem EndsAt.owner {s : Links α} {slot bt : Slot α} {par par' : Option α}
    {t sub : BinaryTree α} (h : EndsAt s slot par bt par' t sub) {b : α} (hb : bt.owner = some b) :
    bt = slot ∨ b ∈ inorder t := by
  rcases h with ⟨rfl, -⟩ | ⟨p, hp, -, -, ⟨rfl, -⟩ | ⟨rfl, -⟩⟩
  · exact .inl rfl
  · cases hb
    exact .inr hp
  · cases hb
    exact .inr hp

/-- A search in the tree ends at a slot that leads to the subtree there, and any tree put there
by changes to the slot, the subtree and nodes outside the tree takes the place of the subtree. -/
theorem Rep.focus (cmp : α → ℤ) {s : Links α} {par par' : Option α} {slot bt : Slot α}
    {t : BinaryTree α} (h : Rep s par (s.get slot) t) (hnd : (inorder t).Nodup)
    (hslot : ∀ a ∈ inorder t, slot.owner ≠ some a) (hend : slotAt cmp slot par t = (bt, par')) :
    Rep s par' (s.get bt) (subtreeAt cmp t) ∧ EndsAt s slot par bt par' t (subtreeAt cmp t) ∧
      ∀ s' f extra, (∀ a ∈ extra, a ∉ inorder t ∧ slot.owner ≠ some a) →
        SameBut s s' bt (extra ++ inorder (subtreeAt cmp t)) →
        Rep s' par' (s'.get bt) (f (subtreeAt cmp t)) →
        Rep s' par (s'.get slot) (modifyAt cmp f t) := by
  -- induction on the tree; at every node the search goes to the left, to the right, or ends
  induction t generalizing par slot with
  | nil =>
    rw [slotAt, Prod.mk.injEq] at hend
    obtain ⟨rfl, rfl⟩ := hend
    exact ⟨h, .inl ⟨rfl, rfl⟩, fun s' f _ _ _ hrep => hrep⟩
  | node a l r ihl ihr =>
    obtain ⟨hp, hpar, hl, hr⟩ := h
    have hmem : a ∈ inorder (.node a l r) := by simp [inorder]
    rw [inorder, List.nodup_append] at hnd
    obtain ⟨hndl, hndr, hdisj⟩ := hnd
    rw [List.nodup_cons] at hndr
    have hal : a ∉ inorder l := fun ha => hdisj a ha a (by simp) rfl
    have hlr : ∀ b ∈ inorder l, b ∉ inorder r := fun b hb hb' => hdisj b hb b (by simp [hb']) rfl
    rw [slotAt] at hend
    rw [subtreeAt]
    split_ifs at hend ⊢ with h0 hneg
    · -- the search ends at the root of this tree
      rw [Prod.mk.injEq] at hend
      obtain ⟨rfl, rfl⟩ := hend
      refine ⟨⟨hp, hpar, hl, hr⟩, .inl ⟨rfl, rfl⟩, fun s' f _ _ _ hrep => ?_⟩
      rw [modifyAt, if_pos h0]
      exact hrep
    · have hsub := inorder_subtreeAt_subset cmp r
      obtain ⟨hrep, hwhere, hput⟩ := ihr hr hndr.2 (by rintro b hb ⟨⟩; exact hndr.1 hb) hend
      refine ⟨hrep, .inr ?_, fun s' f extra hextra hsame hrep' => ?_⟩
      · rcases hwhere with ⟨rfl, rfl⟩ | ⟨p, hp', hp'', hpar', hbt⟩
        · refine ⟨a, hmem, fun ha => hndr.1 (hsub ha), rfl, .inr ⟨rfl, fun b hb hlhs => ?_⟩⟩
          rw [hlhs] at hl
          exact hlr b hl.mem_of_eq_some (hsub hb)
        · exact ⟨p, by simp [inorder, hp'], hp'', hpar', hbt⟩
      · rw [modifyAt, if_neg h0, if_pos hneg]
        have hbt : ∀ b, bt.owner = some b → b = a ∨ b ∈ inorder r := by
          rintro b hb
          rcases hwhere.owner hb with rfl | hbr
          · cases hb
            exact .inl rfl
          · exact .inr hbr
        have hout : ∀ b ∈ inorder (.node a l r), b ∉ inorder r →
            b ∉ extra ++ inorder (subtreeAt cmp r) := by
          intro b hb hbr hmem'
          rcases List.mem_append.1 hmem' with he | he
          · exact (hextra b he).1 hb
          · exact hbr (hsub he)
        refine ⟨?_, ?_, ?_, hput s' f extra ?_ hsame hrep'⟩
        · rw [hsame.1 slot, hp]
          · rintro rfl
            cases hslot' : slot.owner with
            | none =>
              rcases hwhere with ⟨rfl, -⟩ | ⟨p, -, -, -, ⟨rfl, -⟩ | ⟨rfl, -⟩⟩ <;> cases hslot'
            | some b =>
              rcases hbt b hslot' with rfl | hbr
              · exact hslot _ hmem hslot'
              · exact hslot b (by simp [inorder, hbr]) hslot'
          · intro b hb hb'
            rcases List.mem_append.1 hb' with he | he
            · exact (hextra b he).2 hb
            · exact hslot b (by simp [inorder, hsub he]) hb
        · rw [hsame.2 a (hout a hmem hndr.1), hpar]
        · rw [hsame.1 (.lhs a)]
          · refine hl.congr (hsame.sameOn (fun b hb => hout b (by simp [inorder, hb]) (hlr b hb))
              fun b hb hbo => ?_)
            rcases hbt b hbo with rfl | hbr
            · exact hal hb
            · exact hlr b hb hbr
          · rintro rfl
            rcases hwhere with ⟨h, -⟩ | ⟨p, hp', -, -, ⟨h, -⟩ | ⟨h, -⟩⟩ <;> cases h
            exact hndr.1 hp'
          · rintro b hb
            cases hb
            exact hout a hmem hndr.1
        · rintro b hb
          refine ⟨fun hb' => (hextra b hb).1 (by simp [inorder, hb']), ?_⟩
          rintro ⟨⟩
          exact (hextra _ hb).1 hmem
    · have hsub := inorder_subtreeAt_subset cmp l
      obtain ⟨hrep, hwhere, hput⟩ := ihl hl hndl (by rintro b hb ⟨⟩; exact hal hb) hend
      refine ⟨hrep, .inr ?_, fun s' f extra hextra hsame hrep' => ?_⟩
      · rcases hwhere with ⟨rfl, rfl⟩ | ⟨p, hp', hp'', hpar', hbt⟩
        · refine ⟨a, hmem, fun ha => hal (hsub ha), rfl, .inl ⟨rfl, fun b hb hrhs => ?_⟩⟩
          rw [hrhs] at hr
          exact hlr b (hsub hb) hr.mem_of_eq_some
        · exact ⟨p, by simp [inorder, hp'], hp'', hpar', hbt⟩
      · rw [modifyAt, if_neg h0, if_neg hneg]
        have hbt : ∀ b, bt.owner = some b → b = a ∨ b ∈ inorder l := by
          rintro b hb
          rcases hwhere.owner hb with rfl | hbl
          · cases hb
            exact .inl rfl
          · exact .inr hbl
        have hout : ∀ b ∈ inorder (.node a l r), b ∉ inorder l →
            b ∉ extra ++ inorder (subtreeAt cmp l) := by
          intro b hb hbl hmem'
          rcases List.mem_append.1 hmem' with he | he
          · exact (hextra b he).1 hb
          · exact hbl (hsub he)
        refine ⟨?_, ?_, hput s' f extra ?_ hsame hrep', ?_⟩
        · rw [hsame.1 slot, hp]
          · rintro rfl
            cases hslot' : slot.owner with
            | none =>
              rcases hwhere with ⟨rfl, -⟩ | ⟨p, -, -, -, ⟨rfl, -⟩ | ⟨rfl, -⟩⟩ <;> cases hslot'
            | some b =>
              rcases hbt b hslot' with rfl | hbl
              · exact hslot _ hmem hslot'
              · exact hslot b (by simp [inorder, hbl]) hslot'
          · intro b hb hb'
            rcases List.mem_append.1 hb' with he | he
            · exact (hextra b he).2 hb
            · exact hslot b (by simp [inorder, hsub he]) hb
        · rw [hsame.2 a (hout a hmem hal), hpar]
        · rintro b hb
          refine ⟨fun hb' => (hextra b hb).1 (by simp [inorder, hb']), ?_⟩
          rintro ⟨⟩
          exact (hextra _ hb).1 hmem
        · rw [hsame.1 (.rhs a)]
          · refine hr.congr (hsame.sameOn
              (fun b hb => hout b (by simp [inorder, hb]) fun hbl => hlr b hbl hb)
              fun b hb hbo => ?_)
            rcases hbt b hbo with rfl | hbl
            · exact hndr.1 hb
            · exact hlr b hbl hb
          · rintro rfl
            rcases hwhere with ⟨h, -⟩ | ⟨p, hp', -, -, ⟨h, -⟩ | ⟨h, -⟩⟩ <;> cases h
            exact hal hp'
          · rintro b hb
            cases hb
            exact hout a hmem hal

/-! ## The operations on the tree -/

/-- Hang the tree `r` to the right of the last node of a tree. -/
def graft : BinaryTree α → BinaryTree α → BinaryTree α
  | .nil, r => r
  | .node a l r', r => .node a l (graft r' r)

/-- Put `x` in the place of the root, or as the only node. -/
def putRoot (x : α) : BinaryTree α → BinaryTree α
  | .nil => .node x .nil .nil
  | .node _ l r => .node x l r

/-- Take the root away. -/
def dropRoot : BinaryTree α → BinaryTree α
  | .nil => .nil
  | .node _ l r => graft l r

/-- Put `x` where the search ends. -/
def insertAt (cmp : α → ℤ) (x : α) : BinaryTree α → BinaryTree α := modifyAt cmp (putRoot x)

/-- Take away the node the search ends at. -/
def removeAt (cmp : α → ℤ) : BinaryTree α → BinaryTree α := modifyAt cmp dropRoot

/-- The left part comes first. -/
@[simp] theorem inorder_graft (l r : BinaryTree α) : inorder (graft l r) = inorder l ++ inorder r := by
  induction l with
  | nil => rfl
  | node a l' r' _ ih => simp [graft, inorder, ih]

/-- Nothing is put below it. -/
theorem graft_nil (l : BinaryTree α) : graft l .nil = l := by
  induction l with
  | nil => rfl
  | node a l' r' _ ih => rw [graft, ih]

/-- The nodes keep their children, and their parents too, except for the root `p`. -/
def SameBelow (s s' : Links α) (p : Option α) (l : List α) : Prop :=
  ∀ a ∈ l, s'.get (.lhs a) = s.get (.lhs a) ∧ s'.get (.rhs a) = s.get (.rhs a) ∧
    (p ≠ some a → s'.parent a = s.parent a)

/-- A tree with another parent above its root. -/
theorem Rep.reparent {s s' : Links α} {par par' p : Option α} {t : BinaryTree α}
    (h : Rep s par p t) (hnd : (inorder t).Nodup) (hsame : SameBelow s s' p (inorder t))
    (hroot : ∀ a, p = some a → s'.parent a = par') : Rep s' par' p t := by
  -- only the root has the parent
  cases t with
  | nil => exact h
  | node a l r =>
    obtain ⟨hp, -, hl, hr⟩ := h
    rw [inorder, List.nodup_append] at hnd
    obtain ⟨-, hndr, hdisj⟩ := hnd
    rw [List.nodup_cons] at hndr
    obtain ⟨h1, h2, -⟩ := hsame a (by simp [inorder])
    have hsub : ∀ b ∈ inorder (.node a l r), b ≠ a → s'.get (.lhs b) = s.get (.lhs b) ∧
        s'.get (.rhs b) = s.get (.rhs b) ∧ s'.parent b = s.parent b := by
      intro b hb hne
      obtain ⟨h1, h2, h3⟩ := hsame b hb
      refine ⟨h1, h2, h3 ?_⟩
      rw [hp]
      rintro ⟨⟩
      exact hne rfl
    refine ⟨hp, hroot a hp, ?_, ?_⟩
    · rw [h1]
      exact hl.congr fun b hb => hsub b (by simp [inorder, hb])
        fun hba => hdisj b hb a (by simp) hba
    · rw [h2]
      refine hr.congr fun b hb => hsub b (by simp [inorder, hb]) ?_
      rintro rfl
      exact hndr.1 hb

/-- Two trees, the second hung to the right of the last node of the first. -/
theorem Rep.graft {s s' : Links α} {par p q : Option α} {t r : BinaryTree α} {last : α}
    (h : Rep s par p t) (hnd : (inorder t).Nodup) (hlast : (inorder t).getLast? = some last)
    (hsame : ∀ a ∈ inorder t, s'.get (.lhs a) = s.get (.lhs a) ∧
      (a ≠ last → s'.get (.rhs a) = s.get (.rhs a)) ∧ s'.parent a = s.parent a)
    (hrhs : s'.get (.rhs last) = q) (hr : Rep s' (some last) q r) :
    Rep s' par p (LinkedTree.graft t r) := by
  induction t generalizing par p with
  | nil => simp [inorder] at hlast
  | node a tl tr _ ih =>
    obtain ⟨hp, hpar, htl, htr⟩ := h
    rw [inorder, List.nodup_append] at hnd
    obtain ⟨-, hndr, hdisj⟩ := hnd
    rw [List.nodup_cons] at hndr
    obtain ⟨h1, h2, h3⟩ := hsame a (by simp [inorder])
    -- the left subtree does not hold the last node
    have hmem : last ∈ a :: inorder tr := by
      rw [inorder, List.getLast?_append_of_ne_nil _ (by simp)] at hlast
      exact List.mem_of_getLast? hlast
    have hleft : Rep s' (some a) (s'.get (.lhs a)) tl := by
      rw [h1]
      refine htl.congr fun b hb => ?_
      obtain ⟨hb1, hb2, hb3⟩ := hsame b (by simp [inorder, hb])
      exact ⟨hb1, hb2 fun hbl => hdisj b hb last hmem hbl, hb3⟩
    cases tr with
    | nil =>
      have hal : last = a := by simpa [inorder] using hmem
      subst hal
      refine ⟨hp, h3.trans hpar, hleft, ?_⟩
      rw [hrhs]
      exact hr
    | node b bl br =>
      have hlast' : (inorder (.node b bl br)).getLast? = some last := by
        rw [inorder, List.getLast?_append_of_ne_nil _ (by simp), List.getLast?_cons] at hlast
        cases htr' : (inorder (.node b bl br)).getLast? with
        | none => simp [inorder] at htr'
        | some c => simpa [htr'] using hlast
      have hal : a ≠ last := by
        rintro rfl
        exact hndr.1 (List.mem_of_getLast? hlast')
      refine ⟨hp, h3.trans hpar, hleft, ?_⟩
      rw [h2 hal]
      exact ih htr hndr.2 hlast' fun c hc => hsame c (by rw [inorder]; simp [hc])

/-- The comparison with the probe grows along the list: behind a node that is not smaller than
the probe there are only larger ones. -/
def Searchable (cmp : α → ℤ) (l : List α) : Prop := l.Pairwise fun a b => 0 ≤ cmp a → 0 < cmp b

section
variable {cmp : α → ℤ} {t l r : BinaryTree α} {a x : α}

/-- Both parts can be searched, and the node parts them. -/
theorem Searchable.node (h : Searchable cmp (inorder (.node a l r))) :
    Searchable cmp (inorder l) ∧ Searchable cmp (inorder r) ∧
      (∀ b ∈ inorder l, 0 ≤ cmp b → 0 < cmp a) ∧ (∀ b ∈ inorder r, 0 ≤ cmp a → 0 < cmp b) := by
  rw [Searchable, inorder, List.pairwise_append, List.pairwise_cons] at h
  exact ⟨h.1, h.2.1.2, fun b hb => h.2.2 b hb a (by simp), fun b hb => h.2.1.1 b hb⟩

/-- Left of a node that is not larger than the probe everything is smaller. -/
theorem Searchable.left_neg (h : Searchable cmp (inorder (.node a l r))) (ha : cmp a ≤ 0) :
    ∀ b ∈ inorder l, cmp b < 0 := by
  intro b hb
  by_contra hge
  have := h.node.2.2.1 b hb (by omega)
  omega

/-- A node that is not too small has everything too great on its right. -/
theorem Searchable.right_pos (h : Searchable cmp (inorder (.node a l r))) (ha : 0 ≤ cmp a) :
    ∀ b ∈ inorder r, 0 < cmp b :=
  fun b hb => h.node.2.2.2 b hb ha

/-- The search finds the first node that fits. -/
theorem find_eq_find? (h : Searchable cmp (inorder t)) :
    find cmp t = (inorder t).find? fun a => cmp a = 0 := by
  -- induction on the tree: the smaller ones, the node, and the larger ones
  induction t with
  | nil => rfl
  | node a l r ihl ihr =>
    obtain ⟨hl, hr, -, -⟩ := h.node
    rw [find, inorder, List.find?_append, List.find?_cons, ← ihl hl, ← ihr hr]
    -- an equal node is the first one to fit, since none to the left of it does
    by_cases h0 : cmp a = 0
    · have hnone : find cmp l = none := by
        rw [ihl hl, List.find?_eq_none]
        intro b hb
        have := h.left_neg (by omega) b hb
        simp
        omega
      simp [h0, hnone]
    · rcases Int.lt_or_gt_of_ne h0 with hneg | hpos
      · have hnone : find cmp l = none := by
          rw [ihl hl, List.find?_eq_none]
          intro b hb
          have := h.left_neg (by omega) b hb
          simp
          omega
        simp [h0, hneg, hnone]
      · have hnone : find cmp r = none := by
          rw [ihr hr, List.find?_eq_none]
          intro b hb
          have := h.right_pos (by omega) b hb
          simp
          omega
        have hneg : ¬cmp a < 0 := by omega
        simp [h0, hneg, hnone]

/-- Removing takes away the node that is equal to the probe and keeps the rest in order. -/
theorem inorder_removeAt (h : Searchable cmp (inorder t)) :
    inorder (removeAt cmp t) = (inorder t).filter fun a => cmp a ≠ 0 := by
  induction t with
  | nil => rfl
  | node a l r ihl ihr =>
    obtain ⟨hl, hr, -, -⟩ := h.node
    unfold removeAt at ihl ihr ⊢
    rw [modifyAt, inorder, List.filter_append]
    have hleft (ha : cmp a ≤ 0) : (inorder l).filter (fun a => cmp a ≠ 0) = inorder l := by
      refine List.filter_eq_self.2 fun b hb => ?_
      have := h.left_neg ha b hb
      simp
      omega
    have hright (ha : 0 ≤ cmp a) : (inorder r).filter (fun a => cmp a ≠ 0) = inorder r := by
      refine List.filter_eq_self.2 fun b hb => ?_
      have := h.right_pos ha b hb
      simp
      omega
    split_ifs with h0 hneg
    · rw [dropRoot, inorder_graft, hleft (by omega), List.filter_cons_of_neg (by simp [h0]),
        hright (by omega)]
    · rw [inorder, ihr hr, hleft (by omega), List.filter_cons_of_pos (by simp [h0])]
    · rw [inorder, ihl hl, List.filter_cons_of_pos (by simp [h0]), hright (by omega)]

/-- Inserting puts the new node between the smaller and the larger ones; a node equal to it is
gone. -/
theorem inorder_insertAt (h : Searchable cmp (inorder t)) :
    inorder (insertAt cmp x t) =
      ((inorder t).filter fun a => cmp a < 0) ++ x :: (inorder t).filter fun a => 0 < cmp a := by
  -- induction on the tree, as the insertion goes down
  induction t with
  | nil => rfl
  | node a l r ihl ihr =>
    obtain ⟨hl, hr, -, -⟩ := h.node
    unfold insertAt at ihl ihr ⊢
    have hleft (ha : cmp a ≤ 0) : (inorder l).filter (fun a => cmp a < 0) = inorder l ∧
        (inorder l).filter (fun a => 0 < cmp a) = [] := by
      refine ⟨List.filter_eq_self.2 fun b hb => ?_, List.filter_eq_nil_iff.2 fun b hb => ?_⟩
      all_goals
        have := h.left_neg ha b hb
        simp
        omega
    have hright (ha : 0 ≤ cmp a) : (inorder r).filter (fun a => 0 < cmp a) = inorder r ∧
        (inorder r).filter (fun a => cmp a < 0) = [] := by
      refine ⟨List.filter_eq_self.2 fun b hb => ?_, List.filter_eq_nil_iff.2 fun b hb => ?_⟩
      all_goals
        have := h.right_pos ha b hb
        simp
        omega
    rw [modifyAt]
    split_ifs with h0 hneg
    · obtain ⟨hl1, hl2⟩ := hleft (by omega)
      obtain ⟨hr1, hr2⟩ := hright (by omega)
      simp [putRoot, inorder, h0, hl1, hl2, hr1, hr2]
    · obtain ⟨hl1, hl2⟩ := hleft (by omega)
      have hpos : ¬0 < cmp a := by omega
      simp [inorder, ihr hr, hl1, hl2, hneg, hpos]
    · obtain ⟨hr1, hr2⟩ := hright (by omega)
      have hpos : 0 < cmp a := by omega
      simp [inorder, ihl hl, hr1, hr2, hneg, hpos]

end

/-! ## The other way round -/

/-- The pointers with left and right exchanged. -/
def Links.mirror (s : Links α) : Links α := { s with lhs := s.rhs, rhs := s.lhs }

def Slot.mirror : Slot α → Slot α
  | .root => .root
  | .lhs a => .rhs a
  | .rhs a => .lhs a

/-- Twice mirrored is as before. -/
@[simp] theorem Slot.mirror_mirror (slot : Slot α) : slot.mirror.mirror = slot := by
  cases slot <;> rfl

/-- The mirrored slot belongs to the same node. -/
@[simp] theorem Slot.owner_mirror (slot : Slot α) : slot.mirror.owner = slot.owner := by
  cases slot <;> rfl

@[simp] theorem Links.mirror_mirror (s : Links α) : s.mirror.mirror = s := rfl

/-- A slot has what the mirrored slot has in the mirror. -/
theorem Links.get_mirror (s : Links α) (slot : Slot α) : s.mirror.get slot = s.get slot.mirror := by
  cases slot <;> rfl

/-- Setting a slot, in the mirror. -/
theorem Links.mirror_set [DecidableEq α] (s : Links α) (slot : Slot α) (v : Option α) :
    (s.set slot v).mirror = s.mirror.set slot.mirror v := by
  cases slot <;> rfl

theorem Links.mirror_setParent [DecidableEq α] (s : Links α) (a : α) (v : Option α) :
    (s.setParent a v).mirror = s.mirror.setParent a v := rfl

/-- A change, in the mirror. -/
theorem SameBut.mirror {s s' : Links α} {slot : Slot α} {l : List α} (h : SameBut s s' slot l) :
    SameBut s.mirror s'.mirror slot.mirror l := by
  refine ⟨fun slot' hslot hout => ?_, h.2⟩
  rw [Links.get_mirror, Links.get_mirror]
  apply h.1
  · intro heq
    exact hslot (by rw [← heq, Slot.mirror_mirror])
  · rwa [Slot.owner_mirror]

/-- The tree with left and right exchanged. -/
def mirror : BinaryTree α → BinaryTree α
  | .nil => .nil
  | .node a l r => .node a (mirror r) (mirror l)

/-- In the mirror the nodes come in the opposite order. -/
theorem inorder_mirror (t : BinaryTree α) : inorder (mirror t) = (inorder t).reverse := by
  induction t with
  | nil => rfl
  | node a l r ihl ihr => rw [mirror, inorder, inorder, ihl, ihr]; simp

/-- Twice mirrored is as before. -/
@[simp] theorem mirror_mirror (t : BinaryTree α) : mirror (mirror t) = t := by
  induction t with
  | nil => rfl
  | node a l r ihl ihr => rw [mirror, mirror, ihl, ihr]

/-- The mirrored links are those of the mirrored tree. -/
theorem Rep.mirror {s : Links α} {par p : Option α} {t : BinaryTree α} (h : Rep s par p t) :
    Rep s.mirror par p (mirror t) := by
  induction t generalizing par p with
  | nil => exact h
  | node a l r ihl ihr => exact ⟨h.1, h.2.1, ihr h.2.2.2, ihl h.2.2.1⟩

/-- A node without a parent is the root. -/
theorem Rep.eq_root {s : Links α} {par p : Option α} {t : BinaryTree α} {a : α} (h : Rep s par p t)
    (ha : a ∈ inorder t) (hpar : s.parent a = none) : par = none ∧ p = some a := by
  induction t generalizing par p with
  | nil => exact absurd ha List.not_mem_nil
  | node b l r ihl ihr =>
    obtain ⟨hp, hb, hl, hr⟩ := h
    rw [inorder, List.mem_append, List.mem_cons] at ha
    rcases ha with ha | rfl | ha
    · exact absurd (ihl hl ha).1 (Option.some_ne_none b)
    · exact ⟨hb.symm.trans hpar, hp⟩
    · exact absurd (ihr hr ha).1 (Option.some_ne_none b)

/-! ## Reaching nodes -/

/-- The node is reached from the root by child pointers. -/
inductive Linked (s : Links α) : α → Prop
  | root {a : α} (h : s.root = some a) : Linked s a
  | lhs {a b : α} (ha : Linked s a) (h : s.lhs a = some b) : Linked s b
  | rhs {a b : α} (ha : Linked s a) (h : s.rhs a = some b) : Linked s b

/-- The children of a node of the tree are nodes of the tree. -/
theorem Rep.child_mem {s : Links α} {par p : Option α} {t : BinaryTree α} {a b : α}
    (h : Rep s par p t) (ha : a ∈ inorder t)
    (hb : s.get (.lhs a) = some b ∨ s.get (.rhs a) = some b) : b ∈ inorder t := by
  induction t generalizing par p with
  | nil => simp [inorder] at ha
  | node c l r ihl ihr =>
    obtain ⟨-, -, hl, hr⟩ := h
    simp only [inorder, List.mem_append, List.mem_cons] at ha ⊢
    rcases ha with ha | rfl | ha
    · exact .inl (ihl hl ha)
    · rcases hb with hb | hb
      · rw [hb] at hl
        exact .inl hl.mem_of_eq_some
      · rw [hb] at hr
        exact .inr (.inr hr.mem_of_eq_some)
    · exact .inr (.inr (ihr hr ha))

/-- All nodes of a tree that hangs somewhere can be reached. -/
theorem Rep.linked {s : Links α} {par p : Option α} {t : BinaryTree α} (h : Rep s par p t)
    (hp : ∀ a, p = some a → Linked s a) : ∀ a ∈ inorder t, Linked s a := by
  induction t generalizing par p with
  | nil => simp [inorder]
  | node c l r ihl ihr =>
    obtain ⟨hc, -, hl, hr⟩ := h
    have hlinked := hp c hc
    intro a ha
    simp only [inorder, List.mem_append, List.mem_cons] at ha
    rcases ha with ha | rfl | ha
    · exact ihl hl (fun b hb => hlinked.lhs hb) a ha
    · exact hlinked
    · exact ihr hr (fun b hb => hlinked.rhs hb) a ha

/-- The nodes of the tree are the ones that are reached. -/
theorem linked_iff_mem {s : Links α} {t : BinaryTree α} (h : Rep s none s.root t) {a : α} :
    Linked s a ↔ a ∈ inorder t := by
  constructor
  · intro hl
    induction hl with
    | root ha =>
      rw [ha] at h
      exact h.mem_of_eq_some
    | lhs _ hb ih => exact h.child_mem ih (.inl hb)
    | rhs _ hb ih => exact h.child_mem ih (.inr hb)
  · exact h.linked (fun a ha => .root ha) a

end LinkedTree
