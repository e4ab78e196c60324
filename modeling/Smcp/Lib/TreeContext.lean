import Mathlib.Tactic.Ring
import Smcp.Lib.LinkedTree

/-!
# A tree around a place

The tree around a place in it, as the list of the nodes on the way from the place up to the root.

* `plug ctx u` is the tree with the subtree `u` at the place;
* `Rep.put` puts another subtree there, by changes to the slot and to the old subtree only;
* `exists_plug` finds the place of a node, and `moveUp` is the tree after the node has been rotated
  up to the root;
* `Balanced` trees have at every node as many nodes on the left as on the right, or one more.
-/

namespace LinkedTree

variable {α : Type*}

/-! ## Contexts -/

/-- A node on the way down to a place, with its other subtree. -/
inductive Frame (α : Type*) where
  /-- The way goes to the left. -/
  | left (a : α) (sibling : BinaryTree α)
  /-- The way goes to the right. -/
  | right (a : α) (sibling : BinaryTree α)

namespace Frame

def node : Frame α → α
  | .left a _ => a
  | .right a _ => a

def sibling : Frame α → BinaryTree α
  | .left _ t => t
  | .right _ t => t

/-- The child pointer on the way. -/
def slot : Frame α → Slot α
  | .left a _ => .lhs a
  | .right a _ => .rhs a

/-- The other child pointer. -/
def other : Frame α → Slot α
  | .left a _ => .rhs a
  | .right a _ => .lhs a

def attach : Frame α → BinaryTree α → BinaryTree α
  | .left a t, u => .node a u t
  | .right a t, u => .node a t u

/-- What is in front of the place, and what is behind it. -/
def before : Frame α → List α
  | .left _ _ => []
  | .right a t => inorder t ++ [a]

def after : Frame α → List α
  | .left a t => a :: inorder t
  | .right _ _ => []

/-- A subtree in its frame has nodes in front and behind. -/
@[simp] theorem inorder_attach (f : Frame α) (u : BinaryTree α) :
    inorder (f.attach u) = f.before ++ inorder u ++ f.after := by
  cases f <;> simp [attach, before, after, inorder]

/-- The nodes of a frame are its own one and those of the sibling. -/
theorem mem_iff {f : Frame α} {a : α} :
    a ∈ f.before ∨ a ∈ f.after ↔ a = f.node ∨ a ∈ inorder f.sibling := by
  cases f with
  | left b t => simp [before, after, node, sibling]
  | right b t =>
    simp only [before, after, node, sibling, List.mem_append, List.mem_singleton, List.not_mem_nil]
    tauto

/-- The frame and both of its subtrees are represented each for itself. -/
theorem rep_attach {s : Links α} {par p : Option α} {u : BinaryTree α} (f : Frame α) :
    Rep s par p (f.attach u) ↔ p = some f.node ∧ s.parent f.node = par ∧
      Rep s (some f.node) (s.get f.slot) u ∧ Rep s (some f.node) (s.get f.other) f.sibling := by
  cases f with
  | left a t => exact Iff.rfl
  | right a t =>
    show _ ∧ _ ∧ _ ∧ _ ↔ _ ∧ _ ∧ _ ∧ _
    simp only [node, slot, other, sibling, and_comm]

end Frame

/-- The tree with `u` at the place; the first frame is that of the parent. -/
def plug : List (Frame α) → BinaryTree α → BinaryTree α
  | [], u => u
  | f :: ctx, u => plug ctx (f.attach u)

/-- The slot that leads to the place. -/
def holeSlot : List (Frame α) → Slot α
  | [] => .root
  | f :: _ => f.slot

/-- The parent of the place. -/
def holeParent : List (Frame α) → Option α
  | [] => none
  | f :: _ => some f.node

/-- What is in front of the place, and what is behind it. -/
def beforeHole : List (Frame α) → List α
  | [] => []
  | f :: ctx => beforeHole ctx ++ f.before

def afterHole : List (Frame α) → List α
  | [] => []
  | f :: ctx => f.after ++ afterHole ctx

/-- The inner frames come first. -/
@[simp] theorem plug_append (path ctx : List (Frame α)) (u : BinaryTree α) :
    plug (path ++ ctx) u = plug ctx (plug path u) := by
  induction path generalizing u with
  | nil => rfl
  | cons f path ih => exact ih (f.attach u)

/-- Around a subtree there are the nodes in front and those behind. -/
theorem inorder_plug (ctx : List (Frame α)) (u : BinaryTree α) :
    inorder (plug ctx u) = beforeHole ctx ++ inorder u ++ afterHole ctx := by
  induction ctx generalizing u with
  | nil => simp [plug, beforeHole, afterHole]
  | cons f ctx ih =>
    rw [plug, ih, f.inorder_attach, beforeHole, afterHole]
    simp only [List.append_assoc]

/-- The nodes of the context. -/
theorem nodup_plug (ctx : List (Frame α)) (u : BinaryTree α) (h : (inorder (plug ctx u)).Nodup) :
    (inorder u).Nodup ∧ ∀ a ∈ inorder u, a ∉ beforeHole ctx ∧ a ∉ afterHole ctx := by
  rw [inorder_plug, List.nodup_append, List.nodup_append] at h
  obtain ⟨⟨-, hnd, hbefore⟩, -, hafter⟩ := h
  refine ⟨hnd, fun a ha => ⟨fun hin => hbefore a hin a ha rfl, fun hin => ?_⟩⟩
  exact hafter a (List.mem_append_right _ ha) a hin rfl

/-- Each frame has a node. -/
theorem length_le_plug (ctx : List (Frame α)) (u : BinaryTree α) :
    ctx.length ≤ (inorder (plug ctx u)).length := by
  induction ctx generalizing u with
  | nil => exact Nat.zero_le _
  | cons f ctx ih =>
    rw [plug, inorder_plug, f.inorder_attach, List.length_cons]
    have hle := ih .nil
    rw [inorder_plug] at hle
    have hf : 0 < f.before.length + f.after.length := by
      cases f <;> simp [Frame.before, Frame.after]
    simp only [List.length_append, inorder, List.length_nil] at hle ⊢
    omega

/-- There are no fewer nodes with the frames. -/
theorem length_inorder_le_plug (ctx : List (Frame α)) (u : BinaryTree α) :
    (inorder u).length ≤ (inorder (plug ctx u)).length := by
  rw [inorder_plug, List.length_append, List.length_append]
  omega

/-- The pointers around the place. -/
def RepAround (s : Links α) : List (Frame α) → Prop
  | [] => True
  | f :: ctx => s.get (holeSlot ctx) = some f.node ∧ s.parent f.node = holeParent ctx ∧
      Rep s (some f.node) (s.get f.other) f.sibling ∧ RepAround s ctx

/-- A subtree is represented at its slot, and the rest around it. -/
theorem rep_plug {s : Links α} (ctx : List (Frame α)) (u : BinaryTree α) :
    Rep s none s.root (plug ctx u) ↔
      Rep s (holeParent ctx) (s.get (holeSlot ctx)) u ∧ RepAround s ctx := by
  induction ctx generalizing u with
  | nil => exact (and_iff_left trivial).symm
  | cons f ctx ih =>
    rw [plug, ih, f.rep_attach]
    show _ ↔ Rep s (some f.node) (s.get f.slot) u ∧ _ ∧ _ ∧ _ ∧ _
    tauto

/-- The slot of a frame belongs to its node. -/
theorem Frame.owner_slot (f : Frame α) : f.slot.owner = some f.node := by
  cases f <;> rfl

/-- The other slot belongs to its node, too. -/
theorem Frame.owner_other (f : Frame α) : f.other.owner = some f.node := by
  cases f <;> rfl

theorem Frame.other_ne_slot (f : Frame α) : f.other ≠ f.slot := by
  cases f <;> simp [other, slot]

/-- The slot of a subtree belongs to its parent. -/
theorem holeSlot_owner (ctx : List (Frame α)) : (holeSlot ctx).owner = holeParent ctx := by
  cases ctx with
  | nil => rfl
  | cons f ctx => exact f.owner_slot

/-- Nodes of the context. -/
def InContext (ctx : List (Frame α)) (a : α) : Prop := a ∈ beforeHole ctx ∨ a ∈ afterHole ctx

/-- A node is in the first frame or in the others. -/
theorem inContext_cons {f : Frame α} {ctx : List (Frame α)} {a : α} :
    InContext (f :: ctx) a ↔ (a = f.node ∨ a ∈ inorder f.sibling) ∨ InContext ctx a := by
  unfold InContext
  rw [beforeHole, afterHole, List.mem_append, List.mem_append, ← Frame.mem_iff]
  tauto

/-- The parent is in the first frame. -/
theorem inContext_holeParent {ctx : List (Frame α)} {a : α} (h : holeParent ctx = some a) :
    InContext ctx a := by
  cases ctx with
  | nil => exact absurd h (Option.some_ne_none a).symm
  | cons f ctx =>
    rw [inContext_cons]
    exact .inl (.inl (Option.some.inj h).symm)

/-- No node is in a tree twice. -/
theorem not_inContext {ctx : List (Frame α)} {u : BinaryTree α} (h : (inorder (plug ctx u)).Nodup)
    {a : α} (ha : a ∈ inorder u) : ¬InContext ctx a := by
  have hnot := (nodup_plug ctx u h).2 a ha
  rintro (hin | hin)
  · exact hnot.1 hin
  · exact hnot.2 hin

section
variable {s s' : Links α} {slot : Slot α} {l : List α} {ctx : List (Frame α)} {u u' : BinaryTree α}

/-- Changes elsewhere. -/
theorem RepAround.congr (h : RepAround s ctx) (hsame : SameBut s s' slot l) (hroot : slot ≠ .root)
    (howner : ∀ a, slot.owner = some a → ¬InContext ctx a) (hl : ∀ a ∈ l, ¬InContext ctx a) :
    s'.get (holeSlot ctx) = s.get (holeSlot ctx) ∧ RepAround s' ctx := by
  -- a slot of the context leads to what it led to before
  have hget (slot' : Slot α) (a : α) (hslot' : slot'.owner = some a) (ha : InContext ctx a) :
      s'.get slot' = s.get slot' := by
    apply hsame.1
    · intro heq
      exact howner a (heq ▸ hslot') ha
    · intro b hb hin
      rw [hslot'] at hb
      exact hl b hin (Option.some.inj hb ▸ ha)
  -- induction on the context, from the node upwards
  induction ctx with
  | nil =>
    refine ⟨hsame.1 _ hroot.symm ?_, trivial⟩
    rintro a ⟨⟩
  | cons f ctx ih =>
    obtain ⟨hnode, hpar, hsib, hrest⟩ := h
    have hin (a : α) (ha : InContext ctx a) : InContext (f :: ctx) a := inContext_cons.2 (.inr ha)
    have hf : InContext (f :: ctx) f.node := inContext_cons.2 (.inl (.inl rfl))
    obtain ⟨hslot, hrest'⟩ := ih hrest (fun a ha hc => howner a ha (hin a hc))
      (fun a ha hc => hl a ha (hin a hc)) fun slot' a hs ha => hget slot' a hs (hin a ha)
    refine ⟨hget f.slot f.node f.owner_slot hf, hslot.trans hnode, ?_, ?_, hrest'⟩
    · rw [hsame.2 f.node fun hmem => hl f.node hmem hf, hpar]
    · rw [hget f.other f.node f.owner_other hf]
      refine hsib.congr (hsame.sameOn (fun a ha hmem => hl a hmem ?_) fun a ha ho => howner a ho ?_)
      all_goals exact inContext_cons.2 (.inl (.inr ha))

/-- Another subtree at the place, by changes to the slot that leads there and to the nodes of the
old subtree. -/
theorem Rep.put (ctx : List (Frame α)) (u : BinaryTree α) (h : Rep s none s.root (plug ctx u))
    (hnd : (inorder (plug ctx u)).Nodup) (hsame : SameBut s s' (holeSlot ctx) (inorder u))
    (h' : Rep s' (holeParent ctx) (s'.get (holeSlot ctx)) u') :
    Rep s' none s'.root (plug ctx u') := by
  rw [rep_plug] at h ⊢
  refine ⟨h', ?_⟩
  have hnodes (a : α) (ha : a ∈ inorder u) := not_inContext hnd ha
  cases ctx with
  | nil => trivial
  | cons f ctx =>
    obtain ⟨hnode, hpar, hsib, hrest⟩ := h.2
    -- the parent of the place, its other subtree and the nodes further up are apart
    have hinner := nodup_plug ctx (f.attach u) hnd
    rw [f.inorder_attach] at hinner
    have hfMem : f.node ∈ f.before ++ inorder u ++ f.after := by
      have := Frame.mem_iff (f := f) (a := f.node)
      simp only [List.mem_append]
      tauto
    have hfOut : ¬InContext ctx f.node := by
      apply not_inContext (u := f.attach u) hnd
      rw [f.inorder_attach]
      exact hfMem
    have hfSib : f.node ∉ inorder f.sibling := by
      have hnd' := hinner.1
      cases f with
      | left a t =>
        simp only [Frame.before, Frame.after, List.nil_append, List.nodup_append,
          List.nodup_cons] at hnd'
        exact hnd'.2.1.1
      | right a t =>
        simp only [Frame.before, Frame.after, List.append_nil, List.nodup_append] at hnd'
        intro hin
        exact hnd'.1.2.2 a hin a (List.mem_singleton_self a) rfl
    have hnotIn (a : α) (ha : a ∈ inorder u) : a ≠ f.node ∧ a ∉ inorder f.sibling ∧
        ¬InContext ctx a := by
      have hnot := hnodes a ha
      rw [inContext_cons] at hnot
      tauto
    obtain ⟨hslot, hrest'⟩ := hrest.congr hsame (by cases f <;> exact nofun)
      (fun a ha => by
        rw [holeSlot, f.owner_slot] at ha
        exact Option.some.inj ha ▸ hfOut)
      fun a ha => (hnotIn a ha).2.2
    refine ⟨hslot.trans hnode, ?_, ?_, hrest'⟩
    · rw [hsame.2 f.node fun hmem => (hnotIn _ hmem).1 rfl, hpar]
    · have hother : s'.get f.other = s.get f.other := by
        apply hsame.1 _ f.other_ne_slot
        intro a ha hmem
        rw [f.owner_other] at ha
        exact (hnotIn a hmem).1 (Option.some.inj ha).symm
      rw [hother]
      refine hsib.congr (hsame.sameOn (fun a ha hmem => (hnotIn a hmem).2.1 ha) fun a ha ho => ?_)
      rw [holeSlot, f.owner_slot] at ho
      exact hfSib (Option.some.inj ho ▸ ha)

end

/-! ## Moving a node up -/

/-- Every node has its place. -/
theorem exists_plug {x : α} {u : BinaryTree α} (h : x ∈ inorder u) :
    ∃ path l r, u = plug path (.node x l r) := by
  induction u with
  | nil => exact absurd h List.not_mem_nil
  | node a tl tr ihl ihr =>
    rw [inorder, List.mem_append, List.mem_cons] at h
    rcases h with h | rfl | h
    · obtain ⟨path, l, r, rfl⟩ := ihl h
      exact ⟨path ++ [.left a tr], l, r, by rw [plug_append]; rfl⟩
    · exact ⟨[], tl, tr, rfl⟩
    · obtain ⟨path, l, r, rfl⟩ := ihr h
      exact ⟨path ++ [.right a tl], l, r, by rw [plug_append]; rfl⟩

/-- The subtrees of a node after it has been rotated over its parent. -/
def Frame.rotate (f : Frame α) (l r : BinaryTree α) : BinaryTree α × BinaryTree α :=
  match f with
  | .left a t => (l, .node a r t)
  | .right a t => (.node a t l, r)

/-- The subtrees of a node after it has been rotated up to the root. -/
def moveUp : List (Frame α) → BinaryTree α → BinaryTree α → BinaryTree α × BinaryTree α
  | [], l, r => (l, r)
  | f :: path, l, r => moveUp path (f.rotate l r).1 (f.rotate l r).2

/-- Moving up a path is moving up both parts of it. -/
theorem moveUp_append (path ctx : List (Frame α)) (l r : BinaryTree α) :
    moveUp (path ++ ctx) l r = moveUp ctx (moveUp path l r).1 (moveUp path l r).2 := by
  induction path generalizing l r with
  | nil => rfl
  | cons f path ih => exact ih (f.rotate l r).1 (f.rotate l r).2

/-- The nodes stay in their order. -/
theorem inorder_moveUp (path : List (Frame α)) (x : α) (l r : BinaryTree α) :
    inorder (.node x (moveUp path l r).1 (moveUp path l r).2) =
      inorder (plug path (.node x l r)) := by
  induction path generalizing l r with
  | nil => rfl
  | cons f path ih =>
    rw [moveUp, ih, plug, inorder_plug, inorder_plug]
    cases f <;> simp [Frame.rotate, Frame.attach, inorder]

/-- The root of a tree around a place is outside the place. -/
theorem plug_root (f : Frame α) (path : List (Frame α)) (u : BinaryTree α) :
    ∃ y l r, plug (f :: path) u = .node y l r ∧ InContext (f :: path) y := by
  induction path generalizing f u with
  | nil =>
    have hf : InContext [f] f.node := inContext_cons.2 (.inl (.inl rfl))
    cases f with
    | left a t => exact ⟨a, u, t, rfl, hf⟩
    | right a t => exact ⟨a, t, u, rfl, hf⟩
  | cons f' path ih =>
    obtain ⟨y, l, r, heq, hin⟩ := ih f' (f.attach u)
    exact ⟨y, l, r, heq, inContext_cons.2 (.inr hin)⟩

/-! ## Balance -/

/-- At every node there are as many nodes on the left as on the right, or one more. -/
def Balanced : BinaryTree α → Prop
  | .nil => True
  | .node _ l r => ((inorder l).length = (inorder r).length ∨
      (inorder l).length = (inorder r).length + 1) ∧ Balanced l ∧ Balanced r

/-- All subtrees of a balanced tree are. -/
theorem Balanced.of_plug {path : List (Frame α)} {u : BinaryTree α} (h : Balanced (plug path u)) :
    Balanced u := by
  induction path generalizing u with
  | nil => exact h
  | cons f path ih =>
    have hf := ih h
    cases f with
    | left a t => exact hf.2.1
    | right a t => exact hf.2.2

/-- A balanced tree has half of its nodes on the left. -/
theorem Balanced.half {x : α} {l r : BinaryTree α} (h : Balanced (.node x l r)) :
    (inorder l).length = (inorder (.node x l r)).length / 2 := by
  have hroot := h.1
  rw [inorder, List.length_append, List.length_cons]
  omega

/-- A balanced tree is no higher than it has to be. -/
theorem Balanced.two_pow_height_le {t : BinaryTree α} (h : Balanced t) (hne : t ≠ .nil) :
    2 ^ t.height ≤ 2 * (inorder t).length := by
  induction t with
  | nil => exact absurd rfl hne
  | node x l r ihl ihr =>
    have hhalf := h.half
    have hlen : (inorder (.node x l r)).length = (inorder l).length + ((inorder r).length + 1) := by
      rw [inorder, List.length_append, List.length_cons]
    have hright : 2 ^ r.height ≤ 2 * (inorder r).length + 1 := by
      by_cases hr : r = .nil
      · rw [hr]
        exact Nat.le_refl 1
      · exact Nat.le_succ_of_le (ihr h.2.2 hr)
    have hleft : 2 ^ l.height ≤ 2 * (inorder l).length + 1 := by
      by_cases hl : l = .nil
      · rw [hl]
        exact Nat.le_refl 1
      · exact Nat.le_succ_of_le (ihl h.2.1 hl)
    -- a power of two is even or 1, so the one more does not matter
    have heven (k n : ℕ) (hk : 2 ^ k ≤ 2 * n + 1) (hn : 0 < n) : 2 ^ k ≤ 2 * n := by
      cases k with
      | zero =>
        rw [Nat.pow_zero]
        omega
      | succ k =>
        rw [Nat.pow_succ] at hk ⊢
        omega
    show 2 ^ (max l.height r.height + 1) ≤ _
    rw [Nat.pow_succ, hlen]
    have hmax : 2 ^ max l.height r.height ≤ (inorder l).length + ((inorder r).length + 1) := by
      rcases Nat.le_total l.height r.height with hle | hle
      · rw [Nat.max_eq_right hle]
        by_cases hpos : 0 < (inorder r).length
        · have := heven _ _ hright hpos
          omega
        · omega
      · rw [Nat.max_eq_left hle]
        by_cases hpos : 0 < (inorder l).length
        · have := heven _ _ hleft hpos
          omega
        · omega
    omega

/-- A node occurs once: its index is the length of what is in front of it. -/
theorem idxOf_append_cons [DecidableEq α] {l r : List α} {x : α} (hnd : (l ++ x :: r).Nodup) :
    (l ++ x :: r).idxOf x = l.length := by
  rw [List.nodup_append] at hnd
  have hx : x ∉ l := fun hin => hnd.2.2 x hin x List.mem_cons_self rfl
  rw [List.idxOf_append_of_notMem hx, List.idxOf_cons_self, Nat.add_zero]

end LinkedTree
