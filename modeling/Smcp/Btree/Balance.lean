import Smcp.Btree.Store
import Smcp.Lib.TreeContext

/-!
# Balancing the binary tree

The rotations of `btree.c`, and `bt_unbalance`, `bt_splay`, `bt_get_balance` and `bt_rebalance`, on
a tree or on the subtree at a slot.

* `btRotate_spec`, `btSplay_spec`, `btUnbalance_spec` and `btRebalance_spec`: what they do to the
  tree;
* `bt_balancing`: all of it.

The counters are numbers without a bound.
-/

namespace Smcp

open LinkedTree

variable {α : Type} [DecidableEq α]

/-! ## The functions -/

/-- `bt_rotate_right`. -/
def btRotateRight (s : Links α) (bt : Slot α) : Links α :=
  match s.get bt with
  | none => s
  | some item =>
    match s.lhs item with
    | none => s
    | some l =>
      let s := s.setParent l (s.parent item)
      let s := s.setParent item (some l)
      let s := s.set bt (some l)
      let s := match s.rhs l with
        | none => s
        | some c => s.setParent c (some item)
      let s := s.set (.lhs item) (s.rhs l)
      s.set (.rhs l) (some item)

/-- `bt_rotate_left`. -/
def btRotateLeft (s : Links α) (bt : Slot α) : Links α :=
  match s.get bt with
  | none => s
  | some item =>
    match s.rhs item with
    | none => s
    | some r =>
      let s := s.setParent r (s.parent item)
      let s := s.setParent item (some r)
      let s := s.set bt (some r)
      let s := match s.lhs r with
        | none => s
        | some c => s.setParent c (some item)
      let s := s.set (.rhs item) (s.lhs r)
      s.set (.lhs r) (some item)

/-- `bt_unbalance`, with the number of rotations that it returns. A call rotates once, or is the one
on the right subtree. -/
def btUnbalance : (fuel : ℕ) → Links α → Slot α → Links α × ℕ
  | 0, s, _ => (s, 0)
  | fuel + 1, s, bt =>
    match s.get bt with
    | none => (s, 0)
    | some item =>
      if s.lhs item ≠ none then
        let r := btUnbalance fuel (btRotateRight s bt) bt
        (r.1, r.2 + 1)
      else btUnbalance fuel s (.rhs item)

/-- The loop of `bt_splay`. -/
def btSplayLoop (bt : Slot α) (item : α) : (fuel : ℕ) → Links α → Links α × ℕ
  | 0, s => (s, 0)
  | fuel + 1, s =>
    if some item = s.get bt then (s, 0)
    else
      match s.parent item with
      | none => (s, 0)
      | some parent =>
        match s.parent parent with
        | none => (s, 0)
        | some grandparent =>
          let pivot :=
            if s.lhs grandparent = some parent then .lhs grandparent else .rhs grandparent
          let s := if s.lhs parent = some item then btRotateRight s pivot else btRotateLeft s pivot
          let r := btSplayLoop bt item fuel s
          (r.1, r.2 + 1)

/-- `bt_splay`, with the number of rotations that it returns. -/
def btSplay (fuel : ℕ) (s : Links α) (bt : Slot α) (root : α) : Links α × ℕ :=
  if s.get bt = some root then (s, 0)
  else
    let r := btSplayLoop bt root fuel s
    if r.1.get bt ≠ some root then
      if (r.1.get bt).bind r.1.lhs = some root then (btRotateRight r.1 bt, r.2 + 1)
      else (btRotateLeft r.1 bt, r.2 + 1)
    else r

/-- The loop of `bt_get_balance`: `root_index` and the number of nodes. -/
def btBalanceLoop (s : Links α) (fuel : ℕ) (last : Option α) (node : α) :
    (rounds : ℕ) → (iter : Option α) → (rootIndex ret : ℕ) → ℕ × ℕ
  | 0, _, rootIndex, ret => (rootIndex, ret)
  | rounds + 1, iter, rootIndex, ret =>
    if iter = last then (rootIndex, ret)
    else btBalanceLoop s fuel last node rounds (iter.bind (btNext s fuel))
      (if iter = some node then ret else rootIndex) (ret + 1)

/-- `bt_get_balance`. -/
def btGetBalance (fuel : ℕ) (s : Links α) (node : α) : ℤ :=
  let r := btBalanceLoop s fuel (btNext s fuel (btLast s fuel node)) node fuel
    (some (btFirst s fuel node)) 0 0
  (r.2 / 2 : ℕ) - (r.1 : ℕ)

/-- The loop of `bt_rebalance` that goes to the median. -/
def btMedianLoop (s : Links α) (fuel : ℕ) (last : Option α) :
    (rounds : ℕ) → (iter median : Option α) → Option α
  | 0, _, median => median
  | rounds + 1, iter, median =>
    if iter = last then median
    else
      let iter := iter.bind (btNext s fuel)
      if iter = last then median
      else btMedianLoop s fuel last rounds (iter.bind (btNext s fuel)) (median.bind (btNext s fuel))

/-- The median node of the subtree at `item`. -/
def btMedian (s : Links α) (fuel : ℕ) (item : α) : Option α :=
  btMedianLoop s fuel (btNext s fuel (btLast s fuel item)) fuel (some (btFirst s fuel item))
    (some (btFirst s fuel item))

/-- `bt_rebalance`, with the number of rotations that it returns. -/
def btRebalance (fuel : ℕ) : (depth : ℕ) → Links α → Slot α → Links α × ℕ
  | 0, s, _ => (s, 0)
  | depth + 1, s, bt =>
    match (s.get bt).bind (btMedian s fuel) with
    | none => (s, 0)
    | some median =>
      let r := btSplay fuel s bt median
      match r.1.get bt with
      | none => r
      | some iter =>
        let r1 := btRebalance fuel depth r.1 (.lhs iter)
        let r2 := btRebalance fuel depth r1.1 (.rhs iter)
        (r2.1, r.2 + r1.2 + r2.2)

/-! ## Rotations -/

section
variable {s : Links α} {bt : Slot α} {par : Option α} {p x : α} {a b c : BinaryTree α}

theorem get_btRotateRight (hbt : s.get bt = some p) (hlhs : s.get (.lhs p) = some x)
    (hx : bt ≠ .rhs x) (slot : Slot α) :
    (btRotateRight s bt).get slot =
      if slot = .rhs x then some p
      else if slot = .lhs p then s.get (.rhs x)
      else if slot = bt then some x
      else s.get slot := by
  unfold btRotateRight
  rw [hbt]
  simp only [Links.lhs_eq_get, Links.rhs_eq_get, hlhs, Links.get_set, Links.get_setParent]
  rw [if_neg hx.symm]
  cases hrhs : s.get (.rhs x) <;> simp [Links.get_set, hx.symm, hrhs]

theorem parent_btRotateRight (hbt : s.get bt = some p) (hlhs : s.get (.lhs p) = some x)
    (hx : bt ≠ .rhs x) (y : α) :
    (btRotateRight s bt).parent y =
      if s.get (.rhs x) = some y then some p
      else if y = p then some x
      else if y = x then s.parent p
      else s.parent y := by
  unfold btRotateRight
  rw [hbt]
  simp only [Links.lhs_eq_get, Links.rhs_eq_get, hlhs, Links.get_set, Links.get_setParent]
  rw [if_neg hx.symm]
  cases hrhs : s.get (.rhs x) with
  | none => simp [Links.parent_setParent]
  | some d =>
    simp only [Links.parent_set, Links.parent_setParent, Option.some.injEq]
    by_cases hd : y = d
    · simp [hd]
    · simp [hd, Ne.symm hd]

/-- `bt_rotate_right` at a slot that leads to a node with a left child. -/
theorem btRotateRight_spec (h : Rep s par (s.get bt) (.node p (.node x a b) c))
    (hnd : (inorder (.node p (.node x a b) c)).Nodup)
    (howner : ∀ y ∈ inorder (.node p (.node x a b) c), bt.owner ≠ some y) :
    Rep (btRotateRight s bt) par ((btRotateRight s bt).get bt) (.node x a (.node p b c)) ∧
      SameBut s (btRotateRight s bt) bt (inorder (.node p (.node x a b) c)) := by
  obtain ⟨hbt, hpar, ⟨hlhs, hxp, ha, hb⟩, hc⟩ := h
  have hpMem : p ∈ inorder (.node p (.node x a b) c) := by simp [inorder]
  have hxMem : x ∈ inorder (.node p (.node x a b) c) := by simp [inorder]
  have hbtOf (y : α) (hy : y ∈ inorder (.node p (.node x a b) c)) : bt ≠ .lhs y ∧ bt ≠ .rhs y := by
    constructor <;> rintro rfl <;> exact howner y hy rfl
  have hget := get_btRotateRight hbt hlhs (hbtOf x hxMem).2
  have hparent := parent_btRotateRight hbt hlhs (hbtOf x hxMem).2
  generalize btRotateRight s bt = s' at hget hparent ⊢
  simp only [inorder, List.nodup_append, List.nodup_cons, List.mem_append, List.mem_cons] at hnd
  obtain ⟨⟨hnda, ⟨hxb, hndb⟩, hab⟩, ⟨hpc, hndc⟩, hleft⟩ := hnd
  have hxp' : x ≠ p := hleft x (.inr (.inl rfl)) p (.inl rfl)
  have hpa : p ∉ inorder a := fun hin => hleft p (.inl hin) p (.inl rfl) rfl
  have hpb : p ∉ inorder b := fun hin => hleft p (.inr (.inr hin)) p (.inl rfl) rfl
  have hxa : x ∉ inorder a := fun hin => hab x hin x (.inl rfl) rfl
  have hxc : x ∉ inorder c := fun hin => hleft x (.inr (.inl rfl)) x (.inr hin) rfl
  have hchild (y : α) (hy : s.get (.rhs x) = some y) : y ∈ inorder b := by
    rw [hy] at hb
    exact hb.mem_of_eq_some
  -- what is neither of the two nodes keeps its links, except for the root of the middle subtree
  have hkept (y : α) (hyMem : y ∈ inorder (.node p (.node x a b) c)) (hyp : y ≠ p) (hyx : y ≠ x) :
      s'.get (.lhs y) = s.get (.lhs y) ∧ s'.get (.rhs y) = s.get (.rhs y) ∧
        (s.get (.rhs x) ≠ some y → s'.parent y = s.parent y) := by
    obtain ⟨h1, h2⟩ := hbtOf y hyMem
    refine ⟨?_, ?_, fun hroot => ?_⟩
    · rw [hget]
      simp [hyp, h1.symm]
    · rw [hget]
      simp [hyx, h2.symm]
    · rw [hparent, if_neg hroot, if_neg hyp, if_neg hyx]
  have hside {u : BinaryTree α} (hu : ∀ y ∈ inorder u, y ∈ inorder (.node p (.node x a b) c) ∧
      y ≠ p ∧ y ≠ x ∧ y ∉ inorder b) : SameOn s s' (inorder u) := by
    intro y hy
    obtain ⟨hyMem, hyp, hyx, hyb⟩ := hu y hy
    obtain ⟨h1, h2, h3⟩ := hkept y hyMem hyp hyx
    exact ⟨h1, h2, h3 fun hroot => hyb (hchild y hroot)⟩
  have hab' : ∀ y ∈ inorder a, y ∉ inorder b := fun y hy hyb => hab y hy y (.inr hyb) rfl
  have hcb' : ∀ y ∈ inorder c, y ∉ inorder b := fun y hy hyb =>
    hleft y (.inr (.inr hyb)) y (.inr hy) rfl
  constructor
  · refine ⟨?_, ?_, ?_, ?_, ?_, ?_, ?_⟩
    · rw [hget, if_neg (hbtOf x hxMem).2, if_neg (hbtOf p hpMem).1, if_pos rfl]
    · rw [hparent, if_neg fun hroot => hxb (hchild x hroot), if_neg hxp', if_pos rfl, hpar]
    · have hlhs' : s'.get (.lhs x) = s.get (.lhs x) := by
        rw [hget]
        simp [hxp', (hbtOf x hxMem).1.symm]
      rw [hlhs']
      refine ha.congr (hside fun y hy => ⟨by simp [inorder, hy], ?_, ?_, hab' y hy⟩)
      · rintro rfl
        exact hpa hy
      · rintro rfl
        exact hxa hy
    · rw [hget, if_pos rfl]
    · rw [hparent, if_neg fun hroot => hpb (hchild p hroot), if_pos rfl]
    · have hlhs' : s'.get (.lhs p) = s.get (.rhs x) := by
        rw [hget]
        simp
      rw [hlhs']
      refine hb.reparent hndb (fun y hy => ?_) fun y hy => ?_
      · have hyp : y ≠ p := by
          rintro rfl
          exact hpb hy
        have hyx : y ≠ x := by
          rintro rfl
          exact hxb hy
        exact hkept y (by simp [inorder, hy]) hyp hyx
      · rw [hparent, if_pos hy]
    · have hrhs' : s'.get (.rhs p) = s.get (.rhs p) := by
        rw [hget]
        simp [hxp'.symm, (hbtOf p hpMem).2.symm]
      rw [hrhs']
      refine hc.congr (hside fun y hy => ⟨by simp [inorder, hy], ?_, ?_, hcb' y hy⟩)
      · rintro rfl
        exact hpc hy
      · rintro rfl
        exact hxc hy
  · constructor
    · intro slot hslot hout
      rw [hget, if_neg, if_neg, if_neg hslot]
      · rintro rfl
        exact hout p rfl hpMem
      · rintro rfl
        exact hout x rfl hxMem
    · intro y hy
      rw [hparent, if_neg, if_neg, if_neg]
      · rintro rfl
        exact hy hxMem
      · rintro rfl
        exact hy hpMem
      · intro hroot
        exact hy (by simp [inorder, hchild y hroot])

/-- `bt_rotate_left` is `bt_rotate_right` the other way round. -/
theorem btRotateLeft_eq_mirror (s : Links α) (bt : Slot α) :
    btRotateLeft s bt = (btRotateRight s.mirror bt.mirror).mirror := by
  have hget : s.mirror.get bt.mirror = s.get bt := by cases bt <;> rfl
  unfold btRotateLeft btRotateRight
  rw [hget]
  cases s.get bt with
  | none => rfl
  | some item =>
    dsimp only
    have hlhs : s.mirror.lhs item = s.rhs item := rfl
    rw [hlhs]
    cases s.rhs item with
    | none => rfl
    | some r =>
      dsimp only
      have hset (s : Links α) (v : Option α) : s.mirror.set bt.mirror v = (s.set bt v).mirror :=
        (Links.mirror_set s bt v).symm
      have hparent : s.mirror.parent item = s.parent item := rfl
      rw [hparent, ← Links.mirror_setParent, ← Links.mirror_setParent, hset]
      generalize ((s.setParent r (s.parent item)).setParent item (some r)).set bt (some r) = s1
      have hrhs : s1.mirror.rhs r = s1.lhs r := rfl
      rw [hrhs]
      cases s1.lhs r <;> rfl

/-- `bt_rotate_left` at a slot that leads to a node with a right child. -/
theorem btRotateLeft_spec (h : Rep s par (s.get bt) (.node p c (.node x b a)))
    (hnd : (inorder (.node p c (.node x b a))).Nodup)
    (howner : ∀ y ∈ inorder (.node p c (.node x b a)), bt.owner ≠ some y) :
    Rep (btRotateLeft s bt) par ((btRotateLeft s bt).get bt) (.node x (.node p c b) a) ∧
      SameBut s (btRotateLeft s bt) bt (inorder (.node p c (.node x b a))) := by
  -- a rotation to the left is one to the right in the mirror
  have hrep : Rep s.mirror par (s.mirror.get bt.mirror)
      (.node p (.node x (mirror a) (mirror b)) (mirror c)) := by
    rw [Links.get_mirror, Slot.mirror_mirror]
    exact h.mirror
  have horder : inorder (.node p (.node x (mirror a) (mirror b)) (mirror c)) =
      (inorder (.node p c (.node x b a))).reverse :=
    inorder_mirror (.node p c (.node x b a))
  obtain ⟨hrep', hsame⟩ := btRotateRight_spec hrep (by rwa [horder, List.nodup_reverse])
    (by
      intro y hy
      rw [horder, List.mem_reverse] at hy
      rw [Slot.owner_mirror]
      exact howner y hy)
  rw [btRotateLeft_eq_mirror]
  -- and seen in the mirror again it is the tree of the statement
  have hback := hrep'.mirror
  have htree : mirror (.node x (mirror a) (.node p (mirror b) (mirror c))) =
      .node x (.node p c b) a := by
    simp [mirror]
  rw [htree] at hback
  constructor
  · rw [Links.get_mirror]
    exact hback
  · have hsame' := hsame.mirror
    rw [Links.mirror_mirror, Slot.mirror_mirror] at hsame'
    rw [horder] at hsame'
    refine ⟨fun slot hslot hout => hsame'.1 slot hslot fun y hy hin => ?_, fun y hy => ?_⟩
    · exact hout y hy (List.mem_reverse.1 hin)
    · exact hsame'.2 y fun hin => hy (List.mem_reverse.1 hin)

end

/-! ## Splaying -/

section
variable {s : Links α} {ctx path : List (Frame α)} {x : α} {l r u : BinaryTree α}

omit [DecidableEq α] in
/-- The slot of a place does not belong to a node there. -/
theorem holeSlot_owner_ne (ctx : List (Frame α)) (u : BinaryTree α)
    (hnd : (inorder (plug ctx u)).Nodup) :
    ∀ y ∈ inorder u, (holeSlot ctx).owner ≠ some y := by
  intro y hy howner
  rw [holeSlot_owner] at howner
  exact not_inContext hnd hy (inContext_holeParent howner)

omit [DecidableEq α] in
/-- The way from a parent to its child is told from its left pointer. -/
theorem lhs_eq_iff {f : Frame α} (h : Rep s none s.root (plug (f :: ctx) (.node x l r)))
    (hnd : (inorder (plug (f :: ctx) (.node x l r))).Nodup) :
    s.lhs f.node = some x ↔ f.slot = .lhs f.node := by
  obtain ⟨⟨hx, -⟩, -, -, hsib, -⟩ := (rep_plug _ _).1 h
  cases f with
  | left a t => exact iff_of_true hx rfl
  | right a t =>
    refine iff_of_false (fun heq => ?_) (by simp [Frame.slot, Frame.node])
    have hsib' : Rep s (some a) (s.lhs a) t := hsib
    have heq' : s.lhs a = some x := heq
    rw [heq'] at hsib'
    have hin : InContext (.right a t :: ctx) x :=
      inContext_cons.2 (.inl (.inr hsib'.mem_of_eq_some))
    exact not_inContext hnd (by simp [inorder]) hin

/-- A node is rotated over its parent. -/
theorem rotate_plug {f : Frame α} (h : Rep s none s.root (plug (f :: ctx) (.node x l r)))
    (hnd : (inorder (plug (f :: ctx) (.node x l r))).Nodup) {s' : Links α}
    (hs' : s' = if s.lhs f.node = some x then btRotateRight s (holeSlot ctx)
      else btRotateLeft s (holeSlot ctx)) :
    Rep s' none s'.root (plug ctx (.node x (f.rotate l r).1 (f.rotate l r).2)) := by
  have hside := lhs_eq_iff h hnd
  have hrep := (rep_plug ctx (f.attach (.node x l r))).1 h
  have hnd' := (nodup_plug ctx (f.attach (.node x l r)) hnd).1
  have howner := holeSlot_owner_ne ctx (f.attach (.node x l r)) hnd
  cases f with
  | left a t =>
    rw [if_pos (hside.2 rfl)] at hs'
    obtain ⟨hnew, hsame⟩ := btRotateRight_spec hrep.1 hnd' howner
    rw [← hs'] at hnew hsame
    exact Rep.put ctx (.node a (.node x l r) t) h hnd hsame hnew
  | right a t =>
    rw [if_neg fun heq => by simpa [Frame.slot, Frame.node] using hside.1 heq] at hs'
    obtain ⟨hnew, hsame⟩ := btRotateLeft_spec hrep.1 hnd' howner
    rw [← hs'] at hnew hsame
    exact Rep.put ctx (.node a t (.node x l r)) h hnd hsame hnew

omit [DecidableEq α] in
/-- The rotation keeps the nodes. -/
theorem nodup_rotate {f : Frame α} (hnd : (inorder (plug (f :: ctx) (.node x l r))).Nodup) :
    (inorder (plug ctx (.node x (f.rotate l r).1 (f.rotate l r).2))).Nodup := by
  have heq : inorder (plug ctx (.node x (f.rotate l r).1 (f.rotate l r).2)) =
      inorder (plug (f :: ctx) (.node x l r)) := by
    rw [plug, inorder_plug, inorder_plug]
    cases f <;> simp [Frame.rotate, Frame.attach, inorder]
  rwa [heq]

/-- A round of the loop of `bt_splay`, at a node that has a grandparent. -/
theorem btSplayLoop_step {f f' : Frame α} {bt : Slot α} (fuel : ℕ)
    (h : Rep s none s.root (plug (f :: f' :: ctx) (.node x l r)))
    (hnd : (inorder (plug (f :: f' :: ctx) (.node x l r))).Nodup) (hbt : s.get bt ≠ some x) :
    ∃ s', Rep s' none s'.root (plug (f' :: ctx) (.node x (f.rotate l r).1 (f.rotate l r).2)) ∧
      btSplayLoop bt x (fuel + 1) s =
        ((btSplayLoop bt x fuel s').1, (btSplayLoop bt x fuel s').2 + 1) := by
  obtain ⟨⟨-, hparent, -⟩, -, hgrand, -⟩ := (rep_plug _ _).1 h
  have hpivot : (if s.lhs f'.node = some f.node then Slot.lhs f'.node else .rhs f'.node) =
      f'.slot := by
    have hside : s.lhs f'.node = some f.node ↔ f'.slot = .lhs f'.node := by
      cases f with
      | left a t =>
        exact lhs_eq_iff (f := f') (x := a) (l := .node x l r) (r := t) h hnd
      | right a t =>
        exact lhs_eq_iff (f := f') (x := a) (l := t) (r := .node x l r) h hnd
    simp only [hside]
    cases f' <;> simp [Frame.slot, Frame.node]
  refine ⟨_, rotate_plug h hnd rfl, ?_⟩
  rw [btSplayLoop, if_neg fun heq => hbt heq.symm, hparent]
  dsimp only [holeParent]
  rw [hgrand]
  dsimp only [holeParent]
  rw [hpivot]
  rfl

omit [DecidableEq α] in
/-- Above a node on the way down a slot leads elsewhere. -/
theorem get_ne_of_path {g : Frame α} (path ctx : List (Frame α))
    (h : Rep s none s.root (plug (g :: path ++ ctx) (.node x l r)))
    (hnd : (inorder (plug (g :: path ++ ctx) (.node x l r))).Nodup) :
    s.get (holeSlot ctx) ≠ some x := by
  intro heq
  rw [plug_append] at h hnd
  obtain ⟨y, yl, yr, hroot, hy⟩ := plug_root g path (.node x l r)
  have hrep := ((rep_plug _ _).1 h).1
  rw [hroot] at hrep
  obtain rfl : x = y := Option.some.inj (heq.symm.trans hrep.1)
  exact not_inContext (nodup_plug _ _ hnd).1 (by simp [inorder]) hy

/-- The loop of `bt_splay`: it goes on until the node is below the frame `f`. -/
theorem btSplayLoop_spec {f : Frame α} (bt : Slot α)
    (hstop : ∀ (s : Links α) (l r : BinaryTree α) (fuel : ℕ),
      Rep s none s.root (plug (f :: ctx) (.node x l r)) →
      (inorder (plug (f :: ctx) (.node x l r))).Nodup → btSplayLoop bt x fuel s = (s, 0))
    (hgo : ∀ (s : Links α) (g : Frame α) (path : List (Frame α)) (l r : BinaryTree α),
      Rep s none s.root (plug (g :: path ++ f :: ctx) (.node x l r)) →
      (inorder (plug (g :: path ++ f :: ctx) (.node x l r))).Nodup → s.get bt ≠ some x)
    {fuel : ℕ} (h : Rep s none s.root (plug (path ++ f :: ctx) (.node x l r)))
    (hnd : (inorder (plug (path ++ f :: ctx) (.node x l r))).Nodup) (hfuel : path.length ≤ fuel) :
    Rep (btSplayLoop bt x fuel s).1 none (btSplayLoop bt x fuel s).1.root
        (plug (f :: ctx) (.node x (moveUp path l r).1 (moveUp path l r).2)) ∧
      (btSplayLoop bt x fuel s).2 = path.length := by
  -- induction on the path: one rotation, and the node is one frame higher
  induction path generalizing s l r fuel with
  | nil =>
    rw [hstop s l r fuel h hnd]
    exact ⟨h, rfl⟩
  | cons g path ih =>
    cases fuel with
    | zero => exact absurd hfuel (by simp)
    | succ fuel =>
      have hbt := hgo s g path l r h hnd
      obtain ⟨f', rest, hrest⟩ : ∃ f' rest, path ++ f :: ctx = f' :: rest := by
        cases path with
        | nil => exact ⟨f, ctx, rfl⟩
        | cons f' path => exact ⟨f', path ++ f :: ctx, rfl⟩
      rw [List.cons_append, hrest] at h hnd
      obtain ⟨s', hs', hstep⟩ := btSplayLoop_step fuel h hnd hbt
      have hnd' := nodup_rotate hnd
      rw [← hrest] at hs' hnd'
      obtain ⟨hrep, hret⟩ := ih hs' hnd' (by simpa using hfuel)
      rw [hstep]
      exact ⟨hrep, by rw [hret, List.length_cons]⟩

/-- In a subtree whose root has a parent the loop stops at the slot. -/
theorem btSplayLoop_stop_inner {f : Frame α} (fuel : ℕ)
    (h : Rep s none s.root (plug (f :: ctx) (.node x l r))) :
    btSplayLoop f.slot x fuel s = (s, 0) := by
  have hx : s.get f.slot = some x := ((rep_plug _ _).1 h).1.1
  cases fuel with
  | zero => rfl
  | succ fuel => rw [btSplayLoop, if_pos hx.symm]

/-- In the whole tree the loop stops below the root, which has no parent. -/
theorem btSplayLoop_stop_root {f : Frame α} (fuel : ℕ)
    (h : Rep s none s.root (plug [f] (.node x l r)))
    (hnd : (inorder (plug [f] (.node x l r))).Nodup) : btSplayLoop .root x fuel s = (s, 0) := by
  have hbt : s.get .root ≠ some x := get_ne_of_path [] [] h hnd
  obtain ⟨⟨-, hparent, -⟩, -, hnone, -⟩ := (rep_plug _ _).1 h
  have hparent' : s.parent x = some f.node := hparent
  have hnone' : s.parent f.node = none := hnone
  cases fuel with
  | zero => rfl
  | succ fuel =>
    rw [btSplayLoop, if_neg hbt.symm, hparent']
    dsimp only
    rw [hnone']

/-- `bt_splay` moves the node up to the root of the subtree, one level with each rotation. -/
theorem btSplay_spec {fuel : ℕ} (path ctx : List (Frame α))
    (h : Rep s none s.root (plug (path ++ ctx) (.node x l r)))
    (hnd : (inorder (plug (path ++ ctx) (.node x l r))).Nodup) (hfuel : path.length ≤ fuel) :
    Rep (btSplay fuel s (holeSlot ctx) x).1 none (btSplay fuel s (holeSlot ctx) x).1.root
        (plug ctx (.node x (moveUp path l r).1 (moveUp path l r).2)) ∧
      (path = [] → btSplay fuel s (holeSlot ctx) x = (s, 0)) := by
  -- at the root of the subtree nothing is to be done
  cases path with
  | nil =>
    have hx : s.get (holeSlot ctx) = some x := ((rep_plug _ _).1 h).1.1
    rw [btSplay, if_pos hx]
    exact ⟨h, fun _ => rfl⟩
  | cons g path =>
    have hbt := get_ne_of_path path ctx h hnd
    refine ⟨?_, fun hnil => absurd hnil (List.cons_ne_nil g path)⟩
    rw [btSplay, if_neg hbt]
    dsimp only
    cases ctx with
    | cons f ctx =>
      obtain ⟨hrep, -⟩ := btSplayLoop_spec f.slot
        (fun s l r fuel h _ => btSplayLoop_stop_inner fuel h)
        (fun s g path l r h hnd => get_ne_of_path path (f :: ctx) h hnd) h hnd hfuel
      have hx : (btSplayLoop f.slot x fuel s).1.get f.slot = some x := ((rep_plug _ _).1 hrep).1.1
      rw [holeSlot, if_neg fun hne => hne hx]
      exact hrep
    | nil =>
      obtain ⟨init, f, hlast⟩ :=
        (List.eq_nil_or_concat (g :: path)).resolve_left (List.cons_ne_nil g path)
      rw [List.concat_eq_append] at hlast
      rw [List.append_nil, hlast] at h hnd
      rw [hlast, List.length_append, List.length_singleton] at hfuel
      obtain ⟨hrep, -⟩ := btSplayLoop_spec .root
        (fun s l r fuel h hnd => btSplayLoop_stop_root fuel h hnd)
        (fun s g path l r h hnd => by
          have heq : g :: path ++ [f] = g :: (path ++ [f]) ++ [] := by simp
          rw [heq] at h hnd
          exact get_ne_of_path (path ++ [f]) [] h hnd) h hnd (show init.length ≤ fuel by omega)
      have hnd' : (inorder (plug [f] (.node x (moveUp init l r).1 (moveUp init l r).2))).Nodup := by
        have heq : inorder (plug [f] (.node x (moveUp init l r).1 (moveUp init l r).2)) =
            inorder (plug (init ++ [f]) (.node x l r)) := by
          rw [plug_append, inorder_plug [f], inorder_plug [f], inorder_moveUp]
        rwa [heq]
      have hroot := ((rep_plug _ _).1 hrep).2.1
      have hbt' : (btSplayLoop .root x fuel s).1.get .root ≠ some x :=
        get_ne_of_path [] [] hrep hnd'
      rw [hlast, moveUp_append, holeSlot, if_pos hbt']
      have hroot' : (btSplayLoop .root x fuel s).1.get .root = some f.node := hroot
      rw [hroot', Option.bind_some]
      have hrotate := rotate_plug hrep hnd' rfl
      split_ifs at hrotate ⊢
      · exact hrotate
      · exact hrotate

/-! ## Unbalancing -/

/-- How many more calls `bt_unbalance` makes: one for each rotation, and one for each node. -/
def unbalanceWork : BinaryTree α → ℕ
  | .nil => 1
  | .node _ l r => 2 * (inorder l).length + unbalanceWork r + 1

/-- No node has a left child. -/
def NoLeft : BinaryTree α → Prop
  | .nil => True
  | .node _ l r => l = .nil ∧ NoLeft r

omit [DecidableEq α] in
theorem unbalanceWork_le (u : BinaryTree α) : unbalanceWork u ≤ 2 * (inorder u).length + 1 := by
  induction u with
  | nil => exact Nat.le_refl 1
  | node a l r _ ihr =>
    rw [unbalanceWork, inorder, List.length_append, List.length_cons]
    omega

/-- `bt_unbalance` leaves the nodes in a row. -/
theorem btUnbalance_spec {fuel : ℕ} (ctx : List (Frame α)) (h : Rep s none s.root (plug ctx u))
    (hnd : (inorder (plug ctx u)).Nodup) (hfuel : unbalanceWork u ≤ fuel) :
    ∃ u', Rep (btUnbalance fuel s (holeSlot ctx)).1 none (btUnbalance fuel s (holeSlot ctx)).1.root
      (plug ctx u') ∧ inorder u' = inorder u ∧ NoLeft u' := by
  -- induction on the fuel: a rotation takes one off the work, a step to the right too
  induction fuel generalizing s ctx u with
  | zero =>
    cases u with
    | nil => exact absurd hfuel (by simp [unbalanceWork])
    | node a tl tr => exact absurd hfuel (by simp [unbalanceWork])
  | succ fuel ih =>
    have hrep := ((rep_plug _ _).1 h).1
    rw [btUnbalance]
    cases u with
    | nil =>
      have hnone : s.get (holeSlot ctx) = none := hrep
      rw [hnone]
      exact ⟨.nil, h, rfl, trivial⟩
    | node p tl c =>
      obtain ⟨hp, -, hl, -⟩ := hrep
      rw [hp]
      dsimp only
      cases tl with
      | nil =>
        have hnone : s.lhs p = none := hl
        rw [if_neg (not_not_intro hnone)]
        rw [unbalanceWork] at hfuel
        obtain ⟨u', hu', horder, hrow⟩ := ih (.right p .nil :: ctx) h hnd (by omega)
        exact ⟨.node p .nil u', hu', by simp [inorder, horder], rfl, hrow⟩
      | node y a b =>
        have hsome : s.lhs p ≠ none := by
          intro hnone
          exact absurd (hl.1.symm.trans hnone) (Option.some_ne_none y)
        rw [if_pos hsome]
        have hrotate := rotate_plug (f := .left p c) h hnd (if_pos hl.1).symm
        have hnd' := nodup_rotate (f := .left p c) hnd
        have hwork : unbalanceWork (.node y a (.node p b c)) ≤ fuel := by
          simp only [unbalanceWork, inorder, List.length_append, List.length_cons] at hfuel ⊢
          omega
        obtain ⟨u', hu', horder, hrow⟩ := ih ctx hrotate hnd' hwork
        refine ⟨u', hu', ?_, hrow⟩
        rw [horder]
        simp [Frame.rotate, inorder]

/-! ## Walking through a subtree -/

omit [DecidableEq α] in
/-- What comes behind a list that is not the whole rest is not the beginning of it. -/
theorem head?_append_ne (l post : List α) (hnd : (l ++ post).Nodup) (hl : l ≠ []) :
    (l ++ post).head? ≠ post.head? := by
  obtain ⟨a, l, rfl⟩ := List.exists_cons_of_ne_nil hl
  rw [List.cons_append, List.nodup_cons] at hnd
  rw [List.cons_append, List.head?_cons]
  intro heq
  exact hnd.1 (List.mem_append_right l (List.mem_of_mem_head? heq.symm))

/-- The tree in order: what is in front of the subtree, the subtree, and what is behind it. -/
structure Walk (s : Links α) (fuel : ℕ) (pre l post : List α) : Prop where
  nodup : (pre ++ l ++ post).Nodup
  enough : (pre ++ l ++ post).length ≤ fuel
  next : ∀ before a after, pre ++ l ++ post = before ++ a :: after → btNext s fuel a = after.head?

theorem walk_of_rep {fuel : ℕ} (h : Rep s none s.root (plug ctx u))
    (hnd : (inorder (plug ctx u)).Nodup) (hfuel : (inorder (plug ctx u)).length ≤ fuel) :
    Walk s fuel (beforeHole ctx) (inorder u) (afterHole ctx) := by
  refine ⟨?_, ?_, fun before a after hsplit => ?_⟩
  · rwa [← inorder_plug]
  · rwa [← inorder_plug]
  · rw [← inorder_plug] at hsplit
    exact btNext_eq h hnd hfuel hsplit

/-- The first and the last node of a subtree, and the end of a walk through it. -/
theorem walk_ends {fuel : ℕ} (h : Rep s none s.root (plug ctx (.node x l r)))
    (hnd : (inorder (plug ctx (.node x l r))).Nodup)
    (hfuel : (inorder (plug ctx (.node x l r))).length ≤ fuel) :
    some (btFirst s fuel x) = (inorder (.node x l r) ++ afterHole ctx).head? ∧
      btNext s fuel (btLast s fuel x) = (afterHole ctx).head? := by
  have hwalk := walk_of_rep h hnd hfuel
  have hrep := ((rep_plug _ _).1 h).1
  rw [hrep.1] at hrep
  have hlen : (inorder (.node x l r)).length ≤ fuel := by
    have hle := hwalk.enough
    rw [List.length_append, List.length_append] at hle
    omega
  constructor
  · rw [← btFirst_eq hrep hlen, List.head?_append_of_ne_nil _ (by simp [inorder])]
  · have hlast := btLast_eq hrep hlen
    rw [List.getLast?_eq_some_iff] at hlast
    obtain ⟨init, hinit⟩ := hlast
    apply hwalk.next (beforeHole ctx ++ init)
    rw [hinit]
    simp only [List.append_assoc, List.singleton_append]

section
variable {fuel : ℕ} {pre post : List α}

/-- The loop of `bt_get_balance` counts the nodes, and those in front of the given one. -/
theorem btBalanceLoop_eq {l rest : List α} (node : α) (h : Walk s fuel pre l post) (done : List α)
    (hsplit : l = done ++ rest) (rootIndex : ℕ) {rounds : ℕ} (hrounds : rest.length < rounds) :
    btBalanceLoop s fuel post.head? node rounds (rest ++ post).head? rootIndex done.length =
      (if node ∈ rest then done.length + rest.idxOf node else rootIndex, l.length) := by
  -- induction on the nodes that are left to count
  induction rest generalizing done rounds rootIndex with
  | nil =>
    cases rounds with
    | zero => exact absurd hrounds (Nat.not_lt_zero _)
    | succ rounds =>
      rw [btBalanceLoop, List.nil_append, if_pos rfl, hsplit, List.append_nil]
      simp
  | cons a rest ih =>
    cases rounds with
    | zero => exact absurd hrounds (Nat.not_lt_zero _)
    | succ rounds =>
      have hall : pre ++ l ++ post = pre ++ done ++ a :: (rest ++ post) := by
        rw [hsplit]
        simp only [List.append_assoc, List.cons_append]
      have hnd := h.nodup
      rw [hall] at hnd
      have hnd' := (List.nodup_append.1 hnd).2.1
      have hne := head?_append_ne (a :: rest) post hnd' (List.cons_ne_nil a rest)
      have hnext := h.next (pre ++ done) a (rest ++ post) hall
      have hstep := ih (done ++ [a]) (by rw [hsplit]; simp)
        (if some a = some node then done.length else rootIndex)
        (show rest.length < rounds by simpa using hrounds)
      rw [btBalanceLoop, if_neg hne, List.cons_append, List.head?_cons, Option.bind_some, hnext]
      rw [List.length_append, List.length_singleton] at hstep
      rw [hstep]
      congr 1
      have hnotin : a ∉ rest := fun hin =>
        (List.nodup_cons.1 hnd').1 (List.mem_append_left post hin)
      by_cases heq : a = node
      · subst heq
        simp [hnotin]
      · have heq' : ¬some a = some node := fun h => heq (Option.some.inj h)
        by_cases hin : node ∈ rest
        · rw [if_pos hin, if_pos (List.mem_cons_of_mem a hin), List.idxOf_cons_ne _ heq]
          omega
        · rw [if_neg hin, if_neg heq', if_neg]
          intro hmem
          rcases List.mem_cons.1 hmem with h | h
          · exact heq h.symm
          · exact hin h

/-- The loop of `bt_rebalance` goes to the node in the middle. -/
theorem btMedianLoop_eq {l rest : List α} (h : Walk s fuel pre l post) {front back : List α}
    (hsplit : l = front ++ back) {done : List α} (hdone : l = done ++ rest)
    (hhalf : done.length = 2 * front.length) {rounds : ℕ} (hrounds : rest.length < rounds) :
    ∃ front' back', l = front' ++ back' ∧ front'.length = l.length / 2 ∧
      btMedianLoop s fuel post.head? rounds (rest ++ post).head? (back ++ post).head? =
        (back' ++ post).head? := by
  induction rounds generalizing rest front back done with
  | zero => exact absurd hrounds (Nat.not_lt_zero _)
  | succ rounds ih =>
    have hlen := congrArg List.length hdone
    rw [List.length_append] at hlen
    have hnd := h.nodup
    rw [List.append_assoc] at hnd
    have hnd' := (List.nodup_append.1 hnd).2.1
    rw [hdone, List.append_assoc] at hnd'
    have hndRest := (List.nodup_append.1 hnd').2.1
    rw [btMedianLoop]
    match rest with
    | [] =>
      rw [List.nil_append, if_pos rfl]
      rw [List.length_nil] at hlen
      exact ⟨front, back, hsplit, by omega, rfl⟩
    | [a] =>
      have hne := head?_append_ne [a] post hndRest (List.cons_ne_nil a [])
      have hnext := h.next (pre ++ done) a post (by rw [hdone]; simp)
      rw [if_neg hne]
      dsimp only [List.cons_append, List.nil_append, List.head?_cons, Option.bind_some]
      rw [hnext, if_pos rfl]
      rw [List.length_singleton] at hlen
      exact ⟨front, back, hsplit, by omega, rfl⟩
    | a :: b :: rest =>
      have hne := head?_append_ne (a :: b :: rest) post hndRest (List.cons_ne_nil a _)
      have hndTail := (List.nodup_cons.1 hndRest).2
      have hne' := head?_append_ne (b :: rest) post hndTail (List.cons_ne_nil b rest)
      have hnext := h.next (pre ++ done) a (b :: rest ++ post) (by rw [hdone]; simp)
      have hnext' := h.next (pre ++ done ++ [a]) b (rest ++ post) (by rw [hdone]; simp)
      -- the median is behind
      have hback : back ≠ [] := by
        rintro rfl
        have hlen' := congrArg List.length hsplit
        simp only [List.length_append, List.length_nil, List.length_cons] at hlen hlen'
        omega
      obtain ⟨m, back, rfl⟩ := List.exists_cons_of_ne_nil hback
      have hmedian := h.next (pre ++ front) m (back ++ post) (by rw [hsplit]; simp)
      have hsplit' : l = (front ++ [m]) ++ back := by simp [hsplit]
      have hdone' : l = (done ++ [a, b]) ++ rest := by simp [hdone]
      have hhalf' : (done ++ [a, b]).length = 2 * (front ++ [m]).length := by
        simp only [List.length_append, List.length_cons, List.length_nil]
        omega
      have hrounds' : rest.length < rounds := by
        simp only [List.length_cons] at hrounds
        omega
      obtain ⟨front', back', hl, hfront, hloop⟩ := ih hsplit' hdone' hhalf' hrounds'
      refine ⟨front', back', hl, hfront, ?_⟩
      rw [if_neg hne]
      dsimp only [List.cons_append, List.head?_cons, Option.bind_some] at hne' hnext ⊢
      rw [hnext]
      dsimp only [List.head?_cons, Option.bind_some]
      rw [if_neg hne', hnext', hmedian]
      exact hloop

end

/-! ## Rebalancing -/

section
variable {fuel : ℕ}

/-- The median of a subtree. -/
theorem btMedian_eq (h : Rep s none s.root (plug ctx (.node x l r)))
    (hnd : (inorder (plug ctx (.node x l r))).Nodup)
    (hfuel : (inorder (plug ctx (.node x l r))).length < fuel) :
    ∃ front m back, inorder (.node x l r) = front ++ m :: back ∧
      front.length = (inorder (.node x l r)).length / 2 ∧ btMedian s fuel x = some m := by
  have hwalk := walk_of_rep h hnd (Nat.le_of_lt hfuel)
  obtain ⟨hfirst, hend⟩ := walk_ends h hnd (Nat.le_of_lt hfuel)
  have hrounds : (inorder (.node x l r)).length < fuel := by
    rw [inorder_plug, List.length_append, List.length_append] at hfuel
    omega
  have hnil : inorder (.node x l r) = [] ++ inorder (.node x l r) := rfl
  obtain ⟨front, back, hsplit, hfront, hloop⟩ := btMedianLoop_eq hwalk hnil hnil rfl hrounds
  have hback : back ≠ [] := by
    rintro rfl
    rw [List.append_nil] at hsplit
    rw [← hsplit, inorder, List.length_append, List.length_cons] at hfront
    omega
  obtain ⟨m, back, rfl⟩ := List.exists_cons_of_ne_nil hback
  refine ⟨front, m, back, hsplit, hfront, ?_⟩
  rw [btMedian, hend, hfirst, hloop]
  rfl

/-- `bt_get_balance`: the half of the nodes against those on the left. -/
theorem btGetBalance_eq (h : Rep s none s.root (plug ctx (.node x l r)))
    (hnd : (inorder (plug ctx (.node x l r))).Nodup)
    (hfuel : (inorder (plug ctx (.node x l r))).length < fuel) :
    btGetBalance fuel s x =
      ((inorder (.node x l r)).length / 2 : ℕ) - ((inorder l).length : ℕ) := by
  have hwalk := walk_of_rep h hnd (Nat.le_of_lt hfuel)
  obtain ⟨hfirst, hend⟩ := walk_ends h hnd (Nat.le_of_lt hfuel)
  have hrounds : (inorder (.node x l r)).length < fuel := by
    rw [inorder_plug, List.length_append, List.length_append] at hfuel
    omega
  have hnil : inorder (.node x l r) = [] ++ inorder (.node x l r) := rfl
  have hloop := btBalanceLoop_eq x hwalk [] hnil 0 hrounds
  have hmem : x ∈ inorder (.node x l r) := by simp [inorder]
  have hindex : (inorder (.node x l r)).idxOf x = (inorder l).length :=
    idxOf_append_cons (nodup_plug _ _ hnd).1
  rw [if_pos hmem, hindex, List.length_nil, Nat.zero_add] at hloop
  unfold btGetBalance
  rw [hend, hfirst]
  dsimp only
  rw [hloop]

/-- `bt_rebalance` balances the subtree. -/
theorem btRebalance_spec (fuel depth : ℕ) (ctx : List (Frame α))
    (h : Rep s none s.root (plug ctx u)) (hnd : (inorder (plug ctx u)).Nodup)
    (hfuel : (inorder (plug ctx u)).length < fuel)
    (hdepth : (inorder u).length < depth) :
    ∃ u', Rep (btRebalance fuel depth s (holeSlot ctx)).1 none
        (btRebalance fuel depth s (holeSlot ctx)).1.root (plug ctx u') ∧
      inorder u' = inorder u ∧ Balanced u' := by
  induction depth generalizing s ctx u with
  | zero => exact absurd hdepth (Nat.not_lt_zero _)
  | succ depth ih =>
    have hrep := ((rep_plug _ _).1 h).1
    rw [btRebalance]
    cases u with
    | nil =>
      have hnone : s.get (holeSlot ctx) = none := hrep
      rw [hnone]
      exact ⟨.nil, h, rfl, trivial⟩
    | node x l r =>
      obtain ⟨front, m, back, hsplit, hfront, hmedian⟩ := btMedian_eq h hnd hfuel
      rw [hrep.1, Option.bind_some, hmedian]
      dsimp only
      -- the median goes to the root
      have hm : m ∈ inorder (.node x l r) := by
        rw [hsplit]
        simp
      obtain ⟨path, ml, mr, hpath⟩ := exists_plug hm
      have hpathLen : path.length ≤ fuel := by
        have hle := length_le_plug path (.node m ml mr)
        rw [← hpath] at hle
        rw [inorder_plug, List.length_append, List.length_append] at hfuel
        omega
      rw [hpath, ← plug_append] at h hnd
      obtain ⟨hsplayed, -⟩ := btSplay_spec path ctx h hnd hpathLen
      have horder := inorder_moveUp path m ml mr
      rw [← hpath] at horder
      generalize (moveUp path ml mr).1 = tl at hsplayed horder
      generalize (moveUp path ml mr).2 = tr at hsplayed horder
      generalize btSplay fuel s (holeSlot ctx) m = splayed at hsplayed ⊢
      have hroot : splayed.1.get (holeSlot ctx) = some m := ((rep_plug _ _).1 hsplayed).1.1
      rw [hroot]
      dsimp only
      have hall : inorder (plug ctx (.node m tl tr)) =
          inorder (plug (path ++ ctx) (.node m ml mr)) := by
        rw [inorder_plug, horder, plug_append, ← hpath, inorder_plug]
      have hallLen : (inorder (plug ctx (.node m tl tr))).length < fuel := by
        rw [hall, plug_append, ← hpath]
        exact hfuel
      rw [← hall] at hnd
      have hsizes : (inorder tl).length = (inorder tr).length ∨
          (inorder tl).length = (inorder tr).length + 1 := by
        have hndU := (nodup_plug _ _ hnd).1
        have heq : inorder tl ++ m :: inorder tr = front ++ m :: back := horder.trans hsplit
        have hndFront := hndU
        rw [horder, hsplit] at hndFront
        have hlen : (inorder tl).length = front.length := by
          rw [← idxOf_append_cons hndFront, ← heq]
          exact (idxOf_append_cons hndU).symm
        rw [hfront, ← horder, inorder, List.length_append, List.length_cons] at hlen
        omega
      have hdepths : (inorder tl).length < depth ∧ (inorder tr).length < depth := by
        have hlen := congrArg List.length horder
        rw [inorder, List.length_append, List.length_cons] at hlen
        omega
      obtain ⟨tl', hleft, hleftOrder, hleftBalanced⟩ :=
        ih (.left m tr :: ctx) hsplayed hnd hallLen hdepths.1
      have hallLeft : inorder (plug ctx (.node m tl' tr)) = inorder (plug ctx (.node m tl tr)) := by
        rw [inorder_plug, inorder_plug, inorder, inorder, hleftOrder]
      rw [← hallLeft] at hnd hallLen
      obtain ⟨tr', hright, hrightOrder, hrightBalanced⟩ :=
        ih (.right m tl' :: ctx) hleft hnd hallLen hdepths.2
      refine ⟨.node m tl' tr', hright, ?_, ?_, hleftBalanced, hrightBalanced⟩
      · rw [← horder, inorder, inorder, hleftOrder, hrightOrder]
      · rw [hleftOrder, hrightOrder]
        exact hsizes

/-- In a balanced subtree `bt_rebalance` has nothing to do. -/
theorem btRebalance_balanced {depth : ℕ} (ctx : List (Frame α))
    (h : Rep s none s.root (plug ctx u)) (hnd : (inorder (plug ctx u)).Nodup)
    (hfuel : (inorder (plug ctx u)).length < fuel) (hbalanced : Balanced u) :
    btRebalance fuel depth s (holeSlot ctx) = (s, 0) := by
  -- induction on the depth to which the source goes down
  induction depth generalizing ctx u with
  | zero => rfl
  | succ depth ih =>
    have hrep := ((rep_plug _ _).1 h).1
    rw [btRebalance]
    -- an empty subtree is balanced; in another one both of the sides are
    cases u with
    | nil =>
      have hnone : s.get (holeSlot ctx) = none := hrep
      rw [hnone]
      rfl
    | node x l r =>
      obtain ⟨front, m, back, hsplit, hfront, hmedian⟩ := btMedian_eq h hnd hfuel
      obtain rfl : x = m := by
        have hsplit' : inorder l ++ x :: inorder r = front ++ m :: back := hsplit
        have hlen := hbalanced.half.trans hfront.symm
        exact (List.cons.inj (List.append_inj hsplit' hlen).2).1
      have hsplay := (btSplay_spec [] ctx h hnd (Nat.zero_le fuel)).2
      rw [hrep.1, Option.bind_some, hmedian]
      dsimp only
      rw [hsplay rfl]
      dsimp only
      rw [hrep.1]
      dsimp only
      have hleft := ih (.left x r :: ctx) h hnd hfuel hbalanced.2.1
      have hright := ih (.right x l :: ctx) h hnd hfuel hbalanced.2.2
      dsimp only [holeSlot, Frame.slot] at hleft hright
      rw [hleft]
      dsimp only
      rw [hright]
      rfl

end

/-- A rotation at any slot of the tree, when there is no child to rotate too. -/
theorem btRotate_spec (ctx : List (Frame α)) (h : Rep s none s.root (plug ctx u))
    (hnd : (inorder (plug ctx u)).Nodup) :
    (∃ u', Rep (btRotateRight s (holeSlot ctx)) none (btRotateRight s (holeSlot ctx)).root
      (plug ctx u') ∧ inorder u' = inorder u) ∧
    ∃ u', Rep (btRotateLeft s (holeSlot ctx)) none (btRotateLeft s (holeSlot ctx)).root
      (plug ctx u') ∧ inorder u' = inorder u := by
  have hrep := ((rep_plug _ _).1 h).1
  -- the slot of the subtree does not belong to a node of it
  have hndU := (nodup_plug _ _ hnd).1
  have howner := holeSlot_owner_ne ctx u hnd
  cases u with
  | nil =>
    have hnone : s.get (holeSlot ctx) = none := hrep
    unfold btRotateRight btRotateLeft
    rw [hnone]
    exact ⟨⟨.nil, h, rfl⟩, .nil, h, rfl⟩
  | node p l r =>
    constructor
    · cases l with
      | nil =>
        have hnone : s.lhs p = none := hrep.2.2.1
        unfold btRotateRight
        rw [hrep.1]
        dsimp only
        rw [hnone]
        exact ⟨_, h, rfl⟩
      | node x a b =>
        obtain ⟨hnew, hsame⟩ := btRotateRight_spec hrep hndU howner
        exact ⟨_, h.put ctx _ hnd hsame hnew, by simp [inorder]⟩
    · cases r with
      | nil =>
        have hnone : s.rhs p = none := hrep.2.2.2
        unfold btRotateLeft
        rw [hrep.1]
        dsimp only
        rw [hnone]
        exact ⟨_, h, rfl⟩
      | node x a b =>
        obtain ⟨hnew, hsame⟩ := btRotateLeft_spec hrep hndU howner
        exact ⟨_, h.put ctx _ hnd hsame hnew, by simp [inorder]⟩

/-- Balancing, at any slot of any tree: the rotations, `bt_splay`, `bt_unbalance` and `bt_rebalance`
keep the nodes in order, the links consistent and the tree around the slot; `bt_splay` puts the node
at the top; after `bt_rebalance` every node has as many nodes on the left as on the right or one
more, `bt_get_balance` is 0 at all of them, and another `bt_rebalance` does no rotation. -/
theorem bt_balancing {fuel : ℕ} (ctx : List (Frame α)) (h : Rep s none s.root (plug ctx u))
    (hnd : (inorder (plug ctx u)).Nodup) (hfuel : 2 * (inorder (plug ctx u)).length < fuel) :
    ((∃ u', Rep (btRotateRight s (holeSlot ctx)) none (btRotateRight s (holeSlot ctx)).root
        (plug ctx u') ∧ inorder u' = inorder u) ∧
      ∃ u', Rep (btRotateLeft s (holeSlot ctx)) none (btRotateLeft s (holeSlot ctx)).root
        (plug ctx u') ∧ inorder u' = inorder u) ∧
    (∃ u', Rep (btUnbalance fuel s (holeSlot ctx)).1 none (btUnbalance fuel s (holeSlot ctx)).1.root
      (plug ctx u') ∧ inorder u' = inorder u ∧ NoLeft u') ∧
    (∀ x ∈ inorder u, ∃ l r, Rep (btSplay fuel s (holeSlot ctx) x).1 none
      (btSplay fuel s (holeSlot ctx) x).1.root (plug ctx (.node x l r)) ∧
        inorder (.node x l r) = inorder u) ∧
    ∃ u', Rep (btRebalance fuel fuel s (holeSlot ctx)).1 none
        (btRebalance fuel fuel s (holeSlot ctx)).1.root (plug ctx u') ∧
      inorder u' = inorder u ∧ Balanced u' ∧
      (∀ x ∈ inorder u', btGetBalance fuel (btRebalance fuel fuel s (holeSlot ctx)).1 x = 0) ∧
      btRebalance fuel fuel (btRebalance fuel fuel s (holeSlot ctx)).1 (holeSlot ctx) =
        ((btRebalance fuel fuel s (holeSlot ctx)).1, 0) := by
  -- the subtree is no larger than the tree, and the tree no larger than the fuel
  have hle : (inorder u).length ≤ (inorder (plug ctx u)).length := by
    rw [inorder_plug, List.length_append, List.length_append]
    omega
  have hwork := unbalanceWork_le u
  -- each of the operations on its own
  refine ⟨btRotate_spec ctx h hnd, btUnbalance_spec ctx h hnd (by omega), fun x hx => ?_, ?_⟩
  · obtain ⟨path, l, r, rfl⟩ := exists_plug hx
    have hpath := length_le_plug path (.node x l r)
    rw [← plug_append] at h hnd
    obtain ⟨hsplayed, -⟩ := btSplay_spec path ctx h hnd (by omega : path.length ≤ fuel)
    exact ⟨_, _, hsplayed, inorder_moveUp path x l r⟩
  · obtain ⟨u', hrep, horder, hbalanced⟩ :=
      btRebalance_spec fuel fuel ctx h hnd (by omega) (by omega)
    have hall : inorder (plug ctx u') = inorder (plug ctx u) := by
      rw [inorder_plug, inorder_plug, horder]
    rw [← hall] at hnd hfuel
    refine ⟨u', hrep, horder, hbalanced, fun x hx => ?_, ?_⟩
    · obtain ⟨path, l, r, rfl⟩ := exists_plug hx
      have hhalf := hbalanced.of_plug.half
      rw [← plug_append] at hrep hnd hfuel
      rw [btGetBalance_eq hrep hnd (by omega), hhalf, Int.sub_self]
    · exact btRebalance_balanced ctx hrep hnd (by omega) hbalanced

end

/-- Two nodes, the root and its right child. -/
private def twoNodes : Links ℕ where
  root := some 1
  lhs := fun _ => none
  rhs := fun a => if a = 1 then some 2 else none
  parent := fun a => if a = 2 then some 1 else none

/-- The two nodes become a balanced tree: the second one at the top, the first one on its left. -/
theorem bt_balancing_two :
    let s := (btRebalance 5 5 twoNodes .root).1
    (s.root = some 2 ∧ s.lhs 2 = some 1 ∧ s.rhs 2 = none) ∧
      ∃ u', Rep s none s.root u' ∧ inorder u' = [1, 2] ∧ Balanced u' ∧
        btRebalance 5 5 s .root = (s, 0) := by
  intro s
  have h : Rep twoNodes none twoNodes.root (plug [] (.node 1 .nil (.node 2 .nil .nil))) :=
    ⟨rfl, rfl, rfl, rfl, rfl, rfl, rfl⟩
  have hfuel : 2 * (inorder (plug [] (.node 1 .nil (.node 2 .nil .nil)))).length < 5 := by decide
  obtain ⟨u', hrep, hnodes, hbalanced, -, hagain⟩ := (bt_balancing [] h (by decide) hfuel).2.2.2
  exact ⟨by decide, u', hrep, hnodes, hbalanced, hagain⟩

end Smcp
