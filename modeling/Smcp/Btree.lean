import Smcp.Lib.LinkedTree

/-!
# The binary tree of `btree.c`

The functions of `btree.c` that the transaction store uses, on the pointers of the nodes. The
comparison function is given the node first and the probe second, so a search is described by
`cmp a`, the comparison of the node `a` with the probe.

* `btFind_eq`, `btInsert_spec` and `btRemove_spec` say what the functions do to the tree that the
  pointers represent.

Loops have fuel; any fuel above the number of nodes is enough.
-/

namespace Smcp

open LinkedTree

variable {α : Type}

/-! ## The functions -/

/-- `bt_find`, from the node pointer `location`. -/
def btFind (s : Links α) (cmp : α → ℤ) : (fuel : ℕ) → (location : Option α) → Option α
  | 0, _ => none
  | _ + 1, none => none
  | fuel + 1, some location =>
    if cmp location ≠ 0 then
      btFind s cmp fuel (if cmp location < 0 then s.rhs location else s.lhs location)
    else some location

section
variable [DecidableEq α]

/-- The branch of `bt_insert` in which the item replaces the node `location`. -/
def btReplace (s : Links α) (item location : α) (bt : Slot α) : Links α :=
  let s := s.setParent item (s.parent location)
  let s := match s.parent item with
    | none => s
    | some p => if s.rhs p = some location then s.set (.rhs p) (some item)
      else s.set (.lhs p) (some item)
  let s := s.set (.lhs item) (s.lhs location)
  let s := match s.lhs location with
    | none => s
    | some c => s.setParent c (some item)
  let s := s.set (.rhs item) (s.rhs location)
  let s := match s.rhs location with
    | none => s
    | some c => s.setParent c (some item)
  s.set bt (some item)

/-- What `bt_insert` leaves: the pointers, the depth it returns, and the node it hands to the
delete function. -/
structure BtInsert (α : Type) where
  links : Links α
  depth : ℕ
  deleted : Option α

/-- `bt_insert`, from the slot `bt`. -/
def btInsert (item : α) (cmp : α → ℤ) :
    (fuel : ℕ) → (s : Links α) → (bt : Slot α) → (depth : ℕ) → BtInsert α
  | 0, s, _, depth => ⟨s, depth, none⟩
  | fuel + 1, s, bt, depth =>
    match s.get bt with
    | some location =>
      if cmp location ≠ 0 then
        btInsert item cmp fuel (s.setParent item (some location))
          (if cmp location < 0 then .rhs location else .lhs location) (depth + 1)
      else if item ≠ location then ⟨btReplace s item location bt, depth, some location⟩
      else ⟨s, depth, none⟩
    | none => ⟨s.set bt (some item), depth, none⟩

end

/-- `bt_first`. -/
def btFirst (s : Links α) : (fuel : ℕ) → α → α
  | 0, a => a
  | fuel + 1, a =>
    match s.lhs a with
    | none => a
    | some b => btFirst s fuel b

/-- `bt_last`. -/
def btLast (s : Links α) : (fuel : ℕ) → α → α
  | 0, a => a
  | fuel + 1, a =>
    match s.rhs a with
    | none => a
    | some b => btLast s fuel b

/-- The climb of `bt_next`: up while the node is a right child, then one more. -/
def btClimb [DecidableEq α] (s : Links α) : (fuel : ℕ) → α → Option α
  | 0, _ => none
  | fuel + 1, a =>
    match s.parent a with
    | none => none
    | some p => if s.rhs p = some a then btClimb s fuel p else some p

/-- `bt_next`. -/
def btNext [DecidableEq α] (s : Links α) (fuel : ℕ) (a : α) : Option α :=
  match s.rhs a with
  | some b => some (btFirst s fuel b)
  | none => btClimb s fuel a

/-- The part of `bt_remove` that takes the node `item` out, hanging what it holds in `bt`. -/
def btUnlink [DecidableEq α] (s : Links α) (fuel : ℕ) (item : α) (bt : Slot α) : Links α :=
  let s' := match s.lhs item, s.rhs item with
    | some l, none => (s.set bt (some l)).setParent l (s.parent item)
    | none, some r => (s.set bt (some r)).setParent r (s.parent item)
    | none, none => s.set bt none
    | some l, some r =>
      let last := btLast s fuel l
      (((s.setParent r (some last)).set (.rhs last) (some r)).set bt (some l)).setParent l
        (s.parent item)
  ((s'.set (.lhs item) none).set (.rhs item) none).setParent item none

/-- `bt_remove`: the pointers and the node that was taken out. -/
def btRemove [DecidableEq α] (s : Links α) (cmp : α → ℤ) (fuel : ℕ) : Links α × Option α :=
  match btFind s cmp fuel s.root with
  | none => (s, none)
  | some item =>
    let bt : Slot α := match s.parent item with
      | none => .root
      | some p => if s.lhs p = some item then .lhs p else .rhs p
    (btUnlink s fuel item bt, some item)

/-! ## What they do to the tree -/

section
variable {s : Links α} {cmp : α → ℤ} {par par' p : Option α} {slot bt : Slot α} {t : BinaryTree α}
  {item : α} {fuel depth : ℕ}

/-- Whatever the pointers are, an item that is found compares equal. -/
theorem btFind_some (h : btFind s cmp fuel p = some item) : cmp item = 0 := by
  induction fuel generalizing p with
  | zero => simp [btFind] at h
  | succ fuel ih =>
    cases p with
    | none => simp [btFind] at h
    | some b =>
      rw [btFind] at h
      split_ifs at h with hcmp
      · exact ih h
      · exact ih h
      · obtain rfl := Option.some.inj h
        exact not_not.1 hcmp

theorem btFind_eq (h : Rep s par p t) (hfuel : (inorder t).length ≤ fuel) :
    btFind s cmp fuel p = find cmp t := by
  induction t generalizing par p fuel with
  | nil =>
    cases fuel with
    | zero => rfl
    | succ fuel =>
      rw [LinkedTree.Rep] at h
      rw [h]
      rfl
  | node a l r ihl ihr =>
    obtain ⟨rfl, -, hl, hr⟩ := h
    simp only [inorder, List.length_append, List.length_cons] at hfuel
    obtain ⟨fuel, rfl⟩ : ∃ n, fuel = n + 1 := ⟨fuel - 1, by omega⟩
    rw [btFind, find]
    by_cases h0 : cmp a = 0
    · simp [h0]
    by_cases hneg : cmp a < 0
    · simp only [ne_eq, h0, not_false_eq_true, ↓reduceIte, hneg]
      exact ihr hr (by omega)
    · simp only [ne_eq, h0, not_false_eq_true, ↓reduceIte, hneg]
      exact ihl hl (by omega)

theorem btLast_eq {a : α} (h : Rep s par (some a) t) (hfuel : (inorder t).length ≤ fuel) :
    (inorder t).getLast? = some (btLast s fuel a) := by
  induction t generalizing par a fuel with
  | nil => simp [LinkedTree.Rep] at h
  | node b l r _ ih =>
    obtain ⟨hab, -, -, hr⟩ := h
    cases hab
    simp only [inorder, List.length_append, List.length_cons] at hfuel
    obtain ⟨fuel, rfl⟩ : ∃ n, fuel = n + 1 := ⟨fuel - 1, by omega⟩
    rw [inorder, List.getLast?_append_of_ne_nil _ (by simp), List.getLast?_cons, btLast]
    cases hrhs : s.rhs b with
    | none =>
      have hrnil : r = .nil := by
        cases r with
        | nil => rfl
        | node => simp [LinkedTree.Rep, Links.get, hrhs] at hr
      simp [hrnil, inorder]
    | some c =>
      rw [Links.get, hrhs] at hr
      rw [ih hr (show (inorder r).length ≤ fuel by omega)]
      simp

theorem rep_none_iff (h : Rep s par p t) : p = none ↔ t = .nil := by
  cases t with
  | nil => exact ⟨fun _ => rfl, fun _ => h⟩
  | node a l r =>
    obtain ⟨rfl, -⟩ := h
    simp

theorem parent_of_rep {a : α} (h : Rep s par (some a) t) : s.parent a = par := by
  cases t with
  | nil => simp [LinkedTree.Rep] at h
  | node b l r =>
    obtain ⟨hab, hpar, -⟩ := h
    cases hab
    exact hpar

theorem btFirst_eq {a : α} (h : Rep s par (some a) t) (hfuel : (inorder t).length ≤ fuel) :
    (inorder t).head? = some (btFirst s fuel a) := by
  induction t generalizing par a fuel with
  | nil => simp [LinkedTree.Rep] at h
  | node b l r ih _ =>
    obtain ⟨hab, -, hl, -⟩ := h
    cases hab
    simp only [inorder, List.length_append, List.length_cons] at hfuel
    obtain ⟨fuel, rfl⟩ : ∃ n, fuel = n + 1 := ⟨fuel - 1, by omega⟩
    rw [inorder, List.head?_append, btFirst]
    cases hlhs : s.lhs b with
    | none =>
      have hlnil : l = .nil := (rep_none_iff hl).1 hlhs
      simp [hlnil, inorder]
    | some c =>
      rw [Links.get, hlhs] at hl
      rw [ih hl (show (inorder l).length ≤ fuel by omega)]
      rfl

/-- The last node has no right child, and the climb from it comes to the root of the tree. -/
theorem btClimb_last [DecidableEq α] {a b : α} {before : List α} (h : Rep s par (some b) t)
    (hlast : inorder t = before ++ [a]) :
    s.rhs a = none ∧ ∃ k, k < (inorder t).length ∧
      ∀ fuel, btClimb s (fuel + k) a = btClimb s fuel b := by
  induction t generalizing par b before with
  | nil => simp [LinkedTree.Rep] at h
  | node c l r _ ih =>
    obtain ⟨hbc, -, -, hr⟩ := h
    cases hbc
    cases hrhs : s.rhs c with
    | none =>
      -- the root is the last node itself
      have hrnil : r = .nil := (rep_none_iff hr).1 hrhs
      rw [hrnil, inorder, inorder] at hlast
      obtain ⟨-, hba⟩ := List.append_inj' hlast rfl
      cases hba
      exact ⟨hrhs, 0, by rw [inorder, List.length_append, List.length_cons]; omega, fun fuel => rfl⟩
    | some d =>
      rw [Links.get, hrhs] at hr
      have hne : inorder r ≠ [] := List.ne_nil_of_mem hr.mem_of_eq_some
      obtain ⟨before', x, hr'⟩ := (List.eq_nil_or_concat _).resolve_left hne
      rw [List.concat_eq_append] at hr'
      have hxa : x = a := by
        rw [inorder, hr', ← List.cons_append, ← List.append_assoc] at hlast
        exact List.singleton_inj.1 (List.append_inj' hlast rfl).2
      subst hxa
      obtain ⟨hrhsa, k, hk, hclimb⟩ := ih hr hr'
      refine ⟨hrhsa, k + 1, ?_, fun fuel => ?_⟩
      · rw [inorder, List.length_append, List.length_cons]
        omega
      · rw [← Nat.add_assoc, Nat.add_right_comm, hclimb, btClimb, parent_of_rep hr]
        dsimp only
        rw [if_pos hrhs]

/-- A node with a right subtree is followed by the first node there. -/
theorem btNext_of_rhs [DecidableEq α] {a b : α} {after : List α}
    (h : Rep s par (s.get (.rhs a)) t) (hfuel : (inorder t).length ≤ fuel)
    (hfirst : inorder t = b :: after) : btNext s fuel a = some b := by
  cases hrhs : s.rhs a with
  | none =>
    have htnil : t = .nil := (rep_none_iff h).1 hrhs
    rw [htnil, inorder] at hfirst
    cases hfirst
  | some c =>
    rw [Links.get, hrhs] at h
    have hhead := btFirst_eq h hfuel
    rw [hfirst, List.head?_cons, Option.some.injEq] at hhead
    rw [btNext, hrhs, hhead]

/-- `bt_next` inside a tree goes from left to right. -/
theorem btNext_inside [DecidableEq α] {a b : α} {before after : List α} (h : Rep s par p t)
    (hnd : (inorder t).Nodup) (hfuel : (inorder t).length ≤ fuel)
    (hsplit : inorder t = before ++ a :: b :: after) : btNext s fuel a = some b := by
  induction t generalizing par p before after with
  | nil => simp [inorder] at hsplit
  | node c l r ihl ihr =>
    obtain ⟨rfl, -, hl, hr⟩ := h
    rw [inorder, List.nodup_append, List.nodup_cons] at hnd
    obtain ⟨hndl, ⟨hcr, hndr⟩, hdisj⟩ := hnd
    rw [inorder, List.length_append, List.length_cons] at hfuel
    rw [inorder, List.append_eq_append_iff] at hsplit
    rcases hsplit with ⟨m, rfl, hm⟩ | ⟨m, hm, hsplit⟩
    · cases m with
      | nil =>
        -- the node is the root: its successor is the first node on the right
        rw [List.nil_append, List.cons.injEq] at hm
        obtain ⟨rfl, hm⟩ := hm
        exact btNext_of_rhs hr (by omega) hm
      | cons x m =>
        rw [List.cons_append, List.cons.injEq] at hm
        exact ihr hr hndr (by omega) hm.2
    · cases m with
      | nil =>
        rw [List.nil_append, List.cons.injEq] at hsplit
        obtain ⟨rfl, hm'⟩ := hsplit
        exact btNext_of_rhs hr (by omega) hm'.symm
      | cons x m =>
        rw [List.cons_append, List.cons.injEq] at hsplit
        obtain ⟨rfl, hsplit⟩ := hsplit
        cases m with
        | nil =>
          -- the node is the last one on the left: its successor is the root
          rw [List.nil_append, List.cons.injEq] at hsplit
          obtain ⟨rfl, -⟩ := hsplit
          cases hlhs : s.lhs b with
          | none =>
            have hlnil : l = .nil := (rep_none_iff hl).1 hlhs
            rw [hlnil, inorder] at hm
            simp at hm
          | some d =>
            rw [Links.get, hlhs] at hl
            obtain ⟨hrhsa, k, hk, hclimb⟩ := btClimb_last hl hm
            have hother : s.rhs b ≠ some d := by
              intro hrhs
              rw [Links.get, hrhs] at hr
              exact hdisj d hl.mem_of_eq_some d (List.mem_cons_of_mem _ hr.mem_of_eq_some) rfl
            obtain ⟨n, rfl⟩ : ∃ n, fuel = n + 1 + k := ⟨fuel - k - 1, by omega⟩
            rw [btNext, hrhsa]
            dsimp only
            rw [hclimb, btClimb, parent_of_rep hl]
            dsimp only
            rw [if_neg hother]
        | cons y m =>
          rw [List.cons_append, List.cons.injEq] at hsplit
          obtain ⟨rfl, hsplit⟩ := hsplit
          exact ihl hl hndl (by omega) hm

/-- `bt_next` goes through the tree from left to right, and ends behind the last node. -/
theorem btNext_eq [DecidableEq α] {a : α} {before after : List α} (h : Rep s none s.root t)
    (hnd : (inorder t).Nodup) (hfuel : (inorder t).length ≤ fuel)
    (hsplit : inorder t = before ++ a :: after) : btNext s fuel a = after.head? := by
  cases after with
  | cons b after => exact btNext_inside h hnd hfuel hsplit
  | nil =>
    cases hroot : s.root with
    | none =>
      have htnil : t = .nil := (rep_none_iff h).1 hroot
      rw [htnil, inorder] at hsplit
      simp at hsplit
    | some b =>
      rw [hroot] at h
      obtain ⟨hrhs, k, hk, hclimb⟩ := btClimb_last h hsplit
      obtain ⟨n, rfl⟩ : ∃ n, fuel = n + 1 + k := ⟨fuel - k - 1, by omega⟩
      rw [btNext, hrhs]
      dsimp only
      rw [hclimb, btClimb, parent_of_rep h]
      rfl

/-- The slot `bt` is the child pointer of its parent that leads to `a`. -/
def IsSlotOf (s : Links α) (bt : Slot α) (a : α) : Prop :=
  match s.parent a with
  | none => bt = .root
  | some p => p ≠ a ∧
    (bt = .rhs p ∧ s.get (.rhs p) = some a ∧ s.get (.lhs p) ≠ some a ∨
      bt = .lhs p ∧ s.get (.lhs p) = some a ∧ s.get (.rhs p) ≠ some a)

/-- Where a search from the root ends is the slot of the node found. -/
theorem isSlotOf_of_endsAt {a : α} {l r : BinaryTree α}
    (hrep : Rep s par' (s.get bt) (.node a l r))
    (hwhere : EndsAt s .root none bt par' t (.node a l r)) : IsSlotOf s bt a := by
  obtain ⟨hget, hpar, -, -⟩ := hrep
  have hmem : a ∈ inorder (.node a l r) := by simp [inorder]
  unfold IsSlotOf
  rcases hwhere with ⟨rfl, rfl⟩ | ⟨p, -, hp, rfl, ⟨rfl, hother⟩ | ⟨rfl, hother⟩⟩
  · rw [hpar]
  · rw [hpar]
    exact ⟨fun hpa => hp (hpa ▸ hmem), .inr ⟨rfl, hget, hother a hmem⟩⟩
  · rw [hpar]
    exact ⟨fun hpa => hp (hpa ▸ hmem), .inl ⟨rfl, hget, hother a hmem⟩⟩

variable [DecidableEq α]

/-- The loop of `bt_insert` ends where the search ends, with the parent of the item set. -/
theorem btInsert_eq (depth : ℕ) (h : Rep s par (s.get slot) t) (hfuel : (inorder t).length < fuel)
    (hitem : item ∉ inorder t) (hpar : s.parent item = par)
    (hend : slotAt cmp slot par t = (bt, par')) :
    ∃ d, btInsert item cmp fuel s slot depth =
      match subtreeAt cmp t with
      | .nil => ⟨(s.setParent item par').set bt (some item), d, none⟩
      | .node a _ _ => ⟨btReplace (s.setParent item par') item a bt, d, some a⟩ := by
  have hsame (s : Links α) (par : Option α) (h : s.parent item = par) :
      s.setParent item par = s := by
    rw [← h, Links.setParent, Function.update_eq_self]
  -- induction on the tree: the loop goes down the way that the search goes
  induction t generalizing s par slot fuel depth with
  | nil =>
    obtain ⟨fuel, rfl⟩ : ∃ n, fuel = n + 1 := ⟨fuel - 1, by omega⟩
    rw [slotAt, Prod.mk.injEq] at hend
    obtain ⟨rfl, rfl⟩ := hend
    rw [LinkedTree.Rep] at h
    refine ⟨depth, ?_⟩
    rw [btInsert, h, hsame s par hpar]
    rfl
  | node a l r ihl ihr =>
    simp only [inorder, List.length_append, List.length_cons] at hfuel
    simp only [inorder, List.mem_append, List.mem_cons, not_or] at hitem
    obtain ⟨fuel, rfl⟩ : ∃ n, fuel = n + 1 := ⟨fuel - 1, by omega⟩
    obtain ⟨hp, -, hl, hr⟩ := h
    have hkeep (u : BinaryTree α) (hu : item ∉ inorder u) :
        SameOn s (s.setParent item (some a)) (inorder u) := by
      refine fun b hb => ⟨by simp, by simp, Links.setParent_of_ne _ _ ?_⟩
      rintro rfl
      exact hu hb
    rw [slotAt] at hend
    rw [btInsert, hp, subtreeAt]
    by_cases h0 : cmp a = 0
    · rw [if_pos h0, Prod.mk.injEq] at hend
      obtain ⟨rfl, rfl⟩ := hend
      refine ⟨depth, ?_⟩
      simp only [h0, ne_eq, not_true_eq_false, ↓reduceIte, hitem.2.1, not_false_eq_true,
        hsame s par hpar]
    by_cases hneg : cmp a < 0
    · rw [if_neg h0, if_pos hneg] at hend
      obtain ⟨d, hd⟩ := ihr (s := s.setParent item (some a)) (depth + 1)
        (by rw [Links.get_setParent]; exact hr.congr (hkeep r hitem.2.2))
        (by omega : (inorder r).length < fuel) hitem.2.2 (by simp) hend
      refine ⟨d, ?_⟩
      simp only [ne_eq, h0, not_false_eq_true, ↓reduceIte, hneg]
      rw [hd]
      simp only [Links.setParent_setParent]
    · rw [if_neg h0, if_neg hneg] at hend
      obtain ⟨d, hd⟩ := ihl (s := s.setParent item (some a)) (depth + 1)
        (by rw [Links.get_setParent]; exact hl.congr (hkeep l hitem.1))
        (by omega : (inorder l).length < fuel) hitem.1 (by simp) hend
      refine ⟨d, ?_⟩
      simp only [ne_eq, h0, not_false_eq_true, ↓reduceIte, hneg]
      rw [hd]
      simp only [Links.setParent_setParent]

theorem get_btReplace {a : α} (hne : item ≠ a) (hbt : IsSlotOf s bt a) (slot : Slot α) :
    (btReplace s item a bt).get slot =
      if slot = bt then some item
      else if slot = .rhs item then s.get (.rhs a)
      else if slot = .lhs item then s.get (.lhs a)
      else s.get slot := by
  have hne' : ¬a = item := fun h => hne h.symm
  unfold IsSlotOf at hbt
  unfold btReplace
  simp only [Links.lhs_eq_get, Links.rhs_eq_get, Links.setParent_self]
  cases hp : s.parent a with
  | none =>
    cases hl : s.get (.lhs a) <;> cases hr : s.get (.rhs a) <;>
      simp [Links.get_set, hl, hr, hne']
  | some p =>
    simp only [hp] at hbt
    obtain ⟨hpa, ⟨rfl, h1, h2⟩ | ⟨rfl, h1, h2⟩⟩ := hbt
    all_goals
      have hpa' : ¬a = p := fun h => hpa h.symm
      cases hl : s.get (.lhs a) <;> cases hr : s.get (.rhs a) <;>
        simp [Links.get_set, hl, hr, hne', h1, h2, hpa'] <;> grind

theorem parent_btReplace {a b : α} (hne : item ≠ a) (hbt : IsSlotOf s bt a) :
    (btReplace s item a bt).parent b =
      if s.get (.rhs a) = some b ∨ s.get (.lhs a) = some b then some item
      else if b = item then s.parent a
      else s.parent b := by
  have hne' : ¬a = item := fun h => hne h.symm
  unfold IsSlotOf at hbt
  unfold btReplace
  simp only [Links.lhs_eq_get, Links.rhs_eq_get, Links.setParent_self]
  cases hp : s.parent a with
  | none =>
    cases hl : s.get (.lhs a) <;> cases hr : s.get (.rhs a) <;>
      simp [Links.get_set, Links.parent_setParent, hl, hr, hne'] <;> grind
  | some p =>
    simp only [hp] at hbt
    obtain ⟨hpa, ⟨rfl, h1, h2⟩ | ⟨rfl, h1, h2⟩⟩ := hbt
    all_goals
      have hpa' : ¬a = p := fun h => hpa h.symm
      cases hl : s.get (.lhs a) <;> cases hr : s.get (.rhs a) <;>
        simp [Links.get_set, Links.parent_setParent, hl, hr, hne', h1, h2, hpa'] <;> grind

/-- The replaced node hands its subtrees to the item. -/
theorem rep_btReplace {a : α} {l r : BinaryTree α}
    (hrep : Rep s par' (s.get bt) (.node a l r)) (hnd : (inorder (.node a l r)).Nodup)
    (hbt : IsSlotOf s bt a) (hitem : item ∉ inorder (.node a l r))
    (howner : ∀ b ∈ inorder (.node a l r), bt.owner ≠ some b) (howner' : bt.owner ≠ some item) :
    Rep (btReplace s item a bt) par' ((btReplace s item a bt).get bt) (.node item l r) := by
  -- the node that is replaced, its two subtrees, and the item that is in neither
  obtain ⟨hget, hpar, hl, hr⟩ := hrep
  rw [inorder, List.nodup_append] at hnd
  obtain ⟨hndl, hndr, hdisj⟩ := hnd
  rw [List.nodup_cons] at hndr
  have hne : item ≠ a := by
    rintro rfl
    exact hitem (by simp [inorder])
  -- the slots of the subtrees lead to what they led to
  have hslot (b : α) (hb : b ∈ inorder (.node a l r)) (hbi : b ≠ item) :
      (btReplace s item a bt).get (.lhs b) = s.get (.lhs b) ∧
        (btReplace s item a bt).get (.rhs b) = s.get (.rhs b) := by
    have h1 : Slot.lhs b ≠ bt := by
      rintro rfl
      exact howner b hb rfl
    have h2 : Slot.rhs b ≠ bt := by
      rintro rfl
      exact howner b hb rfl
    rw [get_btReplace hne hbt, get_btReplace hne hbt]
    simp [h1, h2, hbi]
  have hbi (b : α) (hb : b ∈ inorder (.node a l r)) : b ≠ item := by
    rintro rfl
    exact hitem hb
  have hpl (b : α) (hb : s.get (.lhs a) = some b) : b ∈ inorder l := by
    rw [hb] at hl
    exact hl.mem_of_eq_some
  have hpr (b : α) (hb : s.get (.rhs a) = some b) : b ∈ inorder r := by
    rw [hb] at hr
    exact hr.mem_of_eq_some
  have hib1 : Slot.lhs item ≠ bt := by
    rintro rfl
    exact howner' rfl
  have hib2 : Slot.rhs item ≠ bt := by
    rintro rfl
    exact howner' rfl
  refine ⟨by simp [get_btReplace hne hbt], ?_, ?_, ?_⟩
  · rw [parent_btReplace hne hbt, if_neg, if_pos rfl, hpar]
    rintro (h | h)
    · exact hbi item (by simp [inorder, hpr item h]) rfl
    · exact hbi item (by simp [inorder, hpl item h]) rfl
  · rw [get_btReplace hne hbt, if_neg hib1, if_neg (by simp), if_pos rfl]
    refine hl.reparent hndl (fun b hb => ?_) fun b hb => ?_
    · have hb' : b ∈ inorder (.node a l r) := by simp [inorder, hb]
      refine ⟨(hslot b hb' (hbi b hb')).1, (hslot b hb' (hbi b hb')).2, fun hroot => ?_⟩
      rw [parent_btReplace hne hbt, if_neg, if_neg (hbi b hb')]
      rintro (h | h)
      · exact hdisj b hb b (by simp [hpr b h]) rfl
      · exact hroot h
    · rw [parent_btReplace hne hbt, if_pos (.inr hb)]
  · rw [get_btReplace hne hbt, if_neg hib2, if_pos rfl]
    refine hr.reparent hndr.2 (fun b hb => ?_) fun b hb => ?_
    · have hb' : b ∈ inorder (.node a l r) := by simp [inorder, hb]
      refine ⟨(hslot b hb' (hbi b hb')).1, (hslot b hb' (hbi b hb')).2, fun hroot => ?_⟩
      rw [parent_btReplace hne hbt, if_neg, if_neg (hbi b hb')]
      rintro (h | h)
      · exact hroot h
      · exact hdisj b (hpl b h) b (by simp [hb]) rfl
    · rw [parent_btReplace hne hbt, if_pos (.inl hb)]

/-- `bt_insert` of a node that is not in the tree and has no links. The node that it replaces,
if any, is the one that the search finds. -/
theorem btInsert_spec (cmp : α → ℤ) (depth : ℕ) (h : Rep s none s.root t) (hnd : (inorder t).Nodup)
    (hfuel : (inorder t).length < fuel) (hitem : item ∉ inorder t) (hpar : s.parent item = none)
    (hlhs : s.lhs item = none) (hrhs : s.rhs item = none) :
    Rep (btInsert item cmp fuel s .root depth).links none
        (btInsert item cmp fuel s .root depth).links.root (insertAt cmp item t) ∧
      (btInsert item cmp fuel s .root depth).deleted = find cmp t ∧
      ∀ b, b ∉ inorder t → b ≠ item →
        SameOn s (btInsert item cmp fuel s .root depth).links [b] := by
  have hfind := find_eq_subtreeAt cmp t
  obtain ⟨⟨bt, par'⟩, hend⟩ : ∃ w, slotAt cmp .root none t = w := ⟨_, rfl⟩
  obtain ⟨d, hd⟩ := btInsert_eq depth h hfuel hitem hpar hend
  -- the item gets its parent first; that leaves the tree alone
  set s1 := s.setParent item par' with hs1
  have hrep1 : Rep s1 none (s1.get .root) t := by
    refine Rep.congr (t := t) (s := s) (by rw [hs1, Links.get_setParent]; exact h)
      fun b hb => ⟨by simp [hs1], by simp [hs1], ?_⟩
    refine Links.setParent_of_ne _ _ ?_
    rintro rfl
    exact hitem hb
  obtain ⟨hrep, hwhere, hput⟩ := hrep1.focus cmp hnd (by simp [Slot.owner]) hend
  have hsub := inorder_subtreeAt_subset cmp t
  have howner : bt.owner ≠ some item := by
    intro ho
    rcases hwhere.owner ho with rfl | hmem
    · simp [Slot.owner] at ho
    · exact hitem hmem
  -- nodes outside of the tree keep their links
  have hout (s2 : Links α) (l : List α) (hsame : SameBut s1 s2 bt (item :: l)) (hl : l ⊆ inorder t)
      (b : α) (hb : b ∉ inorder t) (hbi : b ≠ item) : SameOn s s2 [b] := by
    have h12 : SameOn s1 s2 [b] := by
      refine hsame.sameOn ?_ ?_
      · intro a ha
        rw [List.mem_singleton.1 ha, List.mem_cons, not_or]
        exact ⟨hbi, fun hmem => hb (hl hmem)⟩
      · simp only [List.mem_singleton, forall_eq]
        intro ho
        rcases hwhere.owner ho with rfl | hmem
        · simp [Slot.owner] at ho
        · exact hb hmem
    intro a ha
    obtain ⟨h1, h2, h3⟩ := h12 a ha
    rw [List.mem_singleton] at ha
    rw [hs1, Links.get_setParent] at h1 h2
    rw [hs1, Links.setParent_of_ne _ _ (ha ▸ hbi)] at h3
    exact ⟨h1, h2, h3⟩
  cases hst : subtreeAt cmp t with
  | nil =>
    simp only [hst] at hd hfind hput
    rw [hd, hfind]
    have hsame : SameBut s1 (s1.set bt (some item)) bt [item] := by
      refine ⟨fun slot' hne _ => ?_, by simp⟩
      rw [Links.get_set, if_neg hne]
    refine ⟨hput (s1.set bt (some item)) (putRoot item) [item]
      (by simp [hitem, Slot.owner]) hsame ?_, rfl, hout _ [] hsame (by simp)⟩
    · have h1 : Slot.lhs item ≠ bt := by
        rintro rfl
        exact howner rfl
      have h2 : Slot.rhs item ≠ bt := by
        rintro rfl
        exact howner rfl
      refine ⟨by simp [Links.get_set], by simp [hs1], ?_, ?_⟩
      · rw [LinkedTree.Rep, Links.get_set, if_neg h1, hs1, Links.get_setParent]
        exact hlhs
      · rw [LinkedTree.Rep, Links.get_set, if_neg h2, hs1, Links.get_setParent]
        exact hrhs
  | node a l r =>
    simp only [hst] at hd hfind hput hrep hwhere hsub
    rw [hd, hfind]
    have hitem' : item ∉ inorder (.node a l r) := fun hi => hitem (hsub hi)
    have hne : item ≠ a := by
      rintro rfl
      exact hitem' (by simp [inorder])
    have hbt := isSlotOf_of_endsAt hrep hwhere
    have hndsub : (inorder (.node a l r)).Nodup := by
      rw [← hst]
      exact (inorder_subtreeAt_sublist cmp t).nodup hnd
    have hown : ∀ b ∈ inorder (.node a l r), bt.owner ≠ some b := by
      intro b hb ho
      rcases hwhere with ⟨rfl, -⟩ | ⟨p, -, hp, -, ⟨rfl, -⟩ | ⟨rfl, -⟩⟩
      · simp [Slot.owner] at ho
      · cases ho
        exact hp hb
      · cases ho
        exact hp hb
    have hsame : SameBut s1 (btReplace s1 item a bt) bt (item :: inorder (.node a l r)) := by
      refine ⟨fun slot' hne' hout => ?_, fun b hb => ?_⟩
      · rw [get_btReplace hne hbt, if_neg hne', if_neg, if_neg]
        · rintro rfl
          exact hout item rfl (by simp)
        · rintro rfl
          exact hout item rfl (by simp)
      · rw [List.mem_cons, not_or] at hb
        rw [parent_btReplace hne hbt, if_neg, if_neg hb.1]
        obtain ⟨-, -, hl, hr⟩ := hrep
        rintro (hbr | hbl)
        · rw [hbr] at hr
          exact hb.2 (by simp [inorder, hr.mem_of_eq_some])
        · rw [hbl] at hl
          exact hb.2 (by simp [inorder, hl.mem_of_eq_some])
    exact ⟨hput _ (putRoot item) [item] (by simp [hitem, Slot.owner]) hsame
      (rep_btReplace hrep hndsub hbt hitem' hown howner), rfl, hout _ _ hsame hsub⟩

/-- The last lines of `bt_remove`: the links of the item are cleared. -/
def btClear (s : Links α) (a : α) : Links α :=
  ((s.set (.lhs a) none).set (.rhs a) none).setParent a none

theorem get_btClear {a : α} (slot : Slot α) (h : slot.owner ≠ some a) :
    (btClear s a).get slot = s.get slot := by
  have h1 : slot ≠ .lhs a := by rintro rfl; exact h rfl
  have h2 : slot ≠ .rhs a := by rintro rfl; exact h rfl
  simp [btClear, Links.get_set, h1, h2]

theorem parent_btClear {a b : α} (h : b ≠ a) : (btClear s a).parent b = s.parent b := by
  simp [btClear, Links.parent_setParent, h]

/-- A subtree of the removed node `a` that moves up into its slot. -/
theorem rep_moveUp (par' : Option α) {a c : α} {u : BinaryTree α} (hu : Rep s (some a) (some c) u)
    (hnd : (inorder u).Nodup) (ha : a ∉ inorder u) (hbt : bt.owner ≠ some a)
    (howner : ∀ b ∈ inorder u, bt.owner ≠ some b) :
    Rep (btClear ((s.set bt (some c)).setParent c par') a) par'
        ((btClear ((s.set bt (some c)).setParent c par') a).get bt) u ∧
      SameBut s (btClear ((s.set bt (some c)).setParent c par') a) bt (a :: inorder u) := by
  have hca : c ≠ a := by
    rintro rfl
    exact ha hu.mem_of_eq_some
  -- the slot, the nodes outside, and the links of the subtree that moves
  refine ⟨?_, ?_, ?_⟩
  · rw [get_btClear _ hbt, Links.get_setParent, Links.get_set, if_pos rfl]
    refine hu.reparent hnd (fun b hb => ?_) fun b hb => ?_
    · have hba : b ≠ a := by
        rintro rfl
        exact ha hb
      have h1 : Slot.lhs b ≠ bt := by rintro rfl; exact howner b hb rfl
      have h2 : Slot.rhs b ≠ bt := by rintro rfl; exact howner b hb rfl
      refine ⟨?_, ?_, fun hroot => ?_⟩
      · rw [get_btClear _ (by simpa [Slot.owner] using hba), Links.get_setParent, Links.get_set,
          if_neg h1]
      · rw [get_btClear _ (by simpa [Slot.owner] using hba), Links.get_setParent, Links.get_set,
          if_neg h2]
      · rw [parent_btClear hba, Links.parent_setParent, if_neg fun h => hroot (by rw [h]),
          Links.parent_set]
    · cases hb
      rw [parent_btClear hca, Links.setParent_self]
  · intro slot' hne hout
    rw [get_btClear _ fun h => hout a h (by simp), Links.get_setParent, Links.get_set, if_neg hne]
  · intro b hb
    simp only [List.mem_cons, not_or] at hb
    have hbc : b ≠ c := by
      rintro rfl
      exact hb.2 hu.mem_of_eq_some
    rw [parent_btClear hb.1, Links.parent_setParent, if_neg hbc, Links.parent_set]

/-- What is left of a node's subtrees when `bt_remove` takes it out. -/
theorem rep_btUnlink {a : α} {l r : BinaryTree α}
    (hrep : Rep s par' (s.get bt) (.node a l r)) (hnd : (inorder (.node a l r)).Nodup)
    (howner : ∀ b ∈ inorder (.node a l r), bt.owner ≠ some b)
    (hfuel : (inorder l).length ≤ fuel) :
    Rep (btUnlink s fuel a bt) par' ((btUnlink s fuel a bt).get bt) (LinkedTree.graft l r) ∧
      SameBut s (btUnlink s fuel a bt) bt (inorder (.node a l r)) := by
  obtain ⟨hget, hpar, hl, hr⟩ := hrep
  rw [inorder, List.nodup_append] at hnd
  obtain ⟨hndl, hndr, hdisj⟩ := hnd
  rw [List.nodup_cons] at hndr
  have hal : a ∉ inorder l := fun ha => hdisj a ha a (by simp) rfl
  have hlr : ∀ b ∈ inorder l, b ∉ inorder r := fun b hb hb' => hdisj b hb b (by simp [hb']) rfl
  have hbta : bt.owner ≠ some a := howner a (by simp [inorder])
  have hbtl : ∀ b ∈ inorder l, bt.owner ≠ some b := fun b hb => howner b (by simp [inorder, hb])
  have hbtr : ∀ b ∈ inorder r, bt.owner ≠ some b := fun b hb => howner b (by simp [inorder, hb])
  have hmono {s' : Links α} {k : List α} (h : SameBut s s' bt k)
      (hk : k ⊆ inorder (.node a l r)) : SameBut s s' bt (inorder (.node a l r)) :=
    ⟨fun slot' hne hout => h.1 slot' hne fun b hb hbk => hout b hb (hk hbk),
      fun b hb => h.2 b fun hbk => hb (hk hbk)⟩
  unfold btUnlink
  simp only [Links.lhs_eq_get, Links.rhs_eq_get, hpar]
  rw [← btClear]
  cases hlp : s.get (.lhs a) with
  | none =>
    have hlnil : l = .nil := by
      cases l with
      | nil => rfl
      | node => simp [LinkedTree.Rep, hlp] at hl
    subst hlnil
    rw [LinkedTree.graft]
    cases hrp : s.get (.rhs a) with
    | none =>
      have hrnil : r = .nil := by
        cases r with
        | nil => rfl
        | node => simp [LinkedTree.Rep, hrp] at hr
      subst hrnil
      simp only
      refine ⟨?_, ?_, ?_⟩
      · rw [LinkedTree.Rep, get_btClear _ hbta, Links.get_set, if_pos rfl]
      · intro slot' hne hout
        rw [get_btClear _ fun h => hout a h (by simp [inorder]), Links.get_set, if_neg hne]
      · intro b hb
        rw [parent_btClear (by simpa [inorder] using hb), Links.parent_set]
    | some c =>
      rw [hrp] at hr
      obtain ⟨h1, h2⟩ := rep_moveUp par' hr hndr.2 hndr.1 hbta hbtr
      exact ⟨h1, hmono h2 (by simp [inorder])⟩
  | some c =>
    rw [hlp] at hl
    cases hrp : s.get (.rhs a) with
    | none =>
      have hrnil : r = .nil := by
        cases r with
        | nil => rfl
        | node => simp [LinkedTree.Rep, hrp] at hr
      subst hrnil
      rw [graft_nil]
      obtain ⟨h1, h2⟩ := rep_moveUp par' hl hndl hal hbta hbtl
      exact ⟨h1, hmono h2 (by simp [inorder])⟩
    | some e =>
      rw [hrp] at hr
      -- first the right subtree goes below the last node of the left one
      have hlast := btLast_eq hl hfuel
      set last := btLast s fuel c with hlastdef
      have hlastmem : last ∈ inorder l := List.mem_of_getLast? hlast
      have he : e ∈ inorder r := hr.mem_of_eq_some
      set s1 := (s.setParent e (some last)).set (.rhs last) (some e) with hs1
      have hkeep : ∀ b ∈ inorder l, s1.get (.lhs b) = s.get (.lhs b) ∧
          (b ≠ last → s1.get (.rhs b) = s.get (.rhs b)) ∧ s1.parent b = s.parent b := by
        intro b hb
        have hbe : b ≠ e := by
          rintro rfl
          exact hlr _ hb he
        refine ⟨by simp [hs1, Links.get_set], fun hne => by simp [hs1, Links.get_set, hne], ?_⟩
        simp [hs1, Links.parent_setParent, hbe]
      have hr1 : Rep s1 (some last) (some e) r := by
        refine hr.reparent hndr.2 (fun b hb => ?_) fun b hb => ?_
        · have hbl : b ≠ last := by
            rintro rfl
            exact hlr _ hlastmem hb
          refine ⟨by simp [hs1, Links.get_set], by simp [hs1, Links.get_set, hbl], fun hroot => ?_⟩
          have hbe : b ≠ e := fun h => hroot (by rw [h])
          simp [hs1, Links.parent_setParent, hbe]
        · cases hb
          simp [hs1]
      have hgraft : Rep s1 (some a) (some c) (LinkedTree.graft l r) :=
        hl.graft hndl hlast hkeep (by simp [hs1, Links.get_set]) hr1
      -- then the whole moves up
      have hnd' : (inorder (LinkedTree.graft l r)).Nodup := by
        rw [inorder_graft, List.nodup_append]
        exact ⟨hndl, hndr.2, fun b hb b' hb' => fun h => hlr b hb (h ▸ hb')⟩
      obtain ⟨h1, h2⟩ := rep_moveUp par' hgraft hnd'
        (by simp [hal, hndr.1]) hbta (by
          intro b hb
          rw [inorder_graft, List.mem_append] at hb
          exact hb.elim (hbtl b) (hbtr b))
      refine ⟨h1, ?_, ?_⟩
      · intro slot' hne hout
        rw [h2.1 slot' hne fun b hb hmem => hout b hb (by
          simpa [inorder, or_left_comm] using hmem)]
        have : slot' ≠ .rhs last := by
          rintro rfl
          exact hout last rfl (by simp [inorder, hlastmem])
        simp [hs1, Links.get_set, this]
      · intro b hb
        rw [h2.2 b fun hmem => hb (by simpa [inorder, or_left_comm] using hmem)]
        have hbe : b ≠ e := by
          rintro rfl
          exact hb (by simp [inorder, he])
        simp [hs1, Links.parent_setParent, hbe]

/-- `bt_remove`: the node that the search finds is taken out, with its links cleared. -/
theorem btRemove_spec (cmp : α → ℤ) (h : Rep s none s.root t) (hnd : (inorder t).Nodup)
    (hfuel : (inorder t).length ≤ fuel) :
    Rep (btRemove s cmp fuel).1 none (btRemove s cmp fuel).1.root (removeAt cmp t) ∧
      (btRemove s cmp fuel).2 = find cmp t ∧
      (∀ a, find cmp t = some a → (btRemove s cmp fuel).1.lhs a = none ∧
        (btRemove s cmp fuel).1.rhs a = none ∧ (btRemove s cmp fuel).1.parent a = none) ∧
      ∀ b, b ∉ inorder t → SameOn s (btRemove s cmp fuel).1 [b] := by
  have hfind := find_eq_subtreeAt cmp t
  obtain ⟨⟨bt, par'⟩, hend⟩ : ∃ w, slotAt cmp .root none t = w := ⟨_, rfl⟩
  obtain ⟨hrep, hwhere, hput⟩ := Rep.focus cmp h hnd (by simp [Slot.owner]) hend
  have hsub := inorder_subtreeAt_sublist cmp t
  unfold btRemove
  rw [btFind_eq h hfuel, hfind]
  cases hst : subtreeAt cmp t with
  | nil =>
    simp only [hst] at hput hrep
    refine ⟨?_, rfl, by simp, fun b _ a _ => ⟨rfl, rfl, rfl⟩⟩
    exact hput s dropRoot [] (by simp) ⟨fun _ _ _ => rfl, fun _ _ => rfl⟩ hrep
  | node a l r =>
    simp only [hst] at hput hrep hwhere hsub
    have hlen := hsub.length_le
    simp only [inorder, List.length_append] at hlen
    -- the slot that the code computes is the one where the search ended
    have hbt := isSlotOf_of_endsAt hrep hwhere
    have hslot : (match s.parent a with
        | none => Slot.root
        | some p => if s.lhs p = some a then .lhs p else .rhs p) = bt := by
      unfold IsSlotOf at hbt
      cases hp : s.parent a with
      | none => rw [hp] at hbt; exact hbt.symm
      | some p =>
        simp only [hp] at hbt
        obtain ⟨-, ⟨rfl, -, h2⟩ | ⟨rfl, h1, -⟩⟩ := hbt
        · exact if_neg h2
        · exact if_pos h1
    have hown : ∀ b ∈ inorder (.node a l r), bt.owner ≠ some b := by
      intro b hb ho
      rcases hwhere with ⟨rfl, -⟩ | ⟨p, -, hp, -, ⟨rfl, -⟩ | ⟨rfl, -⟩⟩
      · simp [Slot.owner] at ho
      · cases ho
        exact hp hb
      · cases ho
        exact hp hb
    obtain ⟨hrep', hsame⟩ := rep_btUnlink hrep (hsub.nodup hnd) hown
      (by omega : (inorder l).length ≤ fuel)
    simp only [hslot, Option.some.injEq, true_and]
    refine ⟨hput _ dropRoot [] (by simp) hsame hrep', ?_, ?_⟩
    · rintro b rfl
      unfold btUnlink
      refine ⟨?_, ?_, ?_⟩
      · rw [Links.lhs_eq_get]; simp [Links.get_set]
      · rw [Links.rhs_eq_get]; simp [Links.get_set]
      · simp
    · intro b hb
      refine hsame.sameOn ?_ ?_
      · simpa using fun hmem => hb (hsub.subset hmem)
      · simp only [List.mem_singleton, forall_eq]
        intro ho
        rcases hwhere.owner ho with rfl | hmem
        · simp [Slot.owner] at ho
        · exact hb hmem

end

end Smcp
