import Mathlib.Data.List.Pairwise
import Smcp.Btree
import Smcp.Lib.Run

/-!
# The binary tree as a store

The functions of `btree.c` that walk through a tree, and what a sequence of `bt_insert` and
`bt_remove` makes of it, for any comparison function that orders the items.

* `btWalk_next` and `btWalk_prev`: the two traversals;
* `SortedTree.insert` and `SortedTree.remove`: one operation;
* `btRun_represents`: a whole sequence, against the set of the stored items.
-/

namespace Smcp

open LinkedTree Run

variable {α : Type} [DecidableEq α]

/-! ## Traversals -/

/-- The climb of `bt_prev`: up while the node is a left child, then one more. -/
def btClimbLeft (s : Links α) : (fuel : ℕ) → α → Option α
  | 0, _ => none
  | fuel + 1, a =>
    match s.parent a with
    | none => none
    | some p => if s.lhs p = some a then btClimbLeft s fuel p else some p

/-- `bt_prev`. -/
def btPrev (s : Links α) (fuel : ℕ) (a : α) : Option α :=
  match s.lhs a with
  | some b => some (btLast s fuel b)
  | none => btClimbLeft s fuel a

/-- The loop of `bt_count`, which goes on for ever when it misses the last item. -/
def btCountFrom (s : Links α) (fuel : ℕ) (last : α) : (rounds : ℕ) → Option α → ℕ → Option ℕ
  | 0, _, _ => none
  | rounds + 1, iter, ret =>
    if iter = some last then some ret
    else btCountFrom s fuel last rounds (iter.bind (btNext s fuel)) (ret + 1)

/-- `bt_count`. -/
def btCount (s : Links α) (fuel : ℕ) : Option ℕ :=
  match s.root with
  | none => some 0
  | some root => btCountFrom s fuel (btLast s fuel root) fuel (some (btFirst s fuel root)) 1

/-- The items that are met on the way from `a`. -/
def btWalk (next : α → Option α) : (rounds : ℕ) → Option α → List α
  | 0, _ => []
  | _ + 1, none => []
  | rounds + 1, some a => a :: btWalk next rounds (next a)

/-- `for(iter = bt_first(root); iter; iter = bt_next(iter))`. -/
def btForward (s : Links α) (fuel : ℕ) : List α :=
  btWalk (btNext s fuel) fuel (s.root.map (btFirst s fuel))

/-- `for(iter = bt_last(root); iter; iter = bt_prev(iter))`. -/
def btBackward (s : Links α) (fuel : ℕ) : List α :=
  btWalk (btPrev s fuel) fuel (s.root.map (btLast s fuel))

section
variable {s : Links α} {t : BinaryTree α} {fuel : ℕ}

omit [DecidableEq α] in
theorem btLast_eq_mirror (s : Links α) (fuel : ℕ) (a : α) : btLast s fuel a = btFirst s.mirror fuel a := by
  induction fuel generalizing a with
  | zero => rfl
  | succ fuel ih =>
    rw [btLast, btFirst]
    show _ = match s.rhs a with | none => a | some b => btFirst s.mirror fuel b
    cases s.rhs a with
    | none => rfl
    | some b => exact ih b

theorem btClimbLeft_eq_mirror (s : Links α) (fuel : ℕ) (a : α) :
    btClimbLeft s fuel a = btClimb s.mirror fuel a := by
  induction fuel generalizing a with
  | zero => rfl
  | succ fuel ih =>
    rw [btClimbLeft, btClimb]
    show _ = match s.parent a with
      | none => none
      | some p => if s.lhs p = some a then btClimb s.mirror fuel p else some p
    cases s.parent a with
    | none => rfl
    | some p =>
      dsimp only
      rw [ih]

/-- `bt_prev` is `bt_next` the other way round. -/
theorem btPrev_eq_mirror (s : Links α) (fuel : ℕ) (a : α) : btPrev s fuel a = btNext s.mirror fuel a := by
  unfold btPrev btNext
  show _ = match s.lhs a with
    | some b => some (btFirst s.mirror fuel b)
    | none => btClimb s.mirror fuel a
  cases s.lhs a with
  | none => exact btClimbLeft_eq_mirror s fuel a
  | some b => exact congrArg some (btLast_eq_mirror s fuel b)

/-- The way through the rest of the tree. -/
theorem btWalk_next (h : Rep s none s.root t) (hnd : (inorder t).Nodup)
    (hfuel : (inorder t).length ≤ fuel) {before after : List α} {rounds : ℕ}
    (hsplit : inorder t = before ++ after) (hrounds : after.length ≤ rounds) :
    btWalk (btNext s fuel) rounds after.head? = after := by
  induction after generalizing before rounds with
  | nil => cases rounds <;> rfl
  | cons a after ih =>
    cases rounds with
    | zero => simp at hrounds
    | succ rounds =>
      have hrest : inorder t = (before ++ [a]) ++ after := by simpa using hsplit
      rw [List.head?_cons, btWalk, btNext_eq h hnd hfuel hsplit, ih hrest (by simpa using hrounds)]

omit [DecidableEq α] in
/-- `bt_first` of the root. -/
theorem map_btFirst_root (h : Rep s none s.root t) (hfuel : (inorder t).length ≤ fuel) :
    s.root.map (btFirst s fuel) = (inorder t).head? := by
  cases hroot : s.root with
  | none =>
    rw [(rep_none_iff h).1 hroot]
    rfl
  | some a =>
    rw [hroot] at h
    exact (btFirst_eq h hfuel).symm

/-- The traversal of `bt_first` and `bt_next`. -/
theorem btForward_eq (h : Rep s none s.root t) (hnd : (inorder t).Nodup)
    (hfuel : (inorder t).length ≤ fuel) : btForward s fuel = inorder t := by
  have hsplit : inorder t = [] ++ inorder t := rfl
  rw [btForward, map_btFirst_root h hfuel]
  exact btWalk_next h hnd hfuel hsplit hfuel

/-- The traversal of `bt_last` and `bt_prev`. -/
theorem btBackward_eq (h : Rep s none s.root t) (hnd : (inorder t).Nodup)
    (hfuel : (inorder t).length ≤ fuel) : btBackward s fuel = (inorder t).reverse := by
  have hmirror : btBackward s fuel = btForward s.mirror fuel := by
    unfold btBackward btForward
    rw [funext (btPrev_eq_mirror s fuel), funext (btLast_eq_mirror s fuel)]
    rfl
  have hrep : Rep s.mirror none s.mirror.root (mirror t) := h.mirror
  have hnd' : (inorder (mirror t)).Nodup := by
    rw [inorder_mirror]
    exact List.nodup_reverse.2 hnd
  have hfuel' : (inorder (mirror t)).length ≤ fuel := by
    rw [inorder_mirror, List.length_reverse]
    exact hfuel
  rw [hmirror, btForward_eq hrep hnd' hfuel', inorder_mirror]

/-- The loop of `bt_count` counts the items up to the last one. -/
theorem btCountFrom_eq (h : Rep s none s.root t) (hnd : (inorder t).Nodup)
    (hfuel : (inorder t).length ≤ fuel) {last : α} {before after : List α} {rounds : ℕ} (ret : ℕ)
    (hsplit : inorder t = before ++ after ++ [last]) (hrounds : after.length < rounds) :
    btCountFrom s fuel last rounds (after ++ [last]).head? ret = some (ret + after.length) := by
  -- induction on the items behind the one that has been reached
  induction after generalizing before rounds ret with
  | nil =>
    cases rounds with
    | zero => simp at hrounds
    | succ rounds =>
      rw [btCountFrom]
      exact if_pos rfl
  | cons a after ih =>
    cases rounds with
    | zero => simp at hrounds
    | succ rounds =>
      have hne : a ≠ last := by
        rw [hsplit, List.nodup_append] at hnd
        exact hnd.2.2 a (by simp) last (by simp)
      have hnext : btNext s fuel a = (after ++ [last]).head? :=
        btNext_eq h hnd hfuel (by simpa using hsplit)
      have hrest : inorder t = (before ++ [a]) ++ after ++ [last] := by simpa using hsplit
      have hcount := ih (ret + 1) hrest (by simpa using hrounds)
      rw [List.cons_append, List.head?_cons, btCountFrom, if_neg fun heq => hne (Option.some.inj heq),
        Option.bind_some, hnext, hcount, List.length_cons]
      congr 1
      omega

/-- `bt_count` counts the items. -/
theorem btCount_eq (h : Rep s none s.root t) (hnd : (inorder t).Nodup)
    (hfuel : (inorder t).length ≤ fuel) : btCount s fuel = some (inorder t).length := by
  have hfirst := map_btFirst_root h hfuel
  unfold btCount
  cases hroot : s.root with
  | none =>
    rw [(rep_none_iff h).1 hroot]
    rfl
  | some root =>
    rw [hroot] at hfirst
    have hrep := h
    rw [hroot] at hrep
    have hlast := btLast_eq hrep hfuel
    obtain ⟨init, hinit⟩ := List.getLast?_eq_some_iff.1 hlast
    have hlen := congrArg List.length hinit
    rw [List.length_append, List.length_singleton] at hlen
    dsimp only
    have hsplit : inorder t = [] ++ init ++ [btLast s fuel root] := hinit
    rw [show some (btFirst s fuel root) = _ from hfirst, hinit,
      btCountFrom_eq h hnd hfuel 1 hsplit (by omega), List.length_append, List.length_singleton,
      Nat.add_comm]

end

/-! ## The items that a search meets -/

/-- The items that the loop of `bt_find` compares with, from the node pointer `location`. -/
def btPath (s : Links α) (cmp : α → ℤ) : (fuel : ℕ) → (location : Option α) → List α
  | 0, _ => []
  | _ + 1, none => []
  | fuel + 1, some location =>
    if cmp location ≠ 0 then
      location :: btPath s cmp fuel (if cmp location < 0 then s.rhs location else s.lhs location)
    else [location]

omit [DecidableEq α] in
/-- The items that a search meets depend on the pointers and the comparisons of the tree. -/
theorem btPath_congr {s s' : Links α} {cmp cmp' : α → ℤ} {par p : Option α} {t : BinaryTree α}
    (h : Rep s par p t) (hlinks : SameOn s s' (inorder t)) (hcmp : ∀ a ∈ inorder t, cmp' a = cmp a)
    (fuel : ℕ) : btPath s' cmp' fuel p = btPath s cmp fuel p := by
  -- induction on the tree, along the way of the search
  induction t generalizing par p fuel with
  | nil =>
    have hp : p = none := h
    subst hp
    cases fuel <;> rfl
  | node a l r ihl ihr =>
    obtain ⟨rfl, -, hl, hr⟩ := h
    have ha : a ∈ inorder (.node a l r) := by simp [inorder]
    obtain ⟨hlhs, hrhs, -⟩ := hlinks a ha
    have hleft : inorder l ⊆ inorder (.node a l r) := by simp [inorder]
    have hright : inorder r ⊆ inorder (.node a l r) := fun b hb => by simp [inorder, hb]
    cases fuel with
    | zero => rfl
    | succ fuel =>
      rw [btPath, btPath, hcmp a ha, Links.lhs_eq_get, Links.rhs_eq_get, Links.lhs_eq_get,
        Links.rhs_eq_get, hlhs, hrhs]
      have hleftPath := ihl hl (hlinks.mono hleft) (fun b hb => hcmp b (hleft hb)) fuel
      have hrightPath := ihr hr (hlinks.mono hright) (fun b hb => hcmp b (hright hb)) fuel
      split_ifs
      · rw [hrightPath]
      · rw [hleftPath]
      · rfl

omit [DecidableEq α] in
/-- A search meets items of the tree only. -/
theorem btPath_subset {s : Links α} {cmp : α → ℤ} {par p : Option α} {t : BinaryTree α}
    (h : Rep s par p t) (fuel : ℕ) : btPath s cmp fuel p ⊆ inorder t := by
  -- induction on the tree, along the way of the search
  induction t generalizing par p fuel with
  | nil =>
    have hp : p = none := h
    subst hp
    cases fuel <;> simp [btPath]
  | node a l r ihl ihr =>
    obtain ⟨rfl, -, hl, hr⟩ := h
    cases fuel with
    | zero => simp [btPath]
    | succ fuel =>
      have ha : a ∈ inorder (.node a l r) := by simp [inorder]
      intro b hb
      rw [btPath, Links.lhs_eq_get, Links.rhs_eq_get] at hb
      split_ifs at hb
      · rcases List.mem_cons.1 hb with rfl | hb
        · exact ha
        · have := ihr hr fuel hb
          simp [inorder, this]
      · rcases List.mem_cons.1 hb with rfl | hb
        · exact ha
        · have := ihl hl fuel hb
          simp [inorder, this]
      · rwa [List.mem_singleton.1 hb]

omit [DecidableEq α] in
/-- What a search finds is the last item that it meets. -/
theorem btFind_mem_btPath {s : Links α} {cmp : α → ℤ} {fuel : ℕ} {location : Option α} {item : α}
    (h : btFind s cmp fuel location = some item) : item ∈ btPath s cmp fuel location := by
  induction fuel generalizing location with
  | zero => exact absurd h (by simp [btFind])
  | succ fuel ih =>
    cases location with
    | none => exact absurd h (by simp [btFind])
    | some a =>
      rw [btFind] at h
      rw [btPath]
      by_cases hne : cmp a ≠ 0
      · rw [if_pos hne] at h ⊢
        exact List.mem_cons_of_mem a (ih h)
      · rw [if_neg hne] at h ⊢
        rw [Option.some.inj h]
        exact List.mem_singleton_self item

/-- The two comparisons send a search the same way at the item. -/
def SameSign (cmp cmp' : α → ℤ) (a : α) : Prop :=
  (cmp a < 0 ↔ cmp' a < 0) ∧ (cmp a = 0 ↔ cmp' a = 0)

section
variable {s : Links α} {cmp cmp' : α → ℤ}

omit [DecidableEq α] in
theorem SameSign.of_eq {a : α} (h : cmp a = cmp' a) : SameSign cmp cmp' a := by
  unfold SameSign
  rw [h]
  exact ⟨Iff.rfl, Iff.rfl⟩

omit [DecidableEq α] in
/-- A search depends on the items that it meets, and only on the signs there. -/
theorem btFind_congr {fuel : ℕ} {location : Option α}
    (h : ∀ a ∈ btPath s cmp fuel location, SameSign cmp cmp' a) :
    btFind s cmp fuel location = btFind s cmp' fuel location := by
  induction fuel generalizing location with
  | zero => rfl
  | succ fuel ih =>
    cases location with
    | none => rfl
    | some a =>
      rw [btPath] at h
      rw [btFind, btFind]
      by_cases hne : cmp a ≠ 0
      · rw [if_pos hne] at h ⊢
        obtain ⟨hlt, hzero⟩ := h a List.mem_cons_self
        rw [if_pos fun h0 => hne (hzero.2 h0)]
        have hrest := ih fun b hb => h b (List.mem_cons_of_mem a hb)
        rw [hrest]
        congr 1
        exact if_congr hlt rfl rfl
      · rw [if_neg hne] at h ⊢
        obtain ⟨-, hzero⟩ := h a List.mem_cons_self
        rw [if_neg fun h0 => hne fun h0' => h0 (hzero.1 h0')]

/-- The way of `bt_insert` is that of `bt_find`. -/
theorem btInsert_congr {item : α} {fuel depth : ℕ} {bt : Slot α}
    (h : ∀ a ∈ btPath s cmp fuel (s.get bt), SameSign cmp cmp' a) :
    btInsert item cmp fuel s bt depth = btInsert item cmp' fuel s bt depth := by
  -- on its way down `bt_insert` writes to the parent of the item, which no search reads
  have hpath (s : Links α) (v : Option α) (fuel : ℕ) (location : Option α) :
      btPath (s.setParent item v) cmp fuel location = btPath s cmp fuel location := by
    induction fuel generalizing location with
    | zero => rfl
    | succ fuel ih =>
      cases location with
      | none => rfl
      | some a =>
        rw [btPath, btPath, ih, Links.lhs_eq_get, Links.rhs_eq_get, Links.get_setParent,
          Links.get_setParent]
        rfl
  induction fuel generalizing s bt depth with
  | zero => rfl
  | succ fuel ih =>
    rw [btInsert, btInsert]
    cases hget : s.get bt with
    | none => rfl
    | some a =>
      rw [hget, btPath] at h
      dsimp only
      by_cases hne : cmp a ≠ 0
      · rw [if_pos hne] at h ⊢
        obtain ⟨hlt, hzero⟩ := h a List.mem_cons_self
        rw [if_pos fun h0 => hne (hzero.2 h0), if_congr hlt rfl rfl]
        apply ih
        intro b hb
        rw [hpath, Links.get_setParent] at hb
        apply h b (List.mem_cons_of_mem a _)
        by_cases hneg : cmp a < 0
        · rw [if_pos hneg]
          rwa [if_pos (hlt.1 hneg)] at hb
        · rw [if_neg hneg]
          rwa [if_neg fun h' => hneg (hlt.2 h')] at hb
      · rw [if_neg hne] at h ⊢
        obtain ⟨-, hzero⟩ := h a List.mem_cons_self
        have hne' : ¬cmp' a ≠ 0 := fun h0 => hne fun h0' => h0 (hzero.1 h0')
        rw [if_neg hne']

theorem btRemove_congr {fuel : ℕ} (h : ∀ a ∈ btPath s cmp fuel s.root, SameSign cmp cmp' a) :
    btRemove s cmp fuel = btRemove s cmp' fuel := by
  unfold btRemove
  rw [btFind_congr h]

end

/-! ## One operation -/

/-- The comparison function orders the items; those between which it gives 0 are equal. -/
structure IsComparison (compare : α → α → ℤ) : Prop where
  refl : ∀ a, compare a a = 0
  symm : ∀ a b, compare a b < 0 ↔ 0 < compare b a
  trans : ∀ a b c, compare a b ≤ 0 → compare b c ≤ 0 → compare a c ≤ 0

section
variable {compare : α → α → ℤ}

omit [DecidableEq α]

theorem IsComparison.le_iff (h : IsComparison compare) (a b : α) : compare a b ≤ 0 ↔ 0 ≤ compare b a := by
  have hba := h.symm b a
  omega

theorem IsComparison.zero_iff (h : IsComparison compare) (a b : α) : compare a b = 0 ↔ compare b a = 0 := by
  have hab := h.le_iff a b
  have hba := h.le_iff b a
  omega

theorem IsComparison.lt_of_lt_of_le (h : IsComparison compare) {a b c : α} (hab : compare a b < 0)
    (hbc : compare b c ≤ 0) : compare a c < 0 := by
  rw [h.symm]
  by_contra hle
  have hba := h.trans b c a hbc (by omega)
  have hpos := (h.symm a b).1 hab
  omega

theorem IsComparison.lt_of_le_of_lt (h : IsComparison compare) {a b c : α} (hab : compare a b ≤ 0)
    (hbc : compare b c < 0) : compare a c < 0 := by
  rw [h.symm]
  by_contra hle
  have hcb := h.trans c a b (by omega) hab
  have hpos := (h.symm b c).1 hbc
  omega

/-- A probe can be searched for among items in increasing order. -/
theorem IsComparison.searchable (h : IsComparison compare) {l : List α}
    (hsorted : l.Pairwise fun a b => compare a b < 0) (probe : α) :
    Searchable (fun a => compare a probe) l := by
  refine hsorted.imp fun {a b} hab hle => ?_
  rw [← h.symm]
  exact h.lt_of_le_of_lt ((h.le_iff probe a).2 hle) hab

end

/-- The pointers are those of the tree `t`, whose items are in increasing order. `inserted` counts
the insertions. -/
structure SortedTree (compare : α → α → ℤ) (s : Links α) (inserted : ℕ) (t : BinaryTree α) : Prop where
  rep : Rep s none s.root t
  sorted : (inorder t).Pairwise fun a b => compare a b < 0
  fuel : (inorder t).length ≤ inserted

namespace SortedTree

variable {compare : α → α → ℤ} {s : Links α} {inserted : ℕ} {t : BinaryTree α} {item : α}

omit [DecidableEq α] in
theorem nodup (hcmp : IsComparison compare) (h : SortedTree compare s inserted t) :
    (inorder t).Nodup := by
  refine h.sorted.imp fun {a b} hlt heq => ?_
  rw [heq, hcmp.refl] at hlt
  omega

omit [DecidableEq α] in
/-- `bt_find`. -/
theorem find_eq (hcmp : IsComparison compare) (h : SortedTree compare s inserted t) (probe : α) :
    btFind s (fun a => compare a probe) (inserted + 1) s.root =
      (inorder t).find? fun a => compare a probe = 0 := by
  have hfuel := h.fuel
  rw [btFind_eq h.rep (by omega), find_eq_find? (hcmp.searchable h.sorted probe)]

/-- `bt_insert` of an item that is not stored: it takes the place of the one that is equal to it. -/
theorem insert (hcmp : IsComparison compare) (h : SortedTree compare s inserted t)
    (hnew : item ∉ inorder t) (hlhs : s.lhs item = none) (hrhs : s.rhs item = none)
    (hpar : s.parent item = none) :
    let r := btInsert item (fun a => compare a item) (inserted + 1) s .root 0
    ∃ t', SortedTree compare r.links (inserted + 1) t' ∧
      (inorder t').Perm (item :: (inorder t).filter fun a => compare a item ≠ 0) ∧
      r.deleted = (inorder t).find? fun a => compare a item = 0 := by
  -- the insertion of the tree, at the comparisons with the item
  have hfuel := h.fuel
  have hsearch := hcmp.searchable h.sorted item
  obtain ⟨hrep, hfound, -⟩ := btInsert_spec (fun a => compare a item) 0 h.rep (h.nodup hcmp)
    (Nat.lt_succ_of_le hfuel) hnew hpar hlhs hrhs
  have hin := inorder_insertAt (x := item) hsearch
  -- the same items but for those that are equal to the new one
  have hperm : (inorder (insertAt (fun a => compare a item) item t)).Perm
      (item :: (inorder t).filter fun a => compare a item ≠ 0) := by
    rw [hin]
    refine List.perm_middle.trans (List.Perm.cons item ?_)
    have hsplit := List.filter_append_perm (fun a => decide (compare a item < 0))
      ((inorder t).filter fun a => compare a item ≠ 0)
    rw [List.filter_filter, List.filter_filter] at hsplit
    refine List.Perm.trans (List.Perm.of_eq ?_) hsplit
    congr 1
    · refine List.filter_congr fun a _ => ?_
      rw [← Bool.decide_and, decide_eq_decide]
      omega
    · refine List.filter_congr fun a _ => ?_
      rw [← decide_not, ← Bool.decide_and, decide_eq_decide]
      omega
  -- the new order, and the number of the items
  refine ⟨_, ⟨hrep, ?_, ?_⟩, hperm, ?_⟩
  · rw [hin, List.pairwise_append, List.pairwise_cons]
    have hlow (a : α) (ha : a ∈ (inorder t).filter fun a => compare a item < 0) :
        compare a item < 0 := of_decide_eq_true (List.mem_filter.1 ha).2
    have hhigh (a : α) (ha : a ∈ (inorder t).filter fun a => 0 < compare a item) :
        compare item a < 0 := (hcmp.symm _ _).2 (of_decide_eq_true (List.mem_filter.1 ha).2)
    refine ⟨h.sorted.filter _, ⟨hhigh, h.sorted.filter _⟩, fun a ha b hb => ?_⟩
    rcases List.mem_cons.1 hb with rfl | hb
    · exact hlow a ha
    · exact hcmp.lt_of_lt_of_le (hlow a ha) (Int.le_of_lt (hhigh b hb))
  · rw [hperm.length_eq, List.length_cons]
    exact Nat.succ_le_succ ((List.length_filter_le _ _).trans hfuel)
  · rw [hfound, find_eq_find? hsearch]

/-- `bt_insert` of an item with cleared links that is stored: it is the only one, and nothing
happens. -/
theorem insert_stored (hcmp : IsComparison compare) (h : SortedTree compare s inserted t)
    (hmem : item ∈ inorder t) (hpar : s.parent item = none) :
    btInsert item (fun a => compare a item) (inserted + 1) s .root 0 = ⟨s, 0, none⟩ := by
  have hroot : s.get .root = some item := (h.rep.eq_root hmem hpar).2
  rw [btInsert, hroot]
  simp [hcmp.refl]

/-- `bt_remove`. -/
theorem remove (hcmp : IsComparison compare) (h : SortedTree compare s inserted t) (probe : α) :
    let r := btRemove s (fun a => compare a probe) (inserted + 1)
    ∃ t', SortedTree compare r.1 inserted t' ∧
      inorder t' = (inorder t).filter (fun a => compare a probe ≠ 0) ∧
      r.2 = (inorder t).find? fun a => compare a probe = 0 := by
  have hfuel := h.fuel
  have hsearch := hcmp.searchable h.sorted probe
  obtain ⟨hrep, hfound, -, -⟩ := btRemove_spec (fun a => compare a probe) h.rep (h.nodup hcmp)
    (Nat.le_succ_of_le hfuel)
  have hin := inorder_removeAt hsearch
  refine ⟨_, ⟨hrep, ?_, ?_⟩, hin, ?_⟩
  · rw [hin]
    exact h.sorted.filter _
  · rw [hin]
    exact (List.length_filter_le _ _).trans hfuel
  · rw [hfound, find_eq_find? hsearch]

omit [DecidableEq α] in
/-- At most one item is equal to the probe. -/
theorem eq_of_zero (hcmp : IsComparison compare) (h : SortedTree compare s inserted t) {a b probe : α}
    (ha : a ∈ inorder t) (hb : b ∈ inorder t) (ha0 : compare a probe = 0) (hb0 : compare b probe = 0) :
    a = b := by
  by_contra hne
  have ha' := hcmp.zero_iff a probe
  have hb' := hcmp.zero_iff b probe
  have hab : compare a b = 0 := by
    have hle := hcmp.trans a probe b (by omega) (by omega)
    have hge := hcmp.trans b probe a (by omega) (by omega)
    have hiff := hcmp.le_iff b a
    omega
  have hsymm : Std.Symm fun a b => compare a b ≠ 0 := ⟨fun a b h => mt (hcmp.zero_iff b a).1 h⟩
  have hdiff : (inorder t).Pairwise fun a b => compare a b ≠ 0 := h.sorted.imp fun hlt => by omega
  exact hdiff.forall ha hb hne hab

omit [DecidableEq α] in
/-- What a search finds. -/
theorem find?_eq_some_iff (hcmp : IsComparison compare) (h : SortedTree compare s inserted t)
    (probe a : α) : ((inorder t).find? fun a => compare a probe = 0) = some a ↔
      a ∈ inorder t ∧ compare a probe = 0 := by
  constructor
  · intro hfind
    have hzero := List.find?_some hfind
    exact ⟨List.mem_of_find?_eq_some hfind, by simpa using hzero⟩
  · rintro ⟨ha, ha0⟩
    cases hfind : (inorder t).find? fun a => compare a probe = 0 with
    | none =>
      rw [List.find?_eq_none] at hfind
      exact absurd (decide_eq_true ha0) (hfind a ha)
    | some b =>
      have hzero := List.find?_some hfind
      have hb0 : compare b probe = 0 := by simpa using hzero
      rw [h.eq_of_zero hcmp ha (List.mem_of_find?_eq_some hfind) ha0 hb0]

omit [DecidableEq α] in
/-- What is found is all that is equal to the probe. -/
theorem toList_find? (hcmp : IsComparison compare) (h : SortedTree compare s inserted t) (probe : α)
    {stored : List α} (hperm : (inorder t).Perm stored) :
    ((inorder t).find? fun a => compare a probe = 0).toList =
      stored.filter fun a => compare a probe = 0 := by
  have hnodup := (hperm.nodup_iff.1 (h.nodup hcmp)).filter fun a => decide (compare a probe = 0)
  have hiff := h.find?_eq_some_iff hcmp probe
  cases hfind : (inorder t).find? fun a => compare a probe = 0 with
  | none =>
    rw [List.find?_eq_none] at hfind
    refine (List.filter_eq_nil_iff.2 fun a ha => ?_).symm
    exact hfind a (hperm.mem_iff.2 ha)
  | some a =>
    refine List.singleton_perm.1 ((List.perm_ext_iff_of_nodup (List.nodup_singleton a) hnodup).2 ?_)
    intro b
    have hb := hiff b
    rw [hfind, Option.some.injEq, hperm.mem_iff] at hb
    rw [List.mem_singleton, List.mem_filter, decide_eq_true_eq, ← hb, eq_comm]

end SortedTree

/-! ## Sequences of operations -/

/-- The tree of an application, and the items that were passed to the delete function. -/
structure BtState (α : Type) where
  links : Links α
  inserted : ℕ
  deleted : List α

/-- What an application does with a tree. -/
inductive BtOp (α : Type) where
  | insert (item : α)
  | remove (probe : α)
  /-- The links of the item are cleared. -/
  | clear (item : α)

/-- The tree without items. All links are cleared. -/
def BtState.empty : BtState α := ⟨⟨none, fun _ => none, fun _ => none, fun _ => none⟩, 0, []⟩

/-- Do it, with a comparison function that takes the stored item first. -/
def BtOp.exec (compare : α → α → ℤ) : BtOp α → BtState α → BtState α
  | .insert item, s =>
    let r := btInsert item (fun a => compare a item) (s.inserted + 1) s.links .root 0
    ⟨r.links, s.inserted + 1, r.deleted.toList ++ s.deleted⟩
  | .remove probe, s =>
    let r := btRemove s.links (fun a => compare a probe) (s.inserted + 1)
    ⟨r.1, s.inserted, r.2.toList ++ s.deleted⟩
  | .clear item, s => { s with links := btClear s.links item }

/-- Only items with cleared links are inserted, and the links of stored items are left alone. -/
def BtOp.Allowed : BtOp α → BtState α → Prop
  | .insert item, s =>
    s.links.lhs item = none ∧ s.links.rhs item = none ∧ s.links.parent item = none
  | .remove _, _ => True
  | .clear item, s => ¬Linked s.links item

/-- The stored items, and the items that were replaced or removed. -/
structure BtContents (α : Type) where
  stored : List α
  deleted : List α

/-- What the operation does to them. -/
def BtOp.apply (compare : α → α → ℤ) : BtOp α → BtContents α → BtContents α
  | .insert item, c =>
    if item ∈ c.stored then c
    else ⟨item :: c.stored.filter fun a => compare a item ≠ 0,
      (c.stored.filter fun a => compare a item = 0) ++ c.deleted⟩
  | .remove probe, c =>
    ⟨c.stored.filter fun a => compare a probe ≠ 0,
      (c.stored.filter fun a => compare a probe = 0) ++ c.deleted⟩
  | .clear _, c => c

/-- Do all of it. -/
def btRun (compare : α → α → ℤ) (ops : List (BtOp α)) (s : BtState α) : BtState α :=
  ops.foldl (fun s op => op.exec compare s) s

/-- What all of it does to the contents. -/
def btContents (compare : α → α → ℤ) (ops : List (BtOp α)) (c : BtContents α) : BtContents α :=
  ops.foldl (fun c op => op.apply compare c) c

/-- The tree holds the contents. -/
def BtState.Holds (compare : α → α → ℤ) (s : BtState α) (c : BtContents α) : Prop :=
  (∃ t, SortedTree compare s.links s.inserted t ∧ (inorder t).Perm c.stored) ∧ s.deleted = c.deleted

section
variable {compare : α → α → ℤ} {s : BtState α} {c : BtContents α}

/-- Each operation does to the tree what it does to the contents. -/
theorem BtState.Holds.step (hcmp : IsComparison compare) (h : s.Holds compare c) (op : BtOp α)
    (hallowed : op.Allowed s) : (op.exec compare s).Holds compare (op.apply compare c) := by
  -- the tree of the contents, and the links that are clear
  obtain ⟨⟨t, htree, hperm⟩, hdeleted⟩ := h
  -- one case for each operation
  cases op with
  | insert item =>
    obtain ⟨hlhs, hrhs, hpar⟩ := hallowed
    by_cases hmem : item ∈ inorder t
    · have hsame := htree.insert_stored hcmp hmem hpar
      unfold BtOp.exec BtOp.apply
      dsimp only
      rw [hsame, if_pos (hperm.mem_iff.1 hmem)]
      exact ⟨⟨t, ⟨htree.rep, htree.sorted, Nat.le_succ_of_le htree.fuel⟩, hperm⟩, hdeleted⟩
    · obtain ⟨t', htree', hperm', hfound⟩ := htree.insert hcmp hmem hlhs hrhs hpar
      unfold BtOp.exec BtOp.apply
      dsimp only at htree' hfound ⊢
      rw [if_neg fun hstored => hmem (hperm.mem_iff.2 hstored)]
      refine ⟨⟨t', htree', hperm'.trans ((hperm.filter _).cons item)⟩, ?_⟩
      rw [hfound, htree.toList_find? hcmp item hperm, hdeleted]
  | remove probe =>
    obtain ⟨t', htree', hin, hfound⟩ := htree.remove hcmp probe
    unfold BtOp.exec BtOp.apply
    dsimp only at htree' hfound ⊢
    refine ⟨⟨t', htree', ?_⟩, ?_⟩
    · rw [hin]
      exact hperm.filter _
    · rw [hfound, htree.toList_find? hcmp probe hperm, hdeleted]
  | clear item =>
    have hnot : item ∉ inorder t := fun hmem => hallowed ((linked_iff_mem htree.rep).2 hmem)
    refine ⟨⟨t, ⟨?_, htree.sorted, htree.fuel⟩, hperm⟩, hdeleted⟩
    refine htree.rep.congr fun a ha => ?_
    have hne : a ≠ item := fun heq => hnot (heq ▸ ha)
    refine ⟨get_btClear _ ?_, get_btClear _ ?_, parent_btClear hne⟩
    all_goals exact fun heq => hne (Option.some.inj heq)

/-- A whole sequence. -/
theorem BtState.Holds.run (hcmp : IsComparison compare) (h : s.Holds compare c) (ops : List (BtOp α))
    (hallowed : AllSteps (BtOp.exec compare) BtOp.Allowed s ops) :
    (btRun compare ops s).Holds compare (btContents compare ops c) := by
  induction ops generalizing s c with
  | nil => exact h
  | cons op ops ih => exact ih (h.step hcmp op hallowed.1) hallowed.2

/-- What can be observed of a tree: consistent links; the two traversals, in increasing and in
decreasing order, meet the stored items once each; `bt_find` and `bt_count`; and the items that were
passed to the delete function. -/
structure BtState.Represents (compare : α → α → ℤ) (s : BtState α) (c : BtContents α) : Prop where
  links : ∃ t, Rep s.links none s.links.root t
  stored : (btForward s.links (s.inserted + 1)).Perm c.stored
  nodup : c.stored.Nodup
  increasing : (btForward s.links (s.inserted + 1)).Pairwise fun a b => compare a b < 0
  backward : btBackward s.links (s.inserted + 1) = (btForward s.links (s.inserted + 1)).reverse
  find : ∀ probe a, btFind s.links (fun a => compare a probe) (s.inserted + 1) s.links.root = some a ↔
    a ∈ c.stored ∧ compare a probe = 0
  count : btCount s.links (s.inserted + 1) = some c.stored.length
  deleted : s.deleted = c.deleted

theorem BtState.Holds.represents (hcmp : IsComparison compare) (h : s.Holds compare c) :
    s.Represents compare c := by
  obtain ⟨⟨t, htree, hperm⟩, hdeleted⟩ := h
  have hnodup := htree.nodup hcmp
  have hfuel := Nat.le_succ_of_le htree.fuel
  have hforward : btForward s.links (s.inserted + 1) = inorder t :=
    btForward_eq htree.rep hnodup hfuel
  refine ⟨⟨t, htree.rep⟩, ?_, hperm.nodup_iff.1 hnodup, ?_, ?_, fun probe a => ?_, ?_, hdeleted⟩
  · rw [hforward]
    exact hperm
  · rw [hforward]
    exact htree.sorted
  · rw [hforward]
    exact btBackward_eq htree.rep hnodup hfuel
  · rw [htree.find_eq hcmp, htree.find?_eq_some_iff hcmp, hperm.mem_iff]
  · rw [← hperm.length_eq]
    exact btCount_eq htree.rep hnodup hfuel

end

/-- The binary tree as a store: after every sequence of operations, starting with the empty tree and
for every comparison function, the tree represents the stored items. -/
theorem btRun_represents (compare : α → α → ℤ) (hcmp : IsComparison compare) (ops : List (BtOp α))
    (hallowed : AllSteps (BtOp.exec compare) BtOp.Allowed .empty ops) :
    (btRun compare ops .empty).Represents compare (btContents compare ops ⟨[], []⟩) := by
  have hempty : BtState.empty.Holds compare ⟨[], []⟩ :=
    ⟨⟨.nil, ⟨rfl, List.Pairwise.nil, Nat.zero_le _⟩, List.Perm.refl _⟩, rfl⟩
  exact (hempty.run hcmp ops hallowed).represents hcmp

/-- Numbers are compared by their tens, so that 21 takes the place of 20. -/
def compareTens (a b : ℕ) : ℤ := (a / 10 : ℕ) - (b / 10 : ℕ)

theorem isComparison_compareTens : IsComparison compareTens := by
  unfold compareTens
  exact ⟨fun _ => by omega, fun _ _ => by omega, fun _ _ _ => by omega⟩

theorem btRun_represents_tens :
    (btRun compareTens [.insert 20, .insert 10, .insert 30, .insert 21, .remove 15] .empty).Represents
      compareTens ⟨[21, 30], [10, 20]⟩ :=
  btRun_represents compareTens isComparison_compareTens
    [.insert 20, .insert 10, .insert 30, .insert 21, .remove 15]
    ⟨⟨rfl, rfl, rfl⟩, ⟨rfl, rfl, rfl⟩, ⟨rfl, rfl, rfl⟩, ⟨rfl, rfl, rfl⟩, trivial, trivial⟩

end Smcp
