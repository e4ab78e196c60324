import Mathlib.Data.List.Nodup

/-!
# Doubly linked lists

A list whose items hold their own links: each item has a `next` and a `prev`, and the list is known
by its first item.

* `Represents`: the links are those of a list without repetitions, and the items outside it have
  none. The list says what every link is, by `after` and `before`.
* `Represents.insert` and `Represents.remove`: which links change when an item is put between two
  others, or taken out.
-/

namespace LinkedList

variable {α : Type*} [DecidableEq α]

/-- The item that follows `a`. -/
def after : List α → α → Option α
  | [], _ => none
  | b :: l, a => if b = a then l.head? else after l a

/-- The item that precedes `a`, where `p` precedes the list. -/
def before (p : Option α) : List α → α → Option α
  | [], _ => none
  | b :: l, a => if b = a then p else before (some b) l a

section
variable {a x : α} {l pre post : List α} {p : Option α}

theorem after_of_notMem (h : a ∉ l) : after l a = none := by
  induction l with
  | nil => rfl
  | cons b l ih =>
    rw [List.mem_cons, not_or] at h
    rw [after, if_neg (Ne.symm h.1), ih h.2]

theorem before_of_notMem (h : a ∉ l) : before p l a = none := by
  induction l generalizing p with
  | nil => rfl
  | cons b l ih =>
    rw [List.mem_cons, not_or] at h
    rw [before, if_neg (Ne.symm h.1), ih h.2]

/-- Past a part of the list without `a`. -/
theorem after_append (h : a ∉ pre) : after (pre ++ post) a = after post a := by
  induction pre with
  | nil => rfl
  | cons b pre ih =>
    rw [List.mem_cons, not_or] at h
    rw [List.cons_append, after, if_neg (Ne.symm h.1), ih h.2]

theorem before_append (h : a ∉ pre) :
    before p (pre ++ post) a = before (pre.getLast?.or p) post a := by
  induction pre generalizing p with
  | nil => rfl
  | cons b pre ih =>
    rw [List.mem_cons, not_or] at h
    rw [List.cons_append, before, if_neg (Ne.symm h.1), ih h.2]
    congr 1
    cases pre with
    | nil => rfl
    | cons c pre =>
      obtain ⟨last, hlast⟩ := Option.isSome_iff_exists.1 (List.getLast?_isSome.2 (List.cons_ne_nil c pre))
      rw [List.getLast?_cons_cons, hlast]
      rfl

theorem after_mid (h : x ∉ pre) : after (pre ++ x :: post) x = post.head? := by
  rw [after_append h, after, if_pos rfl]

theorem before_mid (h : x ∉ pre) : before none (pre ++ x :: post) x = pre.getLast? := by
  rw [before_append h, before, if_pos rfl, Option.or_none]

/-- What follows the last item of the first part is the first item of the second. -/
theorem after_getLast (hnodup : pre.Nodup) (hlast : pre.getLast? = some a) :
    after (pre ++ post) a = post.head? := by
  obtain ⟨init, rfl⟩ := List.getLast?_eq_some_iff.1 hlast
  have hnot : a ∉ init := by
    rw [List.nodup_append] at hnodup
    intro hmem
    exact hnodup.2.2 a hmem a List.mem_cons_self rfl
  rw [List.append_assoc]
  exact after_mid hnot

theorem before_head (hnot : a ∉ pre) (hhead : post.head? = some a) :
    before none (pre ++ post) a = pre.getLast? := by
  obtain ⟨rest, rfl⟩ := List.head?_eq_some_iff.1 hhead
  exact before_mid hnot

/-- Other items are followed by what they were followed by before. -/
theorem after_insert (hnodup : (pre ++ x :: post).Nodup) (hne : a ≠ x)
    (hlast : pre.getLast? ≠ some a) : after (pre ++ x :: post) a = after (pre ++ post) a := by
  induction pre with
  | nil => rw [List.nil_append, after, if_neg (Ne.symm hne), List.nil_append]
  | cons b pre ih =>
    rw [List.cons_append, List.nodup_cons] at hnodup
    rw [List.cons_append, List.cons_append, after, after]
    by_cases hb : b = a
    · rw [if_pos hb, if_pos hb]
      -- the item is not the last one of its part, so the next one is in it, too
      cases pre with
      | nil =>
        rw [hb] at hlast
        exact absurd rfl hlast
      | cons c pre => rfl
    · rw [if_neg hb, if_neg hb]
      apply ih hnodup.2
      cases pre with
      | nil => exact (Option.some_ne_none a).symm
      | cons c pre => rwa [List.getLast?_cons_cons] at hlast

theorem before_insert (hnodup : (pre ++ x :: post).Nodup) (hne : a ≠ x)
    (hhead : post.head? ≠ some a) : before p (pre ++ x :: post) a = before p (pre ++ post) a := by
  induction pre generalizing p with
  | nil =>
    rw [List.nil_append, before, if_neg (Ne.symm hne), List.nil_append]
    cases post with
    | nil => rfl
    | cons c post =>
      have hc : c ≠ a := fun heq => hhead (congrArg some heq)
      rw [before, before, if_neg hc, if_neg hc]
  | cons b pre ih =>
    rw [List.cons_append, List.nodup_cons] at hnodup
    rw [List.cons_append, List.cons_append, before, before, ih hnodup.2]

end

/-- The links of the items are those of the list. -/
structure Represents (head : Option α) (next prev : α → Option α) (l : List α) : Prop where
  head_eq : head = l.head?
  next_eq : ∀ a, next a = after l a
  prev_eq : ∀ a, prev a = before none l a
  nodup : l.Nodup

section
variable {head head' : Option α} {next next' prev prev' : α → Option α} {x : α} {l pre post : List α}

theorem Represents.empty : Represents (α := α) none (fun _ => none) (fun _ => none) [] :=
  ⟨rfl, fun _ => rfl, fun _ => rfl, List.nodup_nil⟩

/-- An item of the list can be told by its links. -/
theorem Represents.mem_iff (h : Represents head next prev l) :
    x ∈ l ↔ (next x).isSome ∨ (prev x).isSome ∨ head = some x := by
  constructor
  · intro hmem
    obtain ⟨pre, post, rfl⟩ := List.append_of_mem hmem
    have hnot : x ∉ pre := by
      intro hpre
      exact (List.nodup_append.1 h.nodup).2.2 x hpre x List.mem_cons_self rfl
    rw [h.next_eq, h.prev_eq, h.head_eq, after_mid hnot, before_mid hnot]
    cases pre with
    | nil => exact .inr (.inr rfl)
    | cons b pre =>
      right
      left
      simp
  · intro hlinked
    by_contra hnot
    rw [h.next_eq, h.prev_eq, h.head_eq, after_of_notMem hnot, before_of_notMem hnot] at hlinked
    rcases hlinked with hnext | hprev | hhead
    · exact Bool.false_ne_true hnext
    · exact Bool.false_ne_true hprev
    · exact hnot (List.mem_of_mem_head? hhead)

/-- Put an item between two parts of the list. -/
theorem Represents.insert (h : Represents head next prev (pre ++ post)) (hx : x ∉ pre ++ post)
    (hhead : head' = (pre ++ x :: post).head?)
    (hnext : ∀ a, next' a =
      if a = x then post.head? else if pre.getLast? = some a then some x else next a)
    (hprev : ∀ a, prev' a =
      if a = x then pre.getLast? else if post.head? = some a then some x else prev a) :
    Represents head' next' prev' (pre ++ x :: post) := by
  -- the item is in neither of the two parts
  have hnodup : (pre ++ x :: post).Nodup := by
    rw [List.nodup_middle, List.nodup_cons]
    exact ⟨hx, h.nodup⟩
  have hnot : x ∉ pre := fun hmem => hx (List.mem_append_left post hmem)
  -- the links of the item, and those of its two neighbours
  refine ⟨hhead, ?_, ?_, hnodup⟩
  · intro a
    rw [hnext a]
    split_ifs with ha hlast
    · rw [ha, after_mid hnot]
    · rw [after_getLast (List.nodup_append.1 h.nodup).1 hlast]
      rfl
    · rw [h.next_eq, after_insert hnodup ha hlast]
  · intro a
    rw [hprev a]
    split_ifs with ha hfirst
    · rw [ha, before_mid hnot]
    · -- the item behind the new one
      obtain ⟨rest, rfl⟩ := List.head?_eq_some_iff.1 hfirst
      have hapre : a ∉ pre := by
        intro hmem
        exact (List.nodup_append.1 h.nodup).2.2 a hmem a List.mem_cons_self rfl
      rw [before_append hapre, before, if_neg (Ne.symm ha), before, if_pos rfl]
    · rw [h.prev_eq, before_insert hnodup ha hfirst]

/-- Take an item out. -/
theorem Represents.remove (h : Represents head next prev (pre ++ x :: post))
    (hhead : head' = (pre ++ post).head?)
    (hnext : ∀ a, next' a =
      if a = x then none else if pre.getLast? = some a then post.head? else next a)
    (hprev : ∀ a, prev' a =
      if a = x then none else if post.head? = some a then pre.getLast? else prev a) :
    Represents head' next' prev' (pre ++ post) := by
  -- the item is in neither of the two parts
  have hnodup := h.nodup
  rw [List.nodup_middle, List.nodup_cons] at hnodup
  -- its two neighbours are linked to each other
  refine ⟨hhead, ?_, ?_, hnodup.2⟩
  · intro a
    rw [hnext a]
    split_ifs with ha hlast
    · rw [ha, after_of_notMem hnodup.1]
    · rw [after_getLast (List.nodup_append.1 hnodup.2).1 hlast]
    · rw [h.next_eq, after_insert h.nodup ha hlast]
  · intro a
    rw [hprev a]
    split_ifs with ha hfirst
    · rw [ha, before_of_notMem hnodup.1]
    · have hapre : a ∉ pre := by
        intro hmem
        exact (List.nodup_append.1 hnodup.2).2.2 a hmem a (List.mem_of_mem_head? hfirst) rfl
      rw [before_head hapre hfirst]
    · rw [h.prev_eq, before_insert h.nodup ha hfirst]

end

end LinkedList
