import Mathlib.Data.Int.Basic
import Mathlib.Data.List.Induction
import Mathlib.Data.List.Nodup

/-!
# Lists linked by indices

A singly linked list in a table: the index `i + 1` leads to the entry `i`, and 0 ends the list.

* `Chain`: the entries that are passed on the way from an index to the end;
* `Chain.snoc`: an entry is linked behind the last one.
-/

namespace IndexList

/-- The way from the index `p` passes the entries `l`, and ends. -/
def Chain (next : ℕ → ℤ) : ℤ → List ℕ → Prop
  | p, [] => p = 0
  | p, i :: l => p = i + 1 ∧ Chain next (next i) l

/-- The index of the last entry. -/
def lastIndex (l : List ℕ) : ℤ := (l.getLast?.map fun i => (i : ℤ) + 1).getD 0

section
variable {next next' : ℕ → ℤ} {p : ℤ} {l : List ℕ} {i : ℕ}

theorem Chain.congr (h : Chain next p l) (hsame : ∀ i ∈ l, next' i = next i) : Chain next' p l := by
  induction l generalizing p with
  | nil => exact h
  | cons i l ih =>
    refine ⟨h.1, ?_⟩
    rw [hsame i List.mem_cons_self]
    exact ih h.2 fun j hj => hsame j (List.mem_cons_of_mem i hj)

/-- Every index on the way leads to an entry of the list. -/
theorem Chain.next_mem (h : Chain next p l) (hi : i ∈ l) {j : ℕ} (hnext : next i = j + 1) : j ∈ l := by
  induction l generalizing p with
  | nil => exact absurd hi List.not_mem_nil
  | cons k l ih =>
    rcases List.mem_cons.1 hi with rfl | hi
    · have hrest := h.2
      rw [hnext] at hrest
      cases l with
      | nil =>
        have hzero : (j : ℤ) + 1 = 0 := hrest
        omega
      | cons k' l =>
        have heq : (j : ℤ) + 1 = k' + 1 := hrest.1
        have hjk : j = k' := by omega
        simp [hjk]
    · exact List.mem_cons_of_mem k (ih h.2 hi)

/-- An index that is not 0 leads to the first entry. -/
theorem Chain.eq_cons (h : Chain next (i + 1) l) : ∃ rest, l = i :: rest := by
  cases l with
  | nil =>
    have hzero : (i : ℤ) + 1 = 0 := h
    omega
  | cons j rest =>
    have heq : (i : ℤ) + 1 = j + 1 := h.1
    have hij : i = j := by omega
    exact ⟨rest, by rw [hij]⟩

@[simp] theorem lastIndex_nil : lastIndex [] = 0 := rfl

@[simp] theorem lastIndex_snoc (l : List ℕ) (i : ℕ) : lastIndex (l ++ [i]) = i + 1 := by
  simp [lastIndex]

/-- Link the entry `i` behind the entry `j`, which is the last one. -/
theorem Chain.snoc {j : ℕ} (h : Chain next p (l ++ [j])) (hj : j ∉ l) (hij : i ≠ j) (hi : next i = 0) :
    Chain (Function.update next j (i + 1)) p (l ++ [j, i]) := by
  induction l generalizing p with
  | nil =>
    refine ⟨h.1, ?_, ?_⟩
    · rw [Function.update_self]
    · rw [Function.update_of_ne hij]
      exact hi
  | cons k l ih =>
    rw [List.mem_cons, not_or] at hj
    refine ⟨h.1, ?_⟩
    rw [Function.update_of_ne (Ne.symm hj.1)]
    exact ih h.2 hj.2

end

end IndexList
