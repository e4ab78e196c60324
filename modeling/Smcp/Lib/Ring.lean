import Mathlib.Data.List.Basic

/-!
# Ring buffers

A table of `n` cells that is written in turn: each new value goes where the oldest one was.

* `Holds` compares the table with the list of everything that was ever written, newest first;
  `Holds.push` says that writing keeps it.
* `Holds.exists_iff`: a value is in the table when it is one of the last `n`, or one that the table
  was filled with and that has not been overwritten.
-/

namespace Ring

variable {α : Type*} {n index k : ℕ}

/-- The cell with the value that was written `k` values ago, when `index` is the next cell to
write. -/
def slot (n index k : ℕ) : ℕ := if k < index then index - 1 - k else index + n - 1 - k

theorem slot_lt (hindex : index < n) (hk : k < n) : slot n index k < n := by
  unfold slot
  split_ifs <;> omega

/-- Every cell is the cell of some value. -/
theorem slot_slot (hindex : index < n) (hk : k < n) : slot n index (slot n index k) = k := by
  unfold slot
  split_ifs <;> omega

theorem slot_ne_index (hk : k + 1 < n) : slot n index k ≠ index := by
  unfold slot
  split_ifs <;> omega

theorem slot_zero_next (hindex : index < n) : slot n ((index + 1) % n) 0 = index := by
  have hwrap : index + 1 = n ∨ index + 1 < n := by omega
  unfold slot
  rcases hwrap with heq | hlt
  · rw [heq, Nat.mod_self, if_neg (Nat.lt_irrefl 0)]
    omega
  · rw [Nat.mod_eq_of_lt hlt, if_pos (Nat.succ_pos index)]
    omega

/-- What was written `k` values ago was, before the last write, written one less ago. -/
theorem slot_succ_next (hindex : index < n) (hk : k + 1 < n) :
    slot n ((index + 1) % n) (k + 1) = slot n index k := by
  have hwrap : index + 1 = n ∨ index + 1 < n := by omega
  unfold slot
  rcases hwrap with heq | hlt
  · rw [heq, Nat.mod_self]
    split_ifs <;> omega
  · rw [Nat.mod_eq_of_lt hlt]
    split_ifs <;> omega

/-- The table of `n` cells, filled with `d` at first, holds the newest values of the history. -/
structure Holds (n : ℕ) (d : α) (cell : ℕ → α) (index : ℕ) (history : List α) : Prop where
  index_lt : index < n
  cell_eq : ∀ k < n, cell (slot n index k) = history[k]?.getD d

variable {d : α} {cell : ℕ → α} {history : List α}

theorem Holds.empty (hn : 0 < n) (d : α) : Holds n d (fun _ => d) 0 [] := ⟨hn, fun _ _ => rfl⟩

theorem Holds.push (h : Holds n d cell index history) (a : α) :
    Holds n d (Function.update cell index a) ((index + 1) % n) (a :: history) := by
  refine ⟨Nat.mod_lt _ (Nat.zero_lt_of_lt h.index_lt), ?_⟩
  intro k hk
  cases k with
  | zero =>
    rw [slot_zero_next h.index_lt, Function.update_self]
    rfl
  | succ k =>
    rw [slot_succ_next h.index_lt hk, Function.update_of_ne (slot_ne_index hk), h.cell_eq k (by omega)]
    rfl

/-- What is in the table. -/
theorem Holds.exists_iff (h : Holds n d cell index history) (a : α) :
    (∃ j < n, cell j = a) ↔ a ∈ history.take n ∨ history.length < n ∧ a = d := by
  -- what was put there last, or what was there and has not been written over
  constructor
  · intro hcell
    obtain ⟨j, hj, rfl⟩ := hcell
    have hk : slot n index j < n := slot_lt h.index_lt hj
    have heq : cell j = history[slot n index j]?.getD d := by
      rw [← h.cell_eq _ hk, slot_slot h.index_lt hj]
    by_cases hlen : slot n index j < history.length
    · -- the cell has been written
      left
      rw [heq, List.getElem?_eq_getElem hlen, List.mem_take_iff_getElem]
      exact ⟨slot n index j, by omega, rfl⟩
    · right
      rw [heq, List.getElem?_eq_none (by omega)]
      exact ⟨by omega, rfl⟩
  · intro hmem
    rcases hmem with htake | ⟨hlen, rfl⟩
    · rw [List.mem_take_iff_getElem] at htake
      obtain ⟨k, hk, rfl⟩ := htake
      refine ⟨slot n index k, slot_lt h.index_lt (by omega), ?_⟩
      rw [h.cell_eq k (by omega), List.getElem?_eq_getElem (by omega)]
      rfl
    · -- the oldest cell has not been written
      refine ⟨slot n index history.length, slot_lt h.index_lt hlen, ?_⟩
      rw [h.cell_eq _ hlen, List.getElem?_eq_none (Nat.le_refl _)]
      rfl

end Ring
