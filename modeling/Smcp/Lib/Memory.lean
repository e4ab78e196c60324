import Mathlib.Data.List.Basic
import Mathlib.Data.List.GetD
import Mathlib.Tactic.Ring

/-!
# Byte memories

A flat byte memory addressed by natural numbers, as a C function sees the bytes behind a
pointer, and a write buffer that remembers how far it has been written.

* `readBytes m a n` is the list of the `n` bytes at address `a`;
* `Buffer` pairs a memory with its high-water mark `top`, one past the highest address ever
  stored to, so that "no byte outside the buffer is written" is the statement `top ≤ size`;
* `Buffer.copy` and `Buffer.move` are `memcpy` from another object and `memmove`.
-/

namespace ByteMemory

/-! ## Reading -/

/-- The `n` bytes at address `a`. -/
def readBytes (m : ℕ → UInt8) (a : ℕ) : ℕ → List UInt8
  | 0 => []
  | n + 1 => m a :: readBytes m (a + 1) n

@[simp] theorem length_readBytes (m : ℕ → UInt8) (a n : ℕ) : (readBytes m a n).length = n := by
  induction n generalizing a with
  | zero => rfl
  | succ n ih => simp [readBytes, ih]

/-- A read splits at any point. -/
theorem readBytes_add (m : ℕ → UInt8) (a n k : ℕ) :
    readBytes m a (n + k) = readBytes m a n ++ readBytes m (a + n) k := by
  induction n generalizing a with
  | zero => simp [readBytes]
  | succ n ih =>
    rw [Nat.succ_add, readBytes, readBytes, ih, List.cons_append]
    congr 3
    omega

/-- A read looks only at the addresses it covers. -/
theorem readBytes_congr {m m' : ℕ → UInt8} {a n : ℕ}
    (h : ∀ j, a ≤ j → j < a + n → m j = m' j) : readBytes m a n = readBytes m' a n := by
  induction n generalizing a with
  | zero => rfl
  | succ n ih =>
    rw [readBytes, readBytes, h a (le_refl a) (by omega),
      ih (fun j hj hj' => h j (by omega) (by omega))]

theorem readBytes_eq_append {m : ℕ → UInt8} {a n : ℕ} {l r : List UInt8}
    (h : readBytes m a n = l ++ r) :
    readBytes m a l.length = l ∧ readBytes m (a + l.length) r.length = r := by
  have hlen : n = l.length + r.length := by
    have := congrArg List.length h
    simpa using this
  rw [hlen, readBytes_add] at h
  exact List.append_inj h (by simp)

theorem readBytes_eq_cons {m : ℕ → UInt8} {a n : ℕ} {x : UInt8} {r : List UInt8}
    (h : readBytes m a n = x :: r) : m a = x ∧ readBytes m (a + 1) r.length = r := by
  cases n with
  | zero => simp [readBytes] at h
  | succ n =>
    rw [readBytes, List.cons.injEq] at h
    have hlen : n = r.length := by
      have := congrArg List.length h.2
      simpa using this
    exact ⟨h.1, hlen ▸ h.2⟩

theorem getElem?_readBytes {m : ℕ → UInt8} {a n i : ℕ} (h : i < n) :
    (readBytes m a n)[i]? = some (m (a + i)) := by
  induction n generalizing a i with
  | zero => omega
  | succ n ih =>
    cases i with
    | zero => simp [readBytes]
    | succ i =>
      rw [readBytes, List.getElem?_cons_succ, ih (by omega)]
      congr 2
      omega

/-- The memory whose first bytes are `l`, followed by `rest`. -/
def ofList (l : List UInt8) (rest : ℕ → UInt8) (i : ℕ) : UInt8 :=
  l.getD i (rest i)

theorem readBytes_ofList (l : List UInt8) (rest : ℕ → UInt8) :
    readBytes (ofList l rest) 0 l.length = l := by
  refine List.ext_getElem? fun i => ?_
  by_cases hi : i < l.length
  · rw [getElem?_readBytes hi, Nat.zero_add, ofList, List.getD_eq_getElem?_getD,
      List.getElem?_eq_getElem hi, Option.getD_some]
  · rw [List.getElem?_eq_none (by simpa using hi), List.getElem?_eq_none (by omega)]

/-! ## Writing -/

/-- A memory together with one past the highest address ever stored to. -/
@[ext]
structure Buffer where
  byte : ℕ → UInt8
  top : ℕ

namespace Buffer

/-- Store one byte. -/
def store (b : Buffer) (i : ℕ) (v : UInt8) : Buffer :=
  { byte := fun j => if j = i then v else b.byte j
    top := max b.top (i + 1) }

/-- Copy the bytes `l` from another object to address `i`. -/
def copy (b : Buffer) (i : ℕ) (l : List UInt8) : Buffer :=
  { byte := fun j => if i ≤ j ∧ j < i + l.length then l.getD (j - i) 0 else b.byte j
    top := if l = [] then b.top else max b.top (i + l.length) }

/-- Move `n` bytes inside the buffer from `src` to `dst`; the areas may overlap. -/
def move (b : Buffer) (dst src n : ℕ) : Buffer :=
  { byte := fun j => if dst ≤ j ∧ j < dst + n then b.byte (src + (j - dst)) else b.byte j
    top := if n = 0 then b.top else max b.top (dst + n) }

@[simp] theorem store_self (b : Buffer) (i : ℕ) (v : UInt8) : (b.store i v).byte i = v := by
  simp [store]

theorem store_of_ne (b : Buffer) {i j : ℕ} (v : UInt8) (h : j ≠ i) :
    (b.store i v).byte j = b.byte j := by
  simp [store, h]

theorem copy_of_outside (b : Buffer) {i j : ℕ} (l : List UInt8) (h : j < i ∨ i + l.length ≤ j) :
    (b.copy i l).byte j = b.byte j := by
  have : ¬(i ≤ j ∧ j < i + l.length) := by omega
  simp [copy, this]

/-- The copied bytes are found where they were put. -/
theorem readBytes_copy (b : Buffer) (i : ℕ) (l : List UInt8) :
    readBytes (b.copy i l).byte i l.length = l := by
  refine List.ext_getElem? fun k => ?_
  by_cases hk : k < l.length
  · rw [getElem?_readBytes hk]
    have : i ≤ i + k ∧ i + k < i + l.length := by omega
    simp [copy, hk]
  · rw [List.getElem?_eq_none (by simpa using hk), List.getElem?_eq_none (by omega)]

theorem store_eq_copy (b : Buffer) (i : ℕ) (v : UInt8) : b.store i v = b.copy i [v] := by
  ext j
  · by_cases hj : j = i
    · simp [store, copy, hj]
    · rw [store_of_ne _ _ hj, copy_of_outside _ _ (by rw [List.length_singleton]; omega)]
  · simp [store, copy]

@[simp] theorem copy_nil (b : Buffer) (i : ℕ) : b.copy i [] = b := by
  ext j
  · have : ¬(i ≤ j ∧ j < i) := by omega
    simp [copy, this]
  · simp [copy]

/-- Two adjacent copies are one. -/
theorem copy_copy (b : Buffer) (i : ℕ) (l r : List UInt8) :
    (b.copy i l).copy (i + l.length) r = b.copy i (l ++ r) := by
  ext j
  · simp only [copy, List.length_append]
    by_cases hr : i + l.length ≤ j ∧ j < i + l.length + r.length
    · have hsub : j - (i + l.length) = j - i - l.length := by omega
      rw [if_pos hr, if_pos (by omega), List.getD_append_right _ _ _ _ (by omega), hsub]
    · rw [if_neg hr]
      by_cases hl : i ≤ j ∧ j < i + l.length
      · rw [if_pos hl, if_pos (by omega), List.getD_append _ _ _ _ (by omega)]
      · rw [if_neg hl, if_neg (by omega)]
  · simp only [copy, List.length_append, List.append_eq_nil_iff]
    by_cases hr : r = []
    · by_cases hl : l = [] <;> simp [hr, hl]
    · have : 0 < r.length := List.length_pos_iff.2 hr
      by_cases hl : l = [] <;> simp [hr, hl]
      omega

/-- Storing over the first byte of a copy. -/
theorem copy_cons_store (b : Buffer) (i : ℕ) (x y : UInt8) (l : List UInt8) :
    (b.copy i (x :: l)).store i y = b.copy i (y :: l) := by
  ext j
  · by_cases hj : j = i
    · simp [store, copy, hj]
    · have hsub : j - i = (j - i - 1) + 1 ∨ j < i := by omega
      rcases hsub with hsub | hlt
      · simp only [store, copy, hj, if_false, List.length_cons]
        rw [hsub, List.getD_cons_succ, List.getD_cons_succ]
      · have : ¬(i ≤ j) := by omega
        simp [store, copy, hj, this]
  · simp [store, copy]

/-- The first byte of a copy. -/
theorem copy_cons_self (b : Buffer) (i : ℕ) (x : UInt8) (l : List UInt8) :
    (b.copy i (x :: l)).byte i = x := by
  simp [copy]

theorem top_copy_le {b : Buffer} {i n : ℕ} {l : List UInt8} (hb : b.top ≤ n)
    (hl : i + l.length ≤ n) : (b.copy i l).top ≤ n := by
  unfold copy
  split_ifs <;> simp <;> omega

theorem top_move_le {b : Buffer} {dst src k n : ℕ} (hb : b.top ≤ n) (hk : dst + k ≤ n) :
    (b.move dst src k).top ≤ n := by
  unfold move
  split_ifs <;> simp <;> omega

theorem move_of_outside (b : Buffer) {dst j : ℕ} (src n : ℕ) (h : j < dst ∨ dst + n ≤ j) :
    (b.move dst src n).byte j = b.byte j := by
  have : ¬(dst ≤ j ∧ j < dst + n) := by omega
  simp [move, this]

/-- Moving an area onto itself. -/
theorem move_self (b : Buffer) (p n : ℕ) : (b.move p p n).byte = b.byte := by
  funext j
  by_cases hj : p ≤ j ∧ j < p + n
  · have : p + (j - p) = j := by omega
    simp [move, this]
  · simp [move, hj]

/-- A moved area reads as the source did. -/
theorem readBytes_move (b : Buffer) (dst src n : ℕ) :
    readBytes (b.move dst src n).byte dst n = readBytes b.byte src n := by
  refine List.ext_getElem? fun k => ?_
  by_cases hk : k < n
  · rw [getElem?_readBytes hk, getElem?_readBytes hk]
    simp [move, hk]
  · rw [List.getElem?_eq_none (by simpa using hk), List.getElem?_eq_none (by simpa using hk)]

end Buffer

end ByteMemory
