import Mathlib.Data.Nat.Notation
import Mathlib.Data.Int.Basic
import Mathlib.Data.List.Basic

/-!
# C strings

Strings that end with a `NUL` byte, given without it, and the comparison functions of the C
library, which return the difference of the first bytes that differ.

* `strcmp_swap`, `strcmp_eq_zero_iff`, `strcmp_trans`: `strcmp` orders the strings;
* `strncmp_eq_or` and `strncmp_of_length_lt`: `strncmp` against a name that is given by its length.
-/

/-- The bytes of a string in front of its terminator. -/
structure CStr where
  bytes : List UInt8
  noNul : ∀ b ∈ bytes, b ≠ 0

namespace CStr

/-! ## `strcmp` -/

/-- The loop of `strcmp`. The end of a string is read as a `NUL`. -/
def cmp : List UInt8 → List UInt8 → ℤ
  | [], [] => 0
  | [], b :: _ => 0 - b.toNat
  | a :: _, [] => a.toNat - 0
  | a :: s, b :: t => if a = b then cmp s t else (a.toNat : ℤ) - b.toNat

def strcmp (s t : CStr) : ℤ := cmp s.bytes t.bytes

theorem toNat_pos {b : UInt8} (h : b ≠ 0) : 0 < b.toNat := by
  rw [Nat.pos_iff_ne_zero]
  intro hzero
  exact h (UInt8.toNat_inj.1 hzero)

theorem toNat_sub_ne_zero {a b : UInt8} (h : a ≠ b) : (a.toNat : ℤ) - b.toNat ≠ 0 := by
  intro hzero
  apply h
  rw [← UInt8.toNat_inj]
  omega

theorem cmp_self (s : List UInt8) : cmp s s = 0 := by
  induction s with
  | nil => rfl
  | cons a s ih => rw [cmp, if_pos rfl, ih]

theorem cmp_swap (s t : List UInt8) : cmp s t = -cmp t s := by
  induction s generalizing t with
  | nil =>
    cases t with
    | nil => rfl
    | cons b t =>
      rw [cmp, cmp]
      omega
  | cons a s ih =>
    cases t with
    | nil =>
      rw [cmp, cmp]
      omega
    | cons b t =>
      rw [cmp, cmp]
      by_cases h : a = b
      · rw [if_pos h, if_pos h.symm]
        exact ih t
      · rw [if_neg h, if_neg fun h' => h h'.symm]
        omega

theorem cmp_eq_zero {s t : List UInt8} (hs : ∀ b ∈ s, b ≠ 0) (ht : ∀ b ∈ t, b ≠ 0)
    (h : cmp s t = 0) : s = t := by
  induction s generalizing t with
  | nil =>
    cases t with
    | nil => rfl
    | cons b t =>
      have hb := toNat_pos (ht b List.mem_cons_self)
      rw [cmp] at h
      omega
  | cons a s ih =>
    cases t with
    | nil =>
      have ha := toNat_pos (hs a List.mem_cons_self)
      rw [cmp] at h
      omega
    | cons b t =>
      rw [cmp] at h
      by_cases hab : a = b
      · rw [if_pos hab] at h
        rw [hab, ih (fun c hc => hs c (List.mem_cons_of_mem a hc))
          (fun c hc => ht c (List.mem_cons_of_mem b hc)) h]
      · rw [if_neg hab] at h
        exact absurd h (toNat_sub_ne_zero hab)

theorem cmp_trans {s t u : List UInt8} (ht : ∀ b ∈ t, b ≠ 0) (hu : ∀ b ∈ u, b ≠ 0)
    (hst : cmp s t ≤ 0) (htu : cmp t u ≤ 0) : cmp s u ≤ 0 := by
  induction s generalizing t u with
  | nil =>
    cases u with
    | nil => exact Int.le_refl 0
    | cons c u =>
      rw [cmp]
      omega
  | cons a s ih =>
    cases t with
    | nil =>
      -- only the empty string is that small
      cases u with
      | nil => exact hst
      | cons c u =>
        rw [cmp] at hst
        rw [cmp]
        split_ifs with hac
        · have hc := toNat_pos (hu c List.mem_cons_self)
          rw [hac] at hst
          omega
        · omega
    | cons b t =>
      cases u with
      | nil =>
        have hb := toNat_pos (ht b List.mem_cons_self)
        rw [cmp] at htu
        omega
      | cons c u =>
        rw [cmp] at hst htu
        rw [cmp]
        by_cases hab : a = b
        · subst hab
          rw [if_pos rfl] at hst
          by_cases hac : a = c
          · rw [if_pos hac] at htu ⊢
            exact ih (fun d hd => ht d (List.mem_cons_of_mem a hd))
              (fun d hd => hu d (List.mem_cons_of_mem c hd)) hst htu
          · rw [if_neg hac] at htu ⊢
            exact htu
        · rw [if_neg hab] at hst
          have hne := toNat_sub_ne_zero hab
          by_cases hbc : b = c
          · rw [← hbc, if_neg hab]
            exact hst
          · rw [if_neg hbc] at htu
            have hac : a ≠ c := by
              intro hac
              rw [hac] at hst hne
              omega
            rw [if_neg hac]
            omega

theorem strcmp_self (s : CStr) : strcmp s s = 0 := cmp_self s.bytes

theorem strcmp_swap (s t : CStr) : strcmp s t = -strcmp t s := cmp_swap s.bytes t.bytes

theorem strcmp_eq_zero_iff {s t : CStr} : strcmp s t = 0 ↔ s.bytes = t.bytes := by
  constructor
  · exact cmp_eq_zero s.noNul t.noNul
  · intro h
    rw [strcmp, h, cmp_self]

theorem strcmp_trans {s t u : CStr} (hst : strcmp s t ≤ 0) (htu : strcmp t u ≤ 0) :
    strcmp s u ≤ 0 := cmp_trans t.noNul u.noNul hst htu

/-! ## `strncmp` -/

/-- The loop of `strncmp`. -/
def ncmp : List UInt8 → List UInt8 → ℕ → ℤ
  | _, _, 0 => 0
  | [], [], _ + 1 => 0
  | [], b :: _, _ + 1 => 0 - b.toNat
  | a :: _, [], _ + 1 => a.toNat - 0
  | a :: s, b :: t, n + 1 => if a = b then ncmp s t n else (a.toNat : ℤ) - b.toNat

def strncmp (s t : CStr) (n : ℕ) : ℤ := ncmp s.bytes t.bytes n

/-- The first bytes of a string. -/
def take (s : CStr) (n : ℕ) : CStr :=
  ⟨s.bytes.take n, fun b hb => s.noNul b (List.mem_of_mem_take hb)⟩

/-- The result of `strncmp` is that of `strcmp` against the first bytes, or those are the first
bytes of both. -/
theorem ncmp_eq_or {s t : List UInt8} {n : ℕ} (ht : ∀ b ∈ t, b ≠ 0) (hlen : n ≤ t.length) :
    (ncmp s t n = 0 ∧ s.take n = t.take n) ∨
      (ncmp s t n ≠ 0 ∧ cmp s (t.take n) = ncmp s t n) := by
  induction n generalizing s t with
  | zero => exact .inl ⟨by rw [ncmp], rfl⟩
  | succ n ih =>
    cases t with
    | nil => exact absurd hlen (by simp)
    | cons b t =>
      have hb := toNat_pos (ht b List.mem_cons_self)
      cases s with
      | nil =>
        right
        rw [ncmp, List.take_succ_cons, cmp]
        exact ⟨by omega, rfl⟩
      | cons a s =>
        rw [ncmp, List.take_succ_cons, List.take_succ_cons, cmp]
        by_cases hab : a = b
        · rw [if_pos hab, if_pos hab, hab, List.cons.injEq, and_iff_right rfl]
          exact ih (fun c hc => ht c (List.mem_cons_of_mem b hc)) (by simpa using hlen)
        · rw [if_neg hab, if_neg hab]
          exact .inr ⟨toNat_sub_ne_zero hab, rfl⟩

theorem strncmp_eq_or {s t : CStr} {n : ℕ} (hlen : n ≤ t.bytes.length) :
    (strncmp s t n = 0 ∧ s.bytes.take n = t.bytes.take n) ∨
      (strncmp s t n ≠ 0 ∧ strcmp s (t.take n) = strncmp s t n) := ncmp_eq_or t.noNul hlen

/-- `strncmp` stops at the terminator. -/
theorem ncmp_of_length_lt {s t : List UInt8} {n : ℕ} (hlen : t.length < n) :
    ncmp s t n = cmp s t := by
  induction n generalizing s t with
  | zero => exact absurd hlen (by simp)
  | succ n ih =>
    cases s with
    | nil => cases t <;> rfl
    | cons a s =>
      cases t with
      | nil => rfl
      | cons b t =>
        rw [ncmp, cmp, ih (by simpa using hlen)]

theorem strncmp_of_length_lt {s t : CStr} {n : ℕ} (hlen : t.bytes.length < n) :
    strncmp s t n = strcmp s t := ncmp_of_length_lt hlen

/-- A string that goes on is greater. -/
theorem cmp_take_pos {s : List UInt8} {n : ℕ} (hs : ∀ b ∈ s, b ≠ 0) (hlen : n < s.length) :
    0 < cmp s (s.take n) := by
  induction n generalizing s with
  | zero =>
    cases s with
    | nil => exact absurd hlen (by simp)
    | cons a s =>
      have ha := toNat_pos (hs a List.mem_cons_self)
      rw [List.take_zero, cmp]
      omega
  | succ n ih =>
    cases s with
    | nil => exact absurd hlen (by simp)
    | cons a s =>
      rw [List.take_succ_cons, cmp, if_pos rfl]
      exact ih (fun b hb => hs b (List.mem_cons_of_mem a hb)) (by simpa using hlen)

/-! ## The range of the results -/

/-- The bytes of ASCII strings differ by less than 128. -/
theorem cmp_range_of_ascii {s t : List UInt8} (hs : ∀ b ∈ s, b < 128) (ht : ∀ b ∈ t, b < 128) :
    -127 ≤ cmp s t ∧ cmp s t ≤ 127 := by
  have hbyte (b : UInt8) (h : b < 128) : b.toNat < 128 := h
  induction s generalizing t with
  | nil =>
    cases t with
    | nil => exact ⟨by decide, by decide⟩
    | cons b t =>
      have hb := hbyte b (ht b List.mem_cons_self)
      rw [cmp]
      omega
  | cons a s ih =>
    have ha := hbyte a (hs a List.mem_cons_self)
    cases t with
    | nil =>
      rw [cmp]
      omega
    | cons b t =>
      have hb := hbyte b (ht b List.mem_cons_self)
      rw [cmp]
      split_ifs
      · exact ih (fun c hc => hs c (List.mem_cons_of_mem a hc))
          fun c hc => ht c (List.mem_cons_of_mem b hc)
      · omega

end CStr
