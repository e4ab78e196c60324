import Mathlib.Algebra.Ring.GeomSum
import Mathlib.NumberTheory.Multiplicity

/-!
# Linear congruential generators

The generator `x ↦ a x + c` modulo `2 ^ n`, with `a` congruent to 1 modulo 4 and `c` odd. From any
point it runs through all residues before it comes back.

* `iterate_zero_inj`, `exists_iterate_zero`: the orbit of 0;
* `Precedes x y`: on the way from 0 back to 0, `x` is `y` or comes before it. A generator that
  starts over at 0 gives no value twice on the way: `Precedes.next_ne`, `Precedes.next`.
-/

namespace Congruential

open Finset

/-- One step of the generator. -/
def next (a c m x : ℕ) : ℕ := (x * a + c) % m

section
variable {a c m n : ℕ}

/-- The orbit of 0 is made of geometric sums. -/
theorem iterate_zero_eq (a c m k : ℕ) :
    (next a c m)^[k] 0 = c * (∑ i ∈ range k, a ^ i) % m := by
  induction k with
  | zero => simp
  | succ k ih =>
    have hsum : c * ∑ i ∈ range (k + 1), a ^ i = c * (∑ i ∈ range k, a ^ i) * a + c := by
      rw [geom_sum_succ]
      ring
    rw [Function.iterate_succ_apply', ih, next, hsum, Nat.add_mod, Nat.mod_mul_mod, ← Nat.add_mod]

/-- A power of two divides a geometric sum as often as it divides the number of its terms. -/
theorem two_pow_dvd_geom_sum (ha : 4 ∣ a - 1) (h1 : 1 < a) (n k : ℕ) :
    2 ^ n ∣ ∑ i ∈ range k, a ^ i ↔ 2 ^ n ∣ k := by
  have hsub : ((a - 1 : ℕ) : ℤ) = (a : ℤ) - 1 := by omega
  have hodd : ¬(2 : ℤ) ∣ (a : ℤ) := by omega
  have hlift := Int.two_pow_sub_pow' (x := a) (y := 1) k (by rw [← hsub]; exact_mod_cast ha) hodd
  have hfin : emultiplicity (2 : ℤ) ((a : ℤ) - 1) ≠ ⊤ := by
    rw [Ne, emultiplicity_eq_top, not_not, Int.finiteMultiplicity_iff]
    omega
  rw [one_pow, ← geom_sum_mul, emultiplicity_mul Int.prime_two, add_comm] at hlift
  have heq : emultiplicity (2 : ℤ) (∑ i ∈ range k, (a : ℤ) ^ i) = emultiplicity (2 : ℤ) k :=
    ENat.add_right_injective_of_ne_top hfin hlift
  have hz : (2 : ℤ) ^ n ∣ ∑ i ∈ range k, (a : ℤ) ^ i ↔ (2 : ℤ) ^ n ∣ (k : ℤ) := by
    rw [pow_dvd_iff_le_emultiplicity, pow_dvd_iff_le_emultiplicity, heq]
  exact_mod_cast hz

/-- Different numbers of steps from 0 lead to different values. -/
theorem iterate_zero_inj (ha : 4 ∣ a - 1) (h1 : 1 < a) (hc : Odd c) {j k : ℕ} (hj : j < 2 ^ n)
    (hk : k < 2 ^ n) (h : (next a c (2 ^ n))^[j] 0 = (next a c (2 ^ n))^[k] 0) : j = k := by
  wlog hle : j ≤ k generalizing j k with hsymm
  · exact (hsymm hk hj h.symm (by omega)).symm
  rw [iterate_zero_eq, iterate_zero_eq] at h
  have hsplit : ∑ i ∈ range k, a ^ i =
      ∑ i ∈ range j, a ^ i + a ^ j * ∑ i ∈ range (k - j), a ^ i := by
    conv_lhs => rw [show k = j + (k - j) by omega, sum_range_add]
    simp [pow_add, mul_sum]
  have hdvd : 2 ^ n ∣ c * a ^ j * ∑ i ∈ range (k - j), a ^ i := by
    rw [hsplit, Nat.mul_add] at h
    have hzero := (Nat.modEq_iff_dvd' (Nat.le_add_right _ _)).1 h
    rwa [Nat.add_sub_cancel_left, ← Nat.mul_assoc] at hzero
  have hcop : Nat.Coprime (2 ^ n) (c * a ^ j) := by
    have hodd : Odd a := by
      rw [Nat.odd_iff]
      omega
    exact Nat.Coprime.pow_left _ (Nat.coprime_two_left.2 (hc.mul hodd.pow))
  have hmul := (two_pow_dvd_geom_sum ha h1 n (k - j)).1 (hcop.dvd_of_dvd_mul_left hdvd)
  have hzero := Nat.eq_zero_of_dvd_of_lt hmul (by omega)
  omega

/-- Every value is reached from 0. -/
theorem exists_iterate_zero (ha : 4 ∣ a - 1) (h1 : 1 < a) (hc : Odd c) {x : ℕ} (hx : x < 2 ^ n) :
    ∃ k < 2 ^ n, (next a c (2 ^ n))^[k] 0 = x := by
  have hmaps : ∀ k ∈ range (2 ^ n), (next a c (2 ^ n))^[k] 0 ∈ range (2 ^ n) := by
    intro k _
    rw [iterate_zero_eq, mem_range]
    exact Nat.mod_lt _ (by positivity)
  have hinj : ∀ j ∈ range (2 ^ n), ∀ k ∈ range (2 ^ n),
      (next a c (2 ^ n))^[j] 0 = (next a c (2 ^ n))^[k] 0 → j = k := by
    intro j hj k hk
    exact iterate_zero_inj ha h1 hc (mem_range.1 hj) (mem_range.1 hk)
  obtain ⟨k, hk, rfl⟩ := Finset.surj_on_of_inj_on_of_card_le (fun k _ => (next a c (2 ^ n))^[k] 0)
    hmaps (fun j k hj hk => hinj j hj k hk) le_rfl x (mem_range.2 hx)
  exact ⟨k, mem_range.1 hk, rfl⟩

/-- After a full round the generator is back at 0. -/
theorem iterate_full (ha : 4 ∣ a - 1) (h1 : 1 < a) (c n : ℕ) :
    (next a c (2 ^ n))^[2 ^ n] 0 = 0 := by
  rw [iterate_zero_eq]
  exact Nat.mod_eq_zero_of_dvd (((two_pow_dvd_geom_sum ha h1 n _).2 dvd_rfl).mul_left c)

/-! ## Between two zeros -/

/-- On the way from 0 back to 0, both excluded, `x` is `y` or comes before it. -/
def Precedes (a c n x y : ℕ) : Prop :=
  ∃ i j, 0 < i ∧ i ≤ j ∧ j < 2 ^ n ∧ (next a c (2 ^ n))^[i] 0 = x ∧ (next a c (2 ^ n))^[j] 0 = y

variable {x y : ℕ}

theorem precedes_self (ha : 4 ∣ a - 1) (h1 : 1 < a) (hc : Odd c) (hx : x < 2 ^ n) (h0 : x ≠ 0) :
    Precedes a c n x x := by
  obtain ⟨k, hk, rfl⟩ := exists_iterate_zero ha h1 hc hx
  refine ⟨k, k, Nat.pos_of_ne_zero ?_, le_rfl, hk, rfl, rfl⟩
  rintro rfl
  exact h0 rfl

/-- The next value is none of those that came before. -/
theorem Precedes.next_ne (h : Precedes a c n x y) (ha : 4 ∣ a - 1) (h1 : 1 < a) (hc : Odd c) :
    x ≠ next a c (2 ^ n) y := by
  obtain ⟨i, j, hi, hij, hj, rfl, rfl⟩ := h
  rw [← Function.iterate_succ_apply' (next a c (2 ^ n))]
  intro heq
  rcases Nat.lt_or_ge (j + 1) (2 ^ n) with hlt | hge
  · have := iterate_zero_inj ha h1 hc (by omega) hlt heq
    omega
  · rw [show j.succ = 2 ^ n by omega, iterate_full ha h1] at heq
    have := iterate_zero_inj (k := 0) ha h1 hc (by omega) (by omega) heq
    omega

theorem Precedes.next (h : Precedes a c n x y) (ha : 4 ∣ a - 1) (h1 : 1 < a)
    (h0 : next a c (2 ^ n) y ≠ 0) : Precedes a c n x (next a c (2 ^ n) y) := by
  obtain ⟨i, j, hi, hij, hj, rfl, rfl⟩ := h
  rw [← Function.iterate_succ_apply' (Congruential.next a c (2 ^ n))] at h0 ⊢
  refine ⟨i, j + 1, hi, by omega, ?_, rfl, rfl⟩
  by_contra hge
  rw [show j.succ = 2 ^ n by omega] at h0
  exact h0 (iterate_full ha h1 c n)

end

end Congruential
