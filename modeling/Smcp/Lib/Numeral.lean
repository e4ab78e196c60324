import Mathlib.Data.Nat.Digits.Lemmas

/-!
# Decimal numerals

* `IsNumeral text n`: the text is the decimal numeral of `n`, without leading zeros;
* `leastFirst n`: its digits, the least significant one first;
* `isNumeral_reverse`: backwards they are the numeral.
-/

namespace Numeral

/-- The character of a digit. -/
def digitChar (d : ℕ) : UInt8 := UInt8.ofNat (d + 48)

/-- What a sequence of digits stands for. -/
def value (text : List UInt8) : ℕ := text.foldl (fun v b => 10 * v + (b.toNat - 48)) 0

/-- Digits that stand for `n`, the first of them no zero unless it is the only one. -/
structure IsNumeral (text : List UInt8) (n : ℕ) : Prop where
  digits : ∀ b ∈ text, 48 ≤ b ∧ b ≤ 57
  value_eq : value text = n
  nonempty : text ≠ []
  leading : text.head? = some 48 → text = [48]

/-- The digits of a number, the least significant one first. Zero has one digit. -/
def leastFirst (n : ℕ) : List ℕ := if n = 0 then [0] else Nat.digits 10 n

theorem leastFirst_of_lt {n : ℕ} (h : n < 10) : leastFirst n = [n] := by
  unfold leastFirst
  by_cases hzero : n = 0
  · rw [if_pos hzero, hzero]
  · rw [if_neg hzero, Nat.digits_of_lt 10 n hzero h]

theorem leastFirst_of_le {n : ℕ} (h : 10 ≤ n) : leastFirst n = n % 10 :: leastFirst (n / 10) := by
  have hrest : n / 10 ≠ 0 := by omega
  unfold leastFirst
  rw [if_neg (by omega), if_neg hrest, Nat.digits_def' (by decide) (by omega)]

theorem leastFirst_ne_nil (n : ℕ) : leastFirst n ≠ [] := by
  by_cases h : n < 10
  · rw [leastFirst_of_lt h]
    exact List.cons_ne_nil _ _
  · rw [leastFirst_of_le (by omega)]
    exact List.cons_ne_nil _ _

theorem lt_of_mem_leastFirst {n d : ℕ} (h : d ∈ leastFirst n) : d < 10 := by
  unfold leastFirst at h
  split_ifs at h
  · rw [List.mem_singleton.1 h]
    decide
  · exact Nat.digits_lt_base (by decide) h

/-- A number below `10 ^ k` has `k` digits at most. -/
theorem length_leastFirst_le {n k : ℕ} (hk : 0 < k) (h : n < 10 ^ k) : (leastFirst n).length ≤ k := by
  unfold leastFirst
  split_ifs
  · exact hk
  · exact (Nat.digits_length_le_iff (by decide) n).2 h

theorem toNat_digitChar {d : ℕ} (h : d < 10) : (digitChar d).toNat = d + 48 := by
  unfold digitChar
  rw [UInt8.toNat_ofNat']
  omega

/-- Backwards, the digits are the numeral. -/
theorem isNumeral_reverse (n : ℕ) : IsNumeral ((leastFirst n).map digitChar).reverse n where
  digits := by
    intro b hb
    rw [List.mem_reverse, List.mem_map] at hb
    obtain ⟨d, hd, rfl⟩ := hb
    have hlt := lt_of_mem_leastFirst hd
    rw [UInt8.le_iff_toNat_le, UInt8.le_iff_toNat_le, toNat_digitChar hlt]
    show 48 ≤ d + 48 ∧ d + 48 ≤ 57
    omega
  value_eq := by
    -- the digits are taken off from the end
    have hfold (ds : List ℕ) (hds : ∀ d ∈ ds, d < 10) :
        value (ds.map digitChar).reverse = Nat.ofDigits 10 ds := by
      unfold value
      rw [List.foldl_reverse]
      induction ds with
      | nil => rfl
      | cons d ds ih =>
        have hd := toNat_digitChar (hds d List.mem_cons_self)
        have hrest := ih fun d' hd' => hds d' (List.mem_cons_of_mem d hd')
        rw [List.map_cons, List.foldr_cons, hrest, hd, Nat.ofDigits_cons]
        omega
    rw [hfold _ fun d hd => lt_of_mem_leastFirst hd]
    unfold leastFirst
    split_ifs with hzero
    · rw [hzero]
      rfl
    · exact Nat.ofDigits_digits 10 n
  nonempty := by
    intro hnil
    rw [List.reverse_eq_nil_iff, List.map_eq_nil_iff] at hnil
    exact leastFirst_ne_nil n hnil
  leading := by
    intro hhead
    by_cases hlt : n < 10
    · rw [leastFirst_of_lt hlt] at hhead ⊢
      exact congrArg (fun b => [b]) (Option.some.inj hhead)
    · -- the most significant digit is no zero
      have hne : n ≠ 0 := by omega
      have hdigits : leastFirst n = Nat.digits 10 n := if_neg hne
      have hlast := Nat.getLast_digit_ne_zero 10 hne
      have hsmall := Nat.digits_lt_base (by decide : 1 < 10)
        (List.getLast_mem (Nat.digits_ne_nil_iff_ne_zero.2 hne))
      rw [hdigits, List.head?_reverse, List.getLast?_map,
        List.getLast?_eq_some_getLast (Nat.digits_ne_nil_iff_ne_zero.2 hne), Option.map_some,
        Option.some.injEq] at hhead
      have hnat := congrArg UInt8.toNat hhead
      rw [toNat_digitChar hsmall] at hnat
      have hfortyeight : (48 : UInt8).toNat = 48 := rfl
      omega

end Numeral
