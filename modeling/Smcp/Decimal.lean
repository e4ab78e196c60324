import Smcp.Lib.Memory
import Smcp.Lib.Numeral

/-!
# Decimal numerals

`uint32_to_dec_cstr` and `int32_to_dec_cstr` of `string-utils.c`.

* `generateDigits_eq`: the first loop stores the digits, the least significant one first;
* `reverseDigits_byte`: the second loop turns them round;
* `uint32ToDecCstr_numeral` and `decimals_iff`: what the functions leave.

The functions write to a buffer, from the address `s` on.
-/

namespace Smcp

open ByteMemory Numeral

/-! ## The functions -/

/-- The first loop of `uint32_to_dec_cstr`. It returns the index behind the digits. -/
def generateDigits (s : ℕ) (b : Buffer) (i : UInt8) (n : UInt32) : Buffer × UInt8 :=
  let b := b.store (s + i.toNat) (UInt8.ofNat ((n % 10).toNat + 48))
  let i := i + 1
  if 0 < n / 10 then generateDigits s b i (n / 10) else (b, i)
termination_by n.toNat
decreasing_by
  have hpos : 0 < (n / 10).toNat := by assumption
  have hdiv : (n / 10).toNat = n.toNat / 10 := UInt32.toNat_div n 10
  omega

/-- The second loop, which exchanges the digits at `j` and `i`. -/
def reverseDigits (s : ℕ) (b : Buffer) (j i : UInt8) : Buffer :=
  if j < i then
    let x := b.byte (s + j.toNat)
    let b := b.store (s + j.toNat) (b.byte (s + i.toNat))
    let b := b.store (s + i.toNat) x
    reverseDigits s b (j + 1) (i - 1)
  else b
termination_by i.toNat - j.toNat
decreasing_by
  have hlt : j.toNat < i.toNat := by assumption
  have hi := i.toNat_lt
  have hsub : (i - 1).toNat = i.toNat - 1 :=
    UInt8.toNat_sub_of_le i 1 (by show 1 ≤ i.toNat; omega)
  have hadd : (j + 1).toNat = (j.toNat + 1) % 256 := UInt8.toNat_add j 1
  omega

/-- `uint32_to_dec_cstr`. -/
def uint32ToDecCstr (s : ℕ) (b : Buffer) (n : UInt32) : Buffer :=
  let r := generateDigits s b 0 n
  reverseDigits s (r.1.store (s + r.2.toNat) 0) 0 (r.2 - 1)

/-- What `int32_to_dec_cstr` leaves, and whether the negation overflowed. -/
structure SignedDecimal where
  buffer : Buffer
  overflow : Bool

/-- `int32_to_dec_cstr`. The negation is one of signed numbers; its result is converted then. -/
def int32ToDecCstr (s : ℕ) (b : Buffer) (n : Int32) : SignedDecimal :=
  if n < 0 then
    let b := b.store s 45
    ⟨uint32ToDecCstr (s + 1) b (-n).toUInt32, n = Int32.minValue⟩
  else ⟨uint32ToDecCstr s b n.toUInt32, false⟩

/-! ## The digits -/

section
variable {s : ℕ}

/-- The first loop stores the digits, the least significant one first. -/
theorem generateDigits_eq (b : Buffer) (i : UInt8) (n : UInt32)
    (hroom : i.toNat + (leastFirst n.toNat).length < 256) :
    (generateDigits s b i n).1 =
        b.copy (s + i.toNat) ((leastFirst n.toNat).map digitChar) ∧
      (generateDigits s b i n).2.toNat = i.toNat + (leastFirst n.toNat).length := by
  -- the machine's operations are those of the natural numbers, as long as the index does not wrap
  have hdiv : (n / 10).toNat = n.toNat / 10 := UInt32.toNat_div n 10
  have hmod : (n % 10).toNat = n.toNat % 10 := UInt32.toNat_mod n 10
  have hnext : (i + 1).toNat = (i.toNat + 1) % 256 := UInt8.toNat_add i 1
  have hlen := List.length_pos_iff.2 (leastFirst_ne_nil n.toNat)
  rw [Nat.mod_eq_of_lt (by omega)] at hnext
  rw [generateDigits, hmod, Buffer.store_eq_copy]
  -- more digits are to come, or this was the last one
  by_cases hmore : 0 < n / 10
  · have hpos : 0 < n.toNat / 10 := by
      rw [← hdiv]
      exact hmore
    have hdigits := leastFirst_of_le (n := n.toNat) (by omega)
    have hrest : (leastFirst n.toNat).length = (leastFirst (n.toNat / 10)).length + 1 := by
      rw [hdigits, List.length_cons]
    obtain ⟨hbuffer, hindex⟩ := generateDigits_eq
      (b.copy (s + i.toNat) [UInt8.ofNat (n.toNat % 10 + 48)]) (i + 1) (n / 10)
      (by rw [hdiv, hnext]; omega)
    rw [if_pos hmore, hbuffer, hindex, hdiv, hnext, hrest, hdigits, List.map_cons]
    have hadjacent := b.copy_copy (s + i.toNat) [UInt8.ofNat (n.toNat % 10 + 48)]
      ((leastFirst (n.toNat / 10)).map digitChar)
    rw [List.length_singleton, Nat.add_assoc] at hadjacent
    exact ⟨hadjacent, by omega⟩
  · have hzero : ¬0 < n.toNat / 10 := by
      rw [← hdiv]
      exact hmore
    have hsmall : n.toNat < 10 := by omega
    rw [if_neg hmore, leastFirst_of_lt hsmall, Nat.mod_eq_of_lt hsmall]
    exact ⟨rfl, hnext⟩
termination_by n.toNat
decreasing_by omega

/-- The second loop turns the bytes from `j` to `i` round, and writes nothing else. -/
theorem reverseDigits_byte (b : Buffer) (j i : UInt8) (p : ℕ) :
    (reverseDigits s b j i).byte p =
      if s + j.toNat ≤ p ∧ p ≤ s + i.toNat then b.byte (s + j.toNat + (s + i.toNat) - p)
      else b.byte p := by
  rw [reverseDigits]
  by_cases hlt : j < i
  · have hlt' : j.toNat < i.toNat := hlt
    have hi := i.toNat_lt
    have hsub : (i - 1).toNat = i.toNat - 1 :=
      UInt8.toNat_sub_of_le i 1 (by show 1 ≤ i.toNat; omega)
    have hadd : (j + 1).toNat = (j.toNat + 1) % 256 := UInt8.toNat_add j 1
    rw [Nat.mod_eq_of_lt (by omega)] at hadd
    rw [if_pos hlt]
    dsimp only
    rw [reverseDigits_byte, hsub, hadd]
    simp only [Buffer.store]
    -- the ends, what is between them, and the rest
    by_cases hfirst : p = s + j.toNat
    · rw [if_neg (by omega), if_neg (by omega), if_pos hfirst, if_pos (by omega)]
      congr 1
      omega
    · by_cases hlast : p = s + i.toNat
      · rw [if_neg (by omega), if_pos hlast, if_pos (by omega)]
        congr 1
        omega
      · by_cases hmiddle : s + j.toNat ≤ p ∧ p ≤ s + i.toNat
        · rw [if_pos (by omega), if_neg (by omega), if_neg (by omega), if_pos hmiddle]
          congr 1
          omega
        · rw [if_neg (by omega), if_neg hlast, if_neg hfirst, if_neg hmiddle]
  · have hle : i.toNat ≤ j.toNat := Nat.le_of_not_lt hlt
    rw [if_neg hlt]
    split_ifs with hp
    · congr 1
      omega
    · rfl
termination_by i.toNat - j.toNat
decreasing_by omega

theorem reverseDigits_top (b : Buffer) (j i : UInt8) (htop : s + i.toNat < b.top) :
    (reverseDigits s b j i).top = b.top := by
  rw [reverseDigits]
  by_cases hlt : j < i
  · have hlt' : j.toNat < i.toNat := hlt
    have hi := i.toNat_lt
    have hsub : (i - 1).toNat = i.toNat - 1 :=
      UInt8.toNat_sub_of_le i 1 (by show 1 ≤ i.toNat; omega)
    have hadd : (j + 1).toNat = (j.toNat + 1) % 256 := UInt8.toNat_add j 1
    rw [if_pos hlt]
    dsimp only
    rw [reverseDigits_top]
    · simp only [Buffer.store]
      omega
    · simp only [Buffer.store]
      omega
  · rw [if_neg hlt]
termination_by i.toNat - j.toNat
decreasing_by omega

/-! ## The numerals -/

/-- `n` is written from the address `s` on, with a terminator, in `size` bytes at most. -/
structure Decimal (b b' : Buffer) (s size : ℕ) (text : List UInt8) : Prop where
  bytes : readBytes b'.byte s (text.length + 1) = text ++ [0]
  frame : ∀ p, p < s ∨ s + size ≤ p → b'.byte p = b.byte p
  top_le : b'.top ≤ max b.top (s + size)

/-- `uint32_to_dec_cstr` leaves the numeral of its argument. -/
theorem uint32ToDecCstr_numeral (b : Buffer) (n : UInt32) :
    ∃ text, IsNumeral text n.toNat ∧ Decimal b (uint32ToDecCstr s b n) s 11 text := by
  have hn := n.toNat_lt
  have hlen : (leastFirst n.toNat).length ≤ 10 := length_leastFirst_le (by decide) (by omega)
  have hpos := List.length_pos_iff.2 (leastFirst_ne_nil n.toNat)
  obtain ⟨hbuffer, hindex⟩ := generateDigits_eq (s := s) b 0 n
    (by rw [UInt8.toNat_zero]; omega)
  rw [UInt8.toNat_zero, Nat.add_zero] at hbuffer
  rw [UInt8.toNat_zero, Nat.zero_add] at hindex
  have hlast : ((generateDigits s b 0 n).2 - 1).toNat = (leastFirst n.toNat).length - 1 := by
    have hone : (1 : UInt8) ≤ (generateDigits s b 0 n).2 := by
      show 1 ≤ (generateDigits s b 0 n).2.toNat
      omega
    rw [UInt8.toNat_sub_of_le _ 1 hone, hindex]
    rfl
  set ds := (leastFirst n.toNat).map digitChar with hds
  have hlends : ds.length = (leastFirst n.toNat).length := List.length_map _
  rw [← hlends] at hlen hpos hindex hlast
  -- the digits and the terminator, before they are turned round
  have hstored : (generateDigits s b 0 n).1.store (s + (generateDigits s b 0 n).2.toNat) 0 =
      b.copy s (ds ++ [0]) := by
    rw [hbuffer, hindex, Buffer.store_eq_copy, Buffer.copy_copy]
  have hbyte (p : ℕ) : (uint32ToDecCstr s b n).byte p =
      if s ≤ p ∧ p < s + ds.length then ds.getD (s + ds.length - 1 - p) 0
      else (b.copy s (ds ++ [0])).byte p := by
    unfold uint32ToDecCstr
    dsimp only
    rw [hstored, reverseDigits_byte, hlast, UInt8.toNat_zero, Nat.add_zero]
    by_cases hp : s ≤ p ∧ p < s + ds.length
    · have hinside : s ≤ s + (s + (ds.length - 1)) - p ∧
          s + (s + (ds.length - 1)) - p < s + (ds ++ [0]).length := by
        rw [List.length_append, List.length_singleton]
        omega
      rw [if_pos (by omega), if_pos hp]
      simp only [Buffer.copy]
      rw [if_pos hinside, List.getD_append _ _ _ _ (by omega)]
      congr 1
      omega
    · rw [if_neg (by omega), if_neg hp]
  have hcopied : (ds ++ [0]).length = ds.length + 1 := by simp
  refine ⟨ds.reverse, isNumeral_reverse n.toNat, ?_, ?_, ?_⟩
  · apply List.ext_getElem?
    intro k
    rw [List.length_reverse]
    by_cases hk : k < ds.length
    · rw [getElem?_readBytes (by omega), hbyte, if_pos (by omega),
        List.getElem?_append_left (by rw [List.length_reverse]; exact hk),
        List.getElem?_reverse hk, List.getElem?_eq_getElem (by omega : ds.length - 1 - k < ds.length)]
      have hsub : s + ds.length - 1 - (s + k) = ds.length - 1 - k := by omega
      rw [hsub, List.getD_eq_getElem?_getD, List.getElem?_eq_getElem (by omega), Option.getD_some]
    · by_cases hend : k = ds.length
      · have hterminator : (b.copy s (ds ++ [0])).byte (s + k) = 0 := by
          simp only [Buffer.copy]
          rw [if_pos (by omega), Nat.add_sub_cancel_left, hend, List.getD_append_right _ _ _ _ (by omega),
            Nat.sub_self]
          rfl
        rw [getElem?_readBytes (by omega), hbyte, if_neg (by omega), hterminator,
          List.getElem?_append_right (by rw [List.length_reverse]; omega), List.length_reverse, hend,
          Nat.sub_self]
        rfl
      · rw [List.getElem?_eq_none (by rw [length_readBytes]; omega),
          List.getElem?_eq_none (by rw [List.length_append, List.length_reverse]; simp; omega)]
  · intro p hp
    rw [hbyte, if_neg (by omega), Buffer.copy_of_outside _ _ (by omega)]
  · unfold uint32ToDecCstr
    dsimp only
    have htop : (b.copy s (ds ++ [0])).top = max b.top (s + (ds.length + 1)) := by
      simp only [Buffer.copy]
      rw [if_neg (by simp), hcopied]
    rw [hstored, reverseDigits_top _ _ _ (by rw [hlast, htop]; omega), htop]
    omega

/-- The conversion to an unsigned number takes a negative number to its absolute value. -/
theorem toNat_neg {n : Int32} (h : n < 0) : (-n).toUInt32.toNat = n.toInt.natAbs := by
  have hneg : n.toInt < 0 := Int32.lt_iff_toInt_lt.1 h
  have hint : n.toInt = n.toBitVec.toInt := rfl
  have hbits : (-n).toUInt32.toNat = (-n.toBitVec).toNat := rfl
  have hlt := n.toBitVec.isLt
  rw [hint] at hneg ⊢
  rw [BitVec.toInt_eq_toNat_cond] at hneg ⊢
  rw [hbits, BitVec.toNat_neg]
  split_ifs at hneg ⊢ <;> omega

theorem toNat_nonneg {n : Int32} (h : ¬n < 0) : n.toUInt32.toNat = n.toInt.natAbs := by
  have hnonneg : ¬n.toInt < 0 := fun hlt => h (Int32.lt_iff_toInt_lt.2 hlt)
  have hint : n.toInt = n.toBitVec.toInt := rfl
  have hbits : n.toUInt32.toNat = n.toBitVec.toNat := rfl
  have hlt := n.toBitVec.isLt
  rw [hint] at hnonneg ⊢
  rw [BitVec.toInt_eq_toNat_cond] at hnonneg ⊢
  rw [hbits]
  split_ifs at hnonneg ⊢ <;> omega

/-- The sign is in front of what `uint32_to_dec_cstr` leaves. -/
theorem Decimal.signed {b b' : Buffer} {text : List UInt8}
    (h : Decimal (b.store s 45) b' (s + 1) 11 text) : Decimal b b' s 12 (45 :: text) where
  bytes := by
    have hsign : b'.byte s = 45 := by
      rw [h.frame s (by omega), Buffer.store_self]
    rw [List.length_cons, readBytes, hsign, h.bytes, List.cons_append]
  frame := by
    intro p hp
    rw [h.frame p (by omega), Buffer.store_of_ne b 45 (by omega)]
  top_le := by
    have htop := h.top_le
    simp only [Buffer.store] at htop
    omega

/-- `int32_to_dec_cstr` leaves the numeral of the absolute value behind the sign. -/
theorem int32ToDecCstr_numeral (b : Buffer) (n : Int32) :
    ∃ text, IsNumeral text n.toInt.natAbs ∧
      Decimal b (int32ToDecCstr s b n).buffer s 12 ((if n < 0 then [45] else []) ++ text) := by
  unfold int32ToDecCstr
  by_cases hneg : n < 0
  · obtain ⟨text, htext, hdecimal⟩ :=
      uint32ToDecCstr_numeral (s := s + 1) (b.store s 45) (-n).toUInt32
    rw [toNat_neg hneg] at htext
    rw [if_pos hneg, if_pos hneg]
    exact ⟨text, htext, hdecimal.signed⟩
  · obtain ⟨text, htext, hbytes, hframe, htop⟩ :=
      uint32ToDecCstr_numeral (s := s) b n.toUInt32
    rw [toNat_nonneg hneg] at htext
    rw [if_neg hneg, if_neg hneg]
    exact ⟨text, htext, hbytes, fun p hp => hframe p (by omega), htop.trans (by omega)⟩

/-- Both functions leave the numeral in 11 and 12 bytes, and the negation overflows for the least
number only. -/
theorem decimals_iff (s : ℕ) (b : Buffer) (m : UInt32) (n : Int32) :
    ((∃ text, IsNumeral text m.toNat ∧ Decimal b (uint32ToDecCstr s b m) s 11 text) ∧
        (∃ text, IsNumeral text n.toInt.natAbs ∧
          Decimal b (int32ToDecCstr s b n).buffer s 12 ((if n < 0 then [45] else []) ++ text)) ∧
        (int32ToDecCstr s b n).overflow = false) ↔ n ≠ Int32.minValue := by
  rw [and_iff_right (uint32ToDecCstr_numeral b m), and_iff_right (int32ToDecCstr_numeral b n)]
  unfold int32ToDecCstr
  by_cases hneg : n < 0
  · rw [if_pos hneg]
    exact decide_eq_false_iff_not
  · rw [if_neg hneg]
    refine iff_of_true rfl ?_
    intro hmin
    rw [hmin] at hneg
    exact hneg (by decide)

/-- The least number overflows. -/
theorem decimals_minValue :
    ¬∀ (s : ℕ) (b : Buffer) (m : UInt32) (n : Int32),
      (∃ text, IsNumeral text m.toNat ∧ Decimal b (uint32ToDecCstr s b m) s 11 text) ∧
        (∃ text, IsNumeral text n.toInt.natAbs ∧
          Decimal b (int32ToDecCstr s b n).buffer s 12 ((if n < 0 then [45] else []) ++ text)) ∧
        (int32ToDecCstr s b n).overflow = false := by
  intro hclaim
  have hnone := (hclaim 0 ⟨fun _ => 0, 0⟩ 0 Int32.minValue).2.2
  unfold int32ToDecCstr at hnone
  rw [if_pos (by decide)] at hnone
  exact absurd hnone (by decide)

end

end Smcp
