import Smcp.Transaction.Basic

/-!
# Milliseconds and times

`convert_cms_to_timeval` and `convert_timeval_to_cms` of `smcp-timer.c`, one after the other. The
seconds of a `struct timeval` have 64 bits, a `cms_t` has 32.

* `cmsOperations` and `periodOperations`: the results of the operations on 32-bit values, as they
  would be without a bound;
* `convert_cms_roundtrip`: the period comes back when they are computed modulo `2 ^ 32`;
* `convert_cms_iff`: none of them leaves the range exactly when the microseconds do not carry into a
  second that the range does not have.
-/

namespace Smcp

/-! ## Overflow -/

def int32Max : ℤ := 2147483647

/-- The number is a value of a 32-bit signed type. -/
def FitsInt32 (n : ℤ) : Prop := -2147483648 ≤ n ∧ n ≤ int32Max

instance (n : ℤ) : Decidable (FitsInt32 n) := inferInstanceAs (Decidable (_ ∧ _))

/-- The operations of `convert_cms_to_timeval` on the `cms_t`. -/
def cmsOperations (cms : ℤ) : List ℤ :=
  [cms.tdiv 1000, cms.tdiv 1000 * 1000, cms - cms.tdiv 1000 * 1000,
    (cms - cms.tdiv 1000 * 1000).tmod 1000, (cms - cms.tdiv 1000 * 1000).tmod 1000 * 1000]

/-- The operations of `period_between_timevals_in_cms` behind the two casts. -/
def periodOperations (lhs rhs : Timeval) : List ℤ :=
  [int32 (lhs.sec - rhs.sec) * 1000, (int32 (lhs.usec - rhs.usec)).tdiv 1000,
    int32 (int32 (lhs.sec - rhs.sec) * 1000) + (int32 (lhs.usec - rhs.usec)).tdiv 1000]

/-- No operation overflows, on the way to the time and back. -/
def NoOverflow (now : Timeval) (cms : ℤ) : Prop :=
  ∀ n ∈ cmsOperations cms ++ periodOperations (convertCmsToTimeval now cms) now, FitsInt32 n

instance (now : Timeval) (cms : ℤ) : Decidable (NoOverflow now cms) :=
  inferInstanceAs (Decidable (∀ n ∈ _, FitsInt32 n))

theorem int32_eq {n : ℤ} (h : FitsInt32 n) : int32 n = n := by
  unfold FitsInt32 int32Max at h
  unfold int32
  omega

/-! ## To a time and back -/

section
variable {now : Timeval} {cms : ℤ}

/-- The milliseconds carry into a second. -/
def carry (now : Timeval) (cms : ℤ) : ℤ := if now.usec + cms % 1000 * 1000 ≥ 1000000 then 1 else 0

theorem carry_range (now : Timeval) (cms : ℤ) : 0 ≤ carry now cms ∧ carry now cms ≤ 1 := by
  unfold carry
  split_ifs <;> decide

/-- The time is the current one with the seconds and the milliseconds added, and a carry. -/
theorem convertCmsToTimeval_eq (husec : 0 ≤ now.usec ∧ now.usec < 1000000) (hcms : 0 ≤ cms) :
    convertCmsToTimeval now cms =
      ⟨now.sec + cms / 1000 + carry now cms,
        now.usec + cms % 1000 * 1000 - carry now cms * 1000000⟩ := by
  have hdiv : cms.tdiv 1000 = cms / 1000 := Int.tdiv_eq_ediv_of_nonneg hcms
  have hrest : cms - cms / 1000 * 1000 = cms % 1000 := by omega
  have hmod : (cms % 1000).tmod 1000 = cms % 1000 := by
    rw [Int.tmod_eq_emod_of_nonneg (by omega)]
    omega
  have hpos : 0 ≤ now.usec + cms % 1000 * 1000 := by omega
  unfold convertCmsToTimeval carry
  rw [hdiv]
  dsimp only
  rw [hrest, hmod, Int.tdiv_eq_ediv_of_nonneg hpos, Int.tmod_eq_emod_of_nonneg hpos]
  split_ifs
  all_goals
    congr 1 <;> omega

/-- The microseconds that were added are whole milliseconds. -/
theorem usec_tdiv (now : Timeval) (cms : ℤ) :
    (int32 (now.usec + cms % 1000 * 1000 - carry now cms * 1000000 - now.usec)).tdiv 1000 =
      cms % 1000 - carry now cms * 1000 := by
  have hcarry := carry_range now cms
  have hfits : FitsInt32 (now.usec + cms % 1000 * 1000 - carry now cms * 1000000 - now.usec) := by
    unfold FitsInt32 int32Max
    omega
  rw [int32_eq hfits]
  have hmul : now.usec + cms % 1000 * 1000 - carry now cms * 1000000 - now.usec =
      (cms % 1000 - carry now cms * 1000) * 1000 := by
    omega
  rw [hmul]
  exact Int.mul_tdiv_cancel _ (by decide)

/-- The period comes back, and the time has less than a second of microseconds. -/
theorem convert_cms_roundtrip (husec : 0 ≤ now.usec ∧ now.usec < 1000000)
    (hcms : 0 ≤ cms ∧ cms ≤ cmsDistantFuture) :
    convertTimevalToCms now (convertCmsToTimeval now cms) = cms ∧
      0 ≤ (convertCmsToTimeval now cms).usec ∧ (convertCmsToTimeval now cms).usec < 1000000 := by
  have hcarry := carry_range now cms
  unfold cmsDistantFuture at hcms
  rw [convertCmsToTimeval_eq husec hcms.1]
  constructor
  · unfold convertTimevalToCms periodBetweenTimevalsInCms
    dsimp only
    rw [usec_tdiv now cms]
    have hsec : now.sec + cms / 1000 + carry now cms - now.sec = cms / 1000 + carry now cms := by
      omega
    have hfits : FitsInt32 (cms / 1000 + carry now cms) := by
      unfold FitsInt32 int32Max
      omega
    rw [hsec, int32_eq hfits]
    -- the product may leave the range, the sum comes back into it
    have hsum : int32 (int32 ((cms / 1000 + carry now cms) * 1000) +
        (cms % 1000 - carry now cms * 1000)) = cms := by
      unfold int32
      omega
    rw [hsum]
    exact if_neg (by omega)
  · dsimp only
    unfold carry
    split_ifs <;> omega

/-- Converting a period to a time and back gives the period, with a normal time and without overflow,
exactly when the microseconds do not carry into the second 2147484. -/
theorem convert_cms_iff (husec : 0 ≤ now.usec ∧ now.usec < 1000000)
    (hcms : 0 ≤ cms ∧ cms ≤ cmsDistantFuture) :
    (convertTimevalToCms now (convertCmsToTimeval now cms) = cms ∧
      (0 ≤ (convertCmsToTimeval now cms).usec ∧ (convertCmsToTimeval now cms).usec < 1000000) ∧
      NoOverflow now cms) ↔
    ¬(2147483000 ≤ cms ∧ 1000000 ≤ now.usec + cms % 1000 * 1000) := by
  obtain ⟨hback, hnormal⟩ := convert_cms_roundtrip husec hcms
  -- the carry is 0 or 1, by the microseconds
  have hcarry := carry_range now cms
  unfold cmsDistantFuture at hcms
  -- the divisions of C round to zero, and these are of positive numbers
  have hdiv : cms.tdiv 1000 = cms / 1000 := Int.tdiv_eq_ediv_of_nonneg hcms.1
  have hrest : cms - cms / 1000 * 1000 = cms % 1000 := by omega
  have hmod : (cms % 1000).tmod 1000 = cms % 1000 := by
    rw [Int.tmod_eq_emod_of_nonneg (by omega)]
    omega
  -- the seconds of the result, as the conversion back sees them
  have hsec : now.sec + cms / 1000 + carry now cms - now.sec = cms / 1000 + carry now cms := by
    omega
  have hfits : FitsInt32 (cms / 1000 + carry now cms) := by
    unfold FitsInt32 int32Max
    omega
  -- what has to fit is the product of those seconds
  have hoverflow : NoOverflow now cms ↔ FitsInt32 ((cms / 1000 + carry now cms) * 1000) := by
    unfold NoOverflow cmsOperations periodOperations
    rw [hdiv, hrest, hmod, convertCmsToTimeval_eq husec hcms.1]
    dsimp only
    rw [usec_tdiv now cms, hsec, int32_eq hfits]
    simp only [List.cons_append, List.nil_append, List.forall_mem_cons]
    constructor
    · intro h
      exact h.2.2.2.2.2.1
    · intro hproduct
      rw [int32_eq hproduct]
      unfold FitsInt32 int32Max at hproduct ⊢
      refine ⟨by omega, by omega, by omega, by omega, by omega, by omega, by omega, by omega, ?_⟩
      simp
  rw [and_iff_right hback, and_iff_right hnormal, hoverflow]
  unfold FitsInt32 int32Max carry
  split_ifs <;> omega

end

theorem convert_cms_hour :
    convertTimevalToCms ⟨1700000000, 999999⟩ (convertCmsToTimeval ⟨1700000000, 999999⟩ 3600001) =
      3600001 ∧ NoOverflow ⟨1700000000, 999999⟩ 3600001 := by
  have husec : 0 ≤ (⟨1700000000, 999999⟩ : Timeval).usec ∧
      (⟨1700000000, 999999⟩ : Timeval).usec < 1000000 := by decide
  have hcms : 0 ≤ (3600001 : ℤ) ∧ (3600001 : ℤ) ≤ cmsDistantFuture := by decide
  have h := (convert_cms_iff husec hcms).2 (by decide)
  exact ⟨h.1, h.2.2⟩

/-- From the distant future, seven tenths of a second after a full one. -/
theorem convert_cms_overflows :
    ¬∀ now : Timeval, 0 ≤ now.usec ∧ now.usec < 1000000 → ∀ cms, 0 ≤ cms ∧ cms ≤ cmsDistantFuture →
      convertTimevalToCms now (convertCmsToTimeval now cms) = cms ∧
        (0 ≤ (convertCmsToTimeval now cms).usec ∧ (convertCmsToTimeval now cms).usec < 1000000) ∧
        NoOverflow now cms := by
  intro h
  have hall := h ⟨1700000000, 700000⟩ (by decide) cmsDistantFuture (by decide)
  exact absurd hall.2.2 (by decide)

end Smcp
