import Mathlib.Algebra.BigOperators.Fin
import Mathlib.Algebra.Order.BigOperators.Group.Finset
import Mathlib.Algebra.Order.Group.Unbundled.Int
import Plusfish.HtmlFingerprint

namespace plusfish

namespace HtmlFingerprint

/-- The counter of a bucket, as a number. -/
def counter (fp : HtmlFingerprint) (i : Fin 16) : ℤ := fp.wordSizeCnt[i].toNat

/-- The buckets that differ by more than five percent. -/
def failedBuckets (a b : Fin 16 → ℤ) : Finset (Fin 16) :=
  Finset.univ.filter fun i => |a i - b i| ≥ 1 + 5 * (a i + b i) / 100

/-- At most three buckets differ by more than five percent, and all counters taken
    together by no more than three percent. -/
def Similar (a b : Fin 16 → ℤ) : Prop :=
  (failedBuckets a b).card ≤ 3 ∧ ∑ i, |a i - b i| < 1 + 3 * (∑ i, (a i + b i)) / 100

theorem counter_nonneg (fp : HtmlFingerprint) (i : Fin 16) : 0 ≤ fp.counter i :=
  Int.natCast_nonneg _

theorem Similar.refl {a : Fin 16 → ℤ} (ha : ∀ i, 0 ≤ a i) : Similar a a := by
  have hnone : failedBuckets a a = ∅ := by
    apply Finset.filter_false_of_mem
    intro i _
    have hi := ha i
    simp only [sub_self, abs_zero]
    omega
  have hsum : 0 ≤ ∑ i, (a i + a i) := Finset.sum_nonneg fun i _ => add_nonneg (ha i) (ha i)
  refine ⟨by simp [hnone], ?_⟩
  simp only [sub_self, abs_zero, Finset.sum_const_zero]
  omega

theorem similar_comm (a b : Fin 16 → ℤ) : Similar a b ↔ Similar b a := by
  have hdiff (i : Fin 16) : |a i - b i| = |b i - a i| := abs_sub_comm _ _
  have hscale (i : Fin 16) : a i + b i = b i + a i := add_comm _ _
  simp only [Similar, failedBuckets, hdiff, hscale]

/-- The exact difference and sum of two counters. -/
def exactDiff (bucket : UInt32 × UInt32) : ℕ := ((bucket.1.toNat : ℤ) - bucket.2.toNat).natAbs

def exactScale (bucket : UInt32 × UInt32) : ℕ := bucket.1.toNat + bucket.2.toNat

/-- One for a bucket that fails, and zero for one that does not. -/
def exactFailure (bucket : UInt32 × UInt32) : ℕ :=
  if exactDiff bucket ≥ 1 + 5 * exactScale bucket / 100 then 1 else 0

theorem toNat_absDiff {a b : UInt32} (hsum : exactScale (a, b) < 2 ^ 31) :
    (absDiff a b).toNat = exactDiff (a, b) := by
  have ha : a.toNat < 2 ^ 32 := a.toNat_lt
  have hb : b.toNat < 2 ^ 32 := b.toNat_lt
  simp only [exactScale, exactDiff] at hsum ⊢
  unfold absDiff
  split
  · rename_i hsmall
    rw [UInt32.lt_iff_toNat_lt, UInt32.toNat_sub] at hsmall
    have hlimit : (2 ^ 31 : UInt32).toNat = 2 ^ 31 := by decide
    rw [hlimit] at hsmall
    rw [UInt32.toNat_sub]
    omega
  · rename_i hlarge
    rw [UInt32.lt_iff_toNat_lt, UInt32.toNat_sub] at hlarge
    have hlimit : (2 ^ 31 : UInt32).toNat = 2 ^ 31 := by decide
    rw [hlimit] at hlarge
    rw [UInt32.toNat_sub, UInt32.toNat_sub, UInt32.toNat_zero]
    omega

theorem toNat_add_of_scale {a b : UInt32} (hsum : exactScale (a, b) < 2 ^ 29) :
    (a + b).toNat = exactScale (a, b) := by
  simp only [exactScale] at hsum ⊢
  rw [UInt32.toNat_add]
  omega

/-- A percentage of a number in range does not wrap around. -/
theorem le_percent_iff {diff scale percent : UInt32} (hscale : scale.toNat < 2 ^ 29)
    (hpercent : percent.toNat ≤ 5) :
    diff ≥ 1 + scale * percent / 100 ↔ diff.toNat ≥ 1 + percent.toNat * scale.toNat / 100 := by
  have hmul : scale.toNat * percent.toNat ≤ scale.toNat * 5 := Nat.mul_le_mul_left _ hpercent
  have hcomm := Nat.mul_comm scale.toNat percent.toNat
  rw [ge_iff_le, UInt32.le_iff_toNat_le, UInt32.toNat_add, UInt32.toNat_div, UInt32.toNat_mul]
  have hone : (1 : UInt32).toNat = 1 := by decide
  have hhundred : (100 : UInt32).toNat = 100 := by decide
  rw [hone, hhundred, Nat.mod_eq_of_lt (a := scale.toNat * percent.toNat) (by omega), hcomm]
  omega

theorem exactDiff_le_exactScale (bucket : UInt32 × UInt32) :
    exactDiff bucket ≤ exactScale bucket := by
  unfold exactDiff exactScale
  omega

/-- What the loop gives, from a number of failed buckets and totals so far: nothing if more
    than three buckets fail, and the exact totals otherwise. -/
def LoopResult (failed totalDiff totalScale : ℕ) (buckets : List (UInt32 × UInt32)) :
    Option (UInt32 × UInt32) → Prop
  | none => 3 < failed + (buckets.map exactFailure).sum
  | some (diff, scale) => failed + (buckets.map exactFailure).sum ≤ 3 ∧
      diff.toNat = totalDiff + (buckets.map exactDiff).sum ∧
      scale.toNat = totalScale + (buckets.map exactScale).sum

theorem LoopResult.cons {failed totalDiff totalScale : ℕ} {bucket : UInt32 × UInt32}
    {buckets : List (UInt32 × UInt32)} {result : Option (UInt32 × UInt32)}
    (h : LoopResult (failed + exactFailure bucket) (totalDiff + exactDiff bucket)
      (totalScale + exactScale bucket) buckets result) :
    LoopResult failed totalDiff totalScale (bucket :: buckets) result := by
  cases result with
  | none =>
    simp only [LoopResult, List.map_cons, List.sum_cons] at h ⊢
    omega
  | some totals =>
    simp only [LoopResult, List.map_cons, List.sum_cons] at h ⊢
    omega

theorem compareBuckets_spec (buckets : List (UInt32 × UInt32)) (failed : UInt8)
    (totalDiff totalScale : UInt32) (hfailed : failed.toNat ≤ 3)
    (hdiff : totalDiff.toNat ≤ totalScale.toNat)
    (hscale : totalScale.toNat + (buckets.map exactScale).sum < 2 ^ 29) :
    LoopResult failed.toNat totalDiff.toNat totalScale.toNat buckets
      (compareBuckets buckets failed totalDiff totalScale) := by
  induction buckets generalizing failed totalDiff totalScale with
  | nil => simpa [compareBuckets, LoopResult] using hfailed
  | cons bucket buckets ih =>
    obtain ⟨a, b⟩ := bucket
    simp only [List.map_cons, List.sum_cons] at hscale
    have hle := exactDiff_le_exactScale (a, b)
    have habs : (absDiff a b).toNat = exactDiff (a, b) := toNat_absDiff (by omega)
    have hadd : (a + b).toNat = exactScale (a, b) := toNat_add_of_scale (by omega)
    have htotalDiff : (totalDiff + absDiff a b).toNat =
        totalDiff.toNat + exactDiff (a, b) := by
      rw [UInt32.toNat_add, habs]
      omega
    have htotalScale : (totalScale + (a + b)).toNat =
        totalScale.toNat + exactScale (a, b) := by
      rw [UInt32.toNat_add, hadd]
      omega
    have hfails : absDiff a b ≥ 1 + (a + b) * kMaxFingerprintBucketDiff / 100 ↔
        exactDiff (a, b) ≥ 1 + 5 * exactScale (a, b) / 100 := by
      rw [le_percent_iff (by omega) (by decide), habs, hadd]
      rfl
    -- Neither total wraps around, so the hypotheses hold of the rest of the buckets.
    have hrest (next : UInt8) (hnext : next.toNat ≤ 3)
        (hcount : next.toNat = failed.toNat + exactFailure (a, b)) :
        LoopResult failed.toNat totalDiff.toNat totalScale.toNat ((a, b) :: buckets)
          (compareBuckets buckets next (totalDiff + absDiff a b) (totalScale + (a + b))) := by
      have hresult := ih next (totalDiff + absDiff a b) (totalScale + (a + b)) hnext
        (by omega) (by omega)
      rw [hcount, htotalDiff, htotalScale] at hresult
      exact hresult.cons
    simp only [compareBuckets, hfails]
    by_cases hfail : exactDiff (a, b) ≥ 1 + 5 * exactScale (a, b) / 100
    · have hone : exactFailure (a, b) = 1 := if_pos hfail
      have hcount : (failed + 1).toNat = failed.toNat + 1 := by
        rw [UInt8.toNat_add, UInt8.toNat_one]
        omega
      have hmany : failed + 1 > kMaxFingerprintBucketFails ↔ 3 < failed.toNat + 1 := by
        rw [gt_iff_lt, UInt8.lt_iff_toNat_lt, hcount]
        rfl
      rw [if_pos hfail]
      by_cases hlimit : 3 < failed.toNat + 1
      · rw [if_pos (hmany.mpr hlimit)]
        simp only [LoopResult, List.map_cons, List.sum_cons, hone]
        omega
      · rw [if_neg (mt hmany.mp hlimit)]
        exact hrest (failed + 1) (by omega) (by rw [hcount, hone])
    · have hzero : exactFailure (a, b) = 0 := if_neg hfail
      rw [if_neg hfail]
      exact hrest failed hfailed (by rw [hzero, Nat.add_zero])

/-- The buckets that the loop goes through. -/
def buckets (a b : HtmlFingerprint) : List (UInt32 × UInt32) :=
  a.wordSizeCnt.toList.zip b.wordSizeCnt.toList

theorem buckets_eq (a b : HtmlFingerprint) :
    buckets a b = (List.finRange 16).map fun i => (a.wordSizeCnt[i], b.wordSizeCnt[i]) := by
  apply List.ext_getElem
  · simp [buckets]
  · intro i h h'
    simp [buckets]

theorem sum_buckets (a b : HtmlFingerprint) (f : UInt32 × UInt32 → ℕ) :
    ((buckets a b).map f).sum = ∑ i : Fin 16, f (a.wordSizeCnt[i], b.wordSizeCnt[i]) := by
  rw [buckets_eq, List.map_map, Fin.sum_univ_def]
  rfl

/-- In range, the comparison is the one of exact numbers. -/
theorem equals_iff_similar {a b : HtmlFingerprint}
    (hsum : ∑ i, (a.counter i + b.counter i) < 2 ^ 29) :
    a.equals b = true ↔ Similar a.counter b.counter := by
  have hscale : ((((buckets a b).map exactScale).sum : ℕ) : ℤ) =
      ∑ i, (a.counter i + b.counter i) := by
    rw [sum_buckets, Nat.cast_sum]
    exact Finset.sum_congr rfl fun i _ => Nat.cast_add _ _
  have hdiff : ((((buckets a b).map exactDiff).sum : ℕ) : ℤ) =
      ∑ i, |a.counter i - b.counter i| := by
    rw [sum_buckets, Nat.cast_sum]
    exact Finset.sum_congr rfl fun i _ => (Int.abs_eq_natAbs _).symm
  have hfailed : ((buckets a b).map exactFailure).sum =
      (failedBuckets a.counter b.counter).card := by
    rw [sum_buckets, failedBuckets, Finset.card_filter]
    apply Finset.sum_congr rfl
    intro i _
    have hiff : exactDiff (a.wordSizeCnt[i], b.wordSizeCnt[i]) ≥
        1 + 5 * exactScale (a.wordSizeCnt[i], b.wordSizeCnt[i]) / 100 ↔
          |a.counter i - b.counter i| ≥ 1 + 5 * (a.counter i + b.counter i) / 100 := by
      simp only [exactDiff, exactScale, counter, Int.abs_eq_natAbs]
      omega
    simp only [exactFailure, hiff]
  have hspec := compareBuckets_spec (buckets a b) 0 0 0 (by decide) (by decide) (by
    rw [UInt32.toNat_zero, Nat.zero_add]
    omega)
  rw [Similar, ← hdiff, ← hscale, equals, ← buckets]
  cases hloop : compareBuckets (buckets a b) 0 0 0 with
  | none =>
    simp only [hloop, LoopResult, UInt8.toNat_zero, Nat.zero_add, hfailed] at hspec
    simp only [Bool.false_eq_true, false_iff, not_and]
    omega
  | some totals =>
    obtain ⟨totalDiff, totalScale⟩ := totals
    simp only [hloop, LoopResult, UInt8.toNat_zero, UInt32.toNat_zero, Nat.zero_add,
      hfailed] at hspec
    obtain ⟨hfew, htotalDiff, htotalScale⟩ := hspec
    have hpercent : totalDiff ≥ 1 + totalScale * kMaxFingerprintTotalDiff / 100 ↔
        totalDiff.toNat ≥ 1 + 3 * totalScale.toNat / 100 :=
      le_percent_iff (by omega) (by decide)
    simp only [hpercent, htotalDiff, htotalScale, Bool.not_eq_true', decide_eq_false_iff_not,
      hfew, true_and]
    omega

/-- In range, machine arithmetic decides the exact comparison, which is symmetric, and
    reflexive. -/
theorem equals_exact {a b : HtmlFingerprint}
    (hsum : ∑ i, (a.counter i + b.counter i) < 2 ^ 29) :
    (a.equals b = true ↔ Similar a.counter b.counter) ∧ a.equals b = b.equals a ∧
      (∑ i, (a.counter i + a.counter i) < 2 ^ 29 → a.equals a = true) := by
  refine ⟨equals_iff_similar hsum, ?_, fun hself => ?_⟩
  · have hsum' : ∑ i, (b.counter i + a.counter i) < 2 ^ 29 := by
      simpa only [add_comm] using hsum
    rw [Bool.eq_iff_iff, equals_iff_similar hsum, equals_iff_similar hsum', similar_comm]
  · exact (equals_iff_similar hself).mpr (Similar.refl a.counter_nonneg)

/-- A page of words of all lengths, and one with a few more words of one length. -/
def page : HtmlFingerprint := { wordSizeCnt := Vector.replicate 16 50 }

def longerPage : HtmlFingerprint := { wordSizeCnt := page.wordSizeCnt.set 3 57 }

theorem equals_exact_page :
    (page.equals longerPage = true ↔ Similar page.counter longerPage.counter) ∧
      page.equals longerPage = longerPage.equals page ∧
      (∑ i, (page.counter i + page.counter i) < 2 ^ 29 → page.equals page = true) :=
  equals_exact (by decide +kernel)

end HtmlFingerprint

end plusfish
