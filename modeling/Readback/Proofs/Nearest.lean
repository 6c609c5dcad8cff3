import Readback.Double.Shortest
import Readback.Proofs.Decimals
import Readback.Proofs.Rounding

namespace Readback.Double

variable {num den n k : Nat}

theorem nearest_cases (num step : Nat) :
    (nearest num step = num / step ∧ 2 * num ≤ (2 * (num / step) + 1) * step ∧
      (num / step % 2 = 1 → 2 * num < (2 * (num / step) + 1) * step)) ∨
    (nearest num step = num / step + 1 ∧ (2 * (num / step) + 1) * step ≤ 2 * num ∧
      (num / step % 2 = 0 → (2 * (num / step) + 1) * step < 2 * num)) := by
  have hm := Nat.div_add_mod num step
  have hw : (2 * (num / step) + 1) * step = 2 * (step * (num / step)) + step := by ring
  rw [hw]
  unfold nearest
  simp only [Bool.or_eq_true, decide_eq_true_eq, Bool.and_eq_true, beq_iff_eq]
  split <;> omega

theorem magnitude_steps (hl : 0 < k → Nat.pow 2 52 ≤ n) (hg : n ≤ 2 * Nat.pow 2 52) :
    magnitude (k * Nat.pow 2 52 + n) = n * Nat.pow 2 k := by
  rcases Nat.eq_or_lt_of_le hg with rfl | hg
  case inl =>
    have he : k * Nat.pow 2 52 + 2 * Nat.pow 2 52 = (k + 1 + 1) * Nat.pow 2 52 + 0 := by ring
    rw [he, magnitude_add (k + 1) (by decide), Nat.mul_comm 2, Nat.mul_assoc, Nat.mul_comm 2]
    rfl
  case inr =>
    cases k
    case zero =>
      rw [Nat.zero_mul, Nat.zero_add, magnitude_of_small hg]
      exact (Nat.mul_one n).symm
    case succ k =>
      obtain ⟨m, rfl⟩ := Nat.exists_eq_add_of_le (hl (Nat.succ_pos k))
      rw [← Nat.add_assoc, ← Nat.succ_mul, magnitude_add (k + 1) (by omega)]

variable {rank : Nat}

theorem holds_basin (hl : (magnitude (rank - 1) + magnitude rank) * den ≤ num)
    (hh : num ≤ (magnitude rank + magnitude (rank + 1)) * den)
    (hs : rank % 2 = 1 → (magnitude (rank - 1) + magnitude rank) * den < num ∧
      num < (magnitude rank + magnitude (rank + 1)) * den) : (basin rank).holds num den := by
  by_cases hr : rank % 2 = 0
  case pos => simp [Basin.holds, basin, hr, hl, hh]
  case neg =>
    obtain ⟨hl, hh⟩ := hs (Nat.mod_two_ne_zero.mp hr)
    simp [Basin.holds, basin, hr, hl, hh]

-- A number between two magnitudes that are multiples of a step lies in the basin of the one that it
-- is rounded to.
theorem holds_of_steps {step : Nat} (hd : 0 < den) (hs : 0 < step)
    (first : magnitude rank * den = num / step * step)
    (second : magnitude (rank + 1) * den = (num / step + 1) * step)
    (hp : rank % 2 = num / step % 2) :
    (basin (rank + (nearest num step - num / step))).holds (2 * num) den := by
  have middle : (magnitude rank + magnitude (rank + 1)) * den = (2 * (num / step) + 1) * step := by
    rw [Nat.add_mul, first, second]
    ring
  have hl : magnitude rank * den ≤ num := first ▸ Nat.div_mul_le_self num step
  have hg : num < magnitude (rank + 1) * den := by
    rw [second, Nat.mul_comm]
    exact Nat.lt_mul_div_succ num hs
  have lower : magnitude (rank - 1) * den ≤ magnitude rank * den :=
    Nat.mul_le_mul_right den (magnitude_strictMono.monotone (Nat.sub_le ..))
  have lower_lt (h : rank % 2 = 1) : magnitude (rank - 1) * den < magnitude rank * den :=
    Nat.mul_lt_mul_of_pos_right (magnitude_strictMono (by omega)) hd
  have upper : magnitude (rank + 1) * den < magnitude (rank + 1 + 1) * den :=
    Nat.mul_lt_mul_of_pos_right (magnitude_lt_succ _) hd
  have hc := nearest_cases num step
  rw [← middle] at hc
  rcases hc with ⟨hn, hh, ht⟩ | ⟨hn, hh, ht⟩
  case inl =>
    rw [hn, Nat.sub_self, Nat.add_zero]
    refine holds_basin ?_ hh fun hr => ⟨?_, ht (hp ▸ hr)⟩
    case refine_1 =>
      rw [Nat.add_mul]
      omega
    case refine_2 =>
      have := lower_lt hr
      rw [Nat.add_mul]
      omega
  case inr =>
    have hu : 2 * num < (magnitude (rank + 1) + magnitude (rank + 1 + 1)) * den := by
      rw [Nat.add_mul]
      omega
    rw [hn, Nat.add_sub_cancel_left]
    exact holds_basin hh hu.le fun hr => ⟨ht (by omega), hu⟩

theorem holds_nearestRank (num : Nat) (hd : 0 < den) :
    (basin (nearestRank num den)).holds (2 * num) den := by
  let k := excess (num / den)
  let step := den * Nat.pow 2 k
  have hb : num / step = num / den / Nat.pow 2 k := (Nat.div_div_eq_div_mul ..).symm
  have hl : 0 < k → Nat.pow 2 52 ≤ num / step := fun hk => hb ▸ le_div_excess hk
  have hg : num / step < 2 * Nat.pow 2 52 := hb ▸ div_excess_lt _
  have first : magnitude (k * Nat.pow 2 52 + num / step) * den = num / step * step := by
    rw [magnitude_steps hl hg.le, Nat.mul_assoc, Nat.mul_comm _ den]
  have second : magnitude (k * Nat.pow 2 52 + num / step + 1) * den = (num / step + 1) * step := by
    rw [Nat.add_assoc, magnitude_steps (fun hk => (hl hk).trans (Nat.le_succ _)) hg, Nat.mul_assoc,
      Nat.mul_comm _ den]
  -- There is an even number of magnitudes in a binade.
  have hp : (k * Nat.pow 2 52 + num / step) % 2 = num / step % 2 := by
    have hk : k * Nat.pow 2 52 = k * Nat.pow 2 51 * 2 := (Nat.mul_assoc ..).symm
    omega
  have hs : 0 < step := Nat.mul_pos hd (Nat.two_pow_pos k)
  have hh := holds_of_steps hd hs first second hp
  rwa [Nat.add_assoc, Nat.add_sub_cancel' (div_le_nearest num step), ← nearestRank_eq] at hh

variable {x y : Double} {q r : ℚ}

def IsNearest (x : Double) (q : ℚ) : Prop :=
  ∃ v, x.value? = some v ∧ ∀ (y : Double) (r : ℚ), y.value? = some r → |v - q| ≤ |r - q|

theorem Basin.Contains.abs_sub_le (h : (basin rank).Contains (2 * q)) (j : Nat) :
    |magnitude rank - q| ≤ |magnitude j - q| := by
  have ⟨hl, hh⟩ := h.bounds
  simp only [basin, Nat.cast_add] at hl hh
  rcases Nat.lt_trichotomy j rank with hj | rfl | hj
  case inl =>
    have hp : (magnitude j : ℚ) ≤ magnitude (rank - 1) :=
      Nat.cast_le.mpr (magnitude_strictMono.monotone (Nat.le_sub_one_of_lt hj))
    have hr : (magnitude j : ℚ) ≤ magnitude rank :=
      Nat.cast_le.mpr (magnitude_strictMono.monotone hj.le)
    rw [abs_of_nonpos (a := (magnitude j : ℚ) - q) (by linarith), abs_le]
    constructor <;> linarith
  case inr.inl => exact le_refl _
  case inr.inr =>
    have hs : (magnitude (rank + 1) : ℚ) ≤ magnitude j :=
      Nat.cast_le.mpr (magnitude_strictMono.monotone hj)
    have hr : (magnitude rank : ℚ) ≤ magnitude j :=
      Nat.cast_le.mpr (magnitude_strictMono.monotone hj.le)
    rw [abs_of_nonneg (a := (magnitude j : ℚ) - q) (by linarith), abs_le]
    constructor <;> linarith

theorem abs_of_value? (h : y.value? = some r) : ∃ j : Nat, |r| = magnitude j / unitsOfOne := by
  rcases y with _ | _ | ⟨a, j⟩
  case nan | infinite => cases h
  case finite =>
    refine ⟨j, ?_⟩
    rw [value?, units?, Option.map_some, Option.some.injEq] at h
    rw [← h, abs_div, Nat.abs_cast]
    congr 1
    cases a
    case false => rw [if_neg Bool.false_ne_true, Int.cast_natCast, Nat.abs_cast]
    case true => rw [if_pos rfl, Int.cast_neg, abs_neg, Int.cast_natCast, Nat.abs_cast]

theorem contains_nearestRank (num : Nat) (hd : 0 < den) :
    (basin (nearestRank num den)).Contains (2 * (num / den : ℚ)) := by
  have h := (Basin.holds_iff hd).mp (holds_nearestRank num hd)
  rwa [Nat.cast_mul, mul_div_assoc] at h

theorem isFinite_neg (x : Double) : x.neg.isFinite = x.isFinite := by
  rcases x with _ | _ | _ <;> rfl

theorem units?_neg (x : Double) : x.neg.units? = x.units?.map fun n => -n := by
  rcases x with _ | _ | ⟨a, rank⟩
  case nan | infinite => rfl
  case finite => cases a <;> simp [neg, units?]

theorem value?_neg (x : Double) : x.neg.value? = x.value?.map fun v => -v := by
  rw [value?, value?, units?_neg, Option.map_map, Option.map_map]
  congr 1
  funext n
  rw [Function.comp_apply, Function.comp_apply, Int.cast_neg, neg_div]

theorem IsNearest.neg (h : x.IsNearest q) : x.neg.IsNearest (-q) := by
  obtain ⟨v, hv, hn⟩ := h
  refine ⟨-v, by rw [value?_neg, hv, Option.map_some], fun y r hy => ?_⟩
  have hr := hn y.neg (-r) (by rw [value?_neg, hy, Option.map_some])
  calc |-v - -q|
    _ = |v - q| := by rw [neg_sub_neg, abs_sub_comm]
    _ ≤ |-r - q| := hr
    _ = |r - -q| := by rw [← abs_neg, neg_sub, sub_neg_eq_add, sub_neg_eq_add, add_comm]

-- Doubles of the other sign are even further away from a number.
theorem isNearest_of_contains {rank : Fin ranks} (hc : (basin rank).Contains (2 * q)) :
    (finite false rank).IsNearest (q / unitsOfOne) := by
  have hu : (0 : ℚ) < unitsOfOne := Nat.cast_pos.mpr unitsOfOne_pos
  have hq : 0 ≤ q := by
    have hl : (0 : ℚ) ≤ (basin rank).low := Nat.cast_nonneg _
    linarith [hc.bounds.1]
  refine ⟨_, rfl, fun y r hy => ?_⟩
  have ⟨j, hj⟩ := abs_of_value? hy
  calc |(magnitude rank : ℚ) / unitsOfOne - q / unitsOfOne|
    _ = |(magnitude rank : ℚ) - q| / unitsOfOne := by rw [← sub_div, abs_div, abs_of_pos hu]
    _ ≤ |(magnitude j : ℚ) - q| / unitsOfOne := div_le_div_of_nonneg_right (hc.abs_sub_le j) hu.le
    _ = |(|r| - |q / unitsOfOne|)| := by
      rw [hj, abs_of_nonneg (div_nonneg hq hu.le), ← sub_div, abs_div, abs_of_pos hu]
    _ ≤ |r - q / unitsOfOne| := abs_abs_sub_abs_le _ _

theorem isNearest_ofRatio (hd : 0 < den) (hf : (ofRatio false num den).isFinite) :
    (ofRatio false num den).IsNearest (num / den / unitsOfOne) := by
  unfold ofRatio at hf ⊢
  split at hf
  case isTrue h =>
    rw [dif_pos h]
    exact isNearest_of_contains (contains_nearestRank num hd)
  case isFalse => cases hf

theorem ofRatio_true (num den : Nat) : ofRatio true num den = (ofRatio false num den).neg := by
  unfold ofRatio
  split <;> rfl

theorem ofInt_eq (n : Int) : ofInt n = ofRatio (n < 0) (n.natAbs * unitsOfOne) 1 := by
  unfold ofInt unitsOfOne
  exact rfl

theorem isNearest_ofInt {n : Int} (hf : (ofInt n).isFinite) : (ofInt n).IsNearest n := by
  have hu : (unitsOfOne : ℚ) ≠ 0 := Nat.cast_ne_zero.mpr unitsOfOne_pos.ne'
  have ha : ((n.natAbs * unitsOfOne : Nat) : ℚ) / (1 : Nat) / unitsOfOne = n.natAbs := by
    rw [Nat.cast_one, div_one, Nat.cast_mul, mul_div_cancel_right₀ _ hu]
  rw [ofInt_eq] at hf ⊢
  by_cases hn : n < 0
  case pos =>
    have hc : (n : ℚ) = -(n.natAbs : ℚ) := by
      rw [Nat.cast_natAbs, abs_of_neg hn, Int.cast_neg, neg_neg]
    rw [decide_eq_true hn, ofRatio_true] at hf ⊢
    rw [hc, ← ha]
    exact (isNearest_ofRatio Nat.one_pos (isFinite_neg _ ▸ hf)).neg
  case neg =>
    have hc : (n : ℚ) = n.natAbs := by rw [Nat.cast_natAbs, abs_of_nonneg (Int.not_lt.mp hn)]
    rw [decide_eq_false hn] at hf ⊢
    rw [hc, ← ha]
    exact isNearest_ofRatio Nat.one_pos hf

end Readback.Double
