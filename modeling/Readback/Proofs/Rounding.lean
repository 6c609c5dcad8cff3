import Readback.Double.Round

namespace Readback.Double

variable {m n num den step : Nat}

-- The whole number nearest to a quotient, the even one when two are equally near.
def nearest (num step : Nat) : Nat :=
  num / step +
    if step < 2 * (num % step) || (2 * (num % step) == step && num / step % 2 == 1) then 1 else 0

theorem div_le_nearest (num step : Nat) : num / step ≤ nearest num step :=
  Nat.le_add_right ..

theorem nearest_le (num step : Nat) : nearest num step ≤ num / step + 1 := by
  unfold nearest
  split <;> omega

theorem nearest_mono (h : m ≤ n) (step : Nat) : nearest m step ≤ nearest n step := by
  have hd : m / step ≤ n / step := Nat.div_le_div_right h
  rcases Nat.eq_or_lt_of_le hd with he | hl
  case inl =>
    -- Above the same whole number the rest decides, which is not smaller.
    have hm := Nat.div_add_mod m step
    have hn := Nat.div_add_mod n step
    rw [he] at hm
    unfold nearest
    simp only [he, Bool.or_eq_true, decide_eq_true_eq, Bool.and_eq_true, beq_iff_eq]
    split <;> split <;> omega
  case inr =>
    calc nearest m step
      _ ≤ m / step + 1 := nearest_le ..
      _ ≤ n / step := hl
      _ ≤ nearest n step := div_le_nearest ..

-- By how many bits a whole number is too long for a double.
def excess (q : Nat) : Nat := q.log2 - 52

theorem excess_mono (h : m ≤ n) : excess m ≤ excess n := by
  refine Nat.sub_le_sub_right ?_ 52
  by_cases hm : m = 0
  case pos => simp [hm]
  case neg => exact (Nat.le_log2 (by omega)).mpr (Nat.le_trans (Nat.log2_self_le hm) h)

theorem div_excess_lt (q : Nat) : q / Nat.pow 2 (excess q) < 2 * Nat.pow 2 52 := by
  have hp : 0 < Nat.pow 2 (excess q) := Nat.two_pow_pos _
  rw [Nat.div_lt_iff_lt_mul hp]
  calc q
    _ < Nat.pow 2 (q.log2 + 1) := Nat.lt_log2_self
    _ ≤ Nat.pow 2 (53 + excess q) := Nat.pow_le_pow_right (by decide) (by unfold excess; omega)
    _ = Nat.pow 2 53 * Nat.pow 2 (excess q) := Nat.pow_add ..

theorem le_div_excess {q : Nat} (h : 0 < excess q) : Nat.pow 2 52 ≤ q / Nat.pow 2 (excess q) := by
  have hl : 52 + excess q = q.log2 := by
    unfold excess at h ⊢
    omega
  have hq : q ≠ 0 := by
    intro hq
    simp [excess, hq] at h
  have hp : 0 < Nat.pow 2 (excess q) := Nat.two_pow_pos _
  rw [Nat.le_div_iff_mul_le hp]
  calc Nat.pow 2 52 * Nat.pow 2 (excess q)
    _ = Nat.pow 2 (52 + excess q) := (Nat.pow_add ..).symm
    _ = Nat.pow 2 q.log2 := by rw [hl]
    _ ≤ q := Nat.log2_self_le hq

theorem nearestRank_eq (num den : Nat) :
    nearestRank num den =
      excess (num / den) * Nat.pow 2 52 + nearest num (den * Nat.pow 2 (excess (num / den))) :=
  Nat.add_assoc ..

-- A greater number has no lower rank. Where it is longer, the smaller one is at most rounded up to
-- the first magnitude of the next binade.
theorem nearestRank_mono (h : m ≤ n) (den : Nat) : nearestRank m den ≤ nearestRank n den := by
  have hq : m / den ≤ n / den := Nat.div_le_div_right h
  rw [nearestRank_eq, nearestRank_eq]
  rcases Nat.eq_or_lt_of_le (excess_mono hq) with he | hl
  case inl =>
    rw [he]
    exact Nat.add_le_add_left (nearest_mono h _) _
  case inr =>
    have hm := nearest_le m (den * Nat.pow 2 (excess (m / den)))
    have hn := div_le_nearest n (den * Nat.pow 2 (excess (n / den)))
    rw [← Nat.div_div_eq_div_mul] at hm hn
    have hu := div_excess_lt (m / den)
    have hv := le_div_excess (Nat.zero_lt_of_lt hl)
    have hs := Nat.mul_le_mul_right (Nat.pow 2 52) (Nat.succ_le_of_lt hl)
    rw [Nat.succ_mul] at hs
    omega

def rankOfInt (n : Int) : Nat :=
  min (nearestRank (n.natAbs * Nat.pow 2 1074) 1) ranks

def placeOfInt (n : Int) : Int :=
  if n < 0 then -(rankOfInt n : Int) else rankOfInt n

theorem place?_ofRatio (negative : Bool) (num den : Nat) :
    (ofRatio negative num den).place? =
      let rank : Int := (min (nearestRank num den) ranks : Nat)
      some (if negative then -rank else rank) := by
  unfold ofRatio
  split
  case isTrue h =>
    rw [Nat.min_eq_left (Nat.le_of_lt h)]
    rfl
  case isFalse h =>
    rw [Nat.min_eq_right (Nat.le_of_not_lt h)]
    rfl

theorem place?_ofInt (n : Int) : (ofInt n).place? = some (placeOfInt n) := by
  rw [ofInt, place?_ofRatio]
  simp only [placeOfInt, rankOfInt, decide_eq_true_eq]

theorem rankOfInt_mono {m n : Int} (h : m.natAbs ≤ n.natAbs) : rankOfInt m ≤ rankOfInt n := by
  have hr := nearestRank_mono (Nat.mul_le_mul_right (Nat.pow 2 1074) h) 1
  unfold rankOfInt
  omega

theorem placeOfInt_mono {m n : Int} (h : m ≤ n) : placeOfInt m ≤ placeOfInt n := by
  unfold placeOfInt
  split <;> split
  case isTrue.isTrue hm hn =>
    have hr : rankOfInt n ≤ rankOfInt m := rankOfInt_mono (by omega)
    omega
  case isFalse.isFalse hm hn =>
    have hr : rankOfInt m ≤ rankOfInt n := rankOfInt_mono (by omega)
    omega
  all_goals omega

end Readback.Double
