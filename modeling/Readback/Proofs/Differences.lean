import Readback.Assertion.Condition
import Readback.Proofs.Comparing
import Readback.Proofs.Rounding
import Readback.Proofs.Truncating

namespace Readback

namespace Double

variable {x y : Double} {a b : Bool} {i j : Int} {num m n : Nat}

theorem nearestRank_one : nearestRank 1 1 = 1 := by
  decide

-- Only zero is rounded to zero: the smallest number above it that can come up is one unit.
theorem nearestRank_pos (h : 0 < num) : 0 < nearestRank num 1 :=
  nearestRank_one ▸ nearestRank_mono h 1

theorem place?_ofUnits_eq_zero_iff : (ofUnits i).place? = some 0 ↔ i = 0 := by
  rw [ofUnits, place?_ofRatio]
  constructor
  case mp =>
    intro h
    by_contra hi
    have hr : 0 < nearestRank i.natAbs 1 := nearestRank_pos (Int.natAbs_pos.mpr hi)
    have hp := ranks_pos
    simp only [Option.some.injEq] at h
    split at h <;> omega
  case mpr =>
    rintro rfl
    rfl

theorem compare?_of_place (hx : x.place? = some i) (hy : y.place? = some j) :
    x.compare? y = some (compare i j) := by
  rw [compare?, hx, hy]
  rfl

theorem same_iff_place : x.same y ↔ ∃ i, x.place? = some i ∧ y.place? = some i := by
  rw [same_iff]
  cases hx : x.place?
  case none => simp [compare?, hx]
  case some i =>
    cases hy : y.place?
    case none => simp [compare?, hx, hy]
    case some j =>
      rw [compare?_of_place hx hy, Option.some.injEq, compare_eq_iff_eq]
      simp [eq_comm]

theorem atMost_iff_place (hx : x.place? = some i) (hy : y.place? = some j) :
    x.atMost y ↔ i ≤ j := by
  rw [atMost, compare?_of_place hx hy]
  cases hc : compare i j
  case lt => simp [(compare_lt_iff_lt.mp hc).le]
  case eq => simp [compare_eq_iff_eq.mp hc]
  case gt => simp [not_le.mpr (compare_gt_iff_gt.mp hc)]

theorem place?_infinite_ne_zero : (infinite a).place? ≠ some 0 := by
  have hp := ranks_pos
  cases a <;> simp [place?] <;> omega

theorem abs_atMost_zero_iff : x.abs.atMost zero ↔ x.place? = some 0 := by
  have hz : zero.place? = some 0 := rfl
  rcases x with _ | a | ⟨a, rank⟩
  case nan => simp [abs, atMost, compare?_nan_left]
  case infinite =>
    have hp := ranks_pos
    rw [abs, atMost_iff_place (i := ranks) rfl hz]
    refine iff_of_false ?_ place?_infinite_ne_zero
    omega
  case finite =>
    rw [abs, atMost_iff_place (i := rank.val) rfl hz, place?, Option.some.injEq]
    cases a <;> simp

def signed (negative : Bool) (n : Nat) : Int :=
  if negative then -(n : Int) else n

theorem place?_finite (a : Bool) (m : Fin ranks) : (finite a m).place? = some (signed a m) := rfl

theorem signed_magnitude_eq_iff :
    signed a (magnitude m) = signed b (magnitude n) ↔ signed a m = signed b n := by
  have hi : magnitude m = magnitude n ↔ m = n := magnitude_strictMono.injective.eq_iff
  have hm : magnitude m = 0 ↔ m = 0 := magnitude_strictMono.injective.eq_iff' rfl
  have hn : magnitude n = 0 ↔ n = 0 := magnitude_strictMono.injective.eq_iff' rfl
  cases a <;> cases b <;> simp only [signed, if_true, if_false, Bool.false_eq_true] <;> omega

theorem sub_finite (a b : Bool) (m n : Fin ranks) :
    let d := signed a (magnitude m) - signed b (magnitude n)
    (finite a m).sub (finite b n) =
      if d = 0 then finite (a && !b) ⟨0, ranks_pos⟩ else ofUnits d := by
  cases b <;> simp [sub, neg, add, signed, Int.sub_eq_add_neg]

theorem place?_sub_finite (a b : Bool) (m n : Fin ranks) :
    ((finite a m).sub (finite b n)).place? = some 0 ↔ signed a m = signed b n := by
  rw [← signed_magnitude_eq_iff, ← Int.sub_eq_zero, sub_finite]
  split
  case isTrue h => exact iff_of_true (by cases a <;> cases b <;> rfl) h
  case isFalse h => rw [place?_ofUnits_eq_zero_iff]

-- A difference is zero just if the two are equal and finite. That of different doubles is never
-- rounded to zero, and that of two infinities of one sign is no number.
theorem place?_sub_eq_zero_iff : (x.sub y).place? = some 0 ↔ x.isFinite ∧ x.same y := by
  rcases x with _ | a | ⟨a, m⟩
  case nan => simp [sub, add, isFinite]
  case infinite =>
    have hs : (∃ c, (infinite a).sub y = infinite c) ∨ (infinite a).sub y = nan := by
      rcases y with _ | b | ⟨b, n⟩
      case nan => exact .inr rfl
      case finite => exact .inl ⟨a, rfl⟩
      case infinite => by_cases hb : a = !b <;> simp [sub, neg, add, hb]
    refine iff_of_false ?_ (by simp [isFinite])
    rcases hs with ⟨c, hs⟩ | hs
    case inl => exact hs ▸ place?_infinite_ne_zero
    case inr => simp [hs]
  case finite =>
    rcases y with _ | b | ⟨b, n⟩
    case nan => simp [sub, neg, add, same_iff_place]
    case infinite =>
      have hm := m.isLt
      refine iff_of_false place?_infinite_ne_zero ?_
      simp only [same_iff_place, place?, Option.some.injEq]
      cases a <;> cases b <;> simp <;> omega
    case finite =>
      rw [place?_sub_finite, same_iff_place, place?_finite, place?_finite]
      simp [isFinite, eq_comm]

theorem same_of_not_finite (h : ¬x.isFinite) :
    x.same y ↔ ∃ negative, x = infinite negative ∧ y = infinite negative := by
  rw [same_iff_place]
  rcases x with _ | a | m
  case nan => simp
  case finite => exact absurd rfl h
  case infinite =>
    rcases y with _ | b | ⟨b, n⟩
    case nan => simp
    case infinite =>
      have hp := ranks_pos
      cases a <;> cases b <;> simp [place?] <;> omega
    case finite =>
      have hn := n.isLt
      cases a <;> cases b <;> simp [place?] <;> omega

theorem rankOfInt_pastWords : rankOfInt (Int64.maxValue.toInt + 1) = 1086 * Nat.pow 2 52 := by
  have hp : pastWords.place? = some (placeOfInt (Int64.maxValue.toInt + 1)) := place?_ofInt _
  rw [pastWords_eq, place?_finite, placeOfInt, if_neg (by decide), Option.some.injEq] at hp
  exact Int.ofNat_inj.mp hp.symm

theorem isFinite_ofInt (w : Int64) : (ofInt w.toInt).isFinite := by
  have hr : rankOfInt w.toInt < ranks := by
    have hl : -(Int64.maxValue.toInt + 1) ≤ w.toInt := w.minValue_le_toInt
    have hg := w.toInt_le
    calc rankOfInt w.toInt
      _ ≤ rankOfInt (Int64.maxValue.toInt + 1) := rankOfInt_mono (by omega)
      _ = 1086 * Nat.pow 2 52 := rankOfInt_pastWords
      _ < ranks := by decide
  have hp := place?_ofInt w.toInt
  rcases h : ofInt w.toInt with _ | a | m
  case nan => simp [h] at hp
  case finite => rfl
  case infinite =>
    rw [h, place?, placeOfInt, Option.some.injEq] at hp
    split at hp <;> split at hp <;> omega

end Double

namespace Value

variable {v : Value} {x e : Double}

-- A value is an infinity, or the text of one, and the same infinity is expected.
def MeetsAtInfinity (v : Value) (e : Double) : Prop :=
  ∃ negative, v.toDouble? = some (.infinite negative) ∧ e = .infinite negative

theorem within_zero_iff :
    v.within e .zero ↔ ∃ x, v.toDouble? = some x ∧ x.isFinite ∧ x.same e := by
  unfold within
  cases v.toDouble?
  case none => simp
  case some x => simp [Double.abs_atMost_zero_iff, Double.place?_sub_eq_zero_iff]

theorem meetsAtInfinity_iff :
    v.MeetsAtInfinity e ↔ ∃ x, v.toDouble? = some x ∧ ¬x.isFinite ∧ x.same e := by
  constructor
  case mp =>
    rintro ⟨negative, hv, rfl⟩
    refine ⟨_, hv, Bool.false_ne_true, ?_⟩
    cases negative <;> decide
  case mpr =>
    rintro ⟨x, hv, hx, he⟩
    obtain ⟨negative, rfl, rfl⟩ := (Double.same_of_not_finite hx).mp he
    exact ⟨negative, hv, rfl⟩

theorem within_zero_iff_same :
    v.within e .zero ↔ (∃ x, v.toDouble? = some x ∧ x.same e) ∧ ¬v.MeetsAtInfinity e := by
  rw [within_zero_iff, meetsAtInfinity_iff]
  cases v.toDouble?
  case none => simp
  case some x => by_cases hx : x.isFinite <;> simp [hx]

theorem within_zero_iff_same_iff :
    (v.within e .zero ↔ ∃ x, v.toDouble? = some x ∧ x.same e) ↔ ¬v.MeetsAtInfinity e := by
  rw [within_zero_iff_same]
  constructor
  case mp =>
    intro h hm
    have ⟨x, hv, _, he⟩ := meetsAtInfinity_iff.mp hm
    exact (h.mpr ⟨x, hv, he⟩).right hm
  case mpr => exact fun h => and_iff_left h

theorem near_iff_equals_iff (hv : v.toDouble? = some x) (hs : v.same (float e) = x.same e) :
    ((Condition.near e .zero).holds v ↔ (Condition.equals (.float e)).holds v) ↔
      ¬v.MeetsAtInfinity e := by
  rw [← within_zero_iff_same_iff, Condition.holds, Condition.holds, hs, hv]
  simp

theorem not_meetsAtInfinity_int (n : Int64) : ¬(int n).MeetsAtInfinity e := by
  rw [meetsAtInfinity_iff, toDouble?]
  simp only [Option.some.injEq]
  rintro ⟨_, rfl, hf, _⟩
  exact hf (Double.isFinite_ofInt n)

-- A tolerance of zero demands that a value is equal to what is expected, and that is all, but for
-- infinities: the difference of one from itself is no number, so an infinity is never found to be
-- what is expected. Integers, and doubles that are not infinite, are accepted as if equality had
-- been asked for.
theorem zero_tolerance_demands_equality (e : Double) :
    (∀ v : Value, v.within e .zero ↔
      (∃ x, v.toDouble? = some x ∧ x.same e) ∧ ¬v.MeetsAtInfinity e) ∧
    (∀ v : Value, (v.within e .zero ↔ ∃ x, v.toDouble? = some x ∧ x.same e) ↔
      ¬v.MeetsAtInfinity e) ∧
    (∀ n : Int64, (Condition.near e .zero).holds (int n) ↔
      (Condition.equals (float e)).holds (int n)) ∧
    ∀ x : Double, ((Condition.near e .zero).holds (float x) ↔
      (Condition.equals (float e)).holds (float x)) ↔ ¬(float x).MeetsAtInfinity e := by
  refine ⟨fun _ => within_zero_iff_same, fun _ => within_zero_iff_same_iff, fun n => ?_,
    fun x => ?_⟩
  case refine_1 =>
    have hn : (int n).toDouble? = some (.ofInt n.toInt) := by rw [toDouble?]
    exact (near_iff_equals_iff hn (by rw [same])).mpr (not_meetsAtInfinity_int n)
  case refine_2 => exact near_iff_equals_iff (by rw [toDouble?]) (by rw [same])

-- An infinity is read and expected. It is equal to what is expected, and it is not accepted.
theorem infinity_away_from_itself :
    let x := Double.infinite false
    (float x).toDouble? = some x ∧ x.same x ∧ (float x).within x .zero = false ∧
    (Condition.equals (.float x)).holds (float x) ∧
    (Condition.near x .zero).holds (float x) = false := by
  decide

end Value
end Readback
