import Mathlib.Data.Rat.Floor
import Mathlib.Order.Monotone.Basic
import Readback.Double.Round
import Readback.Value.Compare

namespace Readback

namespace Double

variable {x : Double} {rank k m : Nat}

theorem magnitude_of_small (h : rank < 2 * Nat.pow 2 52) : magnitude rank = rank :=
  if_pos h

theorem magnitude_add (k : Nat) (hm : m < Nat.pow 2 52) :
    magnitude ((k + 1) * Nat.pow 2 52 + m) = (Nat.pow 2 52 + m) * Nat.pow 2 k := by
  have hp : 0 < Nat.pow 2 52 := by decide
  cases k
  case zero =>
    rw [magnitude_of_small (by omega)]
    change _ = _ * 1
    omega
  case succ k =>
    have hd : ((k + 1 + 1) * Nat.pow 2 52 + m) / Nat.pow 2 52 = k + 1 + 1 := by
      rw [Nat.mul_comm, Nat.mul_add_div hp, Nat.div_eq_of_lt hm, Nat.add_zero]
    have hr : ((k + 1 + 1) * Nat.pow 2 52 + m) % Nat.pow 2 52 = m := by
      rw [Nat.mul_comm, Nat.mul_add_mod, Nat.mod_eq_of_lt hm]
    have hl : ¬(k + 1 + 1) * Nat.pow 2 52 + m < 2 * Nat.pow 2 52 := by
      rw [Nat.add_mul, Nat.add_mul]
      omega
    simp only [magnitude, if_neg hl, hd, hr]
    rfl

theorem exists_binade (h : Nat.pow 2 52 ≤ rank) :
    ∃ k m, m < Nat.pow 2 52 ∧ rank = (k + 1) * Nat.pow 2 52 + m := by
  have hp : 0 < Nat.pow 2 52 := by decide
  refine ⟨rank / Nat.pow 2 52 - 1, rank % Nat.pow 2 52, Nat.mod_lt _ hp, ?_⟩
  rw [Nat.sub_add_cancel (Nat.div_pos h hp), Nat.mul_comm]
  exact (Nat.div_add_mod ..).symm

-- The next magnitude of a binade is one step further. The last one is a step below the first one of
-- the next binade, where the steps are twice as long.
theorem magnitude_lt_succ (rank : Nat) : magnitude rank < magnitude (rank + 1) := by
  by_cases hr : Nat.pow 2 52 ≤ rank
  case neg =>
    rw [magnitude_of_small (by omega), magnitude_of_small (by omega)]
    exact Nat.lt_succ_self rank
  case pos =>
    obtain ⟨k, m, hm, rfl⟩ := exists_binade hr
    have hp : 0 < Nat.pow 2 k := Nat.two_pow_pos k
    rw [magnitude_add k hm]
    by_cases hl : m + 1 < Nat.pow 2 52
    case pos =>
      rw [Nat.add_assoc, magnitude_add k hl]
      exact Nat.mul_lt_mul_of_pos_right (by omega) hp
    case neg =>
      have he : (k + 1) * Nat.pow 2 52 + m + 1 = (k + 1 + 1) * Nat.pow 2 52 + 0 := by
        rw [Nat.succ_mul (k + 1)]
        omega
      rw [he, magnitude_add (k + 1) (by decide)]
      calc (Nat.pow 2 52 + m) * Nat.pow 2 k
        _ < (2 * Nat.pow 2 52) * Nat.pow 2 k := Nat.mul_lt_mul_of_pos_right (by omega) hp
        _ = Nat.pow 2 52 * (2 * Nat.pow 2 k) := by rw [Nat.mul_comm 2, Nat.mul_assoc]
        _ = (Nat.pow 2 52 + 0) * Nat.pow 2 (k + 1) := by rw [Nat.mul_comm 2]; rfl

theorem magnitude_strictMono : StrictMono magnitude :=
  strictMono_nat_of_lt_succ magnitude_lt_succ

def unitsOfOne : Nat := Nat.pow 2 1074

theorem unitsOfOne_pos : 0 < unitsOfOne := by
  decide +kernel

def value? (x : Double) : Option ℚ :=
  x.units?.map fun n : ℤ => (n : ℚ) / unitsOfOne

def towardZero (q : ℚ) : ℤ :=
  if 0 ≤ q then ⌊q⌋ else ⌈q⌉

theorem towardZero_div (n : ℤ) {d : Nat} (hd : 0 < d) : towardZero (n / d) = n.tdiv d := by
  have hd : (0 : ℚ) < d := Nat.cast_pos.mpr hd
  unfold towardZero
  by_cases hn : 0 ≤ n
  case pos =>
    have hq : (0 : ℚ) ≤ n / d := div_nonneg (Int.cast_nonneg hn) hd.le
    rw [if_pos hq, Rat.floor_intCast_div_natCast, Int.tdiv_eq_ediv_of_nonneg hn]
  case neg =>
    have hn : n < 0 := Int.not_le.mp hn
    have hq : (n / d : ℚ) < 0 := div_neg_of_neg_of_pos (Int.cast_lt_zero.mpr hn) hd
    rw [if_neg (not_le.mpr hq), Rat.ceil_intCast_div_natCast,
      ← Int.tdiv_eq_ediv_of_nonneg (by omega), Int.neg_tdiv, Int.neg_neg]

theorem truncate?_eq_map (x : Double) : x.truncate? = x.units?.map (Int.tdiv · unitsOfOne) := by
  unfold truncate? unitsOfOne
  exact rfl

theorem truncate?_eq (x : Double) : x.truncate? = x.value?.map towardZero := by
  rw [truncate?_eq_map, value?, Option.map_map]
  cases x.units?
  case none => rfl
  case some n => exact congrArg some (towardZero_div n unitsOfOne_pos).symm

-- The least whole number that is too great for 64 bits.
def pastWords : Double := .ofInt (Int64.maxValue.toInt + 1)

theorem pastWords_eq : pastWords = .finite false ⟨1086 * Nat.pow 2 52, by decide⟩ := by
  decide +kernel

-- A number that a growing function takes at one place is the integer part of nothing else if the
-- function is 1 further at the next place.
theorem div_eq_iff_of_gap {f : Nat → Nat} (hf : StrictMono f) {d q r n : Nat} (hd : 0 < d)
    (hl : f r = q * d) (hu : (q + 1) * d ≤ f (r + 1)) : f n / d = q ↔ n = r := by
  constructor
  case mp =>
    intro h
    have hr : f r ≤ f n := hl ▸ (Nat.le_div_iff_mul_le hd).mp h.ge
    have hn : f n < f (r + 1) :=
      Nat.lt_of_lt_of_le ((Nat.div_lt_iff_lt_mul hd).mp (Nat.lt_succ_of_le h.le)) hu
    exact Nat.le_antisymm (Nat.le_of_lt_succ (hf.lt_iff_lt.mp hn)) (hf.le_iff_le.mp hr)
  case mpr =>
    rintro rfl
    rw [hl, Nat.mul_div_cancel _ hd]

theorem magnitude_pastWords :
    magnitude (1086 * Nat.pow 2 52) = 9223372036854775808 * unitsOfOne :=
  (magnitude_add (m := 0) 1085 (by decide)).trans (by decide +kernel)

theorem magnitude_div_iff :
    magnitude rank / unitsOfOne = 9223372036854775808 ↔ rank = 1086 * Nat.pow 2 52 :=
  have hu : (9223372036854775808 + 1) * unitsOfOne ≤ magnitude (1086 * Nat.pow 2 52 + 1) :=
    le_of_le_of_eq (by decide +kernel) (magnitude_add 1085 (by decide)).symm
  div_eq_iff_of_gap magnitude_strictMono unitsOfOne_pos magnitude_pastWords hu

theorem value?_pastWords : pastWords.value? = some 9223372036854775808 := by
  have hp : (unitsOfOne : ℚ) ≠ 0 := Nat.cast_ne_zero.mpr unitsOfOne_pos.ne'
  rw [pastWords_eq, value?, units?, if_neg Bool.false_ne_true, magnitude_pastWords, Option.map_some,
    Int.cast_natCast, Nat.cast_mul, mul_div_cancel_right₀ _ hp]
  rfl

theorem truncate?_eq_some_iff :
    x.truncate? = some (Int64.maxValue.toInt + 1) ↔ x = pastWords := by
  have hw : Int64.maxValue.toInt + 1 = (9223372036854775808 : Nat) := by decide
  rw [truncate?_eq_map, hw, pastWords_eq]
  rcases x with _ | _ | ⟨negative, rank⟩
  case nan | infinite => simp only [units?, Option.map_none, reduceCtorEq]
  case finite =>
    rw [units?, Option.map_some, Option.some.injEq, finite.injEq, Fin.ext_iff,
      ← magnitude_div_iff]
    cases negative
    case false =>
      rw [if_neg Bool.false_ne_true, ← Int.ofNat_tdiv, Int.ofNat_inj]
      exact ⟨fun h => ⟨rfl, h⟩, And.right⟩
    case true =>
      rw [if_pos rfl, Int.neg_tdiv, ← Int.ofNat_tdiv]
      generalize magnitude rank / unitsOfOne = q
      simp only [Bool.true_eq_false, false_and, iff_false]
      omega

theorem truncate?_pastWords : pastWords.truncate? = some (Int64.maxValue.toInt + 1) :=
  truncate?_eq_some_iff.mpr rfl

end Double

namespace Value

variable {x : Double} {n : Int} {w : Int64}

theorem toInt_ofInt (hl : Int64.minValue.toInt ≤ n) (hg : n ≤ Int64.maxValue.toInt) :
    (Int64.ofInt n).toInt = n :=
  Int64.toInt_ofInt_of_le hl (Int.lt_add_one_of_le hg)

theorem word?_eq_some_iff : word? n = some w ↔ n = w.toInt := by
  unfold word?
  split
  case isTrue h => rw [Option.some.injEq, ← Int64.toInt_inj, toInt_ofInt h.1 h.2]
  case isFalse h =>
    constructor
    case mp => exact nofun
    case mpr =>
      rintro rfl
      exact absurd ⟨w.minValue_le_toInt, w.toInt_le⟩ h

theorem inRange_iff {v : Value} {least greatest : Int64} :
    v.inRange least greatest ↔
      ∃ w, v.toInteger? = some w ∧ least.toInt ≤ w.toInt ∧ w.toInt ≤ greatest.toInt := by
  unfold inRange
  cases v.toInteger? <;> simp

theorem toInteger?_pastWords : (float .pastWords).toInteger? = some .maxValue := by
  rw [toInteger?, truncated?, Double.truncate?_pastWords]
  rfl

theorem toInteger?_float (h : x ≠ .pastWords) :
    (float x).toInteger? = (x.value?.map Double.towardZero).bind word? := by
  rw [toInteger?, truncated?, ← Double.truncate?_eq]
  refine Option.bind_congr fun n hn => if_neg ?_
  rintro rfl
  exact h (Double.truncate?_eq_some_iff.mp hn)

-- A double is taken as an integer if its value without the fraction has 64 bits, and as that.
structure CoercesExactly (x : Double) : Prop where
  coerced : ∀ w : Int64,
    (float x).toInteger? = some w ↔ x.value?.map Double.towardZero = some w.toInt
  range : (float x).toInteger?.isSome ↔ ∃ n, x.value?.map Double.towardZero = some n ∧
    Int64.minValue.toInt ≤ n ∧ n ≤ Int64.maxValue.toInt
  between : ∀ least greatest : Int64, (float x).inRange least greatest ↔
    ∃ n, x.value?.map Double.towardZero = some n ∧ least.toInt ≤ n ∧ n ≤ greatest.toInt

theorem CoercesExactly.of_coerced (h : ∀ w : Int64,
    (float x).toInteger? = some w ↔ x.value?.map Double.towardZero = some w.toInt) :
    CoercesExactly x where
  coerced := h
  range := by
    rw [Option.isSome_iff_exists]
    constructor
    case mp => exact fun ⟨w, hw⟩ => ⟨w.toInt, (h w).mp hw, w.minValue_le_toInt, w.toInt_le⟩
    case mpr =>
      intro ⟨n, hn, hl, hg⟩
      exact ⟨.ofInt n, (h _).mpr (by rw [toInt_ofInt hl hg, hn])⟩
  between least greatest := by
    rw [inRange_iff]
    constructor
    case mp => exact fun ⟨w, hw, hr⟩ => ⟨w.toInt, (h w).mp hw, hr⟩
    case mpr =>
      intro ⟨n, hn, hl, hg⟩
      have hi := toInt_ofInt (least.minValue_le_toInt.trans hl) (hg.trans greatest.toInt_le)
      exact ⟨.ofInt n, (h _).mpr (by rw [hi, hn]), by rwa [hi], by rwa [hi]⟩

theorem inRange_pastWords {least greatest : Int64} :
    (float .pastWords).inRange least greatest ↔ greatest = .maxValue := by
  rw [inRange_iff]
  constructor
  case mp =>
    intro ⟨w, hw, _, hg⟩
    cases toInteger?_pastWords.symm.trans hw
    exact Int64.toInt_inj.mp (Int.le_antisymm greatest.toInt_le hg)
  case mpr =>
    rintro rfl
    exact ⟨.maxValue, toInteger?_pastWords, least.toInt_le, Int.le_refl _⟩

theorem not_coercesExactly_pastWords : ¬CoercesExactly .pastWords := by
  intro h
  have hw := (h.coerced .maxValue).mp toInteger?_pastWords
  rw [← Double.truncate?_eq, Double.truncate?_pastWords, Option.some.injEq] at hw
  omega

-- The bounds of 64 bits are compared as doubles, and the upper one is rounded up. So there is one
-- double that is taken for the greatest integer and is not in range: the one next to the range.
theorem coerced_exactly_iff (x : Double) :
    (CoercesExactly x ↔ x ≠ .pastWords) ∧
    (float .pastWords).toInteger? = some .maxValue ∧
    ∀ least greatest : Int64,
      (float .pastWords).inRange least greatest ↔ greatest = .maxValue := by
  refine ⟨⟨?mp, ?mpr⟩, toInteger?_pastWords, fun _ _ => inRange_pastWords⟩
  case mp => exact fun h he => not_coercesExactly_pastWords (he ▸ h)
  case mpr =>
    intro h
    refine .of_coerced fun w => ?_
    simp only [toInteger?_float h, Option.bind_eq_some_iff, word?_eq_some_iff, exists_eq_right]

-- The number `2 ^ 63` is found to be at most `2 ^ 63 - 1`.
theorem pastWords_in_range :
    let x := Double.ofInt 9223372036854775808
    x.value? = some 9223372036854775808 ∧ (float x).toInteger? = some .maxValue ∧
    (float x).inRange .maxValue .maxValue ∧ ¬CoercesExactly x := by
  intro x
  have hx : x = .pastWords := congrArg Double.ofInt (by decide)
  rw [hx]
  exact ⟨Double.value?_pastWords, toInteger?_pastWords, inRange_pastWords.mpr rfl,
    not_coercesExactly_pastWords⟩

end Value
end Readback
