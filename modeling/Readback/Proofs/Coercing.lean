import Readback.Proofs.Differences
import Readback.Proofs.Nearest

namespace Readback

namespace Text

theorem toLower_of_isDigit {c : Char} (h : isDigit c) : c.toLower = c := by
  delta Char.toLower
  split
  case isFalse => rfl
  case isTrue hu =>
    have hg : c.toNat ≤ 57 := (isDigit_iff.mp h).right
    have hl : 65 ≤ c.toNat := hu.left
    omega

end Text

open Text

namespace Double

variable {cs : List Char} {n : Nat} {i : Int} {x y : Double}

theorem unsigned?_of_natural? (h : natural? cs = some n) (negative : Bool) :
    unsigned? negative cs = some (ofDecimal negative n 0) := by
  obtain ⟨hn, hd, rfl⟩ := natural?_eq_some_iff.mp h
  have hl : cs.map Char.toLower = cs :=
    (List.map_congr_left fun c hc => toLower_of_isDigit (hd c hc)).trans (List.map_id' cs)
  unfold unsigned?
  rw [hl]
  split
  case h_1 => cases hd 'n' List.mem_cons_self
  case h_2 | h_3 => cases hd 'i' List.mem_cons_self
  case h_4 =>
    have ht := ofText?_whole hd hn exponent?_nil
    rw [List.append_nil] at ht
    simp [ht, Numeral.toDouble]

theorem signed_lt_zero_iff {negative : Bool} (hn : n ≠ 0) : signed negative n < 0 ↔ negative := by
  cases negative
  case false => simp [signed]
  case true =>
    simp only [signed, if_true, iff_true]
    omega

theorem natAbs_signed (negative : Bool) (n : Nat) : (signed negative n).natAbs = n := by
  cases negative <;> simp [signed]

theorem placeOfInt_zero : placeOfInt 0 = 0 := by
  rw [placeOfInt, rankOfInt, Int.natAbs_zero, Nat.zero_mul (Nat.pow 2 1074)]
  rfl

theorem place?_ofDecimal (negative : Bool) (n : Nat) :
    (ofDecimal negative n 0).place? = some (placeOfInt (signed negative n)) := by
  by_cases hn : n = 0
  case pos =>
    have hs : signed negative n = 0 := Int.natAbs_eq_zero.mp ((natAbs_signed negative n).trans hn)
    rw [ofDecimal, if_pos hn, hs, placeOfInt_zero]
    cases negative <;> rfl
  case neg =>
    have hl : ¬(0 : Int) + n.log2 < -400 := by omega
    have hp : n * Nat.pow 10 (0 : Int).toNat = n := Nat.mul_one n
    rw [ofDecimal, if_neg hn, if_neg (by decide), if_neg hl, if_pos (Int.le_refl 0), hp,
      place?_ofRatio, placeOfInt, rankOfInt, natAbs_signed]
    simp only [signed_lt_zero_iff hn]

theorem ofText?_of_digits (hd : ∀ c ∈ cs, isDigit c) : ofText? cs = unsigned? false cs := by
  unfold ofText?
  split
  case h_1 => cases hd '-' List.mem_cons_self
  case h_2 => cases hd '+' List.mem_cons_self
  case h_3 => rfl

theorem ofText?_of_integer? (h : integer? cs = some i) :
    ∃ x, ofText? cs = some x ∧ x.place? = some (placeOfInt i) := by
  obtain ⟨ds, n, hn, ⟨rfl, rfl⟩ | ⟨rfl | rfl, rfl⟩⟩ := exists_of_integer? h
  case inl => exact ⟨_, unsigned?_of_natural? hn true, place?_ofDecimal true n⟩
  case inr.inl => exact ⟨_, unsigned?_of_natural? hn false, place?_ofDecimal false n⟩
  case inr.inr =>
    have hs := ofText?_of_digits (natural?_eq_some_iff.mp hn).right.left
    exact ⟨_, hs.trans (unsigned?_of_natural? hn false), place?_ofDecimal false n⟩

theorem atMost_congr (h : x.place? = y.place?) (z : Double) : x.atMost z = y.atMost z := by
  unfold atMost compare?
  rw [h]

theorem place?_abs_of_zero (h : x.place? = some 0) : x.abs.place? = some 0 := by
  rcases x with _ | _ | ⟨a, rank⟩
  case nan => cases h
  case infinite => exact absurd h place?_infinite_ne_zero
  case finite =>
    rw [place?_finite, Option.some.injEq] at h
    rw [abs, place?_finite, ← natAbs_signed a rank, h]
    rfl

theorem abs_sub_atMost (hf : y.isFinite) (hs : x.same y) (tolerance : Double) :
    (x.sub y).abs.atMost tolerance = zero.atMost tolerance := by
  have hx : x.isFinite := by
    by_contra hx
    obtain ⟨negative, rfl, rfl⟩ := (same_of_not_finite hx).mp hs
    cases hf
  exact atMost_congr (place?_abs_of_zero (place?_sub_eq_zero_iff.mpr ⟨hx, hs⟩)) tolerance

end Double

namespace Value

variable {s : String} {w : Int64}

theorem exists_toDouble?_of_integer (h : (text s).toInteger? = some w) :
    ∃ x, (text s).toDouble? = some x ∧ x.same (.ofInt w.toInt) := by
  obtain ⟨i, hi, hw⟩ := Option.bind_eq_some_iff.mp h
  obtain rfl := word?_eq_some_iff.mp hw
  have ⟨x, hx, hp⟩ := Double.ofText?_of_integer? hi
  exact ⟨x, hx, Double.same_iff_place.mpr ⟨_, hp, Double.place?_ofInt _⟩⟩

-- A text that is an integer is a number too, and as a number it is equal to the integer, which is
-- the double nearest to it. So a text that is in a range as an integer is no further away from that
-- integer than any tolerance that is not negative.
theorem text_of_integer_is_number (s : String) :
    (∀ w, (text s).toInteger? = some w → ∃ x y, (text s).toDouble? = some x ∧
      (int w).toDouble? = some y ∧ x.same y ∧ y.IsNearest w.toInt) ∧
    ∀ least greatest : Int64, (text s).inRange least greatest →
      ∃ w y, (text s).toInteger? = some w ∧ least.toInt ≤ w.toInt ∧ w.toInt ≤ greatest.toInt ∧
        (int w).toDouble? = some y ∧
        ∀ tolerance, (text s).within y tolerance ↔ Double.zero.atMost tolerance := by
  constructor
  case left =>
    intro w h
    have ⟨x, hx, hs⟩ := exists_toDouble?_of_integer h
    exact ⟨x, _, hx, rfl, hs, Double.isNearest_ofInt (Double.isFinite_ofInt w)⟩
  case right =>
    intro least greatest h
    have ⟨w, hw, hl, hg⟩ := inRange_iff.mp h
    have ⟨x, hx, hs⟩ := exists_toDouble?_of_integer hw
    refine ⟨w, _, hw, hl, hg, rfl, fun tolerance => ?_⟩
    rw [within, hx]
    exact Bool.eq_iff_iff.mp (Double.abs_sub_atMost (Double.isFinite_ofInt w) hs tolerance)

-- A text with blanks, a sign and leading zeros, of an integer that is too long for a double.
theorem text_of_integer_is_number_of_rounded :
    let s := "\t+009007199254740993 "
    let w : Int64 := 9007199254740993
    let y := Double.ofInt 9007199254740992
    (text s).toInteger? = some w ∧ (int w).toDouble? = some y ∧
    (∃ x, (text s).toDouble? = some x ∧ x.same y) ∧ y.IsNearest w.toInt ∧
    (text s).inRange w w ∧
    ∀ tolerance, (text s).within y tolerance ↔ Double.zero.atMost tolerance := by
  intro s w y
  have hw : (text s).toInteger? = some w := by decide +kernel
  have hy : (int w).toDouble? = some y := by decide +kernel
  have hr : (text s).inRange w w := by decide +kernel
  have ⟨integer, range⟩ := text_of_integer_is_number s
  obtain ⟨x, z, hx, hz, hs, hn⟩ := integer w hw
  obtain rfl : y = z := Option.some.inj (hy.symm.trans hz)
  obtain ⟨v, z, hv, _, _, hz, ht⟩ := range w w hr
  obtain rfl : w = v := Option.some.inj (hw.symm.trans hv)
  obtain rfl : y = z := Option.some.inj (hy.symm.trans hz)
  exact ⟨hw, hy, ⟨x, hx, hs⟩, hn, hr, ht⟩

end Value
end Readback
