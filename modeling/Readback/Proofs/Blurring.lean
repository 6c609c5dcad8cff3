import Readback.Proofs.Comparing
import Readback.Proofs.Rounding

namespace Readback

theorem compare_then {α : Type} [Ord α] [Std.TransOrd α] {i j k : α}
    (hi : (compare i j).isLE) (hj : (compare j k).isLE) :
    compare i k = (compare i j).then (compare j k) := by
  cases ho : compare i j
  case lt => exact Std.TransCmp.lt_of_lt_of_isLE ho hj
  case eq => exact Std.TransCmp.congr_left ho
  case gt => simp [ho] at hi

namespace Double

variable {x y z : Double} {o p : Ordering}

theorem compare?_eq_some_iff :
    x.compare? y = some o ↔
      ∃ i j, x.place? = some i ∧ y.place? = some j ∧ compare i j = o := by
  simp [compare?, Option.bind_eq_some_iff]

theorem compare?_then (hx : x.compare? y = some o) (hy : y.compare? z = some p) (ho : o.isLE)
    (hp : p.isLE) : x.compare? z = some (o.then p) := by
  have ⟨i, j, hi, hj, hij⟩ := compare?_eq_some_iff.mp hx
  have ⟨j', k, hj', hk, hjk⟩ := compare?_eq_some_iff.mp hy
  cases hj.symm.trans hj'
  subst hij hjk
  exact compare?_eq_some_iff.mpr ⟨i, k, hi, hk, compare_then ho hp⟩

theorem compare?_eq_comm (h : x.compare? y = some .eq) : y.compare? x = some .eq := by
  rw [compare?_swap, h]
  rfl

def blurs (x : Double) (m n : Int64) : Bool :=
  m != n && (ofInt m.toInt).same x && (ofInt n.toInt).same x

theorem compare?_ofInt (m n : Int) :
    (ofInt m).compare? (ofInt n) = some (compare (placeOfInt m) (placeOfInt n)) := by
  simp [compare?, place?_ofInt]

theorem compare?_ofInt_cases (m n : Int) :
    (ofInt m).compare? (ofInt n) = some (compare m n) ∨
    m ≠ n ∧ (ofInt m).compare? (ofInt n) = some .eq := by
  rw [compare?_ofInt]
  by_cases he : placeOfInt m = placeOfInt n
  case pos =>
    rw [he, Std.ReflOrd.compare_self]
    by_cases hn : m = n
    case pos => exact .inl (by rw [hn, Std.ReflOrd.compare_self])
    case neg => exact .inr ⟨hn, rfl⟩
  case neg =>
    left
    rcases Int.lt_trichotomy m n with hl | rfl | hl
    case inl =>
      have hp := placeOfInt_mono (Int.le_of_lt hl)
      rw [Int.compare_eq_lt.mpr hl, Int.compare_eq_lt.mpr (by omega)]
    case inr.inl => exact absurd rfl he
    case inr.inr =>
      have hp := placeOfInt_mono (Int.le_of_lt hl)
      rw [Int.compare_eq_gt.mpr hl, Int.compare_eq_gt.mpr (by omega)]

variable {m n : Int64}

theorem blurs_iff :
    x.blurs m n ↔
      m.toInt ≠ n.toInt ∧ (ofInt m.toInt).compare? x = some .eq ∧
      (ofInt n.toInt).compare? x = some .eq := by
  simp [blurs, same, Int64.toInt_inj, and_assoc]

end Double

namespace Value

mutual

-- Whether three values first differ where one is a double and the others are different integers
-- that both round to it.
def blurs : Value → Value → Value → Bool
  | int m, int n, float x => x.blurs m n
  | int m, float x, int n => x.blurs m n
  | float x, int m, int n => x.blurs m n
  | array as, array bs, array cs => blursItems as bs cs
  | _, _, _ => false

def blursItems : List Value → List Value → List Value → Bool
  | a :: as, b :: bs, c :: cs =>
    a.blurs b c || a.same b && b.same c && a.same c && blursItems as bs cs
  | _, _, _ => false

end

section

variable {m n : Int64} {x : Double} {o p : Ordering}

theorem compare?_then_of_int_int_float
    (hm : (int m).compare? (int n) = some o) (hn : (int n).compare? (float x) = some p)
    (ho : o.isLE) (hp : p.isLE) (h : ¬x.blurs m n) :
    (int m).compare? (float x) = some (o.then p) := by
  rcases Double.compare?_ofInt_cases m.toInt n.toInt with hr | ⟨hne, hr⟩
  case inl => exact Double.compare?_then (hr.trans hm) hn ho hp
  case inr =>
    have hx := Double.compare?_then hr hn rfl hp
    rcases Ordering.isLE_iff_eq_lt_or_eq_eq.mp ho with rfl | rfl
    case inr => exact hx
    case inl =>
      rcases Ordering.isLE_iff_eq_lt_or_eq_eq.mp hp with rfl | rfl
      case inl => exact hx
      case inr => exact absurd (Double.blurs_iff.mpr ⟨hne, hx, hn⟩) h

theorem compare?_then_of_float_int_int
    (hm : (float x).compare? (int m) = some o) (hn : (int m).compare? (int n) = some p)
    (ho : o.isLE) (hp : p.isLE) (h : ¬x.blurs m n) :
    (float x).compare? (int n) = some (o.then p) := by
  rcases Double.compare?_ofInt_cases m.toInt n.toInt with hr | ⟨hne, hr⟩
  case inl => exact Double.compare?_then hm (hr.trans hn) ho hp
  case inr =>
    have hx := Double.compare?_then hm hr ho rfl
    rcases Ordering.isLE_iff_eq_lt_or_eq_eq.mp hp with rfl | rfl
    case inr => exact hx
    case inl =>
      rcases Ordering.isLE_iff_eq_lt_or_eq_eq.mp ho with rfl | rfl
      case inl => exact hx
      case inr =>
        have hm := Double.compare?_eq_comm hm
        exact absurd (Double.blurs_iff.mpr ⟨hne, hm, Double.compare?_eq_comm hx⟩) h

theorem compare?_then_of_int_float_int
    (hm : (int m).compare? (float x) = some o) (hn : (float x).compare? (int n) = some p)
    (ho : o.isLE) (hp : p.isLE) (h : ¬x.blurs m n) :
    (int m).compare? (int n) = some (o.then p) := by
  have hx := Double.compare?_then hm hn ho hp
  rcases Double.compare?_ofInt_cases m.toInt n.toInt with hr | ⟨hne, hr⟩
  case inl => exact hr.symm.trans hx
  case inr =>
    have ⟨ho, hp⟩ := Ordering.then_eq_eq.mp (Option.some.inj (hx.symm.trans hr))
    subst ho hp
    exact absurd (Double.blurs_iff.mpr ⟨hne, hm, Double.compare?_eq_comm hn⟩) h

end

theorem compareItems?_cons_isLE {a b : Value} {as bs : List Value} {o : Ordering}
    (h : compareItems? (a :: as) (b :: bs) = some o) (ho : o.isLE) :
    a.compare? b = some .lt ∧ o = .lt ∨
    a.compare? b = some .eq ∧ compareItems? as bs = some o := by
  rw [compareItems?] at h
  rcases hab : a.compare? b with _ | _ | _ | _ <;> rw [hab] at h
  case none => cases h
  case some.lt => exact .inl ⟨rfl, (Option.some.inj h).symm⟩
  case some.eq => exact .inr ⟨rfl, h⟩
  case some.gt =>
    cases h
    cases ho

mutual

-- Two steps of which none goes down lead where the first of them that goes up leads, unless a
-- double blurs two integers on the way.
theorem compare?_then {a b c : Value} {o p : Ordering} (hb : a.compare? b = some o)
    (hc : b.compare? c = some p) (ho : o.isLE) (hp : p.isLE) (h : ¬a.blurs b c) :
    a.compare? c = some (o.then p) := by
  cases a <;> cases b <;> try (simp only [compare?, reduceCtorEq] at hb; done)
  all_goals cases c <;> try (simp only [compare?, reduceCtorEq] at hc; done)
  case int.int.int =>
    cases hb
    cases hc
    exact congrArg some (compare_then ho hp)
  case int.int.float => exact compare?_then_of_int_int_float hb hc ho hp h
  case int.float.int => exact compare?_then_of_int_float_int hb hc ho hp h
  case float.int.int => exact compare?_then_of_float_int_int hb hc ho hp h
  case int.float.float | float.int.float | float.float.int | float.float.float =>
    exact Double.compare?_then hb hc ho hp
  case text.text.text =>
    cases hb
    cases hc
    exact congrArg some (compare_then ho hp)
  case array.array.array => exact compareItems?_then hb hc ho hp h

theorem compareItems?_then {as bs cs : List Value} {o p : Ordering}
    (hb : compareItems? as bs = some o) (hc : compareItems? bs cs = some p) (ho : o.isLE)
    (hp : p.isLE) (h : ¬blursItems as bs cs) :
    compareItems? as cs = some (o.then p) := by
  match as, bs, cs with
  | [], [], _ =>
    cases hb
    exact hc
  | _, _ :: _, [] =>
    cases hc
    cases hp
  | _ :: _, [], _ =>
    cases hb
    cases ho
  | [], _ :: _, _ :: _ =>
    cases hb
    rfl
  | a :: as, b :: bs, c :: cs =>
    simp only [blursItems, Bool.or_eq_true, not_or, Bool.and_eq_true, not_and] at h
    rw [compareItems?]
    rcases compareItems?_cons_isLE hb ho with ⟨hi, rfl⟩ | ⟨hi, hbs⟩ <;>
    rcases compareItems?_cons_isLE hc hp with ⟨hj, rfl⟩ | ⟨hj, hcs⟩ <;>
    have hk := compare?_then hi hj rfl rfl h.1 <;>
    rw [hk]
    case inl.inl | inl.inr => rfl
    case inr.inl => rcases Ordering.isLE_iff_eq_lt_or_eq_eq.mp ho with rfl | rfl <;> rfl
    case inr.inr =>
      have hs := h.2 ⟨⟨(same_iff ..).mpr hi, (same_iff ..).mpr hj⟩, (same_iff ..).mpr hk⟩
      exact compareItems?_then hbs hcs ho hp hs

end

mutual

theorem not_blurs_of_same (a b c : Value) :
    a.same b → b.same c → a.same c → ¬a.blurs b c := by
  unfold blurs
  split
  case h_1 m n x => simp_all [same, Double.blurs]
  case h_2 m x n => simp_all [same, Double.blurs]
  case h_3 x m n => simp_all [same, Double.blurs]
  case h_4 as bs cs => exact not_blursItems_of_same as bs cs
  case h_5 => simp

theorem not_blursItems_of_same (as bs cs : List Value) :
    sameItems as bs → sameItems bs cs → sameItems as cs → ¬blursItems as bs cs := by
  unfold blursItems
  split
  case h_1 a as b bs c cs =>
    intro hb hc h
    rw [sameItems, Bool.and_eq_true] at hb hc h
    simp [not_blurs_of_same a b c hb.1 hc.1 h.1, not_blursItems_of_same as bs cs hb.2 hc.2 h.2]
  case h_2 => simp

end

theorem array_of_blurs {a b c : Value} (hb : a.compare? b = some .lt)
    (hc : b.compare? c = some .lt) (h : a.blurs b c) : ∃ items, b = .array items := by
  unfold blurs at h
  split at h
  case h_1 m n x =>
    have ⟨_, _, hn⟩ := Double.blurs_iff.mp h
    cases hn.symm.trans hc
  case h_2 m x n =>
    have ⟨_, hm, _⟩ := Double.blurs_iff.mp h
    cases hm.symm.trans hb
  case h_3 x m n =>
    have ⟨_, hm, _⟩ := Double.blurs_iff.mp h
    cases (Double.compare?_eq_comm hm).symm.trans hb
  case h_4 as bs cs => exact ⟨bs, rfl⟩
  case h_5 => cases h

-- Equality and order are passed on from one value to the next, except where three values first
-- differ in a double and two different integers that it stands for.
theorem comparison_transitive_unless_blurred (a b c : Value) :
    (a.same b → b.same c → (a.same c ↔ ¬a.blurs b c)) ∧
    (a.lessThan b → b.lessThan c → ¬a.blurs b c → a.lessThan c) ∧
    (a.lessThan b → b.lessThan c → (∀ items, b ≠ .array items) → a.lessThan c) := by
  simp only [lessThan, beq_iff_eq]
  refine ⟨fun hb hc => ⟨not_blurs_of_same a b c hb hc, fun h => ?_⟩, fun hb hc h => ?_,
    fun hb hc h => ?_⟩
  case refine_1 =>
    rw [same_iff] at hb hc ⊢
    exact compare?_then hb hc rfl rfl h
  case refine_2 => exact compare?_then hb hc rfl rfl h
  case refine_3 =>
    refine compare?_then hb hc rfl rfl fun hblur => ?_
    obtain ⟨items, hi⟩ := array_of_blurs hb hc hblur
    exact h items hi

-- Two great integers in a chain of arrays, where the double in the last one stands for neither.
theorem comparison_transitive_of_wide_integers :
    let first := array [int 9007199254740992, int 9]
    let second := array [int 9007199254740993, int 1]
    let third := array [float (.ofInt 9007199254740994), int 0]
    first.lessThan second ∧ second.lessThan third ∧ first.lessThan third := by
  intro first second third
  have hb : first.lessThan second := by decide +kernel
  have hc : second.lessThan third := by decide +kernel
  exact ⟨hb, hc, (comparison_transitive_unless_blurred _ _ _).2.1 hb hc (by decide +kernel)⟩

-- One double is equal to two integers that differ. In arrays it undoes the order from each of the
-- three places, by what stands behind it.
theorem comparison_not_transitive :
    let even := int 9007199254740992
    let odd := int 9007199254740993
    let double := float (.ofInt 9007199254740992)
    (odd.same double ∧ double.same even ∧ ¬odd.same even) ∧
    ((array [odd, int 1]).lessThan (array [double, int 2]) ∧
      (array [double, int 2]).lessThan (array [even, int 3]) ∧
      ¬(array [odd, int 1]).lessThan (array [even, int 3])) ∧
    ((array [even, int 3]).lessThan (array [odd, int 1]) ∧
      (array [odd, int 1]).lessThan (array [double, int 2]) ∧
      ¬(array [even, int 3]).lessThan (array [double, int 2])) ∧
    ((array [double, int 2]).lessThan (array [even, int 3]) ∧
      (array [even, int 3]).lessThan (array [odd, int 1]) ∧
      ¬(array [double, int 2]).lessThan (array [odd, int 1])) := by
  decide +kernel

end Value
end Readback
