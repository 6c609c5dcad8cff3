import Readback.Assertion.Condition

namespace Readback

namespace Double

theorem compare?_swap (x y : Double) : y.compare? x = (x.compare? y).map Ordering.swap := by
  unfold compare?
  cases x.place? <;> cases y.place? <;> try rfl
  case some.some i j => exact congrArg some Std.OrientedCmp.eq_swap

theorem same_iff {x y : Double} : x.same y ↔ x.compare? y = some .eq := by
  simp [same]

theorem same_comm (x y : Double) : x.same y = y.same x := by
  rw [same, same, compare?_swap x y]
  rcases x.compare? y with _ | _ | _ | _ <;> rfl

end Double

namespace Value

mutual

theorem same_iff (a b : Value) : a.same b ↔ a.compare? b = some .eq := by
  match a, b with
  | int m, int n => simp [same, compare?, Int64.toInt_inj]
  | int m, float y => exact Double.same_iff
  | float x, int n =>
    rw [same, Double.same_comm]
    exact Double.same_iff
  | float x, float y => exact Double.same_iff
  | text s, text t => simp [same, compare?]
  | array as, array bs => exact sameItems_iff as bs
  | int _, text _ | int _, array _ | float _, text _ | float _, array _ | text _, int _
  | text _, float _ | text _, array _ | array _, int _ | array _, float _ | array _, text _ =>
    simp [same, compare?]

theorem sameItems_iff (as bs : List Value) :
    sameItems as bs ↔ compareItems? as bs = some .eq := by
  match as, bs with
  | [], [] | [], _ :: _ | _ :: _, [] => simp [sameItems, compareItems?]
  | a :: as, b :: bs =>
    rw [sameItems, compareItems?, Bool.and_eq_true, same_iff a b, sameItems_iff as bs]
    rcases a.compare? b with _ | _ | _ | _ <;> simp

end

mutual

theorem compare?_swap (a b : Value) : b.compare? a = (a.compare? b).map Ordering.swap := by
  match a, b with
  | int m, int n => exact congrArg some Std.OrientedCmp.eq_swap
  | int _, float _ | float _, int _ | float _, float _ => exact Double.compare?_swap ..
  | text s, text t => exact congrArg some Std.OrientedCmp.eq_swap
  | array as, array bs => exact compareItems?_swap as bs
  | int _, text _ | int _, array _ | float _, text _ | float _, array _ | text _, int _
  | text _, float _ | text _, array _ | array _, int _ | array _, float _ | array _, text _ =>
    simp [compare?]

theorem compareItems?_swap (as bs : List Value) :
    compareItems? bs as = (compareItems? as bs).map Ordering.swap := by
  match as, bs with
  | [], [] | [], _ :: _ | _ :: _, [] => rfl
  | a :: as, b :: bs =>
    rw [compareItems?, compareItems?, compare?_swap a b, compareItems?_swap as bs]
    rcases a.compare? b with _ | _ | _ | _ <;> rfl

end

end Value

namespace Trend

def order : Trend → Ordering
  | increasing => .gt
  | decreasing => .lt
  | unchanged => .eq

theorem holds_iff {last initial : Value} (t : Trend) :
    t.holds last initial ↔ last.compare? initial = some t.order := by
  cases t
  case unchanged => exact Value.same_iff last initial
  all_goals simp [holds, order, Value.greaterThan, Value.lessThan]

theorem order_inj {t t' : Trend} (h : t.order = t'.order) : t = t' := by
  cases t <;> cases t' <;> first | rfl | cases h

theorem exists_order_eq (o : Ordering) : ∃ t : Trend, t.order = o := by
  cases o
  case lt => exact ⟨decreasing, rfl⟩
  case eq => exact ⟨unchanged, rfl⟩
  case gt => exact ⟨increasing, rfl⟩

end Trend

namespace Value

-- Values are equal just if neither comes before the other, and the order is the same from either
-- side. So a value moves in one way between two looks, or in none if the two are not comparable.
theorem equality_and_order_agree (a b : Value) :
    (a.same b ↔ a.compare? b = some .eq) ∧
    b.compare? a = (a.compare? b).map Ordering.swap ∧
    (∀ t t' : Trend, t.holds a b → t'.holds a b → t = t') ∧
    ((∀ t : Trend, ¬t.holds a b) ↔ a.compare? b = none) ∧
    (Trend.increasing.holds a b ↔ Trend.decreasing.holds b a) := by
  refine ⟨same_iff a b, compare?_swap a b, fun t t' h h' => ?_, ?_, ?_⟩
  case refine_1 =>
    rw [Trend.holds_iff] at h h'
    exact Trend.order_inj (Option.some.inj (h.symm.trans h'))
  case refine_2 =>
    simp only [Trend.holds_iff]
    constructor
    case mp =>
      intro h
      cases ho : a.compare? b
      case none => rfl
      case some o =>
        have ⟨t, ht⟩ := Trend.exists_order_eq o
        exact absurd (ht ▸ ho) (h t)
    case mpr => exact fun h t ht => by cases h.symm.trans ht
  case refine_3 =>
    rw [Trend.holds_iff, Trend.holds_iff, compare?_swap a b]
    rcases a.compare? b with _ | _ | _ | _ <;> simp [Trend.order]

end Value
end Readback
