import Mathlib.Data.List.TakeDrop
import Readback.Server.Access

namespace Readback

namespace Field

theorem point_not_mem_code (f : Field) : '.' ∉ f.code.toList := by
  cases f <;> decide

theorem span_point {last rest : List Char} (h : '.' ∉ last) :
    (last ++ '.' :: rest).span (· != '.') = (last, '.' :: rest) := by
  have hl : ∀ c ∈ last, (c != '.') = true := fun c hc => bne_iff_ne.mpr fun he => h (he ▸ hc)
  rw [List.span_eq_takeWhile_dropWhile, List.takeWhile_append_of_pos hl,
    List.dropWhile_append_of_pos hl]
  simp

theorem split?_join {code : String} (pv : String) (h : '.' ∉ code.toList) :
    split? (join pv code) = some (pv, code) := by
  have hr : (join pv code).toList.reverse = code.toList.reverse ++ '.' :: pv.toList.reverse := by
    simp [join, String.toList_append]
  unfold split?
  rw [hr, span_point (by simpa using h)]
  simp

theorem split?_of (f : Field) (pv : String) : split? (f.of pv) = some (pv, f.code) :=
  split?_join pv f.point_not_mem_code

theorem of_ne {name : String} (f : Field) (pv : String) (h : '.' ∉ name.toList) :
    f.of pv ≠ name := by
  intro he
  refine h (he ▸ ?_)
  simp [of, join, String.toList_append]

theorem severity_of (pv : String) : Field.severity.of pv = pv ++ ".SEVR" := by
  rw [of, join, String.append_assoc]
  rfl

theorem of_ne_self (f : Field) (pv : String) : f.of pv ≠ pv := by
  intro he
  have hl := congrArg String.length he
  have hp : ".".length = 1 := rfl
  simp only [of, join, String.length_append] at hl
  omega

theorem ofCode?_code (f : Field) : ofCode? f.code = some f := by
  cases f <;> rfl

theorem join_of_split? {name pv code : String} (h : split? name = some (pv, code)) :
    name = join pv code := by
  simp only [split?, List.span_eq_takeWhile_dropWhile] at h
  have hl := List.takeWhile_append_dropWhile (p := (· != '.')) (l := name.toList.reverse)
  have hp := List.head?_dropWhile_not (· != '.') name.toList.reverse
  split at h
  case h_1 => cases h
  case h_2 point rest hd =>
    cases h
    rw [hd] at hl hp
    have hc : point = '.' := by simpa using hp
    have hn := congrArg List.reverse hl
    rw [List.reverse_reverse, hc, List.reverse_append, List.reverse_cons] at hn
    exact String.toList_inj.mp (hn.symm.trans (by simp [join, String.toList_append]))

theorem code_of_ofCode? {code : String} {f : Field} (h : ofCode? code = some f) :
    f.code = code := by
  simpa using List.find?_some h

end Field

namespace Server

variable {s : Server} {pv name base : String} {r : Record} {f : Field} {field : Option Field}

theorem locate?_record (hr : s.records.find? pv = some r) : s.locate? pv = some (pv, none) := by
  simp [locate?, Registry.contains, hr]

theorem locate?_field (hf : s.records.find? (f.of pv) = none) :
    s.locate? (f.of pv) = if s.records.contains pv then some (pv, some f) else none := by
  cases hr : s.records.find? pv <;>
    simp [locate?, Registry.contains, hf, hr, Field.split?_of, Field.ofCode?_code]

theorem locate?_of_missing_iff (h : s.records.find? name = none) :
    s.locate? name = some (base, field) ↔
      ∃ code f, Field.split? name = some (base, code) ∧ s.records.contains base ∧
        Field.ofCode? code = some f ∧ field = some f := by
  rw [locate?, if_neg (by simp [Registry.contains, h])]
  simp only [Option.bind_eq_bind, Option.bind_eq_some_iff, Prod.exists]
  constructor
  case mp =>
    rintro ⟨b, code, hs, hl⟩
    by_cases hb : s.records.contains b
    case neg => simp [hb] at hl
    case pos =>
      rw [if_pos hb] at hl
      obtain ⟨f, hf, hl⟩ := Option.bind_eq_some_iff.mp hl
      cases hl
      exact ⟨code, f, hs, hb, hf, rfl⟩
  case mpr =>
    rintro ⟨code, f, hs, hb, hf, he⟩
    exact ⟨base, code, hs, by simp [hb, hf, he]⟩

theorem eq_of_locate?_record (h : s.locate? name = some (base, none)) : base = name := by
  cases hr : s.records.find? name
  case none =>
    have ⟨_, _, _, _, _, hf⟩ := (locate?_of_missing_iff hr).mp h
    cases hf
  case some =>
    rw [locate?_record hr] at h
    cases h
    rfl

theorem eq_of_locate?_field (h : s.locate? name = some (base, some f)) :
    s.records.find? name = none ∧ name = f.of base := by
  cases hr : s.records.find? name
  case none =>
    have ⟨code, _, hc, _, hf, he⟩ := (locate?_of_missing_iff hr).mp h
    cases he
    exact ⟨rfl, (Field.join_of_split? hc).trans (congrArg _ (Field.code_of_ofCode? hf).symm)⟩
  case some =>
    rw [locate?_record hr] at h
    cases h

theorem resolve?_record (hr : s.records.find? pv = some r) :
    s.resolve? pv = if r.isReachable s.clock then some (pv, r, none) else none := by
  simp [resolve?, locate?_record hr, hr]

theorem resolve?_field (hf : s.records.find? (f.of pv) = none)
    (hr : s.records.find? pv = some r) :
    s.resolve? (f.of pv) = if r.isReachable s.clock then some (pv, r, some f) else none := by
  simp [resolve?, locate?_field hf, Registry.contains, hr]

theorem resolve?_field_of_missing (hf : s.records.find? (f.of pv) = none)
    (hr : s.records.find? pv = none) : s.resolve? (f.of pv) = none := by
  simp [resolve?, locate?_field hf, Registry.contains, hr]

theorem get_record (hr : s.records.find? pv = some r) (ha : r.isReachable s.clock) :
    s.get pv = .ok r.value := by
  rw [get, resolve?_record hr, if_pos ha]
  rfl

theorem get_field (hf : s.records.find? (f.of pv) = none) (hr : s.records.find? pv = some r)
    (ha : r.isReachable s.clock) : s.get (f.of pv) = .ok (r.read (some f)) := by
  rw [get, resolve?_field hf hr, if_pos ha]

theorem resolve?_eq_some_iff :
    s.resolve? name = some (base, r, field) ↔
      s.locate? name = some (base, field) ∧ s.records.find? base = some r ∧
        r.isReachable s.clock := by
  simp only [resolve?, Option.bind_eq_bind, Option.bind_eq_some_iff, Prod.exists]
  constructor
  case mp =>
    rintro ⟨base', field', hl, r', hr, h⟩
    split at h
    case isTrue ha =>
      cases h
      exact ⟨hl, hr, ha⟩
    case isFalse => cases h
  case mpr => exact fun ⟨hl, hr, ha⟩ => ⟨base, field, hl, r, hr, if_pos ha⟩

end Server
end Readback
