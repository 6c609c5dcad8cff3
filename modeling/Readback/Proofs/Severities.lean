import Mathlib.Data.List.TakeWhile
import Readback.Proofs.Posting
import Readback.Proofs.Sheltering
import Readback.Proofs.Truncating
import Readback.Server.Transport

namespace Readback

namespace Text

variable {cs before core after : List Char} {c : Char}

theorem dropWhile_blanks (hb : ∀ c ∈ before, isBlank c) (hc : ∀ c ∈ cs.head?, ¬isBlank c) :
    (before ++ cs).dropWhile isBlank = cs := by
  rw [List.dropWhile_append_of_pos hb]
  cases cs
  case nil => rfl
  case cons c cs => exact List.dropWhile_cons_of_neg (hc c rfl)

theorem trim_of_blanks (hb : ∀ c ∈ before, isBlank c) (ha : ∀ c ∈ after, isBlank c)
    (hn : core ≠ []) (hc : ∀ c ∈ core, ¬isBlank c) : trim (before ++ core ++ after) = core := by
  have hf : ∀ c ∈ (core ++ after).head?, ¬isBlank c := by
    rw [List.head?_append_of_ne_nil _ hn]
    exact fun c h => hc c (List.mem_of_mem_head? h)
  have hl : ∀ c ∈ core.reverse.head?, ¬isBlank c :=
    fun c h => hc c (List.mem_reverse.mp (List.mem_of_mem_head? h))
  have hr : ∀ c ∈ after.reverse, isBlank c := fun c h => ha c (List.mem_reverse.mp h)
  rw [trim, List.append_assoc, dropWhile_blanks hb hf, List.reverse_append, dropWhile_blanks hr hl,
    List.reverse_reverse]

theorem exists_eq_trim (cs : List Char) :
    ∃ before after, (∀ c ∈ before, isBlank c) ∧ (∀ c ∈ after, isBlank c) ∧
      cs = before ++ trim cs ++ after := by
  let rest := cs.dropWhile isBlank
  refine ⟨cs.takeWhile isBlank, (rest.reverse.takeWhile isBlank).reverse,
    fun c h => List.mem_takeWhile_imp h,
    fun c h => List.mem_takeWhile_imp (List.mem_reverse.mp h), ?_⟩
  have hr : trim cs ++ (rest.reverse.takeWhile isBlank).reverse = rest := by
    rw [trim, ← List.reverse_append, List.takeWhile_append_dropWhile, List.reverse_reverse]
  rw [List.append_assoc, hr, List.takeWhile_append_dropWhile]

theorem toLower_of_isBlank (h : isBlank c) : c.toLower = c := by
  delta Char.toLower
  split
  case isFalse => rfl
  case isTrue hu =>
    have hl : 65 ≤ c.toNat := hu.left
    have hr : c.toNat ≤ 90 := hu.right
    simp only [isBlank, Bool.or_eq_true, Bool.and_eq_true, decide_eq_true_eq, beq_iff_eq] at h
    omega

end Text

open Text

namespace Severity

-- The severity that a value names: a text does between blanks, in whatever case its letters are,
-- and a number if it is a place among the severities without its fraction.
inductive Named : Value → Severity → Prop
  | text {s : String} {before core after : List Char} {severity : Severity}
    (hb : ∀ c ∈ before, isBlank c) (ha : ∀ c ∈ after, isBlank c)
    (hs : s.toList = before ++ core ++ after)
    (hl : sameLetters severity.state (String.ofList core)) : Named (.text s) severity
  | int {n : Int64} {i : Nat} {severity : Severity} (hn : n.toInt = i)
    (hi : all[i]? = some severity) : Named (.int n) severity
  | float {x : Double} {q : ℚ} {i : Nat} {severity : Severity} (hv : x.value? = some q)
    (ht : Double.towardZero q = i) (hi : all[i]? = some severity) : Named (.float x) severity

variable {severity other : Severity} {s : String} {c : Char}

theorem eq_of_sameLetters (h : sameLetters severity.state s) (h' : sameLetters other.state s) :
    severity = other := by
  have hd : ∀ a ∈ all, ∀ b ∈ all,
      a.state.toList.map Char.toLower = b.state.toList.map Char.toLower → a = b := by decide
  have ha (a : Severity) : a ∈ all := by cases a <;> decide
  exact hd _ (ha _) _ (ha _) ((eq_of_beq h).trans (eq_of_beq h').symm)

theorem not_isBlank_of_sameLetters (h : sameLetters severity.state s) (hc : c ∈ s.toList) :
    ¬isBlank c := by
  have hd : ∀ a ∈ all, (a.state.toList.map Char.toLower).all (!isBlank ·) := by decide
  have hm : c.toLower ∈ severity.state.toList.map Char.toLower := by
    rw [eq_of_beq h]
    exact List.mem_map_of_mem hc
  intro hb
  rw [toLower_of_isBlank hb] at hm
  have hn := List.all_eq_true.mp (hd severity (by cases severity <;> decide)) c hm
  simp [hb] at hn

theorem ne_nil_of_sameLetters (h : sameLetters severity.state s) : s.toList ≠ [] := by
  intro hs
  have hl := eq_of_beq h
  rw [hs] at hl
  cases severity <;> cases hl

theorem ofText?_eq_some_iff :
    ofText? s = some severity ↔ sameLetters severity.state (String.ofList (trim s.toList)) := by
  constructor
  case mp =>
    intro h
    unfold ofText? at h
    simpa using List.find?_some h
  case mpr =>
    intro h
    have hi : (ofText? s).isSome :=
      List.find?_isSome.mpr ⟨severity, by cases severity <;> decide, h⟩
    obtain ⟨other, ho⟩ := Option.isSome_iff_exists.mp hi
    have hs : sameLetters other.state (String.ofList (trim s.toList)) := by
      unfold ofText? at ho
      simpa using List.find?_some ho
    rw [ho, eq_of_sameLetters h hs]

theorem ofValue?_text_iff : ofValue? (.text s) = some severity ↔ Named (.text s) severity := by
  rw [ofValue?, ofText?_eq_some_iff]
  constructor
  case mp =>
    intro h
    obtain ⟨before, after, hb, ha, hs⟩ := exists_eq_trim s.toList
    exact .text hb ha hs h
  case mpr =>
    rintro ⟨hb, ha, hs, hl⟩
    have hn := ne_nil_of_sameLetters hl
    have hc c := not_isBlank_of_sameLetters (c := c) hl
    rw [String.toList_ofList] at hn hc
    rwa [hs, trim_of_blanks hb ha hn hc]

def at? (n : Int) : Option Severity :=
  if 0 ≤ n then all[n.toNat]? else none

theorem at?_eq_some_iff {n : Int} :
    at? n = some severity ↔ ∃ i : Nat, n = i ∧ all[i]? = some severity := by
  unfold at?
  split
  case isTrue h =>
    obtain ⟨i, rfl⟩ := Int.eq_ofNat_of_zero_le h
    simp
  case isFalse h =>
    refine ⟨nofun, ?_⟩
    rintro ⟨i, rfl, _⟩
    exact absurd (Int.natCast_nonneg i) h

theorem lt_of_getElem?_all {i : Nat} (h : all[i]? = some severity) : i < 5 :=
  (List.getElem?_eq_some_iff.mp h).1

-- The double next to the range of integers is taken for the greatest one, which is no place among
-- the severities either.
theorem ofValue?_float_iff {x : Double} :
    ofValue? (.float x) = some severity ↔ Named (.float x) severity := by
  change (Value.float x).toInteger?.bind (fun n => at? n.toInt) = some severity ↔ _
  constructor
  case mp =>
    intro h
    by_cases hx : x = .pastWords
    case pos =>
      rw [hx, Value.toInteger?_pastWords] at h
      cases h
    case neg =>
      rw [Value.toInteger?_float hx] at h
      simp only [Option.bind_eq_some_iff, Option.map_eq_some_iff] at h
      obtain ⟨w, ⟨n, ⟨q, hq, hn⟩, hw⟩, ha⟩ := h
      obtain ⟨i, hi, hs⟩ := at?_eq_some_iff.mp ha
      exact .float hq (hn.trans ((Value.word?_eq_some_iff.mp hw).trans hi)) hs
  case mpr =>
    intro h
    cases h
    case float q i ht hq hi =>
      have hl := lt_of_getElem?_all hi
      have hm : Int64.maxValue.toInt = 9223372036854775807 := rfl
      have hm' : Int64.minValue.toInt = -9223372036854775808 := rfl
      have hx : x ≠ .pastWords := by
        intro hx
        have hp := Double.truncate?_pastWords
        rw [hx] at hq
        rw [Double.truncate?_eq, hq, Option.map_some, ht, Option.some.injEq] at hp
        omega
      have hw : Value.word? i = some (.ofInt i) := if_pos (by omega)
      have ht' : (Int64.ofInt i).toInt = i := Value.toInt_ofInt (by omega) (by omega)
      rw [Value.toInteger?_float hx, hq, Option.map_some, Option.bind_some, ht, hw,
        Option.bind_some, ht']
      exact at?_eq_some_iff.mpr ⟨i, rfl, hi⟩

theorem ofValue?_int_iff {n : Int64} :
    ofValue? (.int n) = some severity ↔ Named (.int n) severity := by
  refine at?_eq_some_iff.trans ⟨fun ⟨i, hn, hi⟩ => .int hn hi, fun h => ?_⟩
  cases h
  case int i hn hi => exact ⟨i, hn, hi⟩

theorem ofValue?_eq_some_iff {v : Value} : ofValue? v = some severity ↔ Named v severity := by
  cases v
  case text s => exact ofValue?_text_iff
  case int n => exact ofValue?_int_iff
  case float x => exact ofValue?_float_iff
  case array items => exact ⟨nofun, nofun⟩

theorem ofValue?_eq_none_iff {v : Value} :
    ofValue? v = none ↔ ¬∃ severity, Named v severity := by
  simp only [← ofValue?_eq_some_iff, Option.eq_none_iff_forall_ne_some, not_exists]

end Severity

namespace Server

variable {s : Server} {pv : String} {r : Record} {v : Value} {severity : Severity}

def listed (s : Server) (name : String) (v : Value) : Server :=
  { s with writes := s.writes ++ [(name, v)] }

theorem put_named (hf : s.Unshadowed pv) (hr : s.records.find? pv = some r)
    (ha : r.isReachable s.clock) (hv : Severity.Named v severity) :
    let name := Field.simulatedSeverity.of pv
    s.put name v = (.ok (), (s.listed name v).amend pv fun r => r.simulate severity) := by
  intro name
  rw [put, resolve?_field hf hr, if_pos ha]
  simp only [Severity.ofValue?_eq_some_iff.mpr hv]
  rfl

theorem put_unnamed (hf : s.Unshadowed pv) (hr : s.records.find? pv = some r)
    (ha : r.isReachable s.clock) (hv : ¬∃ severity, Severity.Named v severity) :
    let name := Field.simulatedSeverity.of pv
    s.put name v =
      (.error (.putFailed name (v.toText ++ " is not an alarm severity")), s.listed name v) := by
  intro name
  rw [put, resolve?_field hf hr, if_pos ha]
  simp only [Severity.ofValue?_eq_none_iff.mpr hv]
  rfl

-- What is written to the field of a record in which a severity is forced has to name a severity.
-- The record has just that severity then, and reads so; of anything else nothing is left but that
-- it is listed. A record that has the name of the field is another matter.
theorem simulated_severity_has_to_be_named (hr : s.records.find? pv = some r)
    (ha : r.isReachable s.clock) (hf : s.Unshadowed pv) (v : Value) :
    let name := Field.simulatedSeverity.of pv
    let result := (s.put name v).1
    let t := (s.put name v).2
    (result = .ok () ↔ ∃ severity, Severity.Named v severity) ∧
    (∀ severity, Severity.Named v severity →
      let status := if severity = .noAlarm then "NO_ALARM" else "SIMM"
      t.records.find? pv = some { r with severity, status } ∧
      (∀ q, q ≠ pv → t.records.find? q = s.records.find? q) ∧
      (s.records.find? (Field.severity.of pv) = none →
        t.get (Field.severity.of pv) = .ok (.text severity.state)) ∧
      (s.records.find? (Field.status.of pv) = none →
        t.get (Field.status.of pv) = .ok (.text status))) ∧
    ((¬∃ severity, Severity.Named v severity) →
      result = .error (.putFailed name (v.toText ++ " is not an alarm severity")) ∧
      t = { s with writes := s.writes ++ [(name, v)] }) := by
  intro name result t
  have accepted {severity} (hv : Severity.Named v severity) :
      result = .ok () ∧ t = (s.listed name v).amend pv fun r => r.simulate severity :=
    Prod.mk.inj (put_named hf hr ha hv)
  have refused (hv : ¬∃ severity, Severity.Named v severity) :
      result = .error (.putFailed name (v.toText ++ " is not an alarm severity")) ∧
      t = s.listed name v :=
    Prod.mk.inj (put_unnamed hf hr ha hv)
  refine ⟨⟨fun ho => ?_, fun ⟨_, hv⟩ => (accepted hv).left⟩, fun severity hv => ?_, refused⟩
  case refine_1 =>
    by_contra hv
    cases (refused hv).left.symm.trans ho
  case refine_2 =>
    intro status
    have ht : t = (s.listed name v).amend pv fun r => r.simulate severity := (accepted hv).right
    have find (q : String) : t.records.find? q =
        if q = pv then (s.records.find? q).map fun r => r.simulate severity
        else s.records.find? q := by
      rw [ht, find?_amend]
      rfl
    have hp : t.records.find? pv = some (r.simulate severity) := by
      rw [find, if_pos rfl, hr, Option.map_some]
    have hc : (r.simulate severity).isReachable t.clock := by
      rw [ht]
      exact (clock_notify ..).symm ▸ ha
    have field (f : Field) (hn : s.records.find? (f.of pv) = none) :
        t.get (f.of pv) = .ok ((r.simulate severity).read (some f)) := by
      refine get_field ?_ hp hc
      rw [find, if_neg (f.of_ne_self pv), hn]
    exact ⟨hp, fun q hq => by rw [find, if_neg hq], field .severity, field .status⟩

-- A name in mixed case between blanks; and a text that spells a place, which names nothing.
theorem simulated_severity_has_to_be_named_of_mixed_case :
    let s := run [.insert "A" (.int 1)] .empty
    let r : Record := .new (.int 1)
    let put (text : String) := s.put (Field.simulatedSeverity.of "A") (.text text)
    s.records.find? "A" = some r ∧ r.isReachable s.clock ∧ s.Unshadowed "A" ∧
    Severity.Named (.text "\t disAble\n") .disable ∧
    (put "\t disAble\n").1 = .ok () ∧
    (put "\t disAble\n").2.records.find? "A" =
      some { r with severity := .disable, status := "SIMM" } ∧
    (put "\t disAble\n").2.get (Field.severity.of "A") = .ok (.text "DISABLE") ∧
    (put "\t disAble\n").2.get (Field.status.of "A") = .ok (.text "SIMM") ∧
    (¬∃ severity, Severity.Named (.text "3") severity) ∧
    (put "3").1 = .error (.putFailed "A.SIMS" "'3' is not an alarm severity") ∧
    (put "3").2 = { s with writes := [("A.SIMS", .text "3")] } := by
  intro s r put
  have hr : s.records.find? "A" = some r := rfl
  have ha : r.isReachable s.clock := rfl
  have hf : s.Unshadowed "A" := rfl
  have hv : Severity.Named (.text "\t disAble\n") .disable :=
    Severity.ofValue?_eq_some_iff.mp (by decide)
  have hn : ¬∃ severity, Severity.Named (.text "3") severity :=
    Severity.ofValue?_eq_none_iff.mp (by decide)
  have ⟨ho, hs, _⟩ := simulated_severity_has_to_be_named hr ha hf (.text "\t disAble\n")
  have ⟨_, _, he⟩ := simulated_severity_has_to_be_named hr ha hf (.text "3")
  have ⟨hp, _, hsevr, hstat⟩ := hs .disable hv
  rw [if_neg (by decide)] at hp hstat
  exact ⟨hr, ha, hf, hv, ho.mpr ⟨_, hv⟩, hp, hsevr rfl, hstat rfl, hn, he hn⟩

-- A record with the name of the field takes whatever is written to it.
theorem anything_written_to_shadowing_record :
    let s := run [.insert "A" (.int 1), .insert "A.SIMS" (.int 0)] .empty
    let t := (s.put (Field.simulatedSeverity.of "A") (.int 7)).2
    (∃ r, s.records.find? "A" = some r ∧ r.isReachable s.clock) ∧
    (¬∃ severity, Severity.Named (.int 7) severity) ∧
    (s.put (Field.simulatedSeverity.of "A") (.int 7)).1 = .ok () ∧
    t.get (Field.severity.of "A") = .ok (.text "NO_ALARM") := by
  intro s t
  exact ⟨⟨_, rfl, rfl⟩, Severity.ofValue?_eq_none_iff.mp (by decide), rfl, rfl⟩

end Server
end Readback
