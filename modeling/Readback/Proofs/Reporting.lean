import Mathlib.Data.List.Forall2
import Readback.Proofs.Verdict
import Readback.Server.Transport
import Readback.Suite.Run

namespace Readback

namespace Case

def report (case : Case) : Except Causes Unit → CaseResult
  | .ok () => ⟨case.name, true, none⟩
  | .error causes => ⟨case.name, false, some (Text.joinWith ": " causes)⟩

end Case

namespace Suite

variable {σ : Type} {suite : Suite σ} {c : Context σ} {case : Case} {s t u : σ}

theorem perform_eq (suite : Suite σ) (c : Context σ) (case : Case) (s : σ) :
    (suite.perform c case).run s =
      match (suite.setter c case.input).run s with
      | (.error causes, t) => (.error causes, t)
      | (.ok (), t) =>
        let (r, u) := (suite.expect c.checker case.expect case.timeout).run t
        (r.mapError AssertError.causes, u) := by
  let check : ExceptT Causes (StateM σ) Unit := ExceptT.mk do
    return (← (suite.expect c.checker case.expect case.timeout).run).mapError AssertError.causes
  have hp : (suite.perform c case).run s =
      ExceptT.bindCont (fun _ => check) ((suite.setter c case.input).run s).1
        ((suite.setter c case.input).run s).2 := rfl
  rw [hp]
  rcases (suite.setter c case.input).run s with ⟨_ | _, _⟩ <;> rfl

theorem runCase_eq (suite : Suite σ) (c : Context σ) (case : Case) (s : σ) :
    (suite.runCase c case).run s =
      let (r, t) := (suite.perform c case).run s
      (case.report r, t) := by
  change (Bind.bind (suite.perform c case).run _ : StateM σ _) s = _
  simp only [Bind.bind, StateT.bind]
  rcases (suite.perform c case).run s with ⟨_ | _, _⟩ <;> rfl

theorem perform_of_applied (h : (suite.setter c case.input).run s = (.ok (), t)) :
    (suite.perform c case).run s =
      let (r, u) := (suite.expect c.checker case.expect case.timeout).run t
      (r.mapError AssertError.causes, u) := by
  rw [perform_eq, h]

theorem perform_of_refused {causes : Causes}
    (h : (suite.setter c case.input).run s = (.error causes, t)) :
    (suite.perform c case).run s = (.error causes, t) := by
  rw [perform_eq, h]

theorem runAll_cons (case : Case) (cases : List Case) (s : σ) :
    (suite.runAll c (case :: cases)).run s =
      let (r, t) := (suite.runCase c case).run s
      let (rs, u) := (suite.runAll c cases).run t
      (r :: rs, u) := rfl

-- How a case ends that is run in some state: the input is applied, and then what is expected is
-- asserted.
structure Ends (suite : Suite σ) (c : Context σ) (case : Case) (s : σ) (r : CaseResult) :
    Prop where
  name : r.name = case.name
  passed : r.passed ↔ ∃ t u, (suite.setter c case.input).run s = (.ok (), t) ∧
    (suite.expect c.checker case.expect case.timeout).run t = (.ok (), u)
  failure : r.failure.isSome ↔ ¬r.passed
  refused : ∀ causes t, (suite.setter c case.input).run s = (.error causes, t) →
    r.failure = some (Text.joinWith ": " causes)
  failed : ∀ t e u, (suite.setter c case.input).run s = (.ok (), t) →
    (suite.expect c.checker case.expect case.timeout).run t = (.error e, u) →
    r.failure = some (Text.joinWith ": " e.causes)

theorem ends_runCase (suite : Suite σ) (c : Context σ) (case : Case) (s : σ) :
    suite.Ends c case s ((suite.runCase c case).run s).1 := by
  rw [runCase_eq]
  rcases hs : (suite.setter c case.input).run s with ⟨_ | _, t⟩
  case error causes =>
    rw [perform_of_refused hs]
    refine ⟨rfl, ⟨nofun, ?passed⟩, ⟨nofun, fun _ => rfl⟩, ?refused, ?failed⟩
    case passed =>
      rintro ⟨t, u, ht, _⟩
      cases hs.symm.trans ht
    case refused =>
      intro causes t ht
      cases hs.symm.trans ht
      rfl
    case failed =>
      intro t e u ht
      cases hs.symm.trans ht
  case ok =>
    rw [perform_of_applied hs]
    rcases he : (suite.expect c.checker case.expect case.timeout).run t with ⟨_ | _, u⟩
    case error e =>
      refine ⟨rfl, ⟨nofun, ?passed⟩, ⟨nofun, fun _ => rfl⟩, ?refused, ?failed⟩
      case passed =>
        rintro ⟨t, u, ht, hu⟩
        cases hs.symm.trans ht
        cases he.symm.trans hu
      case refused =>
        intro causes t ht
        cases hs.symm.trans ht
      case failed =>
        intro t e u ht hu
        cases hs.symm.trans ht
        cases he.symm.trans hu
        rfl
    case ok =>
      refine ⟨rfl, ⟨fun _ => ⟨t, u, hs, he⟩, fun _ => rfl⟩, ⟨nofun, fun h => absurd rfl h⟩,
        ?refused, ?failed⟩
      case refused =>
        intro causes t ht
        cases hs.symm.trans ht
      case failed =>
        intro t e u ht hu
        cases hs.symm.trans ht
        cases he.symm.trans hu

theorem runAll_append (xs ys : List Case) (s : σ) :
    (suite.runAll c (xs ++ ys)).run s =
      let (rs, t) := (suite.runAll c xs).run s
      let (rs', u) := (suite.runAll c ys).run t
      (rs ++ rs', u) := by
  induction xs generalizing s
  case nil => rfl
  case cons case xs hi =>
    rw [List.cons_append, runAll_cons, runAll_cons]
    rcases (suite.runCase c case).run s with ⟨r, t⟩
    simp only [hi t]
    rfl

theorem named_runAll (cases : List Case) (s : σ) :
    List.Forall₂ (fun case r => r.name = case.name) cases ((suite.runAll c cases).run s).1 := by
  induction cases generalizing s
  case nil => exact .nil
  case cons case cases hi =>
    rw [runAll_cons]
    exact .cons (ends_runCase suite c case s).name (hi _)

theorem exists_ends_runAll {cases : List Case} {i : Nat} (h : cases[i]? = some case) (s : σ) :
    ∃ r, ((suite.runAll c cases).run s).1[i]? = some r ∧
      suite.Ends c case ((suite.runAll c (cases.take i)).run s).2 r := by
  induction cases generalizing i s
  case nil => cases h
  case cons first cases hi =>
    rw [runAll_cons]
    cases i
    case zero =>
      cases h
      exact ⟨_, rfl, ends_runCase suite c case s⟩
    case succ i =>
      exact hi h ((suite.runCase c first).run s).2

end Suite

namespace Report

variable {r : Report} {cases : List Case}

theorem passed_add_failures (r : Report) : r.passed + r.failures.length = r.results.length := by
  have hn : (fun c : CaseResult => decide ¬c.passed) = fun c => !c.passed := by
    funext c
    cases c.passed <;> rfl
  rw [passed, failures, ← List.countP_eq_length_filter, ← hn]
  exact (List.length_eq_countP_add_countP CaseResult.passed).symm

theorem isSuccess_iff : r.isSuccess ↔ r.failures = [] := by
  simp [isSuccess, failures]

theorem result_eq_ok_iff : r.result = .ok () ↔ r.isSuccess := by
  rw [result]
  split
  case isTrue h => simp [h]
  case isFalse h => simp [h]

def failed (r : Report) (cases : List Case) : List (Case × CaseResult) :=
  (cases.zip r.results).filter fun p => !p.2.passed

theorem failures_eq (h : List.Forall₂ (fun case r => r.name = case.name) cases r.results) :
    r.failures = (r.failed cases).map Prod.snd := by
  calc r.failures
    _ = ((cases.zip r.results).map Prod.snd).filter fun c => !c.passed := by
      rw [List.map_snd_zip (Nat.le_of_eq h.length_eq.symm)]
      rfl
    _ = (r.failed cases).map Prod.snd := List.filter_map

theorem lines_eq (h : List.Forall₂ (fun case r => r.name = case.name) cases r.results) :
    r.failures.map CaseResult.line =
      (r.failed cases).map fun p => p.1.name ++ ": " ++ p.2.failure.getD "" := by
  rw [failures_eq h, List.map_map]
  refine List.map_congr_left fun p hp => ?_
  have hn : p.2.name = p.1.name :=
    (List.forall₂_iff_zip.mp h).right (List.mem_of_mem_filter hp)
  rw [Function.comp_apply, CaseResult.line, hn]

end Report

namespace Suite

variable {σ : Type}

-- Tables are run one after the other, whatever becomes of their cases, and the report of a table
-- tells of all its cases and of nothing else.
theorem run_composes_and_reports (suite : Suite σ) (c : Context σ) (s : σ) :
    (∀ xs ys : List Case,
      let first := (suite.run c xs).run s
      let second := (suite.run c ys).run first.2
      (suite.run c (xs ++ ys)).run s =
        (⟨suite.name, first.1.results ++ second.1.results⟩, second.2)) ∧
    ∀ cases : List Case,
      let report := ((suite.run c cases).run s).1
      let failed := (cases.zip report.results).filter fun p => !p.2.passed
      report.suite = suite.name ∧ report.results.length = cases.length ∧
      (∀ i case, cases[i]? = some case → ∃ r, report.results[i]? = some r ∧
        suite.Ends c case ((suite.run c (cases.take i)).run s).2 r) ∧
      report.passed + report.failures.length = cases.length ∧
      report.failures = failed.map Prod.snd ∧
      (report.isSuccess ↔ report.failures = []) ∧
      (report.result = .ok () ↔ report.isSuccess) ∧
      (¬report.isSuccess → report.result = .error (
        String.ofList (Text.digits failed.length) ++ " of " ++
          String.ofList (Text.digits cases.length) ++ " cases failed in suite '" ++ suite.name ++
          "':\n" ++ Text.joinWith "\n" (failed.map fun p =>
            p.1.name ++ ": " ++ p.2.failure.getD ""))) := by
  have run_eq (cases : List Case) (s : σ) : (suite.run c cases).run s =
      (⟨suite.name, ((suite.runAll c cases).run s).1⟩, ((suite.runAll c cases).run s).2) := rfl
  constructor
  case left =>
    intro xs ys first second
    rw [run_eq, runAll_append]
    rfl
  case right =>
    intro cases report failed
    have hn : List.Forall₂ (fun case r => r.name = case.name) cases report.results :=
      named_runAll cases s
    have hl : report.results.length = cases.length := hn.length_eq.symm
    refine ⟨rfl, hl, fun i case hc => exists_ends_runAll hc s, hl ▸ report.passed_add_failures,
      Report.failures_eq hn, Report.isSuccess_iff, Report.result_eq_ok_iff, fun hs => ?_⟩
    have hf : report.failures.length = failed.length := by
      rw [Report.failures_eq hn, List.length_map]
      rfl
    rw [Report.result, if_neg hs, Report.summary, Report.lines_eq hn, hf, hl]
    rfl

-- One input is refused, one is followed by the alarm that is expected, and one by a value that is
-- not.
theorem run_composes_and_reports_of_refused_input :
    let c : Context Server := ⟨Checker.hasty.over Server.transport, .records, none⟩
    let s := Server.empty.insert "TE:A" (.int 0)
    let suite : Suite Server := ⟨"S", "A", none, .severity "A"⟩
    let loud : Case := ⟨"loud", .text "LOUD", .alarm .noAlarm, none⟩
    let major : Case := ⟨"major", .text "MAJOR", .alarm .major, none⟩
    let minor : Case := ⟨"minor", .text "MINOR", .equals (.int 1), some 0⟩
    let first := (suite.run c [loud, major]).run s
    let second := (suite.run c [minor]).run first.2
    (suite.run c ([loud, major] ++ [minor])).run s =
      (⟨"S", first.1.results ++ second.1.results⟩, second.2) ∧
    (∃ r, ((suite.run c [loud, major, minor]).run s).1.results[2]? = some r ∧
      suite.Ends c minor first.2 r) ∧
    ((suite.run c [loud, major, minor]).run s).1.result = .error (
      "2 of 3 cases failed in suite 'S':\nloud: Unknown alarm severity 'LOUD'\n" ++
        "minor: Expected PV 'TE:A' to have value 1.\nFinal PV value was 0") := by
  intro c s suite loud major minor first second
  have ⟨ha, hr⟩ := run_composes_and_reports suite c s
  have ⟨_, _, he, _, _, _, _, hs⟩ := hr [loud, major, minor]
  refine ⟨by rw [ha], he 2 minor rfl, (hs (by decide +kernel)).trans ?_⟩
  decide +kernel

end Suite

end Readback
