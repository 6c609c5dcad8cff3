import Readback.Proofs.Reaching

namespace Readback

variable {σ α β : Type}

-- What could not be reached has not been passed on as an access that failed.
def IsRefined (r : Except AssertError α) : Prop :=
  ∀ e, r = .error (.access e) → e.isRetryable = false

theorem not_isRefined_iff {r : Except AssertError α} :
    ¬IsRefined r ↔ ∃ e, e.isRetryable ∧ r = .error (.access e) := by
  simp [IsRefined, and_comm]

theorem isRefined_ok {x : α} : IsRefined (.ok x : Except AssertError α) := nofun

theorem isRefined_mapError {r : Except AccessError α}
    (h : ∀ e, r = .error e → e.isRetryable = false) :
    IsRefined (r.mapError AssertError.access) := by
  intro e he
  cases r
  case ok => cases he
  case error e' =>
    cases he
    exact h e rfl

theorem isRefined_error_ofAccess (full : String) (timeout : Span) (e : AccessError) :
    IsRefined (.error (.ofAccess full timeout e) : Except AssertError α) := by
  intro e' he
  rw [AssertError.ofAccess] at he
  split at he
  case isTrue => cases he
  case isFalse hn =>
    cases he
    exact eq_false_of_ne_true hn

namespace Assertion

variable {a : Assertion σ α} {f : α → Assertion σ β} {s : σ}

theorem isRefined_ofAccess {a : StateM σ (Except AccessError α)}
    (h : ∀ e, (a s).1 = .error e → e.isRetryable = false) : IsRefined ((ofAccess a).run s).1 :=
  isRefined_mapError h

theorem isRefined_bind (ha : IsRefined (a.run s).1)
    (hf : ∀ x t, a.run s = (.ok x, t) → IsRefined ((f x).run t).1) :
    IsRefined ((a >>= f).run s).1 := by
  rcases h : a.run s with ⟨e | x, t⟩
  case error =>
    rw [h] at ha
    rw [run_bind_of_error h]
    intro e' he
    cases he
    exact ha e' rfl
  case ok =>
    rw [run_bind_of_ok h]
    exact hf x t h

end Assertion

namespace Checker

theorem isRefined_check (k : Checker σ) (pv : String) (source : Source) (c : Condition)
    (o : AssertOptions) (s : σ) : IsRefined ((k.check pv source c o).run s).1 := by
  change IsRefined (conclude _ _ (k.poll pv source c o s).1.verdict)
  rcases (k.poll pv source c o s).1.verdict with e | _ | f
  case error => exact isRefined_error_ofAccess _ _ e
  case ok.success => exact isRefined_ok
  case ok.failure => nofun

theorem isRefined_assertTrend (k : Checker σ) (pv : String) (wait : Span) (trend : Trend) (s : σ) :
    IsRefined ((k.assertTrend pv wait trend).run s).1 := by
  rw [run_assertTrend]
  split
  case h_1 => exact isRefined_error_ofAccess _ _ _
  case h_2 => exact isRefined_check _ _ _ _ _ _

theorem isRefined_make (k : Checker σ) (a : ReadingAssertion) (pv : String) (s : σ) :
    IsRefined ((a.make k pv).run s).1 := by
  cases a
  case polled a o =>
    cases a
    all_goals exact isRefined_check _ _ _ _ _ _
  case trend => exact isRefined_assertTrend _ _ _ _ _

variable {k : Checker Server} {s : Server} {pv : String}

theorem isRefined_write (hk : k.transport = Server.transport) (hs : s.StreamsApart ∅)
    (pv : String) (v : Value) (o : PutOptions) : IsRefined ((k.write pv v o).run s).1 := by
  rcases h : k.transport.probe (k.fullName pv) k.putExistenceTimeout s with ⟨_ | _, t⟩
  case false =>
    rw [write_of_missing h]
    nofun
  case true =>
    rw [write, Assertion.run_bind_of_ok (run_assertExists h)]
    refine Assertion.isRefined_bind ?_ fun _ _ _ => isRefined_ok
    refine Assertion.isRefined_ofAccess fun e he => eq_false_of_ne_true fun hr => ?_
    rw [hk] at h he
    have hn := Server.unconnected_put_iff.mp (Server.unconnected_iff.mpr ⟨e, hr, he⟩)
    have ht := hs.steady.resolve?_of_probe h
    rw [hn] at ht
    cases ht

theorem isRefined_assertPosted (hk : k.transport = Server.transport) (pv : String) (c : Condition)
    (o : AssertOptions) (s : Server) : IsRefined ((k.assertPosted pv c o).run s).1 := by
  refine Assertion.isRefined_bind ?_ fun m t _ => isRefined_check k pv (.monitor m) c o t
  rw [hk]
  exact Assertion.isRefined_ofAccess nofun

theorem isRefined_forceAlarm (hk : k.transport = Server.transport) (hs : s.StreamsApart ∅)
    (pv : String) (severity : Severity) : IsRefined ((k.forceAlarm pv severity).run s).1 :=
  Assertion.isRefined_bind (isRefined_write hk hs _ _ _) fun _ _ _ => isRefined_check _ _ _ _ _ _

theorem isRefined_simulateAlarm (hk : k.transport = Server.transport) (hs : s.StreamsApart ∅)
    (pv : String) (severity : Severity) : IsRefined ((k.simulateAlarm pv severity).run s).1 := by
  have hf := isRefined_forceAlarm hk hs pv severity
  rcases h : (k.forceAlarm pv severity).run s with ⟨e | ⟨⟩, t⟩
  case error =>
    rw [h] at hf
    rw [simulateAlarm_of_error h]
    intro e' he
    cases he
    exact hf e' rfl
  case ok =>
    rw [simulateAlarm_of_ok h]
    exact isRefined_ok

theorem isRefined_assertReadback (hk : k.transport = Server.transport) (hs : s.StreamsApart ∅)
    (v : Value) (readback : String) (o : SetpointOptions) :
    IsRefined ((k.assertReadback v readback o).run s).1 := by
  refine Assertion.isRefined_bind (isRefined_write hk hs _ _ _) fun _ _ _ => ?_
  refine Assertion.isRefined_bind (isRefined_check _ _ _ _ _ _) fun _ t _ => ?_
  cases o.alarm
  case none => exact isRefined_ok
  case some => exact isRefined_check _ _ _ _ _ _

theorem isRefined_process_iff (hk : k.transport = Server.transport) :
    IsRefined ((k.process pv).run s).1 ↔
      (s.resolve? (Field.process.of (k.fullName pv))).isSome := by
  have hp : ((k.process pv).run s).1 =
      (s.put (Field.process.of (k.fullName pv)) (.int 1)).1.mapError .access := by
    rw [process, hk]
    rfl
  rw [hp, ← not_iff_not, not_isRefined_iff, Option.not_isSome_iff_eq_none,
    ← Server.unconnected_put_iff (v := .int 1), Server.unconnected_iff]
  rcases (s.put (Field.process.of (k.fullName pv)) (.int 1)).1 with e | _ <;>
    simp [Except.mapError]

theorem isRefined_assertProcessed_iff (hk : k.transport = Server.transport) (v : Value)
    (o : AssertOptions) :
    IsRefined ((k.assertProcessed pv v o).run s).1 ↔
      (s.resolve? (Field.process.of (k.fullName pv))).isSome := by
  rw [← isRefined_process_iff hk]
  constructor
  case mp =>
    intro h e he
    have hp : (k.process pv).run s = (.error (.access e), ((k.process pv).run s).2) :=
      Prod.ext he rfl
    rw [assertProcessed, Assertion.run_bind_of_error hp] at h
    exact h e rfl
  case mpr =>
    intro h
    exact Assertion.isRefined_bind h fun _ _ _ => isRefined_check _ _ _ _ _ _

end Checker

inductive Request where
  | exists (timeout : Option Span)
  | absent (timeout : Option Span)
  | reading (a : ReadingAssertion)
  | posted (c : Condition) (o : AssertOptions)
  | write (v : Value) (o : PutOptions)
  | process
  | processed (v : Value) (o : AssertOptions)
  | readback (v : Value) (o : SetpointOptions)
  | simulated (severity : Severity)

namespace Request

def make (k : Checker σ) (pv : String) : Request → Assertion σ Unit
  | .exists timeout => k.assertExists pv timeout
  | absent timeout => k.assertAbsent pv timeout
  | reading a => a.make k pv
  | posted c o => k.assertPosted pv c o
  | write v o => k.write pv v o
  | process => k.process pv
  | processed v o => k.assertProcessed pv v o
  | readback v o => k.assertReadback v pv o
  | simulated severity => do
    let _ ← k.simulateAlarm pv severity

def Processes : Request → Prop
  | process | processed _ _ => True
  | _ => False

end Request

variable {k : Checker Server} {s : Server} {pv : String}

theorem isRefined_request (hk : k.transport = Server.transport) (hs : s.StreamsApart ∅)
    {q : Request} (hq : ¬q.Processes) : IsRefined ((q.make k pv).run s).1 := by
  cases q
  case «exists» timeout =>
    refine Assertion.isRefined_bind isRefined_ok fun found t _ => ?_
    cases found
    case false => nofun
    case true => exact isRefined_ok
  case absent timeout =>
    refine Assertion.isRefined_bind isRefined_ok fun found t _ => ?_
    cases found
    case false => exact isRefined_ok
    case true => nofun
  case reading a => exact Checker.isRefined_make _ _ _ _
  case posted => exact Checker.isRefined_assertPosted hk _ _ _ _
  case write => exact Checker.isRefined_write hk hs _ _ _
  case readback => exact Checker.isRefined_assertReadback hk hs _ _ _
  case simulated =>
    exact Assertion.isRefined_bind (Checker.isRefined_simulateAlarm hk hs _ _)
      fun _ _ _ => isRefined_ok
  case process | processed => exact absurd trivial hq

-- That something could not be reached is passed on as it is only where a record is to process
-- itself; everything else says that it is missing, or that it has never become reachable.
theorem unreachable_passed_on_iff (hk : k.transport = Server.transport)
    (hs : s.StreamsApart ∅) (pv : String) (q : Request) :
    (∃ e, e.isRetryable ∧ ((q.make k pv).run s).1 = .error (.access e)) ↔
      q.Processes ∧ s.resolve? (Field.process.of (k.fullName pv)) = none := by
  rw [← not_isRefined_iff, ← Option.not_isSome_iff_eq_none]
  by_cases hq : q.Processes
  case neg => simp [hq, isRefined_request hk hs hq]
  case pos =>
    rw [and_iff_right hq, not_iff_not]
    cases q
    case process => exact Checker.isRefined_process_iff hk
    case processed v o => exact Checker.isRefined_assertProcessed_iff hk v o
    all_goals exact absurd hq id

-- A record that is still coming up is to process itself.
theorem unreachable_passed_on_of_booting :
    let k := Checker.hasty.over Server.transport
    let s := Server.empty.insertUnreachable "TE:TEMP" (.int 1) 10
    let q : Request := .processed (.int 1) {}
    s.StreamsApart ∅ ∧
    ∃ e, e.isRetryable ∧ ((q.make k "TEMP").run s).1 = .error (.access e) := by
  intro k s q
  have hs : s.StreamsApart ∅ := nofun
  have hn : s.resolve? (Field.process.of "TE:TEMP") = none :=
    (Server.resolve?_field rfl rfl).trans (if_neg (by decide))
  exact ⟨hs, (unreachable_passed_on_iff rfl hs "TEMP" q).mpr ⟨trivial, hn⟩⟩

-- To have a record process itself is a write to a field of it. Where there is no record any other
-- write to the field says so.
theorem process_of_missing_record :
    let k := Checker.hasty.over Server.transport
    let e := AccessError.unreachable "TE:TEMP.PROC"
    e.isRetryable ∧
    ((Request.process.make k "TEMP").run .empty).1 = .error (.access e) ∧
    (((Request.write (.int 1) {}).make k "TEMP.PROC").run .empty).1 =
      .error (.missing "TE:TEMP.PROC") :=
  ⟨rfl, rfl, rfl⟩

end Readback
