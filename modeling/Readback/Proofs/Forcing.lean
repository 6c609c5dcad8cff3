import Readback.Assertion.SimulatedAlarm
import Readback.Proofs.Verdict

namespace Readback

variable {σ α β : Type}

namespace Assertion

variable {a : Assertion σ α} {f : α → Assertion σ β} {s t : σ}

theorem run_bind_eq : (a >>= f).run s = ExceptT.bindCont f (a.run s).1 (a.run s).2 := rfl

theorem run_bind_of_ok {x : α} (h : a.run s = (.ok x, t)) : (a >>= f).run s = (f x).run t := by
  rw [run_bind_eq, h]
  rfl

theorem run_bind_of_error {e : AssertError} (h : a.run s = (.error e, t)) :
    (a >>= f).run s = (.error e, t) := by
  rw [run_bind_eq, h]
  rfl

theorem run_ofAccess {a : StateM σ (Except AccessError α)} {r : Except AccessError α}
    (h : a s = (r, t)) : (ofAccess a).run s = (r.mapError .access, t) := by
  have ha : (ofAccess a).run s = ((a s).1.mapError .access, (a s).2) := rfl
  rw [ha, h]

theorem run_orElseDo_of_ok {last : StateM σ Unit} {x : α} (h : a.run s = (.ok x, t)) :
    (a.orElseDo last).run s = (.ok x, t) := by
  change (bind a.run _ : StateM σ _) s = _
  simp only [bind, StateT.bind, h]
  rfl

theorem run_orElseDo_of_error {last : StateM σ Unit} {e : AssertError}
    (h : a.run s = (.error e, t)) : (a.orElseDo last).run s = (.error e, (last t).2) := by
  change (bind a.run _ : StateM σ _) s = _
  simp only [bind, StateT.bind, h]
  rfl

end Assertion

theorem Recorded.log_eq {run : StateM σ α} {s t : σ} {a : α} (h : run s = (a, t)) (call : Call)
    (calls : List Call) : log call run ⟨s, calls⟩ = (a, ⟨t, call :: calls⟩) := by
  rw [log, h]

namespace Checker

variable {k : Checker σ} {pv : String} {v : Value} {severity : Severity} {o : PutOptions}
  {s t u : σ}

theorem fullName_of (k : Checker σ) (f : Field) (pv : String) :
    k.fullName (f.of pv) = f.of (k.fullName pv) := by
  simp [fullName, Field.of, Field.join, String.append_assoc]

def target (k : Checker σ) (pv : String) : String :=
  k.fullName (Field.simulatedSeverity.of pv)

-- The calls of an attempt to force a severity: whether there is something to write, the write if
-- there is, and looks at what has come of it.
def attempt (k : Checker σ) (pv : String) (severity : Severity) (s : σ) (looks : Nat) : List Call :=
  .probe (k.target pv) k.putExistenceTimeout ::
    if (k.transport.probe (k.target pv) k.putExistenceTimeout s).1 then
      .put (k.target pv) severity.toValue false k.defaultTimeout ::
        List.replicate looks (.get (k.fullName (Field.severity.of pv)))
    else []

theorem run_assertExists {timeout : Span} {found : Bool}
    (h : k.transport.probe (k.fullName pv) timeout s = (found, t)) :
    (k.assertExists pv (some timeout)).run s =
      (if found then .ok () else .error (.missing (k.fullName pv)), t) := by
  have hk : (k.assertExists pv (some timeout)).run s =
      ExceptT.bindCont
        (fun b => if !b then (throw (.missing (k.fullName pv)) : Assertion σ Unit) else pure ())
        (.ok (k.transport.probe (k.fullName pv) timeout s).1)
        (k.transport.probe (k.fullName pv) timeout s).2 := rfl
  rw [hk, h]
  cases found <;> rfl

theorem write_of_missing
    (h : k.transport.probe (k.fullName pv) k.putExistenceTimeout s = (false, t)) :
    (k.write pv v o).run s = (.error (.missing (k.fullName pv)), t) :=
  Assertion.run_bind_of_error (run_assertExists h)

theorem write_of_found {answer : Except AccessError Unit}
    (h : k.transport.probe (k.fullName pv) k.putExistenceTimeout s = (true, t))
    (hp : k.transport.put (k.fullName pv) v o.wait k.defaultTimeout t = (answer, u)) :
    (k.write pv v o).run s =
      (answer.mapError .access,
        if answer.isOk then (k.settle (o.settle.getD k.settleAfterPut) u).2 else u) := by
  rw [write, Assertion.run_bind_of_ok (run_assertExists h)]
  cases answer
  case error => exact Assertion.run_bind_of_error (Assertion.run_ofAccess hp)
  case ok => exact Assertion.run_bind_of_ok (Assertion.run_ofAccess hp)

theorem forceAlarm_of_missing
    (h : k.transport.probe (k.target pv) k.putExistenceTimeout s = (false, t)) :
    (k.forceAlarm pv severity).run s = (.error (.missing (k.target pv)), t) :=
  Assertion.run_bind_of_error (write_of_missing h)

theorem forceAlarm_of_refused {e : AccessError}
    (h : k.transport.probe (k.target pv) k.putExistenceTimeout s = (true, t))
    (hp : k.transport.put (k.target pv) severity.toValue false k.defaultTimeout t =
      (.error e, u)) :
    (k.forceAlarm pv severity).run s = (.error (.access e), u) :=
  Assertion.run_bind_of_error (write_of_found (o := {}) h hp)

theorem forceAlarm_of_written
    (h : k.transport.probe (k.target pv) k.putExistenceTimeout s = (true, t))
    (hp : k.transport.put (k.target pv) severity.toValue false k.defaultTimeout t = (.ok (), u)) :
    (k.forceAlarm pv severity).run s =
      (k.assertAlarm pv severity {}).run (k.settle k.settleAfterPut u).2 :=
  Assertion.run_bind_of_ok (write_of_found (o := {}) h hp)

theorem assertValue_of_holds {c : Condition} {o : AssertOptions} {v : Value}
    (h : k.transport.get (k.fullName pv) s = (.ok v, t)) (hv : c.holds v) :
    (k.assertValue pv c o).run s = (.ok (), t) := by
  have ⟨n, hn⟩ := k.exists_goesBy pv c o s
  have hs : c.Settles (k.transport.answer k.pause (k.transport.get (k.fullName pv)) s 0) := by
    rw [Clock.answer, Clock.visit, h]
    exact hv
  cases n
  case zero =>
    refine Prod.ext (hn.decides.passed.mpr ⟨v, ?_, hv⟩) ?_
    · rw [Clock.answer, Clock.visit, h]
    · rw [hn.state, Clock.visit, h]
  case succ n => exact absurd hs (hn.goesOn 0 (Nat.succ_pos n)).left

theorem settle_recorded (d : Span) (s : σ) (calls : List Call) :
    ((k.over k.transport.recorded).settle d ⟨s, calls⟩).2 = ⟨(k.settle d s).2, calls⟩ := by
  unfold settle
  split <;> rfl

theorem exists_attempt (k : Checker σ) (pv : String) (severity : Severity) (s : σ)
    (calls : List Call) :
    ∃ looks r t, (k.forceAlarm pv severity).run s = (r, t) ∧
      ((k.over k.transport.recorded).forceAlarm pv severity).run ⟨s, calls⟩ =
        (r, ⟨t, (k.attempt pv severity s looks).reverse ++ calls⟩) := by
  rcases h : k.transport.probe (k.target pv) k.putExistenceTimeout s with ⟨_ | _, t⟩
  case false =>
    refine ⟨0, _, t, forceAlarm_of_missing h, ?_⟩
    rw [attempt, h]
    exact forceAlarm_of_missing (Recorded.log_eq h _ calls)
  case true =>
    let probed : Call := .probe (k.target pv) k.putExistenceTimeout
    let written : Call := .put (k.target pv) severity.toValue false k.defaultTimeout
    have hw := Recorded.log_eq h probed calls
    rcases hp : k.transport.put (k.target pv) severity.toValue false k.defaultTimeout t
      with ⟨e | ⟨⟩, u⟩
    case error =>
      refine ⟨0, _, u, forceAlarm_of_refused h hp, ?_⟩
      rw [attempt, h]
      exact forceAlarm_of_refused hw (Recorded.log_eq hp written (probed :: calls))
    case ok =>
      have ⟨n, r, v, _, hr, hv⟩ := k.exists_calls (Field.severity.of pv) (.equals severity.toValue)
        {} (k.settle k.settleAfterPut u).2 (written :: probed :: calls)
      refine ⟨n + 1, r, v, (forceAlarm_of_written h hp).trans hr, ?_⟩
      have ha : (k.attempt pv severity s (n + 1)).reverse =
          List.replicate (n + 1) (.get (k.fullName (Field.severity.of pv))) ++
            [written, probed] := by
        simp [attempt, h, written, probed]
      have hr' := forceAlarm_of_written (k := k.over k.transport.recorded) hw
        (Recorded.log_eq hp written (probed :: calls))
      rw [hr', settle_recorded, ha, List.append_assoc]
      exact hv

theorem simulateAlarm_of_ok (h : (k.forceAlarm pv severity).run s = (.ok (), t)) :
    (k.simulateAlarm pv severity).run s = (.ok ⟨pv, true⟩, t) :=
  Assertion.run_bind_of_ok (Assertion.run_orElseDo_of_ok h)

theorem simulateAlarm_of_error {e : AssertError}
    (h : (k.forceAlarm pv severity).run s = (.error e, t)) :
    (k.simulateAlarm pv severity).run s =
      (.error e, ((k.forceAlarm pv .noAlarm).run t).2) :=
  Assertion.run_bind_of_error (Assertion.run_orElseDo_of_error h)

end Checker

namespace SimulatedAlarm

-- How a simulated alarm ends: it is cleared before it is let go, or it is just let go.
inductive Ending where
  | cleared
  | released

def finish (a : SimulatedAlarm) (k : Checker σ) : Ending → StateM σ Unit
  | .cleared => do
    let (_, a) ← a.clear k
    a.release k
  | .released => a.release k

theorem run_finish (k : Checker σ) (pv : String) (how : Ending) (s : σ) :
    ((⟨pv, true⟩ : SimulatedAlarm).finish k how).run s =
      ((), ((k.forceAlarm pv .noAlarm).run s).2) := by
  cases how <;> rfl

end SimulatedAlarm
end Readback
