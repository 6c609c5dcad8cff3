import Readback.Access.Recorded
import Readback.Assertion.Reading
import Readback.Proofs.Poll

namespace Readback

variable {σ τ α : Type}

-- A state, and the answers that reads have had on the way to it, last first.
structure Answered (σ : Type) where
  state : σ
  answers : List (Except AccessError Value)

def Answered.pass (run : StateM σ α) : StateM (Answered σ) α :=
  fun u =>
    let (a, s) := run u.state
    (a, { u with state := s })

def Transport.answered (t : Transport σ) : Transport (Answered σ) where
  now u := t.now u.state
  sleep d u := { u with state := t.sleep d u.state }
  get pv := fun u =>
    let (a, s) := t.get pv u.state
    (a, ⟨s, a :: u.answers⟩)
  put pv v wait timeout := Answered.pass (t.put pv v wait timeout)
  probe pv timeout := Answered.pass (t.probe pv timeout)
  subscribe pv := Answered.pass (t.subscribe pv)
  unsubscribe id := Answered.pass (t.unsubscribe id)
  drain := Answered.pass t.drain
  latest id u := t.latest id u.state

def Checker.over (k : Checker σ) (t : Transport τ) : Checker τ :=
  { k with transport := t }

-- Reading and sleeping through `t'` is doing so through `t`, but for what `t'` keeps besides.
structure Transport.Mirrors (t' : Transport τ) (t : Transport σ) (π : τ → σ) : Prop where
  now : ∀ u, t.now (π u) = t'.now u
  sleep : ∀ d u, t.sleep d (π u) = π (t'.sleep d u)
  get : ∀ pv u, t.get pv (π u) = Prod.map id π (t'.get pv u)

namespace Transport

variable (t : Transport σ)

theorem recorded_mirrors : t.recorded.Mirrors t Recorded.state where
  now _ := rfl
  sleep _ _ := rfl
  get _ _ := rfl

theorem answered_mirrors : t.answered.Mirrors t Answered.state where
  now _ := rfl
  sleep _ _ := rfl
  get _ _ := rfl

variable {t} {pause : Nat} {pv : String} {s : σ}

theorem visit_recorded (calls : List Call) (n : Nat) :
    t.recorded.visit pause (t.recorded.get pv) ⟨s, calls⟩ n =
      ⟨t.visit pause (t.get pv) s n, List.replicate n (.get pv) ++ calls⟩ := by
  induction n
  case zero => rfl
  case succ n hi =>
    rw [Clock.visit, hi]
    rfl

theorem get_answered (answers : List (Except AccessError Value)) :
    t.answered.get pv ⟨s, answers⟩ =
      ((t.get pv s).1, ⟨(t.get pv s).2, (t.get pv s).1 :: answers⟩) := rfl

theorem visit_answered (answers : List (Except AccessError Value)) (n : Nat) :
    t.answered.visit pause (t.answered.get pv) ⟨s, answers⟩ n =
      ⟨t.visit pause (t.get pv) s n,
        ((List.range n).map (t.answer pause (t.get pv) s)).reverse ++ answers⟩ := by
  induction n
  case zero => rfl
  case succ n hi =>
    rw [Clock.visit, hi, List.range_succ, List.map_append, List.reverse_append]
    rfl

end Transport

namespace Checker

variable {k : Checker σ} {t' : Transport τ} {π : τ → σ} {full expectation pv : String}
  {c : Condition} {o : AssertOptions} {s : σ} {u : τ}

theorem look_reading :
    k.look full .reading c expectation s =
      ((k.transport.get full s).1.map fun v => judge c expectation (some v),
        (k.transport.get full s).2) := by
  have h : k.look full .reading c expectation s =
      (((k.transport.get full s).1.map some).map (judge c expectation),
        (k.transport.get full s).2) := rfl
  rw [h]
  cases (k.transport.get full s).1 <;> rfl

theorem look_over (h : t'.Mirrors k.transport π) :
    k.look full .reading c expectation (π u) =
      Prod.map id π ((k.over t').look full .reading c expectation u) := by
  rw [look_reading, look_reading, h.get]
  rfl

theorem run_assertValue :
    (k.assertValue pv c o).run s =
      let (p, t) := k.poll pv .reading c o s
      (conclude (k.fullName pv) (k.timeoutOf o) p.verdict, t) := rfl

theorem assertValue_over (h : t'.Mirrors k.transport π) (pv : String) (c : Condition)
    (o : AssertOptions) (u : τ) :
    (k.assertValue pv c o).run (π u) = Prod.map id π (((k.over t').assertValue pv c o).run u) := by
  have hp : k.poll pv .reading c o (π u) = Prod.map id π ((k.over t').poll pv .reading c o u) := by
    rw [poll, Clock.waitUntil, h.now]
    exact Clock.pollUntil_map h.now h.sleep (fun _ => look_over h) u
  rw [run_assertValue, hp]
  rfl

theorem run_assertTrend {wait : Span} {trend : Trend} :
    (k.assertTrend pv wait trend).run s =
      match k.transport.get (k.fullName pv) s with
      | (.error e, t) => (.error (.ofAccess (k.fullName pv) 0 e), t)
      | (.ok v, t) =>
        (k.assertValue pv (.moved trend v) { timeout := some 0 }).run
          (k.transport.sleep wait t) := by
  have h : (k.assertTrend pv wait trend).run s =
      ExceptT.bindCont
        (fun v => do
          modify (k.transport.sleep wait)
          k.assertValue pv (.moved trend v) { timeout := some 0 })
        ((k.transport.get (k.fullName pv) s).1.mapError (.ofAccess (k.fullName pv) 0))
        (k.transport.get (k.fullName pv) s).2 := rfl
  rw [h]
  have ⟨r, t⟩ := k.transport.get (k.fullName pv) s
  cases r <;> rfl

theorem assertTrend_of_error {wait : Span} {trend : Trend} {e : AccessError} {t : σ}
    (h : k.transport.get (k.fullName pv) s = (.error e, t)) :
    (k.assertTrend pv wait trend).run s = (.error (.ofAccess (k.fullName pv) 0 e), t) := by
  rw [run_assertTrend, h]

theorem assertTrend_of_ok {wait : Span} {trend : Trend} {v : Value} {t : σ}
    (h : k.transport.get (k.fullName pv) s = (.ok v, t)) :
    (k.assertTrend pv wait trend).run s =
      (k.assertValue pv (.moved trend v) { timeout := some 0 }).run (k.transport.sleep wait t) := by
  rw [run_assertTrend, h]

end Checker
end Readback
