import Readback.Proofs.Pushing
import Readback.Proofs.Refusals

namespace Readback

variable {σ α β : Type}

-- Looks whose results and durations depend only on how many there have been and on the time.
structure Schedule where
  result : Nat → Nat → Evaluation
  duration : Nat → Nat → Nat

namespace Schedule

structure Moment where
  looks : Nat
  now : Nat

def clock : Clock Moment where
  now := Moment.now
  sleep d m := { m with now := m.now + d }

def evaluate (x : Schedule) : StateM Moment Evaluation := fun m =>
  (x.result m.looks m.now, ⟨m.looks + 1, m.now + x.duration m.looks m.now⟩)

def straddling : Schedule where
  result
    | 0, _ => .ok (.failure ⟨"up", none⟩)
    | 1, _ => .error (.unreachable "TE:LEVEL")
    | _, _ => .ok .success
  duration
    | 1, _ => 7
    | _, _ => 3

end Schedule

-- A verdict that a poll does not owe to its deadline.
def Evaluation.IsFinal (e : Evaluation) : Prop :=
  e = .ok .success ∨ ∃ x, e = .error x ∧ x.isRetryable = false

namespace Clock

variable {c : Clock σ} {pause deadline later : Nat} {evaluate : StateM σ Evaluation} {s : σ}

theorem settled_iff {e : Evaluation} : Settled e ↔ e.IsFinal := by
  rcases e with e | _ | f <;> simp [Settled, Evaluation.IsFinal, Evaluation.isPending]

theorem pollUntil_of_settled_look (h : Settled (evaluate s).1) :
    c.pollUntil pause deadline evaluate s =
      (⟨[], (c.attempt evaluate s).1⟩, (c.attempt evaluate s).2) := by
  by_cases hd : c.now s < deadline
  case neg => exact pollUntil_of_late (Nat.not_lt.mp hd)
  case pos =>
    have hp : (c.attempt evaluate s).1.result.isPending = false := h
    rw [pollUntil, if_pos hd]
    simp only [hp, Bool.false_eq_true, if_false]

-- The look at which a poll finds its verdict comes no later than under a later deadline, and all
-- looks before it are still too early to be the last one.
theorem pollUntil_of_settled (h : deadline ≤ later)
    (hv : Settled (c.pollUntil pause deadline evaluate s).1.verdict) :
    c.pollUntil pause later evaluate s = c.pollUntil pause deadline evaluate s := by
  fun_induction pollUntil c pause deadline evaluate s
  case case1 s hd a t ha hp next hn p u hq hi =>
    cases ha
    rw [pollUntil_of_pending (Nat.lt_of_lt_of_le hd h) hp hn, hi (hq ▸ hv), hq]
    rfl
  case case2 s hd a t ha hp next hn b u hb =>
    rw [pollUntil, if_pos (Nat.lt_of_lt_of_le hd h)]
    simp only [ha, hp, hn, hb, if_true, if_false, next]
  case case3 s hd a t ha hp =>
    cases ha
    exact pollUntil_of_settled_look (eq_false_of_ne_true hp)
  case case4 s hd a t ha =>
    cases ha
    exact pollUntil_of_settled_look hv

end Clock

def Assertion.Upholds (a b : Assertion σ α) : Prop :=
  ∀ s x t, a.run s = (.ok x, t) → b.run s = (.ok x, t)

namespace Assertion.Upholds

variable {a b : Assertion σ α}

theorem refl (a : Assertion σ α) : a.Upholds a := fun _ _ _ h => h

theorem bind {f g : α → Assertion σ β} (h : a.Upholds b) (hf : ∀ x, (f x).Upholds (g x)) :
    (a >>= f).Upholds (b >>= g) := by
  intro s y u hr
  rcases ha : a.run s with ⟨e | x, t⟩
  case error =>
    rw [run_bind_of_error ha] at hr
    cases hr
  case ok =>
    rw [run_bind_of_ok ha] at hr
    rw [run_bind_of_ok (h s x t ha)]
    exact hf x t y u hr

theorem thenAlways (h : a.Upholds b) (last : StateM σ Unit) :
    (a.thenAlways last).Upholds (b.thenAlways last) := by
  intro s x t hr
  have hr : ((a.run s).1, (last (a.run s).2).2) = (.ok x, t) := hr
  have hx : (a.run s).1 = .ok x := congrArg Prod.fst hr
  have ht : (last (a.run s).2).2 = t := congrArg Prod.snd hr
  have hb : b.run s = (.ok x, (a.run s).2) := h s x _ (Prod.ext hx rfl)
  change ((b.run s).1, (last (b.run s).2).2) = _
  rw [hb, ← ht]

end Assertion.Upholds

namespace Checker

variable {k : Checker σ} {pv : String} {c : Condition} {o : AssertOptions} {t : Span}

theorem conclude_eq_ok_iff {full : String} {timeout : Span} {e : Evaluation} :
    conclude full timeout e = .ok () ↔ e = .ok .success := by
  rcases e with e | _ | f <;> simp [conclude]

theorem run_check (source : Source) (s : σ) :
    (k.check pv source c o).run s =
      let (p, u) := k.poll pv source c o s
      (conclude (k.fullName pv) (k.timeoutOf o) p.verdict, u) := rfl

theorem check_upholds (pv : String) (c : Condition) (source : Source) (h : k.timeoutOf o ≤ t) :
    (k.check pv source c o).Upholds (k.check pv source c { o with timeout := some t }) := by
  intro s x u hr
  rcases hp : k.poll pv source c o s with ⟨p, v⟩
  rw [run_check, hp] at hr
  have hv : p.verdict = .ok .success := conclude_eq_ok_iff.mp (congrArg Prod.fst hr)
  have hs : Clock.Settled (k.poll pv source c o s).1.verdict := by
    rw [hp]
    exact Clock.settled_iff.mpr (.inl hv)
  have hq : k.poll pv source c { o with timeout := some t } s = (p, v) :=
    (Clock.pollUntil_of_settled (Nat.add_le_add_left h _) hs).trans hp
  simp only [run_check, hq, ← hr, hv]
  rfl

end Checker

def Request.within (t : Span) : Request → Request
  | reading (.polled a o) => reading (.polled a { o with timeout := some t })
  | posted c o => posted c { o with timeout := some t }
  | processed v o => processed v { o with timeout := some t }
  | readback v o => readback v { o with timeout := some t }
  | q => q

def Request.timeout? (k : Checker σ) : Request → Option Span
  | reading (.polled _ o) | posted _ o | processed _ o => some (k.timeoutOf o)
  | readback _ o => some (k.timeoutOf { timeout := o.timeout })
  | _ => none

theorem Request.upholds {k : Checker σ} {q : Request} {t : Span}
    (h : ∀ d, q.timeout? k = some d → d ≤ t) (pv : String) :
    (q.make k pv).Upholds ((q.within t).make k pv) := by
  cases q
  case reading a =>
    cases a
    case polled a o =>
      simp only [make, within, ReadingAssertion.make, PolledAssertion.make_eq]
      exact Checker.check_upholds (a.target pv) a.condition .reading (h _ rfl)
    case trend => exact .refl _
  case posted c o =>
    refine .bind (.refl _) fun m => Checker.check_upholds _ _ (.monitor m) ?_ |>.thenAlways _
    exact h _ rfl
  case processed v o => exact .bind (.refl _) fun _ => Checker.check_upholds _ _ .reading (h _ rfl)
  case readback v o =>
    have hc pv c := Checker.check_upholds (k := k) pv c .reading (h _ rfl)
    refine .bind (.refl _) fun _ => .bind (hc _ _) fun _ => ?_
    cases o.alarm
    case none => exact .refl _
    case some severity => exact hc _ _
  all_goals exact .refl _

-- A verdict that is no timeout is found just the same under a longer one, by the same looks. So
-- nothing that passes fails when it is given more time.
theorem longer_timeout_keeps_verdict :
    (∀ (c : Clock σ) (interval : Nat) (evaluate : StateM σ Evaluation) (s : σ) (short long : Nat),
      short ≤ long → (c.waitUntil interval short evaluate s).1.verdict.IsFinal →
        c.waitUntil interval long evaluate s = c.waitUntil interval short evaluate s) ∧
    ∀ (k : Checker σ) (pv : String) (q : Request) (long : Span),
      (∀ short, q.timeout? k = some short → short ≤ long) →
        (q.make k pv).Upholds ((q.within long).make k pv) := by
  constructor
  case left =>
    intro c interval evaluate s short long h hv
    exact Clock.pollUntil_of_settled (Nat.add_le_add_left h _) (Clock.settled_iff.mpr hv)
  case right => exact fun k pv q long h => Request.upholds h pv

-- The last look comes when the shorter timeout is over, after one that went on over its end; and an
-- assertion passes at its last look.
theorem longer_timeout_keeps_verdict_of_late_looks :
    let x := Schedule.straddling
    let wait (timeout : Nat) := Schedule.clock.waitUntil 10 timeout x.evaluate ⟨0, 0⟩
    let k := Checker.hasty
    let q : Request := .reading (.polled (.value (.equals (.int 2))) { timeout := some 15 })
    let s := Script.ofAnswers "TE:LEVEL"
      [.error (.unreachable "TE:LEVEL"), .ok (.int 1), .ok (.int 2)]
    (15 ≤ 100 ∧ (wait 15).1.verdict.IsFinal ∧ (wait 15).1.evaluations = 3 ∧ wait 100 = wait 15) ∧
    q.timeout? k = some 15 ∧ ∃ t, t.clock = 20 ∧ (q.make k "LEVEL").run s = (.ok (), t) ∧
      ((q.within 100).make k "LEVEL").run s = (.ok (), t) := by
  intro x wait k q s
  constructor
  case left =>
    have h : wait 15 = (⟨[⟨0, x.result 0 0, 3⟩, ⟨13, x.result 1 13, 20⟩], ⟨30, .ok .success, 33⟩⟩,
        ⟨3, 33⟩) := by
      change Schedule.clock.pollUntil 10 15 x.evaluate ⟨0, 0⟩ = _
      rw [Clock.pollUntil_of_pending (by decide) (by rfl) (by decide),
        Clock.pollUntil_of_pending (by decide) (by rfl) (by decide),
        Clock.pollUntil_of_late (by decide)]
      rfl
    have hv : (wait 15).1.verdict.IsFinal := .inl (h ▸ rfl)
    obtain ⟨hl, _⟩ := @longer_timeout_keeps_verdict Schedule.Moment
    exact ⟨by decide, hv, h ▸ rfl, hl _ _ _ _ _ _ (by decide) hv⟩
  case right =>
    let t : Script := { s with clock := 20, gets := [("TE:LEVEL", [.ok (.int 2)])] }
    have h : (q.make k "LEVEL").run s = (.ok (), t) := by
      change (k.assertValue "LEVEL" (.equals (.int 2)) { timeout := some 15 }).run s = _
      rw [Checker.run_assertValue, Checker.poll, Clock.waitUntil,
        Clock.pollUntil_of_pending (by decide) (by rfl) (by decide),
        Clock.pollUntil_of_pending (by decide) (by rfl) (by decide),
        Clock.pollUntil_of_late (by decide)]
      rfl
    obtain ⟨_, hl⟩ := @longer_timeout_keeps_verdict Script
    have ht : ∀ short, q.timeout? k = some short → short ≤ 100 := by
      intro short hs
      cases hs
      decide
    exact ⟨rfl, t, rfl, h, hl k "LEVEL" q 100 ht s () t h⟩

end Readback
