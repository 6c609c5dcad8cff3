import Readback.Access.Script
import Readback.Proofs.Watching

namespace Readback

variable {σ τ : Type}

def Script.ofAnswers (pv : String) (answers : List (Except AccessError Value)) : Script where
  clock := 0
  gets := [(pv, answers)]
  puts := []
  probes := []
  subscribeError := none
  batches := []
  listeners := []
  nextId := 1

-- A checker whose pauses last longer than its assertions do by default.
def Checker.hasty : Checker Script where
  transport := Script.transport
  stem := "TE:"
  pollInterval := 10
  defaultTimeout := 5
  settleAfterPut := 0
  absenceTimeout := 0
  putExistenceTimeout := 0

def Condition.Settles (c : Condition) : Except AccessError Value → Prop
  | .ok v => c.holds v
  | .error e => e.isRetryable = false

-- What a read means for an assertion that it is the last read of.
structure Condition.Decides (c : Condition) (expectation full : String) (timeout : Span)
    (read : Except AccessError Value) (r : Except AssertError Unit) : Prop where
  passed : r = .ok () ↔ ∃ v, read = .ok v ∧ c.holds v
  failed : ∀ f, r = .error (.failed f) ↔
    ∃ v, read = .ok v ∧ c.holds v = false ∧ f = ⟨expectation, some v⟩
  neverReachable : ∀ pv t e, r = .error (.neverReachable pv t e) ↔
    read = .error e ∧ (∃ x, e = .unreachable x) ∧ pv = full ∧ t = timeout
  access : ∀ e, r = .error (.access e) ↔ read = .error e ∧ ∀ x, e ≠ .unreachable x

namespace Checker

def pause (k : Checker σ) : Span :=
  max k.pollInterval 1

def deadline (k : Checker σ) (o : AssertOptions) (s : σ) : Nat :=
  k.transport.now s + k.timeoutOf o

def expectationOf (k : Checker σ) (pv : String) (c : Condition) (o : AssertOptions) : String :=
  o.message.getD (c.expectation (k.fullName pv))

variable {k : Checker σ} {pv full expectation : String} {c : Condition} {o : AssertOptions} {s : σ}
  {timeout : Span}

theorem snd_look : (k.look full .reading c expectation s).2 = (k.transport.get full s).2 := by
  rw [look_reading]

theorem settled_look :
    Clock.Settled (k.look full .reading c expectation s).1 ↔
      c.Settles (k.transport.get full s).1 := by
  rw [look_reading]
  cases (k.transport.get full s).1
  case error e => exact Iff.rfl
  case ok v =>
    cases h : c.holds v <;>
      simp [Clock.Settled, Condition.Settles, Except.map, judge, h, Evaluation.isPending]

theorem decides_conclude (c : Condition) (expectation full : String) (timeout : Span)
    (read : Except AccessError Value) :
    c.Decides expectation full timeout read
      (conclude full timeout (read.map fun v => judge c expectation (some v))) := by
  cases read
  case error e =>
    cases e <;> constructor <;>
      simp [conclude, Except.map, AssertError.ofAccess, AccessError.isRetryable]
    case unreachable.neverReachable => grind
  case ok v =>
    cases h : c.holds v <;> constructor <;> simp [conclude, Except.map, judge, h]
    case false.failed => exact fun _ => eq_comm

-- What an assertion comes to that has `n` reads before the one that it goes by.
structure GoesBy (k : Checker σ) (pv : String) (c : Condition) (o : AssertOptions) (s : σ) (n : Nat)
    (result : Except AssertError Unit × σ) : Prop where
  goesOn :
    k.transport.GoesOn k.pause (k.deadline o s) c.Settles (k.transport.get (k.fullName pv)) s n
  last : k.transport.Ticks k.pause (k.transport.get (k.fullName pv)) →
    k.transport.Last k.pause (k.deadline o s) c.Settles (k.transport.get (k.fullName pv)) s n
  state : result.2 = (k.transport.get (k.fullName pv)
    (k.transport.visit k.pause (k.transport.get (k.fullName pv)) s n)).2
  decides : c.Decides (k.expectationOf pv c o) (k.fullName pv) (k.timeoutOf o)
    (k.transport.answer k.pause (k.transport.get (k.fullName pv)) s n) result.1

theorem exists_goesBy (k : Checker σ) (pv : String) (c : Condition) (o : AssertOptions) (s : σ) :
    ∃ n, k.GoesBy pv c o s n ((k.assertValue pv c o).run s) := by
  let read := k.transport.get (k.fullName pv)
  let look := k.look (k.fullName pv) .reading c (k.expectationOf pv c o)
  have hr s : (look s).2 = (read s).2 := snd_look
  have hs s : Clock.Settled (look s).1 ↔ c.Settles (read s).1 := settled_look
  have ⟨n, hn, hg, hl⟩ :=
    Clock.pollUntil_eq_polled k.transport.toClock k.pause (k.deadline o s) look s
  have hx : k.poll pv .reading c o s = k.transport.polled k.pause look s n := hn
  have hv : k.transport.visit k.pause look s n = k.transport.visit k.pause read s n :=
    Clock.visit_congr hr
  refine ⟨n, hg.congr hr hs, fun ht => (hl (ht.congr hr)).congr hr hs, ?state, ?decides⟩
  case state =>
    rw [run_assertValue, hx, ← hv]
    exact hr _
  case decides =>
    rw [run_assertValue, hx, Clock.answer, ← hv]
    change c.Decides _ _ _ _ (conclude _ _ (look _).1)
    rw [show look _ = _ from look_reading]
    exact decides_conclude ..

theorem GoesBy.of_over {t' : Transport τ} {π : τ → σ} {u : τ} {n : Nat}
    {result : Except AssertError Unit × τ} (h : t'.Mirrors k.transport π)
    (hg : (k.over t').GoesBy pv c o u n result) :
    k.GoesBy pv c o (π u) n (Prod.map id π result) := by
  have step := h.get (k.fullName pv)
  have hd : k.deadline o (π u) = (k.over t').deadline o u := by
    rw [deadline, h.now]
    rfl
  refine ⟨?goesOn, fun ht => ?last, ?state, ?decides⟩
  case goesOn =>
    rw [hd]
    exact hg.goesOn.map h.now h.sleep step
  case last =>
    rw [hd]
    exact (hg.last (ht.map h.now h.sleep step)).map h.now h.sleep step
  case state =>
    rw [Clock.visit_map h.sleep step, step, Prod.map_snd, Prod.map_snd, hg.state]
    rfl
  case decides =>
    rw [Clock.answer_map h.sleep step]
    exact hg.decides

theorem exists_goesBy_over {t' : Transport τ} {π : τ → σ} (h : t'.Mirrors k.transport π)
    (pv : String) (c : Condition) (o : AssertOptions) (u : τ) :
    ∃ n r u', k.GoesBy pv c o (π u) n (r, π u') ∧
      (k.assertValue pv c o).run (π u) = (r, π u') ∧
      ((k.over t').assertValue pv c o).run u = (r, u') ∧
      u' = (t'.get (k.fullName pv) (t'.visit k.pause (t'.get (k.fullName pv)) u n)).2 := by
  have ⟨n, hg⟩ := (k.over t').exists_goesBy pv c o u
  have hr := assertValue_over h pv c o u
  generalize ((k.over t').assertValue pv c o).run u = x at hg hr ⊢
  have ⟨r, u'⟩ := x
  exact ⟨n, r, u', hg.of_over h, hr, rfl, hg.state⟩

theorem exists_calls (k : Checker σ) (pv : String) (c : Condition) (o : AssertOptions) (s : σ)
    (calls : List Call) :
    ∃ n r t, k.GoesBy pv c o s n (r, t) ∧ (k.assertValue pv c o).run s = (r, t) ∧
      ((k.over k.transport.recorded).assertValue pv c o).run ⟨s, calls⟩ =
        (r, ⟨t, List.replicate (n + 1) (.get (k.fullName pv)) ++ calls⟩) := by
  have ⟨n, r, u, hg, hr, hr', hu⟩ :=
    exists_goesBy_over k.transport.recorded_mirrors pv c o ⟨s, calls⟩
  refine ⟨n, r, u.state, hg, hr, hr'.trans (Prod.ext rfl ?_)⟩
  rw [Transport.visit_recorded] at hu
  rw [hu]
  rfl

theorem exists_answers (k : Checker σ) (pv : String) (c : Condition) (o : AssertOptions) (s : σ)
    (answers : List (Except AccessError Value)) :
    ∃ earlier last r t, (k.assertValue pv c o).run s = (r, t) ∧
      ((k.over k.transport.answered).assertValue pv c o).run ⟨s, answers⟩ =
        (r, ⟨t, (earlier ++ [last]).reverse ++ answers⟩) ∧
      c.Decides (k.expectationOf pv c o) (k.fullName pv) (k.timeoutOf o) last r ∧
      (∀ read ∈ earlier, ¬c.Settles read) ∧ (o.timeout = some 0 → earlier = []) := by
  have ⟨n, r, u, hg, hr, hr', hu⟩ :=
    exists_goesBy_over k.transport.answered_mirrors pv c o ⟨s, answers⟩
  let answer := k.transport.answer k.pause (k.transport.get (k.fullName pv)) s
  refine ⟨(List.range n).map answer, answer n, r, u.state, hr, hr'.trans (Prod.ext rfl ?_),
    hg.decides, ?_, ?_⟩
  case refine_1 =>
    rw [Transport.visit_answered] at hu
    rw [hu, List.reverse_append]
    rfl
  case refine_2 =>
    intro read hm
    obtain ⟨m, hn, rfl⟩ := List.mem_map.mp hm
    exact (hg.goesOn m (List.mem_range.mp hn)).1
  case refine_3 =>
    intro ho
    cases n
    case zero => rfl
    case succ n =>
      have hd : k.transport.now s < k.transport.now s + k.timeoutOf o :=
        (hg.goesOn 0 (Nat.succ_pos n)).2
      simp [timeoutOf, ho] at hd

end Checker

inductive PolledAssertion where
  | value (c : Condition)
  | alarm (severity : Severity)
  | notAlarm (severity : Severity)

namespace PolledAssertion

def make (k : Checker σ) (pv : String) (o : AssertOptions) : PolledAssertion → Assertion σ Unit
  | value c => k.assertValue pv c o
  | alarm severity => k.assertAlarm pv severity o
  | notAlarm severity => k.assertNotAlarm pv severity o

def target (pv : String) : PolledAssertion → String
  | value _ => pv
  | alarm _ | notAlarm _ => Field.severity.of pv

def condition : PolledAssertion → Condition
  | value c => c
  | alarm severity => .equals severity.toValue
  | notAlarm severity => .differs severity.toValue

variable {k : Checker σ} {pv : String} {o : AssertOptions}

theorem make_eq (a : PolledAssertion) :
    a.make k pv o = k.assertValue (a.target pv) a.condition o := by
  cases a <;> rfl

end PolledAssertion

inductive ReadingAssertion where
  | polled (a : PolledAssertion) (o : AssertOptions)
  | trend (wait : Span) (kind : Trend)

def ReadingAssertion.make (k : Checker σ) (pv : String) : ReadingAssertion → Assertion σ Unit
  | polled a o => a.make k pv o
  | trend wait kind => k.assertTrend pv wait kind

def IsUnreachable (read : Except AccessError Value) : Prop :=
  ∃ pv, read = .error (.unreachable pv)

def IsNeverReachable (r : Except AssertError Unit) : Prop :=
  ∃ pv timeout e, r = .error (.neverReachable pv timeout e)

theorem Condition.Decides.isNeverReachable_iff {c : Condition} {expectation full : String}
    {timeout : Span} {read : Except AccessError Value} {r : Except AssertError Unit}
    (h : c.Decides expectation full timeout read r) : IsNeverReachable r ↔ IsUnreachable read := by
  constructor
  case mp =>
    intro ⟨pv, t, e, hr⟩
    have ⟨he, ⟨x, hx⟩, _⟩ := (h.neverReachable pv t e).mp hr
    exact ⟨x, hx ▸ he⟩
  case mpr =>
    intro ⟨x, hx⟩
    exact ⟨full, timeout, .unreachable x, (h.neverReachable ..).mpr ⟨hx, ⟨x, rfl⟩, rfl, rfl⟩⟩

theorem Condition.isUnreachable_or_value {c : Condition} {read : Except AccessError Value}
    (h : ¬c.Settles read) : IsUnreachable read ∨ ∃ v, read = .ok v := by
  cases read
  case ok v => exact .inr ⟨v, rfl⟩
  case error e =>
    have he : e.isRetryable := Bool.not_eq_false _ ▸ h
    obtain ⟨x, rfl⟩ := AccessError.isRetryable_iff.mp he
    exact .inl ⟨x, rfl⟩

theorem all_unreachable_iff {earlier : List (Except AccessError Value)}
    {last : Except AccessError Value} {r : Except AssertError Unit}
    (hr : IsNeverReachable r ↔ IsUnreachable last)
    (he : ∀ read ∈ earlier, IsUnreachable read ∨ ∃ v, read = .ok v) :
    (IsNeverReachable r → ∀ read ∈ earlier ++ [last], IsUnreachable read) ↔
      ¬(IsUnreachable last ∧ ∃ v, .ok v ∈ earlier) := by
  constructor
  case mp =>
    intro h ⟨hl, v, hv⟩
    have ⟨_, hv⟩ := h (hr.mpr hl) (.ok v) (List.mem_append_left _ hv)
    cases hv
  case mpr =>
    intro h hn read hm
    cases List.mem_append.mp hm
    case inr hm => exact List.mem_singleton.mp hm ▸ hr.mp hn
    case inl hm =>
      cases he read hm
      case inl hu => exact hu
      case inr hv =>
        obtain ⟨v, rfl⟩ := hv
        exact absurd ⟨hr.mp hn, v, hm⟩ h

-- What could not be read at last is said never to have been reachable, whatever has been read
-- before. So this is true of a call unless a value was read and then lost.
theorem neverReachable_iff_last_read_unreachable (k : Checker σ) (a : ReadingAssertion)
    (pv : String) (s : σ) :
    ∃ earlier last r t, (a.make k pv).run s = (r, t) ∧
      (a.make (k.over k.transport.answered) pv).run ⟨s, []⟩ =
        (r, ⟨t, (earlier ++ [last]).reverse⟩) ∧
      (IsNeverReachable r ↔ IsUnreachable last) ∧
      ((IsNeverReachable r → ∀ read ∈ earlier ++ [last], IsUnreachable read) ↔
        ¬(IsUnreachable last ∧ ∃ v, .ok v ∈ earlier)) := by
  cases a
  case polled a o =>
    have ⟨earlier, last, r, t, hk, ha, hd, he, _⟩ :=
      k.exists_answers (a.target pv) a.condition o s []
    have hr := hd.isNeverReachable_iff
    refine ⟨earlier, last, r, t, ?_, ?_, hr, all_unreachable_iff hr fun read hm =>
      Condition.isUnreachable_or_value (he read hm)⟩
    · rw [ReadingAssertion.make, PolledAssertion.make_eq, hk]
    · rw [ReadingAssertion.make, PolledAssertion.make_eq, ha, List.append_nil]
  case trend wait kind =>
    rcases hg : k.transport.get (k.fullName pv) s with ⟨first, t⟩
    have ha : k.transport.answered.get (k.fullName pv) ⟨s, []⟩ = (first, ⟨t, [first]⟩) := by
      rw [Transport.get_answered, hg]
    cases first
    case error e =>
      have hd := Checker.decides_conclude (.oneOf []) "" (k.fullName pv) 0 (.error e)
      have hr := hd.isNeverReachable_iff
      exact ⟨[], .error e, _, t, Checker.assertTrend_of_error hg,
        Checker.assertTrend_of_error ha, hr, all_unreachable_iff hr (by simp)⟩
    case ok v =>
      have ⟨earlier, last, r, u, hk, hw, hd, _, hz⟩ :=
        k.exists_answers pv (.moved kind v) { timeout := some 0 } (k.transport.sleep wait t) [.ok v]
      cases hz rfl
      have hr := hd.isNeverReachable_iff
      exact ⟨[.ok v], last, r, u, (Checker.assertTrend_of_ok hg).trans hk,
        (Checker.assertTrend_of_ok ha).trans hw, hr, all_unreachable_iff hr (by simp)⟩

-- A value is read and the variable is lost: both kinds of assertion say it never was reachable.
theorem neverReachable_after_value :
    let k := Checker.hasty.over Script.transport.answered
    let lost := Except.error (.unreachable "TE:LEVEL")
    let s : Answered Script := ⟨.ofAnswers "TE:LEVEL" [.ok (.int 1), lost], []⟩
    (∃ t, (k.assertValue "LEVEL" (.equals (.int 2)) {}).run s =
      (.error (.neverReachable "TE:LEVEL" 5 (.unreachable "TE:LEVEL")),
        ⟨t, [lost, .ok (.int 1)]⟩)) ∧
    ∃ t, (k.assertTrend "LEVEL" 0 .increasing).run s =
      (.error (.neverReachable "TE:LEVEL" 0 (.unreachable "TE:LEVEL")),
        ⟨t, [lost, .ok (.int 1)]⟩) := by
  intro k lost s
  refine ⟨⟨{ s.state with clock := 10, gets := [("TE:LEVEL", [lost])] }, ?_⟩,
    { s.state with gets := [("TE:LEVEL", [lost])] }, ?_⟩
  · rw [Checker.run_assertValue, Checker.poll, Clock.waitUntil,
      Clock.pollUntil_of_pending (by decide) (by rfl) (by decide),
      Clock.pollUntil_of_late (by decide)]
    rfl
  · rw [Checker.assertTrend_of_ok (by rfl), Checker.run_assertValue, Checker.poll, Clock.waitUntil,
      Clock.pollUntil_of_late (by decide)]
    rfl

end Readback
