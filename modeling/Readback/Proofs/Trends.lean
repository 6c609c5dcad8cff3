import Readback.Proofs.Sequences

namespace Readback

variable {σ α : Type}

inductive Activity where
  | exchange (e : Exchange)
  | sleep (d : Nat)

-- A state, and all that has been done on the way to it, last first.
structure Diary (σ : Type) where
  state : σ
  reversed : List Activity

def Diary.enter (exchange : α → Exchange) (run : StateM σ α) : StateM (Diary σ) α :=
  fun u =>
    let (a, s) := run u.state
    (a, ⟨s, .exchange (exchange a) :: u.reversed⟩)

def Transport.diarized (t : Transport σ) : Transport (Diary σ) where
  now u := t.now u.state
  sleep d u := ⟨t.sleep d u.state, .sleep d :: u.reversed⟩
  get pv := Diary.enter (.get pv) (t.get pv)
  put pv v wait timeout := Diary.enter (.put pv v wait timeout) (t.put pv v wait timeout)
  probe pv timeout := Diary.enter (.probe pv timeout) (t.probe pv timeout)
  subscribe pv := Diary.enter (.subscribe pv) (t.subscribe pv)
  unsubscribe id := Diary.enter (fun _ => .unsubscribe id) (t.unsubscribe id)
  drain := Diary.enter (fun _ => .drain) t.drain
  latest id u := t.latest id u.state

theorem Diary.enter_eq {run : StateM σ α} {s t : σ} {a : α} (h : run s = (a, t))
    (exchange : α → Exchange) (as : List Activity) :
    enter exchange run ⟨s, as⟩ = (a, ⟨t, .exchange (exchange a) :: as⟩) := by
  rw [enter, h]

namespace Checker

variable {k : Checker σ} {pv : String} {c : Condition} {o : AssertOptions} {s t u : σ}
  {read : Except AccessError Value}

theorem run_assertValue_of_no_time (ho : o.timeout = some 0)
    (h : k.transport.get (k.fullName pv) s = (read, t)) :
    (k.assertValue pv c o).run s =
      (conclude (k.fullName pv) 0
        (read.map fun v => judge c (k.expectationOf pv c o) (some v)), t) := by
  have hd : k.timeoutOf o = 0 := by rw [timeoutOf, ho]; rfl
  have hp : k.poll pv .reading c o s =
      (⟨[], ⟨k.transport.now s, read.map fun v => judge c (k.expectationOf pv c o) (some v),
        k.transport.now t⟩⟩, t) := by
    rw [poll, hd, Clock.waitUntil, Nat.add_zero,
      Clock.pollUntil_of_late (Nat.le_refl _), Clock.attempt_eq, look_reading, h]
    rfl
  rw [run_assertValue, hp, hd]
  rfl

theorem run_assertTrend_of_reads {wait : Span} {trend : Trend} {initial : Value}
    (h : k.transport.get (k.fullName pv) s = (.ok initial, t))
    (h' : k.transport.get (k.fullName pv) (k.transport.sleep wait t) = (read, u)) :
    (k.assertTrend pv wait trend).run s =
      (conclude (k.fullName pv) 0 (read.map fun v =>
        judge (.moved trend initial)
          ((Condition.moved trend initial).expectation (k.fullName pv)) (some v)), u) := by
  rw [assertTrend_of_ok h]
  exact run_assertValue_of_no_time rfl h'

-- An assertion on how a value moves reads once. If there is no value to begin with it is over,
-- without a sleep; otherwise it sleeps and reads once more, and goes by that read alone.
theorem trend_goes_by_two_reads (k : Checker σ) (pv : String) (wait : Span) (trend : Trend)
    (s : σ) :
    let full := k.fullName pv
    let asserted := (k.assertTrend pv wait trend).run s
    let diary := ((k.over k.transport.diarized).assertTrend pv wait trend).run ⟨s, []⟩
    match k.transport.get full s with
    | (.error e, t) =>
      let r := .error (if e.isRetryable then .neverReachable full 0 e else .access e)
      asserted = (r, t) ∧ diary = (r, ⟨t, [.exchange (.get full (.error e))]⟩)
    | (.ok initial, t) =>
      ∃ read u r, k.transport.get full (k.transport.sleep wait t) = (read, u) ∧
        asserted = (r, u) ∧
        diary = (r, ⟨u, [.exchange (.get full read), .sleep wait,
          .exchange (.get full (.ok initial))]⟩) ∧
        (Condition.moved trend initial).Decides
          ((Condition.moved trend initial).expectation full) full 0 read r := by
  intro full asserted diary
  have hg {s : σ} {a t} (h : k.transport.get full s = (a, t)) (as : List Activity) :
      (k.over k.transport.diarized).transport.get full ⟨s, as⟩ =
        (a, ⟨t, .exchange (.get full a) :: as⟩) :=
    Diary.enter_eq h (.get full) as
  rcases h : k.transport.get full s with ⟨first, t⟩
  cases first
  case error e => exact ⟨assertTrend_of_error h, assertTrend_of_error (hg h [])⟩
  case ok initial =>
    rcases h' : k.transport.get full (k.transport.sleep wait t) with ⟨read, u⟩
    exact ⟨read, u, _, h', run_assertTrend_of_reads h h',
      run_assertTrend_of_reads (hg h []) (hg h' _), decides_conclude ..⟩

end Checker
end Readback
