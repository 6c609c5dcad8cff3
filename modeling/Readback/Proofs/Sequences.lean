import Readback.Proofs.Fields
import Readback.Proofs.Forcing

namespace Readback

variable {σ α : Type}

inductive Exchange where
  | get (pv : String) (answer : Except AccessError Value)
  | put (pv : String) (v : Value) (wait : Bool) (timeout : Nat) (answer : Except AccessError Unit)
  | probe (pv : String) (timeout : Nat) (answer : Bool)
  | subscribe (pv : String) (answer : Except AccessError SubscriptionId)
  | unsubscribe (id : SubscriptionId)
  | drain

-- A state, and the exchanges on the way to it, last first.
structure Transcript (σ : Type) where
  state : σ
  reversed : List Exchange

def Transcript.log (exchange : α → Exchange) (run : StateM σ α) : StateM (Transcript σ) α :=
  fun u =>
    let (a, s) := run u.state
    (a, ⟨s, exchange a :: u.reversed⟩)

theorem Transcript.log_eq {run : StateM σ α} {s t : σ} {a : α} (h : run s = (a, t))
    (exchange : α → Exchange) (es : List Exchange) :
    log exchange run ⟨s, es⟩ = (a, ⟨t, exchange a :: es⟩) := by
  rw [log, h]

namespace Transport

def transcribed (t : Transport σ) : Transport (Transcript σ) where
  now u := t.now u.state
  sleep d u := { u with state := t.sleep d u.state }
  get pv := Transcript.log (.get pv) (t.get pv)
  put pv v wait timeout := Transcript.log (.put pv v wait timeout) (t.put pv v wait timeout)
  probe pv timeout := Transcript.log (.probe pv timeout) (t.probe pv timeout)
  subscribe pv := Transcript.log (.subscribe pv) (t.subscribe pv)
  unsubscribe id := Transcript.log (fun _ => .unsubscribe id) (t.unsubscribe id)
  drain := Transcript.log (fun _ => .drain) t.drain
  latest id u := t.latest id u.state

theorem transcribed_mirrors (t : Transport σ) : t.transcribed.Mirrors t Transcript.state where
  now _ := rfl
  sleep _ _ := rfl
  get _ _ := rfl

theorem visit_transcribed {t : Transport σ} {pause : Nat} {pv : String} {s : σ}
    (es : List Exchange) (n : Nat) :
    t.transcribed.visit pause (t.transcribed.get pv) ⟨s, es⟩ n =
      ⟨t.visit pause (t.get pv) s n,
        (((List.range n).map (t.answer pause (t.get pv) s)).map (.get pv)).reverse ++ es⟩ := by
  induction n
  case zero => rfl
  case succ n hi =>
    rw [Clock.visit, hi, List.range_succ, List.map_append, List.map_append, List.reverse_append]
    rfl

end Transport

abbrev Conduct := List Exchange → Except AssertError Unit → Prop

inductive Asks (full : String) (timeout : Span) : Conduct
  | found : Asks full timeout [.probe full timeout true] (.ok ())
  | missing : Asks full timeout [.probe full timeout false] (.error (.missing full))

inductive Puts (full : String) (v : Value) (wait : Bool) (timeout : Span) : Conduct
  | written : Puts full v wait timeout [.put full v wait timeout (.ok ())] (.ok ())
  | refused (e : AccessError) :
    Puts full v wait timeout [.put full v wait timeout (.error e)] (.error (.access e))

-- A process variable is read until a read settles a condition, or it is too late.
inductive Reads (k : Checker σ) (pv : String) (c : Condition) (o : AssertOptions) : Conduct
  | intro {earlier : List (Except AccessError Value)} {last : Except AccessError Value}
    {r : Except AssertError Unit} (he : ∀ read ∈ earlier, ¬c.Settles read)
    (hd : c.Decides (k.expectationOf pv c o) (k.fullName pv) (k.timeoutOf o) last r) :
    Reads k pv c o ((earlier ++ [last]).map (.get (k.fullName pv))) r

-- Parts take their turns. One that fails is the last one, and it is what the whole comes to.
inductive InTurn : List Conduct → Conduct
  | done : InTurn [] [] (.ok ())
  | passed {part : Conduct} {parts : List Conduct} {es es' : List Exchange}
    {r : Except AssertError Unit} (h : part es (.ok ())) (h' : InTurn parts es' r) :
    InTurn (part :: parts) (es ++ es') r
  | failed {part : Conduct} {parts : List Conduct} {es : List Exchange} {e : AssertError}
    (h : part es (.error e)) : InTurn (part :: parts) es (.error e)

def lastRead (pv : String) (es : List Exchange) : Option (Except AccessError Value) :=
  es.reverse.findSome? fun
    | .get name answer => if name = pv then some answer else none
    | _ => none

section

variable {k : Checker σ} {pv other : String} {c : Condition} {o : AssertOptions}
  {part : Conduct} {parts parts' : List Conduct} {es es' : List Exchange}
  {r : Except AssertError Unit} {e : AssertError}

@[simp] theorem lastRead_probe {timeout : Nat} {found : Bool} :
    lastRead pv (.probe other timeout found :: es) = lastRead pv es := by
  simp [lastRead]

@[simp] theorem lastRead_put {v : Value} {wait : Bool} {timeout : Nat}
    {answer : Except AccessError Unit} :
    lastRead pv (.put other v wait timeout answer :: es) = lastRead pv es := by
  simp [lastRead]

theorem lastRead_append : lastRead pv (es ++ es') = (lastRead pv es').or (lastRead pv es) := by
  rw [lastRead, List.reverse_append, List.findSome?_append]
  rfl

namespace Reads

theorem ok_iff (h : Reads k pv c o es r) :
    r = .ok () ↔ ∃ v, lastRead (k.fullName pv) es = some (.ok v) ∧ c.holds v := by
  obtain ⟨_, hd⟩ := h
  rw [hd.passed]
  simp [lastRead]

theorem lastRead_of_ne (h : Reads k pv c o es r) (hn : k.fullName pv ≠ other) :
    lastRead other es = none := by
  obtain ⟨_, _⟩ := h
  simp [lastRead, hn]

end Reads

namespace InTurn

theorem single (h : part es r) : InTurn [part] es r := by
  cases r
  case error => exact .failed h
  case ok => exact List.append_nil es ▸ .passed h .done

theorem of_single (h : InTurn [part] es r) : part es r := by
  cases h
  case failed h => exact h
  case passed h h' =>
    cases h'
    rwa [List.append_nil]

theorem append (h : InTurn parts es (.ok ())) (h' : InTurn parts' es' r) :
    InTurn (parts ++ parts') (es ++ es') r := by
  generalize hr : Except.ok () = r' at h
  induction h
  case done => exact h'
  case passed h _ hi => exact List.append_assoc .. ▸ .passed h (hi hr)
  case failed => cases hr

theorem append_of_error (h : InTurn parts es (.error e)) (parts' : List Conduct) :
    InTurn (parts ++ parts') es (.error e) := by
  generalize hr : Except.error e = r' at h ⊢
  induction h
  case done => cases hr
  case passed h _ hi => exact .passed h (hi hr)
  case failed h => exact .failed h

end InTurn
end

namespace Assertion

-- An assertion takes some parts in turn. The second assertion is the same over a transport of which
-- the exchanges are written down.
def Takes (parts : List Conduct) (a : Assertion σ Unit) (a' : Assertion (Transcript σ) Unit) :
    Prop :=
  ∀ s es, ∃ r t new, a.run s = (r, t) ∧ a'.run ⟨s, es⟩ = (r, ⟨t, new.reverse ++ es⟩) ∧
    InTurn parts new r

theorem Takes.bind {parts parts' : List Conduct} {a b : Assertion σ Unit}
    {a' b' : Assertion (Transcript σ) Unit} (h : Takes parts a a') (h' : Takes parts' b b') :
    Takes (parts ++ parts') (a >>= fun _ => b) (a' >>= fun _ => b') := by
  intro s es
  have ⟨r, t, new, ha, ha', hi⟩ := h s es
  cases r
  case error =>
    exact ⟨_, t, new, run_bind_of_error ha, run_bind_of_error ha', hi.append_of_error parts'⟩
  case ok =>
    have ⟨r, u, new', hb, hb', hi'⟩ := h' t (new.reverse ++ es)
    refine ⟨r, u, new ++ new', (run_bind_of_ok ha).trans hb, ?_, hi.append hi'⟩
    rw [run_bind_of_ok ha', hb', List.reverse_append, List.append_assoc]

theorem Takes.pure : Takes [] (pure () : Assertion σ Unit) (pure ()) :=
  fun s _ => ⟨.ok (), s, [], rfl, rfl, .done⟩

end Assertion

open Assertion

namespace Checker

variable (k : Checker σ)

theorem takes_assertExists (pv : String) (timeout : Span) :
    Takes [Asks (k.fullName pv) timeout] (k.assertExists pv (some timeout))
      ((k.over k.transport.transcribed).assertExists pv (some timeout)) := by
  intro s es
  rcases h : k.transport.probe (k.fullName pv) timeout s with ⟨found, t⟩
  refine ⟨_, t, [.probe (k.fullName pv) timeout found], run_assertExists h,
    run_assertExists (Transcript.log_eq h (.probe (k.fullName pv) timeout) es), .single ?_⟩
  cases found
  case false => exact .missing
  case true => exact .found

theorem takes_put (full : String) (v : Value) (wait : Bool) (timeout : Span) :
    Takes [Puts full v wait timeout] (ofAccess (k.transport.put full v wait timeout))
      (ofAccess (k.transport.transcribed.put full v wait timeout)) := by
  intro s es
  rcases h : k.transport.put full v wait timeout s with ⟨answer, t⟩
  refine ⟨_, t, [.put full v wait timeout answer], run_ofAccess h,
    run_ofAccess (Transcript.log_eq h (.put full v wait timeout) es), .single ?_⟩
  cases answer
  case error e => exact .refused e
  case ok => exact .written

theorem settle_transcribed (d : Span) (s : σ) (es : List Exchange) :
    ((k.over k.transport.transcribed).settle d ⟨s, es⟩).2 = ⟨(k.settle d s).2, es⟩ := by
  unfold settle
  split <;> rfl

theorem takes_settle (d : Span) :
    Takes [] (liftM (k.settle d) : Assertion σ Unit)
      (liftM ((k.over k.transport.transcribed).settle d)) :=
  fun s es => ⟨.ok (), (k.settle d s).2, [], rfl,
    Prod.ext rfl (k.settle_transcribed d s es), .done⟩

theorem takes_write (pv : String) (v : Value) (o : PutOptions) :
    Takes [Asks (k.fullName pv) k.putExistenceTimeout,
        Puts (k.fullName pv) v o.wait k.defaultTimeout] (k.write pv v o)
      ((k.over k.transport.transcribed).write pv v o) :=
  (k.takes_assertExists pv k.putExistenceTimeout).bind
    ((k.takes_put (k.fullName pv) v o.wait k.defaultTimeout).bind
      (k.takes_settle (o.settle.getD k.settleAfterPut)))

theorem takes_assertValue (pv : String) (c : Condition) (o : AssertOptions) :
    Takes [Reads k pv c o] (k.assertValue pv c o)
      ((k.over k.transport.transcribed).assertValue pv c o) := by
  intro s es
  have ⟨n, r, u, hg, hr, hr', hu⟩ :=
    exists_goesBy_over k.transport.transcribed_mirrors pv c o ⟨s, es⟩
  let answer := k.transport.answer k.pause (k.transport.get (k.fullName pv)) s
  refine ⟨r, u.state, ((List.range n).map answer ++ [answer n]).map (.get (k.fullName pv)), hr,
    hr'.trans (Prod.ext rfl ?_), .single (.intro (fun read hm => ?_) hg.decides)⟩
  case refine_1 =>
    rw [Transport.visit_transcribed] at hu
    rw [hu, List.map_append, List.reverse_append]
    rfl
  case refine_2 =>
    obtain ⟨m, hn, rfl⟩ := List.mem_map.mp hm
    exact (hg.goesOn m (List.mem_range.mp hn)).1

def readbackParts (v : Value) (readback : String) (o : SetpointOptions) : List Conduct :=
  let setpoint := k.fullName (o.setpoint.getD (readback ++ ":SP"))
  let looks : AssertOptions := { timeout := o.timeout }
  [Asks setpoint k.putExistenceTimeout, Puts setpoint v false k.defaultTimeout,
    Reads k readback (.equals (o.expected.getD v)) looks] ++
  (o.alarm.map fun severity =>
    Reads k (readback ++ ".SEVR") (.equals (.text severity.state)) looks).toList

theorem takes_assertReadback (v : Value) (readback : String) (o : SetpointOptions) :
    Takes (k.readbackParts v readback o) (k.assertReadback v readback o)
      ((k.over k.transport.transcribed).assertReadback v readback o) := by
  rcases o with ⟨setpoint, expected, alarm, timeout⟩
  have hw := k.takes_write (setpoint.getD (readback ++ ":SP")) v {}
  have hv := k.takes_assertValue readback (.equals (expected.getD v)) { timeout }
  cases alarm
  case none => exact hw.bind (hv.bind .pure)
  case some severity =>
    have ha := k.takes_assertValue (Field.severity.of readback) (.equals severity.toValue)
      { timeout }
    rw [readbackParts, ← Field.severity_of]
    exact hw.bind (hv.bind ha)

section

variable {k : Checker σ} {v : Value} {readback : String} {c : Condition} {looks : AssertOptions}
  {o : SetpointOptions} {es : List Exchange} {r : Except AssertError Unit}

theorem looks_ok_iff {alarm : Option Severity}
    (h : InTurn (Reads k readback c looks :: (alarm.map fun severity =>
      Reads k (readback ++ ".SEVR") (.equals (.text severity.state)) looks).toList) es r) :
    r = .ok () ↔
      (∃ w, lastRead (k.fullName readback) es = some (.ok w) ∧ c.holds w) ∧
      ∀ severity, alarm = some severity →
        ∃ w, lastRead (k.fullName (readback ++ ".SEVR")) es = some (.ok w) ∧
          w.same (.text severity.state) := by
  have hn : k.fullName (readback ++ ".SEVR") ≠ k.fullName readback := by
    rw [← Field.severity_of, k.fullName_of]
    exact Field.severity.of_ne_self _
  cases h
  case failed hr => simp [← hr.ok_iff]
  case passed hr h =>
    cases alarm
    case none =>
      cases h
      simpa using hr.ok_iff
    case some severity =>
      have ha := InTurn.of_single h
      simp only [lastRead_append, ha.lastRead_of_ne hn, hr.lastRead_of_ne hn.symm,
        Option.none_or, Option.or_none]
      refine ha.ok_iff.trans ⟨fun hw => ⟨hr.ok_iff.mp rfl, ?_⟩, fun ⟨_, hw⟩ => hw severity rfl⟩
      rintro _ ⟨⟩
      exact hw

theorem readbackParts_ok_iff (h : InTurn (k.readbackParts v readback o) es r) :
    let setpoint := k.fullName (o.setpoint.getD (readback ++ ":SP"))
    r = .ok () ↔
      .probe setpoint k.putExistenceTimeout true ∈ es ∧
      .put setpoint v false k.defaultTimeout (.ok ()) ∈ es ∧
      (∃ w, lastRead (k.fullName readback) es = some (.ok w) ∧ w.same (o.expected.getD v)) ∧
      ∀ severity, o.alarm = some severity →
        ∃ w, lastRead (k.fullName (readback ++ ".SEVR")) es = some (.ok w) ∧
          w.same (.text severity.state) := by
  intro setpoint
  cases h
  case failed ha =>
    cases ha
    simp
  case passed ha h =>
    cases ha
    cases h
    case failed hp =>
      cases hp
      simp
    case passed hp h =>
      cases hp
      simpa [setpoint, Condition.holds] using looks_ok_iff h

end

-- A setpoint is asked for, it is written, the readback is read, and then, if an alarm is expected,
-- its severity. What fails first is what the assertion comes to, and nothing is called after it.
theorem readback_asserted_in_turn (v : Value) (readback : String) (o : SetpointOptions) (s : σ) :
    let setpoint := k.fullName (o.setpoint.getD (readback ++ ":SP"))
    ∃ result t es,
      (k.assertReadback v readback o).run s = (result, t) ∧
      ((k.over k.transport.transcribed).assertReadback v readback o).run ⟨s, []⟩ =
        (result, ⟨t, es.reverse⟩) ∧
      InTurn (k.readbackParts v readback o) es result ∧
      (result = .ok () ↔
        .probe setpoint k.putExistenceTimeout true ∈ es ∧
        .put setpoint v false k.defaultTimeout (.ok ()) ∈ es ∧
        (∃ w, lastRead (k.fullName readback) es = some (.ok w) ∧ w.same (o.expected.getD v)) ∧
        ∀ severity, o.alarm = some severity →
          ∃ w, lastRead (k.fullName (readback ++ ".SEVR")) es = some (.ok w) ∧
            w.same (.text severity.state)) := by
  intro setpoint
  have ⟨result, t, es, hr, hr', hi⟩ := k.takes_assertReadback v readback o s []
  rw [List.append_nil] at hr'
  exact ⟨result, t, es, hr, hr', hi, readbackParts_ok_iff hi⟩

-- Without other names. The readback follows late, and its alarm cannot be read at first.
theorem readback_asserted_in_turn_of_default_names :
    let k := Checker.hasty
    let lost := Except.error (.unreachable "TE:TEMP.SEVR")
    let s : Script := { Script.ofAnswers "TE:TEMP" [] with
      gets := [("TE:TEMP", [.ok (.int 1), .ok (.int 5)]),
        ("TE:TEMP.SEVR", [lost, .ok (.text "NO_ALARM")])] }
    let es : List Exchange := [.probe "TE:TEMP:SP" 0 true,
      .put "TE:TEMP:SP" (.int 5) false 5 (.ok ()),
      .get "TE:TEMP" (.ok (.int 1)), .get "TE:TEMP" (.ok (.int 5)),
      .get "TE:TEMP.SEVR" lost, .get "TE:TEMP.SEVR" (.ok (.text "NO_ALARM"))]
    ∃ t, (k.assertReadback (.int 5) "TEMP" {}).run s = (.ok (), t) ∧
      ((k.over k.transport.transcribed).assertReadback (.int 5) "TEMP" {}).run ⟨s, []⟩ =
        (.ok (), ⟨t, es.reverse⟩) ∧
      InTurn (k.readbackParts (.int 5) "TEMP" {}) es (.ok ()) := by
  intro k lost s es
  let k' := k.over k.transport.transcribed
  let s₁ : Transcript Script := ⟨s, (es.take 2).reverse⟩
  let s₂ : Transcript Script := ⟨{ s with
    clock := 10
    gets := [("TE:TEMP", [.ok (.int 5)]), ("TE:TEMP.SEVR", [lost, .ok (.text "NO_ALARM")])] },
    (es.take 4).reverse⟩
  let s₃ : Transcript Script := ⟨{ s with
    clock := 20
    gets := [("TE:TEMP", [.ok (.int 5)]), ("TE:TEMP.SEVR", [.ok (.text "NO_ALARM")])] },
    es.reverse⟩
  have hw : (k'.write "TEMP:SP" (.int 5) {}).run ⟨s, []⟩ = (.ok (), s₁) := rfl
  have hv : (k'.assertValue "TEMP" (.equals (.int 5)) {}).run s₁ = (.ok (), s₂) := by
    rw [run_assertValue, poll, Clock.waitUntil,
      Clock.pollUntil_of_pending (by decide) (by rfl) (by decide),
      Clock.pollUntil_of_late (by decide)]
    rfl
  have ha : (k'.assertAlarm "TEMP" .noAlarm {}).run s₂ = (.ok (), s₃) := by
    rw [assertAlarm, run_assertValue, poll, Clock.waitUntil,
      Clock.pollUntil_of_pending (by decide) (by rfl) (by decide),
      Clock.pollUntil_of_late (by decide)]
    rfl
  have hx : (k'.assertReadback (.int 5) "TEMP" {}).run ⟨s, []⟩ = (.ok (), s₃) :=
    (run_bind_of_ok hw).trans ((run_bind_of_ok hv).trans ha)
  obtain ⟨result, t, es', hr, hr', hi, -⟩ := k.readback_asserted_in_turn (.int 5) "TEMP" {} s
  obtain ⟨rfl, hs⟩ := Prod.mk.inj (hx.symm.trans hr')
  obtain ⟨rfl, he⟩ := Transcript.mk.inj hs
  obtain rfl : es = es' := List.reverse_inj.mp he
  exact ⟨_, hr, hx, hi⟩

end Checker
end Readback
