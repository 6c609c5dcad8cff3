import Readback.Proofs.Reporting
import Readback.Proofs.Streams

namespace Readback

open Relation

namespace Server

variable {s t : Server} {pv q setpoint readback : String} {names names' : Set String} {v : Value}
  {a : Severity × String} {severity : Severity}

def Waits : Server → Server → Prop := ReflTransGen (Passes fun _ _ => False)

theorem StreamsApart.mono (h : s.StreamsApart names) (hn : names' ⊆ names) :
    s.StreamsApart names' := by
  intro task ht
  have ⟨due, period, pv, values, he, hp⟩ := h task ht
  exact ⟨due, period, pv, values, he, fun hm => hp (hn hm)⟩

namespace Drifts

theorem of_waits (hs : s.StreamsApart names) (h : Waits s t) : Drifts names s t := by
  induction h
  case refl => exact .refl hs
  case tail hp hi =>
    cases hp
    case time d => exact hi.trans (drifts_sleep hi.streams d).left
    case other h => exact h.elim

theorem alarm? (h : Drifts names s t) (ha : s.alarm? pv = some a) : t.alarm? pv = some a := by
  have ⟨r, hr, hc, he⟩ := alarm?_eq_some_iff.mp ha
  have ⟨v, hv⟩ := h.kept pv r hr
  exact alarm?_eq_some_iff.mpr ⟨_, hv, r.isReachable_of_le hc h.clock, he⟩

theorem reachable (h : Drifts names s t) (ha : (s.alarm? pv).isSome) : (t.alarm? pv).isSome := by
  have ⟨a, ha⟩ := Option.isSome_iff_exists.mp ha
  exact Option.isSome_iff_exists.mpr ⟨a, h.alarm? ha⟩

end Drifts

theorem exists_record_of_reachable (h : (s.alarm? pv).isSome) :
    ∃ r, s.records.find? pv = some r ∧ r.isReachable s.clock := by
  have ⟨_, ha⟩ := Option.isSome_iff_exists.mp h
  have ⟨r, hr, hc, _⟩ := alarm?_eq_some_iff.mp ha
  exact ⟨r, hr, hc⟩

theorem probe_of_reachable (h : (s.alarm? pv).isSome) (timeout : Nat) :
    s.probe pv timeout = (true, s.sleep 0) := by
  have ⟨r, hr, hc⟩ := exists_record_of_reachable h
  exact probe_of_isReachable (.record hr) hc timeout

def drive (s : Server) (setpoint readback : String) (v : Value) : Server :=
  (({ s with writes := s.writes ++ [(setpoint, v)] } : Server).set setpoint v).set readback v

theorem put_of_linked (h : (s.alarm? setpoint).isSome)
    (hl : s.links.find? setpoint = some readback) (v : Value) :
    s.put setpoint v = (.ok (), s.drive setpoint readback v) := by
  have ⟨r, hr, hc⟩ := exists_record_of_reachable h
  simp [put, resolve?_record hr, hc, putRecord, links_set, hl, drive]

theorem writes_drive : (s.drive setpoint readback v).writes = s.writes ++ [(setpoint, v)] := by
  rw [drive, writes_set, writes_set]

theorem find?_drive_readback (setpoint : String) (h : (s.alarm? readback).isSome) (v : Value) :
    ∃ r, (s.drive setpoint readback v).records.find? readback = some r ∧
      r.isReachable (s.drive setpoint readback v).clock ∧ r.value = v := by
  have ⟨r, hr, hc⟩ := exists_record_of_reachable h
  rw [drive, clock_set, clock_set, find?_set, if_pos rfl, find?_set]
  split
  · next he =>
    cases he
    exact ⟨{ r with value := v }, by rw [hr]; rfl, hc, rfl⟩
  · exact ⟨{ r with value := v }, by rw [hr]; rfl, hc, rfl⟩

theorem find?_drive_of_ne (hp : q ≠ setpoint) (hs : q ≠ readback) :
    (s.drive setpoint readback v).records.find? q = s.records.find? q := by
  rw [drive, find?_set, if_neg hs, find?_set, if_neg hp]

-- A setpoint and the readback that follows it can be reached. No stream feeds the readback.
structure Linked (setpoint readback : String) (s : Server) : Prop where
  link : s.links.find? setpoint = some readback
  reachable : (s.alarm? setpoint).isSome
  followed : (s.alarm? readback).isSome
  streams : s.StreamsApart {readback}

namespace Linked

theorem waits (h : Linked setpoint readback s) (hw : Waits s t) : Linked setpoint readback t where
  link := (Drifts.of_waits h.streams hw).links ▸ h.link
  reachable := (Drifts.of_waits h.streams hw).reachable h.reachable
  followed := (Drifts.of_waits h.streams hw).reachable h.followed
  streams := (Drifts.of_waits h.streams hw).streams

theorem drifts_drive (h : Linked setpoint readback s) (v : Value) :
    Drifts ∅ { s with writes := s.writes ++ [(setpoint, v)] } (s.drive setpoint readback v) := by
  let w : Server := { s with writes := s.writes ++ [(setpoint, v)] }
  have hw : w.StreamsApart ∅ := h.streams.mono (Set.empty_subset _)
  have hv : Drifts ∅ w (w.set setpoint v) := .set hw (Set.notMem_empty _) v
  exact hv.trans (.set hv.streams (Set.notMem_empty _) v)

theorem alarm?_drive (h : Linked setpoint readback s) (ha : s.alarm? pv = some a) :
    (s.drive setpoint readback v).alarm? pv = some a :=
  (h.drifts_drive v).alarm? ha

theorem streams_drive (hs : s.StreamsApart names) :
    (s.drive setpoint readback v).StreamsApart names := by
  rw [StreamsApart, Server.drive, agenda_set, agenda_set]
  exact hs

theorem drive (h : Linked setpoint readback s) (v : Value) :
    Linked setpoint readback (s.drive setpoint readback v) where
  link := (h.drifts_drive v).links ▸ h.link
  reachable := (h.drifts_drive v).reachable h.reachable
  followed := (h.drifts_drive v).reachable h.followed
  streams := streams_drive h.streams

theorem get_readback (h : Linked setpoint readback s) (hw : Waits (s.drive setpoint readback v) t) :
    t.get readback = .ok v := by
  have ⟨r, hr, hc, hv⟩ := find?_drive_readback setpoint h.followed v
  have hd := Drifts.of_waits (h.drive v).streams hw
  rw [← hv]
  refine get_record ?_ (r.isReachable_of_le hc hd.clock)
  rw [hd.same readback rfl, hr]

end Linked

-- The alarm of a record can be read. No stream makes a record that hides it.
structure AlarmShown (pv : String) (severity : Severity) (s : Server) : Prop where
  alarm : ∃ status, s.alarm? pv = some (severity, status)
  visible : s.records.find? (Field.severity.of pv) = none
  streams : s.StreamsApart {Field.severity.of pv}

namespace AlarmShown

theorem waits (h : AlarmShown pv severity s) (hw : Waits s t) : AlarmShown pv severity t where
  alarm := by
    have ⟨status, ha⟩ := h.alarm
    exact ⟨status, (Drifts.of_waits h.streams hw).alarm? ha⟩
  visible := by
    rw [(Drifts.of_waits h.streams hw).same _ rfl]
    exact h.visible
  streams := (Drifts.of_waits h.streams hw).streams

theorem drive (h : AlarmShown pv severity s) (hl : Linked setpoint readback s) (v : Value) :
    AlarmShown pv severity (s.drive setpoint readback v) where
  alarm := by
    have ⟨status, ha⟩ := h.alarm
    exact ⟨status, hl.alarm?_drive ha⟩
  visible := by
    have ne {q : String} (hq : (s.alarm? q).isSome) : Field.severity.of pv ≠ q := by
      have ⟨r, hr, _⟩ := exists_record_of_reachable hq
      rintro rfl
      cases h.visible.symm.trans hr
    rw [find?_drive_of_ne (ne hl.reachable) (ne hl.followed)]
    exact h.visible
  streams := Linked.streams_drive h.streams

theorem get_severity (h : AlarmShown pv severity s) :
    s.get (Field.severity.of pv) = .ok severity.toValue := by
  have ⟨status, ha⟩ := h.alarm
  exact Server.get_severity h.visible ha

end AlarmShown

end Server

open Server

namespace Checker

variable {k : Checker Server} {pv setpoint readback : String} {s : Server} {v : Value}

theorem waits_settle (hk : k.transport = Server.transport) (d : Span) (s : Server) :
    Waits s (k.settle d s).2 :=
  passes_settle hk d s

theorem write_of_linked (hk : k.transport = Server.transport)
    (h : Linked (k.fullName setpoint) readback s) (v : Value) :
    ∃ t u, Waits s t ∧ Waits (t.drive (k.fullName setpoint) readback v) u ∧
      (k.write setpoint v {}).run s = (.ok (), u) := by
  have ht : Waits s (s.sleep 0) := .single (.time 0)
  have hl := h.waits ht
  have hp : k.transport.probe (k.fullName setpoint) k.putExistenceTimeout s =
      (true, s.sleep 0) := by
    rw [hk]
    exact probe_of_reachable h.reachable _
  have hw : k.transport.put (k.fullName setpoint) v false k.defaultTimeout (s.sleep 0) =
      (.ok (), (s.sleep 0).drive (k.fullName setpoint) readback v) := by
    rw [hk]
    exact put_of_linked hl.reachable hl.link v
  exact ⟨s.sleep 0, _, ht, waits_settle hk k.settleAfterPut _, write_of_found (o := {}) hp hw⟩

theorem assertValue_of_steady (hk : k.transport = Server.transport)
    (h : ∀ t, Waits s t → t.get (k.fullName pv) = .ok v) (c : Condition) (o : AssertOptions) :
    ∃ r t, (k.assertValue pv c o).run s = (r, t) ∧ Waits s t ∧ (r = .ok () ↔ c.holds v) := by
  have ⟨n, hn⟩ := k.exists_goesBy pv c o s
  have hw : Waits s (k.transport.visit k.pause (k.transport.get (k.fullName pv)) s n) := by
    rw [hk]
    exact passes_visit ..
  have ha : k.transport.answer k.pause (k.transport.get (k.fullName pv)) s n = .ok v := by
    have hv := h _ hw
    rw [hk] at hv
    rw [Clock.answer, hk]
    exact hv
  refine ⟨((k.assertValue pv c o).run s).1, ((k.assertValue pv c o).run s).2, rfl,
    passes_assertValue hk pv c o s, hn.decides.passed.trans ?_⟩
  simp [ha]

end Checker

namespace Suite

variable {σ : Type} {suite : Suite σ} {c : Context σ} {case : Case} {s t u : σ}

theorem runCase_of_applied {r : Except AssertError Unit}
    (h : (suite.setter c case.input).run s = (.ok (), t))
    (he : (suite.expect c.checker case.expect case.timeout).run t = (r, u)) :
    ∃ failure, (suite.runCase c case).run s = (⟨case.name, r.isOk, failure⟩, u) := by
  rw [runCase_eq, perform_of_applied h, he]
  cases r
  case error e => exact ⟨_, rfl⟩
  case ok => exact ⟨_, rfl⟩

end Suite

namespace Expectation

-- Whether an expectation accepts an input that the status shows as it is, and the severity of an
-- alarm.
def Accepts (present : Severity) (input : Value) : Expectation → Prop
  | equals v => input.same v
  | number x tolerance => input.within x tolerance
  | oneOf vs => ∃ v ∈ vs, v.same input
  | integerInRange least greatest => input.inRange least greatest
  | alarm severity => present = severity

def IsAlarm : Expectation → Prop
  | alarm _ => True
  | _ => False

end Expectation

theorem Severity.same_toValue {a b : Severity} : a.toValue.same b.toValue ↔ a = b := by
  cases a <;> cases b <;> decide

namespace Suite

variable {k : Checker Server} {suite : Suite Server} {setpoint : String} {case : Case}
  {s t : Server} {v : Value} {present : Severity}

def alarmTarget (suite : Suite σ) : String :=
  suite.alarmPv.getD suite.statusPv

theorem expect_of_driven (hk : k.transport = Server.transport)
    (h : Linked (k.fullName setpoint) (k.fullName suite.statusPv) s)
    (ht : Waits (s.drive (k.fullName setpoint) (k.fullName suite.statusPv) v) t) (e : Expectation)
    (ha : e.IsAlarm → AlarmShown (k.fullName suite.alarmTarget) present t) (timeout : Option Span) :
    ∃ r u, (suite.expect k e timeout).run t = (r, u) ∧ Waits t u ∧
      (r = .ok () ↔ e.Accepts present v) := by
  have hv u (hu : Waits t u) : u.get (k.fullName suite.statusPv) = .ok v :=
    h.get_readback (ht.trans hu)
  cases e
  case alarm severity =>
    have hs u (hu : Waits t u) :
        u.get (k.fullName (Field.severity.of suite.alarmTarget)) = .ok present.toValue := by
      rw [k.fullName_of]
      exact ((ha trivial).waits hu).get_severity
    have ⟨r, u, hr, hu, hi⟩ := Checker.assertValue_of_steady hk hs (.equals severity.toValue)
      { timeout }
    exact ⟨r, u, hr, hu, hi.trans Severity.same_toValue⟩
  case oneOf vs =>
    have ⟨r, u, hr, hu, hi⟩ := Checker.assertValue_of_steady hk hv (.oneOf vs) { timeout }
    refine ⟨r, u, hr, hu, hi.trans ?_⟩
    simp [Condition.holds, Expectation.Accepts]
  all_goals exact Checker.assertValue_of_steady hk hv _ { timeout }

theorem runCase_of_linked {c : Context Server} (hk : c.checker.transport = Server.transport)
    (hs : suite.setter = .setpoint setpoint)
    (h : Linked (c.checker.fullName setpoint) (c.checker.fullName suite.statusPv) s)
    (ha : case.expect.IsAlarm → AlarmShown (c.checker.fullName suite.alarmTarget) present s) :
    ∃ r t, (suite.runCase c case).run s = (r, t) ∧ r.name = case.name ∧
      (r.passed ↔ case.expect.Accepts present case.input) ∧
      t.writes = s.writes ++ [(c.checker.fullName setpoint, case.input)] ∧
      Linked (c.checker.fullName setpoint) (c.checker.fullName suite.statusPv) t ∧
      ∀ pv severity, AlarmShown pv severity s → AlarmShown pv severity t := by
  have ⟨w, t, hw, ht, hr⟩ := Checker.write_of_linked hk h case.input
  have hl := h.waits hw
  have shown {pv severity} (hp : AlarmShown pv severity s) : AlarmShown pv severity t :=
    ((hp.waits hw).drive hl case.input).waits ht
  have hi : (suite.setter c case.input).run s = (.ok (), t) := by
    have hx : ((Setter.setpoint setpoint : Setter Server) c case.input).run s =
        (((c.checker.write setpoint case.input {}).run s).1.mapError fun e =>
          ("writing setpoint " ++ setpoint) :: e.causes,
          ((c.checker.write setpoint case.input {}).run s).2) := rfl
    rw [hs, hx, hr]
    rfl
  have ⟨r, u, he, hu, hp⟩ := expect_of_driven hk hl ht case.expect (fun hc => shown (ha hc))
    case.timeout
  have ⟨failure, hc⟩ := runCase_of_applied hi he
  refine ⟨_, u, hc, rfl, Iff.trans ?_ hp, ?_, ((hl.drive case.input).waits ht).waits hu,
    fun _ _ hp => (shown hp).waits hu⟩
  case refine_1 => cases r <;> simp [Except.isOk, Except.toBool]
  case refine_2 =>
    have hd := hl.drive case.input
    rw [(Drifts.of_waits (hd.waits ht).streams hu).writes, (Drifts.of_waits hd.streams ht).writes,
      writes_drive, (Drifts.of_waits h.streams hw).writes]

theorem runAll_of_linked {c : Context Server} (hk : c.checker.transport = Server.transport)
    (hs : suite.setter = .setpoint setpoint)
    (h : Linked (c.checker.fullName setpoint) (c.checker.fullName suite.statusPv) s)
    (cases : List Case) (ha : ∀ case ∈ cases, case.expect.IsAlarm →
      AlarmShown (c.checker.fullName suite.alarmTarget) present s) :
    ∃ results t, (suite.runAll c cases).run s = (results, t) ∧
      List.Forall₂ (fun case result => result.name = case.name ∧
        (result.passed ↔ case.expect.Accepts present case.input)) cases results ∧
      t.writes = s.writes ++ cases.map fun case => (c.checker.fullName setpoint, case.input) := by
  induction cases generalizing s
  case nil => exact ⟨[], s, rfl, .nil, by simp⟩
  case cons case cases hi =>
    have ⟨r, t, hr, hn, hp, hw, hl, hsh⟩ :=
      runCase_of_linked hk hs h (ha case List.mem_cons_self)
    have ⟨results, u, hu, hf, hw'⟩ :=
      hi hl fun case hc he => hsh _ _ (ha case (List.mem_cons_of_mem _ hc) he)
    refine ⟨r :: results, u, ?_, .cons ⟨hn, hp⟩ hf, ?_⟩
    case refine_1 =>
      rw [runAll_cons, hr]
      simp only [hu]
    case refine_2 => simp [hw', hw]

-- Of a suite that writes its inputs to a linked setpoint each case passes or fails by its own
-- input, or by the alarm that there is, whatever the timeouts and the other cases are.
theorem setpoint_suite_goes_by_inputs (k : Checker Server) (hk : k.transport = Server.transport)
    (mode : Mode) (emulator : Option (Emulator Server)) (name statusPv : String)
    (alarmPv : Option String) (setpoint : String) (s : Server)
    (h : Linked (k.fullName setpoint) (k.fullName statusPv) s) (present : Severity)
    (cases : List Case) (ha : ∀ case ∈ cases, case.expect.IsAlarm →
      AlarmShown (k.fullName (alarmPv.getD statusPv)) present s) :
    let suite : Suite Server := ⟨name, statusPv, alarmPv, .setpoint setpoint⟩
    ∃ results t, (suite.run ⟨k, mode, emulator⟩ cases).run s = (⟨name, results⟩, t) ∧
      List.Forall₂ (fun case result => result.name = case.name ∧
        (result.passed ↔ case.expect.Accepts present case.input)) cases results ∧
      t.writes = s.writes ++ cases.map fun case => (k.fullName setpoint, case.input) := by
  intro suite
  let c : Context Server := ⟨k, mode, emulator⟩
  have hc : c.checker.transport = Server.transport := hk
  have hs : suite.setter = .setpoint setpoint := rfl
  have ⟨results, t, hr, hf, hw⟩ := runAll_of_linked hc hs h cases ha
  refine ⟨results, t, ?_, hf, hw⟩
  have hx : (suite.run c cases).run s =
      let (results, t) := (suite.runAll c cases).run s
      (⟨name, results⟩, t) := rfl
  rw [hx, hr]

-- An input is accepted, another one is not, and then there is an alarm to be seen, and a
-- stream feeds a record aside.
theorem setpoint_suite_goes_by_inputs_of_alarm :
    let k := Checker.hasty.over Server.transport
    let values : Series := .given fun n => .int (.ofNat n)
    let s := { ((Server.empty.insert "TE:SP" (.int 0)).insert "TE:ST" (.int 0)).link
      "TE:SP" "TE:ST" |>.setAlarm "TE:ST" .major "HIHI" with
        agenda := [.stream 0 40 "TE:N" values] }
    let cases : List Case := [⟨"five", .int 5, .equals (.int 5), none⟩,
      ⟨"six", .text "6", .oneOf [.int 6], some 0⟩, ⟨"alarm", .int 7, .alarm .major, none⟩]
    let suite : Suite Server := ⟨"S", "ST", none, .setpoint "SP"⟩
    Linked (k.fullName "SP") (k.fullName "ST") s ∧ AlarmShown (k.fullName "ST") .major s ∧
    ∃ results t, (suite.run ⟨k, .records, none⟩ cases).run s = (⟨"S", results⟩, t) ∧
      results.map CaseResult.name = ["five", "six", "alarm"] ∧
      results.map CaseResult.passed = [true, false, true] ∧
      t.writes = [("TE:SP", .int 5), ("TE:SP", .text "6"), ("TE:SP", .int 7)] := by
  intro k values s cases suite
  have apart {pv : String} (hn : "TE:N" ≠ pv) : s.StreamsApart {pv} :=
    fun _ hm => ⟨0, 40, "TE:N", values, List.mem_singleton.mp hm, hn⟩
  have hl : Linked (k.fullName "SP") (k.fullName "ST") s := ⟨rfl, rfl, rfl, apart (by decide)⟩
  have ha : AlarmShown (k.fullName "ST") .major s := ⟨⟨"HIHI", rfl⟩, rfl, apart (by decide)⟩
  obtain ⟨results, t, hr, hf, hw⟩ := setpoint_suite_goes_by_inputs k rfl .records none "S" "ST" none
    "SP" s hl .major cases fun _ _ _ => ha
  dsimp only [cases] at hf
  obtain _ | ⟨five, _ | ⟨six, _ | ⟨alarm, _ | _⟩⟩⟩ := hf
  have hfive := five.right.mpr (show (Value.int 5).same (.int 5) from by decide)
  have hsix := mt six.right.mp (show ¬∃ v ∈ [Value.int 6], v.same (.text "6") by decide)
  have halarm := alarm.right.mpr rfl
  exact ⟨hl, ha, _, t, hr, by simp [five.left, six.left, alarm.left],
    by simp [hfive, hsix, halarm], hw⟩

-- A stream that feeds the status between the write of an input and the look at it overrules the
-- input.
theorem streamed_status_overrules_input :
    let k := { Checker.hasty.over Server.transport with settleAfterPut := 50 }
    let s := (((Server.empty.insert "TE:SP" (.int 0)).insert "TE:ST" (.int 0)).link
      "TE:SP" "TE:ST").stream "TE:ST" 40 (.ramp ⟨.zero, .zero⟩)
    let case : Case := ⟨"five", .int 5, .equals (.int 5), some 0⟩
    let suite : Suite Server := ⟨"S", "ST", none, .setpoint "SP"⟩
    s.links.find? (k.fullName "SP") = some (k.fullName "ST") ∧
    (s.alarm? (k.fullName "SP")).isSome ∧ (s.alarm? (k.fullName "ST")).isSome ∧
    case.expect.Accepts .noAlarm case.input ∧
    ((suite.run ⟨k, .records, none⟩ [case]).run s).1.results.map CaseResult.passed = [false] := by
  intro k s case suite
  exact ⟨by decide +kernel, by decide +kernel, by decide +kernel, rfl, by decide +kernel⟩

end Suite

end Readback
