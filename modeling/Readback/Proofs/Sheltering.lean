import Mathlib.Data.Set.Basic
import Mathlib.Logic.Relation
import Readback.Proofs.Forcing
import Readback.Proofs.Standing

namespace Readback

open Relation

namespace Severity

theorem ofValue?_toValue (severity : Severity) : ofValue? severity.toValue = some severity := by
  cases severity <;> decide

theorem toValue_inj {a b : Severity} : a.toValue = b.toValue ↔ a = b := by
  constructor
  case mp =>
    intro h
    have ho := congrArg ofValue? h
    rwa [ofValue?_toValue, ofValue?_toValue, Option.some.injEq] at ho
  case mpr => exact congrArg _

end Severity

theorem Record.isReachable_of_le {r : Record} {n m : Nat} (h : r.isReachable n) (hm : n ≤ m) :
    r.isReachable m := by
  unfold Record.isReachable at h ⊢
  cases hr : r.reachableFrom
  case none => rfl
  case some since =>
    simp only [hr, decide_eq_true_eq] at h ⊢
    exact h.trans hm

namespace Server

variable {s t u : Server} {pv q : String} {severity : Severity} {a : Severity × String}
  {others : Server → Server → Prop} {names : Set String}

def alarm? (s : Server) (pv : String) : Option (Severity × String) :=
  (s.records.find? pv).bind fun r =>
    if r.isReachable s.clock then some (r.severity, r.status) else none

theorem alarm?_eq_some_iff :
    s.alarm? pv = some a ↔
      ∃ r, s.records.find? pv = some r ∧ r.isReachable s.clock ∧ (r.severity, r.status) = a := by
  simp [alarm?, Option.bind_eq_some_iff]

def Unshadowed (s : Server) (pv : String) : Prop :=
  s.records.find? (Field.simulatedSeverity.of pv) = none

def simulated (severity : Severity) : Severity × String :=
  (severity, if severity = .noAlarm then Severity.noAlarm.state else Record.simulatedStatus)

def force (s : Server) (pv : String) (severity : Severity) : Server :=
  let write := (Field.simulatedSeverity.of pv, severity.toValue)
  ({ s with writes := s.writes ++ [write] } : Server).amend pv fun r => r.simulate severity

theorem find?_force (s : Server) (pv : String) (severity : Severity) (q : String) :
    (s.force pv severity).records.find? q =
      if q = pv then (s.records.find? q).map fun r => r.simulate severity
      else s.records.find? q := by
  rw [force, amend, notify]
  split <;> simp

theorem clock_force (s : Server) (pv : String) (severity : Severity) :
    (s.force pv severity).clock = s.clock := by
  rw [force, amend, notify]
  split <;> rfl

theorem alarm?_force (s : Server) (pv : String) (severity : Severity) (q : String) :
    (s.force pv severity).alarm? q =
      if q = pv then (s.alarm? q).map fun _ => simulated severity else s.alarm? q := by
  rw [alarm?, find?_force, clock_force]
  by_cases hq : q = pv
  case neg => simp [hq, alarm?]
  case pos =>
    cases hr : s.records.find? q
    case none => simp [alarm?, hr]
    case some r =>
      have hs : (r.simulate severity).isReachable s.clock = r.isReachable s.clock := rfl
      rw [if_pos hq, if_pos hq, alarm?, hr, Option.map_some, Option.bind_some, hs]
      by_cases ha : r.isReachable s.clock
      · rw [Option.bind_some, if_pos ha, if_pos ha]
        rfl
      · simp [ha]

theorem alarm?_force_self (h : (s.alarm? pv).isSome) (severity : Severity) :
    (s.force pv severity).alarm? pv = some (simulated severity) := by
  have ⟨a, ha⟩ := Option.isSome_iff_exists.mp h
  rw [alarm?_force, if_pos rfl, ha]
  rfl

theorem Unshadowed.force (h : s.Unshadowed q) (pv : String) (severity : Severity) :
    (s.force pv severity).Unshadowed q := by
  have h : s.records.find? (Field.simulatedSeverity.of q) = none := h
  rw [Unshadowed, find?_force]
  split <;> simp [h]

theorem put_simulated (h : s.Unshadowed pv) (severity : Severity) :
    s.put (Field.simulatedSeverity.of pv) severity.toValue =
      if (s.alarm? pv).isSome then (.ok (), s.force pv severity)
      else (.error (.unreachable (Field.simulatedSeverity.of pv)), s) := by
  rw [put]
  cases hr : s.records.find? pv
  case none => simp [resolve?_field_of_missing h hr, alarm?, hr]
  case some r =>
    rw [resolve?_field h hr]
    by_cases ha : r.isReachable s.clock <;> simp [alarm?, hr, ha, Severity.ofValue?_toValue, force]

theorem get_severity (h : s.records.find? (Field.severity.of pv) = none)
    (ha : s.alarm? pv = some a) : s.get (Field.severity.of pv) = .ok a.1.toValue := by
  obtain ⟨r, hr, hc, rfl⟩ := alarm?_eq_some_iff.mp ha
  exact get_field h hr hc

inductive Passes (others : Server → Server → Prop) (s : Server) : Server → Prop
  | time (d : Nat) : Passes others s (s.sleep d)
  | other {t : Server} (h : others s t) : Passes others s t

-- Something happens, or the severity of one of some records is forced.
inductive Step (others : Server → Server → Prop) (names : Set String) (s : Server) : Server → Prop
  | passes {t : Server} (h : Passes others s t) : Step others names s t
  | forced {pv : String} (h : pv ∈ names) (severity : Severity) :
    Step others names s (s.put (Field.simulatedSeverity.of pv) severity.toValue).2

-- A record that can be reached stays so and keeps its alarm, and it does not become shadowed.
structure Spares (pv : String) (s t : Server) : Prop where
  alarm : ∀ a, s.alarm? pv = some a → t.alarm? pv = some a
  unshadowed : s.Unshadowed pv → t.Unshadowed pv

theorem Spares.refl : Spares pv s s := ⟨fun _ => id, id⟩

theorem Spares.reachable (h : Spares pv s t) (ha : (s.alarm? pv).isSome) :
    (t.alarm? pv).isSome := by
  have ⟨a, ha⟩ := Option.isSome_iff_exists.mp ha
  exact Option.isSome_iff_exists.mpr ⟨a, h.alarm a ha⟩

theorem Spares.trans (h : Spares pv s t) (h' : Spares pv t u) : Spares pv s u :=
  ⟨fun a ha => h'.alarm a (h.alarm a ha), h'.unshadowed ∘ h.unshadowed⟩

theorem Spares.force (h : q ≠ pv) : Spares q s (s.force pv severity) where
  alarm a ha := by rw [alarm?_force, if_neg h, ha]
  unshadowed hu := hu.force pv severity

-- Some records are not shadowed, and from now on nobody but those who force severities through them
-- writes their alarms or comes in between.
structure Sheltered (others : Server → Server → Prop) (names : Set String) (s : Server) : Prop where
  unshadowed : ∀ pv ∈ names, s.Unshadowed pv
  spared : ∀ t u, ReflTransGen (Step others names) s t → Passes others t u →
    ∀ pv ∈ names, Spares pv t u

namespace Sheltered

theorem step (h : Sheltered others names s) (ht : Step others names s t) :
    Sheltered others names t where
  unshadowed pv hp := by
    cases ht
    case passes ht => exact (h.spared s t .refl ht pv hp).unshadowed (h.unshadowed pv hp)
    case forced q hq severity =>
      rw [put_simulated (h.unshadowed q hq)]
      split
      case isTrue => exact (h.unshadowed pv hp).force q severity
      case isFalse => exact h.unshadowed pv hp
  spared u v hu := h.spared u v (.head ht hu)

theorem passes (h : Sheltered others names s) (ht : ReflTransGen (Passes others) s t) :
    Sheltered others names t ∧ ∀ pv ∈ names, Spares pv s t := by
  induction ht
  case refl => exact ⟨h, fun _ _ => .refl⟩
  case tail t u _ hp hi =>
    have ⟨h, hs⟩ := hi
    exact ⟨h.step (.passes hp), fun pv hn => (hs pv hn).trans (h.spared t u .refl hp pv hn)⟩

theorem force (h : Sheltered others names s) (hn : pv ∈ names) (ha : (s.alarm? pv).isSome)
    (severity : Severity) : Sheltered others names (s.force pv severity) := by
  have ht := h.step (.forced hn severity)
  rwa [put_simulated (h.unshadowed pv hn), if_pos ha] at ht

end Sheltered

theorem probe_simulated (others : Server → Server → Prop) (h : s.Unshadowed pv)
    (timeout : Nat) :
    ∃ found t, s.probe (Field.simulatedSeverity.of pv) timeout = (found, t) ∧
      ReflTransGen (Passes others) s t ∧ (found = false → t.alarm? pv = none) := by
  cases hr : s.records.find? pv
  case none =>
    have hp : s.probe (Field.simulatedSeverity.of pv) timeout = (false, s) :=
      probe_of_late (by simp [standsFor_field_iff h, hr])
    exact ⟨false, s, hp, .refl, fun _ => by simp [alarm?, hr]⟩
  case some r =>
    have hp := probe_of_standsFor ((standsFor_field_iff h).mpr hr) timeout
    by_cases hd : r.delay s.clock ≤ timeout
    case pos => exact ⟨true, _, hp.trans (if_pos hd), .single (.time _), by simp⟩
    case neg =>
      have ha : ¬r.isReachable s.clock := by
        rw [r.isReachable_iff]
        omega
      exact ⟨false, s, hp.trans (if_neg hd), .refl, fun _ => by simp [alarm?, hr, ha]⟩

theorem passes_visit (pause : Nat) (name : String) (s : Server) (n : Nat) :
    ReflTransGen (Passes others) s (transport.visit pause (transport.get name) s n) := by
  induction n
  case zero => exact .refl
  case succ n hi => exact hi.tail (.time pause)

end Server

namespace Checker

open Server

variable {k : Checker Server} {s : Server} {pv : String} {severity : Severity}
  {others : Server → Server → Prop} {names : Set String}

theorem passes_settle (hk : k.transport = Server.transport) (d : Span) (s : Server) :
    ReflTransGen (Passes others) s (k.settle d s).2 := by
  unfold settle
  split
  · exact .refl
  · rw [hk]
    exact .single (.time d)

theorem passes_assertValue (hk : k.transport = Server.transport) (pv : String) (c : Condition)
    (o : AssertOptions) (s : Server) :
    ReflTransGen (Passes others) s ((k.assertValue pv c o).run s).2 := by
  have ⟨n, h⟩ := k.exists_goesBy pv c o s
  rw [h.state, hk]
  exact passes_visit ..

-- What comes of an attempt to force the severity of a record. It fails if the record cannot be
-- reached. Otherwise the severity is written, whatever the attempt comes to.
inductive Forcing (others : Server → Server → Prop) (full : String) (severity : Severity)
    (s : Server) : Except AssertError Unit × Server → Prop
  | missed (e : AssertError) {t : Server} (ht : ReflTransGen (Passes others) s t)
    (ha : t.alarm? full = none) : Forcing others full severity s (.error e, t)
  | forced {r : Except AssertError Unit} {t u : Server} (ht : ReflTransGen (Passes others) s t)
    (ha : (t.alarm? full).isSome) (hu : ReflTransGen (Passes others) (t.force full severity) u) :
    Forcing others full severity s (r, u)

theorem forcing (hk : k.transport = Server.transport) (hs : Sheltered others names s)
    (hn : k.fullName pv ∈ names) (severity : Severity) :
    Forcing others (k.fullName pv) severity s ((k.forceAlarm pv severity).run s) := by
  have hf : k.target pv = Field.simulatedSeverity.of (k.fullName pv) := k.fullName_of ..
  have ⟨found, t, hp, ht, ha⟩ :=
    probe_simulated others (hs.unshadowed _ hn) k.putExistenceTimeout
  have hp : k.transport.probe (k.target pv) k.putExistenceTimeout s = (found, t) := by
    rw [hk, hf]
    exact hp
  cases found
  case false =>
    rw [forceAlarm_of_missing hp]
    exact .missed _ ht (ha rfl)
  case true =>
    have hw := put_simulated ((hs.passes ht).left.unshadowed _ hn) severity
    have hp' : k.transport.put (k.target pv) severity.toValue false k.defaultTimeout t =
        t.put (Field.simulatedSeverity.of (k.fullName pv)) severity.toValue := by
      rw [hk, hf]
      rfl
    split at hw
    case isTrue ha =>
      rw [forceAlarm_of_written hp (hp'.trans hw)]
      refine .forced ht ha ((passes_settle hk k.settleAfterPut _).trans ?_)
      exact passes_assertValue hk ..
    case isFalse ha =>
      rw [forceAlarm_of_refused hp (hp'.trans hw)]
      exact .missed _ ht (Option.not_isSome_iff_eq_none.mp ha)

namespace Forcing

variable {full : String} {result : Except AssertError Unit × Server}

theorem sheltered (h : Forcing others full severity s result) (hs : Sheltered others names s)
    (hn : full ∈ names) :
    Sheltered others names result.2 ∧ ∀ q ∈ names, q ≠ full → Spares q s result.2 := by
  cases h
  case missed ht _ =>
    have ⟨hs, hq⟩ := hs.passes ht
    exact ⟨hs, fun q hn _ => hq q hn⟩
  case forced ht ha hu =>
    have ⟨hs, hq⟩ := hs.passes ht
    have ⟨hs, hq'⟩ := (hs.force hn ha severity).passes hu
    exact ⟨hs, fun q hn hf => (hq q hn).trans ((Spares.force hf).trans (hq' q hn))⟩

theorem alarm?_eq (h : Forcing others full severity s result) (hs : Sheltered others names s)
    (hn : full ∈ names) (hr : (s.alarm? full).isSome ∨ result.1 = .ok ()) :
    result.2.alarm? full = some (simulated severity) := by
  cases h
  case missed ht hm =>
    cases hr
    case inl ha => simpa [hm] using ((hs.passes ht).right full hn).reachable ha
    case inr hr => cases hr
  case forced ht ha hu =>
    have hs := (hs.passes ht).left.force hn ha severity
    exact ((hs.passes hu).right full hn).alarm _ (alarm?_force_self ha severity)

end Forcing
end Checker
end Readback
