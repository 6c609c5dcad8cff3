import Readback.Proofs.Fields
import Readback.Server.Transport

namespace Readback.Server

variable {s : Server} {name : String} {r : Record} {timeout : Nat}

-- A name stands for the record of that name, or for a record with a field of that name if there is
-- no record of just that name.
inductive StandsFor (s : Server) : String → Record → Prop
  | record {name : String} {r : Record} (hr : s.records.find? name = some r) : StandsFor s name r
  | field {base : String} {r : Record} (f : Field) (hn : s.records.find? (f.of base) = none)
    (hr : s.records.find? base = some r) : StandsFor s (f.of base) r

theorem standsFor_iff :
    s.StandsFor name r ↔
      ∃ base field, s.locate? name = some (base, field) ∧ s.records.find? base = some r := by
  constructor
  case mp =>
    rintro (hr | ⟨f, hn, hr⟩)
    case record => exact ⟨name, none, locate?_record hr, hr⟩
    case field base =>
      have hb : s.records.contains base := by simp [Registry.contains, hr]
      exact ⟨base, some f, (locate?_field hn).trans (if_pos hb), hr⟩
  case mpr =>
    rintro ⟨base, _ | f, hl, hr⟩
    case none =>
      cases eq_of_locate?_record hl
      exact .record hr
    case some =>
      obtain ⟨hn, rfl⟩ := eq_of_locate?_field hl
      exact .field f hn hr

theorem standsFor_field_iff {f : Field} {base : String} (h : s.records.find? (f.of base) = none) :
    s.StandsFor (f.of base) r ↔ s.records.find? base = some r := by
  rw [standsFor_iff, locate?_field h]
  constructor
  case mp =>
    rintro ⟨_, _, hl, hr⟩
    split at hl <;> cases hl
    exact hr
  case mpr =>
    intro hr
    exact ⟨base, some f, if_pos (by simp [Registry.contains, hr]), hr⟩

theorem delay?_eq_some_iff {d : Nat} :
    s.delay? name = some d ↔ ∃ r, s.StandsFor name r ∧ r.delay s.clock = d := by
  simp only [delay?, Option.bind_eq_bind, Option.bind_eq_some_iff, Option.pure_def,
    Option.some.injEq, Prod.exists, standsFor_iff]
  grind

theorem resolve?_isSome_iff :
    (s.resolve? name).isSome ↔ ∃ r, s.StandsFor name r ∧ r.isReachable s.clock := by
  simp only [Option.isSome_iff_exists, Prod.exists, resolve?_eq_some_iff, standsFor_iff]
  grind

theorem probe_of_standsFor (h : s.StandsFor name r) (timeout : Nat) :
    s.probe name timeout =
      if r.delay s.clock ≤ timeout then (true, s.sleep (r.delay s.clock)) else (false, s) := by
  rw [probe, delay?_eq_some_iff.mpr ⟨r, h, rfl⟩]

theorem probe_of_isReachable (h : s.StandsFor name r) (hr : r.isReachable s.clock)
    (timeout : Nat) : s.probe name timeout = (true, s.sleep 0) := by
  have hd : r.delay s.clock = 0 := (r.isReachable_iff s.clock).mp hr
  rw [probe_of_standsFor h, hd, if_pos (Nat.zero_le timeout)]

theorem probe_of_late (h : ∀ r, s.StandsFor name r → timeout < r.delay s.clock) :
    s.probe name timeout = (false, s) := by
  cases hd : s.delay? name
  case none => rw [probe, hd]
  case some =>
    obtain ⟨r, hr, _⟩ := delay?_eq_some_iff.mp hd
    rw [probe_of_standsFor hr, if_neg (Nat.not_le.mpr (h r hr))]

theorem probe_iff :
    (s.probe name timeout).1 ↔ ∃ r, s.StandsFor name r ∧ r.delay s.clock ≤ timeout := by
  constructor
  case mp =>
    intro hp
    by_contra hn
    rw [probe_of_late fun r hr => Nat.not_le.mp fun hd => hn ⟨r, hr, hd⟩] at hp
    cases hp
  case mpr =>
    intro ⟨r, hr, hd⟩
    rw [probe_of_standsFor hr, if_pos hd]

theorem resolve?_eq_none_iff : s.resolve? name = none ↔ (s.probe name 0).1 = false := by
  rw [← Option.not_isSome_iff_eq_none, resolve?_isSome_iff, ← Bool.not_eq_true, probe_iff]
  simp only [Record.isReachable_iff, Nat.le_zero]

end Readback.Server
