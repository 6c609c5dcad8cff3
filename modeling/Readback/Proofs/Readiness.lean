import Readback.Proofs.Monitoring
import Readback.Proofs.Sheltering

namespace Readback

open Relation

namespace Server

variable {s t : Server} {pv q : String} {names written : Set String}

def Sets (written : Set String) (s t : Server) : Prop :=
  ∃ pv ∈ written, ∃ v, t = s.set pv v

theorem find?_set (s : Server) (q : String) (v : Value) (pv : String) :
    (s.set q v).records.find? pv =
      if pv = q then some ((s.records.find? q).elim (Record.new v) ({ · with value := v }))
      else s.records.find? pv := by
  rw [set, notify]
  split <;> cases hr : s.records.find? q <;> simp [assign, hr]

theorem clock_set (s : Server) (q : String) (v : Value) : (s.set q v).clock = s.clock :=
  clock_notify (s.assign q v) q

theorem spares_set (v : Value) (h : Field.simulatedSeverity.of pv ≠ q) :
    Spares pv s (s.set q v) where
  alarm a ha := by
    have ⟨r, hr, hc, he⟩ := alarm?_eq_some_iff.mp ha
    rw [alarm?_eq_some_iff, find?_set, clock_set]
    by_cases hq : pv = q
    case neg => exact ⟨r, by rw [if_neg hq, hr], hc, he⟩
    case pos =>
      cases hq
      exact ⟨{ r with value := v }, by rw [if_pos rfl, hr]; rfl, hc, he⟩
  unshadowed hu := by
    rw [Unshadowed, find?_set, if_neg h]
    exact hu

theorem spares_sleep (h : s.agenda = []) (d : Nat) : Spares pv s (s.sleep d) := by
  rw [sleep_of_idle h]
  refine ⟨fun a ha => ?_, id⟩
  have ⟨r, hr, hc, he⟩ := alarm?_eq_some_iff.mp ha
  exact alarm?_eq_some_iff.mpr ⟨r, hr, r.isReachable_of_le hc (Nat.le_add_right ..), he⟩

theorem agenda_step (h : s.agenda = []) (ht : Step (Sets written) names s t) : t.agenda = [] := by
  cases ht
  case forced => exact (Announces.postingRelation.put ..).agenda.trans h
  case passes ht =>
    cases ht
    case time => rw [sleep_of_idle h, h]
    case other ht =>
      obtain ⟨_, _, _, rfl⟩ := ht
      exact (agenda_notify ..).trans h

theorem sheltered_of_idle (hi : s.agenda = []) (hu : ∀ pv ∈ names, s.Unshadowed pv)
    (hw : ∀ pv ∈ names, Field.simulatedSeverity.of pv ∉ written) :
    Sheltered (Sets written) names s := by
  refine ⟨hu, fun t u ht hp pv hn => ?_⟩
  have ha : t.agenda = [] := by
    clear hp
    induction ht
    case refl => exact hi
    case tail hs hi => exact agenda_step hi hs
  cases hp
  case time d => exact spares_sleep ha d
  case other h =>
    obtain ⟨q, hq, v, rfl⟩ := h
    exact spares_set v fun he => hw pv hn (he ▸ hq)

structure Ready (s : Server) (pv : String) : Prop where
  idle : s.agenda = []
  unshadowed : s.Unshadowed pv
  visible : s.records.find? (Field.severity.of pv) = none
  reachable : (s.alarm? pv).isSome

namespace Ready

theorem insert (pv : String) (v : Value) : (empty.insert pv v).Ready pv where
  idle := rfl
  unshadowed := by simp [Unshadowed, Server.insert, empty, Field.of_ne_self]
  visible := by simp [Server.insert, empty, Field.of_ne_self]
  reachable := by simp [alarm?, Server.insert, Record.new, Record.isReachable]

theorem sleep (h : s.Ready pv) (d : Nat) : (s.sleep d).Ready pv where
  idle := by rw [sleep_of_idle h.idle, h.idle]
  unshadowed := (spares_sleep h.idle d).unshadowed h.unshadowed
  visible := by
    rw [sleep_of_idle h.idle]
    exact h.visible
  reachable := (spares_sleep h.idle d).reachable h.reachable

theorem force (h : s.Ready pv) (severity : Severity) : (s.force pv severity).Ready pv where
  idle := (agenda_notify ..).trans h.idle
  unshadowed := h.unshadowed.force pv severity
  visible := by
    rw [find?_force, h.visible]
    split <;> rfl
  reachable := by simpa [alarm?_force] using h.reachable

theorem probe (h : s.Ready pv) (timeout : Nat) :
    s.probe (Field.simulatedSeverity.of pv) timeout = (true, s.sleep 0) := by
  have ⟨a, ha⟩ := Option.isSome_iff_exists.mp h.reachable
  have ⟨r, hr, hc, _⟩ := alarm?_eq_some_iff.mp ha
  exact probe_of_isReachable (.field .simulatedSeverity h.unshadowed hr) hc timeout

end Ready

end Server

open Server

namespace Checker

variable {k : Checker Server} {s : Server} {pv : String}

theorem ready_settle (hk : k.transport = Server.transport) {full : String} {a : Severity × String}
    (h : s.Ready full) (ha : s.alarm? full = some a) (d : Span) :
    (k.settle d s).2.Ready full ∧ (k.settle d s).2.alarm? full = some a := by
  unfold settle
  split
  · exact ⟨h, ha⟩
  · rw [hk]
    exact ⟨h.sleep d, (spares_sleep h.idle d).alarm a ha⟩

theorem forceAlarm_of_ready (hk : k.transport = Server.transport) (h : s.Ready (k.fullName pv))
    (severity : Severity) :
    ∃ t, (k.forceAlarm pv severity).run s = (.ok (), t) ∧ t.Ready (k.fullName pv) ∧
      t.alarm? (k.fullName pv) = some (simulated severity) := by
  have hf : k.target pv = Field.simulatedSeverity.of (k.fullName pv) := k.fullName_of ..
  have hs : k.fullName (Field.severity.of pv) = Field.severity.of (k.fullName pv) :=
    k.fullName_of ..
  have hp : k.transport.probe (k.target pv) k.putExistenceTimeout s = (true, s.sleep 0) := by
    rw [hk, hf]
    exact h.probe _
  have ht := h.sleep 0
  have hw : k.transport.put (k.target pv) severity.toValue false k.defaultTimeout (s.sleep 0) =
      (.ok (), (s.sleep 0).force (k.fullName pv) severity) := by
    rw [hk, hf]
    exact (put_simulated ht.unshadowed severity).trans (if_pos ht.reachable)
  have ⟨hr, ha⟩ := ready_settle hk (ht.force severity) (alarm?_force_self ht.reachable severity)
    k.settleAfterPut
  generalize hu : (k.settle k.settleAfterPut _).2 = u at hr ha
  have hg : k.transport.get (k.fullName (Field.severity.of pv)) u = (.ok severity.toValue, u) := by
    rw [hk, hs]
    exact Prod.ext (get_severity hr.visible ha) rfl
  have hc : (Condition.equals severity.toValue).holds severity.toValue := by
    cases severity <;> decide
  rw [forceAlarm_of_written hp hw, hu]
  exact ⟨u, assertValue_of_holds hg hc, hr, ha⟩

end Checker

end Readback
