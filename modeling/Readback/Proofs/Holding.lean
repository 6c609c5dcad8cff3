import Readback.Proofs.Restoring

namespace Readback

-- A simulated alarm that goes on. It is undone as soon as another one of the same record has ended.
structure Held where
  checker : Checker Server
  pv : String
  severity : Severity
  undone : Bool

namespace Held

def record (g : Held) : String :=
  g.checker.fullName g.pv

def inForce (g : Held) : Severity :=
  if g.undone then .noAlarm else g.severity

def after (ended g : Held) : Held :=
  { g with undone := g.undone || g.record == ended.record }

def newest? (gs : List Held) (pv : String) : Option Held :=
  gs.find? fun g => g.record == pv

end Held

-- Alarms are simulated on a server and end in any order. Those that go on are listed, the newest
-- first.
inductive Holding (others : Server → Server → Prop) (names : Set String) (start : Server) :
    Server → List Held → Prop
  | start : Holding others names start start []
  | passes {s t : Server} {gs : List Held} (h : Holding others names start s gs)
    (ht : Server.Passes others s t) : Holding others names start t gs
  | simulated {s t : Server} {gs : List Held} {k : Checker Server} {pv : String}
    {severity : Severity} {a : SimulatedAlarm} (h : Holding others names start s gs)
    (hk : k.transport = Server.transport) (hn : k.fullName pv ∈ names)
    (ht : (k.simulateAlarm pv severity).run s = (.ok a, t)) :
    Holding others names start t (⟨k, pv, severity, false⟩ :: gs)
  | ended {s : Server} {newer older : List Held} {g : Held}
    (h : Holding others names start s (newer ++ g :: older)) (how : SimulatedAlarm.Ending) :
    Holding others names start (((⟨g.pv, true⟩ : SimulatedAlarm).finish g.checker how).run s).2
      ((newer ++ older).map g.after)

open Server

variable {others : Server → Server → Prop} {names : Set String} {s t : Server} {pv : String}
  {gs newer older : List Held} {g g' : Held}

namespace Held

@[simp] theorem record_after : (g'.after g).record = g.record := rfl

theorem inForce_after_of_same (h : g.record = g'.record) :
    (g'.after g).inForce = .noAlarm := by
  simp [inForce, after, h]

theorem inForce_after_of_other (h : g.record ≠ g'.record) :
    (g'.after g).inForce = g.inForce := by
  simp [inForce, after, h]

theorem newest?_mem (h : newest? gs pv = some g) : g ∈ gs ∧ g.record = pv :=
  ⟨List.mem_of_find?_eq_some h, by simpa using List.find?_some h⟩

theorem newest?_isSome (h : g ∈ gs) : (newest? gs g.record).isSome :=
  List.find?_isSome.mpr ⟨g, h, beq_self_eq_true _⟩

theorem newest?_cons : newest? (g :: gs) pv = if g.record = pv then some g else newest? gs pv := by
  by_cases h : g.record = pv <;> simp [newest?, h]

theorem newest?_after :
    newest? (gs.map g.after) pv = (newest? gs pv).map g.after := by
  simp [newest?, List.find?_map, Function.comp_def]

theorem newest?_remove (h : g.record ≠ pv) :
    newest? (newer ++ g :: older) pv = newest? (newer ++ older) pv := by
  simp [newest?, List.find?_append, h]

end Held

-- The newest alarm of each record that has one is in force, as far as it is not undone.
structure Kept (others : Server → Server → Prop) (names : Set String) (s : Server)
    (gs : List Held) : Prop where
  sheltered : Sheltered others names s
  held : ∀ g ∈ gs, g.checker.transport = Server.transport ∧ g.record ∈ names
  alarm : ∀ pv g, Held.newest? gs pv = some g → s.alarm? pv = some (Server.simulated g.inForce)

namespace Kept

theorem mem_names (h : Kept others names s gs) (hg : Held.newest? gs pv = some g) :
    pv ∈ names := by
  have ⟨hm, hp⟩ := Held.newest?_mem hg
  exact hp ▸ (h.held g hm).right

theorem passes (h : Kept others names s gs) (ht : Passes others s t) : Kept others names t gs := by
  have ⟨hs, hp⟩ := h.sheltered.passes (.single ht)
  exact ⟨hs, h.held, fun pv g hg => (hp pv (h.mem_names hg)).alarm _ (h.alarm pv g hg)⟩

theorem simulated {k : Checker Server} {severity : Severity} {a : SimulatedAlarm}
    (h : Kept others names s gs) (hk : k.transport = Server.transport)
    (hn : k.fullName pv ∈ names) (ht : (k.simulateAlarm pv severity).run s = (.ok a, t)) :
    Kept others names t (⟨k, pv, severity, false⟩ :: gs) := by
  have hf := k.forcing hk h.sheltered hn severity
  rcases hr : (k.forceAlarm pv severity).run s with ⟨e | ⟨⟩, u⟩
  case error => cases (Checker.simulateAlarm_of_error hr).symm.trans ht
  case ok =>
    cases (Checker.simulateAlarm_of_ok hr).symm.trans ht
    rw [hr] at hf
    have ⟨hs, hp⟩ := hf.sheltered h.sheltered hn
    refine ⟨hs, List.forall_mem_cons.mpr ⟨⟨hk, hn⟩, h.held⟩, fun q g hg => ?_⟩
    rw [Held.newest?_cons] at hg
    split at hg
    case isTrue hq =>
      cases hg
      cases hq
      exact hf.alarm?_eq h.sheltered hn (.inr rfl)
    case isFalse hq => exact (hp q (h.mem_names hg) (Ne.symm hq)).alarm _ (h.alarm q g hg)

theorem ended (h : Kept others names s (newer ++ g :: older)) (how : SimulatedAlarm.Ending) :
    Kept others names (((⟨g.pv, true⟩ : SimulatedAlarm).finish g.checker how).run s).2
      ((newer ++ older).map g.after) := by
  have hm : g ∈ newer ++ g :: older := by simp
  have ⟨hk, hn⟩ := h.held g hm
  have hf := g.checker.forcing hk h.sheltered hn .noAlarm
  rw [SimulatedAlarm.run_finish]
  have ⟨hs, hp⟩ := hf.sheltered h.sheltered hn
  refine ⟨hs, ?held, fun q g' hg => ?alarm⟩
  case held =>
    intro g' hg
    obtain ⟨x, hx, rfl⟩ := List.mem_map.mp hg
    exact h.held x (((List.sublist_cons_self g older).append_left newer).subset hx)
  case alarm =>
    rw [Held.newest?_after] at hg
    obtain ⟨x, hx, rfl⟩ := Option.map_eq_some_iff.mp hg
    obtain ⟨_, rfl⟩ := Held.newest?_mem hx
    by_cases hq : x.record = g.record
    case pos =>
      have ⟨y, hy⟩ := Option.isSome_iff_exists.mp (Held.newest?_isSome hm)
      rw [Held.inForce_after_of_same hq, hq]
      exact hf.alarm?_eq h.sheltered hn (.inl (Option.isSome_iff_exists.mpr ⟨_, h.alarm _ y hy⟩))
    case neg =>
      have hy := (Held.newest?_remove (Ne.symm hq)).trans hx
      rw [Held.inForce_after_of_other hq]
      exact (hp _ (h.mem_names hy) hq).alarm _ (h.alarm _ x hy)

end Kept

theorem Holding.kept {start : Server} (hs : Sheltered others names start)
    (h : Holding others names start s gs) : Kept others names s gs := by
  induction h
  case start => exact ⟨hs, nofun, nofun⟩
  case passes ht hi => exact hi.passes ht
  case simulated hk hn ht hi => exact hi.simulated hk hn ht
  case ended how hi => exact hi.ended how

-- The newest alarm of a record that goes on can be read there as long as no other alarm of the
-- record has ended since it began. An alarm that ends leaves none, whatever else goes on.
theorem newest_alarm_in_force_iff {start : Server} (hs : Sheltered others names start)
    (h : Holding others names start s gs) (hg : Held.newest? gs pv = some g)
    (hv : s.records.find? (Field.severity.of pv) = none) :
    s.get (Field.severity.of pv) = .ok g.inForce.toValue ∧
      (s.get (Field.severity.of pv) = .ok g.severity.toValue ↔
        g.undone = false ∨ g.severity = .noAlarm) := by
  have hr : s.get (Field.severity.of pv) = .ok g.inForce.toValue :=
    get_severity hv ((h.kept hs).alarm pv g hg)
  refine ⟨hr, ?_⟩
  rw [hr, Except.ok.injEq, Severity.toValue_inj]
  cases hu : g.undone <;> simp [Held.inForce, hu, eq_comm]

-- A single alarm is in force.
theorem newest_alarm_in_force_of_single :
    let k := Checker.hasty.over Server.transport
    let start := Server.empty.insert "TE:TEMP" (.int 1)
    let g : Held := ⟨k, "TEMP", .major, false⟩
    Sheltered (Sets ∅) {"TE:TEMP"} start ∧
    ∃ t, Holding (Sets ∅) {"TE:TEMP"} start t [g] ∧ Held.newest? [g] "TE:TEMP" = some g ∧
      t.records.find? (Field.severity.of "TE:TEMP") = none ∧
      t.get (Field.severity.of "TE:TEMP") = .ok Severity.major.toValue := by
  intro k start g
  have hr : start.Ready (k.fullName "TEMP") := .insert "TE:TEMP" (.int 1)
  have hs : Sheltered (Sets ∅) {"TE:TEMP"} start := by
    refine sheltered_of_idle hr.idle ?_ (fun _ _ => Set.notMem_empty _)
    rintro _ rfl
    exact hr.unshadowed
  have ⟨t, ht, hr, _⟩ := Checker.forceAlarm_of_ready (k := k) rfl hr .major
  have hh : Holding (Sets ∅) {"TE:TEMP"} start t [g] :=
    .simulated .start rfl rfl (Checker.simulateAlarm_of_ok ht)
  have ⟨_, h⟩ := newest_alarm_in_force_iff hs hh (g := g) rfl hr.visible
  exact ⟨hs, t, hh, rfl, hr.visible, h.mpr (.inl rfl)⟩

-- Two alarms are simulated on a record. The first one that ends takes the other one with it.
theorem alarm_gone_with_older :
    let k := Checker.hasty.over Server.transport
    let start := Server.empty.insert "TE:TEMP" (.int 1)
    ∃ a s b t, (k.simulateAlarm "TEMP" .major).run start = (.ok a, s) ∧
      (k.simulateAlarm "TEMP" .minor).run s = (.ok b, t) ∧ b.active ∧ ∀ how,
        let u := ((a.finish k how).run t).2
        u.records.find? (Field.severity.of "TE:TEMP") = none ∧
        u.get (Field.severity.of "TE:TEMP") = .ok Severity.noAlarm.toValue := by
  intro k start
  have hk : k.transport = Server.transport := rfl
  have hr : start.Ready (k.fullName "TEMP") := .insert "TE:TEMP" (.int 1)
  have ⟨s, hs, hr, _⟩ := Checker.forceAlarm_of_ready hk hr .major
  have ⟨t, ht, hr, _⟩ := Checker.forceAlarm_of_ready hk hr .minor
  have ⟨u, hu, hr, ha⟩ := Checker.forceAlarm_of_ready hk hr .noAlarm
  refine ⟨_, s, _, t, Checker.simulateAlarm_of_ok hs, Checker.simulateAlarm_of_ok ht, rfl, ?_⟩
  intro how
  rw [SimulatedAlarm.run_finish, hu]
  exact ⟨hr.visible, get_severity hr.visible ha⟩

end Readback
