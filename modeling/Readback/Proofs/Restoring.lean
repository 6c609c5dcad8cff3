import Readback.Proofs.Readiness

namespace Readback

open Relation Server

-- On the way from one server to another it is written that no severity is simulated, and from then
-- on there is no alarm.
def Server.Restored (others : Server → Server → Prop) (pv : String) (s u : Server) : Prop :=
  ∃ t, ReflTransGen (Passes others) s t ∧
    let w := (t.put (Field.simulatedSeverity.of pv) Severity.noAlarm.toValue).2
    ReflTransGen (Passes others) w u ∧
    ∀ x, ReflTransGen (Passes others) w x → x.alarm? pv = some (.noAlarm, Severity.noAlarm.state)

variable {s : Server} {full : String} {names : Set String} {others : Server → Server → Prop}
  {result : Except AssertError Unit × Server}

theorem Checker.Forcing.restored (h : Forcing others full .noAlarm s result)
    (hs : Sheltered others names s) (hn : full ∈ names) (ha : (s.alarm? full).isSome) :
    Restored others full s result.2 := by
  cases h
  case missed ht hm => simpa [hm] using ((hs.passes ht).right full hn).reachable ha
  case forced t u ht hr hu =>
    have hs := (hs.passes ht).left
    have hw : (t.put (Field.simulatedSeverity.of full) Severity.noAlarm.toValue).2 =
        t.force full .noAlarm := by
      rw [put_simulated (hs.unshadowed full hn), if_pos hr]
    refine ⟨t, ht, ?_⟩
    rw [hw]
    refine ⟨hu, fun x hx => ?_⟩
    have hs := (hs.force hn hr .noAlarm).passes hx
    exact (hs.right full hn).alarm _ (alarm?_force_self hr .noAlarm)

-- A simulation leads to one attempt to restore the record, and to no other: at once if it fails, or
-- else when it ends. On a server the record has no alarm from then on, if it stays reachable and
-- nobody else is in the way.
theorem simulated_alarm_restored_once :
    (∀ {σ : Type} (k : Checker σ) (pv : String) (severity : Severity) (s : σ) (calls : List Call),
      let k' := k.over k.transport.recorded
      ∃ looks r t, (k.forceAlarm pv severity).run s = (r, t) ∧
        match r with
        | .ok () =>
          (k'.simulateAlarm pv severity).run ⟨s, calls⟩ =
            (.ok ⟨pv, true⟩, ⟨t, (k.attempt pv severity s looks).reverse ++ calls⟩)
        | .error e =>
          ∃ looks' u, (k'.simulateAlarm pv severity).run ⟨s, calls⟩ =
            (.error e, ⟨u, (k.attempt pv severity s looks ++
              k.attempt pv .noAlarm t looks').reverse ++ calls⟩)) ∧
    (∀ {σ : Type} (k : Checker σ) (pv : String) (how : SimulatedAlarm.Ending) (s : σ)
      (calls : List Call),
      ∃ looks t,
        ((⟨pv, true⟩ : SimulatedAlarm).finish (k.over k.transport.recorded) how).run ⟨s, calls⟩ =
          ((), ⟨t, (k.attempt pv .noAlarm s looks).reverse ++ calls⟩)) ∧
    ∀ (k : Checker Server) (others : Server → Server → Prop) (pv : String) (severity : Severity)
      (s : Server), k.transport = Server.transport → Sheltered others {k.fullName pv} s →
      (∀ e u, (k.simulateAlarm pv severity).run s = (.error e, u) →
        ∃ t, (k.forceAlarm pv severity).run s = (.error e, t) ∧
          ((s.alarm? (k.fullName pv)).isSome ∨ (t.alarm? (k.fullName pv)).isSome →
            Restored others (k.fullName pv) t u)) ∧
      ∀ a t, (k.simulateAlarm pv severity).run s = (.ok a, t) →
        ∀ t', ReflTransGen (Passes others) t t' → ∀ how,
          Restored others (k.fullName pv) t' ((a.finish k how).run t').2 := by
  refine ⟨?simulate, ?finish, ?server⟩
  case simulate =>
    intro σ k pv severity s calls k'
    have ⟨looks, r, t, hr, hr'⟩ := k.exists_attempt pv severity s calls
    refine ⟨looks, r, t, hr, ?_⟩
    cases r
    case ok => exact Checker.simulateAlarm_of_ok hr'
    case error e =>
      have ⟨looks', _, u, _, hu⟩ :=
        k.exists_attempt pv .noAlarm t ((k.attempt pv severity s looks).reverse ++ calls)
      refine ⟨looks', u, ?_⟩
      rw [Checker.simulateAlarm_of_error hr', hu, List.reverse_append, List.append_assoc]
  case finish =>
    intro σ k pv how s calls
    have ⟨looks, _, t, _, ht⟩ := k.exists_attempt pv .noAlarm s calls
    exact ⟨looks, t, by rw [SimulatedAlarm.run_finish, ht]⟩
  case server =>
    intro k others pv severity s hk hs
    have hn : k.fullName pv ∈ ({k.fullName pv} : Set String) := rfl
    have hf := k.forcing hk hs hn severity
    rcases hr : (k.forceAlarm pv severity).run s with ⟨e | ⟨⟩, t⟩
    all_goals rw [hr] at hf
    all_goals have ht := (hf.sheltered hs hn).left
    case error =>
      rw [Checker.simulateAlarm_of_error hr]
      refine ⟨fun e' u hu => ?_, nofun⟩
      cases hu
      refine ⟨t, rfl, fun ha => (k.forcing hk ht hn .noAlarm).restored ht hn ?_⟩
      cases ha
      case inl ha => simp [hf.alarm?_eq hs hn (.inl ha)]
      case inr ha => exact ha
    case ok =>
      rw [Checker.simulateAlarm_of_ok hr]
      refine ⟨nofun, fun a u hu t' hp how => ?_⟩
      cases hu
      have ha := hf.alarm?_eq hs hn (.inr rfl)
      have ⟨ht, hq⟩ := ht.passes hp
      rw [SimulatedAlarm.run_finish]
      refine (k.forcing hk ht hn .noAlarm).restored ht hn ?_
      simp [(hq _ hn).alarm _ ha]

-- A record is put into an alarm while somebody gives values to another one.
theorem simulated_alarm_restored_once_of_major :
    let k := Checker.hasty.over Server.transport
    let s := Server.empty.insert "TE:TEMP" (.int 1)
    let others := Sets {"TE:LEVEL"}
    Sheltered others {k.fullName "TEMP"} s ∧
    ∃ a t, (k.simulateAlarm "TEMP" .major).run s = (.ok a, t) ∧
      t.alarm? "TE:TEMP" = some (.major, "SIMM") ∧
      ∀ t', ReflTransGen (Passes others) t t' → ∀ how,
        Restored others "TE:TEMP" t' ((a.finish k how).run t').2 := by
  intro k s others
  have hr : s.Ready (k.fullName "TEMP") := .insert "TE:TEMP" (.int 1)
  have hs : Sheltered others {k.fullName "TEMP"} s := by
    refine sheltered_of_idle hr.idle ?_ ?_
    · rintro _ rfl
      exact hr.unshadowed
    · rintro _ rfl
      exact Field.of_ne _ _ (by decide)
  have ⟨t, ht, _, ha⟩ := Checker.forceAlarm_of_ready (k := k) rfl hr .major
  have ht := Checker.simulateAlarm_of_ok ht
  have ⟨_, h⟩ := simulated_alarm_restored_once.2.2 k others "TEMP" .major s rfl hs
  exact ⟨hs, _, t, ht, ha, h _ t ht⟩

end Readback
