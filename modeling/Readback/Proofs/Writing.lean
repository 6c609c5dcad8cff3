import Readback.Proofs.Reaching
import Readback.Proofs.Sequences

namespace Readback

namespace Server

variable {s : Server} {name : String}

theorem writes_amend (s : Server) (pv : String) (f : Record → Record) :
    (s.amend pv f).writes = s.writes := by
  rw [amend, notify]
  split <;> rfl

theorem writes_putRecord (s : Server) (pv : String) (v : Value) :
    (s.putRecord pv v).writes = s.writes := by
  simp only [putRecord]
  split
  · rw [writes_set, writes_set]
  · exact writes_set ..

theorem put_of_resolved (h : (s.resolve? name).isSome) (v : Value) :
    (s.put name v).2.writes = s.writes ++ [(name, v)] ∧
      ((s.put name v).1 = .ok () ∨
        ∃ reason, (s.put name v).1 = .error (.putFailed name reason)) := by
  rw [put]
  rcases hr : s.resolve? name with _ | ⟨base, r, _ | f⟩
  case none => simp [hr] at h
  case some.none => exact ⟨writes_putRecord .., .inl rfl⟩
  case some.some =>
    cases f
    case simulatedSeverity =>
      cases Severity.ofValue? v
      case none => exact ⟨rfl, .inr ⟨_, rfl⟩⟩
      case some => exact ⟨writes_amend .., .inl rfl⟩
    case process => exact ⟨writes_amend .., .inl rfl⟩
    case severity | status => exact ⟨rfl, .inr ⟨_, rfl⟩⟩

end Server

open Server

namespace Checker

theorem write_transcribed {σ : Type} {k : Checker σ} {pv : String} {v : Value} {o : PutOptions}
    {s t u : σ} {answer : Except AccessError Unit}
    (h : k.transport.probe (k.fullName pv) k.putExistenceTimeout s = (true, t))
    (hp : k.transport.put (k.fullName pv) v o.wait k.defaultTimeout t = (answer, u))
    (es : List Exchange) :
    ((k.over k.transport.transcribed).write pv v o).run ⟨s, es⟩ =
      (answer.mapError .access,
        ⟨if answer.isOk then (k.settle (o.settle.getD k.settleAfterPut) u).2 else u,
          .put (k.fullName pv) v o.wait k.defaultTimeout answer ::
            .probe (k.fullName pv) k.putExistenceTimeout true :: es⟩) := by
  have h' := Transcript.log_eq h (.probe (k.fullName pv) k.putExistenceTimeout) es
  have hp' := Transcript.log_eq hp (.put (k.fullName pv) v o.wait k.defaultTimeout)
    (.probe (k.fullName pv) k.putExistenceTimeout true :: es)
  refine (write_of_found h' hp').trans (Prod.ext rfl ?_)
  rw [settle_transcribed]
  cases answer <;> rfl

-- A write asks first. If there is nothing to write to, and nothing that comes up in time, it says
-- so and leaves everything as it is. Otherwise it waits as long as that takes and writes once. What
-- it has waited for is not unreachable then, unless somebody has taken it away meanwhile; but a
-- field may refuse the value.
theorem write_asks_first (k : Checker Server) (hk : k.transport = Server.transport) (s : Server)
    (pv : String) (v : Value) (o : PutOptions) :
    let full := k.fullName pv
    ∃ result t es,
      (k.write pv v o).run s = (result, t) ∧
      ((k.over k.transport.transcribed).write pv v o).run ⟨s, []⟩ = (result, ⟨t, es.reverse⟩) ∧
      (result = .error (.missing full) ↔
        ∀ r, s.StandsFor full r → k.putExistenceTimeout < r.delay s.clock) ∧
      (result = .error (.missing full) →
        t = s ∧ es = [.probe full k.putExistenceTimeout false]) ∧
      (result ≠ .error (.missing full) → ∃ r, s.StandsFor full r ∧
        let u := s.sleep (r.delay s.clock)
        let answer := (u.put full v).1
        let w := (u.put full v).2
        u.clock = s.clock + r.delay s.clock ∧
        es = [.probe full k.putExistenceTimeout true,
          .put full v o.wait k.defaultTimeout answer] ∧
        result = answer.mapError .access ∧
        t = (if answer.isOk then (k.settle (o.settle.getD k.settleAfterPut) w).2 else w) ∧
        (s.Steady → w.writes = u.writes ++ [(full, v)] ∧
          (result = .ok () ∨ ∃ reason, result = .error (.access (.putFailed full reason))))) := by
  intro full
  by_cases h : ∃ r, s.StandsFor full r ∧ r.delay s.clock ≤ k.putExistenceTimeout
  case neg =>
    have hl r (hr : s.StandsFor full r) : k.putExistenceTimeout < r.delay s.clock :=
      Nat.not_le.mp fun hd => h ⟨r, hr, hd⟩
    have hp : k.transport.probe full k.putExistenceTimeout s = (false, s) := hk ▸ probe_of_late hl
    have hp' := Transcript.log_eq hp (.probe full k.putExistenceTimeout) []
    exact ⟨_, s, [.probe full k.putExistenceTimeout false], write_of_missing hp,
      write_of_missing hp', iff_of_true rfl hl, fun _ => ⟨rfl, rfl⟩, fun hn => absurd rfl hn⟩
  case pos =>
    obtain ⟨r, hr, hd⟩ := h
    let u := s.sleep (r.delay s.clock)
    have hn : ¬∀ r, s.StandsFor full r → k.putExistenceTimeout < r.delay s.clock :=
      fun hn => Nat.not_lt.mpr hd (hn r hr)
    have hp : k.transport.probe full k.putExistenceTimeout s = (true, u) := by
      rw [hk]
      exact (probe_of_standsFor hr _).trans (if_pos hd)
    have hw : k.transport.put full v o.wait k.defaultTimeout u =
        ((u.put full v).1, (u.put full v).2) := by
      rw [hk]
      rfl
    have hm : (u.put full v).1.mapError AssertError.access ≠ .error (.missing full) := by
      cases (u.put full v).1 <;> nofun
    refine ⟨_, _, [.probe full k.putExistenceTimeout true, .put full v o.wait k.defaultTimeout _],
      write_of_found hp hw, write_transcribed hp hw [], iff_of_false hm hn,
      fun he => absurd he hm, fun _ => ⟨r, hr, clock_sleep .., rfl, rfl, rfl, fun hs => ?_⟩⟩
    have ⟨hl, ha⟩ := put_of_resolved (hs.resolve?_sleep hr (Nat.le_refl _)) v
    refine ⟨hl, ?_⟩
    rcases ha with ha | ⟨reason, ha⟩
    · exact .inl (congrArg (Except.mapError AssertError.access) ha)
    · exact .inr ⟨reason, congrArg (Except.mapError AssertError.access) ha⟩

-- The status of a record that comes up in time is written, which the field refuses.
theorem write_asks_first_of_booting :
    let k := { Checker.hasty.over Server.transport with putExistenceTimeout := 30 }
    let s := Server.empty.insertUnreachable "TE:A" (.int 1) 25
    let full := Field.status.of "TE:A"
    let refused := AccessError.putFailed full "field STAT is read-only"
    k.transport = Server.transport ∧ s.Steady ∧ ∃ t,
      (k.write (Field.status.of "A") (.int 7) {}).run s = (.error (.access refused), t) ∧
      ((k.over k.transport.transcribed).write (Field.status.of "A") (.int 7) {}).run ⟨s, []⟩ =
        (.error (.access refused),
          ⟨t, [.put full (.int 7) false 5 (.error refused), .probe full 30 true]⟩) := by
  intro k s full refused
  let pv := Field.status.of "A"
  have hs : s.Steady := fun _ _ hm => absurd hm List.not_mem_nil
  let booting : Record := { Record.new (.int 1) with reachableFrom := some 25 }
  have hr : s.StandsFor full booting := .field .status rfl rfl
  let u : Server := { s with clock := 25 }
  have hu : s.sleep 25 = u := sleep_of_idle rfl 25
  have hp : k.transport.probe full 30 s = (true, u) := hu ▸ probe_of_standsFor hr 30
  have hn : u.resolve? full = some ("TE:A", booting, some .status) :=
    (resolve?_field rfl rfl).trans (if_pos rfl)
  have hw : k.transport.put full (.int 7) false 5 u =
      (.error refused, { u with writes := [(full, .int 7)] }) := by
    change u.put full (.int 7) = _
    rw [put, hn]
    rfl
  obtain ⟨result, t, es, hx, hx', -, -, hf⟩ := k.write_asks_first rfl s pv (.int 7) {}
  obtain ⟨rfl, rfl⟩ := Prod.mk.inj ((write_of_found (o := {}) hp hw).symm.trans hx)
  obtain ⟨r, -, -, rfl, ha, -, -⟩ := hf (by simp [Except.mapError])
  generalize ((s.sleep (r.delay s.clock)).put _ _).1 = answer at ha hx'
  cases answer
  case ok => cases ha
  case error =>
    cases ha
    exact ⟨rfl, hs, _, hx, hx'⟩

end Checker
end Readback
