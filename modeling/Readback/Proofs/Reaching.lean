import Readback.Proofs.Acting
import Readback.Proofs.Shadowing
import Readback.Proofs.Standing
import Readback.Proofs.Streams

namespace Readback

theorem Record.isReachable_of_delay {r : Record} {n m : Nat} (h : n + r.delay n ≤ m) :
    r.isReachable m := by
  rw [isReachable_iff]
  unfold delay at h ⊢
  cases hr : r.reachableFrom
  case none => rfl
  case some since =>
    simp only [hr] at h ⊢
    omega

namespace Server

variable {s t u : Server} {name pv : String} {r : Record} {timeout moment : Nat}

theorem clock_putRecord (s : Server) (pv : String) (v : Value) :
    (s.putRecord pv v).clock = s.clock := by
  simp only [putRecord]
  split
  · rw [clock_set, clock_set]
  · exact clock_set ..

theorem clock_put (s : Server) (name : String) (v : Value) : (s.put name v).2.clock = s.clock :=
  put_induction (P := fun t => t.clock = s.clock) rfl rfl rfl (fun _ => clock_putRecord ..)
    fun _ _ => clock_notify ..

theorem lasting_clock : Lasting fun s t => t.clock = s.clock where
  refl _ := rfl
  trans h h' := h'.trans h
  note _ _ := rfl
  take _ := rfl
  putBack _ _ := rfl
  set := clock_set
  put := clock_put
  subscribe _ _ _ := rfl
  unsubscribe _ _ := rfl

theorem clock_resetAll (s : Server) (names : List String) : (s.resetAll names).clock = s.clock :=
  lasting_clock.foldl (f := fun s pv => s.amend pv Record.reset) (fun _ _ => clock_notify ..) ..

theorem clock_perform (op : Operation) (s : Server) : (op.perform s).clock = s.clock := by
  cases op
  case set => exact clock_set ..
  case setAlarm => exact clock_notify ..
  case put => exact clock_put ..
  case setOnDevice property v =>
    simp only [Operation.perform, setOnDevice]
    cases s.bindings.find? property
    case none => rfl
    case some pv => exact clock_set ..
  case runFunction name =>
    simp only [Operation.perform, runFunction]
    split
    case isTrue => exact clock_resetAll ..
    case isFalse => rfl
  case drain => exact lasting_clock.drain s
  all_goals rfl

theorem of_mem_upTo {task : Task} {op : Nat × Operation} (h : op ∈ (task.upTo moment).1) :
    op.1 ≤ moment ∧ (task = .once op.1 op.2 ∨ ∃ pv v, op.2 = .set pv v) := by
  cases task
  case once due op' =>
    rw [Task.upTo] at h
    split at h
    case isTrue hd =>
      cases List.mem_singleton.mp h
      exact ⟨hd, .inl rfl⟩
    case isFalse => cases h
  case stream due period pv values =>
    obtain ⟨hm, v, hv⟩ := (upTo_stream moment due period pv values).left op h
    exact ⟨hm, .inr ⟨pv, v, hv⟩⟩

theorem clock_sleep (s : Server) (d : Nat) : (s.sleep d).clock = s.clock + d := by
  let P (t : Server) : Prop := t.clock ≤ s.clock + d
  have hc : P (s.sleep d) := by
    refine advance_induction (Nat.le_add_right ..) (fun task _ op ho t h => ?_) fun t h => ?_
    case refine_1 =>
      change (op.2.perform _).clock ≤ _
      rw [clock_perform]
      exact Nat.max_le.mpr ⟨h, (of_mem_upTo ho).left⟩
    case refine_2 => exact Nat.max_le.mpr ⟨h, Nat.le_refl _⟩
  exact Nat.le_antisymm hc (Nat.le_max_right ..)

-- From one server to another the record of a name takes until the same moment to come up, or it can
-- be reached at once, as can one that has been made meanwhile.
def Stays (s t : Server) : Prop :=
  ∀ name, t.since? name = s.since? name ∨ t.since? name = some none

namespace Stays

theorem of_records (h : t.records = s.records) : Stays s t := by
  intro name
  rw [since?, since?, h]
  exact .inl rfl

theorem of_makes {names : List String} (h : Makes names s t) : Stays s t := by
  intro name
  rw [h name]
  split
  case isTrue => cases s.since? name <;> simp
  case isFalse => exact .inl rfl

theorem trans (h : Stays s t) (h' : Stays t u) : Stays s u := by
  intro name
  rcases h' name with hu | hu
  case inl => exact hu ▸ h name
  case inr => exact .inr hu

theorem set (s : Server) (pv : String) (v : Value) : Stays s (s.set pv v) := by
  let op : Operation := .set pv v
  have hm : Makes (op.updates s) s (op.perform s) := makes_perform trivial fun _ => id
  exact of_makes hm

theorem put (s : Server) (name : String) (v : Value) : Stays s (s.put name v).2 := by
  let op : Operation := .put name v
  have hm : Makes (op.updates s) s (op.perform s) := makes_perform trivial fun _ => id
  exact of_makes hm

theorem insert (s : Server) (pv : String) (v : Value) : Stays s (s.insert pv v) := by
  intro name
  by_cases hn : name = pv
  case pos => exact .inr (by simp [since?, Server.insert, hn, Record.new])
  case neg => exact .inl (by simp [since?, Server.insert, hn])

theorem lasting : Lasting Stays where
  refl _ := of_records rfl
  trans := trans
  note _ _ := of_records rfl
  take _ := of_records rfl
  putBack _ _ := of_records rfl
  set := set
  put := put
  subscribe _ _ _ := of_records rfl
  unsubscribe _ _ := of_records rfl

end Stays

def Operation.TakesAway : Operation → Prop
  | .remove _ | .insertUnreachable _ _ _ => True
  | _ => False

theorem Stays.perform {op : Operation} (h : ¬op.TakesAway) (s : Server) :
    Stays s (op.perform s) := by
  cases op
  case insert pv v => exact .insert s pv v
  case subscribe | unsubscribe => exact .of_records rfl
  case drain => exact lasting.drain s
  case remove | insertUnreachable => exact absurd trivial h
  all_goals exact .of_makes (makes_perform trivial fun _ => id)

def Steady (s : Server) : Prop :=
  ∀ due op, .once due op ∈ s.agenda → ¬op.TakesAway

theorem StreamsApart.steady {names : Set String} (h : s.StreamsApart names) : s.Steady := by
  intro due op hm
  have ⟨_, _, _, _, he, _⟩ := h _ hm
  cases he

theorem Steady.stays_sleep (h : s.Steady) (d : Nat) : Stays s (s.sleep d) := by
  refine advance_induction (.of_records rfl) (fun task ht op ho t hs => ?_) fun t hs => ?_
  case refine_1 =>
    let u : Server := { t with clock := max t.clock op.1 }
    have hu : Stays t u := .of_records rfl
    have hp : ¬op.2.TakesAway := by
      rcases (of_mem_upTo ho).right with he | ⟨pv, v, he⟩
      case inl => exact h _ _ (he ▸ ht)
      case inr => exact he ▸ id
    exact hs.trans (hu.trans (.perform hp u))
  case refine_2 => exact hs.trans (.of_records rfl)

-- A name that stands for a record goes on to do so. It may come to be another one, and that can be
-- reached at once.
theorem Stays.standsFor (h : Stays s t) (hr : s.StandsFor name r) :
    ∃ r', t.StandsFor name r' ∧
      (r'.reachableFrom = r.reachableFrom ∨ r'.reachableFrom = none) := by
  have kept {q : String} {r : Record} (hr : s.records.find? q = some r) :
      ∃ r', t.records.find? q = some r' ∧
        (r'.reachableFrom = r.reachableFrom ∨ r'.reachableFrom = none) := by
    have hq := h q
    rw [since?, since?, hr] at hq
    cases ht : t.records.find? q <;> simp_all
  rcases hr with hr | ⟨f, hn, hr⟩
  case record =>
    obtain ⟨r', ht, hd⟩ := kept hr
    exact ⟨r', .record ht, hd⟩
  case field base =>
    cases ht : t.records.find? (f.of base)
    case none =>
      obtain ⟨r', ht', hd⟩ := kept hr
      exact ⟨r', .field f ht ht', hd⟩
    case some r' =>
      have hf := h (f.of base)
      rw [since?, since?, hn, ht] at hf
      exact ⟨r', .record ht, .inr (by simpa using hf)⟩

theorem Steady.resolve?_sleep (hs : s.Steady) (hr : s.StandsFor name r) {d : Nat}
    (hd : r.delay s.clock ≤ d) : ((s.sleep d).resolve? name).isSome := by
  have ⟨r', ht, hf⟩ := (hs.stays_sleep d).standsFor hr
  refine resolve?_isSome_iff.mpr ⟨r', ht, ?_⟩
  rw [clock_sleep]
  cases hf
  case inl hf =>
    have he : r'.delay s.clock = r.delay s.clock := by rw [Record.delay, hf, ← Record.delay]
    exact Record.isReachable_of_delay (he ▸ Nat.add_le_add_left hd s.clock)
  case inr hf => rw [Record.isReachable, hf]

theorem Steady.resolve?_of_probe (hs : s.Steady) (h : s.probe name timeout = (true, t)) :
    (t.resolve? name).isSome := by
  have ⟨r, hr, hd⟩ := probe_iff.mp (congrArg Prod.fst h)
  rw [probe_of_standsFor hr, if_pos hd] at h
  cases h
  exact hs.resolve?_sleep hr (Nat.le_refl _)

def Unconnected {α : Type} (r : Except AccessError α) : Prop :=
  ∃ pv, r = .error (.unreachable pv)

theorem unconnected_iff {α : Type} {r : Except AccessError α} :
    Unconnected r ↔ ∃ e, e.isRetryable ∧ r = .error e := by
  simp only [Unconnected, AccessError.isRetryable_iff]
  grind

theorem unconnected_get_iff : Unconnected (s.get name) ↔ s.resolve? name = none := by
  rw [get]
  cases s.resolve? name <;> simp [Unconnected]

theorem unconnected_put_iff {v : Value} :
    Unconnected (s.put name v).1 ↔ s.resolve? name = none := by
  rw [put]
  rcases s.resolve? name with _ | ⟨base, r, _ | f⟩
  case none => simp [Unconnected]
  case some.none => simp [Unconnected]
  case some.some =>
    cases f
    case simulatedSeverity => cases Severity.ofValue? v <;> simp [Unconnected]
    all_goals simp [Unconnected]

-- A read, a write and a probe agree about what can be reached. A probe of something that cannot be
-- reached yet waits as long as it takes, and then it can be read, unless somebody takes it away
-- meanwhile; if that is too long the answer comes at once.
theorem reached_alike (s : Server) (name : String) :
    (Unconnected (s.get name) ↔ (s.probe name 0).1 = false) ∧
    (∀ v, Unconnected (s.put name v).1 ↔ (s.probe name 0).1 = false) ∧
    ∀ timeout,
      ((s.probe name timeout).1 ↔ ∃ r, s.StandsFor name r ∧ r.delay s.clock ≤ timeout) ∧
      ((s.probe name timeout).1 = false → (s.probe name timeout).2 = s) ∧
      ∀ r, s.StandsFor name r → r.delay s.clock ≤ timeout →
        let t := (s.probe name timeout).2
        t = s.sleep (r.delay s.clock) ∧ t.clock = s.clock + r.delay s.clock ∧
          (s.Steady → ∃ v, t.get name = .ok v) := by
  refine ⟨unconnected_get_iff.trans resolve?_eq_none_iff,
    fun v => unconnected_put_iff.trans resolve?_eq_none_iff,
    fun timeout => ⟨probe_iff, fun hp => ?_, fun r hr hd => ?_⟩⟩
  case refine_1 =>
    rw [probe_of_late]
    intro r hr
    by_contra hd
    rw [probe_iff.mpr ⟨r, hr, Nat.not_lt.mp hd⟩] at hp
    cases hp
  case refine_2 =>
    intro t
    have ht : t = s.sleep (r.delay s.clock) := by
      simp only [t]
      rw [probe_of_standsFor hr, if_pos hd]
    refine ⟨ht, ht ▸ clock_sleep .., fun hs => ?_⟩
    have hv := hs.resolve?_sleep hr (Nat.le_refl _)
    rw [← ht] at hv
    obtain ⟨⟨base, r', field⟩, hx⟩ := Option.isSome_iff_exists.mp hv
    exact ⟨r'.read field, by rw [get, hx]⟩

-- The severity of a record that is coming up, next to a stream, read through a name with two
-- points in it.
theorem reached_alike_of_booting :
    let s := (Server.empty.stream "RAMP" 10 (.ramp ⟨.zero, .zero⟩)).insertUnreachable "IOC.A"
      (.int 5) 25
    let name := Field.severity.of "IOC.A"
    s.Steady ∧ Unconnected (s.get name) ∧ (∀ v, Unconnected (s.put name v).1) ∧
    (s.probe name 24).1 = false ∧ (s.probe name 24).2 = s ∧
    (s.probe name 25).1 = true ∧ (s.probe name 25).2.clock = s.clock + 25 ∧
      ∃ v, (s.probe name 25).2.get name = .ok v := by
  intro s name
  let r : Record := { Record.new (.int 5) with reachableFrom := some (s.clock + 25) }
  let w : Server := { Server.empty with agenda := [.stream 0 10 "RAMP" (.ramp ⟨.zero, .zero⟩)] }
  have hw : w.StreamsApart ∅ := by simp [StreamsApart, w]
  have hs : s.StreamsApart ∅ := (drifts_advance hw 0).left.streams
  have hn : (s.records.find? name).isNone := by decide +kernel
  have hr : s.StandsFor name r := .field .severity (Option.isNone_iff_eq_none.mp hn)
    (by simp [s, r, insertUnreachable])
  have hd : r.delay s.clock = 25 := by simp [r, Record.delay]
  have h0 : (s.probe name 0).1 = false := by rw [probe_of_standsFor hr, hd, if_neg (by decide)]
  have hl : (s.probe name 24).1 = false := by rw [probe_of_standsFor hr, hd, if_neg (by decide)]
  obtain ⟨hg, hp, ht⟩ := reached_alike s name
  obtain ⟨hf, _, hw⟩ := ht 25
  obtain ⟨_, hc, hv⟩ := hw r hr hd.le
  exact ⟨hs.steady, hg.mpr h0, fun v => (hp v).mpr h0, hl, (ht 24).2.1 hl,
    hf.mpr ⟨r, hr, hd.le⟩, hd ▸ hc, hv hs.steady⟩

-- A record that is removed while one waits for it.
example :
    let s := { Server.empty.insertUnreachable "A" (.int 5) 25 with
      agenda := [.once 10 (.remove "A")] }
    (s.probe "A" 25).1 = true ∧ ((s.probe "A" 25).2.get "A").isOk = false := by
  decide +kernel

end Server
end Readback
