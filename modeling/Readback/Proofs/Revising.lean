import Readback.Proofs.Refusals

namespace Readback.Server

open Traffic

variable {s t u : Server} {pv name : String} {v : Value} {m : Mail} {c c' : Traffic}
  {ds : List Drain} {changes changes' : List (String × Record)} {r : Record}

def Mail.Ascending (m : Mail) : Prop :=
  m.subscribers.Pairwise fun b b' => b.id < b'.id

theorem Traffic.Step.ascending (h : Step c c') (hr : c.mail.Registered) (ha : c.mail.Ascending) :
    c'.mail.Ascending := by
  cases h
  case subscribed =>
    refine List.pairwise_append.mpr ⟨ha, List.pairwise_singleton .., fun b hb b' hb' => ?_⟩
    rw [List.mem_singleton.mp hb']
    exact hr.below b (hr.subscribed b hb)
  case cancelled => exact ha.filter _
  all_goals exact ha

theorem Traffic.Reachable.ascending (h : Reachable c) : c.mail.Ascending := by
  induction h
  case refl => exact .nil
  case tail h hs hi => exact hs.ascending (Reachable.registered h) hi

theorem Mail.Ascending.listeners (h : m.Ascending) (pv : String) :
    (m.listeners pv).Pairwise (· < ·) :=
  List.pairwise_map.mpr (h.filter _)

theorem Mail.mem_listeners {id : SubscriptionId} :
    id ∈ m.listeners pv ↔ ∃ b ∈ m.subscribers, b.pv = pv ∧ b.id = id := by
  simp [listeners, and_assoc]

def Notification.letter (n : Notification) : SubscriptionId × Event :=
  (n.subscriber, n.event)

def Mail.letters (m : Mail) (changes : List (String × Record)) : List (SubscriptionId × Event) :=
  changes.flatMap fun (pv, r) => (m.listeners pv).map fun id => (id, r.event)

theorem announce_eq (m : Mail) (pv : String) (event : Event) :
    ∃ ns, ns.map Notification.letter = (m.listeners pv).map (·, event) ∧
      m.announce pv event =
        { m with
          pending := m.pending ++ ns
          nextSerial := (m.announce pv event).nextSerial
          journal := (m.announce pv event).journal } := by
  unfold Mail.announce
  generalize m.listeners pv = ids
  induction ids generalizing m
  case nil => exact ⟨[], rfl, by simp⟩
  case cons id ids hi =>
    have ⟨ns, hn, he⟩ := hi (m.post pv event id)
    refine ⟨⟨m.nextSerial, id, event⟩ :: ns, ?_, ?_⟩
    case refine_1 =>
      rw [List.map_cons, hn]
      rfl
    case refine_2 =>
      rw [List.foldl_cons, he]
      simp [Mail.post]

-- From one server to another records have changed one after the other, and each change has been
-- posted. Nothing else is different.
structure Revises (changes : List (String × Record)) (s t : Server) : Prop where
  records : ∀ pv, t.records.find? pv = (changes.reverse.lookup pv).or (s.records.find? pv)
  posted : ∃ ns, t.pending = s.pending ++ ns ∧
    ns.map Notification.letter = s.letters changes
  rest : t =
    { s with
      records := t.records
      pending := t.pending
      nextSerial := t.nextSerial
      journal := t.journal }

def revised (s : Server) (pv : String) (v : Value) : Record :=
  (s.records.find? pv).elim (.new v) ({ · with value := v })

theorem revised_set (s : Server) (pv q : String) (v : Value) :
    (s.set pv v).revised q v = s.revised q v := by
  rw [revised, find?_set, revised]
  split
  case isTrue he =>
    rw [he]
    cases s.records.find? pv <;> rfl
  case isFalse => rfl

namespace Revises

theorem letters_eq (h : Revises changes s t) (changes' : List (String × Record)) :
    t.letters changes' = s.letters changes' := by
  rw [h.rest]
  rfl

theorem notify {records : Registry Record}
    (ho : ∀ q, records.find? q = if q = pv then some r else s.records.find? q) :
    Revises [(pv, r)] s (({ s with records } : Server).notify pv) := by
  have hn : ({ s with records } : Server).notify pv =
      { s with toMail := s.announce pv r.event, records } := by
    simp [Server.notify, ho]
  obtain ⟨ns, hl, he⟩ := announce_eq s.toMail pv r.event
  rw [hn, he]
  exact {
    records q := by
      rw [ho]
      by_cases hq : q = pv
      case pos => simp [hq]
      case neg => simp [hq, List.lookup_cons, beq_false_of_ne hq]
    posted := ⟨ns, rfl, by simp [hl, Mail.letters]⟩
    rest := rfl }

theorem trans (h : Revises changes s t) (h' : Revises changes' t u) :
    Revises (changes ++ changes') s u where
  records pv := by
    rw [h'.records, h.records, List.reverse_append, List.lookup_append, Option.or_assoc]
  posted := by
    have ⟨ns, hp, hn⟩ := h.posted
    have ⟨ns', hp', hn'⟩ := h'.posted
    refine ⟨ns ++ ns', by rw [hp', hp, List.append_assoc], ?_⟩
    rw [List.map_append, hn, hn', h.letters_eq, Mail.letters, Mail.letters, Mail.letters,
      List.flatMap_append]
  rest := by
    refine h'.rest.trans ?_
    rw [h.rest]

theorem set (s : Server) (pv : String) (v : Value) :
    Revises [(pv, s.revised pv v)] s (s.set pv v) := by
  refine notify fun q => ?_
  rw [Registry.find?_put, revised]
  cases s.records.find? pv <;> rfl

theorem amend {f : Record → Record} (hr : s.records.find? pv = some r) :
    Revises [(pv, f r)] s (s.amend pv f) := by
  refine notify fun q => ?_
  rw [Registry.find?_modify]
  split
  case isTrue hq =>
    rw [hq, hr]
    rfl
  case isFalse => rfl

theorem putRecord (s : Server) (pv : String) (v : Value) :
    Revises ((pv, s.revised pv v) :: (s.links.find? pv).toList.map fun q => (q, s.revised q v)) s
      (s.putRecord pv v) := by
  have hs : Revises [(pv, s.revised pv v)] s (s.set pv v) := .set s pv v
  simp only [Server.putRecord, links_set]
  cases s.links.find? pv
  case none => exact hs
  case some readback =>
    have hr : Revises [(readback, s.revised readback v)] (s.set pv v)
        ((s.set pv v).set readback v) := revised_set s pv readback v ▸ .set (s.set pv v) readback v
    exact hs.trans hr

end Revises

-- What a write changes that succeeds: a record and the one that is linked to it, the alarm of a
-- record that is simulated, or how often a record has been processed. A name is that of a record if
-- there is one.
inductive PutChanges (s : Server) (name : String) (v : Value) : List (String × Record) → Prop
  | record {r : Record} (hr : s.records.find? name = some r) (ha : r.isReachable s.clock) :
    PutChanges s name v ((name, { r with value := v }) ::
      (s.links.find? name).toList.map fun readback => (readback, s.revised readback v))
  | simulated {base : String} {r : Record} {severity : Severity}
    (hn : s.records.find? name = none) (hf : name = Field.simulatedSeverity.of base)
    (hr : s.records.find? base = some r) (ha : r.isReachable s.clock)
    (hv : Severity.ofValue? v = some severity) :
    PutChanges s name v [(base, { r with severity, status := (r.simulate severity).status })]
  | processed {base : String} {r : Record} (hn : s.records.find? name = none)
    (hf : name = Field.process.of base) (hr : s.records.find? base = some r)
    (ha : r.isReachable s.clock) :
    PutChanges s name v [(base, { r with processed := r.processed + 1 })]

theorem exists_put_eq (s : Server) (name : String) (v : Value) :
    let listed : Server := { s with writes := s.writes ++ [(name, v)] }
    ∃ result t, s.put name v = (result, t) ∧
      (result = .error (.unreachable name) ∧ t = s ∨
        (∃ reason, result = .error (.putFailed name reason)) ∧ t = listed ∨
        result = .ok () ∧ ∃ changes, s.PutChanges name v changes ∧ Revises changes listed t) := by
  intro listed
  rcases hs : s.resolve? name with _ | ⟨base, r, field⟩
  case none => exact ⟨_, _, by rw [put, hs], .inl ⟨rfl, rfl⟩⟩
  case some =>
    obtain ⟨hl, hr, ha⟩ := resolve?_eq_some_iff.mp hs
    have hb : listed.records.find? base = some r := hr
    rcases field with _ | field
    case none =>
      cases eq_of_locate?_record hl
      have hc : { r with value := v } = s.revised name v := by
        rw [revised, hr]
        rfl
      have hw : Revises _ listed (listed.putRecord name v) := .putRecord listed name v
      exact ⟨_, _, by rw [put, hs], .inr (.inr ⟨rfl, _, .record hr ha, hc ▸ hw⟩)⟩
    case some =>
      obtain ⟨hn, hf⟩ := eq_of_locate?_field hl
      cases field
      case simulatedSeverity =>
        cases hv : Severity.ofValue? v
        case none => exact ⟨_, listed, by rw [put, hs, hv], .inr (.inl ⟨⟨_, rfl⟩, rfl⟩)⟩
        case some severity =>
          have hc : Revises _ listed (listed.amend base fun r => r.simulate severity) := .amend hb
          exact ⟨_, _, by rw [put, hs, hv], .inr (.inr ⟨rfl, _, .simulated hn hf hr ha hv, hc⟩)⟩
      case process =>
        have hc : Revises _ listed (listed.amend base Record.process) := .amend hb
        exact ⟨_, _, by rw [put, hs], .inr (.inr ⟨rfl, _, .processed hn hf hr ha, hc⟩)⟩
      case severity | status => exact ⟨_, _, by rw [put, hs], .inr (.inl ⟨⟨_, rfl⟩, rfl⟩)⟩

-- A write changes what it should and nothing else. It is refused without a trace if its name stands
-- for nothing that can be reached. Otherwise it is listed; if it is refused then, nothing else
-- happens. If it succeeds, the subscribers of each record that has changed are told, those of the
-- readback last, and the oldest subscription first. It is the same for clients and for subscribers
-- that write while drains go on.
theorem put_changes_only (h : Reachable ⟨ds, s.toMail⟩) (name : String) (v : Value) :
    let listed : Server := { s with writes := s.writes ++ [(name, v)] }
    ∃ result t, s.put name v = (result, t) ∧
      (result = .error (.unreachable name) ∧ t = s ∨
        (∃ reason, result = .error (.putFailed name reason)) ∧ t = listed ∨
        result = .ok () ∧ ∃ changes, s.PutChanges name v changes ∧ Revises changes listed t) ∧
      ∀ pv, (s.listeners pv).Pairwise (· < ·) ∧
        ∀ id, id ∈ s.listeners pv ↔ ∃ b ∈ s.subscribers, b.pv = pv ∧ b.id = id := by
  intro listed
  have ⟨result, t, hp, he⟩ := s.exists_put_eq name v
  exact ⟨result, t, hp, he, fun pv => ⟨h.ascending.listeners pv, fun _ => Mail.mem_listeners⟩⟩

-- A record is written whose readback is missing: those who wait for the readback are told last.
theorem put_changes_only_of_missing_readback :
    let s := run [.insert "A" (.int 0), .subscribe "A" none [], .subscribe "B" none [],
      .subscribe "A" none [], .link "A" "B"] .empty
    let listed : Server := { s with writes := [("A", .int 5)] }
    Reachable ⟨[], s.toMail⟩ ∧ ∃ t changes, s.put "A" (.int 5) = (.ok (), t) ∧
      s.PutChanges "A" (.int 5) changes ∧ Revises changes listed t ∧
      (t.records.find? "B").map Record.value = some (.int 5) ∧
      t.pending.map Notification.letter =
        [(1, .quiet (.int 5)), (3, .quiet (.int 5)), (2, .quiet (.int 5))] ∧
      (s.listeners "A").Pairwise (· < ·) := by
  intro s listed
  have hr : Reachable ⟨[], s.toMail⟩ := (Reached.empty.run _ : Reached s).reachable
  have ⟨result, t, hp, he, ho⟩ := put_changes_only hr "A" (.int 5)
  have ⟨hl, _⟩ := ho "A"
  cases hp
  rcases he with ⟨he, _⟩ | ⟨⟨_, he⟩, _⟩ | ⟨_, changes, hc, hv⟩
  case inl | inr.inl => cases he
  case inr.inr => exact ⟨hr, _, changes, rfl, hc, hv, rfl, rfl, hl⟩

end Readback.Server
