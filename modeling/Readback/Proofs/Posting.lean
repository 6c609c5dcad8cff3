import Readback.Proofs.Delivery
import Readback.Proofs.Fields

namespace Readback.Server

variable {s t : Server} {pv : String} {b : Subscriber}

-- From one server to another the records with some names have been posted as they are at last, and
-- no other record has changed.
structure Announces (names : List String) (s t : Server) : Prop where
  subscribers : t.subscribers = s.subscribers
  agenda : t.agenda = s.agenda
  others : ∀ pv ∉ names, t.eventOf? pv = s.eventOf? pv
  kept : ∀ pv, (s.eventOf? pv).isSome → (t.eventOf? pv).isSome
  posted : ∀ pv ∈ names, (t.eventOf? pv).isSome
  heard : ∀ b, s.Listens b →
    heard b.id t = if b.pv ∈ names then t.eventOf? b.pv else heard b.id s

theorem records_notify (s : Server) (pv : String) : (s.notify pv).records = s.records := by
  unfold notify
  split <;> rfl

theorem clock_notify (s : Server) (pv : String) : (s.notify pv).clock = s.clock := by
  unfold notify
  split <;> rfl

theorem find?_amend (s : Server) (pv : String) (f : Record → Record) (name : String) :
    (s.amend pv f).records.find? name =
      if name = pv then (s.records.find? name).map f else s.records.find? name := by
  rw [amend, records_notify]
  exact s.records.find?_modify ..

theorem contains_amend (s : Server) (pv : String) (f : Record → Record) (name : String) :
    (s.amend pv f).records.contains name = s.records.contains name := by
  rw [Registry.contains, find?_amend, Registry.contains]
  split <;> simp

theorem links_set (s : Server) (pv : String) (v : Value) : (s.set pv v).links = s.links := by
  unfold set notify
  split <;> rfl

namespace Announces

theorem of_mail (hm : t.toMail = s.toMail) (hr : t.records = s.records)
    (ha : t.agenda = s.agenda) : Announces [] s t where
  subscribers := congrArg Mail.subscribers hm
  agenda := ha
  others pv _ := by rw [eventOf?, hr, eventOf?]
  kept pv hp := by rwa [eventOf?, hr]
  posted := by simp
  heard b _ := by simp only [Server.heard, latest, hm, List.not_mem_nil, if_false]

theorem notify {records : Registry Record}
    (ho : ∀ q, q ≠ pv → records.find? q = s.records.find? q) (hp : records.contains pv) :
    Announces [pv] s (({ s with records } : Server).notify pv) where
  subscribers := subscribers_notify ..
  agenda := agenda_notify ..
  others q hq := by
    rw [eventOf?_notify, eventOf?, ho q (by simpa using hq), eventOf?]
  kept q hq := by
    rw [eventOf?_notify, eventOf?_isSome]
    rw [eventOf?_isSome] at hq
    by_cases he : q = pv
    · exact he ▸ hp
    · simpa [Registry.contains, ho q he] using hq
  posted q hq := by
    rw [eventOf?_notify, eventOf?_isSome, List.mem_singleton.mp hq]
    exact hp
  heard b hb := by
    have hb : ({ s with records } : Server).Listens b := hb
    obtain ⟨r, hr⟩ := Option.isSome_iff_exists.mp hp
    have he : ({ s with records } : Server).eventOf? pv = some r.event := by simp [eventOf?, hr]
    rw [heard_notify hb he]
    by_cases hq : b.pv = pv
    · simp [hq, he]
    · simp [hq, Server.heard, latest]

theorem trans {names names' : List String} {u : Server} (h : Announces names s t)
    (h' : Announces names' t u) : Announces (names ++ names') s u where
  subscribers := h'.subscribers.trans h.subscribers
  agenda := h'.agenda.trans h.agenda
  others q hq := by
    simp only [List.mem_append, not_or] at hq
    rw [h'.others q hq.right, h.others q hq.left]
  kept q hq := h'.kept q (h.kept q hq)
  posted q hq := by
    cases List.mem_append.mp hq
    case inl hq => exact h'.kept q (h.posted q hq)
    case inr hq => exact h'.posted q hq
  heard b hb := by
    rw [h'.heard b (hb.congr h.subscribers), h.heard b hb]
    by_cases hm : b.pv ∈ names'
    · simp [hm]
    · simp [hm, h'.others b.pv hm]

end Announces

-- The records that an operation posts. A write does so if it succeeds: to a record, to a field of
-- it that can be written, or to a setpoint of it.
def Operation.posts (s : Server) : Operation → List String
  | .set pv _ => [pv]
  | .setAlarm pv _ _ => if s.records.contains pv then [pv] else []
  | .put name v =>
    match s.resolve? name, (s.put name v).1 with
    | some (base, _, none), .ok _ => base :: (s.links.find? base).toList
    | some (base, _, some _), .ok _ => [base]
    | _, _ => []
  | .setOnDevice property _ => (s.bindings.find? property).toList
  | .runFunction name => if name = "reset" then s.records.keys else []
  | _ => []

def Operation.IsPlain : Operation → Prop
  | .subscribe _ _ _ | .unsubscribe _ | .drain => False
  | _ => True

def Operation.IsSilent : Operation → Prop
  | .insert _ _ | .insertUnreachable _ _ _ | .remove _ | .setSilently _ _ => True
  | _ => False

theorem amend_of_missing {f : Record → Record} (h : s.records.find? pv = none) :
    s.amend pv f = s := by
  simp [amend, notify, Registry.modify, h]

-- What holds from one server to another across all that posts, together with the names of the
-- records that are posted on the way. All posting is done by changing one record and notifying its
-- subscribers.
structure PostingRelation (R : List String → Server → Server → Prop) : Prop where
  quiet {s t : Server} (hm : t.toMail = s.toMail) (hr : t.records = s.records)
    (hc : t.clock = s.clock) (ha : t.agenda = s.agenda) : R [] s t
  notify {s : Server} {pv : String} {records : Registry Record}
    (ho : ∀ q, q ≠ pv → records.find? q = s.records.find? q) (hp : records.contains pv) :
    R [pv] s (({ s with records } : Server).notify pv)
  trans {names names' : List String} {s t u : Server} (h : R names s t) (h' : R names' t u) :
    R (names ++ names') s u

namespace PostingRelation

variable {R : List String → Server → Server → Prop}

theorem set (h : PostingRelation R) (s : Server) (pv : String) (v : Value) :
    R [pv] s (s.set pv v) :=
  h.notify (fun q hq => by simp [hq]) (by simp [Registry.contains])

theorem amend (h : PostingRelation R) (f : Record → Record) (hp : s.records.contains pv) :
    R [pv] s (s.amend pv f) :=
  h.notify (fun q hq => by simp [hq]) (by simpa [Registry.contains] using hp)

theorem putRecord (h : PostingRelation R) (s : Server) (pv : String) (v : Value) :
    R (pv :: (s.links.find? pv).toList) s (s.putRecord pv v) := by
  simp only [Server.putRecord, links_set]
  cases s.links.find? pv
  case none => exact h.set s pv v
  case some readback => exact h.trans (h.set s pv v) (h.set (s.set pv v) readback v)

theorem put (h : PostingRelation R) (s : Server) (name : String) (v : Value) :
    R ((Operation.put name v).posts s) s (s.put name v).2 := by
  simp only [Operation.posts, Server.put]
  rcases hs : s.resolve? name with _ | ⟨base, r, field⟩
  case none => exact h.quiet rfl rfl rfl rfl
  case some =>
    let w : Server := { s with writes := s.writes ++ [(name, v)] }
    have hw : R [] s w := h.quiet rfl rfl rfl rfl
    obtain ⟨_, hr, _⟩ := resolve?_eq_some_iff.mp hs
    have hb : w.records.contains base := by simp [w, Registry.contains, hr]
    rcases field with _ | field
    case none => exact h.trans hw (h.putRecord w base v)
    cases field
    case some.simulatedSeverity =>
      cases Severity.ofValue? v
      case none => exact hw
      case some severity => exact h.trans hw (h.amend _ hb)
    case some.process => exact h.trans hw (h.amend _ hb)
    case some.severity | some.status => exact hw

theorem resetAll (h : PostingRelation R) {names : List String}
    (hn : ∀ pv ∈ names, s.records.contains pv) :
    R names s (s.resetAll names) := by
  induction names generalizing s
  case nil => exact h.quiet rfl rfl rfl rfl
  case cons pv names hi =>
    have ⟨hp, hn⟩ := List.forall_mem_cons.mp hn
    refine h.trans (h.amend Record.reset hp) (hi fun q hq => ?_)
    rw [contains_amend]
    exact hn q hq

theorem perform (h : PostingRelation R) {op : Operation} (hp : op.IsPlain) (hs : ¬op.IsSilent) :
    R (op.posts s) s (op.perform s) := by
  cases op
  case set pv v => exact h.set s pv v
  case setAlarm pv severity status =>
    by_cases hc : s.records.contains pv
    case pos =>
      simp only [Operation.posts, hc, if_true]
      exact h.amend _ hc
    case neg =>
      have hn : s.records.find? pv = none := by simpa [Registry.contains] using hc
      simp only [Operation.posts, hc, Operation.perform, setAlarm, amend_of_missing hn]
      exact h.quiet rfl rfl rfl rfl
  case put name v => exact h.put s name v
  case setOnDevice property v =>
    simp only [Operation.posts, Operation.perform, setOnDevice]
    cases s.bindings.find? property
    case none => exact h.quiet rfl rfl rfl rfl
    case some pv => exact h.set s pv v
  case runFunction name =>
    let t : Server := { s with functions := s.functions ++ [name] }
    have ht : R [] s t := h.quiet rfl rfl rfl rfl
    simp only [Operation.posts, Operation.perform, runFunction]
    split
    case isTrue =>
      exact h.trans ht (h.resetAll fun pv hm => (s.records.mem_keys_iff pv).mp hm)
    case isFalse => exact ht
  case link | bind => exact h.quiet rfl rfl rfl rfl
  case insert | insertUnreachable | remove | setSilently => exact absurd trivial hs
  case subscribe | unsubscribe | drain => exact absurd hp id

end PostingRelation

theorem Announces.postingRelation : PostingRelation Announces where
  quiet hm hr _ ha := .of_mail hm hr ha
  notify := .notify
  trans := .trans

theorem announces_perform {op : Operation} (hp : op.IsPlain) (hs : ¬op.IsSilent) :
    Announces (op.posts s) s (op.perform s) :=
  Announces.postingRelation.perform hp hs

theorem toMail_of_silent {op : Operation} (hs : op.IsSilent) :
    (op.perform s).toMail = s.toMail ∧ (op.perform s).agenda = s.agenda ∧ op.posts s = [] := by
  cases op
  case insert | insertUnreachable | remove | setSilently => exact ⟨rfl, rfl, rfl⟩
  all_goals exact absurd hs id

end Readback.Server
