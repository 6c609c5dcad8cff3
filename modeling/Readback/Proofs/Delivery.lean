import Readback.Proofs.Order

namespace Readback.Server

def Passive (s : Server) : Prop :=
  ∀ b ∈ s.subscribers, b.script = []

-- The last event that a subscriber knows of once all that is queued for it has been delivered.
def heard (id : SubscriptionId) (s : Server) : Option Event :=
  ((sentTo id s.pending).getLast?.map Notification.event).or (latest id s)

def eventOf? (s : Server) (pv : String) : Option Event :=
  (s.records.find? pv).map Record.event

def tell (s : Server) (n : Notification) : Server :=
  match s.subscriber? n.subscriber with
  | none => s
  | some b => (s.note (.started n)).note (.finished b.id)

def Entry.IsCall : Entry → Prop
  | .started _ | .finished _ => True
  | _ => False

variable {s t : Server} {pv : String} {id : SubscriptionId} {b : Subscriber} {n : Notification}
  {ns deferred : List Notification} {d : List Entry}

theorem call_of_passive {inner : Server → Server} (h : b.script = []) :
    call inner b n s = (s.note (.started n)).note (.finished b.id) := by
  simp [call, h]

theorem tell_eq (s : Server) (n : Notification) :
    ∃ d, (∀ e ∈ d, e.IsCall) ∧ s.tell n = { s with journal := d ++ s.journal } := by
  unfold tell
  split
  · exact ⟨[], by simp, rfl⟩
  · exact ⟨[_, _], by simp [Entry.IsCall], rfl⟩

theorem tellAll_eq (s : Server) (ns : List Notification) :
    ∃ d, (∀ e ∈ d, e.IsCall) ∧ ns.foldl tell s = { s with journal := d ++ s.journal } := by
  induction ns generalizing s
  case nil => exact ⟨[], by simp, rfl⟩
  case cons n ns hi =>
    have ⟨d, hd, hj⟩ := s.tell_eq n
    have ⟨d', hd', hj'⟩ := hi (s.tell n)
    refine ⟨d' ++ d, List.forall_mem_append.mpr ⟨hd', hd⟩, ?_⟩
    rw [List.foldl_cons, hj', hj, List.append_assoc]

theorem postings_of_calls (h : ∀ e ∈ d, e.IsCall) : postings d = [] := by
  refine List.eq_nil_iff_forall_not_mem.mpr fun n hn => ?_
  have ⟨_, hn⟩ := mem_postings.mp hn
  exact h _ hn

theorem passive_tell (h : s.Passive) (n : Notification) : (s.tell n).Passive := by
  have ⟨_, _, hj⟩ := s.tell_eq n
  rw [hj]
  exact h

theorem live_tell (n : Notification) : (s.tell n).Live id ↔ s.Live id := by
  have ⟨_, _, hj⟩ := s.tell_eq n
  rw [hj]
  exact Iff.rfl

theorem deliver_of_passive {inner : List SubscriptionId → Server → Server} (h : s.Passive)
    (n : Notification) : deliver inner [] (deferred, s) n = (deferred, s.tell n) := by
  simp only [deliver, tell]
  cases hb : s.subscriber? n.subscriber
  case none => rfl
  case some b => simp [call_of_passive (h b (mem_of_subscriber? hb).left)]

theorem deliverAll_of_passive {inner : List SubscriptionId → Server → Server} (h : s.Passive)
    (ns : List Notification) :
    ns.foldl (deliver inner []) (deferred, s) = (deferred, ns.foldl tell s) := by
  induction ns generalizing s
  case nil => rfl
  case cons n ns hi =>
    rw [List.foldl_cons, deliver_of_passive h, hi (passive_tell h n)]
    rfl

theorem drain_eq_of_passive (h : s.Passive) :
    s.drain = (s.pending.foldl tell s.take).putBack [] := by
  have ht : s.take.Passive := h
  rw [drain, drainWithin, deliverAll_of_passive ht]

theorem exists_drain_eq (h : s.Passive) :
    ∃ d, (∀ e ∈ d, e.IsCall) ∧ s.drain =
      { s with pending := [], journal := .putBack [] :: (d ++ .taken s.pending :: s.journal) } := by
  have ⟨d, hd, hj⟩ := s.take.tellAll_eq s.pending
  rw [drain_eq_of_passive h, hj]
  exact ⟨d, hd, rfl⟩

theorem told_tell (hl : s.Live id) (n : Notification) :
    sentTo id (deliveries (s.tell n).journal) =
      sentTo id (deliveries s.journal) ++ sentTo id [n] := by
  unfold tell
  split
  case h_1 hn =>
    have hn : n.subscriber ≠ id := fun he => not_live_of_subscriber? hn (he ▸ hl)
    simp [sentTo, hn]
  case h_2 => simp [note, Mail.note]

theorem told_tellAll (hl : s.Live id) (ns : List Notification) :
    sentTo id (deliveries (ns.foldl tell s).journal) =
      sentTo id (deliveries s.journal) ++ sentTo id ns := by
  induction ns generalizing s
  case nil => simp
  case cons n ns hi =>
    rw [List.foldl_cons, hi ((live_tell n).mpr hl), told_tell hl, sentTo_cons n ns,
      List.append_assoc]

theorem told_drain (h : s.Passive) (hl : s.Live id) :
    sentTo id (deliveries s.drain.journal) =
      sentTo id (deliveries s.journal) ++ sentTo id s.pending := by
  have ht := told_tellAll (s := s.take) hl s.pending
  rw [drain_eq_of_passive h]
  simpa [putBack, Mail.putBack, take, Mail.take] using ht

theorem sentTo_announce (m : Mail) (pv : String) (e : Event) (id : SubscriptionId) :
    ∃ ns, sentTo id (m.announce pv e).pending = sentTo id m.pending ++ ns ∧
      (∀ n ∈ ns, n.event = e) ∧ (ns = [] ↔ id ∉ m.listeners pv) := by
  unfold Mail.announce
  generalize m.listeners pv = ids
  induction ids generalizing m
  case nil => exact ⟨[], by simp⟩
  case cons i ids hi =>
    have ⟨ns, hs, he, hn⟩ := hi (m.post pv e i)
    let n : Notification := ⟨m.nextSerial, i, e⟩
    refine ⟨sentTo id [n] ++ ns, ?_, ?_, ?_⟩
    · rw [List.foldl_cons, hs, ← List.append_assoc, ← sentTo_append]
      rfl
    · intro x hx
      cases List.mem_append.mp hx
      case inl hx => exact List.mem_singleton.mp (mem_sentTo.mp hx).left ▸ rfl
      case inr hx => exact he x hx
    · by_cases hid : id = i
      · simp [sentTo, n, hid]
      · simp [sentTo, n, hid, hn, Ne.symm hid]

theorem latest_announce (m : Mail) (pv : String) (e : Event) :
    latest id { s with toMail := m.announce pv e } = latest id { s with toMail := m } := by
  unfold Mail.announce
  generalize m.listeners pv = ids
  induction ids generalizing m
  case nil => rfl
  case cons i ids hi => exact hi (m.post pv e i)

structure Mail.Listens (m : Mail) (b : Subscriber) : Prop where
  mem : b ∈ m.subscribers
  unique : ∀ b' ∈ m.subscribers, b'.id = b.id → b' = b

namespace Mail.Listens

variable {m m' : Mail}

theorem live (h : m.Listens b) : m.Live b.id := ⟨b, h.mem, rfl⟩

theorem congr (h : m.Listens b) (hs : m'.subscribers = m.subscribers) : m'.Listens b :=
  ⟨hs ▸ h.mem, hs ▸ h.unique⟩

theorem mem_listeners (h : m.Listens b) : b.id ∈ m.listeners pv ↔ b.pv = pv := by
  simp only [listeners, List.mem_map, List.mem_filter, beq_iff_eq]
  constructor
  case mp =>
    intro ⟨b', ⟨hb, hp⟩, he⟩
    rwa [← h.unique b' hb he]
  case mpr => exact fun hp => ⟨b, ⟨h.mem, hp⟩, rfl⟩

end Mail.Listens

theorem Mail.Registered.listens {m : Mail} (h : m.Registered) (hb : b ∈ m.subscribers) :
    m.Listens b where
  mem := hb
  unique b' hb' he := h.unique b' b (h.subscribed b' hb') (h.subscribed b hb) he

theorem subscribers_announce (m : Mail) (pv : String) (e : Event) :
    (m.announce pv e).subscribers = m.subscribers := by
  unfold Mail.announce
  generalize m.listeners pv = ids
  induction ids generalizing m
  case nil => rfl
  case cons i ids hi => exact hi (m.post pv e i)

theorem heard_notify (hb : s.Listens b) {e : Event} (he : s.eventOf? pv = some e) :
    heard b.id (s.notify pv) = if b.pv = pv then some e else heard b.id s := by
  obtain ⟨r, hr, rfl⟩ := Option.map_eq_some_iff.mp he
  have ⟨ns, hs, hn, hl⟩ := sentTo_announce s.toMail pv r.event b.id
  have ha : latest b.id { s with toMail := s.announce pv r.event } = latest b.id s :=
    latest_announce ..
  rw [hb.mem_listeners] at hl
  simp only [notify, hr, heard, ha]
  rw [hs, List.getLast?_append]
  by_cases hp : b.pv = pv
  case neg => simp [hl.mpr hp, hp]
  case pos =>
    have hne : ns ≠ [] := fun hnil => hl.mp hnil hp
    have ht : ns.getLast? = some (ns.getLast hne) := List.getLast?_eq_some_getLast hne
    simp [ht, hp, hn _ (List.getLast_mem hne)]

@[simp] theorem eventOf?_notify (s : Server) (pv q : String) :
    (s.notify pv).eventOf? q = s.eventOf? q := by
  unfold notify
  split <;> rfl

theorem subscribers_notify (s : Server) (pv : String) :
    (s.notify pv).subscribers = s.subscribers := by
  unfold notify
  split
  · rfl
  · exact subscribers_announce ..

theorem agenda_notify (s : Server) (pv : String) : (s.notify pv).agenda = s.agenda := by
  unfold notify
  split <;> rfl

theorem eventOf?_isSome : (s.eventOf? pv).isSome = s.records.contains pv := by
  simp [eventOf?, Registry.contains]

end Readback.Server
