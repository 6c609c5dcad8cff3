import Readback.Server.Mail

namespace Readback.Server

def Mail.Live (m : Mail) (id : SubscriptionId) : Prop :=
  ∃ b ∈ m.subscribers, b.id = id

structure Drain where
  taken : List Notification
  -- What it had to put off.
  deferred : List Notification
  -- What it has not come to yet.
  waiting : List Notification
  -- The subscriber that it is calling.
  running : Option SubscriptionId

def busy (ds : List Drain) : List SubscriptionId :=
  ds.filterMap Drain.running

-- What is left of what drains took. The innermost drain comes first, and what it has is the newest.
def held : List Drain → List Notification
  | [] => []
  | d :: ds => held ds ++ (d.deferred ++ d.waiting)

structure Traffic where
  drains : List Drain
  mail : Mail

namespace Traffic

def empty : Traffic := ⟨[], .empty⟩

def queue (c : Traffic) : List Notification :=
  held c.drains ++ c.mail.pending

inductive Step : Traffic → Traffic → Prop
  | posted {ds m b} (event : Event) (hb : b ∈ m.subscribers) :
    Step ⟨ds, m⟩ ⟨ds, m.post b.pv event b.id⟩
  | subscribed {ds m} (pv : String) (handle : Option String) (script : List Action) :
    Step ⟨ds, m⟩ ⟨ds, m.subscribe pv handle script⟩
  | cancelled {ds m} (id : SubscriptionId) : Step ⟨ds, m⟩ ⟨ds, m.unsubscribe id⟩
  | got {ds m} (id : SubscriptionId) (result : Except AccessError Value) :
    Step ⟨ds, m⟩ ⟨ds, m.note (.got id result)⟩
  | taken {ds m} : Step ⟨ds, m⟩ ⟨⟨m.pending, [], m.pending, none⟩ :: ds, m.take⟩
  | dropped {t p n w ds m} (hl : ¬m.Live n.subscriber) :
    Step ⟨⟨t, p, n :: w, none⟩ :: ds, m⟩ ⟨⟨t, p, w, none⟩ :: ds, m⟩
  | deferred {t p n w ds m} (hl : m.Live n.subscriber) (hb : n.subscriber ∈ busy ds) :
    Step ⟨⟨t, p, n :: w, none⟩ :: ds, m⟩ ⟨⟨t, p ++ [n], w, none⟩ :: ds, m⟩
  | started {t p n w ds m} (hl : m.Live n.subscriber) (hb : n.subscriber ∉ busy ds) :
    Step ⟨⟨t, p, n :: w, none⟩ :: ds, m⟩ ⟨⟨t, p, w, some n.subscriber⟩ :: ds, m.note (.started n)⟩
  | finished {t p w id ds m} :
    Step ⟨⟨t, p, w, some id⟩ :: ds, m⟩ ⟨⟨t, p, w, none⟩ :: ds, m.note (.finished id)⟩
  | returned {t p ds m} : Step ⟨⟨t, p, [], none⟩ :: ds, m⟩ ⟨ds, m.putBack p⟩

inductive Steps : Traffic → Traffic → Prop
  | refl {c} : Steps c c
  | tail {c₁ c₂ c₃} : Steps c₁ c₂ → Step c₂ c₃ → Steps c₁ c₃

namespace Steps

variable {c₁ c₂ c₃ : Traffic}

theorem single (h : Step c₁ c₂) : Steps c₁ c₂ := .tail .refl h

theorem trans (h₁ : Steps c₁ c₂) (h₂ : Steps c₂ c₃) : Steps c₁ c₃ := by
  induction h₂
  case refl => exact h₁
  case tail hs hi => exact .tail hi hs

theorem head (h₁ : Step c₁ c₂) (h₂ : Steps c₂ c₃) : Steps c₁ c₃ :=
  (single h₁).trans h₂

end Steps

def Reachable (c : Traffic) : Prop := Steps empty c

end Traffic

@[simp] def Entry.posted? : Entry → Option Notification
  | .posted _ n => some n
  | _ => none

@[simp] def Entry.started? : Entry → Option Notification
  | .started n => some n
  | _ => none

def postings (journal : List Entry) : List Notification :=
  journal.reverse.filterMap Entry.posted?

def deliveries (journal : List Entry) : List Notification :=
  journal.reverse.filterMap Entry.started?

def sentTo (id : SubscriptionId) (ns : List Notification) : List Notification :=
  ns.filter fun n => n.subscriber == id

section

variable {id : SubscriptionId} {n : Notification} {ns : List Notification} {j : List Entry}

theorem suffix_append_cases {α : Type} {k before after : List α} (h : k <:+ after ++ before) :
    k <:+ before ∨ ∃ a k', k = a :: (k' ++ before) ∧ a :: k' <:+ after := by
  have ⟨x, hx⟩ := h
  rcases List.append_eq_append_iff.mp hx with ⟨y, rfl, hy⟩ | ⟨y, rfl, hy⟩
  · cases y
    case nil => exact .inl (hy ▸ List.suffix_refl _)
    case cons a y => exact .inr ⟨a, y, hy, List.suffix_append ..⟩
  · exact .inl ⟨y, hy.symm⟩

theorem suffix_of_not_mem {α : Type} {a : α} {k before after : List α}
    (h : a :: k <:+ after ++ before) (ha : a ∉ after) : a :: k <:+ before := by
  rcases suffix_append_cases h with h | ⟨b, k', he, hs⟩
  · exact h
  · cases he
    exact absurd (hs.subset List.mem_cons_self) ha

@[simp] theorem sentTo_nil : sentTo id [] = [] := rfl

@[simp] theorem sentTo_append (ms ns : List Notification) :
    sentTo id (ms ++ ns) = sentTo id ms ++ sentTo id ns :=
  List.filter_append ms ns

theorem sentTo_cons (n : Notification) (ns : List Notification) :
    sentTo id (n :: ns) = sentTo id [n] ++ sentTo id ns :=
  sentTo_append [n] ns

theorem mem_sentTo : n ∈ sentTo id ns ↔ n ∈ ns ∧ n.subscriber = id := by
  simp [sentTo]

theorem sentTo_eq_nil : sentTo id ns = [] ↔ ∀ n ∈ ns, n.subscriber ≠ id := by
  simp [sentTo]

theorem sentTo_cons_of_ne (h : n.subscriber ≠ id) : sentTo id (n :: ns) = sentTo id ns := by
  simp [sentTo, h]

theorem sentTo_remove {id' : SubscriptionId} (h : id ≠ id') :
    sentTo id (ns.filter fun n => n.subscriber != id') = sentTo id ns := by
  rw [sentTo, List.filter_filter, sentTo]
  refine List.filter_congr fun n _ => ?_
  by_cases hn : n.subscriber = id <;> simp [hn, h]

@[simp] theorem postings_nil : postings [] = [] := rfl

@[simp] theorem deliveries_nil : deliveries [] = [] := rfl

@[simp] theorem postings_cons (e : Entry) :
    postings (e :: j) = postings j ++ e.posted?.toList := by
  cases e <;> simp [postings, Entry.posted?]

@[simp] theorem deliveries_cons (e : Entry) :
    deliveries (e :: j) = deliveries j ++ e.started?.toList := by
  cases e <;> simp [deliveries, Entry.started?]

@[simp] theorem postings_append (after before : List Entry) :
    postings (after ++ before) = postings before ++ postings after := by
  simp [postings]

@[simp] theorem deliveries_append (after before : List Entry) :
    deliveries (after ++ before) = deliveries before ++ deliveries after := by
  simp [deliveries]

theorem mem_postings : n ∈ postings j ↔ ∃ pv, .posted pv n ∈ j := by
  simp only [postings, List.mem_filterMap, List.mem_reverse]
  constructor
  case mp =>
    intro ⟨e, he, h⟩
    cases e <;> cases h
    exact ⟨_, he⟩
  case mpr => exact fun ⟨pv, h⟩ => ⟨_, h, rfl⟩

theorem mem_deliveries : n ∈ deliveries j ↔ .started n ∈ j := by
  simp only [deliveries, List.mem_filterMap, List.mem_reverse]
  constructor
  case mp =>
    intro ⟨e, he, h⟩
    cases e <;> cases h
    exact he
  case mpr => exact fun h => ⟨_, h, rfl⟩

end

namespace Mail

variable {m : Mail} {id : SubscriptionId}

theorem live_subscribe {pv : String} {handle : Option String} {script : List Action} :
    (m.subscribe pv handle script).Live id ↔ m.Live id ∨ id = m.nextId := by
  simp [Live, subscribe, or_and_right, exists_or, eq_comm]

theorem live_unsubscribe {id' : SubscriptionId} :
    (m.unsubscribe id').Live id ↔ m.Live id ∧ id ≠ id' := by
  simp only [Live, unsubscribe, List.mem_filter, bne_iff_ne]
  constructor
  case mp =>
    intro ⟨b, ⟨hb, hn⟩, he⟩
    exact ⟨⟨b, hb, he⟩, he ▸ hn⟩
  case mpr =>
    intro ⟨⟨b, hb, he⟩, hn⟩
    exact ⟨b, ⟨hb, he ▸ hn⟩, he⟩

end Mail

namespace Traffic

variable {c c' : Traffic}

inductive Effect (c c' : Traffic) : Prop
  | posted {n} (hl : c.mail.Live n.subscriber) (hn : n.serial = c.mail.nextSerial)
    (hs : c'.mail.nextSerial = c.mail.nextSerial + 1)
    (hp : postings c'.mail.journal = postings c.mail.journal ++ [n])
    (hd : deliveries c'.mail.journal = deliveries c.mail.journal) (hq : c'.queue = c.queue ++ [n])
  | started {t p n w ds} (ht : c.drains = ⟨t, p, n :: w, none⟩ :: ds)
    (hl : c.mail.Live n.subscriber) (hb : n.subscriber ∉ busy ds)
    (hj : c'.mail.journal = .started n :: c.mail.journal)
    (hs : c'.mail.nextSerial = c.mail.nextSerial)
    (hp : postings c'.mail.journal = postings c.mail.journal)
    (hd : deliveries c'.mail.journal = deliveries c.mail.journal ++ [n])
    (hq : c'.queue = held ds ++ p ++ (w ++ c.mail.pending))
  | kept (hs : c'.mail.nextSerial = c.mail.nextSerial)
    (hp : postings c'.mail.journal = postings c.mail.journal)
    (hd : deliveries c'.mail.journal = deliveries c.mail.journal) (hq : c'.queue.Sublist c.queue)
    (hk : ∀ id, c'.mail.Live id → sentTo id c'.queue = sentTo id c.queue)

theorem queue_of_waiting {t p n w ds} (ht : c.drains = ⟨t, p, n :: w, none⟩ :: ds) :
    c.queue = held ds ++ p ++ n :: (w ++ c.mail.pending) := by
  simp [queue, ht, held]

theorem Effect.of_queue_eq (hs : c'.mail.nextSerial = c.mail.nextSerial)
    (hp : postings c'.mail.journal = postings c.mail.journal)
    (hd : deliveries c'.mail.journal = deliveries c.mail.journal) (hq : c'.queue = c.queue) :
    Effect c c' :=
  .kept hs hp hd (hq ▸ .refl _) fun _ _ => by rw [hq]

theorem Step.effect (h : Step c c') : Effect c c' := by
  cases h
  case posted b event hb =>
    exact .posted ⟨b, hb, rfl⟩ rfl rfl (postings_cons _) (by simp [Mail.post])
      (List.append_assoc ..).symm
  case cancelled id =>
    refine .kept rfl (by simp [Mail.unsubscribe]) (by simp [Mail.unsubscribe])
      (List.filter_sublist.append_left _) fun id' hl => ?_
    have ⟨_, hn⟩ := Mail.live_unsubscribe.mp hl
    simp only [queue, sentTo_append, Mail.unsubscribe, sentTo_remove hn]
  case started hl hb =>
    exact .started rfl hl hb rfl rfl (by simp [Mail.note]) (deliveries_cons _)
      (by simp [queue, held, Mail.note])
  case dropped t p n w ds m hl =>
    refine .kept rfl rfl rfl ?_ fun id hl' => ?_
    · simp [queue, held]
    · have hn : n.subscriber ≠ id := fun hn => hl (hn ▸ hl')
      simp [queue, held, sentTo_cons_of_ne hn]
  all_goals
    refine .of_queue_eq (by rfl) ?_ ?_ ?_
    all_goals simp [queue, held, Mail.note, Mail.subscribe, Mail.take, Mail.putBack]

end Traffic
end Readback.Server
