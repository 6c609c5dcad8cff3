import Readback.Proofs.Reached

namespace Readback.Server

-- The subscriptions of a journal have different ids below the next one, and each event was posted
-- for a subscriber of its process variable.
structure Mail.Registered (m : Mail) : Prop where
  subscribed : ∀ b ∈ m.subscribers, .subscribed b ∈ m.journal
  below : ∀ b, .subscribed b ∈ m.journal → b.id < m.nextId
  unique : ∀ b b', .subscribed b ∈ m.journal → .subscribed b' ∈ m.journal → b.id = b'.id → b = b'
  posted : ∀ pv n, .posted pv n ∈ m.journal →
    ∃ b, .subscribed b ∈ m.journal ∧ b.pv = pv ∧ b.id = n.subscriber

namespace Mail

variable {m : Mail} {b : Subscriber} {id : SubscriptionId} {e : Entry}

theorem registered_empty : empty.Registered := by
  constructor <;> simp [empty]

namespace Registered

theorem cons (h : m.Registered) {m' : Mail} (hs : m'.subscribers ⊆ m.subscribers)
    (hi : m'.nextId = m.nextId) (hj : m'.journal = e :: m.journal) (hb : ∀ b, e ≠ .subscribed b)
    (hp : ∀ pv n, e = .posted pv n → ∃ b ∈ m.subscribers, b.pv = pv ∧ b.id = n.subscriber) :
    m'.Registered := by
  have hm b : .subscribed b ∈ m'.journal ↔ .subscribed b ∈ m.journal := by
    simp [hj, (hb b).symm]
  constructor
  case subscribed => exact fun b hb => (hm b).mpr (h.subscribed b (hs hb))
  case below => exact fun b hb => hi ▸ h.below b ((hm b).mp hb)
  case unique => exact fun b b' hb hb' => h.unique b b' ((hm b).mp hb) ((hm b').mp hb')
  case posted =>
    intro pv n hn
    rw [hj] at hn
    cases List.mem_cons.mp hn
    case inl hn =>
      have ⟨b, hb, he⟩ := hp pv n hn.symm
      exact ⟨b, (hm b).mpr (h.subscribed b hb), he⟩
    case inr hn =>
      have ⟨b, hb, he⟩ := h.posted pv n hn
      exact ⟨b, (hm b).mpr hb, he⟩

theorem subscribe (h : m.Registered) {pv : String} {handle : Option String}
    {script : List Action} : (m.subscribe pv handle script).Registered := by
  have hm b : .subscribed b ∈ (m.subscribe pv handle script).journal ↔
      b = ⟨m.nextId, pv, handle, script⟩ ∨ .subscribed b ∈ m.journal := by
    simp [Mail.subscribe]
  constructor
  case subscribed =>
    intro b hb
    rw [hm]
    cases List.mem_append.mp hb
    case inl hb => exact .inr (h.subscribed b hb)
    case inr hb => exact .inl (List.mem_singleton.mp hb)
  case below =>
    intro b hb
    cases (hm b).mp hb
    case inl hb => exact hb ▸ Nat.lt_succ_self _
    case inr hb => exact Nat.lt_succ_of_lt (h.below b hb)
  case unique =>
    intro b b' hb hb' he
    have old {b : Subscriber} (hb : .subscribed b ∈ m.journal) : b.id ≠ m.nextId :=
      Nat.ne_of_lt (h.below b hb)
    cases (hm b).mp hb <;> cases (hm b').mp hb'
    case inl.inl hb hb' => exact hb.trans hb'.symm
    case inl.inr hb hb' => exact absurd (he.symm.trans (congrArg _ hb)) (old hb')
    case inr.inl hb hb' => exact absurd (he.trans (congrArg _ hb')) (old hb)
    case inr.inr hb hb' => exact h.unique b b' hb hb' he
  case posted =>
    intro pv n hn
    have hn : .posted pv n ∈ m.journal := by simpa [Mail.subscribe] using hn
    obtain ⟨b, hb, he⟩ := h.posted pv n hn
    exact ⟨b, (hm b).mpr (.inr hb), he⟩

end Registered
end Mail

namespace Traffic

variable {c c' : Traffic} {b : Subscriber} {n : Notification} {id : SubscriptionId} {e : Entry}
  {j : List Entry}

theorem Step.registered (h : Step c c') (hr : c.mail.Registered) : c'.mail.Registered := by
  cases h
  case subscribed => exact hr.subscribe
  case dropped | deferred => exact hr
  case posted b event hb =>
    refine hr.cons (List.Subset.refl _) rfl rfl (by simp) fun pv n hn => ?_
    cases hn
    exact ⟨b, hb, rfl, rfl⟩
  case cancelled =>
    exact hr.cons (fun _ hb => (List.mem_filter.mp hb).left) rfl rfl (by simp) (by simp)
  all_goals exact hr.cons (List.Subset.refl _) rfl rfl (by simp) (by simp)

namespace Reachable

theorem empty : Reachable .empty := .refl

theorem step (h : Reachable c) (hs : Step c c') : Reachable c' := .tail h hs

theorem registered (h : Reachable c) : c.mail.Registered := by
  induction h
  case refl => exact Mail.registered_empty
  case tail hs hi => exact hs.registered hi

theorem posted_lt (h : Reachable c) (hn : n ∈ postings c.mail.journal) :
    n.subscriber < c.mail.nextId :=
  have ⟨_, hn⟩ := mem_postings.mp hn
  have ⟨b, hb, _, he⟩ := h.registered.posted _ _ hn
  he ▸ h.registered.below b hb

theorem serial_lt (h : Reachable c) (hn : n ∈ postings c.mail.journal) :
    n.serial < c.mail.nextSerial := by
  induction h
  case refl => exact absurd hn List.not_mem_nil
  case tail hs hi =>
    cases hs.effect
    case posted hl hk hs hp _ _ =>
      rw [hs]
      rw [hp] at hn
      cases List.mem_append.mp hn
      case inl hn => exact Nat.lt_succ_of_lt (hi hn)
      case inr hn => exact List.mem_singleton.mp hn ▸ hk ▸ Nat.lt_succ_self _
    case started hs hp _ _ => exact hs ▸ hi (hp ▸ hn)
    case kept hs hp _ _ _ => exact hs ▸ hi (hp ▸ hn)

theorem postings_sorted (h : Reachable c) :
    (postings c.mail.journal).Pairwise fun n m => n.serial < m.serial := by
  induction h
  case refl => exact .nil
  case tail h hs hi =>
    cases hs.effect
    case posted hl hk _ hp _ _ =>
      rw [hp, List.pairwise_append]
      refine ⟨hi, List.pairwise_singleton .., fun m hm n hn => ?_⟩
      rw [List.mem_singleton.mp hn, hk]
      exact serial_lt h hm
    case started hp _ _ => exact hp ▸ hi
    case kept hp _ _ _ => exact hp ▸ hi

theorem serial_lt_of_sublist (h : Reachable c) {n' : Notification}
    (hn : [n, n'].Sublist (postings c.mail.journal)) : n.serial < n'.serial := by
  have hp := h.postings_sorted.sublist hn
  simpa using hp

theorem postings_nodup (h : Reachable c) : (postings c.mail.journal).Nodup := by
  refine h.postings_sorted.imp fun {n m} hn he => ?_
  exact Nat.ne_of_lt hn (congrArg _ he)

theorem queue_sublist_postings (h : Reachable c) : c.queue.Sublist (postings c.mail.journal) := by
  induction h
  case refl => exact .refl _
  case tail hs hi =>
    cases hs.effect
    case posted hp _ hq =>
      rw [hp, hq]
      exact hi.append_right _
    case started ht _ _ _ _ hp _ hq =>
      rw [queue_of_waiting ht] at hi
      rw [hp, hq]
      exact .trans (.append_left (List.sublist_cons_self ..) _) hi
    case kept hp _ hq _ =>
      rw [hp]
      exact hq.trans hi

theorem deliveries_subset_postings (h : Reachable c) :
    deliveries c.mail.journal ⊆ postings c.mail.journal := by
  induction h
  case refl => exact List.Subset.refl _
  case tail h hs hi =>
    cases hs.effect
    case posted hp hd _ =>
      rw [hp, hd]
      exact List.subset_append_of_subset_left _ hi
    case started ht _ _ _ _ hp hd _ =>
      rw [hp, hd]
      refine List.append_subset.mpr ⟨hi, List.cons_subset.mpr ⟨?_, List.nil_subset _⟩⟩
      apply (queue_sublist_postings h).subset
      simp [queue_of_waiting ht]
    case kept hp hd _ _ =>
      rw [hp, hd]
      exact hi

end Reachable

theorem Step.live (h : Step c c') (hl : c'.mail.Live id) :
    c.mail.Live id ∨ id = c.mail.nextId ∧ c'.queue = c.queue ∧
      postings c'.mail.journal = postings c.mail.journal ∧
      deliveries c'.mail.journal = deliveries c.mail.journal := by
  cases h
  case subscribed =>
    cases Mail.live_subscribe.mp hl
    case inl hl => exact .inl hl
    case inr hi => exact .inr ⟨hi, rfl, by simp [Mail.subscribe]⟩
  case cancelled => exact .inl (Mail.live_unsubscribe.mp hl).left
  all_goals exact .inl hl

theorem Reachable.sentTo_nextId (h : Reachable c) :
    sentTo c.mail.nextId (postings c.mail.journal) = [] ∧
      sentTo c.mail.nextId (deliveries c.mail.journal) = [] ∧
      sentTo c.mail.nextId c.queue = [] := by
  have none {ns} (hn : ns ⊆ postings c.mail.journal) : sentTo c.mail.nextId ns = [] :=
    sentTo_eq_nil.mpr fun _ hm => Nat.ne_of_lt (h.posted_lt (hn hm))
  exact ⟨none (List.Subset.refl _), none h.deliveries_subset_postings,
    none h.queue_sublist_postings.subset⟩

theorem Reachable.conserved (h : Reachable c) (hl : c.mail.Live id) :
    (sentTo id (postings c.mail.journal)).Perm
      (sentTo id (deliveries c.mail.journal) ++ sentTo id c.queue) := by
  induction h
  case refl => exact absurd hl (by simp [Mail.Live, Traffic.empty, Mail.empty])
  case tail c c' h hs hi =>
    cases hs.live hl
    case inr hf =>
      obtain ⟨he, hq, hp, hd⟩ := hf
      obtain ⟨hp', hd', hq'⟩ := Reachable.sentTo_nextId h
      rw [hp, hd, hq, he, hp', hd', hq']
      exact .nil
    case inl hl₀ =>
      have hi := hi hl₀
      cases hs.effect
      case posted hp hd hq =>
        rw [hp, hd, hq, sentTo_append, sentTo_append, ← List.append_assoc]
        exact hi.append_right _
      case started ht _ _ _ _ hp hd hq =>
        rw [queue_of_waiting ht] at hi
        rw [hp, hd, hq]
        rw [← sentTo_append] at hi ⊢
        refine hi.trans (.filter _ ?_)
        rw [List.append_assoc _ [_]]
        exact List.perm_middle.append_left _
      case kept hp hd _ hk =>
        rw [hp, hd, hk id hl]
        exact hi

theorem Reachable.not_delivered (h : Reachable c) (hl : c.mail.Live n.subscriber)
    (hn : n ∈ c.queue) : n ∉ deliveries c.mail.journal := by
  have hp : (sentTo n.subscriber (postings c.mail.journal)).Nodup := h.postings_nodup.filter _
  have hd := List.nodup_append.mp ((h.conserved hl).nodup_iff.mp hp)
  intro hm
  exact hd.right.right n (mem_sentTo.mpr ⟨hm, rfl⟩) n (mem_sentTo.mpr ⟨hn, rfl⟩) rfl

theorem Step.journal (h : Step c c') :
    c'.mail.journal = c.mail.journal ∨ ∃ e, c'.mail.journal = e :: c.mail.journal := by
  cases h
  case dropped | deferred => exact .inl rfl
  all_goals exact .inr ⟨_, rfl⟩

structure Wrote (e : Entry) (j : List Entry) (c c₁ c₂ : Traffic) : Prop where
  reachable : Reachable c₁
  before : c₁.mail.journal = j
  step : Step c₁ c₂
  after : c₂.mail.journal = e :: j
  steps : Steps c₂ c

namespace Reachable

theorem exists_wrote (h : Reachable c) (hj : e :: j <:+ c.mail.journal) :
    ∃ c₁ c₂, Wrote e j c c₁ c₂ := by
  induction h
  case refl => exact absurd (List.suffix_nil.mp hj) (List.cons_ne_nil _ _)
  case tail c c' h hs hi =>
    have earlier (hj : e :: j <:+ c.mail.journal) : ∃ c₁ c₂, Wrote e j c' c₁ c₂ :=
      have ⟨c₁, c₂, hw⟩ := hi hj
      ⟨c₁, c₂, { hw with steps := hw.steps.tail hs }⟩
    cases hs.journal
    case inl he => exact earlier (he ▸ hj)
    case inr he =>
      have ⟨_, he⟩ := he
      rw [he] at hj
      cases List.suffix_cons_iff.mp hj
      case inr hj => exact earlier hj
      case inl hj =>
        cases hj
        exact ⟨c, c', h, rfl, hs, he, .refl⟩

variable {after before : List Entry}

theorem posted_before (h : Reachable c) (hj : .subscribed b :: before <:+ c.mail.journal)
    (hn : n ∈ postings before) : n.subscriber < b.id := by
  have ⟨c₁, c₂, hw⟩ := h.exists_wrote hj
  have hn := hw.reachable.posted_lt (hw.before ▸ hn)
  have he : c₂.mail.journal = .subscribed b :: c₁.mail.journal := hw.before ▸ hw.after
  cases hw.step
  case subscribed =>
    cases he
    exact hn
  all_goals simp [Mail.post, Mail.unsubscribe, Mail.note, Mail.take, Mail.putBack] at he

theorem delivered_before (h : Reachable c) (hj : .subscribed b :: before <:+ c.mail.journal)
    (hn : n ∈ deliveries before) : n.subscriber < b.id := by
  have ⟨_, _, hw⟩ := h.exists_wrote hj
  exact h.posted_before hj (hw.before ▸ hw.reachable.deliveries_subset_postings (hw.before ▸ hn))

theorem posted_pv (h : Reachable c) (hb : .subscribed b ∈ c.mail.journal) {pv : String}
    (hn : .posted pv n ∈ c.mail.journal) (hi : n.subscriber = b.id) : pv = b.pv := by
  have ⟨b', hb', hp, he⟩ := h.registered.posted pv n hn
  rw [← hp, h.registered.unique b' b hb' hb (he.trans hi)]

theorem conserved_since (h : Reachable c)
    (hj : c.mail.journal = after ++ .subscribed b :: before) (hb : b ∈ c.mail.subscribers) :
    (sentTo b.id (postings after)).Perm
      (sentTo b.id (deliveries after) ++ sentTo b.id c.queue) := by
  have hc := h.conserved ⟨b, hb, rfl⟩
  have hs : .subscribed b :: before <:+ c.mail.journal := hj ▸ List.suffix_append ..
  have hp : sentTo b.id (postings before) = [] :=
    sentTo_eq_nil.mpr fun n hn => Nat.ne_of_lt (h.posted_before hs hn)
  have hd : sentTo b.id (deliveries before) = [] :=
    sentTo_eq_nil.mpr fun n hn => Nat.ne_of_lt (h.delivered_before hs hn)
  simpa [hj, hp, hd] using hc

theorem delivered_since (h : Reachable c)
    (hj : c.mail.journal = after ++ .subscribed b :: before)
    (hn : n ∈ deliveries c.mail.journal) (hi : n.subscriber = b.id) :
    .posted b.pv n ∈ after ∧ n ∉ postings before := by
  have hs : .subscribed b :: before <:+ c.mail.journal := hj ▸ List.suffix_append ..
  have hb : .subscribed b ∈ c.mail.journal := hs.subset List.mem_cons_self
  have ⟨pv, hp⟩ := mem_postings.mp (h.deliveries_subset_postings hn)
  have hf : n ∉ postings before := fun hm => Nat.ne_of_lt (h.posted_before hs hm) hi
  refine ⟨?_, hf⟩
  cases h.posted_pv hb hp hi
  rw [hj] at hp
  cases List.mem_append.mp hp
  case inl hp => exact hp
  case inr hp =>
    cases hp
    case tail hp => exact absurd (mem_postings.mpr ⟨_, hp⟩) hf

end Reachable
end Traffic

-- Between operations, what has been posted for a subscriber since it subscribed has been delivered
-- to it or is queued, each notification once. Nothing else is ever delivered to it.
theorem Reached.notifications_conserved {s : Server} (h : Reached s) :
    (∀ b ∈ s.subscribers, .subscribed b ∈ s.journal) ∧
    ∀ after b before, s.journal = after ++ .subscribed b :: before →
      (b ∈ s.subscribers → (sentTo b.id (postings after)).Perm
        (sentTo b.id (deliveries after) ++ sentTo b.id s.pending)) ∧
      ∀ n ∈ deliveries s.journal, n.subscriber = b.id →
        .posted b.pv n ∈ after ∧ n ∉ postings before ∧
          ∀ pv, .posted pv n ∈ s.journal → pv = b.pv := by
  have hr := h.reachable
  refine ⟨hr.registered.subscribed, fun after b before hj => ⟨hr.conserved_since hj, ?_⟩⟩
  intro n hn hi
  have ⟨ha, hb⟩ := hr.delivered_since hj hn hi
  have hs : .subscribed b ∈ s.journal := hj ▸ List.mem_append_right _ List.mem_cons_self
  exact ⟨ha, hb, fun pv hp => hr.posted_pv hs hp hi⟩

-- A subscriber posts to itself and drains: its own event is put back and stays queued.
theorem notifications_conserved_of_nested_drain :
    let s := run [.insert "P" (.int 0), .subscribe "P" none [.set "P" (some (.int 7)), .drain],
      .set "P" (.int 1), .drain] .empty
    ∃ b after, s.subscribers = [b] ∧ s.journal = after ++ [.subscribed b] ∧
      (sentTo b.id s.pending).length = 1 ∧ (sentTo b.id (deliveries after)).length = 1 ∧
      (sentTo b.id (postings after)).Perm
        (sentTo b.id (deliveries after) ++ sentTo b.id s.pending) := by
  intro s
  have ⟨_, hc⟩ := (Reached.empty.run _ : Reached s).notifications_conserved
  exact ⟨⟨1, "P", none, _⟩, s.journal.dropLast, rfl, rfl, rfl, rfl,
    (hc _ _ _ rfl).left List.mem_cons_self⟩

end Readback.Server
