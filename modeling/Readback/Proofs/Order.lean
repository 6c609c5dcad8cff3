import Readback.Proofs.Conservation

namespace Readback.Server

-- What the drains that go on have taken, as a journal tells. The innermost drain comes first.
def openDrains : List Entry → List (List Notification)
  | [] => []
  | .taken ns :: j => ns :: openDrains j
  | .putBack _ :: j => (openDrains j).tail
  | _ :: j => openDrains j

-- A drain that waits for one inside it has taken a notification and has not delivered it.
def HeldBack (n : Notification) (journal : List Entry) : Prop :=
  (∃ ns ∈ (openDrains journal).tail, n ∈ ns) ∧ n ∉ deliveries journal

-- Whenever something is delivered to a subscriber, no outer drain holds anything back for it.
def Undisturbed (id : SubscriptionId) (journal : List Entry) : Prop :=
  ∀ n earlier, .started n :: earlier <:+ journal → n.subscriber = id →
    ∀ m, HeldBack m earlier → m.subscriber ≠ id

namespace Traffic

structure Fits (d : Drain) (outer : List Drain) (m : Mail) : Prop where
  posted : d.taken ⊆ postings m.journal
  taken : d.deferred ++ d.waiting ⊆ d.taken
  accounted : ∀ n ∈ d.taken, m.Live n.subscriber →
    n ∈ d.deferred ++ d.waiting ∨ n ∈ deliveries m.journal
  busy : ∀ n ∈ d.deferred, n.subscriber ∈ busy outer

def AllFit : List Drain → Mail → Prop
  | [], _ => True
  | d :: ds, m => Fits d ds m ∧ AllFit ds m

structure Grows (m m' : Mail) : Prop where
  posted : postings m.journal <+: postings m'.journal
  delivered : deliveries m.journal <+: deliveries m'.journal
  live : ∀ n ∈ postings m.journal, m'.Live n.subscriber → m.Live n.subscriber

variable {c c' : Traffic} {d : Drain} {ds : List Drain} {m m' : Mail} {n : Notification}
  {id : SubscriptionId}

theorem Fits.grows (h : Fits d ds m) (hg : Grows m m') : Fits d ds m' where
  posted := List.Subset.trans h.posted hg.posted.subset
  taken := h.taken
  accounted n hn hl :=
    (h.accounted n hn (hg.live n (h.posted hn) hl)).imp_right (hg.delivered.subset ·)
  busy := h.busy

theorem Fits.next {t p w : List Notification} {running : Option SubscriptionId}
    (h : Fits ⟨t, p, n :: w, none⟩ ds m) (hg : Grows m m')
    (hn : m'.Live n.subscriber → n ∈ deliveries m'.journal) : Fits ⟨t, p, w, running⟩ ds m' where
  posted := List.Subset.trans h.posted hg.posted.subset
  taken := fun x hx => h.taken (by
    simp at hx ⊢
    exact hx.imp_right .inr)
  accounted x hx hl := by
    cases h.accounted x hx (hg.live x (h.posted hx) hl)
    case inr hx => exact .inr (hg.delivered.subset hx)
    case inl hx =>
      by_cases he : x = n
      · exact .inr (he ▸ hn (he ▸ hl))
      · exact .inl (by simpa [he] using hx)
  busy := h.busy

theorem AllFit.grows (h : AllFit ds m) (hg : Grows m m') : AllFit ds m' := by
  induction ds
  case nil => trivial
  case cons hi => exact ⟨h.left.grows hg, hi h.right⟩

theorem AllFit.mem_taken (h : AllFit ds m) (hn : n ∈ held ds) :
    ∃ ns ∈ ds.map Drain.taken, n ∈ ns := by
  induction ds
  case nil => exact absurd hn List.not_mem_nil
  case cons d ds hi =>
    cases List.mem_append.mp hn
    case inl hn =>
      have ⟨ns, hns, hn⟩ := hi h.right hn
      exact ⟨ns, List.mem_cons_of_mem _ hns, hn⟩
    case inr hn => exact ⟨d.taken, List.mem_cons_self, h.left.taken hn⟩

theorem AllFit.mem_held (h : AllFit ds m) (hl : m.Live n.subscriber)
    {ns : List Notification} (hns : ns ∈ ds.map Drain.taken) (hn : n ∈ ns)
    (hd : n ∉ deliveries m.journal) : n ∈ held ds := by
  induction ds
  case nil => exact absurd hns List.not_mem_nil
  case cons d ds hi =>
    cases List.mem_cons.mp hns
    case inl he =>
      exact List.mem_append_right _ ((h.left.accounted n (he ▸ hn) hl).resolve_right hd)
    case inr hns => exact List.mem_append_left _ (hi h.right hns)

theorem Reachable.grows (h : Reachable c) (hs : Step c c') : Grows c.mail c'.mail := by
  have live n (hn : n ∈ postings c.mail.journal) (hl : c'.mail.Live n.subscriber) :
      c.mail.Live n.subscriber := by
    cases hs.live hl
    case inl hl => exact hl
    case inr he => exact absurd he.left (Nat.ne_of_lt (h.posted_lt hn))
  cases hs.effect
  case posted hp hd _ => exact ⟨by simp [hp], by simp [hd], live⟩
  case started hp hd _ => exact ⟨by simp [hp], by simp [hd], live⟩
  case kept hp hd _ _ => exact ⟨by simp [hp], by simp [hd], live⟩

theorem Step.allFit (hs : Step c c') (h : Reachable c) (hf : AllFit c.drains c.mail) :
    AllFit c'.drains c'.mail := by
  have hg := h.grows hs
  cases hs
  case posted | subscribed | cancelled | got => exact hf.grows hg
  case taken ds m =>
    refine ⟨⟨?_, List.Subset.refl _, fun n hn _ => .inl hn, by simp⟩, hf.grows hg⟩
    intro n hn
    exact hg.posted.subset (h.queue_sublist_postings.subset (List.mem_append_right _ hn))
  case dropped hl => exact ⟨hf.left.next hg (absurd · hl), hf.right⟩
  case deferred hl hr =>
    obtain ⟨⟨hp, ht, ha, hb⟩, hf⟩ := hf
    refine ⟨⟨hp, by simpa using ht, fun x hx hx' => by simpa using ha x hx hx', fun x hx => ?_⟩, hf⟩
    cases List.mem_append.mp hx
    case inl hx => exact hb x hx
    case inr hx => exact List.mem_singleton.mp hx ▸ hr
  case started => exact ⟨hf.left.next hg fun _ => by simp [Mail.note], hf.right.grows hg⟩
  case finished =>
    obtain ⟨hp, ht, ha, hb⟩ := hf.left.grows hg
    exact ⟨⟨hp, ht, ha, hb⟩, hf.right.grows hg⟩
  case returned => exact hf.right.grows hg

theorem Reachable.allFit (h : Reachable c) : AllFit c.drains c.mail := by
  induction h
  case refl => trivial
  case tail h hs hi => exact hs.allFit h hi

theorem Reachable.openDrains_eq (h : Reachable c) :
    openDrains c.mail.journal = c.drains.map Drain.taken := by
  induction h
  case refl => rfl
  case tail hs hi =>
    cases hs
    case returned => simp [openDrains, Mail.putBack, hi]
    all_goals simpa [openDrains, Mail.post, Mail.subscribe, Mail.unsubscribe, Mail.note, Mail.take]
      using hi

theorem Reachable.heldBack_iff (h : Reachable c) (hd : c.drains = d :: ds) :
    HeldBack n c.mail.journal ↔
      (∃ ns ∈ ds.map Drain.taken, n ∈ ns) ∧ n ∉ deliveries c.mail.journal := by
  rw [HeldBack, h.openDrains_eq, hd]
  rfl

theorem Reachable.sentTo_older (h : Reachable c) {t p w : List Notification}
    (hd : c.drains = ⟨t, p, n :: w, none⟩ :: ds) (hl : c.mail.Live n.subscriber)
    (hb : n.subscriber ∉ busy ds)
    (hu : ∀ m, HeldBack m c.mail.journal → m.subscriber ≠ n.subscriber) :
    sentTo n.subscriber (held ds ++ p) = [] := by
  have hf := h.allFit
  rw [hd] at hf
  refine sentTo_eq_nil.mpr fun x hx hi => ?_
  cases List.mem_append.mp hx
  case inr hp => exact hb (hi ▸ hf.left.busy x hp)
  case inl hh =>
    refine hu x ((h.heldBack_iff hd).mpr ⟨hf.right.mem_taken hh, ?_⟩) hi
    apply h.not_delivered (hi ▸ hl)
    rw [queue_of_waiting hd]
    exact List.mem_append_left _ hx

theorem Undisturbed.of_suffix {j j' : List Entry} (h : Undisturbed id j') (hj : j <:+ j') :
    Undisturbed id j :=
  fun n earlier hn => h n earlier (hn.trans hj)

theorem Step.journal_suffix (h : Step c c') : c.mail.journal <:+ c'.mail.journal := by
  cases h.journal
  case inl hj => exact hj ▸ List.suffix_refl _
  case inr hj =>
    have ⟨e, hj⟩ := hj
    exact hj ▸ List.suffix_cons e _

theorem Reachable.fifo (h : Reachable c) (hu : Undisturbed id c.mail.journal) :
    sentTo id (deliveries c.mail.journal) <+: sentTo id (postings c.mail.journal) ∧
      (c.mail.Live id → sentTo id (postings c.mail.journal) =
        sentTo id (deliveries c.mail.journal) ++ sentTo id c.queue) := by
  induction h
  case refl => exact ⟨List.prefix_refl _, fun _ => rfl⟩
  case tail c c' h hs hi =>
    have h : Reachable c := h
    have ⟨hpre, heq⟩ := hi (Undisturbed.of_suffix hu hs.journal_suffix)
    have live (hl : c'.mail.Live id) : sentTo id (postings c.mail.journal) =
        sentTo id (deliveries c.mail.journal) ++ sentTo id c.queue := by
      cases hs.live hl
      case inl hl => exact heq hl
      case inr he =>
        have ⟨hp, hd, hq⟩ := h.sentTo_nextId
        rw [he.left, hp, hd, hq]
        rfl
    cases hs.effect
    case posted n _ _ _ hp hd hq =>
      rw [hp, hd, hq, sentTo_append, sentTo_append, ← List.append_assoc]
      exact ⟨hpre.trans (List.prefix_append ..), fun hl => by rw [live hl]⟩
    case kept hp hd _ hk =>
      rw [hp, hd]
      exact ⟨hpre, fun hl => hk id hl ▸ live hl⟩
    case started t p n w ds ht hl hb hj _ hp hd hq =>
      rw [queue_of_waiting ht, sentTo_append, sentTo_cons] at live heq
      rw [hp, hd, hq, sentTo_append, sentTo_append]
      by_cases hn : n.subscriber = id
      case neg =>
        have hn : sentTo id [n] = [] := sentTo_cons_of_ne hn
        rw [hn] at live ⊢
        rw [List.append_nil]
        exact ⟨hpre, live⟩
      case pos =>
        -- Nothing older waits, so the notification is the first of the queue for its subscriber.
        have hu := hu n c.mail.journal (hj ▸ List.suffix_refl _) hn
        cases hn
        have ho := h.sentTo_older ht hl hb hu
        rw [ho, heq hl, ho]
        simp

-- An open drain will come to a notification and will not put it off.
def Due (n : Notification) : List Drain → Prop
  | [] => False
  | d :: outer => n ∈ d.waiting ∧ n.subscriber ∉ busy outer ∨ Due n outer

-- What is held for somebody who is not being called will have its turn.
theorem AllFit.due (h : AllFit ds m) (hn : n ∈ held ds) (hb : n.subscriber ∉ busy ds) :
    Due n ds := by
  induction ds
  case nil => exact absurd hn List.not_mem_nil
  case cons d ds hi =>
    have hb : n.subscriber ∉ busy ds := fun hm => hb (by simp [busy] at hm ⊢; exact .inr hm)
    cases List.mem_append.mp hn
    case inl hn => exact .inr (hi h.right hn hb)
    case inr hm =>
      cases List.mem_append.mp hm
      case inl hm => exact absurd (h.left.busy n hm) hb
      case inr hm => exact .inl ⟨hm, hb⟩

theorem Due.next {n' : Notification} {t p p' w : List Notification} {r r' : Option SubscriptionId}
    (h : Due n (⟨t, p, n' :: w, r⟩ :: ds)) :
    n = n' ∧ n.subscriber ∉ busy ds ∨ Due n (⟨t, p', w, r'⟩ :: ds) := by
  cases h
  case inr h => exact .inr (.inr h)
  case inl h =>
    have ⟨hm, hb⟩ := h
    cases List.mem_cons.mp hm
    case inl hm => exact .inl ⟨hm, hb⟩
    case inr hm => exact .inr (.inl ⟨hm, hb⟩)

theorem Step.due (h : Step c c') (hd : Due n c.drains) (hl : c'.mail.Live n.subscriber) :
    Due n c'.drains ∨ c'.mail.journal = .started n :: c.mail.journal := by
  cases h
  case posted | subscribed | cancelled | got | finished => exact .inl hd
  case taken => exact .inl (.inr hd)
  case returned => exact .inl (hd.resolve_left fun hd => List.not_mem_nil hd.left)
  case dropped hn =>
    cases Due.next hd
    case inl hd => exact absurd (hd.left ▸ hl) hn
    case inr hd => exact .inl hd
  case deferred hb =>
    cases Due.next hd
    case inl hd => exact absurd (hd.left ▸ hb) hd.right
    case inr hd => exact .inl hd
  case started =>
    cases Due.next hd
    case inl hd => exact .inr (hd.left ▸ rfl)
    case inr hd => exact .inl hd

theorem Reachable.steps (h : Reachable c) (hs : Steps c c') : Reachable c' :=
  Steps.trans h hs

theorem Reachable.grows_of_steps (h : Reachable c) (hs : Steps c c') : Grows c.mail c'.mail := by
  induction hs
  case refl => exact ⟨List.prefix_refl _, List.prefix_refl _, fun _ _ hl => hl⟩
  case tail hs hs' hi =>
    have hg := (h.steps hs).grows hs'
    refine ⟨hi.posted.trans hg.posted, hi.delivered.trans hg.delivered, fun n hn hl => ?_⟩
    exact hi.live n hn (hg.live n (hi.posted.subset hn) hl)

theorem Reachable.due (h : Reachable c) (hs : Steps c c') (hn : n ∈ postings c.mail.journal)
    (hd : Due n c.drains) (hl : c'.mail.Live n.subscriber) :
    Due n c'.drains ∨
      ∃ ns, deliveries c'.mail.journal = deliveries c.mail.journal ++ ns ∧ n ∈ ns := by
  induction hs
  case refl => exact .inl hd
  case tail c₁ c₂ hs hs' hi =>
    have hg := (h.steps hs).grows hs'
    have ⟨ms, hms⟩ := (h.grows_of_steps hs).delivered
    have ⟨ns, hns⟩ := hg.delivered
    cases hi (hg.live n ((h.grows_of_steps hs).posted.subset hn) hl)
    case inr hd =>
      have ⟨ls, hls, hm⟩ := hd
      refine .inr ⟨ls ++ ns, ?_, List.mem_append_left _ hm⟩
      rw [← hns, hls, List.append_assoc]
    case inl hd =>
      cases hs'.due hd hl
      case inl hd => exact .inl hd
      case inr hj =>
        refine .inr ⟨ms ++ [n], ?_, by simp⟩
        rw [hj, ← List.append_assoc, hms]
        exact deliveries_cons _

theorem Step.of_started (h : Step c c')
    (hj : c'.mail.journal = .started n :: c.mail.journal) :
    ∃ t p w ds, c.drains = ⟨t, p, n :: w, none⟩ :: ds ∧
      c'.drains = ⟨t, p, w, some n.subscriber⟩ :: ds ∧ c.mail.Live n.subscriber ∧
      n.subscriber ∉ busy ds := by
  cases h
  case started hl hb =>
    cases hj
    exact ⟨_, _, _, _, rfl, rfl, hl, hb⟩
  all_goals simp [Mail.post, Mail.subscribe, Mail.unsubscribe, Mail.note, Mail.take, Mail.putBack]
    at hj

theorem Reachable.serial_le_last (h : Reachable c) {last : Notification} {ns : List Notification}
    (hs : (ns ++ [last]).Sublist (postings c.mail.journal)) (hn : n ∈ ns ++ [last]) :
    n.serial ≤ last.serial := by
  cases List.mem_append.mp hn
  case inl hn =>
    apply Nat.le_of_lt
    exact h.serial_lt_of_sublist (.trans (.append_right (List.singleton_sublist.mpr hn) _) hs)
  case inr hn => exact Nat.le_of_eq (congrArg _ (List.mem_singleton.mp hn))

theorem Reachable.undisturbed (h : Reachable c) (hd : c.drains = []) (hl : c.mail.Live id)
    (ho : (sentTo id (deliveries c.mail.journal)).Sublist (sentTo id (postings c.mail.journal))) :
    Undisturbed id c.mail.journal := by
  intro n earlier hj hn x hx hi
  have ⟨c₁, c₂, hw⟩ := h.exists_wrote hj
  have h₁ := hw.reachable
  have hj₁ : c₂.mail.journal = .started n :: c₁.mail.journal := hw.before ▸ hw.after
  have ⟨t, p, w, ds, hd₁, hd₂, hl₁, hb⟩ := hw.step.of_started hj₁
  have hxn : x.subscriber = n.subscriber := hi.trans hn.symm
  have ⟨⟨ns, hns, hm⟩, hnot⟩ := (h₁.heldBack_iff hd₁).mp (hw.before ▸ hx)
  have hf : AllFit (⟨t, p, n :: w, none⟩ :: ds) c₁.mail := hd₁ ▸ h₁.allFit
  have hheld := hf.right.mem_held (hxn ▸ hl₁) hns hm hnot
  have hdue := hf.right.due hheld (hxn ▸ hb)
  -- Of the two `x` has been posted first, but its turn comes after that of `n`.
  have hq : [x, n].Sublist c₁.queue := by
    rw [queue_of_waiting hd₁]
    exact .append (List.singleton_sublist.mpr (List.mem_append_left _ hheld)) (by simp)
  have older := h₁.serial_lt_of_sublist (hq.trans h₁.queue_sublist_postings)
  have newer : n.serial < x.serial := by
    have hp : x ∈ postings c₁.mail.journal := (hq.trans h₁.queue_sublist_postings).mem (by simp)
    have hp := (h₁.grows hw.step).posted.subset hp
    cases (h₁.step hw.step).due hw.steps hp (hd₂ ▸ .inr hdue) (hi ▸ hl)
    case inl hdue =>
      rw [hd] at hdue
      cases hdue
    case inr hlater =>
      have ⟨ls, hls, hm⟩ := hlater
      have hs : [n, x].Sublist (deliveries c.mail.journal) := by
        rw [hls, hj₁, deliveries_cons]
        exact .append (List.singleton_sublist.mpr (by simp)) (List.singleton_sublist.mpr hm)
      have hs : [n, x].Sublist (sentTo id (deliveries c.mail.journal)) := by
        simpa [sentTo, hn, hi] using hs.filter fun n => n.subscriber == id
      exact h.serial_lt_of_sublist (hs.trans (ho.trans List.filter_sublist))
  exact Nat.lt_asymm older newer

end Traffic

theorem latest_eq (id : SubscriptionId) (s : Server) :
    latest id s = (sentTo id (deliveries s.journal)).getLast?.map Notification.event := by
  unfold latest
  induction s.journal
  case nil => rfl
  case cons e j hi =>
    rw [List.findSome?_cons, hi, deliveries_cons, sentTo_append]
    cases e
    case started n =>
      by_cases hn : n.subscriber = id <;> simp [sentTo, hn]
    all_goals simp [sentTo]

-- Whoever lives is told everything in the order of the postings just if no drain inside another one
-- ever delivers to it while the outer drain holds something back for it. The last thing that one is
-- told is then the newest one.
theorem Reached.delivered_in_order_iff {s : Server} (h : Reached s) (id : SubscriptionId) :
    let told := sentTo id (deliveries s.journal)
    let posted := sentTo id (postings s.journal)
    (Undisturbed id s.journal → told <+: posted ∧
      ∀ n ∈ told, ∃ m ∈ told, latest id s = some m.event ∧ n.serial ≤ m.serial) ∧
    (s.Live id → (told.Sublist posted ↔ Undisturbed id s.journal)) := by
  intro told posted
  have hr := h.reachable
  have hf (hu : Undisturbed id s.journal) : told <+: posted := (hr.fifo hu).left
  refine ⟨fun hu => ⟨hf hu, fun n hn => ?_⟩, fun hl => ⟨hr.undisturbed rfl hl, fun hu => ?_⟩⟩
  · have ht : told.getLast? = some _ := List.getLast?_eq_some_getLast (List.ne_nil_of_mem hn)
    have ⟨ns, he⟩ := List.getLast?_eq_some_iff.mp ht
    have hs : told.Sublist (postings s.journal) := (hf hu).sublist.trans List.filter_sublist
    refine ⟨_, List.mem_of_getLast? ht, ?_, hr.serial_le_last (he ▸ hs) (he ▸ hn)⟩
    rw [latest_eq, ht, Option.map_some]
  · exact (hf hu).sublist

-- A subscriber that posts to itself and drains disturbs nobody.
theorem delivered_in_order_of_nested_drain :
    let s := run [.insert "P" (.int 0), .subscribe "P" none [.set "P" (some (.int 7)), .drain],
      .set "P" (.int 1), .drain] .empty
    Undisturbed 1 s.journal ∧ (sentTo 1 (deliveries s.journal)).length = 1 ∧
      sentTo 1 (deliveries s.journal) <+: sentTo 1 (postings s.journal) := by
  intro s
  have ⟨ho, hd⟩ := (Reached.empty.run _ : Reached s).delivered_in_order_iff 1
  have hu : Undisturbed 1 s.journal :=
    (hd ⟨_, List.mem_cons_self, rfl⟩).mp (List.sublist_append_left [_] [_])
  exact ⟨hu, rfl, (ho hu).left⟩

-- While a drain holds back the first value for a subscriber, a drain inside it delivers the second.
theorem delivered_out_of_order :
    let s := run [.insert "P" (.int 0), .insert "Q" (.int 0),
      .subscribe "Q" none [.set "P" (some (.int 2)), .drain], .subscribe "P" none [],
      .set "Q" (.int 1), .set "P" (.int 1), .drain] .empty
    ¬(sentTo 2 (deliveries s.journal)).Sublist (sentTo 2 (postings s.journal)) ∧
      latest 2 s = some (.quiet (.int 1)) ∧ s.get "P" = .ok (.int 2) := by
  intro s
  refine ⟨fun h => ?_, rfl, rfl⟩
  have h : [2, 1].Sublist [1, 2] := h.map Notification.serial
  exact absurd h (by decide)

end Readback.Server
