import Readback.Proofs.Order

namespace Readback.Server

def alive : List Entry → List SubscriptionId
  | [] => []
  | .subscribed b :: j => alive j ++ [b.id]
  | .cancelled id :: j => (alive j).filter (· != id)
  | _ :: j => alive j

def queued : List Entry → List Notification
  | [] => []
  | .cancelled id :: j => (queued j).filter fun n => n.subscriber != id
  | .posted _ n :: j => queued j ++ [n]
  | .taken _ :: _ => []
  | .putBack ns :: j => ns ++ queued j
  | _ :: j => queued j

-- A notification is queued, or a drain that goes on has taken it and has not delivered it.
def Outstanding (n : Notification) (journal : List Entry) : Prop :=
  n ∈ queued journal ∨ (∃ ns ∈ openDrains journal, n ∈ ns) ∧ n ∉ deliveries journal

variable {n : Notification} {id : SubscriptionId} {e : Entry} {j : List Entry}

theorem outstanding_cancelled (hn : n.subscriber ≠ id) :
    Outstanding n (.cancelled id :: j) ↔ Outstanding n j := by
  simp [Outstanding, queued, openDrains, hn]

namespace Traffic

variable {c c' : Traffic}

theorem Reachable.alive_eq (h : Reachable c) :
    alive c.mail.journal = c.mail.subscribers.map Subscriber.id := by
  induction h
  case refl => rfl
  case tail hs hi =>
    cases hs
    case subscribed => simp [alive, Mail.subscribe, hi]
    case cancelled => simp [alive, Mail.unsubscribe, hi, List.filter_map, Function.comp_def]
    all_goals exact hi

theorem Reachable.live_iff (h : Reachable c) : c.mail.Live id ↔ id ∈ alive c.mail.journal := by
  simp [h.alive_eq, Mail.Live]

theorem Reachable.queued_eq (h : Reachable c) : queued c.mail.journal = c.mail.pending := by
  induction h
  case refl => rfl
  case tail hs hi =>
    cases hs
    case posted => simp [queued, Mail.post, hi]
    case cancelled => simp [queued, Mail.unsubscribe, hi]
    case taken => rfl
    case returned => simp [queued, Mail.putBack, hi]
    all_goals exact hi

theorem Reachable.outstanding_iff (h : Reachable c) (hl : c.mail.Live n.subscriber) :
    Outstanding n c.mail.journal ↔ n ∈ c.queue := by
  rw [Outstanding, h.queued_eq, h.openDrains_eq]
  constructor
  case mp =>
    intro ho
    rcases ho with hp | ⟨⟨ns, hns, hn⟩, hd⟩
    · exact List.mem_append_right _ hp
    · exact List.mem_append_left _ (h.allFit.mem_held hl hns hn hd)
  case mpr =>
    intro hn
    cases List.mem_append.mp hn
    case inl hh => exact .inr ⟨h.allFit.mem_taken hh, h.not_delivered hl hn⟩
    case inr hp => exact .inl hp

theorem Step.stays (h : Step c c') (hl : c.mail.Live id) :
    c'.mail.Live id ∨ c'.mail.journal = .cancelled id :: c.mail.journal := by
  cases h
  case subscribed => exact .inl (Mail.live_subscribe.mpr (.inl hl))
  case cancelled id' =>
    by_cases hi : id = id'
    · exact .inr (hi ▸ rfl)
    · exact .inl (Mail.live_unsubscribe.mpr ⟨hl, hi⟩)
  all_goals exact .inl hl

theorem Step.fate (h : Step c c') (hl : c.mail.Live n.subscriber) (hn : n ∈ c.queue) :
    c'.mail.journal = .started n :: c.mail.journal ∨
      c'.mail.journal = .cancelled n.subscriber :: c.mail.journal ∨
        c'.mail.Live n.subscriber ∧ n ∈ c'.queue := by
  cases h.stays hl
  case inr hj => exact .inr (.inl hj)
  case inl hl' =>
    cases h.effect
    case posted hq => exact .inr (.inr ⟨hl', by simp [hq, hn]⟩)
    case started m w ds ht _ _ hj _ _ _ hq =>
      rw [queue_of_waiting ht] at hn
      by_cases hm : n = m
      case pos => exact .inl (hm ▸ hj)
      case neg => exact .inr (.inr ⟨hl', by simpa [hq, hm] using hn⟩)
    case kept hk =>
      have hn : n ∈ sentTo n.subscriber c'.queue := hk _ hl' ▸ mem_sentTo.mpr ⟨hn, rfl⟩
      exact .inr (.inr ⟨hl', (mem_sentTo.mp hn).left⟩)

theorem Reachable.subscribed_before (h : Reachable c) {b b' : Subscriber}
    (hj : .subscribed b :: j <:+ c.mail.journal) (hb : .subscribed b' ∈ j) : b'.id < b.id := by
  have ⟨c₁, c₂, hw⟩ := h.exists_wrote hj
  have hb := hw.reachable.registered.below b' (hw.before ▸ hb)
  have he : c₂.mail.journal = .subscribed b :: c₁.mail.journal := hw.before ▸ hw.after
  cases hw.step
  case subscribed =>
    cases he
    exact hb
  all_goals simp [Mail.post, Mail.unsubscribe, Mail.note, Mail.take, Mail.putBack] at he

theorem Reachable.alive_of_started (h : Reachable c) (hj : .started n :: j <:+ c.mail.journal) :
    n.subscriber ∈ alive j := by
  have ⟨_, _, hw⟩ := h.exists_wrote hj
  have ⟨_, _, _, _, _, _, hl, _⟩ := hw.step.of_started (hw.before ▸ hw.after)
  exact hw.before ▸ hw.reachable.live_iff.mp hl

theorem Reachable.not_alive (h : Reachable c) {earlier later : List Entry} {b : Subscriber}
    (hj : later ++ .cancelled b.id :: earlier <:+ c.mail.journal) (hb : .subscribed b ∈ earlier) :
    b.id ∉ alive (later ++ .cancelled b.id :: earlier) := by
  induction later
  case nil => simp [alive]
  case cons e later hi =>
    have hi := hi ((List.suffix_cons e _).trans hj)
    cases e
    case subscribed b' =>
      have hl := h.subscribed_before hj (List.mem_append_right _ (.tail _ hb))
      simpa [alive, Nat.ne_of_lt hl] using hi
    case cancelled id =>
      exact fun hm => hi (List.mem_filter.mp hm).left
    all_goals exact hi

theorem Reachable.outstanding_cons (h : Reachable c) (hj : e :: j <:+ c.mail.journal)
    (hl : n.subscriber ∈ alive j) (hn : Outstanding n j) :
    e = .started n ∨ e = .cancelled n.subscriber ∨
      n.subscriber ∈ alive (e :: j) ∧ Outstanding n (e :: j) := by
  obtain ⟨c₁, c₂, ⟨h₁, rfl, hs, ha, _⟩⟩ := h.exists_wrote hj
  have h₂ := h₁.step hs
  have hl := h₁.live_iff.mpr hl
  have hf := hs.fate hl ((h₁.outstanding_iff hl).mp hn)
  simp only [ha, List.cons.injEq, and_true] at hf
  refine hf.imp_right (.imp_right fun ⟨hl, hq⟩ => ?_)
  rw [← ha]
  exact ⟨h₂.live_iff.mp hl, (h₂.outstanding_iff hl).mpr hq⟩

theorem Reachable.outstanding_append (h : Reachable c) {later : List Entry}
    (hj : later ++ j <:+ c.mail.journal) (hl : n.subscriber ∈ alive j) (hn : Outstanding n j) :
    n ∈ deliveries later ∨ .cancelled n.subscriber ∈ later ∨
      n.subscriber ∈ alive (later ++ j) ∧ Outstanding n (later ++ j) := by
  induction later
  case nil => exact .inr (.inr ⟨hl, hn⟩)
  case cons e later hi =>
    rcases hi ((List.suffix_cons e _).trans hj) with hd | hc | ⟨hl, hn⟩
    · exact .inl (by simp [hd])
    · exact .inr (.inl (.tail _ hc))
    · rcases h.outstanding_cons hj hl hn with rfl | rfl | hn
      · exact .inl (by simp)
      · exact .inr (.inl List.mem_cons_self)
      · exact .inr (.inr hn)

end Traffic

-- Once a subscription has been cancelled, wherever that happens, nothing is delivered under its id
-- any more. What is outstanding for others then is delivered, unless they are cancelled too, or
-- remains outstanding. Between operations that means that it is queued.
theorem Reached.cancelled_for_good {s : Server} (h : Reached s) {later earlier : List Entry}
    {id : SubscriptionId} (hj : s.journal = later ++ .cancelled id :: earlier) :
    (∀ b, .subscribed b ∈ earlier → b.id = id → sentTo id (deliveries later) = []) ∧
    (∀ n, n.subscriber ≠ id → (Outstanding n (.cancelled id :: earlier) ↔ Outstanding n earlier) ∧
      (n.subscriber ∈ alive earlier → Outstanding n earlier → ∀ l, l <:+ later →
        n ∈ deliveries l ∨ .cancelled n.subscriber ∈ l ∨
          Outstanding n (l ++ .cancelled id :: earlier))) ∧
    ∀ n, Outstanding n s.journal ↔ n ∈ s.pending := by
  have hr := h.reachable
  have suffix {l} (hl : l <:+ later) : l ++ .cancelled id :: earlier <:+ s.journal := by
    have ⟨k, hk⟩ := hl
    exact ⟨k, by rw [hj, ← hk, List.append_assoc]⟩
  refine ⟨fun b hb hi => ?_, fun n hn => ⟨outstanding_cancelled hn, ?_⟩, fun n => ?_⟩
  · refine sentTo_eq_nil.mpr fun n hn he => ?_
    obtain ⟨l', l, rfl⟩ := List.append_of_mem (mem_deliveries.mp hn)
    cases hi
    have hs := suffix (List.suffix_append l' _)
    have hl := hr.alive_of_started hs
    rw [he] at hl
    exact hr.not_alive ((List.suffix_cons _ _).trans hs) hb hl
  · intro hl ho l hs
    have hl : n.subscriber ∈ alive (.cancelled id :: earlier) := by simp [alive, hl, hn]
    have ho := hr.outstanding_append (suffix hs) hl ((outstanding_cancelled hn).mpr ho)
    exact ho.imp_right (.imp_right And.right)
  · have hq : queued s.journal = s.pending := hr.queued_eq
    have hd : openDrains s.journal = [] := hr.openDrains_eq
    simp [Outstanding, hq, hd]

-- A subscriber cancels another one, for which the drain holds something back, and drains.
theorem cancelled_for_good_of_nested_drain :
    let s := run [.insert "P" (.int 0), .insert "Q" (.int 0),
      .subscribe "Q" none [.set "P" (some (.int 2)), .unsubscribe "w", .drain],
      .subscribe "P" (some "w") [], .subscribe "P" none [],
      .set "Q" (.int 1), .set "P" (.int 1), .drain] .empty
    let n : Notification := ⟨2, 3, .quiet (.int 1)⟩
    ∃ later earlier, s.journal = later ++ .cancelled 2 :: earlier ∧
      .subscribed ⟨2, "P", some "w", []⟩ ∈ earlier ∧ sentTo 2 (deliveries later) = [] ∧
      n.subscriber ≠ 2 ∧ n.subscriber ∈ alive earlier ∧ n ∉ queued earlier ∧
      Outstanding n earlier ∧ (n ∈ deliveries later ∨ .cancelled 3 ∈ later ∨ n ∈ s.pending) := by
  intro s n
  have hj : s.journal = s.journal.take 8 ++ .cancelled 2 :: s.journal.drop 9 := rfl
  have ⟨hc, hk, hp⟩ := (Reached.empty.run _ : Reached s).cancelled_for_good hj
  have hb : .subscribed ⟨2, "P", some "w", []⟩ ∈ s.journal.drop 9 :=
    List.mem_of_getElem? (i := 8) rfl
  have hl : n.subscriber ∈ alive (s.journal.drop 9) := by decide
  have apart {ns} (hn : 2 ∉ ns.map Notification.serial) : n ∉ ns :=
    fun hm => hn (List.mem_map.mpr ⟨n, hm, rfl⟩)
  have hd : n ∉ deliveries (s.journal.drop 9) := apart (by decide)
  have ho : Outstanding n (s.journal.drop 9) :=
    .inr ⟨⟨_, List.mem_cons_self, List.mem_of_getElem? (i := 2) rfl⟩, hd⟩
  have hn := (hk n (by decide)).right hl ho _ (List.suffix_refl _)
  exact ⟨_, _, hj, hb, hc _ hb rfl, by decide, hl, apart (by decide), ho,
    hn.imp_right (.imp_right (hp n).mp)⟩

end Readback.Server
