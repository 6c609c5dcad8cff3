import Mathlib.Data.List.Basic
import Readback.Proofs.Cancelling
import Readback.Proofs.Nesting

namespace Readback.Server

open Traffic

def Undraining (s : Server) : Prop :=
  ∀ b ∈ s.subscribers, .drain ∉ b.script

def turn (s : Server) (n : Notification) : Server :=
  match s.subscriber? n.subscriber with
  | none => s
  | some b => call (fun t => t) b n s

def turns (s : Server) : List Notification → List (Server × Notification)
  | [] => []
  | n :: ns => (s, n) :: turns (s.turn n) ns

def received (ts : List (Server × Notification)) : List Notification :=
  (ts.filter fun (t, n) => (t.subscriber? n.subscriber).isSome).map Prod.snd

-- What has happened since a drain took all that was queued: so much has been told, what is queued
-- has been posted since then, and no other drain has taken anything.
structure Round (before : List Entry) (told : List Notification) (during : List Entry)
    (s : Server) : Prop where
  journal : s.journal = during ++ before
  told : deliveries during = told
  pending : s.pending = queued during
  single : ∀ ns, .taken ns ∉ during ∧ .putBack ns ∉ during

variable {s t : Server} {n : Notification} {ns told deferred : List Notification}
  {before during : List Entry} {e : Entry} {b : Subscriber} {c c' : Traffic}

section

variable {inner : List SubscriptionId → Server → Server}

theorem call_of_undraining (hb : .drain ∉ b.script) (f g : Server → Server) (s : Server) :
    call f b n s = call g b n s := by
  have ha : ∀ t, ∀ a ∈ b.script, act f b.id n.event t a = act g b.id n.event t a :=
    fun t a ha => act_of_ne (fun hd => hb (hd ▸ ha)) f g
  rw [call, call, List.foldl_ext _ _ _ ha]

theorem Undraining.of_active (h : s.Undraining) (ht : t.active.Sublist s.active) :
    t.Undraining := by
  intro b hb hd
  have hm : b ∈ t.active := List.mem_filter.mpr ⟨hb, by
    cases hs : b.script
    case nil => rw [hs] at hd; cases hd
    case cons => rfl⟩
  exact h b (List.mem_filter.mp (ht.subset hm)).left hd

theorem Undraining.turn (h : s.Undraining) (n : Notification) : (s.turn n).Undraining := by
  unfold Server.turn
  split
  · exact h
  · exact h.of_active (lasting_active.call (fun _ => .refl _) ..)

theorem deliver_of_undraining (h : s.Undraining) (n : Notification) :
    deliver inner [] (deferred, s) n = (deferred, s.turn n) := by
  simp only [deliver, turn]
  cases hb : s.subscriber? n.subscriber
  case none => rfl
  case some b =>
    have hd := h b (mem_of_subscriber? hb).left
    simp [call_of_undraining hd (inner [b.id]) fun t => t]

theorem deliverAll_of_undraining (h : s.Undraining) (ns : List Notification) :
    ns.foldl (deliver inner []) (deferred, s) = (deferred, ns.foldl turn s) := by
  induction ns generalizing s
  case nil => rfl
  case cons n ns hi =>
    rw [List.foldl_cons, deliver_of_undraining h, hi (h.turn n)]
    rfl

theorem drain_of_undraining (h : s.Undraining) :
    s.drain = (s.pending.foldl turn s.take).putBack [] := by
  have ht : s.take.Undraining := h
  rw [drain, drainWithin, deliverAll_of_undraining ht]

end

theorem queued_postings {es : List Entry} (h : ∀ e ∈ es, ∃ pv n, e = .posted pv n) :
    queued (es ++ during) = queued during ++ postings es := by
  induction es
  case nil => simp
  case cons e es hi =>
    have ⟨⟨pv, n, he⟩, hes⟩ := List.forall_mem_cons.mp h
    rw [he, List.cons_append, queued, hi hes, postings_cons, List.append_assoc]
    rfl

namespace Round

theorem feeds (h : Round before told during s) (ht : Feeds s t) :
    ∃ during, Round before told during t := by
  have ⟨es, he⟩ := ht
  refine ⟨es ++ during, ?_, ?_, ?_, fun ns => ?_⟩
  · rw [he.journal, h.journal, List.append_assoc]
  · rw [deliveries_append, he.deliveries_eq_nil, h.told, List.append_nil]
  · rw [he.pending, h.pending, queued_postings he.posted]
  · have posted {e} (hs : ∀ pv n, e ≠ .posted pv n) : e ∉ es := fun hm =>
      have ⟨pv, n, hn⟩ := he.posted e hm
      hs pv n hn
    simp [posted, h.single ns]

theorem entry (h : Round before told during s) (e : Entry) (ht : t.journal = e :: s.journal)
    (hp : t.pending = queued (e :: during)) (hs : ∀ ns, e ≠ .taken ns ∧ e ≠ .putBack ns) :
    Round before (told ++ e.started?.toList) (e :: during) t where
  journal := by rw [ht, h.journal, List.cons_append]
  told := by rw [deliveries_cons, h.told]
  pending := hp
  single ns := by simp [h.single ns, (hs ns).left.symm, (hs ns).right.symm]

theorem quiet (h : Round before told during s) (e : Entry) (he : e.IsQuiet)
    (ht : t.journal = e :: s.journal) (hp : t.pending = queued (e :: during)) :
    ∃ during, Round before told during t := by
  have hs : e.started? = none := by
    cases e
    case started => exact he.elim
    all_goals rfl
  have hd ns : e ≠ .taken ns ∧ e ≠ .putBack ns := by
    constructor <;> rintro rfl <;> exact he
  have h := h.entry e ht hp hd
  rw [hs, Option.toList_none, List.append_nil] at h
  exact ⟨_, h⟩

theorem act (h : Round before told during s) (id : SubscriptionId) (event : Event) (a : Action) :
    ∃ during, Round before told during (act (fun t => t) id event s a) := by
  cases a
  case set => exact h.feeds (.set ..)
  case put => exact h.feeds (.put ..)
  case drain => exact ⟨during, h⟩
  case get => exact h.quiet (.got ..) trivial rfl h.pending
  case subscribe => exact h.quiet (.subscribed _) trivial rfl h.pending
  case unsubscribe handle =>
    simp only [Server.act]
    split
    case h_1 id _ => exact h.quiet (.cancelled id) trivial rfl (congrArg (List.filter _) h.pending)
    case h_2 => exact ⟨during, h⟩

theorem script (h : Round before told during s) (id : SubscriptionId) (event : Event)
    (as : List Action) :
    ∃ during, Round before told during (as.foldl (Server.act (fun t => t) id event) s) := by
  induction as generalizing s during
  case nil => exact ⟨during, h⟩
  case cons a as hi =>
    have ⟨_, ha⟩ := h.act id event a
    exact hi ha

theorem turn (h : Round before told during s) (n : Notification) :
    ∃ during, Round before (told ++ received [(s, n)]) during (s.turn n) := by
  unfold Server.turn received
  cases hb : s.subscriber? n.subscriber
  case none => exact ⟨during, by simpa [hb] using h⟩
  case some b =>
    have hs : Round before (told ++ [n]) (.started n :: during) (s.note (.started n)) :=
      h.entry (.started n) rfl h.pending (by simp)
    have ⟨_, ha⟩ := hs.script b.id n.event b.script
    have hf : Round before _ _ (call (fun t => t) b n s) :=
      ha.entry (.finished b.id) rfl ha.pending (by simp)
    exact ⟨_, by simpa [hb] using hf⟩

theorem turns (h : Round before told during s) (ns : List Notification) :
    ∃ during, Round before (told ++ received (s.turns ns)) during (ns.foldl Server.turn s) := by
  induction ns generalizing s told during
  case nil => exact ⟨during, by simpa [Server.turns, received] using h⟩
  case cons n ns hi =>
    have ⟨_, hn⟩ := h.turn n
    have ⟨_, hs⟩ := hi hn
    have hm : received (s.turns (n :: ns)) =
        received [(s, n)] ++ received ((s.turn n).turns ns) := by
      rw [received, received, received, ← List.map_append, ← List.filter_append]
      rfl
    exact ⟨_, by rwa [hm, ← List.append_assoc]⟩

end Round

theorem single_of_cons (h : ∀ ns, .taken ns ∉ e :: during ∧ .putBack ns ∉ e :: during)
    (ns : List Notification) : .taken ns ∉ during ∧ .putBack ns ∉ during :=
  ⟨fun hm => (h ns).left (.tail _ hm), fun hm => (h ns).right (.tail _ hm)⟩

theorem queued_sublist (h : ∀ ns, .taken ns ∉ during ∧ .putBack ns ∉ during) :
    (queued during).Sublist (postings during) := by
  induction during
  case nil => exact .refl _
  case cons e during hi =>
    have hi := hi (single_of_cons h)
    rw [postings_cons]
    cases e
    case posted => exact hi.append_right _
    case cancelled => exact (List.filter_sublist.trans hi).trans (List.sublist_append_left ..)
    case taken ns => exact absurd List.mem_cons_self (h ns).left
    case putBack ns => exact absurd List.mem_cons_self (h ns).right
    all_goals exact hi.trans (List.sublist_append_left ..)

theorem mem_queued_iff (h : ∀ ns, .taken ns ∉ during ∧ .putBack ns ∉ during) :
    n ∈ queued during ↔ ∃ later pv earlier, during = later ++ .posted pv n :: earlier ∧
      .cancelled n.subscriber ∉ later := by
  induction during
  case nil => simp [queued]
  case cons e during hi =>
    have hi := hi (single_of_cons h)
    have hc : (∃ later pv earlier, e :: during = later ++ .posted pv n :: earlier ∧
        .cancelled n.subscriber ∉ later) ↔
        (∃ pv, e = .posted pv n) ∨ e ≠ .cancelled n.subscriber ∧ n ∈ queued during := by
      rw [hi]
      constructor
      · rintro ⟨later, pv, earlier, he, hn⟩
        cases later
        case nil => exact .inl ⟨pv, (List.cons.inj he).left⟩
        case cons e' later =>
          obtain ⟨hx, hd⟩ := List.cons.inj he
          obtain ⟨hne, hn⟩ := not_or.mp (mt List.mem_cons.mpr hn)
          exact .inr ⟨hx ▸ Ne.symm hne, later, pv, earlier, hd, hn⟩
      · rintro (⟨pv, rfl⟩ | ⟨hne, later, pv, earlier, rfl, hn⟩)
        · exact ⟨[], pv, during, rfl, List.not_mem_nil⟩
        · exact ⟨e :: later, pv, earlier, rfl, by simp [Ne.symm hne, hn]⟩
    rw [hc]
    cases e
    case posted => simp [queued, or_comm, eq_comm]
    case cancelled id => simp [queued, and_comm, @eq_comm _ id]
    case taken ns => exact absurd List.mem_cons_self (h ns).left
    case putBack ns => exact absurd List.mem_cons_self (h ns).right
    all_goals simp [queued]

theorem Traffic.Steps.postings (h : Steps c c') : ∃ ns,
    postings c'.mail.journal = postings c.mail.journal ++ ns ∧
      ns.Pairwise (fun n n' => n.serial < n'.serial) ∧
      c.mail.nextSerial ≤ c'.mail.nextSerial ∧ ∀ n ∈ ns, n.serial < c'.mail.nextSerial := by
  induction h
  case refl => exact ⟨[], by simp⟩
  case tail hs hi =>
    have ⟨ns, hp, ho, hl, hn⟩ := hi
    cases hs.effect
    case posted n _ he hs' hp' _ _ =>
      refine ⟨ns ++ [n], ?_, ?_, ?_, ?_⟩
      · rw [hp', hp, List.append_assoc]
      · refine List.pairwise_append.mpr ⟨ho, List.pairwise_singleton .., fun m hm m' hm' => ?_⟩
        rw [List.mem_singleton.mp hm', he]
        exact hn m hm
      · omega
      · intro m hm
        cases List.mem_append.mp hm
        case inl hm => exact hs' ▸ Nat.lt_succ_of_lt (hn m hm)
        case inr hm => rw [List.mem_singleton.mp hm]; omega
    case started hs' hp' _ _ => exact ⟨ns, hp'.trans hp, ho, hs' ▸ hl, hs' ▸ hn⟩
    case kept hs' hp' _ _ _ => exact ⟨ns, hp'.trans hp, ho, hs' ▸ hl, hs' ▸ hn⟩

-- Subscribers that do not drain cannot keep a drain going. It calls each subscriber once for each
-- notification that was queued, in the order of the queue, provided that the subscription is there
-- when the turn of the notification has come, and calls nobody else. Whatever is posted meanwhile is
-- queued afterwards, in the order in which it was posted, unless its subscription has been cancelled
-- since.
theorem drain_gives_one_turn_each (s : Server) (h : s.Undraining) :
    s.drain = (s.pending.foldl turn s.take).putBack [] ∧
    ∃ during, s.drain.journal = .putBack [] :: (during ++ .taken s.pending :: s.journal) ∧
      deliveries during = received (s.take.turns s.pending) ∧
      s.drain.pending.Sublist (postings during) ∧ (postings during).Nodup ∧
      ∀ n, n ∈ s.drain.pending ↔ ∃ later pv earlier,
        during = later ++ .posted pv n :: earlier ∧ .cancelled n.subscriber ∉ later := by
  have hd := drain_of_undraining h
  have hb : Round s.take.journal [] [] s.take := ⟨rfl, rfl, rfl, by simp⟩
  have ⟨during, hr⟩ := hb.turns s.pending
  have hj : s.drain.journal = .putBack [] :: (during ++ .taken s.pending :: s.journal) := by
    rw [hd]
    exact congrArg _ hr.journal
  have hp : s.drain.pending = queued during := by
    rw [hd]
    exact hr.pending
  have ⟨ns, hn, ho, _⟩ := (evolves_drain s).postings
  have hn : postings during = ns := by simpa [hj] using hn
  refine ⟨hd, during, hj, hr.told, hp ▸ queued_sublist hr.single, ?_, ?_⟩
  · rw [hn]
    exact ho.imp fun hl he => Nat.ne_of_lt hl (congrArg _ he)
  · intro n
    rw [hp]
    exact mem_queued_iff hr.single

-- A subscriber posts to itself, to another record and to a subscriber that it cancels then.
theorem drain_gives_one_turn_each_of_feedback :
    let s := run [.insert "P" (.int 0), .insert "Q" (.int 0),
      .subscribe "P" none [.set "P" (some (.int 7)), .put "Q" none, .unsubscribe "w"],
      .subscribe "P" (some "w") [], .subscribe "Q" none [.get "P"],
      .set "P" (.int 1), .set "P" (.int 2)] .empty
    s.Undraining ∧ s.pending.map Notification.subscriber = [1, 2, 1, 2] ∧
    ∃ during, s.drain.journal = .putBack [] :: (during ++ .taken s.pending :: s.journal) ∧
      (deliveries during).map Notification.serial = [0, 2] ∧
      s.drain.pending.map Notification.subscriber = [1, 3, 1, 3] ∧
      ∀ n ∈ s.drain.pending, ∃ later pv earlier,
        during = later ++ .posted pv n :: earlier ∧ .cancelled n.subscriber ∉ later := by
  intro s
  have hs : s.subscribers.map Subscriber.script =
    [[.set "P" (some (.int 7)), .put "Q" none, .unsubscribe "w"], [], [.get "P"]] := rfl
  have hu : s.Undraining := by
    intro b hb
    have hm := List.mem_map_of_mem (f := Subscriber.script) hb
    rw [hs] at hm
    simp only [List.mem_cons, List.not_mem_nil, or_false] at hm
    rcases hm with hm | hm | hm <;> simp [hm]
  have ⟨_, during, hj, ht, _, _, hn⟩ := drain_gives_one_turn_each s hu
  have hm : (received (s.take.turns s.pending)).map Notification.serial = [0, 2] := by
    decide +kernel
  have hp : s.drain.pending.map Notification.subscriber = [1, 3, 1, 3] := by decide +kernel
  exact ⟨hu, by decide +kernel, during, hj, ht ▸ hm, hp, fun n => (hn n).mp⟩

end Readback.Server
