import Readback.Proofs.Acting
import Readback.Proofs.Feeding
import Readback.Proofs.Order

namespace Readback.Server

-- What a subscriber that runs a script does to a server. What a drain does is told by `inner`.
inductive Acts (inner : Server → Server → Prop) (id : SubscriptionId) (event : Event) :
    List Action → Server → Server → Prop
  | done {s} : Acts inner id event [] s s
  | drain {as s t u} (h : inner s t) (hs : Acts inner id event as t u) :
    Acts inner id event (.drain :: as) s u
  | other {a as s u} (ha : a ≠ .drain)
    (hs : Acts inner id event as (act (fun t => t) id event s a) u) :
    Acts inner id event (a :: as) s u

-- What becomes of notifications in a drain while some subscribers are running. Each server comes
-- with what has been put off.
inductive Delivers (inner : List SubscriptionId → Server → Server → Prop)
    (running : List SubscriptionId) : List Notification → List Notification × Server →
      List Notification × Server → Prop
  | done {p} : Delivers inner running [] p p
  | dropped {n ns deferred s p} (hn : s.subscriber? n.subscriber = none)
    (hs : Delivers inner running ns (deferred, s) p) :
    Delivers inner running (n :: ns) (deferred, s) p
  | deferred {n ns deferred s p b} (hn : s.subscriber? n.subscriber = some b) (hb : b.id ∈ running)
    (hs : Delivers inner running ns (deferred ++ [n], s) p) :
    Delivers inner running (n :: ns) (deferred, s) p
  | called {n ns deferred s t p b} (hn : s.subscriber? n.subscriber = some b) (hb : b.id ∉ running)
    (h : Acts (inner (b.id :: running)) b.id n.event b.script (s.note (.started n)) t)
    (hs : Delivers inner running ns (deferred, t.note (.finished b.id)) p) :
    Delivers inner running (n :: ns) (deferred, s) p

-- A drain of a server comes to an end in another one, and is at most so many drains deep. No drain
-- ends at depth zero.
def Drains : Nat → List SubscriptionId → Server → Server → Prop
  | 0, _, _, _ => False
  | depth + 1, running, s, u =>
    ∃ deferred t, Delivers (Drains depth) running s.pending ([], s.take) (deferred, t) ∧
      u = t.putBack deferred

def calling : List Entry → List SubscriptionId
  | [] => []
  | .started n :: j => n.subscriber :: calling j
  | .finished _ :: j => (calling j).tail
  | _ :: j => calling j

def active (s : Server) : List Subscriber :=
  s.subscribers.filter fun b => !b.script.isEmpty

def free (running : List SubscriptionId) (s : Server) : Nat :=
  (s.active.filter fun b => b.id ∉ running).length

variable {s t u : Server} {running : List SubscriptionId} {depth : Nat} {b : Subscriber}
  {n : Notification}

theorem active_of_subscribers (h : t.subscribers = s.subscribers) : t.active = s.active := by
  rw [active, h, active]

theorem lasting_active : Lasting fun s t => t.active.Sublist s.active where
  refl _ := .refl _
  trans h h' := h'.trans h
  note _ _ := .refl _
  take _ := .refl _
  putBack _ _ := .refl _
  set s pv v := active_of_subscribers (Feeds.set s pv v).subscribers ▸ .refl _
  put s name v := active_of_subscribers (Feeds.put s name v).subscribers ▸ .refl _
  subscribe s pv handle := by
    simp [active, Server.subscribe, Mail.subscribe]
  unsubscribe _ _ := List.filter_sublist.filter _

theorem free_le (running : List SubscriptionId) (s : Server) :
    free running s ≤ s.subscribers.length :=
  Nat.le_trans (List.length_filter_le ..) (List.length_filter_le ..)

theorem free_lt (hb : b ∈ s.active) (hr : b.id ∉ running) (h : t.active.Sublist s.active) :
    free (b.id :: running) t < free running s := by
  have hs : ((s.active.filter fun b => b.id ∉ running).filter fun b' => b'.id ≠ b.id).length <
      free running s :=
    List.length_filter_lt_length_iff_exists.mpr ⟨b, by simp [hb, hr], by simp⟩
  refine Nat.lt_of_le_of_lt (List.Sublist.length_le ?_) hs
  rw [List.filter_filter]
  simpa using h.filter fun b' => b'.id ∉ b.id :: running

section

variable {inner : Server → Server → Prop} {f : Server → Server} {id : SubscriptionId}
  {event : Event} {as : List Action}

theorem act_of_ne {a : Action} (ha : a ≠ .drain) (f g : Server → Server) :
    act f id event s a = act g id event s a := by
  cases a
  case drain => exact absurd rfl ha
  all_goals rfl

theorem acts_foldl (hf : ∀ s, (f s).active.Sublist s.active)
    (hi : as ≠ [] → ∀ t, t.active.Sublist s.active → inner t (f t)) :
    Acts inner id event as s (as.foldl (act f id event) s) := by
  induction as generalizing s
  case nil => exact .done
  case cons a as ih =>
    have ha := lasting_active.act hf id event s a
    have hs := ih (s := act f id event s a) fun _ t ht => hi (List.cons_ne_nil a as) t (ht.trans ha)
    by_cases hd : a = .drain
    case pos =>
      cases hd
      exact .drain (hi (List.cons_ne_nil _ as) s (.refl _)) hs
    case neg =>
      refine .other hd ?_
      rwa [act_of_ne hd (fun t => t) f]

theorem Acts.eq (h : Acts inner id event as s t) (hi : ∀ s t, inner s t → f s = t) :
    as.foldl (act f id event) s = t := by
  induction h
  case done => rfl
  case drain h _ ih =>
    rw [List.foldl_cons, act, hi _ _ h]
    exact ih
  case other ha _ ih =>
    rw [List.foldl_cons, act_of_ne ha f fun t => t]
    exact ih

end

theorem delivers_foldl {inner : List SubscriptionId → Server → Server → Prop}
    {f : List SubscriptionId → Server → Server} (hf : ∀ ids s, (f ids s).active.Sublist s.active)
    (hi : ∀ b ∈ s.active, b.id ∉ running → ∀ t, t.active.Sublist s.active →
      inner (b.id :: running) t (f (b.id :: running) t))
    (ns : List Notification) (p : List Notification × Server)
    (hp : p.2.active.Sublist s.active) :
    Delivers inner running ns p (ns.foldl (deliver f running) p) := by
  induction ns generalizing p
  case nil => exact .done
  case cons n ns ih =>
    obtain ⟨deferred, t⟩ := p
    have hd := ih _ ((lasting_active.deliver hf running (deferred, t) n).trans hp)
    rw [List.foldl_cons]
    cases hn : t.subscriber? n.subscriber
    case none =>
      simp only [deliver, hn] at hd ⊢
      exact .dropped hn hd
    case some b =>
      by_cases hr : b.id ∈ running
      case pos =>
        simp only [deliver, hn, hr, if_true] at hd ⊢
        exact .deferred hn hr hd
      case neg =>
        simp only [deliver, hn, hr, if_false] at hd ⊢
        refine .called hn hr (acts_foldl (hf _) fun hb u hu => ?_) hd
        have hm : b ∈ t.active :=
          List.mem_filter.mpr ⟨(mem_of_subscriber? hn).left, by simpa using hb⟩
        exact hi b (hp.subset hm) hr u (hu.trans hp)

theorem drains_drainWithin (h : free running s < depth) :
    Drains depth running s (drainWithin depth running s) := by
  induction depth generalizing running s
  case zero => exact absurd h (Nat.not_lt_zero _)
  case succ depth hd =>
    refine ⟨_, _, delivers_foldl (lasting_active.drainWithin depth) ?_ _ _ (.refl _), rfl⟩
    intro b hb hr t ht
    exact hd (Nat.lt_of_lt_of_le (free_lt hb hr ht) (Nat.le_of_lt_succ h))

theorem Delivers.eq {inner : List SubscriptionId → Server → Server → Prop}
    {f : List SubscriptionId → Server → Server} {ns : List Notification}
    {p q : List Notification × Server} (h : Delivers inner running ns p q)
    (hi : ∀ ids s t, inner ids s t → f ids s = t) : ns.foldl (deliver f running) p = q := by
  induction h
  case done => rfl
  case dropped hn _ ih => simpa [deliver, hn] using ih
  case deferred hn hb _ ih => simpa [deliver, hn, hb] using ih
  case called hn hb h _ ih => simpa [deliver, hn, hb, call, h.eq (hi _)] using ih

theorem Drains.eq (h : Drains depth running s t) {depth' : Nat} (hd : depth ≤ depth') :
    drainWithin depth' running s = t := by
  induction depth generalizing running s t depth'
  case zero => exact h.elim
  case succ depth hi =>
    obtain ⟨depth', rfl⟩ := Nat.exists_eq_add_of_le' (Nat.le_of_add_left_le hd)
    have ⟨deferred, u, hs, he⟩ := h
    have hs := hs.eq fun ids s t h => hi h (Nat.le_of_succ_le_succ hd)
    rw [drainWithin, hs, he]

-- In what happens, all drains and calls come to an end. Drains are at most so deep in each other,
-- and nobody is called who is running before or is called already.
structure Nested (depth : Nat) (running : List SubscriptionId) (d : List Entry) : Prop where
  drains : ∀ j, openDrains (d ++ j) = openDrains j
  calls : ∀ j, calling (d ++ j) = calling j
  shallow : ∀ j k, k <:+ d → (openDrains (k ++ j)).length ≤ (openDrains j).length + depth
  fresh : ∀ j n k, calling j = running → .started n :: k <:+ d → n.subscriber ∉ calling (k ++ j)

def Entry.IsQuiet : Entry → Prop
  | .taken _ | .started _ | .finished _ | .putBack _ => False
  | _ => True

@[simp] theorem openDrains_of_quiet {e : Entry} (he : e.IsQuiet) (j : List Entry) :
    openDrains (e :: j) = openDrains j := by
  cases e
  case taken | started | finished | putBack => exact he.elim
  all_goals rfl

@[simp] theorem calling_of_quiet {e : Entry} (he : e.IsQuiet) (j : List Entry) :
    calling (e :: j) = calling j := by
  cases e
  case taken | started | finished | putBack => exact he.elim
  all_goals rfl

theorem suffix_singleton_cases {α : Type} {k : List α} {a : α} (h : k <:+ [a]) :
    k = [a] ∨ k = [] :=
  (List.suffix_cons_iff.mp h).imp_right List.suffix_nil.mp

namespace Nested

variable {d d' : List Entry} {e e' : Entry} {depth' : Nat} {running' : List SubscriptionId}

theorem nil (depth : Nat) (running : List SubscriptionId) : Nested depth running [] := by
  constructor <;> simp

theorem append (h : Nested depth running d) (h' : Nested depth running d') :
    Nested depth running (d' ++ d) where
  drains j := by rw [List.append_assoc, h'.drains, h.drains]
  calls j := by rw [List.append_assoc, h'.calls, h.calls]
  shallow j k hk := by
    rcases suffix_append_cases hk with hk | ⟨e, k, rfl, hs⟩
    · exact h.shallow j k hk
    · rw [List.cons_append, List.append_assoc, ← h.drains j]
      exact h'.shallow (d ++ j) (e :: k) hs
  fresh j n k hj hk := by
    rcases suffix_append_cases hk with hk | ⟨e, k, he, hs⟩
    · exact h.fresh j n k hj hk
    · cases he
      rw [List.append_assoc]
      exact h'.fresh (d ++ j) n k ((h.calls j).trans hj) hs

theorem quiet (he : e.IsQuiet) : Nested depth running [e] where
  drains := openDrains_of_quiet he
  calls := calling_of_quiet he
  shallow j k hk := by
    rcases suffix_singleton_cases hk with rfl | rfl
    · simp [he]
    · simp
  fresh j n k hj hk := by
    rcases suffix_singleton_cases hk with hk | hk
    · cases hk
      exact he.elim
    · cases hk

-- What happens between two entries, the first of which begins what the second one ends.
theorem bracket (h : Nested depth running d)
    (hd : ∀ j, openDrains (e' :: (d ++ e :: j)) = openDrains j)
    (hc : ∀ j, calling (e' :: (d ++ e :: j)) = calling j)
    (he : ∀ j, (openDrains (e :: j)).length + depth ≤ (openDrains j).length + depth')
    (hr : ∀ j, calling j = running' → calling (e :: j) = running)
    (hn : ∀ n, e = .started n → n.subscriber ∉ running') (hn' : ∀ n, e' ≠ .started n) :
    Nested depth' running' (e' :: (d ++ [e])) where
  drains j := by simpa using hd j
  calls j := by simpa using hc j
  shallow j k hk := by
    rcases List.suffix_cons_iff.mp hk with rfl | hk
    · simp [hd]
    rcases suffix_append_cases hk with hk | ⟨x, k, rfl, hs⟩
    · rcases suffix_singleton_cases hk with rfl | rfl
      · exact Nat.le_trans (Nat.le_add_right ..) (he j)
      · simp
    · have hs := h.shallow (e :: j) _ hs
      simp only [List.cons_append, List.append_assoc, List.nil_append] at hs ⊢
      exact Nat.le_trans hs (he j)
  fresh j n k hj hk := by
    rcases List.suffix_cons_iff.mp hk with hk | hk
    · cases hk
      exact absurd rfl (hn' n)
    rcases suffix_append_cases hk with hk | ⟨x, k, hx, hs⟩
    · rcases suffix_singleton_cases hk with hk | hk
      · cases hk
        exact hj ▸ hn n rfl
      · cases hk
    · cases hx
      simpa using h.fresh (e :: j) n k (hr j hj) hs

theorem call (hn : n.subscriber ∉ running) (h : Nested depth (n.subscriber :: running) d)
    (id : SubscriptionId) : Nested depth running (.finished id :: (d ++ [.started n])) := by
  refine h.bracket ?_ ?_ (fun j => Nat.le_refl _) (fun j hj => congrArg _ hj) ?_ (by simp)
  · simp [openDrains, h.drains]
  · simp [calling, h.calls]
  · intro m hm
    cases hm
    exact hn

theorem drain (ns deferred : List Notification) (h : Nested depth running d) :
    Nested (depth + 1) running (.putBack deferred :: (d ++ [.taken ns])) := by
  refine h.bracket ?_ ?_ (fun j => ?_) (fun j hj => hj) (by simp) (by simp)
  · simp [openDrains, h.drains]
  · simp [calling, h.calls]
  · simp only [openDrains, List.length_cons]
    omega

end Nested

-- From one server to another something has happened to the mail, and all that is queued now was
-- queued before or has been posted meanwhile.
structure Course (depth : Nat) (running : List SubscriptionId) (d : List Entry) (s t : Server) :
    Prop extends Nested depth running d where
  journal : t.journal = d ++ s.journal
  left : ∀ n ∈ t.pending, n ∈ s.pending ∨ n ∈ postings d

def Runs (depth : Nat) (running : List SubscriptionId) (s t : Server) : Prop :=
  ∃ d, Course depth running d s t

namespace Runs

theorem refl (depth : Nat) (running : List SubscriptionId) (s : Server) : Runs depth running s s :=
  ⟨[], .nil depth running, rfl, fun _ hn => .inl hn⟩

theorem trans (h : Runs depth running s t) (h' : Runs depth running t u) :
    Runs depth running s u := by
  have ⟨d, hd, hj, hl⟩ := h
  have ⟨d', hd', hj', hl'⟩ := h'
  refine ⟨d' ++ d, hd.append hd', by rw [hj', hj, List.append_assoc], fun n hn => ?_⟩
  rw [postings_append, List.mem_append]
  cases hl' n hn
  case inl hn => exact (hl n hn).imp_right .inl
  case inr hn => exact .inr (.inr hn)

theorem quiet (e : Entry) (he : e.IsQuiet) (hj : t.journal = e :: s.journal)
    (hp : t.pending ⊆ s.pending) : Runs depth running s t :=
  ⟨[e], .quiet he, hj, fun _ hn => .inl (hp hn)⟩

theorem feeds (h : Feeds s t) : Runs depth running s t := by
  have ⟨es, h⟩ := h
  refine ⟨es, ?_, h.journal, fun n hn => by simpa [h.pending] using hn⟩
  have hq : ∀ e ∈ es, e.IsQuiet := fun e he => by
    obtain ⟨pv, n, rfl⟩ := h.posted e he
    trivial
  clear h
  induction es
  case nil => exact .nil depth running
  case cons e es hi =>
    have ⟨he, hes⟩ := List.forall_mem_cons.mp hq
    exact (hi hes).append (.quiet he)

theorem act {id : SubscriptionId} {event : Event} {a : Action} (ha : a ≠ .drain) :
    Runs depth running s (act (fun t => t) id event s a) := by
  cases a
  case drain => exact absurd rfl ha
  case set => exact feeds (.set ..)
  case put => exact feeds (.put ..)
  case get => exact quiet (.got _ _) trivial rfl (List.Subset.refl _)
  case subscribe => exact quiet (.subscribed _) trivial rfl (List.Subset.refl _)
  case unsubscribe handle =>
    simp only [Server.act]
    split
    · exact quiet (.cancelled _) trivial rfl List.filter_sublist.subset
    · exact refl ..

end Runs

theorem Acts.runs {inner : Server → Server → Prop} {id : SubscriptionId} {event : Event}
    {as : List Action} (h : Acts inner id event as s t)
    (hi : ∀ s t, inner s t → Runs depth running s t) : Runs depth running s t := by
  induction h
  case done => exact .refl ..
  case drain h _ ih => exact (hi _ _ h).trans ih
  case other ha _ ih => exact (Runs.act ha).trans ih

theorem Delivers.runs {inner : List SubscriptionId → Server → Server → Prop}
    {ns : List Notification} {p q : List Notification × Server} (h : Delivers inner running ns p q)
    (hi : ∀ ids s t, inner ids s t → Runs depth ids s t) : Runs depth running p.2 q.2 := by
  induction h
  case done => exact .refl ..
  case dropped ih => exact ih
  case deferred ih => exact ih
  case called n _ _ s t _ b hn hb h _ ih =>
    have ⟨_, he⟩ := mem_of_subscriber? hn
    have ⟨d, hd, hj, hl⟩ := h.runs (hi _)
    refine .trans ⟨_, .call (he ▸ hb) (he ▸ hd) b.id, ?_, fun n hn => ?_⟩ ih
    · simpa [note, Mail.note] using hj
    · simpa [note, Mail.note] using hl n hn

theorem Delivers.deferred_subset {inner : List SubscriptionId → Server → Server → Prop}
    {ns : List Notification} {p q : List Notification × Server}
    (h : Delivers inner running ns p q) :
    ∀ n ∈ q.1, n ∈ p.1 ∨ n ∈ ns ∧ n.subscriber ∈ running := by
  induction h
  case done => exact fun n hn => .inl hn
  case dropped ih => exact fun n hn => (ih n hn).imp_right fun h => ⟨.tail _ h.left, h.right⟩
  case called ih => exact fun n hn => (ih n hn).imp_right fun h => ⟨.tail _ h.left, h.right⟩
  case deferred hn hb _ ih =>
    intro n hm
    have ⟨_, he⟩ := mem_of_subscriber? hn
    rcases ih n hm with hm | ⟨hm, hr⟩
    · cases List.mem_append.mp hm
      case inl hm => exact .inl hm
      case inr hm =>
        cases List.mem_singleton.mp hm
        exact .inr ⟨List.mem_cons_self, he ▸ hb⟩
    · exact .inr ⟨.tail _ hm, hr⟩

theorem Drains.exists_course (h : Drains depth running s t) :
    ∃ d, Course depth running d s t ∧
      ∀ n ∈ t.pending, n.subscriber ∈ running ∨ n ∈ postings d := by
  induction depth generalizing running s t
  case zero => exact h.elim
  case succ depth hi =>
    obtain ⟨deferred, u, h, rfl⟩ := h
    have ⟨d, hd, hj, hl⟩ := h.runs fun ids s t h => (hi h).imp fun _ => And.left
    have hp n (hn : n ∈ (u.putBack deferred).pending) :
        n ∈ s.pending ∧ n.subscriber ∈ running ∨ n ∈ postings d := by
      cases List.mem_append.mp hn
      case inl hn => exact .inl ((h.deferred_subset n hn).resolve_left List.not_mem_nil)
      case inr hn => exact .inr ((hl n hn).resolve_left List.not_mem_nil)
    have hq : postings (.putBack deferred :: (d ++ [.taken s.pending])) = postings d := by
      simp
    have hj : u.journal = d ++ s.take.journal := hj
    refine ⟨_, ⟨hd.drain s.pending deferred, ?_, fun n hn => ?_⟩, fun n hn => ?_⟩
    · simp [putBack, Mail.putBack, hj, take, Mail.take]
    · exact hq ▸ (hp n hn).imp_left And.left
    · exact hq ▸ (hp n hn).imp_left And.right

-- A drain comes to an end, whatever subscribers do about the events, and to one end only. It is no
-- deeper than one more than there are subscribers, nobody is called while being called, and what
-- is queued afterwards has been posted during it.
theorem drain_terminates (s : Server) :
    Drains (s.subscribers.length + 1) [] s s.drain ∧
    (∀ depth t, Drains depth [] s t → t = s.drain) ∧
    ∃ during, s.drain.journal = during ++ s.journal ∧
      (∀ j, j <:+ during → (openDrains j).length ≤ s.subscribers.length + 1) ∧
      (∀ n j, .started n :: j <:+ during → n.subscriber ∉ calling j) ∧
      s.drain.pending ⊆ postings during := by
  have hd : Drains (s.subscribers.length + 1) [] s s.drain :=
    drains_drainWithin (Nat.lt_succ_of_le (free_le [] s))
  have ⟨during, hc, hp⟩ := hd.exists_course
  refine ⟨hd, fun depth t ht => ?_, during, hc.journal, fun j hj => ?_, fun n j hj => ?_, ?_⟩
  · have ht := ht.eq (Nat.le_max_left depth (s.subscribers.length + 1))
    exact ht.symm.trans (hd.eq (Nat.le_max_right ..))
  · simpa [openDrains] using hc.shallow [] j hj
  · simpa using hc.fresh [] n j rfl hj
  · exact fun n hn => (hp n hn).resolve_left List.not_mem_nil

end Readback.Server
