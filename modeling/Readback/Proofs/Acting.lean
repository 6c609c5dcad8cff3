import Readback.Server.Transport

namespace Readback.Server

-- A relation between servers that lasts through a drain, whatever subscribers do about the events.
structure Lasting (R : Server → Server → Prop) : Prop where
  refl : ∀ s, R s s
  trans : ∀ {s t u}, R s t → R t u → R s u
  note : ∀ s e, R s (s.note e)
  take : ∀ s, R s s.take
  putBack : ∀ s ns, R s (s.putBack ns)
  set : ∀ s pv v, R s (s.set pv v)
  put : ∀ s name v, R s (s.put name v).2
  subscribe : ∀ s pv handle, R s (s.subscribe pv (some handle) []).2
  unsubscribe : ∀ s id, R s (s.unsubscribe id)

namespace Lasting

variable {R : Server → Server → Prop} (h : Lasting R)
include h

theorem foldl {α : Type} {f : Server → α → Server} (hf : ∀ s a, R s (f s a)) (as : List α)
    (s : Server) : R s (as.foldl f s) := by
  induction as generalizing s
  case nil => exact h.refl s
  case cons a as hi => exact h.trans (hf s a) (hi (f s a))

theorem act {inner : Server → Server} (hi : ∀ s, R s (inner s)) (id : SubscriptionId)
    (event : Event) (s : Server) (a : Action) : R s (act inner id event s a) := by
  cases a
  case set => exact h.set ..
  case put => exact h.put ..
  case get pv => exact h.note s (.got id (s.get pv))
  case drain => exact hi s
  case subscribe pv handle => exact h.subscribe s pv handle
  case unsubscribe =>
    simp only [Server.act]
    split
    · exact h.unsubscribe ..
    · exact h.refl s

theorem call {inner : Server → Server} (hi : ∀ s, R s (inner s)) (b : Subscriber)
    (n : Notification) (s : Server) : R s (call inner b n s) := by
  have ha := h.foldl (h.act hi b.id n.event) b.script (s.note (.started n))
  exact h.trans (h.note s (.started n)) (h.trans ha (h.note _ (.finished b.id)))

theorem deliver {inner : List SubscriptionId → Server → Server} (hi : ∀ ids s, R s (inner ids s))
    (running : List SubscriptionId) (p : List Notification × Server) (n : Notification) :
    R p.2 (deliver inner running p n).2 := by
  simp only [Server.deliver]
  split
  · exact h.refl p.2
  · split
    · exact h.refl p.2
    · exact h.call (hi _) ..

theorem deliverAll {inner : List SubscriptionId → Server → Server}
    (hi : ∀ ids s, R s (inner ids s)) (running : List SubscriptionId) (ns : List Notification)
    (p : List Notification × Server) : R p.2 (ns.foldl (Server.deliver inner running) p).2 := by
  induction ns generalizing p
  case nil => exact h.refl p.2
  case cons n ns ih => exact h.trans (h.deliver hi running p n) (ih _)

theorem drainWithin (depth : Nat) (running : List SubscriptionId) (s : Server) :
    R s (drainWithin depth running s) := by
  induction depth generalizing running s
  case zero => exact h.refl s
  case succ depth hi =>
    have hd := h.deliverAll hi running s.pending ([], s.take)
    exact h.trans (h.take s) (h.trans hd (h.putBack ..))

theorem drain (s : Server) : R s s.drain :=
  h.drainWithin ..

end Lasting
end Readback.Server
