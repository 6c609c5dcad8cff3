import Readback.Proofs.Posting

namespace Readback.Server

structure Mail.Appends (es : List Entry) (m m' : Mail) : Prop where
  posted : ∀ e ∈ es, ∃ pv n, e = .posted pv n
  journal : m'.journal = es ++ m.journal
  pending : m'.pending = m.pending ++ postings es
  subscribers : m'.subscribers = m.subscribers

-- From one server to another nothing but postings has happened to the mail.
def Feeds (s t : Server) : Prop :=
  ∃ es, s.toMail.Appends es t.toMail

variable {s t u : Server} {m m' m'' : Mail} {es es' : List Entry} {pv : String}

namespace Mail.Appends

theorem refl (m : Mail) : Appends [] m m where
  posted := nofun
  journal := rfl
  pending := (List.append_nil _).symm
  subscribers := rfl

theorem trans (h : Appends es m m') (h' : Appends es' m' m'') : Appends (es' ++ es) m m'' where
  posted := List.forall_mem_append.mpr ⟨h'.posted, h.posted⟩
  journal := by rw [h'.journal, h.journal, List.append_assoc]
  pending := by rw [h'.pending, h.pending, postings_append, List.append_assoc]
  subscribers := h'.subscribers.trans h.subscribers

theorem post (m : Mail) (pv : String) (event : Event) (id : SubscriptionId) :
    Appends [.posted pv ⟨m.nextSerial, id, event⟩] m (m.post pv event id) where
  posted := by simp
  journal := rfl
  pending := rfl
  subscribers := rfl

theorem exists_announce (m : Mail) (pv : String) (event : Event) :
    ∃ es, Appends es m (m.announce pv event) := by
  unfold Mail.announce
  generalize m.listeners pv = ids
  induction ids generalizing m
  case nil => exact ⟨[], refl m⟩
  case cons id ids hi =>
    have ⟨es, h⟩ := hi (m.post pv event id)
    exact ⟨_, (post m pv event id).trans h⟩

theorem deliveries_eq_nil (h : Appends es m m') : deliveries es = [] := by
  refine List.eq_nil_iff_forall_not_mem.mpr fun n hn => ?_
  have ⟨_, _, he⟩ := h.posted _ (mem_deliveries.mp hn)
  cases he

end Mail.Appends

namespace Feeds

theorem of_mail (h : t.toMail = s.toMail) : Feeds s t :=
  ⟨[], h ▸ .refl _⟩

theorem trans (h : Feeds s t) (h' : Feeds t u) : Feeds s u := by
  have ⟨es, h⟩ := h
  have ⟨es', h'⟩ := h'
  exact ⟨es' ++ es, h.trans h'⟩

theorem subscribers (h : Feeds s t) : t.subscribers = s.subscribers := by
  have ⟨_, h⟩ := h
  exact h.subscribers

theorem notify (s : Server) (pv : String) : Feeds s (s.notify pv) := by
  unfold Server.notify
  split
  · exact .of_mail rfl
  · exact Mail.Appends.exists_announce ..

theorem set (s : Server) (pv : String) (v : Value) : Feeds s (s.set pv v) :=
  notify (s.assign pv v) pv

theorem amend (s : Server) (pv : String) (f : Record → Record) : Feeds s (s.amend pv f) :=
  notify { s with records := s.records.modify pv f } pv

theorem resetAll (s : Server) (names : List String) : Feeds s (s.resetAll names) := by
  induction names generalizing s
  case nil => exact .of_mail rfl
  case cons pv names hi => exact (amend s pv Record.reset).trans (hi _)

theorem postingRelation : PostingRelation fun _ => Feeds where
  quiet hm _ _ _ := .of_mail hm
  notify {s pv records} _ _ := notify { s with records } pv
  trans := trans

theorem put (s : Server) (name : String) (v : Value) : Feeds s (s.put name v).2 :=
  postingRelation.put s name v

theorem perform {op : Operation} (hp : op.IsPlain) (s : Server) : Feeds s (op.perform s) := by
  by_cases hs : op.IsSilent
  case pos => exact .of_mail (toMail_of_silent hs).left
  case neg => exact postingRelation.perform hp hs

end Feeds
end Readback.Server
