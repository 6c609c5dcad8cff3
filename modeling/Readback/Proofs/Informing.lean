import Readback.Proofs.Monitoring

namespace Readback.Server

open Traffic

-- From one server to another something has been queued for those who listen to a record that is
-- posted, and for nobody else. No other record has changed.
structure Queues (names : List String) (s t : Server) : Prop where
  subscribers : t.subscribers = s.subscribers
  clock : t.clock = s.clock
  others : ∀ pv ∉ names, t.records.find? pv = s.records.find? pv
  queued : ∀ b, s.Listens b → ∃ ns,
    sentTo b.id t.pending = sentTo b.id s.pending ++ ns ∧ (ns = [] ↔ b.pv ∉ names)

variable {s t u : Server} {names names' : List String} {pv : String} {b : Subscriber}
  {ds : List Drain} {m : Move}

namespace Queues

theorem notify {records : Registry Record}
    (ho : ∀ q, q ≠ pv → records.find? q = s.records.find? q) (hp : records.contains pv) :
    Queues [pv] s (({ s with records } : Server).notify pv) where
  subscribers := subscribers_notify ..
  clock := clock_notify ..
  others q hq := by rw [records_notify, ho q (by simpa using hq)]
  queued b hb := by
    obtain ⟨r, hr⟩ := Option.isSome_iff_exists.mp hp
    have ⟨ns, hs, _, hn⟩ := sentTo_announce s.toMail pv r.event b.id
    refine ⟨ns, ?_, ?_⟩
    · simpa only [Server.notify, hr] using hs
    · rw [hn, hb.mem_listeners, List.mem_singleton]

theorem trans (h : Queues names s t) (h' : Queues names' t u) : Queues (names ++ names') s u where
  subscribers := h'.subscribers.trans h.subscribers
  clock := h'.clock.trans h.clock
  others pv hp := by
    simp only [List.mem_append, not_or] at hp
    rw [h'.others pv hp.right, h.others pv hp.left]
  queued b hb := by
    obtain ⟨ns, hs, hn⟩ := h.queued b hb
    obtain ⟨ns', hs', hn'⟩ := h'.queued b (hb.congr h.subscribers)
    refine ⟨ns ++ ns', by rw [hs', hs, List.append_assoc], ?_⟩
    simp [hn, hn']

theorem postingRelation : PostingRelation Queues where
  quiet hm hr hc _ := {
    subscribers := congrArg Mail.subscribers hm
    clock := hc
    others := fun _ _ => by rw [hr]
    queued := fun _ _ => ⟨[], by rw [hm, List.append_nil], by simp⟩ }
  notify := .notify
  trans := .trans

end Queues

theorem get_congr (hc : t.clock = s.clock) {r : Record} (hs : s.records.find? pv = some r)
    (ht : t.records.find? pv = some r) : t.get pv = s.get pv := by
  rw [get, get, resolve?_record hs, resolve?_record ht, hc]

theorem mem_posts_iff (hm : m.IsPossible s) (ho : m.IsOpen)
    (hg : (m.apply s).get pv ≠ s.get pv) :
    pv ∈ m.posts s ↔ (m.apply s).records.contains pv := by
  have ha := Announces.postingRelation.move hm ho
  have hq := Queues.postingRelation.move hm ho
  constructor
  case mp => exact fun hp => eventOf?_isSome ▸ ha.posted pv hp
  case mpr =>
    intro hc
    by_contra hp
    have ⟨r, hr⟩ := Option.isSome_iff_exists.mp hc
    exact hg (get_congr hq.clock (hq.others pv hp ▸ hr) hr)

-- A change that can be read under the name of a subscription is queued for it just if a record has
-- this name. The last of what is queued then tells how the record is now. Nothing is queued for a
-- name that stands for a field. Subscribers may still be at work: between two calls of a server no
-- drain goes on, which makes this a theorem about `Reached` servers.
theorem pushed_iff_record (h : Reachable ⟨ds, s.toMail⟩) (hb : b ∈ s.subscribers)
    (hm : m.IsPossible s) (ho : m.IsOpen) (hg : (m.apply s).get b.pv ≠ s.get b.pv) :
    ∃ ns, sentTo b.id (m.apply s).pending = sentTo b.id s.pending ++ ns ∧
      (ns ≠ [] ↔ (m.apply s).records.contains b.pv) ∧
      (ns ≠ [] → ns.getLast?.map Notification.event = (m.apply s).eventOf? b.pv) := by
  have hl := h.registered.listens hb
  have ha := (Announces.postingRelation.move hm ho).heard b hl
  have ⟨ns, hs, hn⟩ := (Queues.postingRelation.move hm ho).queued b hl
  have hp : ns ≠ [] ↔ b.pv ∈ m.posts s := by rw [ne_eq, hn, not_not]
  refine ⟨ns, hs, hp.trans (mem_posts_iff hm ho hg), fun hne => ?_⟩
  rw [if_pos (hp.mp hne), heard, hs, List.getLast?_append,
    List.getLast?_eq_some_getLast hne] at ha
  rw [List.getLast?_eq_some_getLast hne]
  exact ha

-- A write to a setpoint is pushed to those who listen to the readback that follows it.
theorem pushed_iff_record_of_linked_put :
    let s := run [.insert "SP" (.int 0), .insert "RB" (.int 0), .link "SP" "RB",
      .subscribe "RB" none []] .empty
    let t := (s.put "SP" (.int 5)).2
    Reached s ∧ s.get "RB" = .ok (.int 0) ∧ t.get "RB" = .ok (.int 5) ∧
      sentTo 1 t.pending ≠ [] := by
  intro s t
  have hr : Reached s := Reached.empty.run _
  have hs : s.get "RB" = .ok (.int 0) := rfl
  have ht : t.get "RB" = .ok (.int 5) := rfl
  have hb : ⟨1, "RB", none, []⟩ ∈ s.subscribers := List.mem_singleton.mpr rfl
  have ⟨ns, hn, hc, _⟩ := pushed_iff_record (m := .perform (.put "SP" (.int 5))) hr.reachable hb
    trivial id fun he => by cases hs.symm.trans (he.symm.trans ht)
  refine ⟨hr, hs, ht, fun hnil => ?_⟩
  exact hc.mpr rfl (List.append_eq_nil_iff.mp (hn.symm.trans hnil)).right

-- Whatever changes an alarm changes what the field of the severity reads, and nobody who listens to
-- the field is told.
theorem field_change_not_pushed :
    let name := Field.severity.of "A"
    let s := run [.insert "A" (.int 1), .setAlarm "A" .major "HIHI", .subscribe name none []] .empty
    let lowered := s.setAlarm "A" .minor "HIGH"
    let forced := (s.put (Field.simulatedSeverity.of "A") (.int 3)).2
    let cleared := (Move.resetIn ["A"]).apply s
    s.get name = .ok Severity.major.toValue ∧
    (lowered.get name = .ok Severity.minor.toValue ∧ lowered.pending = []) ∧
    (forced.get name = .ok Severity.invalid.toValue ∧ forced.pending = []) ∧
    (cleared.get name = .ok Severity.noAlarm.toValue ∧ cleared.pending = []) :=
  ⟨rfl, ⟨rfl, rfl⟩, ⟨rfl, rfl⟩, ⟨rfl, rfl⟩⟩

end Readback.Server
