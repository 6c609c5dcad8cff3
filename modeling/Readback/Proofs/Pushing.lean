import Readback.Proofs.Feeding
import Readback.Proofs.Forcing
import Readback.Proofs.Origins
import Readback.Proofs.Reaching

namespace Readback

namespace Server

def Task.IsPlain : Task → Prop
  | .once _ op => op.IsPlain
  | .stream _ _ _ _ => True

def Plain (s : Server) : Prop :=
  ∀ task ∈ s.agenda, task.IsPlain

-- What others may do to a server meanwhile: they subscribe nobody and deliver nothing. A reset may
-- come to the records in any order.
inductive Meanwhile : Server → Server → Prop
  | refl {s} : Meanwhile s s
  | perform {s t} {op : Operation} (hp : op.IsPlain) : Meanwhile s t → Meanwhile s (op.perform t)
  | reset {s t names} (hn : names.Perm t.records.keys) :
    Meanwhile s t → Meanwhile s (t.resetIn names)
  | pass {s t} (clock : Nat) {agenda : List Task} (ha : ∀ task ∈ agenda, task.IsPlain) :
    Meanwhile s t → Meanwhile s { t with clock, agenda }

structure Sleeps (elapse : Nat → Server → Server) : Prop where
  meanwhile : ∀ d t, t.Plain → Meanwhile t (elapse d t)
  lasts : ∀ d t, t.clock + d ≤ (elapse d t).clock

def transportAmid (elapse : Nat → Server → Server) : Transport Server :=
  { transport with sleep := elapse }

def pushed (id : SubscriptionId) (journal : List Entry) : Option Value :=
  (sentTo id (postings journal)).getLast?.map fun n => n.event.value

-- When some drain began, the last value that had been posted for a subscriber met a condition.
def Met (c : Condition) (id : SubscriptionId) (journal : List Entry) : Prop :=
  ∃ ns j v, .taken ns :: j <:+ journal ∧ pushed id j = some v ∧ c.holds v

variable {s t : Server} {b : Subscriber} {c : Condition} {id : SubscriptionId}
  {later es : List Entry} {elapse : Nat → Server → Server}

theorem agenda_perform {op : Operation} (hp : op.IsPlain) (s : Server) :
    (op.perform s).agenda = s.agenda := by
  by_cases hs : op.IsSilent
  case pos => exact (toMail_of_silent hs).right.left
  case neg => exact (announces_perform hp hs).agenda

theorem plain_upTo {task : Task} (h : task.IsPlain) (moment : Nat) :
    (∀ op ∈ (task.upTo moment).1, op.2.IsPlain) ∧ ∀ rest ∈ (task.upTo moment).2, rest.IsPlain := by
  cases task
  case once due op =>
    simp only [Task.upTo]
    split
    · exact ⟨fun op ho => List.mem_singleton.mp ho ▸ h, by simp⟩
    · exact ⟨by simp, by simpa using h⟩
  case stream due period pv values =>
    obtain ⟨hf, _, _, hr⟩ := upTo_stream moment due period pv values
    rw [hr]
    refine ⟨fun op ho => ?_, fun rest hr => ?_⟩
    · obtain ⟨_, _, he⟩ := hf op ho
      exact he ▸ trivial
    · cases hr
      trivial

namespace Meanwhile

theorem feeds (h : Meanwhile s t) : Feeds s t := by
  induction h
  case refl => exact .of_mail rfl
  case perform hp _ hi => exact hi.trans (.perform hp _)
  case reset t names _ _ hi =>
    exact hi.trans (Feeds.resetAll { t with functions := t.functions ++ ["reset"] } names)
  case pass hi => exact hi.trans (.of_mail rfl)

theorem evolves (h : Meanwhile s t) : Evolves [] s t := by
  induction h
  case refl => exact .refl
  case perform op _ _ hi => exact hi.trans (evolves_perform op _)
  case reset t names _ _ hi =>
    exact hi.trans (evolves_resetAll { t with functions := t.functions ++ ["reset"] } names)
  case pass hi => exact hi.trans (.of_eq rfl)

theorem plain (h : Meanwhile s t) (hs : s.Plain) : t.Plain := by
  induction h
  case refl => exact hs
  case perform hp _ hi => exact fun task ht => hi task (agenda_perform hp _ ▸ ht)
  case reset hi => exact fun task ht => hi task ((SetUpAlike.resetIn ..).agenda ▸ ht)
  case pass ha _ _ => exact ha

end Meanwhile

theorem sleeps_sleep : Sleeps Server.sleep where
  meanwhile d t ht := by
    let P (u : Server) : Prop := Meanwhile t u ∧ u.Plain
    refine (advance_induction (P := P) ?start ?step ?finish).left
    case start =>
      have ha : ∀ rest ∈ (t.agenda.map (Task.upTo (t.clock + d))).filterMap Prod.snd,
          rest.IsPlain := by
        intro rest hr
        simp only [List.mem_filterMap, List.mem_map] at hr
        obtain ⟨_, ⟨task, hm, rfl⟩, hr⟩ := hr
        exact (plain_upTo (ht task hm) _).right rest hr
      exact ⟨.pass t.clock ha .refl, ha⟩
    case step =>
      intro task hm op ho u ⟨hu, ha⟩
      have hp := (plain_upTo (ht task hm) _).left op ho
      have hm : Meanwhile t (op.2.perform { u with clock := max u.clock op.1 }) :=
        .perform hp (.pass _ ha hu)
      exact ⟨hm, hm.plain ht⟩
    case finish => exact fun u ⟨hu, ha⟩ => ⟨.pass _ ha hu, ha⟩
  lasts _ _ := Nat.le_max_right ..

theorem met_append (h : ∀ ns, .taken ns ∉ es) : Met c id (es ++ later) ↔ Met c id later := by
  constructor
  case mp =>
    intro ⟨ns, j, v, hj, hv⟩
    exact ⟨ns, j, v, suffix_of_not_mem hj (h ns), hv⟩
  case mpr =>
    intro ⟨ns, j, v, hj, hv⟩
    exact ⟨ns, j, v, hj.trans (List.suffix_append ..), hv⟩

theorem met_taken {ns : List Notification} :
    Met c id (.taken ns :: later) ↔
      (∃ v, pushed id later = some v ∧ c.holds v) ∨ Met c id later := by
  constructor
  case mp =>
    intro ⟨ns, j, v, hj, hv⟩
    cases List.suffix_cons_iff.mp hj
    case inl he =>
      cases he
      exact .inl ⟨v, hv⟩
    case inr hj => exact .inr ⟨ns, j, v, hj, hv⟩
  case mpr =>
    intro h
    rcases h with ⟨v, hv⟩ | ⟨ns, j, v, hj, hv⟩
    · exact ⟨ns, later, v, List.suffix_refl _, hv⟩
    · exact ⟨_, j, v, hj.trans (List.suffix_cons ..), hv⟩

theorem met_drain {d : List Entry} (hd : ∀ e ∈ d, e.IsCall) {ns : List Notification} :
    Met c id (.putBack [] :: (d ++ .taken ns :: later)) ↔
      (∃ v, pushed id later = some v ∧ c.holds v) ∨ Met c id later := by
  rw [← List.cons_append, met_append, met_taken]
  intro ns hn
  cases hn
  case tail hn => exact hd _ hn

theorem pushed_drain {d : List Entry} (hd : ∀ e ∈ d, e.IsCall) {ns : List Notification} :
    pushed id (.putBack [] :: (d ++ .taken ns :: later)) = pushed id later := by
  simp [pushed, postings_of_calls hd]

-- A monitor has been started on a server, and since then no other subscriber has come or gone.
structure Tapped (s : Server) (b : Subscriber) (t : Server) (later : List Entry) : Prop where
  reachable : Traffic.Reachable ⟨[], t.toMail⟩
  passive : t.Passive
  plain : t.Plain
  subscribers : t.subscribers = s.subscribers ++ [b]
  journal : t.journal = later ++ .subscribed b :: s.journal
  told : sentTo b.id (postings later) =
    sentTo b.id (deliveries t.journal) ++ sentTo b.id t.pending

namespace Tapped

theorem start (h : Reached s) (hp : s.Passive) (ha : s.Plain) (pv : String) :
    Tapped s ⟨s.nextId, pv, none, []⟩ (s.subscribe pv none []).2 [] where
  reachable := (h.perform (.subscribe pv none [])).reachable
  passive := List.forall_mem_append.mpr ⟨hp, by simp⟩
  plain := ha
  subscribers := rfl
  journal := rfl
  told := by
    have ⟨_, hd, hq⟩ := h.reachable.sentTo_nextId
    have hd : sentTo s.nextId (deliveries s.journal) = [] := hd
    have hq : sentTo s.nextId s.pending = [] := hq
    simp [subscribe, Mail.subscribe, hd, hq]

theorem live (h : Tapped s b t later) : t.Live b.id :=
  ⟨b, h.subscribers ▸ List.mem_append_right _ List.mem_cons_self, rfl⟩

theorem sleep (h : Tapped s b t later) (hs : Sleeps elapse) (d : Nat) :
    ∃ es, (∀ ns, .taken ns ∉ es) ∧ Tapped s b (elapse d t) (es ++ later) := by
  have hm := hs.meanwhile d t h.plain
  have ⟨es, hf⟩ := hm.feeds
  have hd : ∀ ns, .taken ns ∉ es := fun ns hn => by
    have ⟨_, _, he⟩ := hf.posted _ hn
    cases he
  refine ⟨es, hd, h.reachable.steps hm.evolves, ?_, hm.plain h.plain,
    hf.subscribers.trans h.subscribers, ?_, ?_⟩
  · rw [Passive, hf.subscribers]
    exact h.passive
  · rw [hf.journal, h.journal, List.append_assoc]
  · rw [hf.journal, hf.pending, deliveries_append, hf.deliveries_eq_nil, postings_append,
      sentTo_append, h.told]
    simp

theorem drain (h : Tapped s b t later) :
    ∃ d, (∀ e ∈ d, e.IsCall) ∧
      Tapped s b t.drain (.putBack [] :: (d ++ .taken t.pending :: later)) := by
  have ht := told_drain h.passive h.live
  have hr : Traffic.Reachable ⟨[], t.drain.toMail⟩ := h.reachable.steps (evolves_drain t)
  have ⟨d, hd, he⟩ := exists_drain_eq h.passive
  rw [he] at hr ht ⊢
  refine ⟨d, hd, hr, h.passive, h.plain, h.subscribers, by simp [h.journal], ?_⟩
  rw [ht, ← h.told]
  simp [postings_of_calls hd]

theorem value_drain (h : Tapped s b t later) :
    (latest b.id t.drain).map Event.value = pushed b.id later := by
  rw [latest_eq, told_drain h.passive h.live, ← h.told, Option.map_map]
  rfl

theorem posted (h : Tapped s b t later) {n : Notification} (hn : n ∈ postings later)
    (hi : n.subscriber = b.id) : .posted b.pv n ∈ later := by
  have ⟨pv, hp⟩ := mem_postings.mp hn
  have hb : .subscribed b ∈ t.journal := h.journal ▸ List.mem_append_right _ List.mem_cons_self
  cases h.reachable.posted_pv hb (h.journal ▸ List.mem_append_left _ hp) hi
  exact hp

theorem subscribers_unsubscribe (h : Tapped s b t later) (hs : Reached s) (hb : b.id = s.nextId) :
    (t.unsubscribe b.id).subscribers = s.subscribers := by
  have hr := hs.reachable.registered
  have hk : ∀ b' ∈ s.subscribers, b'.id ≠ b.id := fun b' hm =>
    hb ▸ Nat.ne_of_lt (hr.below b' (hr.subscribed b' hm))
  simpa [unsubscribe, Mail.unsubscribe, h.subscribers] using hk

end Tapped

theorem look_monitor {k : Checker Server} (hk : k.transport = transportAmid elapse) (full : String)
    (m : Monitor) (c : Condition) (expectation : String) (t : Server) :
    k.look full (.monitor m) c expectation t =
      (.ok (Checker.judge c expectation ((latest m.id t.drain).map Event.value)), t.drain) := by
  unfold Checker.look Checker.observe Monitor.value? Monitor.event?
  rw [hk]
  rfl

theorem judge_of_holds {expectation : String} {observed : Option Value}
    (h : ∃ v, observed = some v ∧ c.holds v) :
    Checker.judge c expectation observed = .success := by
  obtain ⟨v, rfl, hv⟩ := h
  simp [Checker.judge, hv]

theorem judge_of_not_holds {expectation : String} {observed : Option Value}
    (h : ¬∃ v, observed = some v ∧ c.holds v) :
    Checker.judge c expectation observed = .failure ⟨expectation, observed⟩ := by
  have hv : ¬observed.any c.holds := by simpa [Option.any_eq_true] using h
  rw [Checker.judge, if_neg hv]

-- As long as one has to look again, no drain has found a value that meets the condition.
theorem exists_tapped_visit {look : StateM Server Evaluation} {expectation : String}
    {pause deadline n : Nat} (hs : Sleeps elapse) (hl : ∀ t, look t =
      (.ok (Checker.judge c expectation ((latest b.id t.drain).map Event.value)), t.drain))
    (h : Tapped s b t [])
    (hg : (transportAmid elapse).GoesOn pause deadline Clock.Settled look t n) :
    ∃ later, Tapped s b ((transportAmid elapse).visit pause look t n) later ∧
      ¬Met c b.id later := by
  induction n
  case zero => exact ⟨[], h, by simp [Met]⟩
  case succ n hi =>
    obtain ⟨later, hw, hm⟩ := hi fun m hm => hg m (Nat.lt_succ_of_lt hm)
    have hn := (hg n (Nat.lt_succ_self n)).left
    rw [Clock.answer, hl, hw.value_drain] at hn
    obtain ⟨d, hd, hw⟩ := hw.drain
    obtain ⟨es, he, hw⟩ := hw.sleep hs pause
    rw [Clock.visit, hl]
    refine ⟨_, hw, ?_⟩
    rw [met_append he, met_drain hd, not_or]
    exact ⟨fun hv => hn (by rw [judge_of_holds hv]; rfl), hm⟩

theorem ticks_look {look : StateM Server Evaluation} (hs : Sleeps elapse)
    (hl : ∀ t, (look t).2 = t.drain) {pause : Nat} (hp : 0 < pause) :
    (transportAmid elapse).Ticks pause look := by
  intro t
  have hc : t.drain.clock = t.clock := lasting_clock.drain t
  rw [hl]
  exact Nat.lt_of_lt_of_le (hc ▸ Nat.lt_add_of_pos_right hp) (hs.lasts pause t.drain)

end Server

namespace Checker

theorem run_assertPosted {σ : Type} {k : Checker σ} {pv : String} {c : Condition}
    {o : AssertOptions} {m : Monitor} {s t : σ}
    (h : Monitor.start k.transport (k.fullName pv) s = (.ok m, t)) :
    (k.assertPosted pv c o).run s =
      let (p, u) := k.poll pv (.monitor m) c o t
      (conclude (k.fullName pv) (k.timeoutOf o) p.verdict, (m.stop k.transport u).2) :=
  Assertion.run_bind_of_ok (Assertion.run_ofAccess h)

open Server in
theorem exists_last_look {k : Checker Server} {elapse : Nat → Server → Server} (hs : Sleeps elapse)
    (hk : k.transport = transportAmid elapse) (pv : String) (c : Condition) (o : AssertOptions)
    (s : Server) :
    let m : Monitor := ⟨k.fullName pv, s.nextId⟩
    let t := (s.subscribe (k.fullName pv) none []).2
    let look := k.look (k.fullName pv) (.monitor m) c (k.expectationOf pv c o)
    ∃ n, (k.assertPosted pv c o).run s =
        (conclude (k.fullName pv) (k.timeoutOf o) ((transportAmid elapse).answer k.pause look t n),
          (look ((transportAmid elapse).visit k.pause look t n)).2.unsubscribe m.id) ∧
      (transportAmid elapse).Last k.pause (s.clock + k.timeoutOf o) Clock.Settled look t n := by
  intro m t look
  have hm : Monitor.start k.transport (k.fullName pv) s = (.ok m, t) := by
    rw [hk]
    rfl
  have hc : (transportAmid elapse).Ticks k.pause look :=
    ticks_look hs (fun t => congrArg Prod.snd (look_monitor hk _ m c _ t)) (Nat.le_max_right ..)
  have ⟨n, hn, _, hl⟩ := Clock.pollUntil_eq_polled (transportAmid elapse).toClock k.pause
    (s.clock + k.timeoutOf o) look t
  have hx : k.poll pv (.monitor m) c o t = (transportAmid elapse).polled k.pause look t n := by
    rw [← hn, poll, hk]
    rfl
  refine ⟨n, ?_, hl hc⟩
  rw [run_assertPosted hm, hx, hk]
  rfl

end Checker

open Server in
-- An assertion about what is posted passes just if at some drain since it began the last value
-- posted meanwhile met its condition, whatever others do between its looks. Otherwise it fails at
-- its deadline, with the last value that was posted meanwhile, if any. Nothing is left of the
-- monitor in either case.
theorem Server.Reached.posted_values_decide {s : Server} (h : Reached s) (hp : s.Passive)
    (ha : s.Plain) {elapse : Nat → Server → Server} (hs : Sleeps elapse) {k : Checker Server}
    (hk : k.transport = transportAmid elapse) (pv : String) (c : Condition) (o : AssertOptions) :
    let b : Subscriber := ⟨s.nextId, k.fullName pv, none, []⟩
    ∃ r u later, (k.assertPosted pv c o).run s = (r, u) ∧
      u.journal = .cancelled b.id :: (later ++ .subscribed b :: s.journal) ∧
      (∀ n ∈ postings later, n.subscriber = b.id → .posted (k.fullName pv) n ∈ later) ∧
      (r = .ok () ∧ Met c b.id later ∨
        r = .error (.failed ⟨k.expectationOf pv c o, pushed b.id later⟩) ∧ ¬Met c b.id later ∧
          s.clock + k.timeoutOf o ≤ u.clock) ∧
      u.subscribers = s.subscribers ∧ ∀ n ∈ u.pending, n.subscriber ≠ b.id := by
  intro b
  let t := (s.subscribe (k.fullName pv) none []).2
  have ⟨n, hx, hlast⟩ := k.exists_last_look hs hk pv c o s
  have hl := look_monitor hk (k.fullName pv) ⟨k.fullName pv, b.id⟩ c (k.expectationOf pv c o)
  generalize k.look _ _ c _ = look at hx hlast hl
  have ⟨earlier, hw, hm⟩ := exists_tapped_visit hs hl (.start h hp ha _) hlast.goesOn
  have hlook : look _ = _ := hw.value_drain ▸ hl _
  have ⟨d, hd, hw'⟩ := hw.drain
  rw [Clock.answer, hlook] at hx
  refine ⟨_, _, _, hx, congrArg _ hw'.journal, fun n => hw'.posted, ?result,
    hw'.subscribers_unsubscribe h rfl, fun n hn => ?pending⟩
  case pending => simpa using (List.mem_filter.mp hn).right
  case result =>
    rw [met_drain hd, pushed_drain hd]
    by_cases hv : ∃ v, pushed b.id earlier = some v ∧ c.holds v
    case pos =>
      refine .inl ⟨?_, .inl hv⟩
      rw [judge_of_holds hv]
      rfl
    case neg =>
      rw [judge_of_not_holds hv] at hlook ⊢
      refine .inr ⟨rfl, not_or.mpr ⟨hv, hm⟩, ?_⟩
      have hc := lasting_clock.drain ((transportAmid elapse).visit k.pause look t n)
      have hn : ¬Clock.Settled ((transportAmid elapse).answer k.pause look t n) := by
        rw [Clock.answer, hlook]
        exact Bool.noConfusion
      exact Nat.le_trans (hlast.ends.resolve_left hn) hc.ge

open Server in
-- Between the looks a value is changed without being posted, and later it is posted.
theorem Server.posted_values_decide_of_silent_change :
    let s : Server := { run [.insert "TE:P" (.int 0), .subscribe "TE:P" none []] .empty with
      agenda := [.once 5 (.setSilently "TE:P" (.int 7)), .once 15 (.setAlarm "TE:P" .major "HIHI"),
        .once 25 (.runFunction "reset")] }
    let k := Checker.hasty.over Server.transport
    let c : Condition := .equals (.int 7)
    let o : AssertOptions := { timeout := some 20 }
    Reached s ∧ s.Passive ∧ s.Plain ∧ Sleeps Server.sleep ∧
      k.transport = transportAmid Server.sleep ∧
    ∃ u later, (k.assertPosted "P" c o).run s = (.ok (), u) ∧
      u.journal = .cancelled 2 :: (later ++ .subscribed ⟨2, "TE:P", none, []⟩ :: s.journal) ∧
      Met c 2 later ∧ u.subscribers = [⟨1, "TE:P", none, []⟩] ∧
      ∀ n ∈ u.pending, n.subscriber ≠ 2 := by
  intro s k c o
  have hs : Reached s := (Reached.empty.run _).plan _
  have hp : s.Passive := by
    intro b hb
    exact List.mem_singleton.mp hb ▸ rfl
  have ha : s.Plain := by simp [s, Plain, Task.IsPlain, Operation.IsPlain]
  have hk : k.transport = transportAmid Server.sleep := rfl
  have ⟨r, u, later, hx, hj, _, hr, hu⟩ := hs.posted_values_decide hp ha sleeps_sleep hk "P" c o
  -- The look at 20 finds the value that was posted with the alarm at 15.
  have hv : ((k.assertPosted "P" c o).run s).1.isOk := by decide +kernel
  rw [hx] at hv
  rcases hr with ⟨rfl, hm⟩ | ⟨rfl, _⟩
  case inl => exact ⟨hs, hp, ha, sleeps_sleep, hk, u, later, hx, hj, hm, hu⟩
  case inr => cases hv

end Readback
