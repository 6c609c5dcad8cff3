import Readback.Proofs.Traffic
import Readback.Server.Transport

namespace Readback.Server

open Traffic

-- A server that operations and time lead to. A reset may come to the records in any order.
inductive Reached : Server → Prop
  | empty : Reached .empty
  | perform {s} (op : Operation) : Reached s → Reached (op.perform s)
  | reset {s names} (hn : names.Perm s.records.keys) :
    Reached s → Reached (({ s with functions := s.functions ++ ["reset"] } : Server).resetAll names)
  | plan {s} (tasks : List Task) : Reached s → Reached { s with agenda := s.agenda ++ tasks }
  | advance {s} (moment : Nat) : Reached s → Reached (s.advance moment)

theorem advance_induction {P : Server → Prop} {s : Server} {moment : Nat}
    (start : P { s with agenda := (s.agenda.map (Task.upTo moment)).filterMap Prod.snd })
    (step : ∀ task ∈ s.agenda, ∀ op ∈ (task.upTo moment).1, ∀ t, P t →
      P (op.2.perform { t with clock := max t.clock op.1 }))
    (finish : ∀ t, P t → P { t with clock := max t.clock moment }) : P (s.advance moment) := by
  let ops := ((s.agenda.map (Task.upTo moment)).flatMap Prod.fst).mergeSort fun a b => a.1 ≤ b.1
  have ho : ∀ op ∈ ops, ∀ t, P t → P (op.2.perform { t with clock := max t.clock op.1 }) := by
    intro op hm
    have ⟨part, hp, hm⟩ := List.mem_flatMap.mp (List.mem_mergeSort.mp hm)
    obtain ⟨task, ht, rfl⟩ := List.mem_map.mp hp
    exact step task ht op hm
  have fold (ops : List (Nat × Operation)) (t : Server) (ht : P t)
      (h : ∀ op ∈ ops, ∀ t, P t → P (op.2.perform { t with clock := max t.clock op.1 })) :
      P (ops.foldl (fun s op => op.2.perform { s with clock := max s.clock op.1 }) t) := by
    induction ops generalizing t
    case nil => exact ht
    case cons op ops hi =>
      have ⟨h, hs⟩ := List.forall_mem_cons.mp h
      exact hi _ (h t ht) hs
  exact finish _ (fold ops _ start ho)

theorem Reached.run {s : Server} (h : Reached s) (ops : List Operation) : Reached (run ops s) := by
  induction ops generalizing s
  case nil => exact h
  case cons op ops hi => exact hi (h.perform op)

def Evolves (ds : List Drain) (s t : Server) : Prop :=
  Steps ⟨ds, s.toMail⟩ ⟨ds, t.toMail⟩

variable {ds : List Drain} {s t u : Server} {m : Mail} {id : SubscriptionId}

namespace Evolves

theorem refl : Evolves ds s s := Steps.refl

theorem of_eq (h : t.toMail = s.toMail) : Evolves ds s t := by
  rw [Evolves, h]
  exact Steps.refl

theorem step (h : Step ⟨ds, s.toMail⟩ ⟨ds, t.toMail⟩) : Evolves ds s t := .single h

theorem trans (h : Evolves ds s t) (h' : Evolves ds t u) : Evolves ds s u :=
  Steps.trans h h'

theorem foldl {α : Type} {f : Server → α → Server} (h : ∀ s a, Evolves ds s (f s a))
    (as : List α) (s : Server) : Evolves ds s (as.foldl f s) := by
  induction as generalizing s
  case nil => exact refl
  case cons a as hi => exact (h s a).trans (hi (f s a))

end Evolves

theorem steps_post {pv : String} {event : Event} {ids : List SubscriptionId}
    (h : ∀ id ∈ ids, ∃ b ∈ m.subscribers, b.pv = pv ∧ b.id = id) :
    Steps ⟨ds, m⟩ ⟨ds, ids.foldl (fun m id => m.post pv event id) m⟩ := by
  induction ids generalizing m
  case nil => exact .refl
  case cons id ids hi =>
    have ⟨b, hb, hp, he⟩ := h id List.mem_cons_self
    cases hp
    cases he
    refine .trans (.single (.posted event hb)) (hi fun id hid => ?_)
    exact h id (List.mem_cons_of_mem _ hid)

theorem steps_announce (pv : String) (event : Event) :
    Steps ⟨ds, m⟩ ⟨ds, m.announce pv event⟩ := by
  refine steps_post fun id hid => ?_
  have ⟨b, hb, he⟩ := List.mem_map.mp hid
  have ⟨hb, hp⟩ := List.mem_filter.mp hb
  exact ⟨b, hb, by simpa using hp, he⟩

theorem evolves_notify (s : Server) (pv : String) : Evolves ds s (s.notify pv) := by
  unfold notify
  split
  · exact .refl
  · exact steps_announce ..

theorem evolves_set (s : Server) (pv : String) (v : Value) : Evolves ds s (s.set pv v) :=
  evolves_notify (s.assign pv v) pv

theorem evolves_amend (s : Server) (pv : String) (f : Record → Record) :
    Evolves ds s (s.amend pv f) :=
  evolves_notify { s with records := s.records.modify pv f } pv

theorem evolves_putRecord (s : Server) (pv : String) (v : Value) :
    Evolves ds s (s.putRecord pv v) := by
  have h : Evolves ds s (s.set pv v) := evolves_set s pv v
  simp only [putRecord]
  split
  · exact h.trans (evolves_set ..)
  · exact h

theorem put_induction {P : Server → Prop} {s w : Server} {name : String} {v : Value}
    (hw : w = { s with writes := s.writes ++ [(name, v)] }) (missing : P s) (listed : P w)
    (record : ∀ base, P (w.putRecord base v)) (field : ∀ base f, P (w.amend base f)) :
    P (s.put name v).2 := by
  cases hw
  unfold put
  split
  case h_1 => exact missing
  case h_2 =>
    split
    · exact record _
    · split
      · exact field ..
      · exact listed
    · exact field ..
    · exact listed

theorem evolves_put (s : Server) (name : String) (v : Value) :
    Evolves ds s (s.put name v).2 :=
  let w : Server := { s with writes := s.writes ++ [(name, v)] }
  put_induction rfl .refl (.of_eq rfl) (fun base => evolves_putRecord w base v)
    fun base f => evolves_amend w base f

theorem evolves_setOnDevice (s : Server) (property : String) (v : Value) :
    Evolves ds s (s.setOnDevice property v).2 := by
  unfold setOnDevice
  split
  · exact evolves_set ..
  · exact .refl

theorem evolves_resetAll (s : Server) (names : List String) : Evolves ds s (s.resetAll names) :=
  .foldl (fun s pv => evolves_amend s pv Record.reset) names s

theorem evolves_runFunction (s : Server) (name : String) : Evolves ds s (s.runFunction name).2 := by
  simp only [runFunction]
  split
  · exact evolves_resetAll { s with functions := s.functions ++ [name] } _
  · exact .of_eq rfl

theorem evolves_subscribe (s : Server) (pv : String) (handle : Option String)
    (script : List Action) : Evolves ds s (s.subscribe pv handle script).2 :=
  .step (.subscribed pv handle script)

theorem evolves_unsubscribe (s : Server) (id : SubscriptionId) : Evolves ds s (s.unsubscribe id) :=
  .step (.cancelled id)

theorem evolves_act {inner : Server → Server} (h : ∀ s, Evolves ds s (inner s))
    (id : SubscriptionId) (event : Event) (s : Server) (a : Action) :
    Evolves ds s (act inner id event s a) := by
  cases a
  case set => exact evolves_set ..
  case put => exact evolves_put ..
  case get pv => exact .step (.got id (s.get pv))
  case drain => exact h s
  case subscribe => exact evolves_subscribe ..
  case unsubscribe =>
    simp only [act]
    split
    · exact evolves_unsubscribe ..
    · exact .refl

theorem mem_of_subscriber? {b : Subscriber} (h : m.subscriber? id = some b) :
    b ∈ m.subscribers ∧ b.id = id :=
  ⟨List.mem_of_find?_eq_some h, by simpa using List.find?_some h⟩

theorem not_live_of_subscriber? (h : m.subscriber? id = none) : ¬m.Live id := by
  intro ⟨b, hb, he⟩
  exact List.find?_eq_none.mp h b hb (beq_iff_eq.mpr he)

theorem steps_call {inner : Server → Server} {b : Subscriber} {n : Notification}
    {taken deferred waiting : List Notification} (hl : s.Live n.subscriber)
    (hr : n.subscriber ∉ busy ds) (hb : b.id = n.subscriber)
    (h : ∀ s, Evolves (⟨taken, deferred, waiting, some n.subscriber⟩ :: ds) s (inner s)) :
    Steps ⟨⟨taken, deferred, n :: waiting, none⟩ :: ds, s.toMail⟩
      ⟨⟨taken, deferred, waiting, none⟩ :: ds, (call inner b n s).toMail⟩ := by
  have hs := Evolves.foldl (evolves_act h b.id n.event) b.script (s.note (.started n))
  refine .head (.started hl hr) (.tail hs ?_)
  rw [call, hb]
  exact .finished

theorem steps_deliver {inner : List SubscriptionId → Server → Server}
    (h : ∀ ds s, Evolves ds s (inner (busy ds) s)) {taken waiting : List Notification}
    (p : List Notification × Server) (n : Notification) :
    Steps ⟨⟨taken, p.1, n :: waiting, none⟩ :: ds, p.2.toMail⟩
      ⟨⟨taken, (deliver inner (busy ds) p n).1, waiting, none⟩ :: ds,
        (deliver inner (busy ds) p n).2.toMail⟩ := by
  rcases p with ⟨deferred, s⟩
  simp only [deliver]
  split
  case h_1 hs => exact .single (.dropped (not_live_of_subscriber? hs))
  case h_2 b hs =>
    have ⟨hb, he⟩ := mem_of_subscriber? hs
    have hl : s.Live n.subscriber := ⟨b, hb, he⟩
    split
    case isTrue hr => exact .single (.deferred hl (he ▸ hr))
    case isFalse hr =>
      refine steps_call hl (he ▸ hr) he fun t => ?_
      rw [he]
      exact h (⟨taken, deferred, waiting, some n.subscriber⟩ :: ds) t

theorem steps_deliverAll {inner : List SubscriptionId → Server → Server}
    (h : ∀ ds s, Evolves ds s (inner (busy ds) s)) {taken : List Notification}
    (ns : List Notification) (p : List Notification × Server) :
    Steps ⟨⟨taken, p.1, ns, none⟩ :: ds, p.2.toMail⟩
      ⟨⟨taken, (ns.foldl (deliver inner (busy ds)) p).1, [], none⟩ :: ds,
        (ns.foldl (deliver inner (busy ds)) p).2.toMail⟩ := by
  induction ns generalizing p
  case nil => exact .refl
  case cons n ns hi => exact .trans (steps_deliver h p n) (hi _)

theorem evolves_drainWithin (depth : Nat) (ds : List Drain) (s : Server) :
    Evolves ds s (drainWithin depth (busy ds) s) := by
  induction depth generalizing ds s
  case zero => exact .refl
  case succ depth hi =>
    exact .head .taken (.tail (steps_deliverAll hi s.pending ([], s.take)) .returned)

theorem evolves_drain (s : Server) : Evolves [] s s.drain :=
  evolves_drainWithin (s.subscribers.length + 1) [] s

theorem evolves_perform (op : Operation) (s : Server) : Evolves [] s (op.perform s) := by
  cases op
  case set => exact evolves_set ..
  case setAlarm => exact evolves_amend ..
  case put => exact evolves_put ..
  case setOnDevice => exact evolves_setOnDevice ..
  case runFunction => exact evolves_runFunction ..
  case subscribe => exact evolves_subscribe ..
  case unsubscribe => exact evolves_unsubscribe ..
  case drain => exact evolves_drain s
  all_goals exact .of_eq rfl

theorem evolves_advance (moment : Nat) (s : Server) : Evolves [] s (s.advance moment) := by
  refine advance_induction (.of_eq rfl) (fun _ _ op _ t h => ?_) fun _ h => h.trans (.of_eq rfl)
  have hc : Evolves [] t { t with clock := max t.clock op.1 } := .of_eq rfl
  exact h.trans (hc.trans (evolves_perform op.2 _))

theorem Reached.reachable (h : Reached s) : Reachable ⟨[], s.toMail⟩ := by
  induction h
  case empty => exact .refl
  case perform op _ hi => exact .trans hi (evolves_perform op _)
  case reset s names _ _ hi =>
    exact .trans hi (evolves_resetAll { s with functions := s.functions ++ ["reset"] } names)
  case plan => assumption
  case advance moment _ hi => exact .trans hi (evolves_advance moment _)

end Readback.Server
