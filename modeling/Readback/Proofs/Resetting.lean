import Mathlib.Data.List.Nodup
import Mathlib.Data.List.Perm.Basic
import Readback.Proofs.Origins
import Readback.Proofs.Revising

namespace Readback

namespace Registry

variable {α : Type} {es : List (String × α)} {name : String} {a : α} {f : α → α}

def alter (name : String) (f : α → α) (e : String × α) : String × α :=
  (e.1, if e.1 = name then f e.2 else e.2)

theorem alter_comm (name name' : String) (f : α → α) (e : String × α) :
    alter name f (alter name' f e) = alter name' f (alter name f e) := by
  obtain ⟨n, a⟩ := e
  simp only [alter]
  by_cases h : n = name
  case pos => simp only [h, if_true, apply_ite f]
  case neg => simp only [h, if_false]

theorem map_alter_of_not_mem (h : name ∉ es.map Prod.fst) : es.map (alter name f) = es := by
  have hs : ∀ e ∈ es, alter name f e = e := by
    intro e he
    have hn : e.1 ≠ name := fun hn => h (hn ▸ List.mem_map_of_mem he)
    rw [alter, if_neg hn]
  rw [List.map_congr_left hs, List.map_id']

theorem putIn_eq_map (hn : (es.map Prod.fst).Nodup) (ha : es.lookup name = some a) :
    putIn name (f a) es = es.map (alter name f) := by
  induction es
  case nil => cases ha
  case cons e es hi =>
    obtain ⟨n, b⟩ := e
    have ⟨hk, hn⟩ := List.nodup_cons.mp hn
    by_cases he : n = name
    case pos =>
      subst he
      rw [List.lookup_cons_self, Option.some.injEq] at ha
      rw [List.map_cons, map_alter_of_not_mem hk]
      simp [putIn, alter, ha]
    case neg =>
      have hs : (name == n) = false := by simpa using Ne.symm he
      rw [List.lookup_cons, hs] at ha
      simp [putIn, alter, he, hi hn ha]

theorem entries_modify (r : Registry α) (name : String) (f : α → α) :
    (r.modify name f).entries = r.entries.map (alter name f) := by
  unfold modify
  split
  case h_1 ha => exact putIn_eq_map r.nodup ha
  case h_2 hn =>
    have hk : name ∉ r.keys := by simp [mem_keys_iff, hn]
    exact (map_alter_of_not_mem hk).symm

theorem modify_comm (r : Registry α) (name name' : String) (f : α → α) :
    (r.modify name f).modify name' f = (r.modify name' f).modify name f := by
  have he : ((r.modify name f).modify name' f).entries =
      ((r.modify name' f).modify name f).entries := by
    simp only [entries_modify, List.map_map]
    exact List.map_congr_left fun e _ => alter_comm ..
  cases h : (r.modify name f).modify name' f
  cases h' : (r.modify name' f).modify name f
  rw [h, h'] at he
  cases he
  rfl

end Registry

namespace Server

open Traffic

variable {s t : Server} {pv : String} {names names' : List String} {m : Mail}
  {changes changes' : List (String × Record)} {ds : List Drain}

theorem records_resetAll (s : Server) (names : List String) :
    (s.resetAll names).records =
      names.foldl (fun records pv => records.modify pv Record.reset) s.records := by
  induction names generalizing s
  case nil => rfl
  case cons pv names hi =>
    rw [resetAll, List.foldl_cons, ← resetAll, hi, amend, records_notify]
    rfl

theorem records_resetAll_of_perm (hn : names.Perm names') :
    (s.resetAll names).records = (s.resetAll names').records := by
  rw [records_resetAll, records_resetAll]
  exact hn.foldl_eq' (fun _ _ _ _ records => records.modify_comm ..) _

def resets (s : Server) (names : List String) : List (String × Record) :=
  names.filterMap fun pv => (s.records.find? pv).map fun r => (pv, r.reset)

theorem resets_amend (s : Server) (pv : String) (names : List String) :
    (s.amend pv Record.reset).resets names = s.resets names := by
  refine List.filterMap_congr fun q _ => ?_
  rw [find?_amend]
  split
  case isTrue => simp [Function.comp_def, reset_reset]
  case isFalse => rfl

theorem Revises.resetAll (s : Server) (names : List String) :
    Revises (s.resets names) s (s.resetAll names) := by
  induction names generalizing s
  case nil => exact ⟨fun _ => rfl, ⟨[], by simp [Server.resetAll], rfl⟩, rfl⟩
  case cons pv names hi =>
    have hi := hi (s.amend pv Record.reset)
    rw [resets_amend] at hi
    cases hr : s.records.find? pv
    case none =>
      rw [amend_of_missing hr] at hi
      simpa [Server.resets, Server.resetAll, hr, amend_of_missing hr] using hi
    case some r =>
      have ha : Revises [(pv, r.reset)] s (s.amend pv Record.reset) := .amend hr
      simpa [Server.resets, Server.resetAll, hr] using ha.trans hi

theorem filter_letters (hi : (m.subscribers.map Subscriber.id).Nodup) (pv : String)
    (changes : List (String × Record)) :
    (m.letters changes).filter (fun l => l.1 ∈ m.listeners pv) =
      m.letters (changes.filter fun c => c.1 == pv) := by
  have unique {id q} (hq : id ∈ m.listeners q) (hp : id ∈ m.listeners pv) : q = pv := by
    have ⟨b, hb, hbq, he⟩ := Mail.mem_listeners.mp hq
    have ⟨b', hb', hbp, he'⟩ := Mail.mem_listeners.mp hp
    cases List.inj_on_of_nodup_map hi hb hb' (he.trans he'.symm)
    exact hbq.symm.trans hbp
  induction changes
  case nil => rfl
  case cons c changes hc =>
    obtain ⟨q, r⟩ := c
    rw [Mail.letters, List.flatMap_cons, List.filter_append, ← Mail.letters, hc]
    by_cases hq : q = pv
    case pos =>
      subst hq
      have ha : ((m.listeners q).map (·, r.event)).filter (fun l => l.1 ∈ m.listeners q) =
          (m.listeners q).map (·, r.event) :=
        List.filter_eq_self.mpr (by simp)
      simp [ha, Mail.letters]
    case neg =>
      have hn : ((m.listeners q).map (·, r.event)).filter (fun l => l.1 ∈ m.listeners pv) = [] := by
        simp only [List.filter_eq_nil_iff, List.mem_map, decide_eq_true_eq]
        rintro _ ⟨id, hid, rfl⟩ hp
        exact hq (unique hid hp)
      simp [hn, hq]

theorem filter_resets (s : Server) (names : List String) (pv : String) :
    (s.resets names).filter (fun c => c.1 == pv) = s.resets (names.filter (· == pv)) := by
  rw [resets, List.filter_filterMap, resets, List.filterMap_filter]
  refine List.filterMap_congr fun q _ => ?_
  cases s.records.find? q <;> simp [Option.filter]

theorem resets_of_perm (hn : names.Perm names') : (s.resets names).Perm (s.resets names') :=
  hn.filterMap _

theorem filter_letters_of_perm (hi : (s.subscribers.map Subscriber.id).Nodup)
    (hn : names.Perm names') (pv : String) :
    (s.letters (s.resets names)).filter (fun l => l.1 ∈ s.listeners pv) =
      (s.letters (s.resets names')).filter fun l => l.1 ∈ s.listeners pv := by
  rw [filter_letters hi, filter_letters hi, filter_resets, filter_resets, List.filter_beq,
    List.filter_beq, hn.count_eq]

theorem mem_listeners_of_letter {l : SubscriptionId × Event} (hl : l ∈ m.letters changes) :
    ∃ pv, l.1 ∈ m.listeners pv := by
  obtain ⟨⟨pv, r⟩, _, hl⟩ := List.mem_flatMap.mp hl
  obtain ⟨id, hid, rfl⟩ := List.mem_map.mp hl
  exact ⟨pv, hid⟩

theorem filter_id_of_filter_listeners {ls ls' : List (SubscriptionId × Event)}
    (hl : ∀ l ∈ ls, ∃ pv, l.1 ∈ m.listeners pv) (hl' : ∀ l ∈ ls', ∃ pv, l.1 ∈ m.listeners pv)
    (h : ∀ pv, ls.filter (fun l => l.1 ∈ m.listeners pv) =
      ls'.filter fun l => l.1 ∈ m.listeners pv) (id : SubscriptionId) :
    ls.filter (fun l => l.1 == id) = ls'.filter fun l => l.1 == id := by
  by_cases hid : ∃ pv, id ∈ m.listeners pv
  case pos =>
    obtain ⟨pv, hid⟩ := hid
    have narrow (ls : List (SubscriptionId × Event)) : ls.filter (fun l => l.1 == id) =
        (ls.filter fun l => l.1 ∈ m.listeners pv).filter fun l => l.1 == id := by
      rw [List.filter_filter]
      refine List.filter_congr fun l _ => ?_
      by_cases he : l.1 = id <;> simp [he, hid]
    rw [narrow, h pv, ← narrow]
  case neg =>
    have none {ls : List (SubscriptionId × Event)} (hl : ∀ l ∈ ls, ∃ pv, l.1 ∈ m.listeners pv) :
        ls.filter (fun l => l.1 == id) = [] := by
      refine List.filter_eq_nil_iff.mpr fun l hm he => hid ?_
      exact beq_iff_eq.mp he ▸ hl l hm
    rw [none hl, none hl']

def Mail.sentAbout (m : Mail) (pv : String) (ns : List Notification) : List Notification :=
  ns.filter fun n => n.subscriber ∈ m.listeners pv

theorem letters_sentAbout (m : Mail) (pv : String) (ns : List Notification) :
    (m.sentAbout pv ns).map Notification.letter =
      (ns.map Notification.letter).filter fun l => l.1 ∈ m.listeners pv := by
  rw [List.filter_map]
  rfl

theorem events_sentTo (id : SubscriptionId) (ns : List Notification) :
    (sentTo id ns).map Notification.event =
      ((ns.map Notification.letter).filter fun l => l.1 == id).map Prod.snd := by
  rw [List.filter_map, List.map_map]
  rfl

theorem Traffic.Reachable.ids_nodup (h : Reachable ⟨ds, s.toMail⟩) :
    (s.subscribers.map Subscriber.id).Nodup :=
  List.pairwise_map.mpr (h.ascending.imp Nat.ne_of_lt)

-- In whichever order a reset comes to the records, it makes the same of them, and each subscription
-- is told the same in the same order. Just between subscribers of different process variables the
-- order of what is queued depends on it, and that only for what the reset itself has queued.
theorem reset_in_any_order :
    (∀ (ds : List Drain) (s : Server), Reachable ⟨ds, s.toMail⟩ →
      (s.subscribers.map Subscriber.id).Nodup) ∧
    (∀ s : Server, s.runFunction "reset" = (.ok (), s.resetIn s.records.keys)) ∧
    ∀ (s : Server) (names names' : List String), (s.subscribers.map Subscriber.id).Nodup →
      names.Perm s.records.keys → names'.Perm s.records.keys →
      let t := s.resetIn names
      let t' := s.resetIn names'
      t'.records = t.records ∧
      (∀ id, (sentTo id t'.pending).map Notification.event =
        (sentTo id t.pending).map Notification.event) ∧
      (∃ ns ns', t.pending = s.pending ++ ns ∧ t'.pending = s.pending ++ ns' ∧
        (ns'.map Notification.letter).Perm (ns.map Notification.letter) ∧
        ∀ pv, (s.sentAbout pv ns').map Notification.letter =
          (s.sentAbout pv ns).map Notification.letter) ∧
      t' = { t with pending := t'.pending, nextSerial := t'.nextSerial, journal := t'.journal } := by
  refine ⟨fun _ _ => Reachable.ids_nodup, fun _ => rfl, fun s names names' hi hn hn' => ?_⟩
  intro t t'
  have hp : names'.Perm names := hn'.trans hn.symm
  have hr : t'.records = t.records := records_resetAll_of_perm hp
  let u : Server := { s with functions := s.functions ++ ["reset"] }
  have h : Revises (u.resets names) u t := .resetAll u names
  have h' : Revises (u.resets names') u t' := .resetAll u names'
  obtain ⟨ns, hq, hl⟩ := h.posted
  obtain ⟨ns', hq', hl'⟩ := h'.posted
  have hs := filter_letters_of_perm (s := u) hi hp
  refine ⟨hr, fun id => ?_, ⟨ns, ns', hq, hq', ?_, fun pv => ?_⟩, ?_⟩
  case refine_1 =>
    have hf := filter_id_of_filter_listeners (fun _ => mem_listeners_of_letter)
      (fun _ => mem_listeners_of_letter) hs id
    have hn : (sentTo id ns').map Notification.event = (sentTo id ns).map Notification.event := by
      rw [events_sentTo, events_sentTo, hl, hl', hf]
    rw [hq, hq', sentTo_append, sentTo_append, List.map_append, List.map_append, hn]
  case refine_2 =>
    rw [hl, hl']
    exact (resets_of_perm hp).flatMap_right _
  case refine_3 =>
    rw [letters_sentAbout, letters_sentAbout, hl, hl', hs]
  case refine_4 =>
    refine h'.rest.trans ?_
    rw [hr]
    exact congrArg (fun x : Server =>
      { x with pending := t'.pending, nextSerial := t'.nextSerial, journal := t'.journal })
      h.rest.symm

-- Two orders differ in who is told first, and each subscriber is told the same.
theorem reset_in_any_order_of_two_records :
    let s := run [.insert "A" (.int 0), .insert "B" (.int 0), .subscribe "A" none [],
      .subscribe "B" none [], .subscribe "A" none [], .setAlarm "A" .major "HIHI",
      .set "B" (.int 1)] .empty
    let t := s.resetIn ["A", "B"]
    let t' := s.resetIn ["B", "A"]
    (s.subscribers.map Subscriber.id).Nodup ∧ ["A", "B"].Perm s.records.keys ∧
    ["B", "A"].Perm s.records.keys ∧
    t.pending.map Notification.subscriber = [1, 3, 2, 1, 3, 2] ∧
    t'.pending.map Notification.subscriber = [1, 3, 2, 2, 1, 3] ∧ t'.records = t.records ∧
    ∀ id, (sentTo id t'.pending).map Notification.event =
      (sentTo id t.pending).map Notification.event := by
  intro s t t'
  have ⟨hi, _, h⟩ := reset_in_any_order
  have hi := hi [] s (Reached.empty.run _ : Reached s).reachable
  have hn : ["A", "B"].Perm s.records.keys := .refl _
  have hn' : ["B", "A"].Perm s.records.keys := .swap ..
  have ⟨hr, hs, _⟩ := h s _ _ hi hn hn'
  exact ⟨hi, hn, hn', by decide +kernel, by decide +kernel, hr, hs⟩

end Server
end Readback
