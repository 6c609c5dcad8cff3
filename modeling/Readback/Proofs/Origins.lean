import Readback.Proofs.Acting
import Readback.Proofs.Shadowing

namespace Readback.Server

instance (name : String) : DecidablePred (Operation.Replaces name) := fun op =>
  match op with
  | .insert pv _ | .insertUnreachable pv _ _ | .remove pv => inferInstanceAs (Decidable (pv = name))
  | .set _ _ | .setSilently _ _ | .setAlarm _ _ _ | .link _ _ | .bind _ _ | .put _ _
  | .setOnDevice _ _ | .runFunction _ | .subscribe _ _ _ | .unsubscribe _ | .drain => isFalse id

def Operation.origin? (s : Server) (pv : String) (before : Option Value) (op : Operation) :
    Option Value :=
  if op.Replaces pv then op.given?
  else if pv ∈ op.updates s then before.or op.given?
  else before

abbrev Calls := List (Server × Operation)

def Calls.origin? (cs : Calls) (pv : String) : Option Value :=
  cs.foldr (fun (s, op) before => op.origin? s pv before) none

def resetIn (s : Server) (names : List String) : Server :=
  ({ s with functions := s.functions ++ ["reset"] } : Server).resetAll names

-- The calls that have led to a server, also those that subscribers made when they were told of
-- events. Between them nothing changes but the mail, the time and what is planned.
inductive Traced : Calls → Server → Prop
  | empty : Traced [] .empty
  | call {cs s} (op : Operation) (hd : op ≠ .drain) :
    Traced cs s → Traced ((s, op) :: cs) (op.perform s)
  | reset {cs s names} (hn : names.Perm s.records.keys) :
    Traced cs s → Traced ((s, .runFunction "reset") :: cs) (s.resetIn names)
  | pass {cs s} (m : Mail) (clock : Nat) (agenda : List Task) :
    Traced cs s → Traced cs { s with toMail := m, clock, agenda }

def Called (s t : Server) : Prop :=
  ∀ cs, Traced cs s → ∃ later, Traced (later ++ cs) t

-- Two servers differ at most in their records, in what is queued and in what the device was told.
structure SetUpAlike (s t : Server) : Prop where
  subscribers : t.subscribers = s.subscribers
  handles : t.handles = s.handles
  nextId : t.nextId = s.nextId
  clock : t.clock = s.clock
  links : t.links = s.links
  bindings : t.bindings = s.bindings
  writes : t.writes = s.writes
  agenda : t.agenda = s.agenda

variable {s t u : Server} {pv : String} {cs : Calls} {names : List String}

namespace Called

theorem refl (s : Server) : Called s s := fun _ h => ⟨[], h⟩

theorem trans (h : Called s t) (h' : Called t u) : Called s u := by
  intro cs hc
  have ⟨later, hc⟩ := h cs hc
  have ⟨later', hc⟩ := h' _ hc
  exact ⟨later' ++ later, by rwa [List.append_assoc]⟩

theorem call (s : Server) (op : Operation) (hd : op ≠ .drain) : Called s (op.perform s) :=
  fun _ h => ⟨[(s, op)], h.call op hd⟩

theorem pass (m : Mail) (clock : Nat) (agenda : List Task)
    (ht : t = { s with toMail := m, clock, agenda }) : Called s t :=
  fun _ h => ⟨[], ht ▸ h.pass m clock agenda⟩

theorem lasting : Lasting Called where
  refl := refl
  trans := trans
  note s e := pass (s.toMail.note e) s.clock s.agenda rfl
  take s := pass s.toMail.take s.clock s.agenda rfl
  putBack s ns := pass (s.toMail.putBack ns) s.clock s.agenda rfl
  set s pv v := call s (.set pv v) nofun
  put s name v := call s (.put name v) nofun
  subscribe s pv handle := call s (.subscribe pv (some handle) []) nofun
  unsubscribe s id := call s (.unsubscribe id) nofun

theorem perform (op : Operation) (s : Server) : Called s (op.perform s) := by
  cases op
  case drain => exact lasting.drain s
  all_goals exact call s _ nofun

theorem advance (s : Server) (moment : Nat) : Called s (s.advance moment) := by
  refine advance_induction (pass s.toMail s.clock _ rfl) (fun _ _ op _ t h => ?_) fun t h => ?_
  · exact h.trans (trans (pass t.toMail (max t.clock op.1) t.agenda rfl) (perform op.2 _))
  · exact h.trans (pass t.toMail (max t.clock moment) t.agenda rfl)

theorem exists_traced (h : Called s t) (hs : ∃ cs, Traced cs s) : ∃ cs, Traced cs t :=
  have ⟨cs, hs⟩ := hs
  have ⟨later, ht⟩ := h cs hs
  ⟨later ++ cs, ht⟩

end Called

theorem Reached.exists_traced (h : Reached s) : ∃ cs, Traced cs s := by
  induction h
  case empty => exact ⟨[], .empty⟩
  case perform s op _ hi => exact (Called.perform op s).exists_traced hi
  case reset hn _ hi =>
    have ⟨_, h⟩ := hi
    exact ⟨_, h.reset hn⟩
  case plan hi => exact (Called.pass _ _ _ rfl).exists_traced hi
  case advance s moment _ hi => exact (Called.advance s moment).exists_traced hi

theorem inborn_initial : Inborn Record.initial where
  value _ _ := rfl
  alarm _ _ _ := rfl
  process _ := rfl

theorem initial_perform {op : Operation} (hd : op ≠ .drain) (s : Server) (pv : String) :
    seen? Record.initial (op.perform s) pv = op.origin? s pv (seen? Record.initial s pv) := by
  by_cases hr : op.Replaces pv
  case pos =>
    cases op
    case insert | insertUnreachable | remove =>
      cases hr
      simp [Operation.origin?, Operation.Replaces, Operation.given?, Operation.perform, seen?,
        insert, insertUnreachable, remove, Record.new]
    all_goals exact hr.elim
  case neg =>
    rw [Operation.origin?, if_neg hr]
    cases op
    case insert | insertUnreachable | remove =>
      have hn : pv ≠ _ := Ne.symm hr
      simp [Operation.updates, Operation.perform, seen?, insert, insertUnreachable, remove, hn]
    all_goals exact gives_perform inborn_initial hd (fun _ => id) pv

theorem Traced.initial_eq (h : Traced cs s) (pv : String) :
    seen? Record.initial s pv = cs.origin? pv := by
  induction h
  case empty => rfl
  case call s op hd _ hi => rw [initial_perform hd, hi]; rfl
  case reset s names _ _ hi =>
    have hr : Gives Record.initial none [] _ (s.resetIn names) :=
      .resetAll inborn_initial { s with functions := s.functions ++ ["reset"] } names
    exact (hr pv).trans hi
  case pass hi => exact hi

theorem reset_reset (r : Record) : r.reset.reset = r.reset := rfl

theorem find?_resetAll (s : Server) (names : List String) (pv : String) :
    (s.resetAll names).records.find? pv =
      if pv ∈ names then (s.records.find? pv).map Record.reset else s.records.find? pv := by
  induction names generalizing s
  case nil => rfl
  case cons name names hi =>
    rw [resetAll, List.foldl_cons, ← resetAll, hi, find?_amend]
    by_cases hn : pv = name <;> by_cases hm : pv ∈ names <;>
      simp [hn, hm, Function.comp_def, reset_reset]

theorem find?_resetIn (hn : names.Perm s.records.keys) (pv : String) :
    (s.resetIn names).records.find? pv = (s.records.find? pv).map Record.reset := by
  rw [resetIn, find?_resetAll]
  split
  case isTrue => rfl
  case isFalse hp =>
    have hp : s.records.find? pv = none := by
      simpa [hn.mem_iff, Registry.mem_keys_iff] using hp
    rw [hp, Option.map_none]

theorem records_resetAll_of_fixed (names : List String)
    (h : ∀ pv r, s.records.find? pv = some r → r.reset = r) :
    (s.resetAll names).records = s.records := by
  induction names generalizing s
  case nil => rfl
  case cons name names hi =>
    have ha : (s.amend name Record.reset).records = s.records := by
      rw [amend, records_notify]
      exact Registry.modify_of_fixed (h name)
    exact (hi (ha ▸ h)).trans ha

theorem exists_announce_eq (m : Mail) (pv : String) (e : Event) :
    ∃ ns serial j,
      m.announce pv e = { m with pending := ns, nextSerial := serial, journal := j } := by
  unfold Mail.announce
  generalize m.listeners pv = ids
  induction ids generalizing m
  case nil => exact ⟨m.pending, m.nextSerial, m.journal, rfl⟩
  case cons id ids hi =>
    have ⟨ns, serial, j, he⟩ := hi (m.post pv e id)
    exact ⟨ns, serial, j, he⟩

namespace SetUpAlike

theorem refl (s : Server) : SetUpAlike s s := ⟨rfl, rfl, rfl, rfl, rfl, rfl, rfl, rfl⟩

theorem trans (h : SetUpAlike s t) (h' : SetUpAlike t u) : SetUpAlike s u where
  subscribers := h'.subscribers.trans h.subscribers
  handles := h'.handles.trans h.handles
  nextId := h'.nextId.trans h.nextId
  clock := h'.clock.trans h.clock
  links := h'.links.trans h.links
  bindings := h'.bindings.trans h.bindings
  writes := h'.writes.trans h.writes
  agenda := h'.agenda.trans h.agenda

theorem notify (s : Server) (pv : String) : SetUpAlike s (s.notify pv) := by
  unfold Server.notify
  split
  case h_1 => exact refl s
  case h_2 r _ =>
    have ⟨_, _, _, he⟩ := exists_announce_eq s.toMail pv r.event
    rw [he]
    exact ⟨rfl, rfl, rfl, rfl, rfl, rfl, rfl, rfl⟩

theorem resetAll (s : Server) (names : List String) : SetUpAlike s (s.resetAll names) := by
  induction names generalizing s
  case nil => exact refl s
  case cons pv names hi =>
    let t : Server := { s with records := s.records.modify pv Record.reset }
    have ht : SetUpAlike s t := ⟨rfl, rfl, rfl, rfl, rfl, rfl, rfl, rfl⟩
    exact ht.trans ((notify t pv).trans (hi _))

theorem resetIn (s : Server) (names : List String) : SetUpAlike s (s.resetIn names) := by
  let t : Server := { s with functions := s.functions ++ ["reset"] }
  have ht : SetUpAlike s t := ⟨rfl, rfl, rfl, rfl, rfl, rfl, rfl, rfl⟩
  exact ht.trans (resetAll t names)

end SetUpAlike

-- A reset puts every record back to the value with which it has been made, whatever has led to the
-- server, and lifts its alarm. It leaves all else as it was, and there is nothing left to reset.
theorem reset_restores_origins :
    (∀ s : Server, Reached s → ∃ cs, Traced cs s) ∧
    (∀ s : Server, s.runFunction "reset" = (.ok (), s.resetIn s.records.keys)) ∧
    ∀ (cs : Calls) (s : Server) (names : List String), Traced cs s → names.Perm s.records.keys →
      let t := s.resetIn names
      (∀ pv r, s.records.find? pv = some r → ∃ v, cs.origin? pv = some v ∧
        t.records.find? pv =
          some { r with value := v, severity := .noAlarm, status := Severity.noAlarm.state }) ∧
      (∀ pv, s.records.find? pv = none → t.records.find? pv = none) ∧
      SetUpAlike s t ∧
      ∀ names', names'.Perm t.records.keys → (t.resetIn names').records = t.records := by
  refine ⟨fun _ => Reached.exists_traced, fun _ => rfl, fun cs s names hs hn => ?_⟩
  intro t
  have hf := find?_resetIn hn
  refine ⟨fun pv r hr => ⟨r.initial, ?_, ?_⟩, fun pv hr => ?_, .resetIn s names, fun names' _ => ?_⟩
  · rw [← hs.initial_eq, seen?, hr, Option.map_some]
  · rw [hf, hr]
    rfl
  · rw [hf, hr, Option.map_none]
  · refine records_resetAll_of_fixed (s := { t with functions := _ }) names' fun pv r hr => ?_
    obtain ⟨r', _, rfl⟩ := Option.map_eq_some_iff.mp ((hf pv).symm.trans hr)
    exact reset_reset r'

-- A record that a linked write has made while a subscriber was told of something is changed and put
-- into an alarm before the reset.
theorem reset_restores_origins_of_linked_write :
    let s := run [.insert "A" (.int 0), .insert "SP" (.int 0), .link "SP" "RB",
      .subscribe "A" none [.put "SP" none], .set "A" (.int 7), .drain, .set "RB" (.int 8),
      .setAlarm "RB" .major "HIHI"] .empty
    ∃ cs, Traced cs s ∧ s.get "RB" = .ok (.int 8) ∧ cs.origin? "RB" = some (.int 7) ∧
      (s.resetIn s.records.keys).records.find? "RB" = some (.new (.int 7)) := by
  intro s
  have ⟨hr, _, h⟩ := reset_restores_origins
  have ⟨cs, hs⟩ := hr s (Reached.empty.run _)
  have hf : s.records.find? "RB" =
      some ⟨.int 8, .int 7, .major, "HIHI", none, 0⟩ := rfl
  have ⟨ho, _⟩ := h cs s _ hs (.refl _)
  have ⟨v, hv, ht⟩ := ho "RB" _ hf
  have he : (s.resetIn s.records.keys).records.find? "RB" = some (.new (.int 7)) := rfl
  cases ht.symm.trans he
  exact ⟨cs, hs, rfl, hv, he⟩

end Readback.Server
