import Readback.Proofs.Monitoring

namespace Readback.Server

def since? (s : Server) (name : String) : Option (Option Nat) :=
  (s.records.find? name).map Record.reachableFrom

-- From one server to another the records with some names have been made if they were missing. All
-- others are there as before.
def Makes (names : List String) (s t : Server) : Prop :=
  ∀ name, t.since? name = if name ∈ names then (s.since? name).or (some none) else s.since? name

structure Inborn {α : Type} (look : Record → α) : Prop where
  value : ∀ r v, look { r with value := v } = look r
  alarm : ∀ r severity status, look { r with severity, status } = look r
  process : ∀ r, look r.process = look r

def seen? {α : Type} (look : Record → α) (s : Server) (name : String) : Option α :=
  (s.records.find? name).map look

-- From one server to another the records with some names have been made as `new` says if they were
-- missing. Nothing else is seen of what has happened to records.
def Gives {α : Type} (look : Record → α) (new : Option α) (names : List String)
    (s t : Server) : Prop :=
  ∀ name, t.seen? look name =
    if name ∈ names then (s.seen? look name).or new else s.seen? look name

variable {α : Type} {look : Record → α} {new : Option α} {s t u : Server} {name pv : String}

namespace Gives

theorem of_records (h : t.records = s.records) : Gives look new [] s t := by
  intro name
  simp [seen?, h]

theorem trans {names names' : List String} (h : Gives look new names s t)
    (h' : Gives look new names' t u) : Gives look new (names ++ names') s u := by
  intro name
  rw [h' name, h name]
  by_cases hn : name ∈ names <;> by_cases hn' : name ∈ names' <;> simp [hn, hn', Option.or_assoc]

theorem assign (hl : Inborn look) (s : Server) (pv : String) (v : Value) :
    Gives look (look (.new v)) [pv] s (s.assign pv v) := by
  intro name
  by_cases hn : name = pv
  · cases hr : s.records.find? pv <;> simp [seen?, Server.assign, hn, hr, hl.value]
  · simp [seen?, Server.assign, hn]

theorem set (hl : Inborn look) (s : Server) (pv : String) (v : Value) :
    Gives look (look (.new v)) [pv] s (s.set pv v) := by
  intro name
  rw [Server.set, seen?, records_notify]
  exact assign hl s pv v name

theorem amend {f : Record → Record} (hf : ∀ r, look (f r) = look r) :
    Gives look new [] s (s.amend pv f) := by
  intro name
  rw [seen?, find?_amend]
  split
  · simp [seen?, Function.comp_def, hf]
  · rfl

theorem resetAll (hl : Inborn look) (s : Server) (names : List String) :
    Gives look new [] s (s.resetAll names) := by
  induction names generalizing s
  case nil => exact .of_records rfl
  case cons pv names hi =>
    have hf r : look (Record.reset r) = look r := (hl.alarm ..).trans (hl.value ..)
    exact (amend hf).trans (hi (s.amend pv Record.reset))

theorem putRecord (hl : Inborn look) (s : Server) (pv : String) (v : Value) :
    Gives look (look (.new v)) (pv :: (s.links.find? pv).toList) s (s.putRecord pv v) := by
  simp only [Server.putRecord, links_set]
  cases s.links.find? pv
  case none => exact .set hl s pv v
  case some readback => exact .trans (.set hl s pv v) (.set hl (s.set pv v) readback v)

end Gives

def Operation.given? : Operation → Option Value
  | .insert _ v | .insertUnreachable _ v _ | .set _ v | .setSilently _ v | .put _ v
  | .setOnDevice _ v => some v
  | _ => none

-- The records to which an operation gives a value. Those that are missing are made.
def Operation.updates (s : Server) : Operation → List String
  | .set pv _ | .setSilently pv _ => [pv]
  | .put name _ =>
    match s.resolve? name with
    | some (base, _, none) => base :: (s.links.find? base).toList
    | _ => []
  | .setOnDevice property _ => (s.bindings.find? property).toList
  | _ => []

def Operation.Replaces (name : String) : Operation → Prop
  | .insert pv _ | .insertUnreachable pv _ _ | .remove pv => pv = name
  | _ => False

namespace Move

def Updates (name : String) (s : Server) : Move → Prop
  | perform op => name ∈ op.updates s
  | _ => False

def Replaces (name : String) : Move → Prop
  | perform op => op.Replaces name
  | _ => False

end Move

theorem gives_put (hl : Inborn look) (s : Server) (name : String) (v : Value) :
    Gives look (look (.new v)) ((Operation.put name v).updates s) s (s.put name v).2 := by
  simp only [Operation.updates, put]
  rcases s.resolve? name with _ | ⟨base, r, field⟩
  case none => exact .of_records rfl
  case some =>
    let w : Server := { s with writes := s.writes ++ [(name, v)] }
    have hw : Gives look (look (.new v)) [] s w := .of_records rfl
    rcases field with _ | field
    case none => exact hw.trans (.putRecord hl w base v)
    cases field
    case some.simulatedSeverity =>
      cases Severity.ofValue? v
      case none => exact hw
      case some severity => exact hw.trans (.amend fun _ => hl.alarm ..)
    case some.process => exact hw.trans (.amend hl.process)
    case some.severity | some.status => exact hw

theorem gives_perform (hl : Inborn look) {op : Operation} (hd : op ≠ .drain)
    (hr : ∀ name, ¬op.Replaces name) :
    Gives look (op.given?.map fun v => look (.new v)) (op.updates s) s (op.perform s) := by
  cases op
  case set pv v => exact .set hl s pv v
  case setSilently pv v => exact .assign hl s pv v
  case setAlarm => exact .amend fun _ => hl.alarm ..
  case put name v => exact gives_put hl s name v
  case setOnDevice property v =>
    simp only [Operation.updates, Operation.perform, setOnDevice]
    cases s.bindings.find? property
    case none => exact .of_records rfl
    case some pv => exact .set hl s pv v
  case runFunction name =>
    simp only [Operation.updates, Operation.perform, runFunction]
    split
    case isTrue => exact .resetAll hl { s with functions := s.functions ++ [name] } _
    case isFalse => exact .of_records rfl
  case link | bind | subscribe | unsubscribe => exact .of_records rfl
  case insert pv _ | insertUnreachable pv _ _ | remove pv => exact absurd rfl (hr pv)
  case drain => exact absurd rfl hd

theorem inborn_reachableFrom : Inborn Record.reachableFrom where
  value _ _ := rfl
  alarm _ _ _ := rfl
  process _ := rfl

namespace Makes

theorem of_gives {names : List String} {v : Option (Option Nat)}
    (h : Gives Record.reachableFrom v names s t) (hv : v = some none ∨ names = []) :
    Makes names s t := by
  intro name
  rw [since?, ← seen?, h name]
  cases hv
  case inl hv => rw [hv]; rfl
  case inr hn => simp [hn]; rfl

theorem resetAll (s : Server) (names : List String) : Makes [] s (s.resetAll names) :=
  of_gives (v := none) (.resetAll inborn_reachableFrom s names) (.inr rfl)

end Makes

theorem makes_perform {op : Operation} (hp : op.IsPlain) (hr : ∀ name, ¬op.Replaces name) :
    Makes (op.updates s) s (op.perform s) := by
  have hd : op ≠ .drain := fun hd => by rw [hd] at hp; exact hp
  refine .of_gives (gives_perform inborn_reachableFrom hd hr) ?_
  cases op
  case set | setSilently | put | setOnDevice => exact .inl rfl
  all_goals exact .inr rfl

theorem since?_perform {op : Operation} (hp : op.IsPlain) (hr : ¬op.Replaces name) :
    (op.perform s).since? name =
      if name ∈ op.updates s then (s.since? name).or (some none) else s.since? name := by
  cases op
  case insert | insertUnreachable | remove =>
    have hn : name ≠ _ := Ne.symm hr
    simp [Operation.updates, Operation.perform, insert, insertUnreachable, remove, since?, hn]
  all_goals exact makes_perform hp (fun _ => id) name

instance (name : String) (s : Server) (m : Move) : Decidable (m.Updates name s) :=
  match m with
  | .perform op => inferInstanceAs (Decidable (name ∈ op.updates s))
  | .resetIn _ | .start _ | .read _ | .stop _ | .sleep _ => isFalse id

theorem Watched.since?_move {m : Move} (h : Watched s) (hm : m.IsPossible s)
    (hr : ¬m.Replaces name) :
    (m.apply s).since? name =
      if m.Updates name s then (s.since? name).or (some none) else s.since? name := by
  cases m
  case perform op => exact since?_perform hm hr
  case resetIn names =>
    exact Makes.resetAll { s with functions := s.functions ++ ["reset"] } names name
  case read =>
    have ⟨_, _, hj⟩ := exists_drain_eq h.passive
    rw [Move.apply, event?_transport, hj]
    rfl
  case sleep d =>
    rw [Move.apply, sleep_of_idle h.idle]
    rfl
  case start | stop => rfl

theorem Watched.since?_play {ms : List Move} (h : Watched s) (hm : ArePossible ms s) (name : String)
    (hr : ∀ m ∈ ms, ¬m.Replaces name) (hs : ∀ moment, s.since? name ≠ some (some moment)) :
    (∀ moment, (play ms s).since? name ≠ some (some moment)) ∧
      ((play ms s).since? name = none ↔
        s.since? name = none ∧ ¬Happens (Move.Updates name) s ms) := by
  induction ms generalizing s
  case nil => simp [play, hs]
  case cons m ms hi =>
    have hn := h.since?_move hm.left (hr m List.mem_cons_self)
    have hs' moment : (m.apply s).since? name ≠ some (some moment) := by
      have := hs moment
      rw [hn]
      split <;> cases hs : s.since? name <;> simp_all
    obtain ⟨hp, hq⟩ := hi (h.move hm.left) hm.right
      (fun m hm => hr m (List.mem_cons_of_mem _ hm)) hs'
    refine ⟨hp, hq.trans ?_⟩
    rw [hn]
    by_cases hu : m.Updates name s <;> simp [hu]

-- The alarm of a record can be read through its fields as long as nobody gives a value to the name
-- of a field. Whoever does makes a record of that name, which is read from then on.
theorem alarm_fields_attached {ms : List Move} (hm : ArePossible ms .empty)
    (hr : ∀ m ∈ ms, ∀ (f : Field) (base : String), ¬m.Replaces (f.of base)) :
    let s := play ms .empty
    ∀ pv r, s.records.find? pv = some r → r.isReachable s.clock →
      (¬Happens (Move.Updates (Field.severity.of pv)) .empty ms →
        s.get (Field.severity.of pv) = .ok (.text r.severity.state)) ∧
      (¬Happens (Move.Updates (Field.status.of pv)) .empty ms →
        s.get (Field.status.of pv) = .ok (.text r.status)) ∧
      ∀ f : Field, Happens (Move.Updates (f.of pv)) .empty ms →
        ∃ r', s.records.find? (f.of pv) = some r' ∧ s.get (f.of pv) = .ok r'.value := by
  intro s pv r hf ha
  have since (f : Field) := Watched.empty.since?_play hm (f.of pv)
    (fun m hm => hr m hm f pv) (by simp [since?, empty])
  have attached (f : Field) (hu : ¬Happens (Move.Updates (f.of pv)) .empty ms) :
      s.get (f.of pv) = .ok (r.read (some f)) := by
    have hn := (since f).right.mpr ⟨rfl, hu⟩
    exact get_field (Option.map_eq_none_iff.mp hn) hf ha
  refine ⟨attached .severity, attached .status, fun f hu => ?_⟩
  have ⟨hs, hn⟩ := since f
  cases hr : s.records.find? (f.of pv)
  case none => exact absurd hu (hn.mp (Option.map_eq_none_iff.mpr hr)).right
  case some r' =>
    have hs moment : r'.reachableFrom ≠ some moment := by
      have := hs moment
      simpa [since?, s, hr] using this
    have ha : r'.isReachable s.clock := by
      cases hm : r'.reachableFrom
      case none => simp [Record.isReachable, hm]
      case some moment => exact absurd hm (hs moment)
    exact ⟨r', rfl, get_record hr ha⟩

-- An alarm that is raised can be read, although the record gets another value meanwhile.
theorem alarm_fields_attached_of_raised_alarm :
    let ms : List Move := [.perform (.insert "A" (.int 1)),
      .perform (.setAlarm "A" .major "HIHI"), .perform (.set "A" (.int 2))]
    ArePossible ms .empty ∧
    (∀ m ∈ ms, ∀ (f : Field) (base : String), ¬m.Replaces (f.of base)) ∧
    (play ms .empty).get (Field.severity.of "A") = .ok (.text "MAJOR") ∧
    (play ms .empty).get (Field.status.of "A") = .ok (.text "HIHI") := by
  intro ms
  have hm : ArePossible ms .empty := ⟨trivial, trivial, trivial, trivial⟩
  have hn {f : Field} {base : String} : f.of base ≠ "A" := f.of_ne base (by decide)
  have hr : ∀ m ∈ ms, ∀ (f : Field) (base : String), ¬m.Replaces (f.of base) := by
    simp [ms, Move.Replaces, Operation.Replaces, hn.symm]
  have hf : (play ms .empty).records.find? "A" =
      some { Record.new (.int 1) with value := .int 2, severity := .major, status := "HIHI" } := rfl
  have hu (f : Field) : ¬Happens (Move.Updates (f.of "A")) .empty ms := by
    simp [ms, Move.Updates, Operation.updates, hn]
  have ⟨hs, ht, _⟩ := alarm_fields_attached hm hr "A" _ hf rfl
  exact ⟨hm, hr, hs (hu .severity), ht (hu .status)⟩

-- Whoever gives a value to the name of a field hides the alarm of the record.
theorem alarm_field_detached :
    let name := Field.severity.of "A"
    let ways : List (List Operation) := [
      [.set name (.int 5)],
      [.link "A" name, .put "A" (.int 5)],
      [.bind "p" name, .setOnDevice "p" (.int 5)]]
    ∀ ops ∈ ways,
      let s := run (.insert "A" (.int 1) :: ops) .empty
      (∃ r, s.records.find? "A" = some r ∧ r.isReachable s.clock ∧ r.severity = .noAlarm) ∧
      s.get name = .ok (.int 5) := by
  intro name ways
  simp only [ways, List.forall_mem_cons]
  exact ⟨⟨⟨_, rfl, rfl, rfl⟩, rfl⟩, ⟨⟨_, rfl, rfl, rfl⟩, rfl⟩, ⟨⟨_, rfl, rfl, rfl⟩, rfl⟩, nofun⟩

end Readback.Server
