import Readback.Proofs.Documents
import Readback.Settings.Load

namespace Readback

namespace Text

theorem parts_go {separator : Char} {part cs : List Char} (h : separator ∉ cs) :
    parts.go separator part cs = [String.ofList (part.reverse ++ cs)] := by
  induction cs generalizing part
  case nil => simp [parts.go]
  case cons c cs hi =>
    have ⟨hc, hs⟩ : ¬separator = c ∧ separator ∉ cs := by simpa using h
    simp [parts.go, Ne.symm hc, hi hs]

theorem parts_of_not_mem {separator : Char} {s : String} (h : separator ∉ s.toList) :
    parts separator s = [s] := by
  simp [parts, parts_go h]

theorem mem_of_mem_trim {c : Char} {cs : List Char} (h : c ∈ trim cs) : c ∈ cs := by
  have h := (List.dropWhile_sublist _).mem (List.mem_reverse.mp h)
  exact (List.dropWhile_sublist _).mem (List.mem_reverse.mp h)

theorem mem_of_stripStart? {c : Char} {head s rest : String} (h : stripStart? head s = some rest)
    (hc : c ∈ rest.toList) : c ∈ s.toList := by
  have ⟨_, he⟩ := Option.ite_none_right_eq_some.mp h
  cases he
  rw [String.toList_ofList] at hc
  exact List.mem_of_mem_drop hc

theorem eq_dot_of_toLower {c : Char} (h : c.toLower = '.') : c = '.' := by
  delta Char.toLower at h
  split at h
  case isFalse => exact h
  case isTrue hu =>
    have hv := congrArg Char.toNat h
    have hl : 65 ≤ c.toNat := hu.left
    have hr : c.toNat ≤ 90 := hu.right
    simp at hv
    omega

end Text

namespace Settings

open Text

variable {ms layer members : List (String × Tree)} {key name text : String} {t : Tree}

def last? (ms : List (String × Tree)) (key : String) : Option Tree :=
  ((ms.filter fun m => m.1 == key).getLast?).map Prod.snd

theorem filter_overlay (ms : List (String × Tree)) (k key : String) (t : Tree) :
    (overlay ms k t).filter (fun m => m.1 == key) =
      if k = key then [(k, t)] else ms.filter fun m => m.1 == key := by
  rw [overlay, List.filter_append, List.filter_filter]
  by_cases h : k = key
  case pos =>
    cases h
    simp
  case neg =>
    have he : ∀ m : String × Tree, (m.1 == key && m.1 != k) = (m.1 == key) := by
      intro m
      by_cases hm : m.1 = key
      case pos => simp [hm, Ne.symm h]
      case neg => simp [hm]
    simp [he, h]

theorem filter_overlayAll (ms layer : List (String × Tree)) (key : String) :
    (overlayAll ms layer).filter (fun m => m.1 == key) =
      match (layer.filter fun m => m.1 == key).getLast? with
      | some m => [m]
      | none => ms.filter fun m => m.1 == key := by
  induction layer generalizing ms
  case nil => rfl
  case cons m layer hi =>
    have ho : overlayAll ms (m :: layer) = overlayAll (overlay ms m.1 m.2) layer := rfl
    rw [ho, hi, filter_overlay]
    by_cases hk : m.1 = key
    case neg => simp [hk]
    case pos =>
      rw [List.filter_cons_of_pos (by simpa using hk), List.getLast?_cons, if_pos hk]
      cases (layer.filter fun m => m.1 == key).getLast? <;> rfl

theorem member?_overlayAll (members layer : List (String × Tree)) (key : String) :
    Tree.member? (overlayAll (overlayAll [] members) layer) key =
      some ((last? layer key).or (last? members key)) := by
  rw [Tree.member?, filter_overlayAll, filter_overlayAll, last?, last?]
  cases (layer.filter fun m => m.1 == key).getLast? <;>
    cases (members.filter fun m => m.1 == key).getLast? <;> rfl

def namesInstrument (name : String) : Bool :=
  sameLetters (trimmed name) "testing_prefix"

def namesKey (key name : String) : Bool :=
  (stripStart? "IOC_TEST_" (trimmed name)).any fun rest => sameLetters (trimmed rest) key

def exported? (environment : List (String × String)) (named : String → Bool) : Option String :=
  ((environment.filter fun v => named v.1).getLast?).map Prod.snd

def IsKey (key : String) : Prop :=
  key ≠ "" ∧ key.toList.map Char.toLower = key.toList

theorem isKey_of_mem (h : key ∈ keys) : IsKey key := by
  have hk : ∀ key ∈ keys, key ≠ "" ∧ key.toList.map Char.toLower = key.toList := by decide
  exact hk key h

theorem ofVariable?_eq (hn : '.' ∉ name.toList) (hk : IsKey key) (text : String) :
    (ofVariable? name text).filter (fun m => m.1 == key) =
      if namesKey key name then some (key, Variable.read text) else none := by
  rw [ofVariable?, namesKey]
  cases hs : stripStart? "IOC_TEST_" (trimmed name)
  case none => rfl
  case some rest =>
    have hd : '.' ∉ (trimmed rest).toList.map Char.toLower := by
      intro h
      have ⟨c, hc, he⟩ := List.mem_map.mp h
      cases eq_dot_of_toLower he
      have hr : '.' ∈ rest.toList := mem_of_mem_trim (by simpa [trimmed] using hc)
      have ht : '.' ∈ (trimmed name).toList := mem_of_stripStart? hs hr
      exact hn (mem_of_mem_trim (by simpa [trimmed] using ht))
    simp only [Option.bind_eq_bind, Option.bind_some, Option.any_some, sameLetters, hk.right]
    rw [parts_of_not_mem (by simpa using hd)]
    by_cases he : (trimmed rest).toList.map Char.toLower = key.toList
    case pos => simp [he, hk.left, nested]
    case neg =>
      have hk : String.ofList ((trimmed rest).toList.map Char.toLower) ≠ key := by
        rintro rfl
        simp at he
      cases hz : (trimmed rest).toList <;> simp_all [nested]

theorem instrument?_eq (name text key : String) :
    (instrument? name text).filter (fun m => m.1 == key) =
      if key = "prefix" ∧ namesInstrument name then some (key, Variable.read text) else none := by
  rw [instrument?, namesInstrument]
  by_cases hk : key = "prefix" <;> by_cases hn : sameLetters (trimmed name) "testing_prefix"
  all_goals simp [hk, hn]
  exact Ne.symm hk

theorem getLast?_filterMap (environment : List (String × String)) (named : String → Bool)
    (key : String) :
    ((environment.filterMap fun v =>
      if named v.1 then some (key, Variable.read v.2) else none).getLast?).map Prod.snd =
      (exported? environment named).map Variable.read := by
  have hf : (environment.filterMap fun v =>
      if named v.1 then some (key, Variable.read v.2) else none) =
      (environment.filter fun v => named v.1).map fun v => (key, Variable.read v.2) := by
    induction environment
    case nil => rfl
    case cons v environment hi => cases hv : named v.1 <;> simp [hv, hi]
  rw [hf, List.getLast?_map, exported?, Option.map_map, Option.map_map]
  rfl

theorem last?_ofEnvironment {environment : List (String × String)}
    (hd : ∀ v ∈ environment, '.' ∉ v.1.toList) (hk : IsKey key) :
    last? (ofEnvironment environment) key =
      ((if key = "prefix" then exported? environment namesInstrument else none).or
        (exported? environment (namesKey key))).map Variable.read := by
  have hv : (environment.filterMap fun v => ofVariable? v.1 v.2).filter (fun m => m.1 == key) =
      environment.filterMap fun v =>
        if namesKey key v.1 then some (key, Variable.read v.2) else none := by
    rw [List.filter_filterMap]
    exact List.filterMap_congr fun v h => ofVariable?_eq (hd v h) hk v.2
  have hi : (environment.filterMap fun v => instrument? v.1 v.2).filter (fun m => m.1 == key) =
      environment.filterMap fun v =>
        if key = "prefix" ∧ namesInstrument v.1 then some (key, Variable.read v.2) else none := by
    rw [List.filter_filterMap]
    exact List.filterMap_congr fun v _ => instrument?_eq v.1 v.2 key
  rw [last?, ofEnvironment, List.filter_append, hv, hi, List.getLast?_append, Option.map_or,
    getLast?_filterMap, Option.map_or]
  by_cases hp : key = "prefix"
  case pos => simp only [hp, true_and, if_true, getLast?_filterMap]
  case neg => simp [hp]

-- What counts for a key: the instrument as it is exported, then the variable of the key, then the
-- file.
def nearest? (file : Option String) (environment : List (String × String)) (key : String) :
    Option Tree :=
  let instrument := if key = "prefix" then exported? environment namesInstrument else none
  let ofKey := exported? environment (namesKey key)
  ((instrument.or ofKey).map Variable.read).or
    ((ofFile? file).bind fun members => last? members key)

-- Every setting is what has been given for its key, or its default.
structure From (values : String → Option Tree) (s : Settings) : Prop where
  instrument : field Tree.text? default.instrument (values "prefix") = some s.instrument
  device : field textOrNull? default.device (values "device_prefix") = some s.device
  defaultTimeout :
    field Span.ofTree? default.defaultTimeout (values "default_timeout") = some s.defaultTimeout
  pollInterval :
    field Span.ofTree? default.pollInterval (values "poll_interval") = some s.pollInterval
  settleAfterPut :
    field Span.ofTree? default.settleAfterPut (values "settle_after_put") = some s.settleAfterPut
  absenceTimeout :
    field Span.ofTree? default.absenceTimeout (values "absence_timeout") = some s.absenceTimeout
  putExistenceTimeout :
    field Span.ofTree? default.putExistenceTimeout (values "put_existence_timeout") =
      some s.putExistenceTimeout
  logLevel : field Tree.text? default.logLevel (values "log_level") = some s.logLevel

variable {values : String → Option Tree} {s : Settings}

theorem mapM_eq_map {f : α → Option β} {g : α → β} {as : List α} (h : ∀ a ∈ as, f a = some (g a)) :
    as.mapM f = some (as.map g) := by
  induction as
  case nil => rfl
  case cons a as hi =>
    have ⟨ha, has⟩ := List.forall_mem_cons.mp h
    simp [ha, hi has]

theorem ofTree?_eq_some_iff (h : t.fields? keys = some (keys.map values)) :
    ofTree? t = some s ↔ From values s := by
  rw [ofTree?, h]
  simp only [keys, List.map_cons, List.map_nil, Option.bind_eq_bind, Option.bind_some,
    Option.bind_eq_some_iff, Option.pure_def, Option.some.injEq]
  constructor
  · rintro ⟨_, h₁, _, h₂, _, h₃, _, h₄, _, h₅, _, h₆, _, h₇, _, h₈, rfl⟩
    exact ⟨h₁, h₂, h₃, h₄, h₅, h₆, h₇, h₈⟩
  · rintro ⟨h₁, h₂, h₃, h₄, h₅, h₆, h₇, h₈⟩
    exact ⟨_, h₁, _, h₂, _, h₃, _, h₄, _, h₅, _, h₆, _, h₇, _, h₈, rfl⟩

-- Whether a key can hold something: a text, a text or nothing, or the text of a span.
def suits (key : String) (t : Tree) : Bool :=
  if key = "prefix" ∨ key = "log_level" then t.text?.isSome
  else if key = "device_prefix" then (textOrNull? t).isSome
  else (Span.ofTree? t).isSome

theorem exists_field_iff {read : Tree → Option α} (absent : α) {t : Option Tree} :
    (∃ a, field read absent t = some a) ↔ ∀ u ∈ t, (read u).isSome := by
  cases t <;> simp [field, Option.isSome_iff_exists]

theorem exists_from_iff : (∃ s, From values s) ↔ ∀ key ∈ keys, ∀ t ∈ values key, suits key t := by
  constructor
  · rintro ⟨s, h⟩ key hk
    simp only [keys, List.mem_cons, List.not_mem_nil, or_false] at hk
    rcases hk with rfl | rfl | rfl | rfl | rfl | rfl | rfl | rfl
    · exact (exists_field_iff _).mp ⟨_, h.instrument⟩
    · exact (exists_field_iff _).mp ⟨_, h.device⟩
    · exact (exists_field_iff _).mp ⟨_, h.defaultTimeout⟩
    · exact (exists_field_iff _).mp ⟨_, h.pollInterval⟩
    · exact (exists_field_iff _).mp ⟨_, h.settleAfterPut⟩
    · exact (exists_field_iff _).mp ⟨_, h.absenceTimeout⟩
    · exact (exists_field_iff _).mp ⟨_, h.putExistenceTimeout⟩
    · exact (exists_field_iff _).mp ⟨_, h.logLevel⟩
  · intro h
    have ⟨_, instrument⟩ := (exists_field_iff default.instrument).mpr (h "prefix" (by decide))
    have ⟨_, device⟩ := (exists_field_iff default.device).mpr (h "device_prefix" (by decide))
    have ⟨_, defaultTimeout⟩ :=
      (exists_field_iff default.defaultTimeout).mpr (h "default_timeout" (by decide))
    have ⟨_, pollInterval⟩ :=
      (exists_field_iff default.pollInterval).mpr (h "poll_interval" (by decide))
    have ⟨_, settleAfterPut⟩ :=
      (exists_field_iff default.settleAfterPut).mpr (h "settle_after_put" (by decide))
    have ⟨_, absenceTimeout⟩ :=
      (exists_field_iff default.absenceTimeout).mpr (h "absence_timeout" (by decide))
    have ⟨_, putExistenceTimeout⟩ :=
      (exists_field_iff default.putExistenceTimeout).mpr (h "put_existence_timeout" (by decide))
    have ⟨_, logLevel⟩ := (exists_field_iff default.logLevel).mpr (h "log_level" (by decide))
    exact ⟨⟨_, _, _, _, _, _, _, _⟩, instrument, device, defaultTimeout, pollInterval,
      settleAfterPut, absenceTimeout, putExistenceTimeout, logLevel⟩

structure Usable (s : Settings) : Prop where
  pollInterval : s.pollInterval ≠ 0
  defaultTimeout : s.defaultTimeout ≠ 0
  logLevel : s.logLevel ∈ ["trace", "debug", "info", "warn", "error"]
  device : ∀ d ∈ s.device, d ≠ "" ∧ ∀ c ∈ d.toList, ¬isBlank c

theorem fault?_eq_none_iff : s.fault? = none ↔ s.Usable := by
  have hd : (s.device.bind fun d => if isDeviceName d then none else some (Fault.device d)) = none ↔
      ∀ d ∈ s.device, d ≠ "" ∧ ∀ c ∈ d.toList, ¬isBlank c := by
    cases s.device <;> simp [isDeviceName]
  constructor
  · intro h
    rw [fault?] at h
    split at h
    · cases h
    split at h
    · cases h
    split at h
    · cases h
    · next hl hp ht => exact ⟨hp, ht, not_not.mp hl, hd.mp h⟩
  · rintro ⟨hp, ht, hl, hn⟩
    have hl : s.logLevel ∈ logLevels := hl
    rw [fault?, if_neg (not_not.mpr hl), if_neg hp, if_neg ht]
    exact hd.mpr hn

def layers (members : List (String × Tree)) (environment : List (String × String)) : Tree :=
  .object (overlayAll (overlayAll [] members) (ofEnvironment environment))

theorem fields?_layers {file : Option String} {environment : List (String × String)}
    (hf : ofFile? file = some members) (hd : ∀ v ∈ environment, '.' ∉ v.1.toList) :
    (layers members environment).fields? keys = some (keys.map (nearest? file environment)) := by
  refine mapM_eq_map fun key hk => ?_
  rw [member?_overlayAll, last?_ofEnvironment hd (isKey_of_mem hk), nearest?, hf]
  rfl

theorem ofSources_eq {file : Option String} (hf : ofFile? file = some members)
    (environment : List (String × String)) :
    ofSources file environment = match ofTree? (layers members environment) with
      | none => .error .load
      | some s => s.validate.map fun _ => s := by
  rw [ofSources, hf]
  rfl

theorem validate_eq (s : Settings) :
    s.Usable ∧ (s.validate.map fun _ => s) = .ok s ∨
      ∃ fault, s.fault? = some fault ∧
        (s.validate.map fun _ => s) = .error (.validation fault.reason) := by
  cases hf : s.fault?
  case none => exact .inl ⟨fault?_eq_none_iff.mp hf, by rw [validate, hf]; rfl⟩
  case some fault => exact .inr ⟨fault, rfl, by rw [validate, hf]; rfl⟩

def Agree (environment other : List (String × String)) : Prop :=
  exported? environment namesInstrument = exported? other namesInstrument ∧
    ∀ key ∈ keys, exported? environment (namesKey key) = exported? other (namesKey key)

theorem ofSources_of_agree {file : Option String} {environment other : List (String × String)}
    (hf : ofFile? file = some members) (he : ∀ v ∈ environment, '.' ∉ v.1.toList)
    (ho : ∀ v ∈ other, '.' ∉ v.1.toList) (h : Agree environment other) :
    ofSources file environment = ofSources file other := by
  have hn : ∀ key ∈ keys, nearest? file environment key = nearest? file other key := by
    intro key hk
    rw [nearest?, nearest?, h.left, h.right key hk]
  have ht : ofTree? (layers members environment) = ofTree? (layers members other) := by
    rw [ofTree?, ofTree?, fields?_layers hf he, fields?_layers hf ho, List.map_congr_left hn]
  rw [ofSources_eq hf, ofSources_eq hf, ht]

def FileReadable (file : Option String) : Prop :=
  ∀ text ∈ file, (Tree.Toml.read? text).isSome

theorem FileReadable.ofFile? {file : Option String} (h : FileReadable file) :
    ∃ members, Settings.ofFile? file = some members := by
  cases file
  case none => exact ⟨[], rfl⟩
  case some text =>
    have ⟨t, ht⟩ := Option.isSome_iff_exists.mp (h text rfl)
    have ⟨members, hm⟩ := Tree.Toml.exists_object_of_read? ht
    exact ⟨members, by rw [Settings.ofFile?, ht, hm]⟩

-- Every setting has the value that counts for its key. One that does not suit its key makes it
-- impossible to load the settings, and others that it hides or that belong to no key do nothing.
theorem load_by_layers (sources : Sources) (path : String)
    (hf : FileReadable (sources.files.find? path))
    (hd : ∀ v ∈ sources.environment, '.' ∉ v.1.toList) :
    let values := nearest? (sources.files.find? path) sources.environment
    ((∃ key ∈ keys, ∃ t ∈ values key, ¬suits key t) → load sources path = .error .load) ∧
    ((∀ key ∈ keys, ∀ t ∈ values key, suits key t) → ∃ s, From values s ∧
      (s.Usable ∧ load sources path = .ok s ∨
        ∃ fault, s.fault? = some fault ∧
          load sources path = .error (.validation fault.reason))) ∧
    (∀ s, load sources path = .ok s → From values s ∧ s.Usable) ∧
    ∀ other, (∀ v ∈ other, '.' ∉ v.1.toList) → Agree sources.environment other →
      load sources path = load ⟨sources.files, other⟩ path := by
  intro values
  have ⟨members, hm⟩ := hf.ofFile?
  have hv := fields?_layers hm hd
  have hl : load sources path = match ofTree? (layers members sources.environment) with
      | none => .error .load
      | some s => s.validate.map fun _ => s := ofSources_eq hm sources.environment
  refine ⟨?_, ?_, ?_, fun other ho ha => ofSources_of_agree hm hd ho ha⟩
  case refine_1 =>
    rintro ⟨key, hk, t, ht, hs⟩
    cases hx : ofTree? (layers members sources.environment)
    case none => rw [hl, hx]
    case some s =>
      exact absurd (exists_from_iff.mp ⟨s, (ofTree?_eq_some_iff hv).mp hx⟩ key hk t ht) hs
  case refine_2 =>
    intro hs
    have ⟨s, hs⟩ := exists_from_iff.mpr hs
    rw [hl, (ofTree?_eq_some_iff hv).mpr hs]
    exact ⟨s, hs, s.validate_eq⟩
  case refine_3 =>
    intro s hs
    rw [hl] at hs
    cases hx : ofTree? (layers members sources.environment)
    case none => rw [hx] at hs; cases hs
    case some u =>
      rw [hx] at hs
      cases u.validate_eq
      case inl h => cases hs.symm.trans h.right; exact ⟨(ofTree?_eq_some_iff hv).mp hx, h.left⟩
      case inr h =>
        have ⟨_, _, he⟩ := h
        cases hs.symm.trans he

-- The number in the file is no span, but a variable hides it; and the instrument that is exported
-- hides the one of the variable, which is no text.
theorem load_by_layers_of_hidden_values :
    let sources : Sources := {
      files := ⟨[], [(["t.toml"], "poll_interval = 7\nlog_level = \"debug\"\n")]⟩
      environment := [("TESTING_prefix", "TE:X"), ("ioc_test_POLL_INTERVAL", "20ms"),
        ("IOC_TEST_PREFIX", "5")] }
    let values := nearest? (sources.files.find? "t.toml") sources.environment
    FileReadable (sources.files.find? "t.toml") ∧ (∀ v ∈ sources.environment, '.' ∉ v.1.toList) ∧
    ∃ s, load sources "t.toml" = .ok s ∧ From values s ∧ s.Usable ∧
      s = { default with
        instrument := "TE:X", pollInterval := Span.ofMillis 20, logLevel := "debug" } := by
  intro sources values
  have hf : FileReadable (sources.files.find? "t.toml") := by
    have h : sources.files.find? "t.toml" =
      some "poll_interval = 7\nlog_level = \"debug\"\n" := by decide +kernel
    rw [h]
    rintro text ⟨⟩
    have hr : (Tree.Toml.read? "poll_interval = 7\nlog_level = \"debug\"\n").isSome := by
      decide +kernel
    exact hr
  have hd : ∀ v ∈ sources.environment, '.' ∉ v.1.toList := by decide
  let s : Settings := { default with
    instrument := "TE:X", pollInterval := Span.ofMillis 20, logLevel := "debug" }
  have hl : load sources "t.toml" = .ok s := by
    have h : (load sources "t.toml").toOption = some s := by decide +kernel
    cases hx : load sources "t.toml" <;> rw [hx] at h <;> cases h
    rfl
  have ⟨_, _, hs, _⟩ := load_by_layers sources "t.toml" hf hd
  exact ⟨hf, hd, s, hl, (hs s hl).left, (hs s hl).right, rfl⟩

-- A name with a blank in front of it is not the name that the instrument is exported under, nor
-- one of a key; it gives the instrument nevertheless.
theorem name_with_blank_gives_instrument :
    let name := " testing_prefix"
    sameLetters name "testing_prefix" = false ∧
    (∀ key ∈ keys, sameLetters name ("IOC_TEST_" ++ key) = false) ∧
    (load ⟨⟨[], []⟩, [(name, "TE:X")]⟩ defaultFile).toOption.map instrument = some "TE:X" ∧
    (load ⟨⟨[], []⟩, []⟩ defaultFile).toOption.map instrument = some "" := by
  decide +kernel

end Settings
end Readback
