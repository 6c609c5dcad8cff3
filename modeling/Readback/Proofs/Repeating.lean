import Mathlib.Data.List.Forall2
import Mathlib.Data.List.Nodup
import Readback.Proofs.Tables

namespace Readback.Case

variable {cs : List Case} {s : String} {format : TableFormat} {text : String}

theorem firstRepeated_append (seen : List String) (before cs : List Case) :
    firstRepeated seen (before ++ cs) =
      (firstRepeated seen before).or (firstRepeated ((before.map name).reverse ++ seen) cs) := by
  induction before generalizing seen
  case nil => rfl
  case cons b before hi =>
    by_cases hb : b.name ∈ seen
    case pos => simp [firstRepeated, hb]
    case neg => simp [firstRepeated, hb, hi]

-- The name that is the first to be repeated: it is one of the names before it, which all differ.
inductive RepeatsFirst : List Case → String → Prop
  | intro {before : List Case} {c : Case} {after : List Case}
    (hd : (before.map name).Nodup) (hr : c.name ∈ before.map name) :
    RepeatsFirst (before ++ c :: after) c.name

theorem firstRepeated_nil_eq_none_iff : firstRepeated [] cs = none ↔ (cs.map name).Nodup := by
  rw [firstRepeated_eq_none_iff]
  exact and_iff_left fun _ _ => List.not_mem_nil

theorem RepeatsFirst.firstRepeated_eq (h : RepeatsFirst cs s) : firstRepeated [] cs = some s := by
  obtain ⟨hd, hr⟩ := h
  rw [firstRepeated_append, firstRepeated_nil_eq_none_iff.mpr hd, Option.none_or, firstRepeated,
    List.append_nil, if_pos (List.mem_reverse.mpr hr)]

theorem repeatsFirst_append (before : List Case) (hd : (before.map name).Nodup)
    (h : firstRepeated (before.map name).reverse cs = some s) : RepeatsFirst (before ++ cs) s := by
  induction cs generalizing before
  case nil => cases h
  case cons c cs hi =>
    rw [firstRepeated] at h
    split at h
    case isTrue hc =>
      cases h
      exact .intro hd (List.mem_reverse.mp hc)
    case isFalse hc =>
      have hs : ((before ++ [c]).map name).reverse = c.name :: (before.map name).reverse := by simp
      have hn : ((before ++ [c]).map name).Nodup := by
        rw [← List.nodup_reverse, hs]
        exact List.nodup_cons.mpr ⟨hc, List.nodup_reverse.mpr hd⟩
      have hr := hi (before ++ [c]) hn (hs ▸ h)
      rwa [List.append_assoc] at hr

theorem firstRepeated_nil_eq_some_iff : firstRepeated [] cs = some s ↔ RepeatsFirst cs s :=
  ⟨repeatsFirst_append [] List.nodup_nil, RepeatsFirst.firstRepeated_eq⟩

theorem unique_eq_ok_iff {ds : List Case} :
    unique cs = .ok ds ↔ (cs.map name).Nodup ∧ ds = cs := by
  rw [unique, ← firstRepeated_nil_eq_none_iff]
  cases firstRepeated [] cs <;> simp [eq_comm]

theorem unique_eq_error_iff {e : TableError} :
    unique cs = .error e ↔ ∃ s, RepeatsFirst cs s ∧ e = .duplicateCase s := by
  simp only [unique, ← firstRepeated_nil_eq_some_iff]
  cases firstRepeated [] cs <;> simp [eq_comm]

-- The rows of the table in a text: the items of a list in JSON, and in TOML those of the list under
-- the key `case`, if there is one.
inductive HasRows : TableFormat → String → List Tree → Prop
  | json {text : String} {items : List Tree} (h : Tree.Json.read? text = some (.list items)) :
    HasRows .json text items
  | toml {text : String} {members : List (String × Tree)} {items : List Tree}
    (h : Tree.Toml.read? text = some (.object members))
    (hm : Tree.member? members "case" = some (some (.list items))) :
    HasRows .toml text (items.map cut)
  | absent {text : String} {members : List (String × Tree)}
    (h : Tree.Toml.read? text = some (.object members))
    (hm : Tree.member? members "case" = some none) :
    HasRows .toml text []

def Tabulates (format : TableFormat) (text : String) (cs : List Case) : Prop :=
  ∃ rows, HasRows format text rows ∧ List.Forall₂ (fun row c => ofTree? row = some c) rows cs

theorem mapM_ofTree?_eq_some_iff {rows : List Tree} :
    rows.mapM ofTree? = some cs ↔ List.Forall₂ (fun row c => ofTree? row = some c) rows cs := by
  induction rows generalizing cs
  case nil => simp [eq_comm]
  case cons row rows hi =>
    cases cs <;> simp [List.mapM_cons, hi, Option.bind_eq_some_iff]

theorem HasRows.parse?_eq {rows : List Tree} (h : HasRows format text rows) :
    parse? format text = rows.mapM ofTree? := by
  rcases h with h | ⟨h, hm⟩ | ⟨h, hm⟩
  case json => rw [parse?, h, Option.bind_some, ofList?]
  case toml =>
    rw [parse?, h, Option.bind_some, ofTable?, hm, List.mapM_map]
    rfl
  case absent =>
    rw [parse?, h, Option.bind_some, ofTable?, hm]
    rfl

theorem exists_hasRows (h : (parse? format text).isSome) : ∃ rows, HasRows format text rows := by
  obtain ⟨cs, h⟩ := Option.isSome_iff_exists.mp h
  cases format <;> obtain ⟨t, ht, hc⟩ := Option.bind_eq_some_iff.mp h
  case json =>
    cases t
    case list items => exact ⟨items, .json ht⟩
    all_goals cases hc
  case toml =>
    cases t
    case object members =>
      have ⟨m, hm, hc⟩ := Option.bind_eq_some_iff.mp hc
      split at hc
      case h_1 => exact ⟨[], .absent ht hm⟩
      case h_2 items => exact ⟨items.map cut, .toml ht hm⟩
      case h_3 => cases hc
    all_goals cases hc

theorem parse?_eq_some_iff : parse? format text = some cs ↔ Tabulates format text cs := by
  constructor
  case mp =>
    intro h
    have ⟨rows, hr⟩ := exists_hasRows (Option.isSome_of_eq_some h)
    exact ⟨rows, hr, mapM_ofTree?_eq_some_iff.mp (hr.parse?_eq ▸ h)⟩
  case mpr =>
    rintro ⟨rows, hr, hc⟩
    rw [hr.parse?_eq, mapM_ofTree?_eq_some_iff.mpr hc]

theorem Tabulates.read_eq (h : Tabulates format text cs) : read format text = unique cs := by
  rw [read, parse?_eq_some_iff.mpr h]

theorem read_of_not_tabulates (h : ¬∃ cs, Tabulates format text cs) :
    read format text = .error (malformed format) := by
  have hn : parse? format text = none := by
    simpa only [← parse?_eq_some_iff, not_exists, ← Option.eq_none_iff_forall_ne_some] using h
  rw [read, hn]

-- A table of cases is read, row by row, unless a name is repeated in it; of several such names the
-- one is reported that is the first to be. This is so in either format.
theorem table_read_unless_name_repeated (format : TableFormat) (text : String) :
    (∀ cs, Tabulates format text cs →
      (∀ ds, read format text = .ok ds ↔ (cs.map name).Nodup ∧ ds = cs) ∧
      ∀ e, read format text = .error e ↔ ∃ s, RepeatsFirst cs s ∧ e = .duplicateCase s) ∧
    ((¬∃ cs, Tabulates format text cs) → read format text = .error (malformed format)) := by
  refine ⟨fun cs h => ?_, read_of_not_tabulates⟩
  rw [h.read_eq]
  exact ⟨fun _ => unique_eq_ok_iff, fun _ => unique_eq_error_iff⟩

-- Two names are repeated, the one that came second before the other. Neither letters in another
-- case nor a blank make a repetition.
theorem table_read_unless_name_repeated_of_two_names :
    let names := ["a", "b", "A", "a ", "b", "a"]
    let cs := names.map fun s => (⟨s, .int 1, .equals (.int 1), none⟩ : Case)
    Tabulates .json (writeJson cs) cs ∧ RepeatsFirst cs "b" ∧
    read .json (writeJson cs) = .error (.duplicateCase "b") := by
  intro names cs
  have hf : ∀ leaf ∈ (table cs).leaves, Tree.Json.Faithful leaf := by
    simp [cs, names, table, toTree, Value.toTree, Expectation.toTree, Tree.leaves,
      Tree.leavesOfItems, Tree.leavesOfMembers, Tree.Json.Faithful, Tree.Json.Exact]
  have hr : Tree.Json.read? (writeJson cs) = some (table cs) := Tree.Json.read?_compactText hf
  have ht : Tabulates .json (writeJson cs) cs := ⟨_, .json hr, by simp [cs, names, ofTree?_toTree]⟩
  have hb : RepeatsFirst cs "b" := @RepeatsFirst.intro (cs.take 4) _ _ (by decide) (by decide)
  have refused := ((table_read_unless_name_repeated .json (writeJson cs)).left cs ht).right
  exact ⟨ht, hb, (refused _).mpr ⟨"b", hb, rfl⟩⟩

end Readback.Case
