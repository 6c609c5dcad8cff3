import Mathlib.Data.List.Basic
import Readback.Tree.Toml.Reader

namespace Readback.Tree.Toml

def Node.IsTable : Node → Prop
  | .table .. => True
  | _ => False

theorem Node.isTable_update {dotted : Bool} {change : Node → Option Node} {path : List String}
    {n m : Node} (hc : ∀ m, change n = some m → m.IsTable)
    (h : n.update dotted change path = some m) : m.IsTable := by
  cases path
  case nil => exact hc m h
  case cons key path =>
    cases n
    case table =>
      rw [update] at h
      -- Whatever comes of the entry, it is put back into the table.
      have put {child : Option Node} {implicit dotted : Bool} {entries : List (String × Node)}
          (h : (do return .table implicit dotted (Node.put key (← child) entries)) = some m) :
          m.IsTable := by
        have ⟨_, _, he⟩ := Option.bind_eq_some_iff.mp h
        cases he
        trivial
      split at h
      · exact put h
      · exact put h
      · exact put h
      · exact put h
      · split at h <;> exact put h
    all_goals cases h

theorem Node.isTable_insert {path : List String} {key : String} {t : Tree} {n m : Node}
    (h : n.insert path key t = some m) : m.IsTable := by
  refine isTable_update (fun m hm => ?_) h
  split at hm
  · split at hm
    · cases hm
    · cases hm
      trivial
  · cases hm

namespace Document

variable {d e : Document} {path : List String}

structure HasTables (d : Document) : Prop where
  root : d.root.IsTable
  current : d.current.IsTable

theorem HasTables.finish (h : d.HasTables) {n : Node} (hf : d.finish = some n) : n.IsTable := by
  rw [Document.finish] at hf
  split at hf
  · cases hf
    exact h.current
  · refine Node.isTable_update (fun m hm => ?_) hf
    split at hm
    · split at hm
      · split at hm <;> cases hm <;> trivial
      · cases hm
        trivial
    · cases hm

theorem HasTables.announce (h : d.HasTables) {root : Node} {present : Option Node}
    (ha : d.announce path = some (root, present)) : root.IsTable := by
  have ⟨n, hn, ha⟩ := Option.bind_eq_some_iff.mp ha
  have ⟨m, hm, ha⟩ := Option.bind_eq_some_iff.mp ha
  have ⟨parent, _, ha⟩ := Option.bind_eq_some_iff.mp ha
  have ⟨key, _, ha⟩ := Option.bind_eq_some_iff.mp ha
  cases ha
  refine Node.isTable_update (fun m hm => ?_) hm
  cases hm
  exact h.finish hn

theorem HasTables.startTable (h : d.HasTables) (hs : d.startTable path = some e) :
    e.HasTables := by
  have ⟨⟨root, present⟩, ha, he⟩ := Option.bind_eq_some_iff.mp hs
  dsimp only at he
  split at he
  · cases he
    exact ⟨h.announce ha, trivial⟩
  · cases he
    exact ⟨h.announce ha, trivial⟩
  · cases he

theorem HasTables.startRow (h : d.HasTables) (hs : d.startRow path = some e) : e.HasTables := by
  have ⟨⟨root, present⟩, ha, he⟩ := Option.bind_eq_some_iff.mp hs
  dsimp only at he
  split at he
  · cases he
    exact ⟨h.announce ha, trivial⟩
  · cases he
    exact ⟨h.announce ha, trivial⟩
  · cases he

theorem HasTables.add (h : d.HasTables) {line : Line} (ha : d.add line = some e) :
    e.HasTables := by
  cases line
  case blank => cases ha; exact h
  case table path => exact h.startTable ha
  case tables path => exact h.startRow ha
  case entry key t =>
    have ⟨last, _, ha⟩ := Option.bind_eq_some_iff.mp ha
    have ⟨current, hc, ha⟩ := Option.bind_eq_some_iff.mp ha
    cases ha
    exact ⟨h.root, Node.isTable_insert hc⟩

theorem HasTables.addAll {lines : List Line} (h : d.HasTables)
    (ha : lines.foldlM Document.add d = some e) : e.HasTables := by
  induction lines generalizing d
  case nil => cases ha; exact h
  case cons line lines hi =>
    have ⟨d, hd, ha⟩ := Option.bind_eq_some_iff.mp ha
    exact hi (h.add hd) ha

end Document

theorem exists_object_of_read? {s : String} {t : Tree} (h : read? s = some t) :
    ∃ members, t = .object members := by
  have ⟨lines, _, h⟩ := Option.bind_eq_some_iff.mp h
  have ⟨d, hd, h⟩ := Option.bind_eq_some_iff.mp h
  have ⟨n, hn, h⟩ := Option.bind_eq_some_iff.mp h
  cases h
  have hb : Document.empty.HasTables := ⟨trivial, trivial⟩
  have ht := (hb.addAll hd).finish hn
  cases n
  case table => exact ⟨_, rfl⟩
  all_goals cases ht

end Readback.Tree.Toml
