import Readback.Proofs.JsonTrees
import Readback.Proofs.Spans
import Readback.Suite.Table

namespace Readback

open Tree.Json

namespace Value

theorem word?_toInt (w : Int64) : word? w.toInt = some w := by
  rw [word?, if_pos ⟨Int64.minValue_le_toInt w, Int64.toInt_le w⟩, Int64.ofInt_toInt]

mutual

theorem ofTree?_toTree (v : Value) : ofTree? v.toTree = some v := by
  match v with
  | .int w => simp [toTree, ofTree?, word?_toInt]
  | .float x | .text s => rfl
  | .array vs => rw [toTree, ofTree?, ofTrees?_toTrees vs]; rfl

theorem ofTrees?_toTrees (vs : List Value) : ofTrees? (toTrees vs) = some vs := by
  match vs with
  | [] => rfl
  | v :: vs => simp [toTrees, ofTrees?, ofTree?_toTree v, ofTrees?_toTrees vs]

end

theorem exact_toInt (w : Int64) : Exact w.toInt :=
  ⟨Int64.minValue_le_toInt w, Int.lt_of_le_of_lt (Int64.toInt_le w) (by decide)⟩

mutual

theorem plain_toTree (v : Value) : ∀ leaf ∈ v.toTree.leaves, Plain leaf := by
  match v with
  | .int w => simpa [toTree, Tree.leaves, Plain] using exact_toInt w
  | .float x | .text s => simp [toTree, Tree.leaves, Plain]
  | .array vs => exact plain_toTrees vs

theorem plain_toTrees (vs : List Value) : ∀ leaf ∈ Tree.leavesOfItems (toTrees vs), Plain leaf := by
  match vs with
  | [] => exact List.forall_mem_nil _
  | v :: vs => exact List.forall_mem_append.mpr ⟨plain_toTree v, plain_toTrees vs⟩

end

mutual

theorem readable_toTree (v : Value) : v.toTree.readable := by
  match v with
  | .int w | .float x | .text s => rfl
  | .array vs => exact readable_toTrees vs

theorem readable_toTrees (vs : List Value) : Tree.readableItems (toTrees vs) := by
  match vs with
  | [] => rfl
  | v :: vs => simp [toTrees, Tree.readableItems, readable_toTree v, readable_toTrees vs]

end

mutual

theorem seen_of_isSome (d : Nat) (v : Value) (h : (ofTree? (seen d v.toTree)).isSome) :
    seen d v.toTree = v.toTree := by
  match v with
  | .int w | .text s => rfl
  | .float x =>
    cases hx : x.isFinite <;> simp [toTree, seen, hx, ofTree?] at h ⊢
  | .array vs =>
    by_cases hd : d < nesting
    case pos =>
      simp only [toTree, seen, hd, if_true, ofTree?, Option.isSome_map] at h ⊢
      rw [seenItems_of_isSome (d + 1) vs h]
    case neg => simp [toTree, seen, hd, ofTree?] at h

theorem seenItems_of_isSome (d : Nat) (vs : List Value)
    (h : (ofTrees? (seenItems d (toTrees vs))).isSome) :
    seenItems d (toTrees vs) = toTrees vs := by
  match vs with
  | [] => rfl
  | v :: vs =>
    have hv := seen_of_isSome d v
    have hvs := seenItems_of_isSome d vs
    cases hx : ofTree? (seen d v.toTree) <;> cases hy : ofTrees? (seenItems d (toTrees vs)) <;>
      simp [toTrees, seenItems, ofTrees?, hx, hy] at h hv hvs ⊢
    exact ⟨hv, hvs⟩

end

end Value

namespace Severity

theorem ofTree?_toTree (isNothing : Tree → Bool) (s : Severity) :
    ofTree? isNothing s.toTree = some s := by
  cases s <;> rfl

end Severity

namespace Expectation

theorem ofTree?_equals (t : Tree) : ofTree? (.object [("kind", .text "equals"), ("value", t)]) =
    if t.readable then (Value.ofTree? t).map equals else none := by
  have hv : (Tree.object [("kind", .text "equals"), ("value", t)]).variant? "kind" =
    some ("equals", .object [("value", t)]) := rfl
  have hf : (Tree.object [("value", t)]).fields? ["value"] = some [some t] := rfl
  simp only [ofTree?, Tree.readable, Tree.readableMembers, hv]
  cases t.readable <;> cases hx : Value.ofTree? t <;> simp [hf, hx]

theorem ofTree?_number (t u : Tree) :
    ofTree? (.object [("kind", .text "number"), ("value", t), ("tolerance", u)]) =
      if t.readable ∧ u.readable then do return number (← Double.ofTree? t) (← Double.ofTree? u)
      else none := by
  have hv : (Tree.object [("kind", .text "number"), ("value", t),
      ("tolerance", u)]).variant? "kind" =
    some ("number", .object [("value", t), ("tolerance", u)]) := rfl
  have hf : (Tree.object [("value", t), ("tolerance", u)]).fields? ["value", "tolerance"] =
    some [some t, some u] := rfl
  simp only [ofTree?, Tree.readable, Tree.readableMembers, hv]
  cases t.readable <;> cases u.readable <;> simp [hf]

theorem ofTree?_oneOf (t : Tree) : ofTree? (.object [("kind", .text "one_of"), ("values", t)]) =
    if t.readable then (values? t).map oneOf else none := by
  have hv : (Tree.object [("kind", .text "one_of"), ("values", t)]).variant? "kind" =
    some ("one_of", .object [("values", t)]) := rfl
  have hf : (Tree.object [("values", t)]).fields? ["values"] = some [some t] := rfl
  simp only [ofTree?, Tree.readable, Tree.readableMembers, hv]
  cases t.readable <;> cases hx : values? t <;> simp [hf, hx]

theorem ofTree?_integerInRange (t u : Tree) :
    ofTree? (.object [("kind", .text "integer_in_range"), ("min", t), ("max", u)]) =
      if t.readable ∧ u.readable then do return integerInRange (← t.word?) (← u.word?)
      else none := by
  have hv : (Tree.object [("kind", .text "integer_in_range"), ("min", t),
      ("max", u)]).variant? "kind" =
    some ("integer_in_range", .object [("min", t), ("max", u)]) := rfl
  have hf : (Tree.object [("min", t), ("max", u)]).fields? ["min", "max"] =
    some [some t, some u] := rfl
  simp only [ofTree?, Tree.readable, Tree.readableMembers, hv]
  cases t.readable <;> cases u.readable <;> simp [hf]

theorem ofTree?_alarm (t : Tree) : ofTree? (.object [("kind", .text "alarm"), ("severity", t)]) =
    if t.readable then (Severity.ofTree? Tree.isNullOrEmpty t).map alarm else none := by
  have hv : (Tree.object [("kind", .text "alarm"), ("severity", t)]).variant? "kind" =
    some ("alarm", .object [("severity", t)]) := rfl
  have hf : (Tree.object [("severity", t)]).fields? ["severity"] = some [some t] := rfl
  simp only [ofTree?, Tree.readable, Tree.readableMembers, hv]
  cases t.readable <;> cases hx : Severity.ofTree? Tree.isNullOrEmpty t <;> simp [hf, hx]

theorem ofTree?_toTree (e : Expectation) : ofTree? e.toTree = some e := by
  cases e
  case equals v =>
    rw [toTree, ofTree?_equals, if_pos (Value.readable_toTree v), Value.ofTree?_toTree]
    rfl
  case number x tolerance =>
    rw [toTree, ofTree?_number]
    rfl
  case oneOf vs =>
    have hr : (Tree.list (Value.toTrees vs)).readable := Value.readable_toTrees vs
    rw [toTree, ofTree?_oneOf, if_pos hr, values?, Value.ofTrees?_toTrees]
    rfl
  case integerInRange least greatest =>
    rw [toTree, ofTree?_integerInRange]
    simp [Tree.readable, Tree.word?, Value.word?_toInt]
  case alarm severity =>
    rw [toTree, ofTree?_alarm, Severity.ofTree?_toTree]
    rfl

theorem plain_toTree (e : Expectation) : ∀ leaf ∈ e.toTree.leaves, Plain leaf := by
  cases e
  case equals v =>
    simpa [toTree, Tree.leaves, Tree.leavesOfMembers, Plain] using Value.plain_toTree v
  case number x tolerance => simp [toTree, Tree.leaves, Tree.leavesOfMembers, Plain]
  case oneOf vs =>
    simpa [toTree, Tree.leaves, Tree.leavesOfMembers, Plain] using Value.plain_toTrees vs
  case integerInRange least greatest =>
    simpa [toTree, Tree.leaves, Tree.leavesOfMembers, Plain] using
      ⟨Value.exact_toInt least, Value.exact_toInt greatest⟩
  case alarm severity =>
    simp [toTree, Severity.toTree, Tree.leaves, Tree.leavesOfMembers, Plain]

theorem seen_of_isSome (d : Nat) (e : Expectation) (h : (ofTree? (seen d e.toTree)).isSome) :
    seen d e.toTree = e.toTree := by
  by_cases hd : d < nesting
  case neg =>
    have hu : seen d e.toTree = .unreadable := by cases e <;> simp [toTree, seen, hd]
    rw [hu] at h
    cases h
  case pos =>
    cases e
    case equals v =>
      simp only [toTree, seen, seenMembers, hd, if_true, ofTree?_equals] at h ⊢
      split at h
      · rw [Value.seen_of_isSome (d + 1) v (by simpa using h)]
      · cases h
    case number x tolerance =>
      cases hx : x.isFinite <;> cases ht : tolerance.isFinite <;>
        simp [toTree, seen, seenMembers, hd, ofTree?_number, hx, ht, Double.ofTree?] at h ⊢
    case oneOf vs =>
      by_cases hl : d + 1 < nesting
      case neg => simp [toTree, seen, seenMembers, hd, hl, ofTree?_oneOf, Tree.readable] at h
      case pos =>
        simp only [toTree, seen, seenMembers, hd, hl, if_true, ofTree?_oneOf, values?] at h ⊢
        split at h
        · rw [Value.seenItems_of_isSome (d + 2) vs (by simpa using h)]
        · cases h
    case integerInRange least greatest => simp [toTree, seen, seenMembers, hd]
    case alarm severity => simp [toTree, Severity.toTree, seen, seenMembers, hd]

end Expectation

namespace Case

theorem ofTree?_object (name input expect timeout : Tree) : ofTree? (.object [("name", name),
    ("input", input), ("expect", expect), ("timeout", timeout)]) = do
      return ⟨← name.text?, ← Value.ofTree? input, ← Expectation.ofTree? expect,
        ← Span.ofTreeOrNull? timeout⟩ := by
  have hf : (Tree.object [("name", name), ("input", input), ("expect", expect),
    ("timeout", timeout)]).fields? keys = some [some name, some input, some expect, some timeout] :=
    rfl
  rw [ofTree?, hf]
  rfl

theorem ofTree?_toTree (c : Case) (h : ∀ s ∈ c.timeout, s.Representable) :
    ofTree? c.toTree = some c := by
  have ht : Span.ofTreeOrNull? ((c.timeout.map Span.toTree).getD .null) = some c.timeout := by
    cases hc : c.timeout
    case none => rfl
    case some s => exact congrArg (Option.map some) (Span.ofTree?_toTree (h s hc))
  rw [toTree, ofTree?_object, ht, Value.ofTree?_toTree, Expectation.ofTree?_toTree]
  rfl

theorem plain_toTree (c : Case) : ∀ leaf ∈ c.toTree.leaves, Plain leaf := by
  have ht : ∀ leaf ∈ ((c.timeout.map Span.toTree).getD .null).leaves, Plain leaf := by
    cases c.timeout <;> simp [Span.toTree, Tree.leaves, Plain]
  intro leaf h
  simp only [toTree, Tree.leaves, Tree.leavesOfMembers, List.mem_append, List.mem_singleton,
    List.not_mem_nil, or_false] at h
  rcases h with rfl | h | h | h
  · trivial
  · exact Value.plain_toTree c.input leaf h
  · exact Expectation.plain_toTree c.expect leaf h
  · exact ht leaf h

theorem seen_of_isSome (d : Nat) (c : Case) (h : (ofTree? (seen d c.toTree)).isSome) :
    seen d c.toTree = c.toTree := by
  by_cases hd : d < nesting
  case neg =>
    have hu : seen d c.toTree = .unreadable := by simp [toTree, seen, hd]
    rw [hu] at h
    cases h
  case pos =>
    have ht : seen (d + 1) ((c.timeout.map Span.toTree).getD .null) =
        (c.timeout.map Span.toTree).getD .null := by
      cases c.timeout <;> rfl
    have hi := Value.seen_of_isSome (d + 1) c.input
    have he := Expectation.seen_of_isSome (d + 1) c.expect
    simp only [toTree, seen, seenMembers, hd, if_true, ofTree?_object, ht] at h ⊢
    cases hv : Value.ofTree? (seen (d + 1) c.input.toTree) <;>
      cases hx : Expectation.ofTree? (seen (d + 1) c.expect.toTree) <;>
      simp [hv, hx] at h hi he ⊢
    exact ⟨hi, he⟩

theorem seenItems_of_isSome (d : Nat) (cs : List Case)
    (h : ((seenItems d (cs.map toTree)).mapM ofTree?).isSome) :
    seenItems d (cs.map toTree) = cs.map toTree := by
  induction cs
  case nil => rfl
  case cons c cs hi =>
    have hc := seen_of_isSome d c
    cases hx : ofTree? (seen d c.toTree) <;>
      cases hy : (seenItems d (cs.map toTree)).mapM ofTree? <;>
      simp [seenItems, hx, hy] at h hc hi ⊢
    exact ⟨hc, hi⟩

theorem mapM_ofTree? {cs : List Case} (h : ∀ c ∈ cs, ∀ s ∈ c.timeout, s.Representable) :
    (cs.map toTree).mapM ofTree? = some cs := by
  induction cs
  case nil => rfl
  case cons c cs hi =>
    have ⟨hc, hcs⟩ := List.forall_mem_cons.mp h
    simp [ofTree?_toTree c hc, hi hcs]

theorem firstRepeated_eq_none_iff {seen : List String} {cs : List Case} :
    firstRepeated seen cs = none ↔ (cs.map name).Nodup ∧ ∀ c ∈ cs, c.name ∉ seen := by
  induction cs generalizing seen
  case nil => simp [firstRepeated]
  case cons c cs hi =>
    by_cases hc : c.name ∈ seen
    case pos => simp [firstRepeated, hc]
    case neg =>
      simp only [firstRepeated, hc, if_false, hi, List.mem_cons, not_or, List.map_cons,
        List.nodup_cons, List.mem_map, not_exists, not_and, forall_eq_or_imp, not_false_eq_true,
        true_and]
      constructor
      · rintro ⟨hn, hs⟩
        exact ⟨⟨fun b hb => (hs b hb).left, hn⟩, fun b hb => (hs b hb).right⟩
      · rintro ⟨⟨hc, hn⟩, hs⟩
        exact ⟨hn, fun b hb => ⟨hc b hb, hs b hb⟩⟩

theorem unique_of_nodup {cs : List Case} (h : (cs.map name).Nodup) : unique cs = .ok cs := by
  rw [unique, firstRepeated_eq_none_iff.mpr ⟨h, fun _ _ => List.not_mem_nil⟩]

def table (cs : List Case) : Tree := .list (cs.map toTree)

theorem plain_table (cs : List Case) : ∀ leaf ∈ (table cs).leaves, Plain leaf := by
  induction cs
  case nil => exact List.forall_mem_nil _
  case cons c cs hi => exact List.forall_mem_append.mpr ⟨plain_toTree c, hi⟩

theorem seen_table (cs : List Case) :
    seen 0 (table cs) = .list (seenItems 1 (cs.map toTree)) := by
  rw [table, seen, if_pos (by decide)]

-- A table that is written as JSON is read as it was, or not at all; not at all only if it has
-- a double without a text or is nested too deeply.
theorem read_writeJson (cs : List Case) (hn : (cs.map name).Nodup)
    (ht : ∀ c ∈ cs, ∀ s ∈ c.timeout, s.Representable)
    (hx : ∀ x, .float x ∈ (table cs).leaves → x.isFinite →
      number? (scalar (.float x)) = some (.float x)) :
    let kept := (∀ x, .float x ∈ (table cs).leaves → x.isFinite) ∧ (table cs).depth ≤ 127
    (kept → read .json (writeJson cs) = .ok cs) ∧
    (¬kept → read .json (writeJson cs) = .error .json) := by
  intro kept
  have hf : ∀ leaf ∈ (table cs).leaves, Faithful leaf := by
    intro leaf h
    have hp := plain_table cs leaf h
    cases leaf
    case integer n => exact hp
    case float x => exact hx x h
    all_goals trivial
  have hr : parse? .json (writeJson cs) = (seenItems 1 (cs.map toTree)).mapM ofTree? := by
    rw [parse?, writeJson, ← table, read?_compactText hf, seen_table]
    rfl
  have hw : kept ↔ seenItems 1 (cs.map toTree) = cs.map toTree := by
    have hi := seen_eq_iff 0 (table cs) (plain_table cs) (Nat.zero_le _)
    rw [seen_table, Nat.zero_add, table, Tree.list.injEq] at hi
    exact hi.symm
  constructor
  case left =>
    intro h
    rw [read, hr, hw.mp h, mapM_ofTree? ht]
    exact unique_of_nodup hn
  case right =>
    intro h
    have ho : (seenItems 1 (cs.map toTree)).mapM ofTree? = none := by
      rw [← Option.not_isSome_iff_eq_none]
      exact fun hs => h (hw.mpr (seenItems_of_isSome 1 cs hs))
    rw [read, hr, ho]
    rfl

def half : Double := .finite false ⟨1022 * Nat.pow 2 52, by decide⟩

theorem number?_half : number? (scalar (.float half)) = some (.float half) := by
  have ht : scalar (.float half) = ['0', '.', '5'] := by decide +kernel
  have hs : Double.Numeral.stepwise? false ⟨['0'], ['5'], 0⟩ = some half := by decide +kernel
  have hn : number? ['0', '.', '5'] = some (((Double.Numeral.stepwise? false
    ⟨['0'], ['5'], 0⟩).map Tree.float).getD .unreadable) := rfl
  rw [ht, hn, hs]
  rfl

-- A table that comes back has lists in lists, texts that need escapes and a span of many units.
theorem read_writeJson_of_halves :
    let cs : List Case := [
      ⟨"1 \"µ\"\n", .array [.int (-3), .float half, .array [.text "\\ \u0001"]],
        .number half half, some 93784005006007⟩,
      ⟨"2", .text "5", .oneOf [.int 5, .text "5"], none⟩]
    (cs.map name).Nodup ∧ (∀ c ∈ cs, ∀ s ∈ c.timeout, s.Representable) ∧
    (∀ x, .float x ∈ (table cs).leaves → x.isFinite →
      number? (scalar (.float x)) = some (.float x)) ∧
    read .json (writeJson cs) = .ok cs := by
  intro cs
  have hn : (cs.map name).Nodup := by decide
  have ht : ∀ c ∈ cs, ∀ s ∈ c.timeout, s.Representable := by
    simp [cs, Span.Representable, Span.second, UInt64.size]
  have hl : ∀ x, .float x ∈ (table cs).leaves → x = half := by
    simp [cs, table, toTree, Value.toTree, Value.toTrees, Expectation.toTree, Tree.leaves,
      Tree.leavesOfItems, Tree.leavesOfMembers, Span.toTree]
  have hx : ∀ x, .float x ∈ (table cs).leaves → x.isFinite →
      number? (scalar (.float x)) = some (.float x) :=
    fun x hx _ => hl x hx ▸ number?_half
  exact ⟨hn, ht, hx, (read_writeJson cs hn ht hx).left ⟨fun x hx => hl x hx ▸ rfl, by decide⟩⟩

end Case
end Readback
