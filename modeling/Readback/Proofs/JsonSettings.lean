import Readback.Proofs.JsonTrees
import Readback.Proofs.Spans
import Readback.Settings.Json

namespace Readback.Settings

open Tree.Json

def spans (s : Settings) : List Span :=
  [s.defaultTimeout, s.pollInterval, s.settleAfterPut, s.absenceTimeout, s.putExistenceTimeout]

theorem textOrNull?_device (device : Option String) :
    textOrNull? ((device.map Tree.text).getD .null) = some device := by
  cases device <;> rfl

theorem ofTree?_object (instrument device defaultTimeout pollInterval settle absence putExistence
    logLevel : Tree) :
    ofTree? (.object [("prefix", instrument), ("device_prefix", device),
      ("default_timeout", defaultTimeout), ("poll_interval", pollInterval),
      ("settle_after_put", settle), ("absence_timeout", absence),
      ("put_existence_timeout", putExistence), ("log_level", logLevel)]) = do
      return ⟨← instrument.text?, ← textOrNull? device, ← Span.ofTree? defaultTimeout,
        ← Span.ofTree? pollInterval, ← Span.ofTree? settle, ← Span.ofTree? absence,
        ← Span.ofTree? putExistence, ← logLevel.text?⟩ := by
  have hf : (Tree.object [("prefix", instrument), ("device_prefix", device),
      ("default_timeout", defaultTimeout), ("poll_interval", pollInterval),
      ("settle_after_put", settle), ("absence_timeout", absence),
      ("put_existence_timeout", putExistence), ("log_level", logLevel)]).fields? keys =
    some [some instrument, some device, some defaultTimeout, some pollInterval, some settle,
      some absence, some putExistence, some logLevel] := rfl
  rw [ofTree?, hf]
  rfl

theorem ofTree?_toTree {s : Settings} (h : ∀ d ∈ s.spans, d.Representable) :
    ofTree? s.toTree = some s := by
  have read {d : Span} (hd : d ∈ s.spans) : Span.ofTree? d.toTree = some d :=
    Span.ofTree?_toTree (h d hd)
  rw [toTree, ofTree?_object, textOrNull?_device, read (by simp [spans]), read (by simp [spans]),
    read (by simp [spans]), read (by simp [spans]), read (by simp [spans])]
  rfl

theorem faithful_toTree (s : Settings) : ∀ leaf ∈ s.toTree.leaves, Faithful leaf := by
  cases hd : s.device <;>
    simp [toTree, hd, Span.toTree, Tree.leaves, Tree.leavesOfMembers, Faithful]

theorem seen_toTree (s : Settings) : seen 0 s.toTree = s.toTree := by
  cases hd : s.device <;> simp [toTree, hd, seen, seenMembers, Span.toTree, nesting]

-- Settings that are written as JSON are read as they were, to the nanosecond.
theorem ofJson?_toJson (s : Settings) (h : ∀ d ∈ s.spans, d.Representable) :
    ofJson? s.toJson = some s := by
  rw [ofJson?, toJson, read?_compactText s.faithful_toTree, seen_toTree]
  exact ofTree?_toTree h

-- Settings with texts that need escapes, a device without a name, the longest span there is and one
-- of many units.
theorem ofJson?_toJson_of_longest :
    let s : Settings := {
      instrument := "\"TE\\\u0001:µ\n"
      device := some ""
      defaultTimeout := UInt64.size * Span.second - 1
      pollInterval := 1
      settleAfterPut := 0
      absenceTimeout := 93784005006007
      putExistenceTimeout := 31557600000000000
      logLevel := "" }
    (∀ d ∈ s.spans, d.Representable) ∧ ofJson? s.toJson = some s := by
  intro s
  have h : ∀ d ∈ s.spans, d.Representable := by decide +kernel
  exact ⟨h, ofJson?_toJson s h⟩

end Readback.Settings
