import Readback.Assertion.Checker
import Readback.Server.Transport

namespace Readback

namespace Settings

def IsClosed (start : String) : Prop :=
  start = "" ∨ ∃ u, start = u ++ ":"

theorem isClosed_append_colon (u : String) : IsClosed (u ++ ":") :=
  .inr ⟨u, rfl⟩

theorem isClosed_iff {start : String} :
    IsClosed start ↔ (start.toList.isEmpty || start.toList.getLast? == some ':') = true := by
  rw [Bool.or_eq_true, List.isEmpty_iff, String.toList_eq_nil_iff, beq_iff_eq,
    List.getLast?_eq_some_iff]
  refine or_congr_right ⟨fun ⟨u, hu⟩ => ⟨u.toList, ?_⟩, fun ⟨cs, hc⟩ => ⟨.ofList cs, ?_⟩⟩
  case refine_1 => rw [hu, String.toList_append]; rfl
  case refine_2 => rw [← String.ofList_toList (s := start), hc, String.ofList_append]

theorem isClosed_closed (instrument : String) : IsClosed (closed instrument) := by
  unfold closed
  split
  case isTrue h => exact isClosed_iff.mpr h
  case isFalse => exact isClosed_append_colon instrument

theorem closed_of_isClosed {start : String} (h : IsClosed start) : closed start = start :=
  if_pos (isClosed_iff.mp h)

variable {s : Settings}

theorem stem_of_no_device (h : s.device = none) : s.stem = closed s.instrument := by
  rw [stem, h, String.append_empty]

theorem stem_forDevice (s : Settings) (d : String) :
    (s.forDevice d).stem = closed s.instrument ++ d ++ ":" :=
  String.append_assoc.symm

theorem isClosed_stem (s : Settings) : IsClosed s.stem := by
  cases h : s.device
  case none => exact stem_of_no_device h ▸ isClosed_closed s.instrument
  case some d =>
    have hs : s = s.forDevice d := by rw [forDevice, ← h]
    rw [hs, stem_forDevice]
    exact isClosed_append_colon _

end Settings

namespace Checker

open Settings

variable {σ : Type} {t : Transport σ} {s : Settings} {k : Checker σ}

def onDevices (k : Checker σ) (ds : List String) : Checker σ :=
  ds.foldl onDevice k

def path : List String → String
  | [] => ""
  | d :: ds => d ++ ":" ++ path ds

theorem stem_onDevices (k : Checker σ) (ds : List String) :
    (k.onDevices ds).stem = k.stem ++ path ds := by
  induction ds generalizing k
  case nil => exact String.append_empty.symm
  case cons d ds hi =>
    calc (k.onDevices (d :: ds)).stem
      _ = (k.onDevice d).stem ++ path ds := hi (k.onDevice d)
      _ = k.stem ++ path (d :: ds) := by simp only [onDevice, path, String.append_assoc]

theorem isClosed_onDevices (h : IsClosed k.stem) (ds : List String) :
    IsClosed (k.onDevices ds).stem := by
  induction ds generalizing k
  case nil => exact h
  case cons d ds hi => exact hi (isClosed_append_colon _)

theorem ofSettings_forDevice (t : Transport σ) (h : s.device = none) (d : String) :
    ofSettings t (s.forDevice d) = (ofSettings t s).onDevice d := by
  have hs : (s.forDevice d).stem = s.stem ++ d ++ ":" := by
    rw [stem_forDevice, stem_of_no_device h]
  simp only [ofSettings, onDevice, hs]
  rfl

theorem ofSettings_stem (t : Transport σ) (h : s.device = none) :
    ofSettings t { s with instrument := s.stem } = ofSettings t s := by
  have hs : Settings.stem { s with instrument := s.stem } = s.stem :=
    calc Settings.stem { s with instrument := s.stem }
      _ = closed s.stem := stem_of_no_device h
      _ = s.stem := closed_of_isClosed (isClosed_stem s)
  simp only [ofSettings, hs]

-- A device on an instrument can be given to the settings or to the checker. Either way the full
-- name of a process variable is the instrument with a colon behind it, each device with a colon
-- behind it, and the local name; and an instrument that has got its colon does not get another.
theorem device_addressed_either_way (t : Transport σ) (h : s.device = none) (d : String)
    (ds : List String) (pv : String) :
    let k := ofSettings t s
    let spelled : Settings := { s with instrument := s.stem }
    (k.onDevices (d :: ds)).fullName pv =
      ((ofSettings t (s.forDevice d)).onDevices ds).fullName pv ∧
    (k.onDevices (d :: ds)).fullName pv = closed s.instrument ++ path (d :: ds) ++ pv ∧
    (∀ (s : Settings) (ds : List String), IsClosed ((ofSettings t s).onDevices ds).stem) ∧
    ((ofSettings t spelled).onDevices ds).fullName pv = (k.onDevices ds).fullName pv ∧
    ((ofSettings t (spelled.forDevice d)).onDevices ds).fullName pv =
      ((ofSettings t (s.forDevice d)).onDevices ds).fullName pv := by
  intro k spelled
  have hk : ofSettings t spelled = k := ofSettings_stem t h
  refine ⟨?either, ?name, fun s ds => isClosed_onDevices (isClosed_stem s) ds, ?spelled, ?below⟩
  case either =>
    rw [ofSettings_forDevice t h]
    rfl
  case name =>
    rw [fullName, stem_onDevices, ← stem_of_no_device h]
    rfl
  case spelled => rw [hk]
  case below =>
    have hs : spelled.device = none := h
    rw [ofSettings_forDevice t hs, ofSettings_forDevice t h, hk]

-- Two devices, one below the other, on an instrument without its colon.
theorem device_addressed_either_way_of_two_devices :
    let s : Settings := { Settings.default with instrument := "TE:NDW" }
    let k := ofSettings Server.transport s
    let spelled : Settings := { s with instrument := s.stem }
    s.device = none ∧
    (k.onDevices ["KEPCO_01", "CH2"]).fullName "TEMP" = "TE:NDW:KEPCO_01:CH2:TEMP" ∧
    ((ofSettings Server.transport (s.forDevice "KEPCO_01")).onDevices ["CH2"]).fullName "TEMP" =
      "TE:NDW:KEPCO_01:CH2:TEMP" ∧
    ((ofSettings Server.transport spelled).onDevices ["CH2"]).fullName "TEMP" =
      "TE:NDW:CH2:TEMP" := by
  intro s k spelled
  have ⟨he, hn, _, hs, _⟩ :=
    device_addressed_either_way Server.transport (rfl : s.device = none) "KEPCO_01" ["CH2"] "TEMP"
  have hp : closed s.instrument ++ path ["KEPCO_01", "CH2"] ++ "TEMP" =
      "TE:NDW:KEPCO_01:CH2:TEMP" := by decide
  have hc : (k.onDevices ["CH2"]).fullName "TEMP" = "TE:NDW:CH2:TEMP" := by decide
  exact ⟨rfl, hn.trans hp, he.symm.trans (hn.trans hp), hs.trans hc⟩

end Checker
end Readback
