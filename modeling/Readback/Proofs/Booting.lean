import Readback.Proofs.Budget
import Readback.Proofs.Comparing
import Readback.Proofs.Reaching

namespace Readback

theorem Double.same_self_iff {x : Double} : x.same x ↔ x ≠ .nan := by
  rw [← place?_isSome_iff, same, compare?]
  cases x.place? <;> simp

namespace Value

mutual

def nanFree : Value → Bool
  | int _ | text _ => true
  | float x => x ≠ .nan
  | array as => nanFreeItems as

def nanFreeItems : List Value → Bool
  | [] => true
  | a :: as => a.nanFree && nanFreeItems as

end

mutual

theorem same_self_iff (a : Value) : a.same a ↔ a.nanFree := by
  match a with
  | int _ | text _ => simp [same, nanFree]
  | float x => simp [same, nanFree, Double.same_self_iff]
  | array as => exact sameItems_self_iff as

theorem sameItems_self_iff (as : List Value) : sameItems as as ↔ nanFreeItems as := by
  match as with
  | [] => rfl
  | a :: as =>
    rw [sameItems, nanFreeItems, Bool.and_eq_true, Bool.and_eq_true, same_self_iff a,
      sameItems_self_iff as]

end

end Value

namespace Server

variable {s t u : Server} {pv full : String} {names : Set String} {v : Value} {pause n : Nat}

theorem drifts_visit (hs : s.StreamsApart names) (full : String) (pause n : Nat) :
    let t := transport.visit pause (transport.get full) s n
    Drifts names s t ∧ t.clock = s.clock + pause * n := by
  induction n
  case zero => exact ⟨.refl hs, rfl⟩
  case succ n hi =>
    have ⟨hd, hc⟩ := hi
    refine ⟨hd.trans (drifts_sleep hd.streams pause).left, ?_⟩
    rw [Clock.visit, Nat.mul_succ, ← Nat.add_assoc, ← hc]
    exact clock_sleep ..

theorem ticks_transport (hp : 0 < pause) (full : String) :
    transport.Ticks pause (transport.get full) :=
  fun s => Nat.lt_of_lt_of_le (Nat.lt_add_of_pos_right hp) (Nat.le_max_right _ (s.clock + pause))

theorem answer_of_booting (hs : s.StreamsApart names) (full : String) (v : Value)
    (delay pause n : Nat) :
    ∃ w, (full ∈ names → w = v) ∧
      transport.answer pause (transport.get full) (s.insertUnreachable full v delay) n =
        if delay ≤ pause * n then .ok w else .error (.unreachable full) := by
  let t := s.insertUnreachable full v delay
  obtain ⟨hd, hc⟩ := drifts_visit (s := t) hs full pause n
  have hr : t.records.find? full =
      some { Record.new v with reachableFrom := some (s.clock + delay) } := by
    simp [t, insertUnreachable]
  obtain ⟨w, hw⟩ := hd.kept full _ hr
  refine ⟨w, fun hn => ?_, ?_⟩
  case refine_1 =>
    cases hw.symm.trans ((hd.same full hn).trans hr)
    rfl
  case refine_2 =>
    rw [Clock.answer]
    change Server.get _ full = _
    rw [get, resolve?_record hw, hc]
    have hb : t.clock + pause * n = s.clock + pause * n := rfl
    by_cases h : delay ≤ pause * n <;> simp [Record.isReachable, hb, h, Record.read]

theorem paced_transport (hs : s.StreamsApart names) (pause : Nat) (full : String) :
    transport.Paced pause (transport.get full) s := by
  intro n
  have hc m : transport.now (transport.visit pause (transport.get full) s m) =
      s.clock + pause * m := (drifts_visit hs full pause m).right
  rw [hc, hc, Nat.mul_succ, Nat.add_assoc]

-- A record can be reached at the last look just if it can be reached as soon as as many pauses are
-- over as the timeout holds, a begun one included: no look comes later, and a look that finds
-- nothing does not settle anything, so that none before is the last one.
theorem delay_le_iff_of_last {c : Condition} {delay timeout : Nat} (hs : s.StreamsApart names)
    (hp : 0 < pause)
    (h : transport.Last pause (s.clock + timeout) c.Settles (transport.get full)
      (s.insertUnreachable full v delay) n) :
    delay ≤ pause * n ↔ delay ≤ pause * (timeout ⌈/⌉ pause) := by
  let t := s.insertUnreachable full v delay
  have ht : t.StreamsApart names := hs
  constructor
  case mp =>
    intro hd
    have hn : n ≤ timeout ⌈/⌉ pause := h.goesOn.le_ceilDiv (paced_transport ht pause full) hp
    exact Nat.le_trans hd (Nat.mul_le_mul_left pause hn)
  case mpr =>
    intro hd
    by_contra hn
    have ⟨w, _, hw⟩ := answer_of_booting hs full v delay pause n
    have hu : ¬c.Settles (transport.answer pause (transport.get full) t n) := by
      rw [hw, if_neg hn]
      exact Bool.noConfusion
    have hl : t.clock + timeout ≤ t.clock + pause * n :=
      (drifts_visit ht full pause n).right ▸ h.ends.resolve_left hu
    have hb : timeout ⌈/⌉ pause ≤ n :=
      (ceilDiv_le_iff_le_smul hp).mpr (Nat.le_of_add_le_add_left hl)
    exact hn (Nat.le_trans hd (Nat.mul_le_mul_left pause hb))

end Server

open Server

namespace Checker

variable {k : Checker Server} {s : Server} {v : Value}

-- A record that cannot be reached at first is found with the value that it was made with just if it
-- can be reached as soon as as many pauses are over as the timeout holds, a begun one included.
-- What else streams do makes no difference to an assertion that comes too early.
theorem booting_value_found_iff (hk : k.transport = Server.transport) (hi : 0 < k.pollInterval)
    (hs : s.StreamsApart ∅) (pv : String) (v : Value) (delay timeout : Nat)
    (message : Option String) :
    let full := k.fullName pv
    let bound := k.pollInterval * (timeout ⌈/⌉ k.pollInterval)
    let r := ((k.assertValue pv (.equals v) { timeout := some timeout, message }).run
      (s.insertUnreachable full v delay)).1
    (r = .error (.neverReachable full timeout (.unreachable full)) ↔ bound < delay) ∧
    (s.StreamsApart {full} → v.nanFree →
      (r = .ok () ↔ delay ≤ bound) ∧ (delay ≤ timeout → r = .ok ())) := by
  intro full bound r
  let o : AssertOptions := { timeout := some timeout, message }
  let t := s.insertUnreachable full v delay
  obtain ⟨n, h⟩ := k.exists_goesBy pv (.equals v) o t
  have hp : k.pause = k.pollInterval := Nat.max_eq_left hi
  have hd : k.deadline o t = s.clock + timeout := by
    rw [deadline, hk]
    rfl
  have hl := h.last
  have hr := h.decides
  rw [hp, hd, hk] at hl
  rw [hp, hk] at hr
  have hn : delay ≤ k.pollInterval * n ↔ delay ≤ bound :=
    delay_le_iff_of_last hs hi (hl (ticks_transport hi full))
  constructor
  case left =>
    obtain ⟨w, _, hw⟩ := answer_of_booting hs full v delay k.pollInterval n
    rw [hr.neverReachable, hw, if_congr hn rfl rfl, ← Nat.not_le]
    by_cases hb : delay ≤ bound <;> simp [hb, full, o, timeoutOf]
  case right =>
    intro hf hv
    obtain ⟨w, he, hw⟩ := answer_of_booting hf full v delay k.pollInterval n
    have hg : r = .ok () ↔ delay ≤ bound := by
      rw [hr.passed, hw, if_congr hn rfl rfl, he rfl]
      by_cases hb : delay ≤ bound <;> simp [hb, Condition.holds, Value.same_self_iff, hv]
    exact ⟨hg, fun hd => hg.mpr (Nat.le_trans hd (le_smul_ceilDiv hi))⟩

-- Later than the timeout is over, but not later than the last look; and one nanosecond later.
theorem booting_value_found_iff_of_last_moment :
    let k := Checker.hasty.over Server.transport
    let s := { Server.empty with agenda := [.stream 0 4 "TE:B" (.given fun n => .int (.ofNat n))] }
    let result (delay : Nat) := ((k.assertValue "A" (.equals (.int 5)) { timeout := some 15 }).run
      (s.insertUnreachable "TE:A" (.int 5) delay)).1
    k.transport = Server.transport ∧ 0 < k.pollInterval ∧ s.StreamsApart ∅ ∧
    s.StreamsApart {k.fullName "A"} ∧ (Value.int 5).nanFree ∧
    result 15 = .ok () ∧ result 20 = .ok () ∧
    result 21 = .error (.neverReachable "TE:A" 15 (.unreachable "TE:A")) := by
  intro k s result
  have apart {names : Set String} (hn : "TE:B" ∉ names) : s.StreamsApart names :=
    fun _ ht => ⟨0, 4, "TE:B", _, List.mem_singleton.mp ht, hn⟩
  have hs : s.StreamsApart ∅ := apart (Set.notMem_empty _)
  have hf : s.StreamsApart {k.fullName "A"} :=
    apart (show "TE:B" ≠ "TE:A" by decide)
  have hi : 0 < k.pollInterval := by decide
  have hv : (Value.int 5).nanFree := rfl
  have found (delay : Nat) := booting_value_found_iff rfl hi hs "A" (.int 5) delay 15 none
  have ⟨_, h15⟩ := ((found 15).right hf hv)
  have ⟨h20, _⟩ := ((found 20).right hf hv)
  have ⟨h21, _⟩ := found 21
  exact ⟨rfl, hi, hs, hf, hv, h15 (by decide), h20.mpr (by decide), h21.mpr (by decide)⟩

-- A stream gives the record another value before it can be reached.
theorem streamed_value_overrules_booting :
    let k := Checker.hasty.over Server.transport
    let s := Server.empty.stream "TE:A" 10 (.ramp ⟨.zero, .zero⟩)
    let result := ((k.assertValue "A" (.equals (.int 5)) { timeout := some 5 }).run
      (s.insertUnreachable "TE:A" (.int 5) 5)).1
    0 < k.pollInterval ∧ (Value.int 5).nanFree ∧ 5 ≤ 5 ∧
    5 ≤ k.pollInterval * (5 ⌈/⌉ k.pollInterval) ∧
    result.isOk = false := by
  intro k s result
  refine ⟨by decide, rfl, by decide, by decide, ?_⟩
  simp only [result]
  rw [run_assertValue, poll, Clock.waitUntil,
    Clock.pollUntil_of_pending (by decide +kernel) (by decide +kernel) (by decide +kernel),
    Clock.pollUntil_of_late (by decide +kernel)]
  decide +kernel

end Checker

end Readback
