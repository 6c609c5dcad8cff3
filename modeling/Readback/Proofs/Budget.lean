import Mathlib.Algebra.Order.Floor.Div
import Readback.Proofs.Patience

namespace Readback

variable {σ : Type}

def Attempt.duration (a : Attempt) : Nat := a.endedAt - a.startedAt

inductive Deed where
  | look (a : Attempt)
  | pause (d : Nat)

structure Noted (σ : Type) where
  state : σ
  deeds : List Deed

namespace Poll

-- All that a poll does if there is one pause after each look but the last one.
def deeds (pause : Nat) (p : Poll) : List Deed :=
  p.earlier.flatMap (fun a => [.look a, .pause pause]) ++ [.look p.last]

-- How long the look takes that comes before the last one, if there is any.
def lateDuration (p : Poll) : Nat :=
  (p.earlier.getLast?.map Attempt.duration).getD 0

end Poll

namespace Clock

def noted (c : Clock σ) : Clock (Noted σ) where
  now u := c.now u.state
  sleep d u := ⟨c.sleep d u.state, u.deeds ++ [.pause d]⟩

def noting (c : Clock σ) (evaluate : StateM σ Evaluation) : StateM (Noted σ) Evaluation := fun u =>
  let (a, t) := c.attempt evaluate u.state
  (a.result, ⟨t, u.deeds ++ [.look a]⟩)

variable {α : Type} {c : Clock σ} {pause deadline interval timeout n : Nat} {run : StateM σ α}
  {evaluate : StateM σ Evaluation} {settles : α → Prop} {s : σ}

theorem attempt_noted (u : Noted σ) :
    c.noted.attempt (c.noting evaluate) u =
      let (a, t) := c.attempt evaluate u.state
      (a, ⟨t, u.deeds ++ [.look a]⟩) := rfl

theorem pollUntil_noted (c : Clock σ) (pause deadline : Nat) (evaluate : StateM σ Evaluation)
    (s : σ) (deeds : List Deed) :
    c.noted.pollUntil pause deadline (c.noting evaluate) ⟨s, deeds⟩ =
      let (p, t) := c.pollUntil pause deadline evaluate s
      (p, ⟨t, deeds ++ p.deeds pause⟩) := by
  have now u : c.noted.now u = c.now u.state := rfl
  have sleep d u : c.noted.sleep d u = ⟨c.sleep d u.state, u.deeds ++ [.pause d]⟩ := rfl
  fun_induction pollUntil c pause deadline evaluate s generalizing deeds
  all_goals rw [pollUntil]
  case case1 s hd a t ha hp next hn p u hq hi =>
    simp only [hq] at hi
    simp only [now, sleep, attempt_noted, ha, hd, hp, hn, hi, if_true, next]
    simp [Poll.deeds, Poll.after]
  case case2 s hd a t ha hp next hn b u hb =>
    simp only [now, sleep, attempt_noted, ha, hb, hd, hp, hn, if_true, if_false, next]
    simp [Poll.deeds]
  case case3 s hd a t ha hp =>
    simp only [now, attempt_noted, ha, hd, hp, if_true, Bool.false_eq_true, if_false]
    simp [Poll.deeds]
  case case4 s hd a t ha =>
    simp only [now, attempt_noted, ha, hd, if_false]
    simp [Poll.deeds]

def Paced (c : Clock σ) (pause : Nat) (run : StateM σ α) (s : σ) : Prop :=
  ∀ n, c.now (c.visit pause run s n) + pause ≤ c.now (c.visit pause run s (n + 1))

theorem Paced.le_now_visit (h : c.Paced pause run s) :
    c.now s + pause * n ≤ c.now (c.visit pause run s n) := by
  induction n
  case zero => exact Nat.le_refl _
  case succ n hi =>
    rw [Nat.mul_succ, ← Nat.add_assoc]
    exact Nat.le_trans (Nat.add_le_add_right hi pause) (h n)

theorem GoesOn.le_ceilDiv (h : c.GoesOn interval (c.now s + timeout) settles run s n)
    (hc : c.Paced interval run s) (hi : 0 < interval) : n ≤ timeout ⌈/⌉ interval := by
  cases n
  case zero => exact Nat.zero_le _
  case succ n =>
    have ⟨_, hd⟩ := h n (Nat.lt_succ_self n)
    have hn : interval * n < timeout :=
      Nat.lt_of_add_lt_add_left (Nat.lt_of_le_of_lt hc.le_now_visit hd)
    exact Nat.lt_of_not_le fun hl => Nat.not_le.mpr hn ((ceilDiv_le_iff_le_smul hi).mp hl)

theorem evaluations_polled : (c.polled pause evaluate s n).1.evaluations = n + 1 := by
  simp [polled, Poll.evaluations, Poll.attempts]

theorem lateDuration_polled :
    (c.polled pause evaluate s (n + 1)).1.lateDuration =
      (c.attempt evaluate (c.visit pause evaluate s n)).1.duration := by
  simp [polled, Poll.lateDuration, List.range_succ]

theorem GoesOn.not_isFinal_of_mem {a : Attempt}
    (h : c.GoesOn pause deadline Settled evaluate s n)
    (ha : a ∈ (c.polled pause evaluate s n).1.earlier) : ¬a.result.IsFinal := by
  obtain ⟨m, hm, rfl⟩ := List.mem_map.mp ha
  exact settled_iff.not.mp (h m (List.mem_range.mp hm)).left

theorem now_after_attempt (he : ∀ s, c.now s ≤ c.now (evaluate s).2) (s : σ) :
    c.now (evaluate s).2 = c.now s + (c.attempt evaluate s).1.duration :=
  (Nat.add_sub_cancel' (he s)).symm

section

variable (hs : ∀ s, c.now (c.sleep interval s) = c.now s + interval)
  (he : ∀ s, c.now s ≤ c.now (evaluate s).2)

include hs he

theorem paced_of_exact : c.Paced interval evaluate s := by
  intro n
  rw [visit, hs]
  exact Nat.add_le_add_right (he _) interval

theorem ticks_of_exact (hi : 0 < interval) : c.Ticks interval evaluate := by
  intro s
  rw [hs]
  exact Nat.lt_of_le_of_lt (he s) (Nat.lt_add_of_pos_right hi)

theorem now_visit_lt (hi : 0 < interval) (hd : c.now s ≤ deadline)
    (hg : c.GoesOn interval deadline Settled evaluate s n) :
    c.now (c.visit interval evaluate s n) <
      deadline + interval + (c.polled interval evaluate s n).1.lateDuration := by
  cases n
  case zero => exact Nat.lt_of_le_of_lt hd (by omega)
  case succ n =>
    have ⟨_, hn⟩ := hg n (Nat.lt_succ_self n)
    rw [lateDuration_polled, visit, hs, now_after_attempt he]
    omega

end

end Clock

variable {c : Clock σ} {interval : Nat} {evaluate : StateM σ Evaluation}

theorem ceilDiv_le_div_add_one (timeout : Nat) (h : 0 < interval) :
    timeout ⌈/⌉ interval ≤ timeout / interval + 1 :=
  (ceilDiv_le_iff_le_smul h).mpr (Nat.le_of_lt (Nat.lt_mul_div_succ timeout h))

-- A poll looks at least once and at most once more than its timeout holds intervals, a begun one
-- included. Between two looks it pauses once; with a verdict it is over at once. Without one it
-- takes its timeout, and less than an interval and its last two looks longer.
theorem poll_within_budget (hi : 0 < interval)
    (hs : ∀ s, c.now (c.sleep interval s) = c.now s + interval)
    (he : ∀ s, c.now s ≤ c.now (evaluate s).2) (timeout : Nat) (s : σ) :
    ∃ p t, c.waitUntil interval timeout evaluate s = (p, t) ∧
      c.noted.waitUntil interval timeout (c.noting evaluate) ⟨s, []⟩ =
        (p, ⟨t, p.deeds interval⟩) ∧
      (∀ a ∈ p.earlier, ¬a.result.IsFinal) ∧
      (1 ≤ p.evaluations ∧ p.evaluations ≤ timeout ⌈/⌉ interval + 1 ∧
        p.evaluations ≤ timeout / interval + 2) ∧
      (¬p.verdict.IsFinal →
        c.now s + timeout ≤ c.now t ∧
        c.now t < c.now s + timeout + interval + p.lateDuration + p.last.duration) := by
  have hm : max interval 1 = interval := Nat.max_eq_left hi
  have ⟨n, hp, hg, hl⟩ :=
    Clock.pollUntil_eq_polled c interval (c.now s + timeout) evaluate s
  have hw : c.waitUntil interval timeout evaluate s = c.polled interval evaluate s n := by
    rw [Clock.waitUntil, hm, hp]
  have hn : n ≤ timeout ⌈/⌉ interval := hg.le_ceilDiv (Clock.paced_of_exact hs he) hi
  refine ⟨(c.polled interval evaluate s n).1, (c.polled interval evaluate s n).2, hw, ?_,
    fun a => hg.not_isFinal_of_mem, ⟨Poll.evaluations_pos _, ?_, ?_⟩, ?_⟩
  case refine_1 =>
    rw [Clock.waitUntil, hm]
    change c.noted.pollUntil interval (c.now s + timeout) _ _ = _
    rw [Clock.pollUntil_noted, hp]
    rfl
  case refine_2 =>
    rw [Clock.evaluations_polled]
    exact Nat.succ_le_succ hn
  case refine_3 =>
    rw [Clock.evaluations_polled]
    exact Nat.succ_le_succ (Nat.le_trans hn (ceilDiv_le_div_add_one timeout hi))
  case refine_4 =>
    intro hv
    have hd := (hl (Clock.ticks_of_exact hs he hi)).ends.resolve_left (Clock.settled_iff.not.mpr hv)
    have hu := Clock.now_visit_lt hs he hi (Nat.le_add_right _ timeout) hg
    change _ ≤ c.now (evaluate _).2 ∧ c.now (evaluate _).2 < _ + (c.attempt evaluate _).1.duration
    rw [Clock.now_after_attempt he]
    exact ⟨Nat.le_trans hd (Nat.le_add_right _ _), Nat.add_lt_add_right hu _⟩

def Schedule.dragging : Schedule where
  result
    | 0, _ => .ok (.failure ⟨"up", none⟩)
    | _, _ => .error (.unreachable "TE:LEVEL")
  duration looks _ := 3 + 4 * looks

-- The second look begins before the deadline and is over after it, so that the third one is the
-- last.
theorem poll_within_budget_of_slow_looks :
    let c := Schedule.clock
    let x := Schedule.dragging
    let first : Attempt := ⟨0, .ok (.failure ⟨"up", none⟩), 3⟩
    let second : Attempt := ⟨13, .error (.unreachable "TE:LEVEL"), 20⟩
    let third : Attempt := ⟨30, .error (.unreachable "TE:LEVEL"), 41⟩
    0 < 10 ∧ (∀ m, c.now (c.sleep 10 m) = c.now m + 10) ∧
    (∀ m, c.now m ≤ c.now (x.evaluate m).2) ∧
    c.noted.waitUntil 10 15 (c.noting x.evaluate) ⟨⟨0, 0⟩, []⟩ =
      (⟨[first, second], third⟩,
        ⟨⟨3, 41⟩, [.look first, .pause 10, .look second, .pause 10, .look third]⟩) ∧
    3 ≤ 15 ⌈/⌉ 10 + 1 ∧ 15 ≤ 41 ∧ 41 < 15 + 10 + 7 + 11 := by
  intro c x first second third
  have hs (m : Schedule.Moment) : c.now (c.sleep 10 m) = c.now m + 10 := rfl
  have he (m : Schedule.Moment) : c.now m ≤ c.now (x.evaluate m).2 := Nat.le_add_right _ _
  have h : c.waitUntil 10 15 x.evaluate ⟨0, 0⟩ = (⟨[first, second], third⟩, ⟨3, 41⟩) := by
    change Schedule.clock.pollUntil 10 15 x.evaluate ⟨0, 0⟩ = _
    rw [Clock.pollUntil_of_pending (by decide) (by rfl) (by decide),
      Clock.pollUntil_of_pending (by decide) (by rfl) (by decide),
      Clock.pollUntil_of_late (by decide)]
    rfl
  obtain ⟨p, t, hw, hd, _, ⟨_, hn, _⟩, ht⟩ :=
    poll_within_budget (by decide) hs he 15 (⟨0, 0⟩ : Schedule.Moment)
  cases hw.symm.trans h
  have hv : ¬Clock.Settled third.result := Bool.noConfusion
  have ⟨hl, hu⟩ := ht (Clock.settled_iff.not.mp hv)
  exact ⟨by decide, hs, he, hd, hn, hl, hu⟩

end Readback
