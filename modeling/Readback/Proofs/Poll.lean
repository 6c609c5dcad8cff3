import Readback.Poll.Poller

namespace Readback.Clock

variable {σ τ α β : Type}

-- The state in which something is done after it has been done `n` times with a pause after each.
def visit (c : Clock σ) (pause : Nat) (run : StateM σ α) (s : σ) : Nat → σ
  | 0 => s
  | n + 1 => c.sleep pause (run (c.visit pause run s n)).2

def answer (c : Clock σ) (pause : Nat) (run : StateM σ α) (s : σ) (n : Nat) : α :=
  (run (c.visit pause run s n)).1

def Ticks (c : Clock σ) (pause : Nat) (run : StateM σ α) : Prop :=
  ∀ s, c.now s < c.now (c.sleep pause (run s).2)

def GoesOn (c : Clock σ) (pause deadline : Nat) (settles : α → Prop) (run : StateM σ α) (s : σ)
    (n : Nat) : Prop :=
  ∀ m < n, ¬settles (c.answer pause run s m) ∧ c.now (c.visit pause run s m) < deadline

-- After `n` times comes the last one: the first that settles a matter or begins at a deadline or
-- later.
structure Last (c : Clock σ) (pause deadline : Nat) (settles : α → Prop) (run : StateM σ α) (s : σ)
    (n : Nat) : Prop where
  goesOn : c.GoesOn pause deadline settles run s n
  ends : settles (c.answer pause run s n) ∨ deadline ≤ c.now (c.visit pause run s n)

variable {c : Clock σ} {pause deadline : Nat} {run : StateM σ α} {s : σ} {n m : Nat}

theorem visit_succ_eq :
    c.visit pause run s (n + 1) = c.visit pause run (c.sleep pause (run s).2) n := by
  induction n
  case zero => rfl
  case succ n hi =>
    rw [visit, hi]
    rfl

theorem visit_congr {run' : StateM σ β} (h : ∀ s, (run s).2 = (run' s).2) :
    c.visit pause run s n = c.visit pause run' s n := by
  induction n
  case zero => rfl
  case succ n hi => rw [visit, visit, hi, h]

theorem Ticks.congr {run' : StateM σ β} (h : c.Ticks pause run')
    (hr : ∀ s, (run s).2 = (run' s).2) : c.Ticks pause run :=
  fun s => hr s ▸ h s

theorem goesOn_zero {settles : α → Prop} : c.GoesOn pause deadline settles run s 0 :=
  fun _ hm => absurd hm (Nat.not_lt_zero _)

theorem GoesOn.cons {settles : α → Prop} (hs : ¬settles (run s).1) (hd : c.now s < deadline)
    (h : c.GoesOn pause deadline settles run (c.sleep pause (run s).2) n) :
    c.GoesOn pause deadline settles run s (n + 1) := by
  intro m hm
  cases m
  case zero => exact ⟨hs, hd⟩
  case succ m =>
    rw [answer, visit_succ_eq]
    exact h m (Nat.lt_of_succ_lt_succ hm)

theorem GoesOn.congr {settles : α → Prop} {settles' : β → Prop} {run' : StateM σ β}
    (hr : ∀ s, (run s).2 = (run' s).2) (hs : ∀ s, settles (run s).1 ↔ settles' (run' s).1)
    (h : c.GoesOn pause deadline settles run s n) :
    c.GoesOn pause deadline settles' run' s n := by
  intro m hm
  rw [answer, ← visit_congr hr, ← hs]
  exact h m hm

namespace Last

variable {settles : α → Prop}

theorem cons (hs : ¬settles (run s).1) (hd : c.now s < deadline)
    (h : c.Last pause deadline settles run (c.sleep pause (run s).2) n) :
    c.Last pause deadline settles run s (n + 1) where
  goesOn := h.goesOn.cons hs hd
  ends := by
    rw [answer, visit_succ_eq]
    exact h.ends

theorem unique (h₁ : c.Last pause deadline settles run s n)
    (h₂ : c.Last pause deadline settles run s m) : n = m := by
  rcases Nat.lt_trichotomy n m with h | h | h
  · obtain ⟨hs, hd⟩ := h₂.goesOn n h
    exact absurd h₁.ends (not_or.mpr ⟨hs, Nat.not_le.mpr hd⟩)
  · exact h
  · obtain ⟨hs, hd⟩ := h₁.goesOn m h
    exact absurd h₂.ends (not_or.mpr ⟨hs, Nat.not_le.mpr hd⟩)

theorem congr {settles' : β → Prop} {run' : StateM σ β} (hr : ∀ s, (run s).2 = (run' s).2)
    (hs : ∀ s, settles (run s).1 ↔ settles' (run' s).1)
    (h : c.Last pause deadline settles run s n) : c.Last pause deadline settles' run' s n where
  goesOn := h.goesOn.congr hr hs
  ends := by
    rw [answer, ← visit_congr hr, ← hs]
    exact h.ends

end Last

def polled (c : Clock σ) (pause : Nat) (evaluate : StateM σ Evaluation) (s : σ) (n : Nat) :
    Poll × σ :=
  let look m := c.attempt evaluate (c.visit pause evaluate s m)
  (⟨(List.range n).map fun m => (look m).1, (look n).1⟩, (look n).2)

def Settled (e : Evaluation) : Prop :=
  e.isPending = false

variable {evaluate : StateM σ Evaluation}

theorem attempt_eq :
    c.attempt evaluate s = (⟨c.now s, (evaluate s).1, c.now (evaluate s).2⟩, (evaluate s).2) := rfl

theorem pollUntil_of_late (h : deadline ≤ c.now s) :
    c.pollUntil pause deadline evaluate s =
      (⟨[], (c.attempt evaluate s).1⟩, (c.attempt evaluate s).2) := by
  rw [pollUntil, if_neg (Nat.not_lt.mpr h)]

theorem pollUntil_of_pending (hd : c.now s < deadline) (hp : (evaluate s).1.isPending)
    (hn : c.now s < c.now (c.sleep pause (evaluate s).2)) :
    c.pollUntil pause deadline evaluate s =
      Prod.map (Poll.after (c.attempt evaluate s).1) id
        (c.pollUntil pause deadline evaluate (c.sleep pause (evaluate s).2)) := by
  rw [pollUntil, if_pos hd, attempt_eq]
  simp only [hp, hn, if_true]
  rfl

theorem polled_zero :
    c.polled pause evaluate s 0 =
      (⟨[], (c.attempt evaluate s).1⟩, (c.attempt evaluate s).2) := rfl

theorem polled_succ :
    c.polled pause evaluate s (n + 1) =
      let p := c.polled pause evaluate (c.sleep pause (evaluate s).2) n
      (p.1.after (c.attempt evaluate s).1, p.2) := by
  simp only [polled, Poll.after, List.range_succ_eq_map, List.map_cons, List.map_map,
    Function.comp_def, visit_succ_eq]
  rfl

-- A poll goes by its last look. That this is the first one with a verdict or at the deadline needs
-- a clock that goes on; on one that stands still a poll gives up earlier.
theorem pollUntil_eq_polled (c : Clock σ) (pause deadline : Nat) (evaluate : StateM σ Evaluation)
    (s : σ) :
    ∃ n, c.pollUntil pause deadline evaluate s = c.polled pause evaluate s n ∧
      c.GoesOn pause deadline Settled evaluate s n ∧
      (c.Ticks pause evaluate → c.Last pause deadline Settled evaluate s n) := by
  fun_induction pollUntil c pause deadline evaluate s
  case case1 s hd a t ha hp next _ p u hq hi =>
    cases ha
    obtain ⟨n, hn, hg, hl⟩ := hi
    have hs : ¬Settled (evaluate s).1 := ne_false_of_eq_true hp
    refine ⟨n + 1, ?_, hg.cons hs hd, fun hc => (hl hc).cons hs hd⟩
    rw [polled_succ, ← hn, hq]
    rfl
  case case2 s hd a t ha hp next hn b u hb =>
    cases ha
    have hs : ¬Settled (evaluate s).1 := ne_false_of_eq_true hp
    refine ⟨1, ?_, GoesOn.cons hs hd goesOn_zero, fun hc => absurd (hc s) hn⟩
    rw [polled_succ, polled_zero, hb]
    rfl
  case case3 s hd a t ha hp =>
    cases ha
    exact ⟨0, rfl, goesOn_zero, fun _ => ⟨goesOn_zero, .inl (eq_false_of_ne_true hp)⟩⟩
  case case4 s hd a t ha =>
    cases ha
    exact ⟨0, rfl, goesOn_zero, fun _ => ⟨goesOn_zero, .inr (Nat.not_lt.mp hd)⟩⟩

-- What is kept in a state besides what a clock and a run go by changes nothing.
section

variable {c' : Clock τ} {run' : StateM τ α} {settles : α → Prop} {π : τ → σ}
  (now : ∀ u, c.now (π u) = c'.now u) (sleep : ∀ d u, c.sleep d (π u) = π (c'.sleep d u))
  (step : ∀ u, run (π u) = Prod.map id π (run' u))

include sleep step

theorem visit_map (u : τ) : c.visit pause run (π u) n = π (c'.visit pause run' u n) := by
  induction n
  case zero => rfl
  case succ n hi =>
    rw [visit, hi, step]
    exact sleep pause _

theorem answer_map (u : τ) : c.answer pause run (π u) n = c'.answer pause run' u n := by
  rw [answer, visit_map sleep step, step]
  rfl

include now

theorem Ticks.map (h : c.Ticks pause run) : c'.Ticks pause run' := by
  intro u
  have h := h (π u)
  rw [step] at h
  rwa [← now, ← now, ← sleep]

theorem GoesOn.map {u : τ} (h : c'.GoesOn pause deadline settles run' u n) :
    c.GoesOn pause deadline settles run (π u) n := by
  intro m hm
  rw [answer_map sleep step, visit_map sleep step, now]
  exact h m hm

theorem Last.map {u : τ} (h : c'.Last pause deadline settles run' u n) :
    c.Last pause deadline settles run (π u) n where
  goesOn := h.goesOn.map now sleep step
  ends := by
    rw [answer_map sleep step, visit_map sleep step, now]
    exact h.ends

end

theorem pollUntil_map {c' : Clock τ} {evaluate' : StateM τ Evaluation} {π : τ → σ}
    (now : ∀ u, c.now (π u) = c'.now u) (sleep : ∀ d u, c.sleep d (π u) = π (c'.sleep d u))
    (step : ∀ u, evaluate (π u) = Prod.map id π (evaluate' u)) (u : τ) :
    c.pollUntil pause deadline evaluate (π u) =
      Prod.map id π (c'.pollUntil pause deadline evaluate' u) := by
  have attempt u : c.attempt evaluate (π u) = Prod.map id π (c'.attempt evaluate' u) := by
    simp [attempt_eq, step, now]
  fun_induction pollUntil c' pause deadline evaluate' u
  all_goals rw [pollUntil]
  case case1 u hd a v ha hp next hn p w hq hi =>
    rw [hq] at hi
    simp only [now, sleep, attempt, ha, hd, hp, hn, hi, Prod.map, id, if_true, next]
  case case2 u hd a v ha hp next hn b w hb =>
    simp only [now, sleep, attempt, ha, hb, hd, hp, hn, Prod.map, id, if_true, if_false, next]
  case case3 u hd a v ha hp =>
    simp only [now, attempt, ha, hd, hp, Prod.map, id, if_true, Bool.false_eq_true, if_false]
  case case4 u hd a v ha =>
    simp only [now, attempt, ha, hd, Prod.map, id, if_false]

end Readback.Clock
