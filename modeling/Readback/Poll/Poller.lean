import Readback.Access.Transport
import Readback.Poll.Outcome

namespace Readback

structure Attempt where
  startedAt : Nat
  result : Evaluation
  endedAt : Nat

structure Poll where
  earlier : List Attempt
  last : Attempt

namespace Poll

def verdict (p : Poll) : Evaluation := p.last.result

def attempts (p : Poll) : List Attempt := p.earlier ++ [p.last]

def evaluations (p : Poll) : Nat := p.attempts.length

theorem evaluations_pos (p : Poll) : 0 < p.evaluations := by
  simp [evaluations, attempts]

def after (a : Attempt) (p : Poll) : Poll :=
  { p with earlier := a :: p.earlier }

end Poll

namespace Clock

variable {σ : Type}

def attempt (c : Clock σ) (evaluate : StateM σ Evaluation) (s : σ) : Attempt × σ :=
  let (result, t) := evaluate s
  ({ startedAt := c.now s, result, endedAt := c.now t }, t)

-- Looks until there is a verdict, with a pause after each look that gives none. A look that begins
-- at the deadline or later is the last one, whatever it gives. A clock that stands still through a
-- look and a pause has no deadline, so the next look is the last one then, too.
def pollUntil (c : Clock σ) (pause : Nat) (deadline : Nat) (evaluate : StateM σ Evaluation)
    (s : σ) : Poll × σ :=
  if c.now s < deadline then
    let (a, t) := c.attempt evaluate s
    if a.result.isPending then
      let next := c.sleep pause t
      if c.now s < c.now next then
        let (p, u) := pollUntil c pause deadline evaluate next
        (p.after a, u)
      else
        let (last, u) := c.attempt evaluate next
        (⟨[a], last⟩, u)
    else (⟨[], a⟩, t)
  else
    let (last, u) := c.attempt evaluate s
    (⟨[], last⟩, u)
termination_by deadline - c.now s
decreasing_by exact Nat.sub_lt_sub_left ‹_› ‹_›

-- Looks at a condition at fixed intervals until it holds or a timeout is over, and then once more,
-- so that what is reported is as fresh as it can be. An interval of zero still lets the clock go
-- on.
def waitUntil (c : Clock σ) (interval timeout : Nat) (evaluate : StateM σ Evaluation) :
    StateM σ Poll :=
  fun s => c.pollUntil (max interval 1) (c.now s + timeout) evaluate s

end Clock
end Readback
