import Readback.Access.Monitor
import Readback.Proofs.Posting

namespace Readback.Server

variable {s t : Server} {pv : String} {b : Subscriber}

-- Something that is done with a server whose subscribers are all monitors, or a span of time that
-- passes. A reset may come to the records in any order.
inductive Move where
  | perform (op : Operation)
  | resetIn (names : List String)
  | start (pv : String)
  | read (m : Monitor)
  | stop (m : Monitor)
  | sleep (d : Nat)

namespace Move

def apply : Move → Server → Server
  | perform op, s => op.perform s
  | resetIn names, s => ({ s with functions := s.functions ++ ["reset"] } : Server).resetAll names
  | start pv, s => (Monitor.start transport pv s).2
  | read m, s => (m.event? transport s).2
  | stop m, s => (m.stop transport s).2
  | sleep d, s => s.sleep d

def IsPossible (s : Server) : Move → Prop
  | perform op => op.IsPlain
  | resetIn names => names.Perm s.records.keys
  | _ => True

def posts (s : Server) : Move → List String
  | perform op => op.posts s
  | resetIn names => names
  | _ => []

def Posts (pv : String) (s : Server) (m : Move) : Prop :=
  pv ∈ m.posts s

instance (pv : String) (s : Server) (m : Move) : Decidable (m.Posts pv s) :=
  inferInstanceAs (Decidable (pv ∈ m.posts s))

end Move

-- All subscribers are monitors, and nothing happens by itself.
structure Watched (s : Server) : Prop where
  reached : Reached s
  passive : s.Passive
  idle : s.agenda = []

theorem sleep_of_idle (h : s.agenda = []) (d : Nat) :
    s.sleep d = { s with clock := s.clock + d } := by
  simp [sleep, advance, h]

theorem event?_transport (s : Server) (m : Monitor) :
    m.event? transport s = (latest m.id s.drain, s.drain) := rfl

inductive Move.Effect (m : Move) (s t : Server) : Prop
  | posted (h : Announces (m.posts s) s t)
  | silent (hp : m.posts s = []) (hm : t.toMail = s.toMail) (ha : t.agenda = s.agenda)
  | started (hp : m.posts s = []) (pv : String) (ht : t = (s.subscribe pv none []).2)
  | read (hp : m.posts s = []) (ht : t = s.drain)
  | stopped (hp : m.posts s = []) (m' : Monitor) (hm : m = .stop m') (ht : t = s.unsubscribe m'.id)

def Move.IsOpen : Move → Prop
  | .perform op => ¬op.IsSilent
  | .resetIn _ => True
  | _ => False

theorem PostingRelation.move {R : List String → Server → Server → Prop} (h : PostingRelation R)
    {m : Move} (hm : m.IsPossible s) (ho : m.IsOpen) : R (m.posts s) s (m.apply s) := by
  cases m
  case perform op => exact h.perform hm ho
  case resetIn names =>
    let t : Server := { s with functions := s.functions ++ ["reset"] }
    have ht : R [] s t := h.quiet rfl rfl rfl rfl
    exact h.trans ht (h.resetAll fun pv hn => (s.records.mem_keys_iff pv).mp (hm.subset hn))
  all_goals exact ho.elim

theorem Move.effect {m : Move} (hi : s.agenda = []) (hm : m.IsPossible s) :
    m.Effect s (m.apply s) := by
  cases m
  case perform op =>
    by_cases hs : op.IsSilent
    case pos =>
      have ⟨ht, ha, hp⟩ := toMail_of_silent (s := s) hs
      exact .silent hp ht ha
    case neg => exact .posted (Announces.postingRelation.move hm hs)
  case resetIn names => exact .posted (Announces.postingRelation.move hm trivial)
  case start pv => exact .started rfl pv rfl
  case read => exact .read rfl rfl
  case stop m => exact .stopped rfl m rfl rfl
  case sleep d =>
    refine .silent rfl ?_ ?_
    all_goals rw [Move.apply, sleep_of_idle hi]

namespace Watched

variable {m : Move}

theorem empty : Watched .empty := ⟨.empty, nofun, rfl⟩

theorem listens (h : Watched s) (hb : b ∈ s.subscribers) : s.Listens b :=
  h.reached.reachable.registered.listens hb

theorem reached_move (h : Watched s) (hm : m.IsPossible s) : Reached (m.apply s) := by
  cases m
  case perform op => exact h.reached.perform op
  case resetIn => exact h.reached.reset hm
  case start pv => exact h.reached.perform (.subscribe pv none [])
  case read => exact h.reached.perform .drain
  case stop m => exact h.reached.perform (.unsubscribe m.id)
  case sleep d => exact h.reached.advance (s.clock + d)

theorem move (h : Watched s) (hm : m.IsPossible s) : Watched (m.apply s) := by
  have hr := h.reached_move hm
  cases m.effect h.idle hm
  case posted hp =>
    exact ⟨hr, fun b hb => h.passive b (hp.subscribers ▸ hb), hp.agenda.trans h.idle⟩
  case silent hm ha =>
    exact ⟨hr, fun b hb => h.passive b (congrArg Mail.subscribers hm ▸ hb), ha.trans h.idle⟩
  case started pv ht =>
    rw [ht] at hr ⊢
    refine ⟨hr, fun b hb => ?_, h.idle⟩
    cases List.mem_append.mp hb
    case inl hb => exact h.passive b hb
    case inr hb => exact List.mem_singleton.mp hb ▸ rfl
  case read ht =>
    have ⟨_, _, hj⟩ := exists_drain_eq h.passive
    rw [ht] at hr ⊢
    rw [hj] at hr ⊢
    exact ⟨hr, h.passive, h.idle⟩
  case stopped m' _ ht =>
    rw [ht] at hr ⊢
    exact ⟨hr, fun b hb => h.passive b (List.mem_filter.mp hb).left, h.idle⟩

end Watched

def play (ms : List Move) (s : Server) : Server :=
  ms.foldl (fun s m => m.apply s) s

def ArePossible : List Move → Server → Prop
  | [], _ => True
  | m :: ms, s => m.IsPossible s ∧ ArePossible ms (m.apply s)

def Happens (p : Server → Move → Prop) (s : Server) (ms : List Move) : Prop :=
  ∃ earlier m later, ms = earlier ++ m :: later ∧ p (play earlier s) m

-- Of the moves that post a record the last one left it as an event says.
def LastPosting (pv : String) (s : Server) (ms : List Move) (e : Event) : Prop :=
  ∃ earlier m later, ms = earlier ++ m :: later ∧ m.Posts pv (play earlier s) ∧
    (play (earlier ++ [m]) s).eventOf? pv = some e ∧
    ¬Happens (Move.Posts pv) (play (earlier ++ [m]) s) later

section

variable {m : Move} {ms : List Move} {e : Event} {p : Server → Move → Prop}

@[simp] theorem happens_nil : ¬Happens p s [] := by
  simp [Happens]

@[simp] theorem happens_cons : Happens p s (m :: ms) ↔ p s m ∨ Happens p (m.apply s) ms := by
  constructor
  case mp =>
    intro ⟨earlier, x, later, he, hx⟩
    cases earlier
    case nil =>
      cases he
      exact .inl hx
    case cons y earlier =>
      cases he
      exact .inr ⟨earlier, x, later, rfl, hx⟩
  case mpr =>
    intro h
    cases h
    case inl h => exact ⟨[], m, ms, rfl, h⟩
    case inr h =>
      have ⟨earlier, x, later, he, hx⟩ := h
      exact ⟨m :: earlier, x, later, congrArg (m :: ·) he, hx⟩

@[simp] theorem lastPosting_nil : ¬LastPosting pv s [] e := by
  simp [LastPosting]

end

end Readback.Server
