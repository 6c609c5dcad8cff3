import Readback.Proofs.JsonTokens

namespace Readback

namespace Tree

mutual

def leaves : Tree → List Tree
  | list items => leavesOfItems items
  | object members => leavesOfMembers members
  | t => [t]

def leavesOfItems : List Tree → List Tree
  | [] => []
  | t :: ts => t.leaves ++ leavesOfItems ts

def leavesOfMembers : List (String × Tree) → List Tree
  | [] => []
  | (_, t) :: ms => t.leaves ++ leavesOfMembers ms

end

mutual

def depth : Tree → Nat
  | list items => depthOfItems items + 1
  | object members => depthOfMembers members + 1
  | _ => 0

def depthOfItems : List Tree → Nat
  | [] => 0
  | t :: ts => max t.depth (depthOfItems ts)

def depthOfMembers : List (String × Tree) → Nat
  | [] => 0
  | (_, t) :: ms => max t.depth (depthOfMembers ms)

end

end Tree

namespace Tree.Json

open Text

variable {cs : List Char} {t : Tree}

mutual

-- What the text of a tree is read as, if it stands in a number of lists and objects.
def seen (depth : Nat) : Tree → Tree
  | float x => if x.isFinite then .float x else .null
  | moment s => .text s
  | unreadable => .null
  | list items => if depth < nesting then .list (seenItems (depth + 1) items) else .unreadable
  | object members =>
    if depth < nesting then .object (seenMembers (depth + 1) members) else .unreadable
  | t => t

def seenItems (depth : Nat) : List Tree → List Tree
  | [] => []
  | t :: ts => seen depth t :: seenItems depth ts

def seenMembers (depth : Nat) : List (String × Tree) → List (String × Tree)
  | [] => []
  | (key, t) :: ms => (key, seen depth t) :: seenMembers depth ms

end

-- A part that is read as what it is, or that has no text of its own.
def Faithful : Tree → Prop
  | integer n => Exact n
  | float x => x.isFinite → number? (scalar (float x)) = some (float x)
  | _ => True

-- A text that is read as a tree, depending on the number of lists and objects in which it stands.
def Conveys (cs : List Char) (t : Nat → Tree) : Prop :=
  ∃ ts, Reads cs ts ∧ ∀ opened frames,
    ts.foldlM Step.advance (.value opened frames) = Step.deliver (t frames.length) frames

theorem conveys_scalar (h : Reads cs [.scalar t]) : Conveys cs fun _ => t :=
  ⟨_, h, fun _ _ => by simp [Step.advance]⟩

theorem conveys_quoted (s : String) : Conveys (quoted s) fun _ => .text s :=
  ⟨_, reads_quoted s, fun _ _ => by simp [Step.advance]⟩

theorem ofMembers_reverse (ms : List (String × Tree)) :
    ofMembers (ms.map fun m => (some m.1, m.2)).reverse = .object ms := by
  have h : (ms.map fun m => (some m.1, m.2)).mapM
      (fun m : Option String × Tree => m.1.map fun key => (key, m.2)) = some ms := by
    induction ms
    case nil => rfl
    case cons m ms hi => simp [hi]
  rw [ofMembers, List.reverse_reverse, h]

theorem conveys_float {x : Double} (h : Faithful (.float x)) :
    Conveys (scalar (.float x)) (seen · (.float x)) := by
  cases x
  case nan => exact conveys_scalar (reads_word rfl)
  case infinite => exact conveys_scalar (reads_word rfl)
  case finite => exact conveys_scalar (reads_number (h rfl))

def ConveysItems (ts : List Tree) : Prop :=
  ∃ us, Reads (compactItems ts) us ∧ ∀ opened acc frames,
    us.foldlM Step.advance (.value opened (.list acc :: frames)) = some (match ts with
      | [] => .value opened (.list acc :: frames)
      | ts => .next (.list ((seenItems (frames.length + 1) ts).reverse ++ acc) :: frames))

theorem ConveysItems.cons {ts : List Tree} (ht : Conveys (compact t) (seen · t))
    (hts : ConveysItems ts) : ConveysItems (t :: ts) := by
  have ⟨us, hr, hu⟩ := ht
  have ⟨ws, hw, hv⟩ := hts
  cases ts
  case nil => exact ⟨us, hr, fun opened acc frames => hu opened (.list acc :: frames)⟩
  case cons v vs =>
    refine ⟨_, hr.then (c := ',') rfl (.inl rfl) hw, fun opened acc frames => ?_⟩
    rw [List.foldlM_append, hu]
    simp [Step.deliver, Step.advance, hv, seenItems]

theorem ConveysItems.list {ts : List Tree} (h : ConveysItems ts) :
    Conveys (compact (.list ts)) (seen · (.list ts)) := by
  have ⟨us, hr, hu⟩ := h
  refine ⟨_, hr.enclosed (a := '[') (b := ']') rfl rfl (.inr (.inr (.inl rfl))), ?_⟩
  intro opened frames
  rw [List.cons_append, List.foldlM_cons]
  have hs : Step.advance (.value opened frames) .openList =
      some (.value true (.list [] :: frames)) := rfl
  rw [hs, Option.bind_eq_bind, Option.bind_some, List.foldlM_append, hu]
  cases ts <;> simp [Step.advance, Step.close, seen, seenItems]

def ConveysMembers (ms : List (String × Tree)) : Prop :=
  ∃ us, Reads (compactMembers ms) us ∧ ∀ opened acc frames,
    us.foldlM Step.advance (.key opened acc frames) = some (match ms with
      | [] => .key opened acc frames
      | ms => .next (.object (((seenMembers (frames.length + 1) ms).map
        fun m => (some m.1, m.2)).reverse ++ acc) :: frames))

theorem ConveysMembers.cons {key : String} {ms : List (String × Tree)}
    (ht : Conveys (compact t) (seen · t)) (hms : ConveysMembers ms) :
    ConveysMembers ((key, t) :: ms) := by
  have ⟨us, hr, hu⟩ := ht
  have ⟨ws, hw, hv⟩ := hms
  have hk := (reads_quoted key).then (c := ':') rfl (.inr (.inl rfl)) hr
  cases ms
  case nil =>
    refine ⟨_, hk, fun opened acc frames => ?_⟩
    simp [Step.deliver, Step.advance, hu, seenMembers]
  case cons m ms =>
    refine ⟨_, hk.then (c := ',') rfl (.inl rfl) hw, fun opened acc frames => ?_⟩
    simp [Step.deliver, Step.advance, hu, hv, seenMembers]

theorem ConveysMembers.object {ms : List (String × Tree)} (h : ConveysMembers ms) :
    Conveys (compact (.object ms)) (seen · (.object ms)) := by
  have ⟨us, hr, hu⟩ := h
  refine ⟨_, hr.enclosed (a := '\x7b') (b := '\x7d') rfl rfl (.inr (.inr (.inr rfl))), ?_⟩
  intro opened frames
  have hs : Step.advance (.value opened frames) .openObject = some (.key true [] frames) := rfl
  rw [List.cons_append, List.foldlM_cons, hs, Option.bind_eq_bind, Option.bind_some,
    List.foldlM_append, hu]
  cases ms
  case nil => simp [Step.advance, Step.close, seen, seenMembers, ofMembers]
  case cons m ms =>
    have ho := ofMembers_reverse (seenMembers (frames.length + 1) (m :: ms))
    simp [Step.advance, Step.close, seen, ho]

mutual

theorem conveys_compact (t : Tree) (h : ∀ leaf ∈ t.leaves, Faithful leaf) :
    Conveys (compact t) (seen · t) := by
  match t with
  | .null | .unreadable | .bool true | .bool false => exact conveys_scalar (reads_word rfl)
  | .integer n =>
    exact conveys_scalar (reads_number (number?_ofInteger (h _ (List.mem_singleton_self _))))
  | .float x => exact conveys_float (h _ (List.mem_singleton_self _))
  | .text s | .moment s => exact conveys_quoted s
  | .list ts => exact (conveys_items ts h).list
  | .object ms => exact (conveys_members ms h).object

theorem conveys_items (ts : List Tree) (h : ∀ leaf ∈ leavesOfItems ts, Faithful leaf) :
    ConveysItems ts := by
  match ts with
  | [] => exact ⟨[], reads_nil, fun _ _ _ => rfl⟩
  | t :: ts =>
    have ⟨ht, hts⟩ := List.forall_mem_append.mp h
    exact .cons (conveys_compact t ht) (conveys_items ts hts)

theorem conveys_members (ms : List (String × Tree))
    (h : ∀ leaf ∈ leavesOfMembers ms, Faithful leaf) : ConveysMembers ms := by
  match ms with
  | [] => exact ⟨[], reads_nil, fun _ _ _ => rfl⟩
  | (key, t) :: ms =>
    have ⟨ht, hms⟩ := List.forall_mem_append.mp h
    exact .cons (conveys_compact t ht) (conveys_members ms hms)

end

-- A text that is written is read as the tree it is written for, but for parts that have no text or
-- are nested too deeply.
theorem read?_compactText {t : Tree} (h : ∀ leaf ∈ t.leaves, Faithful leaf) :
    read? (compactText t) = some (seen 0 t) := by
  have ⟨ts, hr, ht⟩ := conveys_compact t h
  have hs := hr [] trivial
  rw [List.append_nil] at hs
  simp [read?, compactText, tokens?, hs, tokensFrom, ht, Step.deliver]

def Plain : Tree → Prop
  | integer n => Exact n
  | moment _ | unreadable => False
  | _ => True

theorem finite_and_depth {as bs : List Tree} {d m k n : Nat} :
    ((∀ x, .float x ∈ as → x.isFinite) ∧ d + m ≤ n) ∧
        ((∀ x, .float x ∈ bs → x.isFinite) ∧ d + k ≤ n) ↔
      (∀ x, .float x ∈ as ++ bs → x.isFinite) ∧ d + max m k ≤ n := by
  simp only [List.mem_append, or_imp, forall_and]
  constructor
  · rintro ⟨⟨ha, hm⟩, hb, hk⟩
    exact ⟨⟨ha, hb⟩, by omega⟩
  · rintro ⟨⟨ha, hb⟩, hd⟩
    exact ⟨⟨ha, by omega⟩, hb, by omega⟩

mutual

theorem seen_eq_iff (d : Nat) (t : Tree) (hp : ∀ leaf ∈ t.leaves, Plain leaf) (hd : d ≤ nesting) :
    seen d t = t ↔ (∀ x, .float x ∈ t.leaves → x.isFinite) ∧ d + t.depth ≤ nesting := by
  match t with
  | .null | .bool b | .integer n | .text s => simpa [seen, leaves, depth] using hd
  | .float x => simpa [seen, leaves, depth] using fun _ => hd
  | .moment s | .unreadable => cases hp _ (List.mem_singleton_self _)
  | .list ts =>
    have hi (hl : d < nesting) := seenItems_eq_iff (d + 1) ts hp hl
    by_cases hl : d < nesting
    case pos => simp [seen, leaves, depth, hl, hi hl, Nat.add_right_comm d 1, Nat.add_assoc]
    case neg => simp [seen, depth, hl]; omega
  | .object ms =>
    have hi (hl : d < nesting) := seenMembers_eq_iff (d + 1) ms hp hl
    by_cases hl : d < nesting
    case pos => simp [seen, leaves, depth, hl, hi hl, Nat.add_right_comm d 1, Nat.add_assoc]
    case neg => simp [seen, depth, hl]; omega

theorem seenItems_eq_iff (d : Nat) (ts : List Tree)
    (hp : ∀ leaf ∈ leavesOfItems ts, Plain leaf) (hd : d ≤ nesting) : seenItems d ts = ts ↔
      (∀ x, .float x ∈ leavesOfItems ts → x.isFinite) ∧ d + depthOfItems ts ≤ nesting := by
  match ts with
  | [] => simpa [seenItems, leavesOfItems, depthOfItems] using hd
  | t :: ts =>
    have ⟨hp, hps⟩ := List.forall_mem_append.mp hp
    have ht := seen_eq_iff d t hp hd
    have hts := seenItems_eq_iff d ts hps hd
    rw [seenItems, List.cons.injEq, ht, hts, leavesOfItems, depthOfItems, finite_and_depth]

theorem seenMembers_eq_iff (d : Nat) (ms : List (String × Tree))
    (hp : ∀ leaf ∈ leavesOfMembers ms, Plain leaf) (hd : d ≤ nesting) : seenMembers d ms = ms ↔
      (∀ x, .float x ∈ leavesOfMembers ms → x.isFinite) ∧ d + depthOfMembers ms ≤ nesting := by
  match ms with
  | [] => simpa [seenMembers, leavesOfMembers, depthOfMembers] using hd
  | (key, t) :: ms =>
    have ⟨hp, hps⟩ := List.forall_mem_append.mp hp
    have ht := seen_eq_iff d t hp hd
    have hts := seenMembers_eq_iff d ms hps hd
    rw [seenMembers, List.cons.injEq, Prod.mk.injEq, eq_self, true_and, ht, hts, leavesOfMembers,
      depthOfMembers, finite_and_depth]

end

end Tree.Json
end Readback
