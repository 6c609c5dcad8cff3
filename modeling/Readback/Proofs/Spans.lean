import Readback.Proofs.Digits
import Readback.Span.Written
import Readback.Tree.Meaning

namespace Readback.Span

open Text

variable {s t u k n : Nat} {name : String} {ps : List (Nat × String)} {rest : List Char}

namespace TimeUnit

def length (u : TimeUnit) : Nat :=
  u.nanos?.getD (u.seconds * Span.second)

end TimeUnit

structure Adds (s : Span) (p : Nat × String) (t : Span) : Prop where
  count : p.1 < UInt64.size
  letters : ∀ c ∈ p.2.toList, isUnitLetter c
  unit : ∃ u, TimeUnit.ofName? p.2.toList = some u ∧ plusAmount? s ⟨p.1, none⟩ u = some t

inductive Sums : Span → List (Nat × String) → Span → Prop
  | nil (s : Span) : Sums s [] s
  | cons {s t u : Span} {p : Nat × String} {ps : List (Nat × String)} :
    Adds s p t → Sums t ps u → Sums s (p :: ps) u

theorem count?_of_lt (h : n < UInt64.size) : count? n = some n := if_pos h

theorem plus?_of_lt {seconds nanos : Nat} (hn : s % second + nanos < UInt64.size)
    (h : s + seconds * second + nanos < UInt64.size * second) :
    plus? s seconds nanos = some (s + seconds * second + nanos) := by
  simp [plus?, count?_of_lt hn, h]

theorem plusAmount?_none {unit : TimeUnit} (h : s + n * unit.length < UInt64.size * second)
    (hn : unit.nanos?.isSome → n < 1000) :
    plusAmount? s ⟨n, none⟩ unit = some (s + n * unit.length) := by
  have hs : UInt64.size = 18446744073709551616 := rfl
  cases hu : unit.nanos?
  case none =>
    have hl : unit.length = unit.seconds * second := by simp [TimeUnit.length, hu]
    rw [hl, ← Nat.mul_assoc] at h ⊢
    have hc : n * unit.seconds < UInt64.size := by
      simp only [second] at h
      omega
    simp only [plusAmount?, hu, count?_of_lt hc]
    rw [Option.bind_eq_bind, Option.bind_some,
      plus?_of_lt (by simp only [second]; omega) (by rwa [Nat.add_zero]), Nat.add_zero]
    rfl
  case some nanos =>
    have hl : unit.length = nanos := by simp [TimeUnit.length, hu]
    have hm : nanos ≤ 1000000 := by cases unit <;> cases hu <;> decide
    have hb : n * nanos ≤ 1000 * 1000000 := Nat.mul_le_mul (Nat.le_of_lt (hn (by simp [hu]))) hm
    rw [hl] at h ⊢
    have hc : n * nanos < UInt64.size := by omega
    simp only [plusAmount?, hu, count?_of_lt hc]
    rw [Option.bind_eq_bind, Option.bind_some,
      plus?_of_lt (by simp only [second]; omega) (by simpa using h)]
    simp

def spell (p : Nat × String) : List Char := digits p.1 ++ p.2.toList

def spellAll : List (Nat × String) → List Char
  | [] => []
  | [p] => spell p
  | p :: q :: ps => spell p ++ ' ' :: spellAll (q :: ps)

theorem of_isUnitLetter {c : Char} (h : isUnitLetter c) :
    isDigit c = false ∧ isBlank c = false ∧ c ≠ '.' := by
  have hc : (97 ≤ c.toNat ∧ c.toNat ≤ 122) ∨ (65 ≤ c.toNat ∧ c.toNat ≤ 90) ∨ c.toNat = 181 := by
    simp only [isUnitLetter, Bool.or_eq_true, Bool.and_eq_true, decide_eq_true_eq, beq_iff_eq] at h
    rcases h with (h | h) | rfl
    · exact .inl h
    · exact .inr (.inl h)
    · exact .inr (.inr rfl)
  refine ⟨?_, ?_, ?_⟩
  · rw [← Bool.not_eq_true, isDigit_iff]
    rintro ⟨h₁, h₂⟩
    have h₁ : 48 ≤ c.toNat := h₁
    have h₂ : c.toNat ≤ 57 := h₂
    omega
  · simp [isBlank]
    omega
  · rintro rfl
    simp at hc

theorem exists_digits (n : Nat) : ∃ c cs, digits n = c :: cs ∧ isDigit c ∧ isBlank c = false := by
  have ⟨c, cs, hc⟩ := List.exists_cons_of_ne_nil (digits_ne_nil (n := n))
  have hd : isDigit c := isDigit_of_mem_digits (hc ▸ List.mem_cons_self)
  refine ⟨c, cs, hc, hd, ?_⟩
  have ⟨h₁, h₂⟩ := isDigit_iff.mp hd
  have h₁ : 48 ≤ c.toNat := h₁
  have h₂ : c.toNat ≤ 57 := h₂
  simp [isBlank]
  omega

theorem exists_spellAll (p : Nat × String) (ps : List (Nat × String)) :
    ∃ c cs, spellAll (p :: ps) = c :: cs ∧ isBlank c = false := by
  have ⟨c, cs, hc, _, hb⟩ := exists_digits p.1
  cases ps <;> simp [spellAll, spell, hc, hb]

theorem dropWhile_spellAll (ps : List (Nat × String)) :
    (spellAll ps).dropWhile isBlank = spellAll ps := by
  cases ps
  case nil => rfl
  case cons p ps =>
    have ⟨c, cs, hc, hb⟩ := exists_spellAll p ps
    simp [hc, hb]

theorem Adds.exists_letter {p : Nat × String} (h : Adds s p t) :
    ∃ c cs, p.2.toList = c :: cs ∧ isUnitLetter c := by
  have ⟨u, hu, _⟩ := h.unit
  cases hp : p.2.toList
  case nil => rw [hp] at hu; cases hu
  case cons c cs => exact ⟨c, cs, rfl, h.letters c (hp ▸ List.mem_cons_self)⟩

theorem amount?_spell {p : Nat × String} (h : Adds s p t) :
    amount? (spell p ++ rest) = some (⟨p.1, none⟩, p.2.toList ++ rest) := by
  have ⟨c, cs, hc, hl⟩ := h.exists_letter
  have ⟨hd, hb, hp⟩ := of_isUnitLetter hl
  have hs : looseDigits (digits p.1 ++ (p.2.toList ++ rest)) =
      (digits p.1, p.2.toList ++ rest) := by
    have hf : (digits p.1).filter isDigit = digits p.1 :=
      List.filter_eq_self.mpr fun _ => isDigit_of_mem_digits
    rw [looseDigits, span_append (fun c hc => by simp [isDigit_of_mem_digits hc])
      (by simp [hc, hd, hb])]
    simp only [hf]
  rw [spell, List.append_assoc, amount?]
  simp only [hs, decimal_digits, count?_of_lt h.count, Option.bind_eq_bind, Option.bind_some]
  rw [hc, List.cons_append]
  split
  · next he => cases he; exact absurd rfl hp
  · rfl

-- A part is read, and what stands behind it and a blank is left.
theorem sum?_spell {p : Nat × String} (h : Adds s p t) (hr : ∀ c ∈ rest.head?, c = ' ') :
    sum? (k + 1) s (spell p ++ rest) = match rest with
      | [] => some t
      | _ :: cs => match cs.dropWhile isBlank with
        | [] => some t
        | cs => sum? k t cs := by
  have ⟨c, cs, hc, hd, _⟩ := exists_digits p.1
  have ⟨u, hu, ht⟩ := h.unit
  have hl : (p.2.toList ++ rest).span isUnitLetter = (p.2.toList, rest) :=
    span_append h.letters fun c hc => by rw [hr c hc]; decide
  have hx : (spell p ++ rest).head? = some c := by simp [spell, hc]
  rw [sum?, hx, amount?_spell h]
  simp only [Option.bind_eq_bind, Option.bind_some, hd, Bool.not_true, Bool.false_eq_true, if_false,
    hl, hu, ht]
  cases rest
  case nil => rfl
  case cons c cs =>
    cases hr c rfl
    rfl

theorem sum?_of_sums (h : Sums s ps t) (hp : ps ≠ []) (hk : (spellAll ps).length < k) :
    sum? k s (spellAll ps) = some t := by
  induction h generalizing k
  case nil => exact absurd rfl hp
  case cons s t u p ps ha hs hi =>
    have ⟨k, he⟩ := Nat.exists_eq_succ_of_ne_zero (Nat.ne_zero_of_lt hk)
    cases he
    cases ps
    case nil =>
      cases hs
      have hx : sum? (k + 1) s (spell p ++ []) = some t := sum?_spell ha (by simp)
      rwa [List.append_nil] at hx
    case cons q ps =>
      have ⟨c, cs, hc, _⟩ := exists_spellAll q ps
      rw [spellAll, List.length_append, List.length_cons] at hk
      rw [spellAll, sum?_spell ha (by simp)]
      dsimp only
      rw [dropWhile_spellAll, ← hi (k := k) nofun (by omega), hc]

def Names (name : String) (unit : TimeUnit) : Prop :=
  TimeUnit.ofName? name.toList = some unit ∧ ∀ c ∈ name.toList, isUnitLetter c

theorem names_of (h : TimeUnit.ofName? name.toList = some unit)
    (hl : name.toList.all isUnitLetter) : Names name unit :=
  ⟨h, List.all_eq_true.mp hl⟩

theorem names_of_plural {n : Nat} {plural : String} (h : Names name unit)
    (hp : Names plural unit) : Names (if n = 1 then name else plural) unit := by
  split
  case isTrue => exact h
  case isFalse => exact hp

theorem adds_of_names {unit : TimeUnit} (hu : Names name unit)
    (h : s + n * unit.length < UInt64.size * second) (hn : unit.nanos?.isSome → n < 1000) :
    Adds s (n, name) (s + n * unit.length) where
  count := by
    cases hc : unit.nanos?
    case none =>
      have hs : second ≤ unit.length := by
        simp only [TimeUnit.length, hc, Option.getD_none]
        cases unit <;> cases hc <;> decide
      have hm := Nat.mul_le_mul_left n hs
      simp only [second] at h hm
      omega
    case some =>
      have hs : 1000 < UInt64.size := by decide
      have hn := hn (by simp [hc])
      omega
  letters := hu.right
  unit := ⟨unit, hu.left, plusAmount?_none h hn⟩

def present (ps : List (Nat × String)) : List (Nat × String) :=
  ps.filter fun p => p.1 != 0

theorem sums_nil (h : s = t) : Sums s (present []) t := h ▸ .nil s

theorem sums_cons {unit : TimeUnit} (hu : Names name unit) (hn : unit.nanos?.isSome → n < 1000)
    (h : s + n * unit.length < UInt64.size * second)
    (hr : Sums (s + n * unit.length) (present ps) t) : Sums s (present ((n, name) :: ps)) t := by
  by_cases hz : n = 0
  case pos => simpa [present, hz] using hr
  case neg =>
    rw [present, List.filter_cons_of_pos (by simpa using hz)]
    exact .cons (adds_of_names hu h hn) hr

theorem length_eq : TimeUnit.year.length = 31557600000000000 ∧
    TimeUnit.month.length = 2630016000000000 ∧ TimeUnit.day.length = 86400000000000 ∧
    TimeUnit.hour.length = 3600000000000 ∧ TimeUnit.minute.length = 60000000000 ∧
    TimeUnit.second.length = 1000000000 ∧ TimeUnit.milli.length = 1000000 ∧
    TimeUnit.micro.length = 1000 ∧ TimeUnit.nano.length = 1 := by
  decide

theorem sums_parts (h : Representable s) : Sums 0 (present (parts s)) s := by
  have ⟨hy, hm, hd, hh, hi, hs, ha, hb, hc⟩ := length_eq
  have hz : UInt64.size * second = 18446744073709551616000000000 := rfl
  have h : s < 18446744073709551616000000000 := by rwa [Representable, hz] at h
  simp only [parts, second]
  refine sums_cons (names_of_plural (names_of rfl rfl) (names_of rfl rfl)) nofun
    (by rw [hy, hz]; omega) ?_
  refine sums_cons (names_of_plural (names_of rfl rfl) (names_of rfl rfl)) nofun
    (by rw [hm, hy, hz]; omega) ?_
  refine sums_cons (names_of_plural (names_of rfl rfl) (names_of rfl rfl)) nofun
    (by rw [hd, hm, hy, hz]; omega) ?_
  refine sums_cons (names_of rfl rfl) nofun (by rw [hh, hd, hm, hy, hz]; omega) ?_
  refine sums_cons (names_of rfl rfl) nofun (by rw [hi, hh, hd, hm, hy, hz]; omega) ?_
  refine sums_cons (names_of rfl rfl) nofun (by rw [hs, hi, hh, hd, hm, hy, hz]; omega) ?_
  rw [hs, hi, hh, hd, hm, hy]
  refine sums_cons (names_of rfl rfl) (fun _ => by omega) (by rw [ha, hz]; omega) ?_
  refine sums_cons (names_of rfl rfl) (fun _ => by omega) (by rw [hb, ha, hz]; omega) ?_
  refine sums_cons (names_of rfl rfl) (fun _ => by omega) (by rw [hc, hb, ha, hz]; omega) ?_
  exact sums_nil (by rw [hc, hb, ha]; omega)

theorem toList_written (hs : s ≠ 0) : (written s).toList = spellAll (present (parts s)) := by
  have hj (ps : List (Nat × String)) :
      (joinWith " " (ps.map fun p => String.ofList (digits p.1) ++ p.2)).toList = spellAll ps := by
    induction ps
    case nil => rfl
    case cons p ps hi =>
      cases ps
      case nil => simp [spellAll, spell]
      case cons q ps =>
        have hb : " ".toList = [' '] := rfl
        simp only [List.map_cons, joinWith, String.toList_append, hb] at hi ⊢
        simp [spellAll, spell, hi]
  rw [written, if_neg hs]
  exact hj _

theorem read?_written (s : Span) (h : s.Representable) : read? s.written.toList = some s := by
  by_cases hs : s = 0
  case pos => rw [hs]; decide
  case neg =>
    have hp := sums_parts h
    rw [toList_written hs]
    cases hx : present (parts s)
    case nil =>
      rw [hx] at hp
      cases hp
      exact absurd rfl hs
    case cons p ps =>
      rw [hx] at hp
      have hz : spellAll (p :: ps) ≠ ['0'] := by
        cases hp
        case cons ha _ =>
          have ⟨c, cs, hc, _⟩ := exists_digits p.1
          have ⟨d, ds, hd, _⟩ := ha.exists_letter
          cases ps <;> simp [spellAll, spell, hc, hd]
      rw [read?, if_neg (by simpa using hz), dropWhile_spellAll]
      exact sum?_of_sums hp nofun (by omega)

theorem ofTree?_toTree (h : Representable s) : ofTree? (toTree s) = some s :=
  read?_written s h

end Readback.Span
