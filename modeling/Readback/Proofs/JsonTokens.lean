import Readback.Proofs.Digits
import Readback.Tree.Json.Reader
import Readback.Tree.Json.Writer

namespace Readback.Tree.Json

open Text

variable {c : Char} {cs ds acc rest : List Char} {t : Tree}

theorem isNumberChar_of_isDigit (h : isDigit c) : isNumberChar c := by
  simp [isNumberChar, h]

theorem isNumberChar_of_natural? {n : Nat} (h : natural? cs = some n) (hc : c ∈ cs) :
    isNumberChar c :=
  isNumberChar_of_isDigit ((natural?_eq_some_iff.mp h).right.left c hc)

theorem isNumberChar_of_integer? {n : Int} (h : integer? cs = some n) (hc : c ∈ cs) :
    isNumberChar c := by
  obtain ⟨ds, n, hn, ⟨rfl, -⟩ | ⟨rfl | rfl, -⟩⟩ := exists_of_integer? h
  case inl | inr.inl => exact (List.mem_cons.mp hc).elim (· ▸ rfl) (isNumberChar_of_natural? hn)
  case inr.inr => exact isNumberChar_of_natural? hn hc

theorem isNumberChar_of_exponent? {n : Int} (h : Double.exponent? cs = some n) (hc : c ∈ cs) :
    isNumberChar c := by
  cases cs
  case nil => cases hc
  case cons e ds =>
    simp only [Double.exponent?, Bool.or_eq_true, beq_iff_eq, Option.ite_none_right_eq_some] at h
    cases List.mem_cons.mp hc
    case inl he => cases he; rcases h.left with rfl | rfl <;> rfl
    case inr hc => exact isNumberChar_of_integer? h.right hc

def Numeric (cs : List Char) : Prop :=
  (∃ c ds, cs = c :: ds ∧ (c = '-' ∨ isDigit c)) ∧ ∀ c ∈ cs, isNumberChar c

theorem numeric_of_span {whole : List Char} (hs : ds.span isDigit = (whole, rest))
    (hn : ¬(whole.isEmpty || (whole.head? == some '0' && whole.length != 1)))
    (hr : ∀ c ∈ rest, isNumberChar c) : Numeric ds ∧ Numeric ('-' :: ds) := by
  have ⟨hd, hw⟩ := of_span_eq hs
  have ha : ∀ c ∈ ds, isNumberChar c := by
    rw [hd]
    exact List.forall_mem_append.mpr ⟨fun c hc => isNumberChar_of_isDigit (hw c hc), hr⟩
  refine ⟨⟨?_, ha⟩, ⟨'-', ds, rfl, .inl rfl⟩, List.forall_mem_cons.mpr ⟨rfl, ha⟩⟩
  cases whole
  case nil => simp at hn
  case cons c cs => exact ⟨c, cs ++ rest, hd, .inr (hw c List.mem_cons_self)⟩

theorem numeric_of_sign {negative : Bool} (hd : Numeric ds ∧ Numeric ('-' :: ds))
    (hs : (match cs with
      | '-' :: cs => (true, cs)
      | cs => (false, cs)) = (negative, ds)) : Numeric cs := by
  split at hs <;> cases hs
  · exact hd.right
  · exact hd.left

theorem numeric_of_number? (h : number? cs = some t) : Numeric cs := by
  revert h
  fun_cases number? cs <;> intro h
  case case1 | case6 => cases h
  case case2 | case3 | case4 | case5 =>
    exact numeric_of_sign (numeric_of_span (by assumption) (by assumption) (List.forall_mem_nil _))
      (by assumption)
  case case7 hf _ hw =>
    have ⟨n, he, _⟩ := Option.map_eq_some_iff.mp h
    have ⟨hr, hd⟩ := of_span_eq hf
    refine numeric_of_sign (numeric_of_span hw (by assumption) ?_) (by assumption)
    rw [hr]
    exact List.forall_mem_cons.mpr ⟨rfl, List.forall_mem_append.mpr
      ⟨fun c hc => isNumberChar_of_isDigit (hd c hc), fun c hc => isNumberChar_of_exponent? he hc⟩⟩
  case case8 hw =>
    have ⟨n, he, _⟩ := Option.map_eq_some_iff.mp h
    exact numeric_of_sign (numeric_of_span hw (by assumption) fun c hc =>
      isNumberChar_of_exponent? he hc) (by assumption)

-- The integers that are read as such.
def Exact (n : Int) : Prop := Int64.minValue.toInt ≤ n ∧ n < UInt64.size

theorem isLeading_digits (n : Nat) :
    ((digits n).isEmpty || ((digits n).head? == some '0' && (digits n).length != 1)) = false := by
  cases hd : digits n
  case nil => exact absurd hd digits_ne_nil
  case cons c cs =>
    by_cases hc : c = '0'
    case pos => cases hc; cases eq_nil_of_digits hd; rfl
    case neg => simp [hc]

theorem number?_ofInteger {n : Int} (h : Exact n) :
    number? (ofInteger n) = some (.integer n) := by
  cases n
  case ofNat n =>
    have hn : n < UInt64.size := Int.ofNat_lt.mp h.right
    have hs : ∀ ds, digits n ≠ '-' :: ds := by
      intro ds hd
      have hm := isDigit_of_mem_digits (hd ▸ List.mem_cons_self)
      cases hm
    simp only [ofInteger, number?, span_digits, isLeading_digits, Double.append_digits hn]
    rfl
  case negSucc n =>
    have hn : n + 1 ≤ Nat.pow 2 63 := by
      have hl : Int64.minValue.toInt = -9223372036854775808 := rfl
      have hp : Nat.pow 2 63 = 9223372036854775808 := rfl
      have h := h.left
      omega
    have hl : n + 1 < UInt64.size := Nat.lt_of_le_of_lt hn (by decide)
    simp only [ofInteger, number?, span_digits, isLeading_digits, Double.append_digits hl]
    rw [if_neg Bool.false_ne_true, if_neg (by simp), if_neg (by simp),
      if_pos ⟨Nat.succ_ne_zero n, hn⟩]
    rfl

-- What can stand behind a value: nothing, or a mark that is part of no other token.
def Fenced : List Char → Prop
  | [] => True
  | c :: _ => c = ',' ∨ c = ':' ∨ c = ']' ∨ c = '\x7d'

-- The tokens of a text that is followed by something else.
def Reads (cs : List Char) (ts : List Token) : Prop :=
  ∀ rest, Fenced rest → tokensFrom .between (cs ++ rest) = (tokensFrom .between rest).map (ts ++ ·)

theorem advance_number (h : c = '-' ∨ isDigit c) :
    advance .between c = some ([], .number [c]) := by
  cases h
  case inl h => cases h; rfl
  case inr h =>
    have ne (d : Char) (hd : isDigit d = false) : (c == d) = false := by
      simp only [beq_eq_false_iff_ne]
      rintro rfl
      exact absurd h (by simp [hd])
    simp [advance, start, h, ne ' ' rfl, ne '\t' rfl, ne '\n' rfl, ne '\r' rfl, ne '[' rfl,
      ne ']' rfl, ne '\x7b' rfl, ne '\x7d' rfl, ne ',' rfl, ne ':' rfl, ne '"' rfl]

theorem tokensFrom_of_advance {place next : Place} {ts : List Token}
    (h : advance place c = some (ts, next)) (rest : List Char) :
    tokensFrom place (c :: rest) = (tokensFrom next rest).map (ts ++ ·) := by
  cases place <;> cases ht : tokensFrom next rest <;> simp [tokensFrom, h, ht]

theorem tokensFrom_of_skip {place next : Place} (h : advance place c = some ([], next))
    (rest : List Char) : tokensFrom place (c :: rest) = tokensFrom next rest := by
  rw [tokensFrom_of_advance h]
  simp

theorem tokensFrom_run {place : List Char → Place}
    (h : ∀ c ∈ cs, ∀ acc, advance (place acc) c = some ([], place (c :: acc)))
    (acc rest : List Char) :
    tokensFrom (place acc) (cs ++ rest) = tokensFrom (place (cs.reverse ++ acc)) rest := by
  induction cs generalizing acc
  case nil => rfl
  case cons c cs hi =>
    have ⟨hc, hs⟩ := List.forall_mem_cons.mp h
    rw [List.cons_append, tokensFrom_of_skip (hc acc), hi hs]
    simp

theorem start_fence (hf : Fenced (c :: rest)) :
    ∃ u, start c = some ([u], .between) ∧ isNumberChar c = false ∧ c.isLower = false := by
  rcases hf with rfl | rfl | rfl | rfl <;> exact ⟨_, rfl, rfl, rfl⟩

theorem tokensFrom_of_fence {place : Place} (hr : Fenced rest)
    (hn : tokensFrom place [] = some [.scalar t])
    (hc : ∀ c u, start c = some ([u], .between) → isNumberChar c = false → c.isLower = false →
      advance place c = some ([.scalar t, u], .between)) :
    tokensFrom place rest = (tokensFrom .between rest).map (.scalar t :: ·) := by
  cases rest
  case nil => rw [hn]; rfl
  case cons c rest =>
    have ⟨u, hu, hd, hl⟩ := start_fence hr
    have ha : advance .between c = some ([u], .between) := hu
    rw [tokensFrom_of_advance (hc c u hu hd hl), tokensFrom_of_advance ha, Option.map_map]
    rfl

theorem reads_number (h : number? cs = some t) : Reads cs [.scalar t] := by
  intro rest hr
  have ⟨⟨c, ds, he, hc⟩, ha⟩ := numeric_of_number? h
  cases he
  have hd := (List.forall_mem_cons.mp ha).right
  rw [List.cons_append, tokensFrom_of_skip (advance_number hc),
    tokensFrom_run fun d hm acc => by rw [advance, if_pos (hd d hm)]]
  exact tokensFrom_of_fence hr (by simp [tokensFrom, h]) fun d u hs hd _ => by
    simp [advance, hd, h, hs]

theorem reads_word (h : word? cs = some t) : Reads cs [.scalar t] := by
  intro rest hr
  have hw : ∃ c ds, cs = c :: ds ∧ advance .between c = some ([], .word [c]) ∧
      ∀ d ∈ ds, d.isLower := by
    revert h
    fun_cases word? cs <;> intro h
    case case4 => cases h
    all_goals exact ⟨_, _, rfl, rfl, by simp⟩
  have ⟨c, ds, he, hc, hd⟩ := hw
  cases he
  rw [List.cons_append, tokensFrom_of_skip hc,
    tokensFrom_run fun d hm acc => by rw [advance, if_pos (hd d hm)]]
  exact tokensFrom_of_fence hr (by simp [tokensFrom, h]) fun d u hs _ hl => by
    simp [advance, hl, h, hs]

theorem advance_string (h : c ≠ '"' ∧ c ≠ '\\') (acc : List Char) :
    advance (.string false acc) c = some ([], .string false (c :: acc)) := by
  simp [advance, h.left, h.right]

theorem hexDigits_spec : ∀ n < 0x20, (hexDigits n).length = 4 ∧ (hexDigits n).all isHexDigit ∧
    valueIn 16 (hexDigits n) = n := by
  decide

theorem tokensFrom_escape (c : Char) (acc rest : List Char) :
    tokensFrom (.string false acc) (escape c ++ rest) =
      tokensFrom (.string false ((escape c).reverse ++ acc)) rest := by
  fun_cases escape c
  case case8 hc =>
    have ⟨_, hx, _⟩ := hexDigits_spec _ hc
    rw [List.append_assoc, List.cons_append, tokensFrom_of_skip rfl, List.cons_append,
      tokensFrom_of_skip rfl, List.nil_append, tokensFrom_run fun d hd => advance_string ?_]
    · simp
    · have hd := List.all_eq_true.mp hx d hd
      constructor <;> rintro rfl <;> cases hd
  case case9 hq hb _ _ _ _ _ _ =>
    exact tokensFrom_run (fun d hd => advance_string (by simp_all)) acc rest
  all_goals exact (tokensFrom_of_skip rfl _).trans (tokensFrom_of_skip rfl _)

theorem tokensFrom_escapes (cs acc rest : List Char) :
    tokensFrom (.string false acc) (cs.flatMap escape ++ rest) =
      tokensFrom (.string false ((cs.flatMap escape).reverse ++ acc)) rest := by
  induction cs generalizing acc
  case nil => rfl
  case cons c cs hi =>
    rw [List.flatMap_cons, List.append_assoc, tokensFrom_escape, hi]
    simp

theorem pieces?_escape (c : Char) (rest : List Char) :
    ∃ p, pieces? (escape c ++ rest) = (pieces? rest).map (p :: ·) ∧
      ∀ ps, join? (p :: ps) = (join? ps).map (c :: ·) := by
  fun_cases escape c
  case case8 hc =>
    have ⟨hl, hx, hv⟩ := hexDigits_spec _ hc
    match hd : hexDigits c.toNat, hl with
    | [a, b, d, e], _ =>
      rw [hd] at hx hv
      refine ⟨.unit c.toNat, by simp [pieces?, hx, hv], fun ps => ?_⟩
      have h₁ : ¬0xD800 ≤ c.toNat := by omega
      have h₂ : ¬0xDC00 ≤ c.toNat := by omega
      rw [join?.eq_def]
      simp [h₁, h₂]
  case case9 hq hb _ _ _ _ _ hc =>
    refine ⟨.char c, ?_, fun _ => rfl⟩
    have hb : c ≠ '\\' := by simpa using hb
    simp [pieces?, hb, hc]
  all_goals
    next h =>
      cases eq_of_beq h
      exact ⟨.char _, rfl, fun _ => rfl⟩

theorem string?_escapes (s : String) :
    string? (s.toList.flatMap escape).reverse = some (.string (some s)) := by
  have ⟨ps, hp, hj⟩ : ∃ ps, pieces? (s.toList.flatMap escape) = some ps ∧
      join? ps = some s.toList := by
    induction s.toList
    case nil => exact ⟨[], rfl, rfl⟩
    case cons c cs hi =>
      have ⟨ps, hp, hj⟩ := hi
      have ⟨p, he, hc⟩ := pieces?_escape c (cs.flatMap escape)
      exact ⟨p :: ps, by rw [List.flatMap_cons, he, hp]; rfl, by rw [hc, hj]; rfl⟩
  simp [string?, hp, hj]

theorem reads_quoted (s : String) : Reads (quoted s) [.string (some s)] := by
  intro rest _
  have ha : advance (.string false (s.toList.flatMap escape).reverse) '"' =
      some ([.string (some s)], .between) := by
    simp [advance, string?_escapes]
  rw [quoted, List.cons_append, List.cons_append, List.append_assoc, tokensFrom_of_skip rfl,
    tokensFrom_escapes, List.append_nil, List.cons_append, List.nil_append,
    tokensFrom_of_advance ha]

theorem Reads.enclosed {a b : Char} {u w : Token} {ts : List Token} (h : Reads cs ts)
    (ha : advance .between a = some ([u], .between))
    (hb : advance .between b = some ([w], .between)) (hf : Fenced [b]) :
    Reads (a :: cs ++ [b]) (u :: ts ++ [w]) := by
  intro rest _
  rw [List.cons_append, List.cons_append, List.append_assoc, tokensFrom_of_advance ha,
    h ([b] ++ rest) hf, List.cons_append, List.nil_append, tokensFrom_of_advance hb]
  simp [Function.comp_def]

theorem Reads.then {u : Token} {ts us : List Token} (h : Reads cs ts)
    (hc : advance .between c = some ([u], .between)) (hf : Fenced [c]) (hd : Reads ds us) :
    Reads (cs ++ c :: ds) (ts ++ u :: us) := by
  intro rest hr
  rw [List.append_assoc, h (c :: ds ++ rest) hf, List.cons_append, tokensFrom_of_advance hc,
    hd rest hr]
  simp [Function.comp_def]

theorem reads_nil : Reads [] [] := by
  intro rest _
  simp

end Readback.Tree.Json
