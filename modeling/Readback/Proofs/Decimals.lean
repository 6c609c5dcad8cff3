import Mathlib.Algebra.Order.Field.Power
import Mathlib.Data.Rat.Cast.Order
import Mathlib.Tactic.FieldSimp
import Mathlib.Tactic.Ring
import Readback.Double.Form
import Readback.Proofs.Digits
import Readback.Proofs.Truncating

namespace Readback

namespace Text

variable {cs ds : List Char} {n : Nat}

theorem foldl_push (n : Nat) (cs : List Char) :
    cs.foldl push n = n * 10 ^ cs.length + decimal cs := by
  induction cs generalizing n
  case nil => simp [decimal_eq]
  case cons c cs hi =>
    rw [decimal_eq, List.foldl_cons, List.foldl_cons, hi (push n c), hi (push 0 c),
      List.length_cons]
    simp only [push]
    ring

theorem decimal_append (cs ds : List Char) :
    decimal (cs ++ ds) = decimal cs * 10 ^ ds.length + decimal ds := by
  rw [decimal_eq, List.foldl_append, foldl_push, ← decimal_eq]

theorem decimal_zeros (k : Nat) : decimal (List.replicate k '0') = 0 := by
  induction k
  case zero => rfl
  case succ k hi =>
    rw [List.replicate_succ', decimal_append, hi, Nat.zero_mul, Nat.zero_add]
    rfl

theorem decimal_zeros_append (k : Nat) (cs : List Char) :
    decimal (List.replicate k '0' ++ cs) = decimal cs := by
  rw [decimal_append, decimal_zeros, Nat.zero_mul, Nat.zero_add]

theorem decimal_append_zeros (cs : List Char) (k : Nat) :
    decimal (cs ++ List.replicate k '0') = decimal cs * 10 ^ k := by
  rw [decimal_append, decimal_zeros, List.length_replicate, Nat.add_zero]

theorem natural?_digits (n : Nat) : natural? (digits n) = some n :=
  natural?_eq_some_iff.mpr ⟨digits_ne_nil, fun _ => isDigit_of_mem_digits, decimal_digits n⟩

theorem integer?_of_digits (hd : ∀ c ∈ cs, isDigit c) :
    integer? cs = (natural? cs).map fun n => (n : Int) := by
  unfold integer?
  split
  case h_1 => cases hd '-' List.mem_cons_self
  case h_2 => cases hd '+' List.mem_cons_self
  case h_3 => rfl

theorem integer?_ofInteger (n : Int) : integer? (ofInteger n) = some n := by
  cases n
  case ofNat n =>
    rw [ofInteger, integer?_of_digits fun _ => isDigit_of_mem_digits, natural?_digits]
    rfl
  case negSucc n =>
    rw [ofInteger, integer?, natural?_digits]
    rfl

def isPlain (c : Char) : Bool := c.isAlphanum || c == '.' || c == '-'

theorem isPlain_of_isDigit {c : Char} (h : isDigit c) : isPlain c := by
  rw [isDigit_eq] at h
  simp [isPlain, Char.isAlphanum, h]

theorem ofInteger_ne_nil (n : Int) : ofInteger n ≠ [] := by
  cases n
  case ofNat => exact digits_ne_nil
  case negSucc => exact List.cons_ne_nil _ _

theorem of_mem_ofInteger {c : Char} {n : Int} (h : c ∈ ofInteger n) : isDigit c ∨ c = '-' := by
  cases n
  case ofNat n => exact .inl (isDigit_of_mem_digits h)
  case negSucc n => exact (List.mem_cons.mp h).symm.imp_left isDigit_of_mem_digits

theorem isPlain_of_mem_ofInteger {c : Char} {n : Int} (h : c ∈ ofInteger n) : isPlain c := by
  rcases of_mem_ofInteger h with h | rfl
  case inl => exact isPlain_of_isDigit h
  case inr => rfl

end Text

namespace Double

open Text

variable {cs ds whole fraction rest : List Char} {e : Int} {q : ℚ}

def Scientific.value (s : Scientific) : ℚ := s.digits * 10 ^ s.exponent

theorem Scientific.value_shift (n k : Nat) (e : Int) :
    value ⟨n * 10 ^ k, e⟩ = value ⟨n, e + k⟩ := by
  have he : (10 : ℚ) ^ (e + k) = 10 ^ e * 10 ^ k := by
    rw [zpow_add₀ (by decide), zpow_natCast]
  simp only [value, he]
  push_cast
  ring

def Numeral.value (n : Numeral) : ℚ :=
  Scientific.value ⟨decimal (n.whole ++ n.fraction), n.exponent - n.fraction.length⟩

def spelled? (cs : List Char) : Option ℚ :=
  (Numeral.ofText? cs).map Numeral.value

theorem head_of_exponent? (h : exponent? rest = some e) :
    ∀ c ∈ rest.head?, ¬isDigit c ∧ c ≠ '.' := by
  intro c hc
  obtain ⟨ds, rfl⟩ := List.head?_eq_some_iff.mp hc
  simp only [exponent?, Bool.or_eq_true, beq_iff_eq, Option.ite_none_right_eq_some] at h
  rcases h.left with rfl | rfl <;> decide

theorem ofText?_whole (hw : ∀ c ∈ whole, isDigit c) (hn : whole ≠ [])
    (he : exponent? rest = some e) : Numeral.ofText? (whole ++ rest) = some ⟨whole, [], e⟩ := by
  have hh := head_of_exponent? he
  have hs : (whole ++ rest).span isDigit = (whole, rest) := span_append hw fun c hc => (hh c hc).1
  unfold Numeral.ofText?
  simp only [hs]
  cases rest
  case nil => simp [hn, he]
  case cons c cs => simp [hn, he, (hh c rfl).2]

theorem spelled?_whole (hw : ∀ c ∈ whole, isDigit c) (hn : whole ≠ [])
    (he : exponent? rest = some e) :
    spelled? (whole ++ rest) = some (Scientific.value ⟨decimal whole, e⟩) := by
  simp [spelled?, ofText?_whole hw hn he, Numeral.value]

theorem spelled?_point (whole fraction : List Char) (hw : ∀ c ∈ whole, isDigit c)
    (hn : whole ≠ []) (hf : ∀ c ∈ fraction, isDigit c) (he : exponent? rest = some e) :
    spelled? (whole ++ '.' :: (fraction ++ rest)) =
      some (Scientific.value ⟨decimal (whole ++ fraction), e - fraction.length⟩) := by
  have hs : (whole ++ '.' :: (fraction ++ rest)).span isDigit =
      (whole, '.' :: (fraction ++ rest)) := span_append hw fun c hc => by cases hc; decide
  have hd : (fraction ++ rest).span isDigit = (fraction, rest) :=
    span_append hf fun c hc => (head_of_exponent? he c hc).1
  have hr : Numeral.ofText? (whole ++ '.' :: (fraction ++ rest)) = some ⟨whole, fraction, e⟩ := by
    unfold Numeral.ofText?
    simp only [hs, hd]
    simp [hn, he]
  simp [spelled?, hr, Numeral.value]

-- The number that digits spell if the first of them stands for `10 ^ place`.
def placed (ds : List Char) (place : Int) : ℚ :=
  Scientific.value ⟨decimal ds, place + 1 - ds.length⟩

theorem isDigit_of_mem_zeros {k : Nat} : ∀ c ∈ List.replicate k '0', isDigit c := by
  intro c hc
  cases List.eq_of_mem_replicate hc
  rfl

variable {place : Int}

theorem exponent?_nil : exponent? [] = some 0 := rfl

theorem spelled?_positional_of_neg (hd : ∀ c ∈ ds, isDigit c) (hp : place < 0) :
    spelled? (positional ds place) = some (placed ds place) := by
  let k := (-place - 1).toNat
  have hf : ∀ c ∈ List.replicate k '0' ++ ds, isDigit c :=
    List.forall_mem_append.mpr ⟨isDigit_of_mem_zeros, hd⟩
  have hs := spelled?_point ['0'] (List.replicate k '0' ++ ds) (isDigit_of_mem_zeros (k := 1))
    (List.cons_ne_nil _ _) hf exponent?_nil
  have hv : decimal (['0'] ++ (List.replicate k '0' ++ ds)) = decimal ds :=
    decimal_zeros_append (k + 1) ds
  have hx : (0 : Int) - (List.replicate k '0' ++ ds).length = place + 1 - ds.length := by
    rw [List.length_append, List.length_replicate]
    omega
  rw [hv, hx, List.append_nil] at hs
  rw [positional, if_pos hp]
  exact hs

theorem spelled?_positional_of_le (hd : ∀ c ∈ ds, isDigit c) (hn : ds ≠ []) (hp : ¬place < 0)
    (hl : ds.length ≤ place.toNat + 1) :
    spelled? (positional ds place) = some (placed ds place) := by
  let k := place.toNat + 1 - ds.length
  have hw : ∀ c ∈ ds ++ List.replicate k '0', isDigit c :=
    List.forall_mem_append.mpr ⟨hd, isDigit_of_mem_zeros⟩
  have hs := spelled?_point (ds ++ List.replicate k '0') ['0'] hw (by simp [hn])
    (isDigit_of_mem_zeros (k := 1)) exponent?_nil
  have hv : decimal (ds ++ List.replicate k '0' ++ ['0']) = decimal ds * 10 ^ (k + 1) := by
    rw [List.append_assoc, ← List.replicate_succ', decimal_append_zeros]
  have hx : (0 : Int) - ['0'].length + (k + 1 : Nat) = place + 1 - ds.length := by
    rw [List.length_singleton]
    omega
  rw [hv, Scientific.value_shift, hx, List.append_nil] at hs
  simp only [positional, if_neg hp, if_pos hl]
  exact hs

theorem spelled?_positional_of_lt (hd : ∀ c ∈ ds, isDigit c) (hn : ds ≠ []) (hp : ¬place < 0)
    (hl : ¬ds.length ≤ place.toNat + 1) :
    spelled? (positional ds place) = some (placed ds place) := by
  let k := place.toNat + 1
  have ht : ds.take k ++ ds.drop k = ds := List.take_append_drop k ds
  have ⟨hw, hf⟩ := List.forall_mem_append.mp (ht.symm ▸ hd)
  have hs := spelled?_point (ds.take k) (ds.drop k) hw (by simp [k, hn]) hf exponent?_nil
  have hx : (0 : Int) - (ds.drop k).length = place + 1 - ds.length := by
    rw [List.length_drop]
    omega
  rw [ht, hx, List.append_nil] at hs
  simp only [positional, if_neg hp, if_neg hl, List.append_assoc]
  exact hs

theorem spelled?_positional (hd : ∀ c ∈ ds, isDigit c) (hn : ds ≠ []) (place : Int) :
    spelled? (positional ds place) = some (placed ds place) := by
  by_cases hp : place < 0
  case pos => exact spelled?_positional_of_neg hd hp
  case neg =>
    by_cases hl : ds.length ≤ place.toNat + 1
    case pos => exact spelled?_positional_of_le hd hn hp hl
    case neg => exact spelled?_positional_of_lt hd hn hp hl

theorem spelled?_withExponent (hd : ∀ c ∈ ds, isDigit c) (hn : ds ≠ []) (place : Int) :
    spelled? (withExponent [] ds place) = some (placed ds place) := by
  have he : exponent? ('e' :: ofInteger place) = some place := integer?_ofInteger place
  have ⟨d, cs, h⟩ := List.exists_cons_of_ne_nil hn
  cases h
  cases cs
  case nil =>
    have hs := spelled?_whole hd hn he
    simpa [withExponent, placed] using hs
  case cons c cs =>
    have ⟨hd, hf⟩ := List.forall_mem_cons.mp hd
    have hs := spelled?_point [d] (c :: cs) (List.forall_mem_singleton.mpr hd)
      (List.cons_ne_nil _ _) hf he
    simpa [withExponent, placed] using hs

theorem spelled?_decimal (s : Scientific) :
    spelled? (Form.diagnostic.decimal s) = some s.value := by
  let ds := digits s.digits
  let place := s.exponent + (ds.length - 1)
  have hd : ∀ c ∈ ds, isDigit c := fun _ => isDigit_of_mem_digits
  have hx : place + 1 - ds.length = s.exponent := by omega
  have hv : placed ds place = s.value := by rw [placed, hx, decimal_digits]
  rw [← hv]
  simp only [Form.decimal]
  split
  case isTrue => exact spelled?_positional hd digits_ne_nil place
  case isFalse => exact spelled?_withExponent hd digits_ne_nil place

def Basin.Contains (b : Basin) (q : ℚ) : Prop :=
  if b.closed then b.low ≤ q ∧ q ≤ b.high else b.low < q ∧ q < b.high

variable {b : Basin} {rank i j num den : Nat}

theorem Basin.holds_iff (hd : 0 < den) : b.holds num den ↔ b.Contains (num / den) := by
  have hd : (0 : ℚ) < den := Nat.cast_pos.mpr hd
  unfold holds Contains
  split
  all_goals
    simp only [Bool.and_eq_true, decide_eq_true_eq, le_div_iff₀ hd, div_le_iff₀ hd,
      lt_div_iff₀ hd, div_lt_iff₀ hd]
    norm_cast

theorem Basin.Contains.bounds (h : b.Contains q) : b.low ≤ q ∧ q ≤ b.high := by
  unfold Contains at h
  split at h
  case isTrue => exact h
  case isFalse => exact ⟨h.1.le, h.2.le⟩

theorem Basin.closed_of_contains_low (h : b.Contains b.low) : b.closed := by
  unfold Contains at h
  split at h
  case isTrue hc => exact hc
  case isFalse => exact absurd h.1 (lt_irrefl _)

theorem Basin.closed_of_contains_high (h : b.Contains b.high) : b.closed := by
  unfold Contains at h
  split at h
  case isTrue hc => exact hc
  case isFalse => exact absurd h.2 (lt_irrefl _)

theorem even_of_closed (h : (basin rank).closed) : rank % 2 = 0 := eq_of_beq h

theorem basin_high_le (h : i < j) : (basin i).high ≤ (basin j).low :=
  Nat.add_le_add (magnitude_strictMono.monotone (Nat.le_sub_one_of_lt h))
    (magnitude_strictMono.monotone h)

theorem succ_eq_of_high (h : i < j) (he : (basin i).high = (basin j).low) : i + 1 = j := by
  have hl : magnitude i ≤ magnitude (j - 1) :=
    magnitude_strictMono.monotone (Nat.le_sub_one_of_lt h)
  have hr : magnitude (i + 1) ≤ magnitude j := magnitude_strictMono.monotone h
  simp only [basin] at he
  exact magnitude_strictMono.injective (by omega)

-- Basins meet at most in an end, and of two neighbours only one owns the end between them.
theorem eq_of_contains (hi : (basin i).Contains q) (hj : (basin j).Contains q) : i = j := by
  wlog h : i < j
  case inr =>
    rcases Nat.eq_or_lt_of_le (Nat.le_of_not_lt h) with he | hl
    case inl => exact he.symm
    case inr => exact (this hj hi hl).symm
  have hb : ((basin i).high : ℚ) ≤ (basin j).low := Nat.cast_le.mpr (basin_high_le h)
  have hq : q = (basin i).high := le_antisymm hi.bounds.2 (hb.trans hj.bounds.1)
  have he : ((basin i).high : ℚ) = (basin j).low := le_antisymm hb (hq ▸ hj.bounds.1)
  have hn := succ_eq_of_high h (Nat.cast_injective he)
  have hci := even_of_closed (Basin.closed_of_contains_high (hq ▸ hi))
  have hcj := even_of_closed (Basin.closed_of_contains_low (he ▸ hq ▸ hj))
  omega

-- How many half units make 1. The power stays behind its name, as nothing should compute it.
def halvesOfOne : Nat := Nat.pow 2 1075

theorem halvesOfOne_def : Nat.pow 2 1075 = halvesOfOne := by
  delta halvesOfOne
  rfl

theorem Scientific.value_mul (s : Scientific) (k : Nat) :
    s.value * k = (s.digits * (Nat.pow 10 s.exponent.toNat * k) : Nat) /
      (Nat.pow 10 (-s.exponent).toNat : Nat) := by
  have he : (10 : ℚ) ^ s.exponent = 10 ^ s.exponent.toNat / 10 ^ (-s.exponent).toNat := by
    rw [← zpow_natCast, ← zpow_natCast, ← zpow_sub₀ (by decide)]
    congr 1
    omega
  rw [value, he]
  push_cast
  simp only [Nat.pow_eq]
  push_cast
  ring

variable {tie : Tie} {s : Scientific}

theorem readsBack_of_onGrid? (h : onGrid? tie rank e = some s) :
    (basin rank).holds (s.digits * (Nat.pow 10 s.exponent.toNat * halvesOfOne))
      (Nat.pow 10 (-s.exponent).toNat) := by
  simp only [onGrid?, halvesOfOne_def] at h
  generalize halvesOfOne = k at h ⊢
  split at h <;> cases h
  case h_1 => split <;> assumption
  all_goals assumption

theorem contains_of_onGrid? (h : onGrid? tie rank e = some s) :
    (basin rank).Contains (s.value * halvesOfOne) := by
  rw [Scientific.value_mul]
  exact (Basin.holds_iff (Nat.pow_pos (by decide))).mp (readsBack_of_onGrid? h)

theorem contains_of_searchGrids {n : Nat} (h : searchGrids tie rank n e = some s) :
    (basin rank).Contains (s.value * halvesOfOne) := by
  induction n generalizing e
  case zero => cases h
  case succ n hi =>
    rcases Option.or_eq_some_iff.mp h with h | ⟨_, h⟩
    case inl => exact contains_of_onGrid? h
    case inr => exact hi h

theorem contains_magnitude (rank : Nat) :
    (basin rank).Contains ((2 * magnitude rank : Nat) : ℚ) := by
  have hl : magnitude (rank - 1) ≤ magnitude rank := magnitude_strictMono.monotone (Nat.sub_le ..)
  have hh : magnitude rank < magnitude (rank + 1) := magnitude_lt_succ rank
  unfold Basin.Contains
  split
  case isTrue =>
    refine ⟨Nat.cast_le.mpr ?_, Nat.cast_le.mpr ?_⟩ <;> simp only [basin] <;> omega
  case isFalse hc =>
    -- An odd rank is not the first one, so that there is a magnitude below.
    have hr : 0 < rank := by
      rw [Nat.pos_iff_ne_zero]
      rintro rfl
      exact hc rfl
    have hl : magnitude (rank - 1) < magnitude rank := magnitude_strictMono (by omega)
    refine ⟨Nat.cast_lt.mpr ?_, Nat.cast_lt.mpr ?_⟩ <;> simp only [basin] <;> omega

def partsOfUnit : Nat := Nat.pow 5 1074

theorem partsOfUnit_def : Nat.pow 5 1074 = partsOfUnit := by
  delta partsOfUnit
  rfl

-- Units are powers of two, and so have finitely many decimals.
theorem value_of_parts {parts halves m k : Nat} (n : Nat) (hp : Nat.pow 5 k = parts)
    (hh : Nat.pow 2 m = halves) (hm : m = k + 1) (he : e = -k) :
    Scientific.value ⟨n * parts, e⟩ * halves = (2 * n : Nat) := by
  have h : (5 : ℚ) ^ k * 2 ^ k = 10 ^ k := by
    rw [← mul_pow]
    norm_num
  simp only [Scientific.value, ← hp, ← hh, hm, he, Nat.pow_eq, zpow_neg, zpow_natCast, ← h]
  push_cast
  field_simp
  ring

theorem contains_shortest (tie : Tie) (rank : Nat) :
    (basin rank).Contains ((shortest tie rank).value * halvesOfOne) := by
  have hv := value_of_parts (magnitude rank) partsOfUnit_def halvesOfOne_def rfl
    (e := -1074) rfl
  simp only [shortest, partsOfUnit_def]
  generalize hs : searchGrids tie rank 20 _ = found
  cases found
  case none =>
    rw [Option.getD_none, hv]
    exact contains_magnitude rank
  case some s => exact contains_of_searchGrids hs

theorem spelled?_rank (rank : Nat) :
    ∃ q, spelled? (Form.diagnostic.rank rank) = some q ∧
      (basin rank).Contains (q * halvesOfOne) := by
  by_cases hr : rank = 0
  case pos =>
    subst hr
    have hz : ∀ c ∈ ['0'], isDigit c := List.forall_mem_singleton.mpr rfl
    have hs := spelled?_point ['0'] ['0'] hz (List.cons_ne_nil _ _) hz exponent?_nil
    have hv (e : Int) : Scientific.value ⟨0, e⟩ = 0 := by simp [Scientific.value]
    refine ⟨0, hs.trans (congrArg some (hv _)), ?_⟩
    rw [zero_mul]
    exact Nat.cast_zero (R := ℚ) ▸ contains_magnitude 0
  case neg =>
    refine ⟨(shortest .up rank).value, ?_, contains_shortest .up rank⟩
    rw [Form.rank, if_neg hr]
    exact spelled?_decimal _

theorem rank_injective : Function.Injective Form.diagnostic.rank := by
  intro i j h
  have ⟨q, hi, hci⟩ := spelled?_rank i
  have ⟨r, hj, hcj⟩ := spelled?_rank j
  rw [h, hj, Option.some.injEq] at hi
  exact eq_of_contains hci (hi ▸ hcj)

theorem rank_ne (h : spelled? cs = none) : Form.diagnostic.rank rank ≠ cs := by
  rintro rfl
  have ⟨q, hq, _⟩ := spelled?_rank rank
  cases h.symm.trans hq

theorem of_sign_append {a b : Bool}
    (h : (if a then ['-'] else []) ++ cs = (if b then ['-'] else []) ++ ds)
    (hc : ∀ es, cs ≠ '-' :: es) (hd : ∀ es, ds ≠ '-' :: es) : a = b ∧ cs = ds := by
  cases a <;> cases b
  case false.false => exact ⟨rfl, h⟩
  case true.true => exact ⟨rfl, (List.cons.inj h).right⟩
  case false.true => exact absurd h (hc ds)
  case true.false => exact absurd h.symm (hd cs)

theorem text_finite_injective {a b : Bool} {i j : Fin ranks}
    (h : text (.finite a i) = text (.finite b j)) : a = b ∧ i = j := by
  have ⟨hs, hr⟩ := of_sign_append h (fun _ => rank_ne rfl) (fun _ => rank_ne rfl)
  exact ⟨hs, Fin.ext (rank_injective hr)⟩

theorem text_finite_ne {a : Bool} {i : Fin ranks} {y : Double} (hy : ∀ b j, y ≠ .finite b j) :
    text (.finite a i) ≠ y.text := by
  intro h
  rcases y with _ | b | ⟨b, j⟩
  case nan =>
    have hs := of_sign_append (b := false) h (fun _ => rank_ne rfl) nofun
    exact rank_ne rfl hs.right
  case infinite =>
    have hs := of_sign_append h (fun _ => rank_ne rfl) nofun
    exact rank_ne rfl hs.right
  case finite => exact hy b j rfl

theorem text_injective : Function.Injective text := by
  intro x y h
  rcases x with _ | a | ⟨a, i⟩ <;> rcases y with _ | b | ⟨b, j⟩
  case finite.finite =>
    obtain ⟨rfl, rfl⟩ := text_finite_injective h
    rfl
  case finite.nan | finite.infinite => exact absurd h (text_finite_ne nofun)
  case nan.finite | infinite.finite => exact absurd h.symm (text_finite_ne nofun)
  case nan.nan => rfl
  case nan.infinite => cases b <;> cases h
  case infinite.nan => cases a <;> cases h
  case infinite.infinite => cases a <;> cases b <;> first | rfl | cases h

variable {c : Char}

theorem of_mem_positional (h : c ∈ positional ds place) : c ∈ ds ∨ c = '0' ∨ c = '.' := by
  unfold positional at h
  split at h
  case isTrue =>
    simp only [List.mem_append, List.mem_cons, List.mem_replicate, List.not_mem_nil] at h
    grind
  case isFalse =>
    dsimp only at h
    split at h
    case isTrue =>
      simp only [List.mem_append, List.mem_cons, List.mem_replicate, List.not_mem_nil] at h
      grind
    case isFalse =>
      simp only [List.mem_append, List.mem_singleton] at h
      rcases h with (h | h) | h
      · exact .inl (List.mem_of_mem_take h)
      · exact .inr (.inr h)
      · exact .inl (List.mem_of_mem_drop h)

theorem of_mem_withExponent (h : c ∈ withExponent [] ds place) :
    c ∈ ds ∨ c = '.' ∨ c = 'e' ∨ c ∈ ofInteger place := by
  unfold withExponent at h
  simp only [ite_self, List.append_nil, List.mem_append, List.mem_singleton] at h
  split at h <;> simp only [List.mem_cons, List.not_mem_nil] at h ⊢ <;> grind

theorem point_mem_positional : '.' ∈ positional ds place := by
  unfold positional
  split
  case isTrue => simp
  case isFalse =>
    dsimp only
    split <;> simp

theorem letter_mem_withExponent {mark : List Char} : 'e' ∈ withExponent mark ds place := by
  simp [withExponent]

theorem isPlain_of_mem_decimal (h : c ∈ Form.diagnostic.decimal s) : isPlain c := by
  have hd (hc : c ∈ digits s.digits) : isPlain c := isPlain_of_isDigit (isDigit_of_mem_digits hc)
  simp only [Form.decimal] at h
  split at h
  case isTrue =>
    rcases of_mem_positional h with h | rfl | rfl
    case inl => exact hd h
    all_goals rfl
  case isFalse =>
    rcases of_mem_withExponent h with h | rfl | rfl | h
    case inl => exact hd h
    case inr.inr.inr => exact isPlain_of_mem_ofInteger h
    all_goals rfl

theorem exists_mem_decimal (s : Scientific) :
    ∃ c ∈ Form.diagnostic.decimal s, ¬(isDigit c ∨ c = '-') := by
  simp only [Form.decimal]
  split
  case isTrue => exact ⟨'.', point_mem_positional, by decide⟩
  case isFalse => exact ⟨'e', letter_mem_withExponent, by decide⟩

theorem isPlain_of_mem_rank (h : c ∈ Form.diagnostic.rank rank) : isPlain c := by
  unfold Form.rank at h
  split at h
  case isTrue =>
    have ha : ['0', '.', '0'].all isPlain := rfl
    exact List.all_eq_true.mp ha c h
  case isFalse => exact isPlain_of_mem_decimal h

theorem exists_mem_rank (rank : Nat) :
    ∃ c ∈ Form.diagnostic.rank rank, ¬(isDigit c ∨ c = '-') := by
  unfold Form.rank
  split
  case isTrue => exact ⟨'.', by decide, by decide⟩
  case isFalse => exact exists_mem_decimal _

theorem isPlain_of_mem_text {x : Double} (h : c ∈ x.text) : isPlain c := by
  rcases x with _ | a | ⟨a, i⟩
  case nan =>
    have ha : (text .nan).all isPlain := rfl
    exact List.all_eq_true.mp ha c h
  case infinite =>
    have ha : (text (.infinite a)).all isPlain := by cases a <;> rfl
    exact List.all_eq_true.mp ha c h
  case finite =>
    have ha : (if a then ['-'] else []).all isPlain := by cases a <;> rfl
    exact (List.mem_append.mp h).elim (List.all_eq_true.mp ha c) isPlain_of_mem_rank

theorem exists_mem_text (x : Double) : ∃ c ∈ x.text, ¬(isDigit c ∨ c = '-') := by
  rcases x with _ | a | ⟨a, i⟩
  case nan => exact ⟨'N', by decide, by decide⟩
  case infinite => exact ⟨'i', by cases a <;> decide, by decide⟩
  case finite =>
    have ⟨c, hc, hn⟩ := exists_mem_rank i
    exact ⟨c, List.mem_append_right _ hc, hn⟩

theorem text_ne_ofInteger (x : Double) (n : Int) : x.text ≠ ofInteger n := by
  intro h
  have ⟨c, hc, hn⟩ := exists_mem_text x
  exact hn (of_mem_ofInteger (h ▸ hc))

end Double
end Readback
