import Mathlib.Data.List.TakeDrop
import Mathlib.Data.List.TakeWhile
import Readback.Double.Stepwise

namespace Readback.Text

variable {n m : Nat} {c : Char} {cs : List Char}

theorem isDigit_iff : isDigit c ↔ '0' ≤ c ∧ c ≤ '9' := by
  simp [isDigit, digit?]

theorem isDigit_eq (c : Char) : isDigit c = c.isDigit := by
  rw [Bool.eq_iff_iff, isDigit_iff, Char.isDigit]
  simp [Char.le_def]

theorem isDigit_of_mem_digits (h : c ∈ digits n) : isDigit c := by
  rw [isDigit_eq]
  exact Nat.isDigit_of_mem_toDigits (by decide) (by decide) h

theorem digits_ne_nil : digits n ≠ [] := Nat.toDigits_ne_nil

theorem natural?_eq_some_iff :
    natural? cs = some n ↔ cs ≠ [] ∧ (∀ c ∈ cs, isDigit c) ∧ decimal cs = n := by
  simp [natural?, and_assoc]

theorem exists_of_integer? {i : Int} (h : integer? cs = some i) :
    ∃ ds n, natural? ds = some n ∧
      (cs = '-' :: ds ∧ i = -n ∨ (cs = '+' :: ds ∨ cs = ds) ∧ i = n) := by
  have spelled {f : Int → Int} {ds : List Char} (h : (natural? ds).map f = some i) :
      ∃ n, natural? ds = some n ∧ f n = i := by
    simpa [Option.bind_eq_some_iff] using h
  unfold integer? at h
  split at h
  case h_1 ds =>
    obtain ⟨n, hn, rfl⟩ := spelled h
    exact ⟨ds, n, hn, .inl ⟨rfl, rfl⟩⟩
  case h_2 ds =>
    obtain ⟨n, hn, rfl⟩ := spelled h
    exact ⟨ds, n, hn, .inr ⟨.inl rfl, rfl⟩⟩
  case h_3 =>
    obtain ⟨n, hn, rfl⟩ := spelled h
    exact ⟨cs, n, hn, .inr ⟨.inr rfl, rfl⟩⟩

def push (n : Nat) (c : Char) : Nat := n * 10 + (hexDigit? c).getD 0

theorem decimal_eq (cs : List Char) : decimal cs = cs.foldl push 0 := rfl

theorem le_foldl_push (n : Nat) (cs : List Char) : n ≤ cs.foldl push n := by
  induction cs generalizing n
  case nil => exact Nat.le_refl n
  case cons c cs hi =>
    have hp : n ≤ push n c := by simp only [push]; omega
    exact Nat.le_trans hp (hi _)

theorem push_digitChar (n : Nat) (h : m < 10) : push n m.digitChar = n * 10 + m := by
  have hd : ∀ m < 10, (hexDigit? m.digitChar).getD 0 = m := by decide
  rw [push, hd m h]

theorem decimal_digits (n : Nat) : decimal (digits n) = n := by
  induction n using Nat.strongRecOn
  case ind n hi =>
    by_cases h : n < 10
    case pos => rw [digits, Nat.toDigits_of_lt_base h, decimal_eq, List.foldl_cons, List.foldl_nil,
      push_digitChar 0 h, Nat.zero_mul, Nat.zero_add]
    case neg =>
      rw [digits, Nat.toDigits_of_base_le (by decide) (by omega), decimal_eq, List.foldl_append,
        ← decimal_eq, ← digits, hi (n / 10) (by omega), List.foldl_cons, List.foldl_nil,
        push_digitChar _ (by omega)]
      omega

theorem eq_nil_of_digits (h : digits n = '0' :: cs) : cs = [] := by
  induction n using Nat.strongRecOn generalizing cs
  case ind n hi =>
    by_cases hn : n < 10
    case pos =>
      rw [digits, Nat.toDigits_of_lt_base hn] at h
      exact (List.cons.inj h).right.symm
    case neg =>
      rw [digits, Nat.toDigits_of_base_le (by decide) (by omega), ← digits] at h
      have ⟨d, ds, hd⟩ := List.exists_cons_of_ne_nil (digits_ne_nil (n := n / 10))
      rw [hd] at h
      have he : d = '0' := (List.cons.inj h).left
      rw [he] at hd
      have hs : n / 10 = decimal ['0'] := by
        rw [← decimal_digits (n / 10), hd, hi (n / 10) (by omega) hd]
      have hz : decimal ['0'] = 0 := rfl
      omega

theorem span_append {p : Char → Bool} {rest : List Char} (h : ∀ c ∈ cs, p c)
    (hr : ∀ c ∈ rest.head?, ¬p c) : (cs ++ rest).span p = (cs, rest) := by
  rw [List.span_eq_takeWhile_dropWhile, List.takeWhile_append_of_pos h,
    List.dropWhile_append_of_pos h]
  cases rest
  case nil => simp
  case cons c rest => simp [hr c rfl]

theorem of_span_eq {p : Char → Bool} {ds rest : List Char} (h : cs.span p = (ds, rest)) :
    cs = ds ++ rest ∧ ∀ c ∈ ds, p c := by
  rw [List.span_eq_takeWhile_dropWhile] at h
  cases h
  exact ⟨List.takeWhile_append_dropWhile.symm, fun c hc => List.mem_takeWhile_imp hc⟩

theorem span_digits : (digits n).span isDigit = (digits n, []) := by
  have h : (digits n ++ []).span isDigit = (digits n, []) :=
    span_append (fun _ => isDigit_of_mem_digits) nofun
  rwa [List.append_nil] at h

end Readback.Text

namespace Readback.Double

open Text

variable {n : Nat} {cs : List Char}

theorem append_of_lt (hd : ∀ c ∈ cs, isDigit c) (h : cs.foldl push n < UInt64.size) :
    append n cs = (cs.foldl push n, []) := by
  induction cs generalizing n
  case nil => rfl
  case cons c cs hi =>
    have ⟨hc, hd⟩ := List.forall_mem_cons.mp hd
    have he : 10 * n + (digit? c).getD 0 = push n c := by
      have hx := isDigit_iff.mp hc
      simp only [push, digit?, hexDigit?, hx, and_self, if_true]
      omega
    have hl : push n c < UInt64.size := Nat.lt_of_le_of_lt (le_foldl_push _ cs) h
    simp only [append, he, hl, if_true]
    exact hi hd h

theorem append_digits (h : n < UInt64.size) : append 0 (digits n) = (n, []) := by
  have hf : (digits n).foldl push 0 = n := decimal_digits n
  rw [append_of_lt (fun _ => isDigit_of_mem_digits) (by rwa [hf]), hf]

end Readback.Double
