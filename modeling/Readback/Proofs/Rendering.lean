import Readback.Proofs.Booting
import Readback.Proofs.Decimals
import Readback.Proofs.Patience
import Readback.Proofs.Trends

namespace Readback

namespace Text

-- Ends of arrays, then what stands between two items, and then anything.
inductive Joint : List Char → Prop
  | item (cs : List Char) : Joint (',' :: ' ' :: cs)
  | close {cs : List Char} : Joint cs → Joint (']' :: cs)

-- What can stand behind the text of a value: ends of arrays, and then nothing or the next item.
inductive Behind : List Char → Prop
  | nothing : Behind []
  | item (cs : List Char) : Behind (',' :: ' ' :: cs)
  | close {cs : List Char} : Behind cs → Behind (']' :: cs)

-- A text that goes on behind a quote as if the other one had ended there.
def RunsOn (cs ds : List Char) : Prop :=
  ∃ rest, Joint rest ∧ ds = cs ++ '\'' :: rest

variable {cs ds rest rest' : List Char}

theorem Behind.not_isPlain (h : Behind rest) : ∀ c ∈ rest.head?, ¬isPlain c := by
  intro c hc
  cases h <;> cases hc <;> decide

theorem Behind.joint (h : Behind (cs ++ '\'' :: ds)) : Joint cs := by
  induction cs
  case nil => cases h
  case cons c cs hi =>
    rw [List.cons_append] at h
    generalize he : cs ++ '\'' :: ds = es at h
    cases h with
    | close h => exact .close (hi (he ▸ h))
    | item es =>
      cases cs
      case nil => cases he
      case cons d cs =>
        cases (List.cons.inj he).left
        exact .item cs

theorem runsOn_of_append {es : List Char} (hd : ds = cs ++ es)
    (h : '\'' :: rest = es ++ '\'' :: rest') (hr : Behind rest) :
    cs = ds ∧ rest = rest' ∨ RunsOn cs ds := by
  cases es
  case nil =>
    rw [List.append_nil] at hd
    exact .inl ⟨hd.symm, (List.cons.inj h).right⟩
  case cons c es =>
    obtain ⟨rfl, rfl⟩ := List.cons.inj h
    exact .inr ⟨es, hr.joint, hd⟩

theorem of_quoted_eq (h : cs ++ '\'' :: rest = ds ++ '\'' :: rest') (hr : Behind rest)
    (hr' : Behind rest') : cs = ds ∧ rest = rest' ∨ RunsOn cs ds ∨ RunsOn ds cs := by
  rcases List.append_eq_append_iff.mp h with ⟨es, hd, he⟩ | ⟨es, hd, he⟩
  case inl => exact (runsOn_of_append hd he hr).imp_right .inl
  case inr => exact (runsOn_of_append hd he hr').imp (And.imp .symm .symm) .inr

end Text

namespace Value

open Text

-- Two lists of items that can read the same: up to the first items that differ they are equal, and
-- where these differ first there are two texts one of which runs on.
inductive Confusable : List Value → List Value → Prop
  | text {s t : String} {as bs : List Value}
    (h : RunsOn s.toList t.toList ∨ RunsOn t.toList s.toList) :
    Confusable (.text s :: as) (.text t :: bs)
  | nested {as bs cs ds : List Value} (h : Confusable as bs) :
    Confusable (.array as :: cs) (.array bs :: ds)
  | later {a : Value} {as bs : List Value} (h : Confusable as bs) :
    Confusable (a :: as) (a :: bs)

def isNumber : Value → Bool
  | int _ | float _ => true
  | _ => false

variable {a b : Value} {as bs : List Value} {rest rest' : List Char}

theorem Confusable.append (h : Confusable [a] [b]) (as bs : List Value) :
    Confusable (a :: as) (b :: bs) := by
  cases h with
  | text h => exact .text h
  | nested h => exact .nested h
  | later h => cases h

theorem isPlain_of_isNumber (h : a.isNumber) : ∀ c ∈ a.render, isPlain c := by
  cases a <;> cases h
  case int => exact fun _ => isPlain_of_mem_ofInteger
  case float => exact fun _ => Double.isPlain_of_mem_text

theorem render_ne_nil (a : Value) : a.render ≠ [] := by
  cases a
  case int n => exact ofInteger_ne_nil n.toInt
  case float x =>
    obtain ⟨c, hc, _⟩ := Double.exists_mem_text x
    exact List.ne_nil_of_mem hc
  all_goals exact List.cons_ne_nil _ _

theorem head_render (a : Value) : ∃ c cs, a.render = c :: cs ∧ (isPlain c ↔ a.isNumber) := by
  obtain ⟨c, cs, hc⟩ := List.exists_cons_of_ne_nil (render_ne_nil a)
  refine ⟨c, cs, hc, fun hp => ?_, fun ha => isPlain_of_isNumber ha c (hc ▸ List.mem_cons_self)⟩
  cases a
  case int | float => rfl
  all_goals
    cases hc
    cases hp

theorem eq_of_number_render (ha : a.isNumber) (hb : b.isNumber) (h : a.render = b.render) :
    a = b := by
  cases a <;> cases b <;> simp only [render, isNumber, Bool.false_eq_true] at h ha hb
  case int.int n m =>
    have hi := integer?_ofInteger n.toInt
    rw [h, integer?_ofInteger, Option.some.injEq] at hi
    exact congrArg int (Int64.toInt_inj.mp hi.symm)
  case int.float n x => exact absurd h.symm (Double.text_ne_ofInteger x n.toInt)
  case float.int x n => exact absurd h (Double.text_ne_ofInteger x n.toInt)
  case float.float => exact congrArg float (Double.text_injective h)

theorem of_number_eq (h : a.render ++ rest = b.render ++ rest') (hr : Behind rest)
    (hr' : Behind rest') (ha : a.isNumber) : a = b ∧ rest = rest' := by
  have hb : b.isNumber := by
    obtain ⟨c, cs, hc, hp⟩ := head_render a
    obtain ⟨d, ds, hd, hq⟩ := head_render b
    rw [hc, hd] at h
    cases (List.cons.inj h).left
    exact hq.mp (hp.mpr ha)
  have hs := span_append (isPlain_of_isNumber ha) hr.not_isPlain
  rw [h, span_append (isPlain_of_isNumber hb) hr'.not_isPlain, Prod.mk.injEq] at hs
  exact ⟨eq_of_number_render ha hb hs.left.symm, hs.right.symm⟩

def renderRest : List Value → List Char
  | [] => []
  | a :: as => ',' :: ' ' :: (a.render ++ renderRest as)

theorem renderItems_cons (a : Value) (as : List Value) :
    renderItems (a :: as) = a.render ++ renderRest as := by
  induction as generalizing a
  case nil => simp [renderItems, renderRest]
  case cons b as hi => simp [renderItems, renderRest, hi b]

theorem behind_renderRest (as : List Value) (h : Behind rest) :
    Behind (renderRest as ++ ']' :: rest) := by
  cases as
  case nil => exact .close h
  case cons => exact .item _

theorem render_append_ne (a : Value) (cs ds : List Char) : a.render ++ cs ≠ ']' :: ds := by
  have ⟨c, es, hc, hp⟩ := head_render a
  intro h
  rw [hc] at h
  cases (List.cons.inj h).left
  cases a
  case int | float => exact absurd (hp.mpr rfl) (by decide)
  case text | array => cases hc

theorem renderRest_of_renderItems
    (h : renderItems as ++ ']' :: rest = renderItems bs ++ ']' :: rest') :
    renderRest as ++ ']' :: rest = renderRest bs ++ ']' :: rest' := by
  cases as <;> cases bs
  case nil.nil => exact h
  case nil.cons b bs =>
    rw [renderItems_cons, List.append_assoc] at h
    exact absurd h.symm (render_append_ne b _ _)
  case cons.nil a as =>
    rw [renderItems_cons, List.append_assoc] at h
    exact absurd h (render_append_ne a _ _)
  case cons.cons =>
    rw [renderItems_cons, renderItems_cons] at h
    simp only [renderRest, List.cons_append, h]

mutual

-- What reads the same is the same, or it can be confused.
theorem of_render_eq (a b : Value) {rest rest' : List Char}
    (h : a.render ++ rest = b.render ++ rest') (hr : Behind rest) (hr' : Behind rest') :
    a = b ∧ rest = rest' ∨ Confusable [a] [b] := by
  match a, b with
  | int _, b | float _, b => exact .inl (of_number_eq h hr hr' rfl)
  | a, int _ | a, float _ => exact .inl ((of_number_eq h.symm hr' hr rfl).imp .symm .symm)
  | text s, text t =>
    simp only [render, List.cons_append, List.append_assoc, List.cons.injEq, true_and,
      List.nil_append] at h
    have hq := of_quoted_eq h hr hr'
    exact hq.imp (And.imp_left fun hs => congrArg text (String.toList_inj.mp hs)) .text
  | array as, array bs =>
    simp only [render, List.cons_append, List.append_assoc, List.cons.injEq, true_and,
      List.nil_append] at h
    have hi := of_renderRest_eq as bs (renderRest_of_renderItems h) hr hr'
    exact hi.imp (And.imp_left (congrArg array)) .nested
  | text _, array _ | array _, text _ => cases h

theorem of_renderRest_eq (as bs : List Value) {rest rest' : List Char}
    (h : renderRest as ++ ']' :: rest = renderRest bs ++ ']' :: rest') (hr : Behind rest)
    (hr' : Behind rest') : as = bs ∧ rest = rest' ∨ Confusable as bs := by
  match as, bs with
  | [], [] => exact .inl ⟨rfl, (List.cons.inj h).right⟩
  | [], _ :: _ | _ :: _, [] => cases h
  | a :: as, b :: bs =>
    simp only [renderRest, List.cons_append, List.append_assoc, List.cons.injEq, true_and] at h
    rcases of_render_eq a b h (behind_renderRest as hr) (behind_renderRest bs hr') with
      ⟨rfl, hs⟩ | hc
    case inl => exact (of_renderRest_eq as bs hs hr hr').imp (And.imp_left (congrArg _)) .later
    case inr => exact .inr (hc.append as bs)

end

theorem of_toText_eq (h : a.toText = b.toText) :
    a = b ∨ ∃ as bs, a = array as ∧ b = array bs ∧ Confusable as bs := by
  have hr : a.render = b.render := String.ofList_injective h
  rcases of_render_eq a b (congrArg (· ++ []) hr) .nothing .nothing with ⟨he, _⟩ | hc
  case inl => exact .inl he
  case inr =>
    cases hc with
    | text =>
      have hs := List.append_cancel_right (List.cons.inj hr).right
      exact .inl (congrArg text (String.toList_inj.mp hs))
    | nested hn => exact .inr ⟨_, _, rfl, rfl, hn⟩
    | later hl => cases hl

theorem toText_ne_none (v : Value) : v.toText ≠ "None" := by
  intro h
  have hr : v.render = ['N', 'o', 'n', 'e'] := String.ofList_injective h
  cases v
  case int n =>
    have hm : 'N' ∈ (int n).render := hr.symm ▸ List.mem_cons_self
    exact absurd (of_mem_ofInteger hm) (by decide)
  case float x =>
    rcases x with _ | a | ⟨a, i⟩
    case nan => cases hr
    case infinite => cases a <;> cases hr
    case finite =>
      have hs := Double.of_sign_append (b := false) hr (fun _ => Double.rank_ne rfl) nofun
      exact Double.rank_ne rfl hs.right
  case text | array => cases hr

theorem toText_of_quotes (s t : String) :
    toText (array [text (s ++ "', '" ++ t)]) = toText (array [text s, text t]) := by
  simp [toText, render, renderItems]

end Value

-- A failure with the value that was seen, which does not meet a condition.
structure Condition.MissedBy (c : Condition) (expectation : String) (f : Failure) : Prop where
  expected : f.expectation = expectation
  unmet : f.lastValue.any c.holds = false

namespace Checker

variable {σ : Type} {k : Checker σ} {pv full expectation : String} {c : Condition}
  {o : AssertOptions} {source : Source} {timeout : Span} {s : σ} {f : Failure} {v : Value}

theorem conclude_eq_failed_iff {e : Evaluation} :
    conclude full timeout e = .error (.failed f) ↔ e = .ok (.failure f) := by
  rcases e with e | _ | g
  case error => cases e <;> simp [conclude, AssertError.ofAccess, AccessError.isRetryable]
  all_goals simp [conclude]

theorem missed_of_look (h : (k.look full source c expectation s).1 = .ok (.failure f)) :
    c.MissedBy expectation f := by
  have hl : (k.look full source c expectation s).1 =
      (k.observe full source s).1.map (judge c expectation) := rfl
  rw [hl] at h
  cases ho : (k.observe full source s).1
  case error => simp [ho, Except.map] at h
  case ok v =>
    rw [ho] at h
    cases hv : v.any c.holds
    case true => simp [Except.map, judge, hv] at h
    case false =>
      simp only [Except.map, judge, hv, Bool.false_eq_true, if_false] at h
      cases h
      exact ⟨rfl, hv⟩

theorem missed_of_check (h : ((k.check pv source c o).run s).1 = .error (.failed f)) :
    c.MissedBy (k.expectationOf pv c o) f := by
  let look := k.look (k.fullName pv) source c (k.expectationOf pv c o)
  have ⟨n, hn, _⟩ :=
    Clock.pollUntil_eq_polled k.transport.toClock k.pause (k.deadline o s) look s
  have hp : k.poll pv source c o s = k.transport.polled k.pause look s n := hn
  rw [run_check, hp] at h
  exact missed_of_look (conclude_eq_failed_iff.mp h)

theorem missed_of_assertPosted (h : ((k.assertPosted pv c o).run s).1 = .error (.failed f)) :
    c.MissedBy (k.expectationOf pv c o) f := by
  rcases hm : Monitor.start k.transport (k.fullName pv) s with ⟨r, t⟩
  have ha := Assertion.run_ofAccess hm
  cases r
  case error e =>
    rw [assertPosted, Assertion.run_bind_of_error ha] at h
    cases h
  case ok m =>
    rw [assertPosted, Assertion.run_bind_of_ok ha] at h
    have hc : ((k.check pv (.monitor m) c o).run t).1 = .error (.failed f) := h
    exact missed_of_check hc

theorem confusable_of_missed (hv : v.nanFree) (hm : (Condition.equals v).MissedBy expectation f)
    (h : Value.textOf f.lastValue = v.toText) :
    ∃ as bs, f.lastValue = some (.array as) ∧ v = .array bs ∧ Value.Confusable as bs := by
  have hu := hm.unmet
  cases hl : f.lastValue
  case none =>
    rw [hl] at h
    exact absurd h.symm v.toText_ne_none
  case some w =>
    rw [hl] at h hu
    rcases Value.of_toText_eq (a := w) h with rfl | ⟨as, bs, rfl, rfl, hc⟩
    case inl =>
      have hs : w.same w = false := hu
      rw [(Value.same_self_iff w).mpr hv] at hs
      cases hs
    case inr => exact ⟨as, bs, rfl, rfl, hc⟩

-- A text in a diagnostic belongs to one value only, unless it is the text of arrays that can be
-- confused. So a demand for a value that has failed shows two values that read differently, or two
-- such arrays.
theorem values_read_apart_unless_confusable (k : Checker σ) (pv : String) (o : AssertOptions)
    (s : σ) :
    (∀ a b : Value, a.toText = b.toText →
      a = b ∨ ∃ as bs, a = .array as ∧ b = .array bs ∧ Value.Confusable as bs) ∧
    ∀ (v : Value) (f : Failure), v.nanFree →
      ((k.assertValue pv (.equals v) o).run s).1 = .error (.failed f) ∨
        ((k.assertPosted pv (.equals v) o).run s).1 = .error (.failed f) →
      f.message = o.message.getD
          ("Expected PV '" ++ k.fullName pv ++ "' to have value " ++ v.toText ++ ".") ++
        "\nFinal PV value was " ++ Value.textOf f.lastValue ∧
      (Value.textOf f.lastValue = v.toText →
        ∃ as bs, f.lastValue = some (.array as) ∧ v = .array bs ∧ Value.Confusable as bs) := by
  refine ⟨fun a b => Value.of_toText_eq, fun v f hv h => ?_⟩
  have hm := h.elim missed_of_check missed_of_assertPosted
  refine ⟨?_, confusable_of_missed hv hm⟩
  rw [Failure.message, hm.expected]
  rfl

theorem values_read_apart_unless_confusable_of_nested_arrays :
    let v := Value.array [.array [.text "a'], ['b"]]
    let w := Value.array [.array [.text "a"], .array [.text "b"]]
    let s := Script.ofAnswers "TE:A" [.ok w]
    let f : Failure := ⟨"Expected PV 'TE:A' to have value [['a'], ['b']].", some w⟩
    w.toText = v.toText ∧ v.nanFree ∧
    ((Checker.hasty.assertValue "A" (.equals v) { timeout := some 0 }).run s).1 =
      .error (.failed f) ∧
    (w = v ∨ ∃ as bs, w = .array as ∧ v = .array bs ∧ Value.Confusable as bs) ∧
    ∃ as bs, f.lastValue = some (.array as) ∧ v = .array bs ∧ Value.Confusable as bs := by
  intro v w s f
  have ht : w.toText = v.toText := by decide
  have hr : ((Checker.hasty.assertValue "A" (.equals v) { timeout := some 0 }).run s).1 =
      .error (.failed f) := by
    rw [run_assertValue_of_no_time rfl rfl]
    rfl
  have ⟨hd, hf⟩ :=
    values_read_apart_unless_confusable Checker.hasty "A" { timeout := some 0 } s
  exact ⟨ht, rfl, hr, hd w v ht, (hf v f rfl (.inl hr)).right ht⟩

-- The text in the only item of an array looks like two items, and a failed assertion shows the
-- array like the one with these two items that was demanded.
theorem different_arrays_read_alike :
    let a := Value.array [.text "a', 'b"]
    let b := Value.array [.text "a", .text "b"]
    let f : Failure := ⟨"Expected PV 'TE:A' to have value ['a', 'b'].", some a⟩
    a.nanFree ∧ b.nanFree ∧ a ≠ b ∧ a.toText = b.toText ∧
    ((Checker.hasty.assertValue "A" (.equals b) { timeout := some 0 }).run
      (.ofAnswers "TE:A" [.ok a])).1 = .error (.failed f) ∧
    f.message = "Expected PV 'TE:A' to have value ['a', 'b'].\nFinal PV value was ['a', 'b']" := by
  intro a b f
  refine ⟨rfl, rfl, ?_, Value.toText_of_quotes "a" "b", ?_, by decide⟩
  case refine_1 => exact fun h => absurd (congrArg List.length (Value.array.inj h)) (by decide)
  case refine_2 =>
    rw [run_assertValue_of_no_time rfl rfl]
    rfl

end Checker
end Readback
