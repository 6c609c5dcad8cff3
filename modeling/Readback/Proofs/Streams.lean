import Readback.Proofs.Readiness

namespace Readback.Server

variable {s t u : Server} {pv name : String} {names : Set String} {moment : Nat}

-- Nothing happens by itself but streams, and none of them feeds a record with one of some names.
def StreamsApart (names : Set String) (s : Server) : Prop :=
  ∀ task ∈ s.agenda, ∃ due period pv values, task = .stream due period pv values ∧ pv ∉ names

-- Time passes. Streams give values to other records, and make those that are missing.
structure Drifts (names : Set String) (s t : Server) : Prop where
  streams : t.StreamsApart names
  links : t.links = s.links
  writes : t.writes = s.writes
  clock : s.clock ≤ t.clock
  same : ∀ pv ∈ names, t.records.find? pv = s.records.find? pv
  kept : ∀ pv r, s.records.find? pv = some r →
    ∃ v, t.records.find? pv = some { r with value := v }
  made : ∀ pv r, s.records.find? pv = none → t.records.find? pv = some r → r.reachableFrom = none

theorem writes_set (s : Server) (pv : String) (v : Value) : (s.set pv v).writes = s.writes := by
  unfold set notify
  split <;> rfl

theorem agenda_set (s : Server) (pv : String) (v : Value) : (s.set pv v).agenda = s.agenda :=
  agenda_notify ..

namespace Drifts

theorem of_records (hs : t.StreamsApart names) (hl : t.links = s.links) (hw : t.writes = s.writes)
    (hc : s.clock ≤ t.clock) (hr : t.records = s.records) : Drifts names s t where
  streams := hs
  links := hl
  writes := hw
  clock := hc
  same _ _ := by rw [hr]
  kept _ r h := ⟨r.value, by rw [hr, h]⟩
  made _ _ h h' := by simp [hr, h] at h'

theorem refl (h : s.StreamsApart names) : Drifts names s s :=
  .of_records h rfl rfl le_rfl rfl

theorem trans (h : Drifts names s t) (h' : Drifts names t u) : Drifts names s u where
  streams := h'.streams
  links := h'.links.trans h.links
  writes := h'.writes.trans h.writes
  clock := h.clock.trans h'.clock
  same pv hn := (h'.same pv hn).trans (h.same pv hn)
  kept pv r hr := by
    have ⟨_, hv⟩ := h.kept pv r hr
    have ⟨v, hv⟩ := h'.kept pv _ hv
    exact ⟨v, hv⟩
  made pv r hn hr := by
    cases ht : t.records.find? pv
    case none => exact h'.made pv r ht hr
    case some r' =>
      have ⟨v, hv⟩ := h'.kept pv r' ht
      cases hv.symm.trans hr
      exact h.made pv r' hn ht

theorem set (hs : s.StreamsApart names) (hn : pv ∉ names) (v : Value) :
    Drifts names s (s.set pv v) where
  streams := by
    rw [StreamsApart, agenda_set]
    exact hs
  links := links_set s pv v
  writes := writes_set s pv v
  clock := (clock_set s pv v).ge
  same q hq := by
    rw [find?_set, if_neg]
    rintro rfl
    exact hn hq
  kept q r hr := by
    rw [find?_set]
    split
    case isTrue he =>
      cases he
      exact ⟨v, by rw [hr]; rfl⟩
    case isFalse => exact ⟨r.value, hr⟩
  made q r hq hr := by
    rw [find?_set] at hr
    split at hr
    case isTrue he =>
      cases he
      rw [hq] at hr
      cases hr
      rfl
    case isFalse => simp [hq] at hr

end Drifts

theorem upTo_stream (moment due period : Nat) (pv : String) (values : Series) :
    (∀ op ∈ ((Task.stream due period pv values).upTo moment).1,
      op.1 ≤ moment ∧ ∃ v, op.2 = .set pv v) ∧
      ∃ due' values', ((Task.stream due period pv values).upTo moment).2 =
        some (.stream due' period pv values') := by
  rw [Task.upTo]
  split
  case isFalse => exact ⟨nofun, _, _, rfl⟩
  case isTrue hd =>
    refine ⟨fun op ho => ?_, _, _, rfl⟩
    obtain ⟨i, hi, rfl⟩ := List.mem_mapIdx.mp ho
    rw [Series.length_take] at hi
    have hm : i * max period 1 ≤ moment - due :=
      (Nat.mul_le_mul_right _ (Nat.le_of_lt_succ hi)).trans (Nat.div_mul_le_self ..)
    exact ⟨by omega, _, rfl⟩

theorem drifts_advance (hs : s.StreamsApart names) (moment : Nat) :
    Drifts names s (s.advance moment) ∧ moment ≤ (s.advance moment).clock := by
  refine ⟨advance_induction ?start ?step ?finish, Nat.le_max_right ..⟩
  case start =>
    refine .of_records (fun rest hr => ?_) rfl rfl le_rfl rfl
    simp only [List.mem_filterMap, List.mem_map] at hr
    obtain ⟨_, ⟨task, ht, rfl⟩, he⟩ := hr
    obtain ⟨due, period, pv, values, rfl, hn⟩ := hs task ht
    have ⟨_, due', values', hr⟩ := upTo_stream moment due period pv values
    cases he.symm.trans hr
    exact ⟨due', period, pv, values', rfl, hn⟩
  case step =>
    intro task ht op ho t h
    obtain ⟨due, period, pv, values, rfl, hn⟩ := hs task ht
    have ⟨_, v, hv⟩ := (upTo_stream moment due period pv values).left op ho
    let w : Server := { t with clock := max t.clock op.1 }
    have hw : Drifts names t w := .of_records h.streams rfl rfl (Nat.le_max_left ..) rfl
    rw [hv]
    exact h.trans (hw.trans (.set hw.streams hn v))
  case finish =>
    exact fun t h => h.trans (.of_records h.streams rfl rfl (Nat.le_max_left ..) rfl)

theorem drifts_sleep (hs : s.StreamsApart names) (d : Nat) :
    Drifts names s (s.sleep d) ∧ s.clock + d ≤ (s.sleep d).clock :=
  drifts_advance hs (s.clock + d)

end Readback.Server
