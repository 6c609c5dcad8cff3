namespace Readback

-- Things under names, in the order in which the names came first.
structure Registry (α : Type) where
  entries : List (String × α)
  nodup : (entries.map Prod.fst).Nodup

namespace Registry

variable {α : Type}

def empty : Registry α := ⟨[], by simp⟩

def keys (r : Registry α) : List String := r.entries.map Prod.fst

def find? (r : Registry α) (name : String) : Option α := r.entries.lookup name

def contains (r : Registry α) (name : String) : Bool := (r.find? name).isSome

def putIn (name : String) (a : α) : List (String × α) → List (String × α)
  | [] => [(name, a)]
  | e :: es => if e.1 == name then (name, a) :: es else e :: putIn name a es

theorem mem_keys_putIn {name k : String} {a : α} {es : List (String × α)} :
    k ∈ (putIn name a es).map Prod.fst ↔ k = name ∨ k ∈ es.map Prod.fst := by
  induction es with
  | nil => simp [putIn]
  | cons e es ih =>
    by_cases h : e.1 = name
    · simp [putIn, h]
    · simp only [putIn, beq_iff_eq, h, if_false, List.map_cons, List.mem_cons, ih]
      exact or_left_comm

theorem nodup_putIn {name : String} {a : α} {es : List (String × α)}
    (h : (es.map Prod.fst).Nodup) : ((putIn name a es).map Prod.fst).Nodup := by
  induction es with
  | nil => simp [putIn]
  | cons e es ih =>
    rw [List.map_cons, List.nodup_cons] at h
    by_cases he : e.1 = name
    · simp only [putIn, beq_iff_eq, he, if_true, List.map_cons, List.nodup_cons]
      exact ⟨he ▸ h.1, h.2⟩
    · simp only [putIn, beq_iff_eq, he, if_false, List.map_cons, List.nodup_cons]
      refine ⟨fun hm => ?_, ih h.2⟩
      rcases mem_keys_putIn.1 hm with hm | hm
      · exact he hm
      · exact h.1 hm

theorem lookup_putIn {name k : String} {a : α} {es : List (String × α)} :
    (putIn name a es).lookup k = if k = name then some a else es.lookup k := by
  induction es with
  | nil =>
    by_cases hk : k = name
    · simp [putIn, hk]
    · have hk' : (k == name) = false := by simpa using hk
      simp [putIn, List.lookup_cons, hk, hk']
  | cons e es ih =>
    obtain ⟨n, b⟩ := e
    by_cases hn : n = name
    · subst hn
      by_cases hk : k = n
      · simp [putIn, hk]
      · have hk' : (k == n) = false := by simpa using hk
        simp [putIn, List.lookup_cons, hk, hk']
    · by_cases hk : k = n
      · subst hk
        simp [putIn, hn]
      · have hk' : (k == n) = false := by simpa using hk
        simp [putIn, List.lookup_cons, hn, hk', ih]

def put (r : Registry α) (name : String) (a : α) : Registry α :=
  ⟨putIn name a r.entries, nodup_putIn r.nodup⟩

theorem putIn_of_lookup {name : String} {a : α} {es : List (String × α)}
    (h : es.lookup name = some a) : putIn name a es = es := by
  induction es with
  | nil => cases h
  | cons e es ih =>
    obtain ⟨n, b⟩ := e
    by_cases hn : n = name
    · subst hn
      rw [List.lookup_cons_self, Option.some.injEq] at h
      simp [putIn, h]
    · have hn' : (name == n) = false := by simpa using Ne.symm hn
      rw [List.lookup_cons, hn'] at h
      simp [putIn, hn, ih h]

@[simp] theorem find?_empty (k : String) : (empty : Registry α).find? k = none := rfl

@[simp] theorem find?_put (r : Registry α) (name k : String) (a : α) :
    (r.put name a).find? k = if k = name then some a else r.find? k :=
  lookup_putIn

def erase (r : Registry α) (name : String) : Registry α where
  entries := r.entries.filter fun e => e.1 != name
  nodup := r.nodup.sublist (List.filter_sublist.map _)

@[simp] theorem find?_erase (r : Registry α) (name k : String) :
    (r.erase name).find? k = if k = name then none else r.find? k := by
  obtain ⟨es, h⟩ := r
  simp only [erase, find?]
  clear h
  induction es with
  | nil => simp
  | cons e es ih =>
    obtain ⟨n, a⟩ := e
    by_cases hn : n = name
    · subst hn
      by_cases hk : k = n
      · simp [hk] at ih ⊢
        exact ih
      · have hk' : (k == n) = false := by simpa using hk
        simpa [List.lookup_cons, hk, hk'] using ih
    · by_cases hk : k = n
      · subst hk
        simp [hn]
      · have hk' : (k == n) = false := by simpa using hk
        simpa [List.lookup_cons, hn, hk'] using ih

def modify (r : Registry α) (name : String) (f : α → α) : Registry α :=
  match r.find? name with
  | some a => r.put name (f a)
  | none => r

@[simp] theorem find?_modify (r : Registry α) (name k : String) (f : α → α) :
    (r.modify name f).find? k = if k = name then (r.find? k).map f else r.find? k := by
  unfold modify
  split
  · next a h => by_cases hk : k = name <;> simp [hk, h]
  · next h => by_cases hk : k = name <;> simp [hk, h]

theorem modify_of_fixed {r : Registry α} {name : String} {f : α → α}
    (h : ∀ a, r.find? name = some a → f a = a) : r.modify name f = r := by
  unfold modify
  split
  · next a ha =>
    obtain ⟨es, hn⟩ := r
    simp only [put, h a ha, putIn_of_lookup ha]
  · rfl

theorem mem_keys_iff (r : Registry α) (k : String) : k ∈ r.keys ↔ (r.find? k).isSome := by
  obtain ⟨es, h⟩ := r
  simp only [keys, find?]
  clear h
  induction es with
  | nil => simp
  | cons e es ih =>
    obtain ⟨n, a⟩ := e
    by_cases hk : k = n
    · simp [hk]
    · have hk' : (k == n) = false := by simpa using hk
      simp [List.lookup_cons, hk, hk']

end Registry
end Readback
