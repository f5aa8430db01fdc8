/-!
# Keyed entries

Entries listed in the order in which their keys were first set. Setting a key again keeps its place.
Main statements: the entries, looking up a key, and the keys after setting one.
-/

namespace Obsplan

/-- Entries with distinct keys in the order in which the keys were first set. -/
structure Keyed (κ : Type) (β : Type) where
  entries : List (κ × β) := []

namespace Keyed

variable {κ β : Type} [DecidableEq κ]

def empty : Keyed κ β := ⟨[]⟩

def getIn (k : κ) : List (κ × β) → Option β
  | [] => none
  | (l, x) :: rest => if l = k then some x else getIn k rest

def get? (m : Keyed κ β) (k : κ) : Option β := getIn k m.entries

/-- Entries with one of them set. -/
def setIn (k : κ) (x : β) : List (κ × β) → List (κ × β)
  | [] => [(k, x)]
  | (l, y) :: rest => if l = k then (k, x) :: rest else (l, y) :: setIn k x rest

/-- The entries with one of them set. -/
def insert (m : Keyed κ β) (k : κ) (x : β) : Keyed κ β := ⟨setIn k x m.entries⟩

def keys (m : Keyed κ β) : List κ := m.entries.map Prod.fst

/-- The entries in the order of their keys. -/
def values (m : Keyed κ β) : List β := m.entries.map Prod.snd

def size (m : Keyed κ β) : Nat := m.entries.length

/-- The entries that pass a test. -/
def keep (test : κ → β → Bool) (m : Keyed κ β) : Keyed κ β :=
  ⟨m.entries.filter fun e => test e.1 e.2⟩

theorem mem_of_get? {m : Keyed κ β} {k : κ} {x : β} (h : m.get? k = some x) :
    (k, x) ∈ m.entries := by
  obtain ⟨es⟩ := m
  simp only [get?] at h
  induction es with
  | nil => simp [getIn] at h
  | cons e es ih =>
    obtain ⟨j, y⟩ := e
    by_cases hj : j = k
    · simp only [getIn, hj, if_true, Option.some.injEq] at h
      simp [hj, h]
    · simp only [getIn, hj, if_false] at h
      exact List.mem_cons_of_mem _ (ih h)

theorem mem_keys_of_get? {m : Keyed κ β} {k : κ} {x : β} (h : m.get? k = some x) : k ∈ m.keys :=
  List.mem_map_of_mem (mem_of_get? h)

theorem mem_insert {m : Keyed κ β} {k : κ} {x : β} {e : κ × β}
    (h : e ∈ (m.insert k x).entries) : e = (k, x) ∨ e ∈ m.entries := by
  obtain ⟨es⟩ := m
  simp only [insert] at h
  induction es with
  | nil => simpa [setIn] using h
  | cons d es ih =>
    obtain ⟨j, y⟩ := d
    by_cases hj : j = k
    · simp only [setIn, hj, if_true, List.mem_cons] at h
      rcases h with h | h
      · exact .inl h
      · exact .inr (List.mem_cons_of_mem _ h)
    · simp only [setIn, hj, if_false, List.mem_cons] at h
      rcases h with h | h
      · exact .inr (h ▸ List.mem_cons_self)
      · exact (ih h).imp_right (List.mem_cons_of_mem _)

theorem get?_insert (m : Keyed κ β) (k l : κ) (x : β) :
    (m.insert k x).get? l = if k = l then some x else m.get? l := by
  obtain ⟨es⟩ := m
  simp only [insert, get?]
  induction es with
  | nil => simp [setIn, getIn]
  | cons e es ih =>
    obtain ⟨j, y⟩ := e
    by_cases hj : j = k
    · subst hj
      by_cases hl : j = l <;> simp [setIn, getIn, hl]
    · by_cases hl : j = l
      · subst hl
        have hk : ¬ k = j := fun h => hj h.symm
        simp [setIn, getIn, hj, hk]
      · simp [setIn, getIn, hj, hl, ih]

theorem keys_insert (m : Keyed κ β) (k : κ) (x : β) :
    (m.insert k x).keys = if k ∈ m.keys then m.keys else m.keys ++ [k] := by
  obtain ⟨es⟩ := m
  simp only [insert, keys]
  induction es with
  | nil => simp [setIn]
  | cons e es ih =>
    obtain ⟨j, y⟩ := e
    by_cases hj : j = k
    · simp [setIn, hj]
    · have hk : ¬ k = j := fun h => hj h.symm
      simp only [setIn, hj, if_false, List.map_cons, ih, List.mem_cons, hk, false_or]
      by_cases hm : k ∈ es.map Prod.fst <;> simp [hm]

theorem get?_eq_none {m : Keyed κ β} {k : κ} : m.get? k = none ↔ k ∉ m.keys := by
  obtain ⟨es⟩ := m
  simp only [get?, keys]
  induction es with
  | nil => simp [getIn]
  | cons e es ih =>
    obtain ⟨j, y⟩ := e
    by_cases hj : j = k
    · simp [getIn, hj]
    · have hk : ¬ k = j := fun h => hj h.symm
      simp only [getIn, hj, if_false, List.map_cons, List.mem_cons, hk, false_or, ih]

/-- Setting a key to what it has changes nothing. -/
theorem insert_of_get? {m : Keyed κ β} {k : κ} {x : β} (h : m.get? k = some x) :
    m.insert k x = m := by
  obtain ⟨es⟩ := m
  simp only [get?] at h
  simp only [insert, mk.injEq]
  induction es with
  | nil => simp [getIn] at h
  | cons e es ih =>
    obtain ⟨j, y⟩ := e
    by_cases hj : j = k
    · simp only [getIn, hj, if_true, Option.some.injEq] at h
      simp [setIn, hj, h]
    · simp only [getIn, hj, if_false] at h
      simp [setIn, hj, ih h]

/-- Setting a key that is there changes its entry in its place. -/
theorem exists_insert {m : Keyed κ β} {k : κ} {y : β} (h : m.get? k = some y) (x : β) :
    ∃ before after, m.entries = before ++ (k, y) :: after ∧
      (m.insert k x).entries = before ++ (k, x) :: after := by
  obtain ⟨es⟩ := m
  simp only [get?] at h
  simp only [insert]
  induction es with
  | nil => simp [getIn] at h
  | cons e es ih =>
    obtain ⟨j, z⟩ := e
    by_cases hj : j = k
    · simp only [getIn, hj, if_true, Option.some.injEq] at h
      exact ⟨[], es, by simp [hj, h], by simp [setIn, hj]⟩
    · simp only [getIn, hj, if_false] at h
      obtain ⟨before, after, hes, hset⟩ := ih h
      exact ⟨(j, z) :: before, after, by simp [hes], by simp [setIn, hj, hset]⟩

theorem entries_insert_of_notMem {m : Keyed κ β} {k : κ} (x : β) (h : k ∉ m.keys) :
    (m.insert k x).entries = m.entries ++ [(k, x)] := by
  obtain ⟨es⟩ := m
  simp only [keys] at h
  simp only [insert]
  induction es with
  | nil => simp [setIn]
  | cons e es ih =>
    obtain ⟨j, y⟩ := e
    simp only [List.map_cons, List.mem_cons, not_or] at h
    have hj : ¬ j = k := fun heq => h.1 heq.symm
    simp [setIn, hj, ih h.2]

end Keyed

end Obsplan
