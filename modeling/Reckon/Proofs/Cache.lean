import Mathlib.Tactic.Common
import Reckon.Cache

/-!
What a cache is relied on for: `LeastRecentlyUsed` says what becomes of the entries where one is
looked up or put in, and the cache is shown to keep to it.
-/
namespace Reckon.Cache

section
variable {α β : Type}

/-- From the most to the least recently used. -/
def keys (c : Cache α β) : List α :=
  c.entries.map Prod.fst

@[simp] theorem keys_empty (capacity : Nat) : (empty capacity : Cache α β).keys = [] := rfl

variable [BEq α]

/-- The laws of looking an entry up and of putting one in. -/
structure LeastRecentlyUsed (get? : Cache α β → α → Option (β × Cache α β))
    (put : Cache α β → α → β → Cache α β) : Prop where
  /-- A key is found if it has an entry, and what is found is an entry of it. -/
  isSome_get? {c key} : (get? c key).isSome ↔ key ∈ c.keys
  mem_of_get? {c c' key value} : get? c key = some (value, c') → (key, value) ∈ c.entries
  /-- An entry that is looked up becomes the most recently used one. -/
  keys_of_get? {c c' key value} : get? c key = some (value, c') →
    c'.keys = key :: c.keys.filter (· != key)
  entries_of_get? {c c' key value} : get? c key = some (value, c') → c'.entries ⊆ c.entries
  capacity_of_get? {c c' key value} : get? c key = some (value, c') → c'.capacity = c.capacity
  /-- An entry that is put in is the most recently used one, and those go for which there is no
  room. -/
  keys_put (c key value) : (put c key value).keys =
    (key :: c.keys.filter (· != key)).take c.capacity
  entries_put (c key value) : (put c key value).entries ⊆ (key, value) :: c.entries
  capacity_put (c key value) : (put c key value).capacity = c.capacity

theorem get?_eq_some {c c' : Cache α β} {key : α} {value : β} :
    c.get? key = some (value, c') ↔ c.find? key = some value ∧
      c' = { c with entries := (key, value) :: c.entries.filter (·.1 != key) } := by
  simp only [get?, Option.map_eq_some_iff, Prod.mk.injEq]
  constructor
  · rintro ⟨_, hf, rfl, rfl⟩
    exact ⟨hf, rfl⟩
  · rintro ⟨hf, rfl⟩
    exact ⟨value, hf, rfl, rfl⟩

theorem mem_entries_of_find? [LawfulBEq α] {c : Cache α β} {key : α} {value : β}
    (h : c.find? key = some value) : (key, value) ∈ c.entries := by
  obtain ⟨before, rest, hc, -⟩ := List.lookup_eq_some_iff.mp h
  simp [hc]

theorem leastRecentlyUsed [LawfulBEq α] :
    LeastRecentlyUsed (get? : Cache α β → α → Option (β × Cache α β)) put where
  isSome_get? := by
    simp [get?, find?, keys]
  mem_of_get? h := mem_entries_of_find? (get?_eq_some.mp h).1
  keys_of_get? h := by
    obtain ⟨-, rfl⟩ := get?_eq_some.mp h
    simp [keys, List.filter_map, Function.comp_def]
  entries_of_get? h := by
    obtain ⟨hf, rfl⟩ := get?_eq_some.mp h
    exact List.cons_subset.mpr ⟨mem_entries_of_find? hf, List.filter_sublist.subset⟩
  capacity_of_get? h := by
    obtain ⟨-, rfl⟩ := get?_eq_some.mp h
    rfl
  keys_put c key value := by
    simp [keys, put, List.map_take, List.filter_map, Function.comp_def]
  entries_put c key value :=
    List.Subset.trans (List.take_subset _ _) (List.cons_subset_cons _ List.filter_sublist.subset)
  capacity_put c key value := rfl

/-- An entry is used: looked up, and put in if it is not there. -/
def Uses (c : Cache α β) (key : α) (value : β) (c' : Cache α β) : Prop :=
  c.get? key = some (value, c') ∨ c.get? key = none ∧ c' = c.put key value

section
variable [LawfulBEq α] {c c' : Cache α β} {key : α} {value : β}

theorem contains_iff : c.contains key ↔ key ∈ c.keys := by
  have hget : c.contains key = (c.get? key).isSome := by simp [contains, get?]
  rw [hget]
  exact leastRecentlyUsed.isSome_get?

theorem Uses.capacity (h : c.Uses key value c') : c'.capacity = c.capacity := by
  obtain hget | ⟨-, rfl⟩ := h
  · exact leastRecentlyUsed.capacity_of_get? hget
  · exact leastRecentlyUsed.capacity_put c key value

/-- Using an entry brings in no other one. -/
theorem Uses.entries (h : c.Uses key value c') : c'.entries ⊆ (key, value) :: c.entries := by
  obtain hget | ⟨-, rfl⟩ := h
  · exact List.subset_cons_of_subset _ (leastRecentlyUsed.entries_of_get? hget)
  · exact leastRecentlyUsed.entries_put c key value

end

end

end Reckon.Cache
