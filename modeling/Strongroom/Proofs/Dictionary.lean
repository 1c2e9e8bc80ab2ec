import Mathlib
import Strongroom.Dictionary

/-! What is found in a dictionary after a change. Since the entries ascend strictly, the look-ups
decide which dictionary it is, so that a change can be undone exactly. -/

namespace Strongroom.Dictionary

variable {α : Type}

theorem lookup_insertInto (key other : String) (value : α) (entries : List (String × α)) :
    lookup other (insertInto key value entries) =
      if key = other then some value else lookup other entries := by
  induction entries with
  | nil => simp [insertInto, lookup]
  | cons e rest ih =>
    obtain ⟨k, v⟩ := e
    unfold insertInto
    split
    · rfl
    · split
      · rename_i hk
        subst hk
        by_cases h : key = other <;> simp [lookup, h]
      · rename_i hk
        by_cases h : k = other
        · have hko : key ≠ other := fun he => hk (he.trans h.symm)
          simp [lookup, h, hko]
        · simp [lookup, h, ih]

theorem lookup_filter_ne (key other : String) (entries : List (String × α)) :
    lookup other (entries.filter (·.1 ≠ key)) =
      if key = other then none else lookup other entries := by
  induction entries with
  | nil => simp [lookup]
  | cons e rest ih =>
    obtain ⟨k, v⟩ := e
    by_cases hk : k = key
    · subst hk
      rw [List.filter_cons_of_neg (by simp), ih]
      by_cases h : k = other <;> simp [lookup, h]
    · rw [List.filter_cons_of_pos (by simpa using hk), lookup, lookup, ih]
      by_cases h : k = other
      · have hko : key ≠ other := fun he => hk (h.trans he.symm)
        simp [h, hko]
      · simp [h]

theorem mem_of_lookup_eq_some {key : String} {value : α} {entries : List (String × α)}
    (h : lookup key entries = some value) : (key, value) ∈ entries := by
  induction entries with
  | nil => cases h
  | cons e rest ih =>
    obtain ⟨k, v⟩ := e
    by_cases hk : k = key
    · rw [lookup, if_pos hk] at h
      cases h
      simp [hk]
    · rw [lookup, if_neg hk] at h
      exact List.mem_cons_of_mem _ (ih h)

theorem lookup_eq_some_iff {key : String} {value : α} {entries : List (String × α)}
    (hasc : Ascending entries) : lookup key entries = some value ↔ (key, value) ∈ entries := by
  refine ⟨mem_of_lookup_eq_some, fun h => ?_⟩
  induction entries with
  | nil => cases h
  | cons e rest ih =>
    obtain ⟨k, v⟩ := e
    obtain ⟨hlt, hrest⟩ := List.pairwise_cons.1 hasc
    rcases List.mem_cons.1 h with h | h
    · cases h
      simp [lookup]
    · have hne : k ≠ key := ne_of_lt (hlt _ h)
      rw [lookup, if_neg hne]
      exact ih hrest h

theorem get?_insert (d : Dictionary α) (key other : String) (value : α) :
    (d.insert key value).get? other = if key = other then some value else d.get? other :=
  lookup_insertInto key other value d.entries

@[simp]
theorem get?_insert_self (d : Dictionary α) (key : String) (value : α) :
    (d.insert key value).get? key = some value := by
  rw [get?_insert, if_pos rfl]

theorem get?_insert_of_ne (d : Dictionary α) {key other : String} (value : α) (h : key ≠ other) :
    (d.insert key value).get? other = d.get? other := by
  rw [get?_insert, if_neg h]

theorem get?_erase (d : Dictionary α) (key other : String) :
    (d.erase key).get? other = if key = other then none else d.get? other :=
  lookup_filter_ne key other d.entries

@[simp]
theorem get?_erase_self (d : Dictionary α) (key : String) : (d.erase key).get? key = none := by
  rw [get?_erase, if_pos rfl]

theorem get?_erase_of_ne (d : Dictionary α) {key other : String} (h : key ≠ other) :
    (d.erase key).get? other = d.get? other := by
  rw [get?_erase, if_neg h]

theorem get?_assign (d : Dictionary α) (key other : String) (value? : Option α) :
    (d.assign key value?).get? other = if key = other then value? else d.get? other := by
  cases value? with
  | none => exact get?_erase d key other
  | some value => exact get?_insert d key other value

theorem get?_eq_some_iff {d : Dictionary α} {key : String} {value : α} :
    d.get? key = some value ↔ (key, value) ∈ d.entries :=
  lookup_eq_some_iff d.ascending

theorem mem_values {d : Dictionary α} {value : α} :
    value ∈ d.values ↔ ∃ key, d.get? key = some value := by
  simp only [values, List.mem_map, get?_eq_some_iff, Prod.exists, exists_eq_right]

theorem mem_keys {d : Dictionary α} {key : String} :
    key ∈ d.keys ↔ ∃ value, d.get? key = some value := by
  simp only [keys, List.mem_map, get?_eq_some_iff, Prod.exists, exists_and_right, exists_eq_right]

theorem mem_keys_insert {d : Dictionary α} {key other : String} {value : α} :
    other ∈ (d.insert key value).keys ↔ other ∈ d.keys ∨ other = key := by
  rw [mem_keys, mem_keys, get?_insert]
  by_cases hkey : key = other
  · simp [hkey]
  · simp [hkey, Ne.symm hkey]

theorem mem_keys_ofListWith {join : α → α → α} {pairs : List (String × α)} {key : String} :
    key ∈ (ofListWith join pairs).keys ↔ key ∈ pairs.map (·.1) := by
  induction pairs using List.reverseRecOn with
  | nil => exact Iff.rfl
  | append_singleton pairs pair ih =>
    rw [ofListWith, List.foldl_append, List.foldl_cons, List.foldl_nil, mem_keys_insert,
      ← ofListWith, ih, List.map_append, List.mem_append, List.map_singleton, List.mem_singleton]

instance : Std.Irrefl fun a b : String × α => a.1 < b.1 := ⟨fun a => lt_irrefl a.1⟩

instance : Std.Antisymm fun a b : String × α => a.1 < b.1 :=
  ⟨fun _ _ hab hba => absurd hba (lt_asymm hab)⟩

theorem eq_of_get?_eq {d e : Dictionary α} (h : ∀ key, d.get? key = e.get? key) : d = e := by
  obtain ⟨xs, hxs⟩ := d
  obtain ⟨ys, hys⟩ := e
  congr
  refine hxs.eq_of_mem_iff hys fun ⟨key, value⟩ => ?_
  rw [← lookup_eq_some_iff hxs, ← lookup_eq_some_iff hys]
  exact Eq.congr_left (h key)

theorem assign_get?_eq {d e : Dictionary α} {key : String}
    (h : ∀ other, key ≠ other → e.get? other = d.get? other) : e.assign key (d.get? key) = d := by
  refine eq_of_get?_eq fun other => ?_
  rw [get?_assign]
  split
  · rename_i hk
    rw [hk]
  · rename_i hk
    exact h other hk

theorem insert_of_get?_eq_some {d : Dictionary α} {key : String} {value : α}
    (h : d.get? key = some value) : d.insert key value = d := by
  have hassign : d.assign key (d.get? key) = d := assign_get?_eq fun _ _ => rfl
  rwa [h] at hassign

theorem insert_insert_of_get?_eq_some {d : Dictionary α} {key : String} {value : α}
    (h : d.get? key = some value) (other : α) : (d.insert key other).insert key value = d := by
  have hassign : (d.insert key other).assign key (d.get? key) = d :=
    assign_get?_eq fun _ hne => get?_insert_of_ne d other hne
  rwa [h] at hassign

end Strongroom.Dictionary
