/-!
Finite maps from text, kept as a list that ascends strictly by key, so that two maps with the same
look-ups are equal.
-/

namespace Strongroom

abbrev Ascending {α : Type} (entries : List (String × α)) : Prop :=
  entries.Pairwise fun a b => a.1 < b.1

structure Dictionary (α : Type) where
  entries : List (String × α)
  ascending : Ascending entries

namespace Dictionary

variable {α β : Type}

def lookup (key : String) : List (String × α) → Option α
  | [] => none
  | (k, v) :: rest => if k = key then some v else lookup key rest

def insertInto (key : String) (value : α) : List (String × α) → List (String × α)
  | [] => [(key, value)]
  | (k, v) :: rest =>
    if key < k then (key, value) :: (k, v) :: rest
    else if key = k then (key, value) :: rest
    else (k, v) :: insertInto key value rest

theorem mem_insertInto {key : String} {value : α} {entries : List (String × α)}
    {e : String × α} (h : e ∈ insertInto key value entries) : e = (key, value) ∨ e ∈ entries := by
  induction entries with
  | nil => exact .inl (by simpa [insertInto] using h)
  | cons x rest ih =>
    obtain ⟨k, v⟩ := x
    unfold insertInto at h
    split at h
    · simpa using h
    · split at h
      · rcases List.mem_cons.1 h with h | h
        · exact .inl h
        · exact .inr (List.mem_cons_of_mem _ h)
      · rcases List.mem_cons.1 h with h | h
        · exact .inr (h ▸ List.mem_cons_self)
        · exact (ih h).imp id (List.mem_cons_of_mem _)

theorem ascending_insertInto (key : String) (value : α) {entries : List (String × α)}
    (h : Ascending entries) : Ascending (insertInto key value entries) := by
  induction entries with
  | nil => simp [insertInto, Ascending]
  | cons x rest ih =>
    obtain ⟨k, v⟩ := x
    have hr := List.pairwise_cons.1 h
    unfold insertInto
    split
    · rename_i hk
      refine List.pairwise_cons.2 ⟨fun e he => ?_, h⟩
      rcases List.mem_cons.1 he with rfl | he
      · exact hk
      · exact String.lt_trans hk (hr.1 e he)
    · split
      · rename_i hk
        subst hk
        exact List.pairwise_cons.2 hr
      · rename_i h₁ h₂
        refine List.pairwise_cons.2 ⟨fun e he => ?_, ih hr.2⟩
        rcases mem_insertInto he with rfl | he
        · rcases String.le_total k key with hle | hle
          · exact String.not_le.1 fun hge => h₂ (String.le_antisymm hge hle)
          · exact absurd (String.le_antisymm hle (String.not_lt.1 h₁)) h₂
        · exact hr.1 e he

def empty : Dictionary α := ⟨[], List.Pairwise.nil⟩

instance : EmptyCollection (Dictionary α) := ⟨empty⟩

instance : Inhabited (Dictionary α) := ⟨empty⟩

def get? (d : Dictionary α) (key : String) : Option α := lookup key d.entries

def contains (d : Dictionary α) (key : String) : Bool := (d.get? key).isSome

def insert (d : Dictionary α) (key : String) (value : α) : Dictionary α :=
  ⟨insertInto key value d.entries, ascending_insertInto key value d.ascending⟩

def erase (d : Dictionary α) (key : String) : Dictionary α :=
  ⟨d.entries.filter (·.1 ≠ key), d.ascending.filter _⟩

/-- Makes `value?` the whole of what is held under `key`. -/
def assign (d : Dictionary α) (key : String) (value? : Option α) : Dictionary α :=
  match value? with
  | some value => d.insert key value
  | none => d.erase key

def toList (d : Dictionary α) : List (String × α) := d.entries

def keys (d : Dictionary α) : List String := d.entries.map (·.1)

def values (d : Dictionary α) : List α := d.entries.map (·.2)

/-- The union of the pairs; what comes later in the list under one key is combined with `join`. -/
def ofListWith (join : α → α → α) (pairs : List (String × α)) : Dictionary α :=
  pairs.foldl
    (fun d p => d.insert p.1 (match d.get? p.1 with | some held => join held p.2 | none => p.2)) ∅

end Dictionary

end Strongroom
