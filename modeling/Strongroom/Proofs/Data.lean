import Strongroom.Proofs.Work
import Strongroom.Renewal

/-! What becomes of the data when a credential gains a version or access lists are updated, seen
from the keys, and the two things that all data keep: every credential stands under the key of its
name, and its versions are of one kind. -/

namespace Strongroom

namespace Credential

def extended (c : Credential) (v : Version) : Credential := { c with later := c.later ++ [v] }

variable (c : Credential) (v : Version)

@[simp]
theorem kind_extended : (c.extended v).kind = c.kind := rfl

@[simp]
theorem versions_extended : (c.extended v).versions = c.versions ++ [v] := rfl

@[simp]
theorem latest_extended : (c.extended v).latest = v := by simp [latest, extended]

variable {c v}

theorem append_eq_ok {c' : Credential} :
    c.append v = .ok c' ↔ v.value.kind = c.kind ∧ c' = c.extended v := by
  unfold append
  split
  · rename_i hkind
    simp [hkind, extended, eq_comm]
  · rename_i hkind
    simp [hkind]

end Credential

namespace AccessList

def granting (list : AccessList) (p : Permission) : AccessList :=
  list.insert p.actor ((list.operationsOf p.actor).union p.operations)

def setting (list : AccessList) (p : Permission) : AccessList := list.insert p.actor p.operations

end AccessList

namespace StoreData

def holding (d : StoreData) (key : String) (c : Credential) : StoreData :=
  { d with credentials := d.credentials.insert key c }

def updating (d : StoreData) (key : String) (f : AccessList → AccessList) : StoreData :=
  { d with accessLists := d.accessLists.insert key (f ((d.accessLists.get? key).getD ∅)) }

def updatingAll (d : StoreData) (key : String) (f : AccessList → Permission → AccessList)
    (permissions : List Permission) : StoreData :=
  permissions.foldl (fun d p => d.updating key (f · p)) d

def permissionsOn (d : StoreData) (name : String) : List Permission :=
  ((d.accessList? name).getD ∅).permissions

variable (d : StoreData)

@[simp]
theorem get?_holding_self (key : String) (c : Credential) :
    (d.holding key c).credentials.get? key = some c := Dictionary.get?_insert_self _ _ _

theorem get?_holding_of_ne {key other : String} (c : Credential) (h : key ≠ other) :
    (d.holding key c).credentials.get? other = d.credentials.get? other :=
  Dictionary.get?_insert_of_ne _ _ h

@[simp]
theorem find?_holding_self (name : String) (c : Credential) :
    (d.holding (Naming.key name) c).find? name = some c := d.get?_holding_self _ _

theorem credentials_updatingAll (key : String) (f : AccessList → Permission → AccessList)
    (permissions : List Permission) :
    (d.updatingAll key f permissions).credentials = d.credentials := by
  induction permissions generalizing d with
  | nil => rfl
  | cons p rest ih => exact ih (d.updating key (f · p))

theorem accessLists_updatingAll_of_ne {key other : String}
    (f : AccessList → Permission → AccessList) (permissions : List Permission)
    (h : key ≠ other) :
    (d.updatingAll key f permissions).accessLists.get? other = d.accessLists.get? other := by
  induction permissions generalizing d with
  | nil => rfl
  | cons p rest ih =>
    refine (ih (d.updating key (f · p))).trans ?_
    exact Dictionary.get?_insert_of_ne _ _ h

/-- What holds of all data: every credential stands under the key of its name, and its versions are
of one kind. -/
structure Sound : Prop where
  keyed : ∀ {key c}, d.credentials.get? key = some c → Naming.key c.name = key
  uniform : ∀ {key c}, d.credentials.get? key = some c → ∀ v ∈ c.versions, v.value.kind = c.kind

variable {d}

theorem sound_empty : Sound ∅ where
  keyed h := by cases h
  uniform h := by cases h

theorem Sound.find?_name {name : String} {c : Credential} (hd : d.Sound)
    (h : d.find? name = some c) : d.find? c.name = some c := by
  rw [find?, hd.keyed h]
  exact h

theorem Sound.holding {key : String} {c : Credential} (hd : d.Sound)
    (hkey : Naming.key c.name = key) (hkind : ∀ v ∈ c.versions, v.value.kind = c.kind) :
    (d.holding key c).Sound := by
  have hcases : ∀ {other c'}, (d.holding key c).credentials.get? other = some c' →
      (key = other ∧ c' = c) ∨ d.credentials.get? other = some c' := by
    intro other c' h
    by_cases hother : key = other
    · subst hother
      rw [get?_holding_self] at h
      exact .inl ⟨rfl, (Option.some.inj h).symm⟩
    · exact .inr (by rwa [d.get?_holding_of_ne c hother] at h)
  constructor
  · intro other c' h
    rcases hcases h with ⟨rfl, rfl⟩ | h
    · exact hkey
    · exact hd.keyed h
  · intro other c' h
    rcases hcases h with ⟨rfl, rfl⟩ | h
    · exact hkind
    · exact hd.uniform h

theorem Sound.of_credentials_eq {d' : StoreData} (hd : d.Sound)
    (h : d'.credentials = d.credentials) : d'.Sound where
  keyed hc := hd.keyed (h ▸ hc)
  uniform hc := hd.uniform (h ▸ hc)

theorem Sound.first (hd : d.Sound) (id : FreshId) (name : String) (v : Version) :
    (d.holding (Naming.key name) ⟨id, name, v, []⟩).Sound := by
  refine Sound.holding hd rfl fun u hu => ?_
  rw [Credential.versions, List.mem_singleton] at hu
  rw [hu, Credential.kind]

theorem Sound.extended {name : String} {held : Credential} {v : Version} (hd : d.Sound)
    (hheld : d.find? name = some held) (hkind : v.value.kind = held.kind) :
    (d.holding (Naming.key name) (held.extended v)).Sound := by
  have hkey : Naming.key held.name = Naming.key name := hd.keyed hheld
  refine hd.holding hkey fun u hu => ?_
  rw [Credential.versions_extended] at hu
  rcases List.mem_append.1 hu with hu | hu
  · exact hd.uniform hheld u hu
  · rw [List.mem_singleton.1 hu, hkind, Credential.kind_extended]

theorem Sound.erase (hd : d.Sound) (key : String) (lists : Dictionary AccessList) :
    Sound ⟨d.credentials.erase key, lists⟩ := by
  have hmem : ∀ {other c}, (d.credentials.erase key).get? other = some c →
      d.credentials.get? other = some c := by
    intro other c h
    by_cases hother : key = other
    · rw [← hother, Dictionary.get?_erase_self] at h
      cases h
    · rwa [Dictionary.get?_erase_of_ne _ hother] at h
  exact ⟨fun h => hd.keyed (hmem h), fun h => hd.uniform (hmem h)⟩

/-- The data that come of a new version under the name: the next one of a credential of its kind,
or the first one of a credential that there was not. -/
inductive Gains (d : StoreData) (name : String) (v : Version) : StoreData → Prop
  | first (id : FreshId) (habsent : d.find? name = none) :
    Gains d name v (d.holding (Naming.key name) ⟨id, name, v, []⟩)
  | next {held : Credential} (hheld : d.find? name = some held)
    (hkind : v.value.kind = held.kind) :
    Gains d name v (d.holding (Naming.key name) (held.extended v))

theorem Gains.of_find?_eq_some {name : String} {v : Version} {d' : StoreData} {held : Credential}
    (h : d.Gains name v d') (hheld : d.find? name = some held) :
    v.value.kind = held.kind ∧ d' = d.holding (Naming.key name) (held.extended v) := by
  cases h with
  | first id habsent => cases habsent.symm.trans hheld
  | next hfound hkind =>
    cases hfound.symm.trans hheld
    exact ⟨hkind, rfl⟩

theorem Gains.of_find?_eq_none {name : String} {v : Version} {d' : StoreData}
    (h : d.Gains name v d') (habsent : d.find? name = none) :
    ∃ id, d' = d.holding (Naming.key name) ⟨id, name, v, []⟩ := by
  cases h with
  | first id _ => exact ⟨id, rfl⟩
  | next hfound _ => cases hfound.symm.trans habsent

/-- The data in which the credentials of the names, all different, have one more version each, at
the end, and everything else is as it was. -/
structure GrownAt (d : StoreData) (names : List String) (d' : StoreData) : Prop where
  distinct : (names.map Naming.key).Nodup
  grown : ∀ name ∈ names, ∃ held v,
    d.find? name = some held ∧ d'.find? name = some (held.extended v)
  kept : ∀ key ∉ names.map Naming.key, d'.credentials.get? key = d.credentials.get? key
  accessLists : d'.accessLists = d.accessLists

end StoreData

theorem Transaction.gains_of_putVersion {t t' : Transaction} {name : String} {v : Version}
    (h : t.putVersion name v = (.ok (), t')) : t.data.Gains name v t'.data := by
  cases hheld : t.data.find? name with
  | none =>
    rw [putVersion_of_find?_eq_none v hheld] at h
    cases h
    exact .first _ hheld
  | some held =>
    cases hc : held.append v with
    | error fault =>
      rw [putVersion_of_append_eq_error hheld hc] at h
      cases h
    | ok c =>
      rw [putVersion_of_append_eq_ok hheld hc] at h
      cases h
      obtain ⟨hkind, rfl⟩ := Credential.append_eq_ok.1 hc
      exact .next hheld hkind

end Strongroom
