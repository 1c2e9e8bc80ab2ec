import Strongroom.Proofs.Dictionary
import Strongroom.Store.Basic

/-! Rollback is exact. Every step puts what it replaces on the journal, so that the data that the
journal leads back to are the same before and after the step, whatever came before it. -/

namespace Strongroom

namespace Credential

theorem truncate_count (c : Credential) : c.truncate c.count = c := by
  simp [truncate, count, versions]

theorem truncate_of_append {c c' : Credential} {v : Version} (h : c.append v = .ok c') :
    c'.truncate c.count = c := by
  unfold append at h
  split at h
  · cases h
    simp [truncate, count, versions]
  · cases h

end Credential

namespace Undo

theorem apply_versions_insert {d : StoreData} {key : String} {held c : Credential}
    (hheld : d.credentials.get? key = some held) (hc : c.truncate held.count = held) :
    apply { d with credentials := d.credentials.insert key c } (.versions key held.count) = d := by
  simp only [apply, Dictionary.get?_insert_self, hc,
    Dictionary.insert_insert_of_get?_eq_some hheld]

theorem apply_versions_count {d : StoreData} {key : String} {held : Credential}
    (hheld : d.credentials.get? key = some held) : apply d (.versions key held.count) = d := by
  simp only [apply, hheld, held.truncate_count, Dictionary.insert_of_get?_eq_some hheld]

theorem apply_credential {d d' : StoreData} {key : String} (hlists : d'.accessLists = d.accessLists)
    (h : ∀ other, key ≠ other → d'.credentials.get? other = d.credentials.get? other) :
    apply d' (.credential key (d.credentials.get? key)) = d := by
  simp only [apply, Dictionary.assign_get?_eq h, hlists]

theorem apply_accessList {d d' : StoreData} {key : String}
    (hcredentials : d'.credentials = d.credentials)
    (h : ∀ other, key ≠ other → d'.accessLists.get? other = d.accessLists.get? other) :
    apply d' (.accessList key (d.accessLists.get? key)) = d := by
  simp only [apply, Dictionary.assign_get?_eq h, hcredentials]

end Undo

namespace Transaction

theorem reverted_of_journal_cons {t : Transaction} {d : StoreData} {u : Undo} {earlier : List Undo}
    (hjournal : t.journal = u :: earlier) (hundo : u.apply t.data = d) :
    t.reverted = earlier.foldl Undo.apply d := by
  rw [reverted, hjournal, List.foldl_cons]
  exact congrArg (earlier.foldl Undo.apply) hundo

theorem putVersion_of_find?_eq_none {t : Transaction} {name : String} (v : Version)
    (h : t.data.find? name = none) :
    t.putVersion name v = (.ok (), { t with
      drawn := t.drawn + 1
      journal := .credential (Naming.key name) none :: t.journal
      data.credentials :=
        t.data.credentials.insert (Naming.key name) ⟨t.draw.1, name, v, []⟩ }) := by
  rw [StoreData.find?] at h
  simp only [putVersion, h, draw]

theorem putVersion_of_append_eq_ok {t : Transaction} {name : String} {v : Version}
    {held c : Credential} (h : t.data.find? name = some held) (hc : held.append v = .ok c) :
    t.putVersion name v = (.ok (), { t with
      journal := .versions (Naming.key name) held.count :: t.journal
      data.credentials := t.data.credentials.insert (Naming.key name) c }) := by
  rw [StoreData.find?] at h
  simp only [putVersion, h, hc]

theorem putVersion_of_append_eq_error {t : Transaction} {name : String} {v : Version}
    {held : Credential} {fault : Fault} (h : t.data.find? name = some held)
    (hfault : held.append v = .error fault) :
    t.putVersion name v = (.error fault, { t with
      journal := .versions (Naming.key name) held.count :: t.journal }) := by
  rw [StoreData.find?] at h
  simp only [putVersion, h, hfault]

theorem append_eq_error_of_putVersion {t t' : Transaction} {name : String} {v : Version}
    {fault : Fault} (h : t.putVersion name v = (.error fault, t')) :
    ∃ held, t.data.find? name = some held ∧ held.append v = .error fault := by
  cases hheld : t.data.find? name with
  | none =>
    rw [putVersion_of_find?_eq_none v hheld] at h
    cases h
  | some held =>
    cases hc : held.append v with
    | ok c =>
      rw [putVersion_of_append_eq_ok hheld hc] at h
      cases h
    | error cause =>
      rw [putVersion_of_append_eq_error hheld hc] at h
      cases h
      exact ⟨held, rfl, hc⟩

theorem occasion_putVersion (t : Transaction) (name : String) (v : Version) :
    (t.putVersion name v).2.occasion = t.occasion := by
  cases hheld : t.data.find? name with
  | none => rw [putVersion_of_find?_eq_none v hheld]
  | some held =>
    cases hc : held.append v with
    | ok c => rw [putVersion_of_append_eq_ok hheld hc]
    | error fault => rw [putVersion_of_append_eq_error hheld hc]

theorem reverted_putVersion (t : Transaction) (name : String) (v : Version) :
    (t.putVersion name v).2.reverted = t.reverted := by
  cases hheld : t.data.find? name with
  | none =>
    rw [putVersion_of_find?_eq_none v hheld]
    refine reverted_of_journal_cons (d := t.data) rfl ?_
    rw [StoreData.find?] at hheld
    rw [← hheld]
    exact Undo.apply_credential rfl fun _ hne => Dictionary.get?_insert_of_ne _ _ hne
  | some held =>
    cases hc : held.append v with
    | ok c =>
      rw [putVersion_of_append_eq_ok hheld hc]
      exact reverted_of_journal_cons rfl
        (Undo.apply_versions_insert hheld (Credential.truncate_of_append hc))
    | error fault =>
      rw [putVersion_of_append_eq_error hheld hc]
      exact reverted_of_journal_cons rfl (Undo.apply_versions_count hheld)

theorem reverted_remove (t : Transaction) (name : String) :
    (t.remove name).2.reverted = t.reverted := by
  -- the entry of the credential is the newer one, so the list is still missing when it is undone
  let without : StoreData := { t.data with
    accessLists := t.data.accessLists.erase (Naming.key name) }
  have hcredential : Undo.apply (t.remove name).2.data
      (.credential (Naming.key name) (t.data.credentials.get? (Naming.key name))) = without :=
    Undo.apply_credential (d := without) rfl fun _ hne => Dictionary.get?_erase_of_ne _ hne
  have hlist : Undo.apply without
      (.accessList (Naming.key name) (t.data.accessLists.get? (Naming.key name))) = t.data :=
    Undo.apply_accessList rfl fun _ hne => Dictionary.get?_erase_of_ne _ hne
  rw [reverted_of_journal_cons rfl hcredential, List.foldl_cons, hlist, reverted]

theorem reverted_insert_accessList (t : Transaction) (name : String) (list : AccessList) :
    reverted { t.noteAccessList name with
      data.accessLists := t.data.accessLists.insert (Naming.key name) list } = t.reverted :=
  reverted_of_journal_cons rfl
    (Undo.apply_accessList rfl fun _ hne => Dictionary.get?_insert_of_ne _ _ hne)

theorem reverted_updateOperations (t : Transaction) (name actor : String)
    (f : OperationSet → OperationSet) :
    (t.updateOperations name actor f).reverted = t.reverted :=
  reverted_insert_accessList t name _

theorem removeActor_of_accessList?_eq_some {t : Transaction} {name : String} {list : AccessList}
    (h : t.data.accessList? name = some list) (actor : String) :
    t.removeActor name actor = (list.contains actor, { t.noteAccessList name with
      data.accessLists := t.data.accessLists.insert (Naming.key name) (list.erase actor) }) := by
  rw [StoreData.accessList?] at h
  simp only [removeActor, noteAccessList, h]

theorem removeActor_of_accessList?_eq_none {t : Transaction} {name : String}
    (h : t.data.accessList? name = none) (actor : String) :
    t.removeActor name actor = (false, t.noteAccessList name) := by
  rw [StoreData.accessList?] at h
  simp only [removeActor, noteAccessList, h]

theorem occasion_removeActor (t : Transaction) (name actor : String) :
    (t.removeActor name actor).2.occasion = t.occasion := by
  cases hlist : t.data.accessList? name with
  | none => rw [removeActor_of_accessList?_eq_none hlist]; rfl
  | some list => rw [removeActor_of_accessList?_eq_some hlist]; rfl

theorem drawn_removeActor (t : Transaction) (name actor : String) :
    (t.removeActor name actor).2.drawn = t.drawn := by
  cases hlist : t.data.accessList? name with
  | none => rw [removeActor_of_accessList?_eq_none hlist]; rfl
  | some list => rw [removeActor_of_accessList?_eq_some hlist]; rfl

theorem credentials_removeActor (t : Transaction) (name actor : String) :
    (t.removeActor name actor).2.data.credentials = t.data.credentials := by
  cases hlist : t.data.accessList? name with
  | none => rw [removeActor_of_accessList?_eq_none hlist]; rfl
  | some list => rw [removeActor_of_accessList?_eq_some hlist]; rfl

theorem reverted_removeActor (t : Transaction) (name actor : String) :
    (t.removeActor name actor).2.reverted = t.reverted := by
  cases hlist : t.data.accessList? name with
  | none =>
    rw [removeActor_of_accessList?_eq_none hlist]
    exact reverted_of_journal_cons rfl (Undo.apply_accessList rfl fun _ _ => rfl)
  | some list =>
    rw [removeActor_of_accessList?_eq_some hlist]
    exact reverted_insert_accessList t name _

/-- The transaction after the step, whether the step was refused or not. -/
def act (t : Transaction) (step : Step) : Transaction := (step.work.runIn t).2

def actAll (t : Transaction) (steps : List Step) : Transaction := steps.foldl act t

theorem reverted_act (t : Transaction) (step : Step) : (t.act step).reverted = t.reverted := by
  cases step with
  | put name value => exact reverted_putVersion t.draw.2 name _
  | putVersion name v => exact reverted_putVersion t name v
  | remove name => exact reverted_remove t name
  | replaceOperations name actor operations => exact reverted_updateOperations t name actor _
  | mergeOperations name actor operations => exact reverted_updateOperations t name actor _
  | removeActor name actor => exact reverted_removeActor t name actor
  | draw | note => rfl

theorem actAll_keeps {β : Type} {f : Transaction → β} (h : ∀ t step, f (t.act step) = f t)
    (t : Transaction) (steps : List Step) : f (t.actAll steps) = f t := by
  induction steps generalizing t with
  | nil => rfl
  | cons step rest ih => exact (ih (t.act step)).trans (h t step)

theorem reverted_actAll (t : Transaction) (steps : List Step) :
    (t.actAll steps).reverted = t.reverted := actAll_keeps reverted_act t steps

end Transaction

namespace Store

/-- After any steps a rollback leaves the data, and a drop the whole store, as they were when the
transaction began. -/
theorem rollback_and_drop_restore (s : Store) (occasion : Occasion) (steps : List Step)
    (caller : Caller) (fault : Fault) :
    (s.rollback ((s.begin occasion).actAll steps) caller fault).data = s.data ∧
      s.drop ((s.begin occasion).actAll steps) = s := by
  have h : ((s.begin occasion).actAll steps).reverted = s.data :=
    Transaction.reverted_actAll _ steps
  exact ⟨h, by rw [drop, h]⟩

end Store

end Strongroom
