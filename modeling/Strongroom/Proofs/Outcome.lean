import Strongroom.Proofs.Effects

/-! The outcome of a call: one that succeeds has its effect, and one that fails leaves the data as
they were. The configuration and the issuer stay the same in both cases. -/

namespace Strongroom.Custodian

section Runs

variable {α : Type} {c : Custodian} {caller : Caller} {occasion : Occasion} {status : UInt16}
  {w : Work α} {q : Inquiry α} {f : α → Answer}

theorem audited_fst :
    (c.audited caller occasion status (f <$> w)).1 =
      (w.runIn (c.store.begin occasion)).1.map f := by
  have hstore := c.store.audited_fst caller status occasion (f <$> w)
  rw [Work.runIn_map] at hstore
  exact hstore

theorem audited_eq_ok {answer : Answer}
    (h : (c.audited caller occasion status (f <$> w)).1 = .ok answer) :
    ∃ a t, w.runIn (c.store.begin occasion) = (.ok a, t) ∧ f a = answer ∧
      (c.audited caller occasion status (f <$> w)).2.store.data = t.data := by
  have hrun := Work.runIn_map f w (t := c.store.begin occasion)
  rw [audited_fst] at h
  obtain ⟨a, ha, rfl⟩ := Except.map_eq_ok.1 h
  rw [ha] at hrun
  exact ⟨a, _, Prod.ext ha rfl, rfl, Store.data_audited_of_ok hrun⟩

theorem data_audited_of_error {fault : Fault} (hw : w.IsBuilt)
    (h : (c.audited caller occasion status (f <$> w)).1 = .error fault) :
    (c.audited caller occasion status (f <$> w)).2.store.data = c.store.data :=
  Store.data_audited_of_error (hw.map f) h

end Runs

variable (c : Custodian) (caller : Caller) (occasion : Occasion) (call : Call)

@[simp]
theorem config_perform : (c.perform caller occasion call).2.config = c.config := by
  cases call <;> rfl

@[simp]
theorem issuer_perform : (c.perform caller occasion call).2.issuer = c.issuer := by
  cases call <;> rfl

variable {c caller occasion call}

theorem effect_of_perform {answer : Answer} (hsound : c.store.data.Sound)
    (h : (c.perform caller occasion call).1 = .ok answer) :
    c.Effect caller.actor occasion call answer
      (c.perform caller occasion call).2.store.data := by
  unfold perform at h ⊢
  cases call with
  | set name value permissions overwrite =>
    obtain ⟨v, t, hrun, rfl, hdata⟩ := audited_eq_ok h
    exact hdata ▸ effect_of_set hsound hrun
  | generate name request permissions overwrite =>
    obtain ⟨v, t, hrun, rfl, hdata⟩ := audited_eq_ok h
    exact hdata ▸ effect_of_generate hsound hrun
  | regenerate name overrides =>
    obtain ⟨v, t, hrun, rfl, hdata⟩ := audited_eq_ok h
    exact hdata ▸ effect_of_regenerate hsound hrun
  | renewBelow signedBy =>
    obtain ⟨names, t, hrun, rfl, hdata⟩ := audited_eq_ok h
    exact hdata ▸ effect_of_renewBelow hrun
  | delete name =>
    obtain ⟨_, t, hrun, rfl, hdata⟩ := audited_eq_ok h
    exact hdata ▸ effect_of_delete hsound hrun
  | setPermissions name entries =>
    obtain ⟨view, t, hrun, rfl, hdata⟩ := audited_eq_ok h
    exact hdata ▸ effect_of_setPermissions hsound hrun
  | deletePermission name subject =>
    obtain ⟨_, t, hrun, rfl, hdata⟩ := audited_eq_ok h
    exact hdata ▸ effect_of_deletePermission hsound hrun
  | get | versions | findByName | findByPath | findFolders | listPermissions => exact .looked rfl

variable (c caller occasion call) in
theorem perform_eq_audited :
    (c.perform caller occasion call).2.store.data = c.store.data ∨
      ∃ (α : Type) (w : Work α) (f : α → Answer) (status : UInt16), w.IsBuilt ∧
        c.perform caller occasion call = c.audited caller occasion status (f <$> w) := by
  cases call with
  | set name value permissions overwrite =>
    exact .inr ⟨_, _, _, _, isBuilt_set c.policy name value permissions overwrite, rfl⟩
  | generate name request permissions overwrite =>
    exact .inr ⟨_, _, _, _, isBuilt_generate c.issuer c.policy _ name request permissions overwrite,
      rfl⟩
  | regenerate name overrides =>
    exact .inr ⟨_, _, _, _, isBuilt_regenerate c.issuer c.policy name overrides, rfl⟩
  | renewBelow signedBy =>
    exact .inr ⟨_, _, _, _, isBuilt_renewBelow c.issuer c.policy signedBy, rfl⟩
  | delete name => exact .inr ⟨_, _, _, _, isBuilt_delete c.policy name, rfl⟩
  | setPermissions name entries =>
    exact .inr ⟨_, _, _, _, isBuilt_setPermissions c.policy name entries, rfl⟩
  | deletePermission name subject =>
    exact .inr ⟨_, _, _, _, isBuilt_deletePermission c.policy name subject, rfl⟩
  | get | versions | findByName | findByPath | findFolders | listPermissions => exact .inl rfl

theorem data_perform_of_error {fault : Fault}
    (h : (c.perform caller occasion call).1 = .error fault) :
    (c.perform caller occasion call).2.store.data = c.store.data := by
  rcases c.perform_eq_audited caller occasion call with hsame | ⟨_, w, f, status, hbuilt, hrun⟩
  · exact hsame
  · rw [hrun] at h ⊢
    exact data_audited_of_error hbuilt h

theorem perform_keeps {P : StoreData → Prop} {I : Transaction → Prop} (hI : Work.IsInvariant I)
    (hP : ∀ t, I t → P t.data) (hbegin : I (c.store.begin occasion)) (hdata : P c.store.data) :
    P (c.perform caller occasion call).2.store.data := by
  rcases c.perform_eq_audited caller occasion call with hsame | ⟨_, w, f, status, hbuilt, hrun⟩
  · exact hsame ▸ hdata
  · cases hanswer : (c.perform caller occasion call).1 with
    | error fault => exact data_perform_of_error hanswer ▸ hdata
    | ok answer =>
      rw [hrun] at hanswer ⊢
      obtain ⟨a, t, hw, -, hafter⟩ := audited_eq_ok hanswer
      have hkept := hbuilt.keeps hI hbegin
      rw [hw] at hkept
      exact hafter ▸ hP t hkept

end Strongroom.Custodian
