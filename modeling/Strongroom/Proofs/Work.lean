import Strongroom.Proofs.Rollback

/-! How inquiries and work run, one law for each way of putting them together, and what all work on
a store has in common: it keeps whatever the changes of a transaction keep, and so the occasion and
what a rollback leads back to. -/

namespace Strongroom

namespace Inquiry

variable {α β : Type} (d : StoreData) (now : Time.Instant) (ps : List AuditParameters)

@[simp]
theorem runOn_pure (a : α) : (pure a : Inquiry α).runOn d now ps = (.ok a, ps) := rfl

@[simp]
theorem runOn_throw (fault : Fault) :
    (throw fault : Inquiry α).runOn d now ps = (.error fault, ps) := rfl

@[simp]
theorem runOn_lift (x : Except Fault α) : (liftM x : Inquiry α).runOn d now ps = (x, ps) := rfl

@[simp]
theorem runOn_data : Inquiry.data.runOn d now ps = (.ok d, ps) := rfl

@[simp]
theorem runOn_resolveFor (actor name : String) :
    (resolveFor actor name).runOn d now ps = (.ok (), ps.map fun p =>
      { p.resolveName name with allowed := (d.operationsFor name actor).toList }) := rfl

theorem runOn_bind (q : Inquiry α) (f : α → Inquiry β) :
    (q >>= f).runOn d now ps =
      match q.runOn d now ps with
      | (.ok a, collected) => (f a).runOn d now collected
      | (.error fault, collected) => (.error fault, collected) := by
  change ExceptT.bindCont (fun a => f a ⟨d, now⟩) (q.runOn d now ps).1 (q.runOn d now ps).2 = _
  rcases q.runOn d now ps with ⟨fault | a, collected⟩ <;> rfl

@[simp]
theorem runOn_data_bind (f : StoreData → Inquiry β) :
    (Inquiry.data >>= f).runOn d now ps = (f d).runOn d now ps := rfl

@[simp]
theorem runOn_collect_bind (parameters : List AuditParameters) (f : Unit → Inquiry β) :
    (collect parameters >>= f).runOn d now ps = (f ()).runOn d now (ps ++ parameters) := rfl

theorem runOn_lift_bind (x : Except Fault α) (f : α → Inquiry β) :
    ((liftM x : Inquiry α) >>= f).runOn d now ps =
      match x with
      | .ok a => (f a).runOn d now ps
      | .error fault => (.error fault, ps) := by
  rw [runOn_bind, runOn_lift]
  cases x <;> rfl

end Inquiry

namespace Work

variable {α β : Type} (t : Transaction)

@[simp]
theorem runIn_lift (x : Except Fault α) : (liftM x : Work α).runIn t = (x, t) := rfl

@[simp]
theorem runIn_ofStep (step : Transaction → α × Transaction) :
    (ofStep step).runIn t = (.ok (step t).1, (step t).2) := rfl

theorem runIn_inquiry (q : Inquiry α) :
    (liftM q : Work α).runIn t =
      ((q.runOn t.data t.now t.parameters).1,
        { t with parameters := (q.runOn t.data t.now t.parameters).2 }) := rfl

theorem runIn_bind (w : Work α) (f : α → Work β) :
    (w >>= f).runIn t =
      match w.runIn t with
      | (.ok a, t') => (f a).runIn t'
      | (.error fault, t') => (.error fault, t') := by
  change ExceptT.bindCont f (w.runIn t).1 (w.runIn t).2 = _
  rcases w.runIn t with ⟨fault | a, t'⟩ <;> rfl

theorem runIn_map (g : α → β) (w : Work α) :
    (g <$> w).runIn t = ((w.runIn t).1.map g, (w.runIn t).2) := by
  rw [← bind_pure_comp, runIn_bind]
  rcases w.runIn t with ⟨fault | a, t'⟩ <;> rfl

@[simp]
theorem runIn_data_bind (f : StoreData → Work β) :
    ((liftM Inquiry.data : Work StoreData) >>= f).runIn t = (f t.data).runIn t := rfl

@[simp]
theorem runIn_collect_bind (parameters : List AuditParameters) (f : Unit → Work β) :
    ((liftM (Inquiry.collect parameters) : Work Unit) >>= f).runIn t =
      (f ()).runIn { t with parameters := t.parameters ++ parameters } := rfl

@[simp]
theorem runIn_resolveName_bind (name : String) (f : Unit → Work β) :
    ((liftM (Inquiry.resolveName name) : Work Unit) >>= f).runIn t =
      (f ()).runIn { t with parameters := t.parameters.map (·.resolveName name) } := rfl

@[simp]
theorem runIn_resolveFor_bind (actor name : String) (f : Unit → Work β) :
    ((liftM (Inquiry.resolveFor actor name) : Work Unit) >>= f).runIn t =
      (f ()).runIn { t with parameters := t.parameters.map fun p =>
        { p.resolveName name with allowed := (t.data.operationsFor name actor).toList } } := rfl

@[simp]
theorem runIn_now_bind (f : Time.Instant → Work β) :
    (now >>= f).runIn t = (f t.now).runIn t := rfl

@[simp]
theorem runIn_draw_bind (f : FreshId → Work β) :
    (draw >>= f).runIn t = (f t.draw.1).runIn t.draw.2 := rfl

theorem runIn_put (name : String) (value : CredentialValue) :
    (put name value).runIn t = t.draw.2.putVersion name ⟨t.draw.1, t.now, value⟩ := rfl

theorem runIn_lift_bind (x : Except Fault α) (f : α → Work β) :
    ((liftM x : Work α) >>= f).runIn t =
      match x with
      | .ok a => (f a).runIn t
      | .error fault => (.error fault, t) := by
  rw [runIn_bind, runIn_lift]
  cases x <;> rfl

variable {t}

theorem runIn_bind_of_eq_ok {w : Work α} {f : α → Work β} {a : α} {t' : Transaction}
    (h : w.runIn t = (.ok a, t')) : (w >>= f).runIn t = (f a).runIn t' := by
  rw [runIn_bind, h]

theorem runIn_bind_of_eq_error {w : Work α} {f : α → Work β} {fault : Fault} {t' : Transaction}
    (h : w.runIn t = (.error fault, t')) : (w >>= f).runIn t = (.error fault, t') := by
  rw [runIn_bind, h]

theorem runIn_bind_eq_ok {w : Work α} {f : α → Work β} {b : β} {t'' : Transaction} :
    (w >>= f).runIn t = (.ok b, t'') ↔
      ∃ a t', w.runIn t = (.ok a, t') ∧ (f a).runIn t' = (.ok b, t'') := by
  rw [runIn_bind]
  rcases w.runIn t with ⟨fault | a, t'⟩ <;> simp

theorem runIn_bind_eq_error {w : Work α} {f : α → Work β} {fault : Fault} {t'' : Transaction} :
    (w >>= f).runIn t = (.error fault, t'') ↔
      w.runIn t = (.error fault, t'') ∨
        ∃ a t', w.runIn t = (.ok a, t') ∧ (f a).runIn t' = (.error fault, t'') := by
  rw [runIn_bind]
  rcases w.runIn t with ⟨cause | a, t'⟩ <;> simp

theorem runIn_lift_bind_eq_ok {x : Except Fault α} {f : α → Work β} {b : β} {t' : Transaction} :
    ((liftM x : Work α) >>= f).runIn t = (.ok b, t') ↔
      ∃ a, x = .ok a ∧ (f a).runIn t = (.ok b, t') := by
  rw [runIn_lift_bind]
  cases x <;> simp

theorem runIn_lift_bind_eq_error {x : Except Fault α} {f : α → Work β} {fault : Fault}
    {t' : Transaction} :
    ((liftM x : Work α) >>= f).runIn t = (.error fault, t') ↔
      (x = .error fault ∧ t = t') ∨ ∃ a, x = .ok a ∧ (f a).runIn t = (.error fault, t') := by
  rw [runIn_lift_bind]
  cases x <;> simp

theorem runIn_forM_eq_error {xs : List α} {f : α → Work PUnit} {fault : Fault} :
    (xs.forM f).runIn t = (.error fault, t') ↔
      ∃ done x rest between, xs = done ++ x :: rest ∧
        (done.forM f).runIn t = (.ok (), between) ∧ (f x).runIn between = (.error fault, t') := by
  induction xs generalizing t with
  | nil =>
    constructor
    · intro h
      cases h
    · rintro ⟨done, x, rest, between, hcut, -⟩
      cases List.append_ne_nil_of_right_ne_nil done (List.cons_ne_nil x rest) hcut.symm
  | cons first xs ih =>
    rw [List.forM, runIn_bind_eq_error]
    constructor
    · rintro (h | ⟨_, next, hfirst, h⟩)
      · exact ⟨[], first, xs, t, rfl, rfl, h⟩
      · obtain ⟨done, x, rest, between, rfl, hdone, hx⟩ := ih.1 h
        exact ⟨first :: done, x, rest, between, rfl,
          runIn_bind_eq_ok.2 ⟨_, next, hfirst, hdone⟩, hx⟩
    · rintro ⟨done, x, rest, between, hcut, hdone, hx⟩
      cases done with
      | nil =>
        cases hcut
        cases hdone
        exact .inl hx
      | cons _ done =>
        obtain ⟨rfl, rfl⟩ := List.cons.inj hcut
        obtain ⟨_, next, hfirst, hdone⟩ := runIn_bind_eq_ok.1 hdone
        exact .inr ⟨_, next, hfirst, ih.2 ⟨done, x, rest, between, rfl, hdone, hx⟩⟩

inductive IsBuilt : {α : Type} → Work α → Prop
  | pure {α : Type} (a : α) : IsBuilt (Pure.pure a)
  | throw {α : Type} (fault : Fault) : IsBuilt (MonadExcept.throw fault : Work α)
  | lift {α : Type} (x : Except Fault α) : IsBuilt (liftM x)
  | inquiry {α : Type} (q : Inquiry α) : IsBuilt (liftM q)
  | now : IsBuilt Work.now
  | draw : IsBuilt Work.draw
  | put (name : String) (value : CredentialValue) : IsBuilt (Work.put name value)
  | remove (name : String) : IsBuilt (Work.remove name)
  | replaceOperations (name actor : String) (operations : OperationSet) :
    IsBuilt (Work.replaceOperations name actor operations)
  | mergeOperations (name actor : String) (operations : OperationSet) :
    IsBuilt (Work.mergeOperations name actor operations)
  | removeActor (name actor : String) : IsBuilt (Work.removeActor name actor)
  | bind {α β : Type} {w : Work α} {f : α → Work β} (hw : IsBuilt w) (hf : ∀ a, IsBuilt (f a)) :
    IsBuilt (w >>= f)

namespace IsBuilt

theorem map {w : Work α} (g : α → β) (hw : IsBuilt w) : IsBuilt (g <$> w) := by
  rw [← bind_pure_comp]
  exact hw.bind fun a => .pure (g a)

theorem ite {p : Prop} [Decidable p] {v w : Work α} (hv : IsBuilt v) (hw : IsBuilt w) :
    IsBuilt (if p then v else w) := by
  split
  · exact hv
  · exact hw

theorem forM {xs : List α} {f : α → Work PUnit} (hf : ∀ x, IsBuilt (f x)) :
    IsBuilt (xs.forM f) := by
  induction xs with
  | nil => exact IsBuilt.pure PUnit.unit
  | cons x rest ih => exact (hf x).bind fun _ => ih

end IsBuilt

structure IsInvariant (I : Transaction → Prop) : Prop where
  parameters : ∀ {t} parameters, I t → I { t with parameters }
  draw : ∀ {t}, I t → I t.draw.2
  put : ∀ {t} name value, I t → I (t.draw.2.putVersion name ⟨t.draw.1, t.now, value⟩).2
  remove : ∀ {t} name, I t → I (t.remove name).2
  replaceOperations : ∀ {t} name actor operations,
    I t → I (t.replaceOperations name actor operations)
  mergeOperations : ∀ {t} name actor operations, I t → I (t.mergeOperations name actor operations)
  removeActor : ∀ {t} name actor, I t → I (t.removeActor name actor).2

theorem IsBuilt.keeps {I : Transaction → Prop} {w : Work α} (hw : IsBuilt w) (hI : IsInvariant I)
    {t : Transaction} (h : I t) : I (w.runIn t).2 := by
  induction hw generalizing t with
  | pure | throw | lift | now => exact h
  | inquiry q => exact hI.parameters _ h
  | draw => exact hI.draw h
  | put name value => exact hI.put name value h
  | remove name => exact hI.remove name h
  | replaceOperations name actor operations => exact hI.replaceOperations name actor operations h
  | mergeOperations name actor operations => exact hI.mergeOperations name actor operations h
  | removeActor name actor => exact hI.removeActor name actor h
  | @bind α β w f _ _ ihw ihf =>
    have hkept := ihw h
    rw [runIn_bind]
    rcases hrun : w.runIn t with ⟨fault | a, t'⟩ <;> rw [hrun] at hkept
    · exact hkept
    · exact ihf a hkept

def IsUndoable (w : Work α) : Prop :=
  ∀ t, (w.runIn t).2.occasion = t.occasion ∧ (w.runIn t).2.reverted = t.reverted

theorem isInvariant_reverted (occasion : Occasion) (d : StoreData) :
    IsInvariant fun t => t.occasion = occasion ∧ t.reverted = d where
  parameters _ h := h
  draw h := h
  put {t} name _ h :=
    ⟨(t.draw.2.occasion_putVersion name _).trans h.1,
      (t.draw.2.reverted_putVersion name _).trans h.2⟩
  remove {t} name h := ⟨h.1, (t.reverted_remove name).trans h.2⟩
  replaceOperations {t} name actor _ h :=
    ⟨h.1, (t.reverted_updateOperations name actor _).trans h.2⟩
  mergeOperations {t} name actor _ h :=
    ⟨h.1, (t.reverted_updateOperations name actor _).trans h.2⟩
  removeActor {t} name actor h :=
    ⟨(t.occasion_removeActor name actor).trans h.1, (t.reverted_removeActor name actor).trans h.2⟩

theorem IsBuilt.isUndoable {w : Work α} (hw : IsBuilt w) : IsUndoable w := fun t =>
  hw.keeps (isInvariant_reverted t.occasion t.reverted) ⟨rfl, rfl⟩

end Work

namespace Store

variable {α : Type} (s : Store) (caller : Caller) (status : UInt16) (occasion : Occasion)
  (w : Work α)

theorem audited_fst :
    (s.audited caller status occasion w).1 = (w.runIn (s.begin occasion)).1 := by
  unfold audited
  rcases w.runIn (s.begin occasion) with ⟨fault | a, t⟩ <;> rfl

variable {s caller status occasion w}

theorem data_audited_of_ok {a : α} {t : Transaction} (h : w.runIn (s.begin occasion) = (.ok a, t)) :
    (s.audited caller status occasion w).2.data = t.data := by
  simp only [audited, h, commit]

theorem data_audited_of_error {fault : Fault} (hw : w.IsBuilt)
    (h : (s.audited caller status occasion w).1 = .error fault) :
    (s.audited caller status occasion w).2.data = s.data := by
  have hreverted := (hw.isUndoable (s.begin occasion)).2
  rw [audited_fst] at h
  unfold audited
  rcases hrun : w.runIn (s.begin occasion) with ⟨cause | a, t⟩ <;> rw [hrun] at h hreverted
  · exact hreverted
  · cases h

end Store

end Strongroom
