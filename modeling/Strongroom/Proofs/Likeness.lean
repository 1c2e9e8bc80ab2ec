import Strongroom.Proofs.Access
import Strongroom.Proofs.Except

/-! Bodies of work that come to the same, whatever parameters they were given or have collected:
their outcomes are the same, and the transactions that they leave differ in the parameters alone.
Nothing that work is built from looks at what has been collected, so that this passes to whatever is
put together from steps of which it holds. -/

namespace Strongroom

namespace Inquiry

variable {α β : Type}

def AlikeOn (d : StoreData) (q q' : Inquiry α) : Prop :=
  ∀ now ps ps', (q.runOn d now ps).1 = (q'.runOn d now ps').1

namespace AlikeOn

variable {d : StoreData}

theorem pure (a : α) : AlikeOn d (Pure.pure a) (Pure.pure a) := fun _ _ _ => rfl

theorem throw (fault : Fault) :
    AlikeOn d (MonadExcept.throw fault : Inquiry α) (MonadExcept.throw fault) := fun _ _ _ => rfl

theorem collect (parameters parameters' : List AuditParameters) :
    AlikeOn d (Inquiry.collect parameters) (Inquiry.collect parameters') := fun _ _ _ => rfl

theorem resolveName (name : String) :
    AlikeOn d (Inquiry.resolveName name) (Inquiry.resolveName name) := fun _ _ _ => rfl

theorem resolveFor (actor name : String) :
    AlikeOn d (Inquiry.resolveFor actor name) (Inquiry.resolveFor actor name) := fun _ _ _ => rfl

theorem bind {q q' : Inquiry α} {f f' : α → Inquiry β} (hq : q.AlikeOn d q')
    (hf : ∀ a, (f a).AlikeOn d (f' a)) : (q >>= f).AlikeOn d (q' >>= f') := by
  intro now ps ps'
  have houtcome := hq now ps ps'
  rw [runOn_bind, runOn_bind]
  rcases hrun : q.runOn d now ps with ⟨fault | a, collected⟩ <;> rw [hrun] at houtcome <;>
    rcases hrun' : q'.runOn d now ps' with ⟨fault' | a', collected'⟩ <;> rw [hrun'] at houtcome <;>
    cases houtcome
  · rfl
  · exact hf a now collected collected'

theorem data_bind {f f' : StoreData → Inquiry β} (hf : (f d).AlikeOn d (f' d)) :
    (Inquiry.data >>= f).AlikeOn d (Inquiry.data >>= f') := hf

theorem map {q q' : Inquiry α} (g : α → β) (hq : q.AlikeOn d q') :
    (g <$> q).AlikeOn d (g <$> q') := by
  rw [map_eq_pure_bind, map_eq_pure_bind]
  exact hq.bind fun a => .pure (g a)

end AlikeOn

end Inquiry

namespace Transaction

def carrying (t : Transaction) (ps : List AuditParameters) : Transaction :=
  { t with parameters := ps }

variable (t : Transaction) (ps : List AuditParameters)

theorem putVersion_carrying (name : String) (v : Version) :
    (t.carrying ps).putVersion name v =
      ((t.putVersion name v).1, (t.putVersion name v).2.carrying ps) := by
  cases hheld : t.data.find? name with
  | none =>
    have hheld' : (t.carrying ps).data.find? name = none := hheld
    rw [putVersion_of_find?_eq_none v hheld, putVersion_of_find?_eq_none v hheld']
    rfl
  | some held =>
    have hheld' : (t.carrying ps).data.find? name = some held := hheld
    cases hc : held.append v with
    | ok c =>
      rw [putVersion_of_append_eq_ok hheld hc, putVersion_of_append_eq_ok hheld' hc]
      rfl
    | error fault =>
      rw [putVersion_of_append_eq_error hheld hc, putVersion_of_append_eq_error hheld' hc]
      rfl

theorem removeActor_carrying (name actor : String) :
    (t.carrying ps).removeActor name actor =
      ((t.removeActor name actor).1, (t.removeActor name actor).2.carrying ps) := by
  cases hlist : t.data.accessList? name with
  | none =>
    have hlist' : (t.carrying ps).data.accessList? name = none := hlist
    rw [removeActor_of_accessList?_eq_none hlist, removeActor_of_accessList?_eq_none hlist']
    rfl
  | some list =>
    have hlist' : (t.carrying ps).data.accessList? name = some list := hlist
    rw [removeActor_of_accessList?_eq_some hlist, removeActor_of_accessList?_eq_some hlist']
    rfl

end Transaction

namespace Work

variable {α β : Type}

def AlikeOn (d : StoreData) (w w' : Work α) : Prop :=
  ∀ t ps, t.data = d →
    ∃ ps', w'.runIn (t.carrying ps) = ((w.runIn t).1, (w.runIn t).2.carrying ps')

def IsHeedless (w : Work α) : Prop := ∀ d, AlikeOn d w w

namespace AlikeOn

variable {d : StoreData}

theorem inquiry {q q' : Inquiry α} (hq : q.AlikeOn d q') :
    AlikeOn d (liftM q : Work α) (liftM q') := by
  rintro t ps rfl
  refine ⟨(q'.runOn t.data t.now ps).2, ?_⟩
  rw [runIn_inquiry, runIn_inquiry, hq t.now t.parameters ps]
  rfl

theorem bind {w w' : Work α} {f f' : α → Work β} (hw : AlikeOn d w w')
    (hf : ∀ a d', AlikeOn d' (f a) (f' a)) : AlikeOn d (w >>= f) (w' >>= f') := by
  intro t ps ht
  obtain ⟨collected, hrun⟩ := hw t ps ht
  rw [runIn_bind, runIn_bind, hrun]
  rcases w.runIn t with ⟨fault | a, t'⟩
  · exact ⟨collected, rfl⟩
  · exact hf a t'.data t' collected rfl

theorem inquiry_bind {q q' : Inquiry α} {f f' : α → Work β} (hq : q.AlikeOn d q')
    (hf : ∀ a, AlikeOn d (f a) (f' a)) :
    AlikeOn d ((liftM q : Work α) >>= f) ((liftM q' : Work α) >>= f') := by
  rintro t ps rfl
  have houtcome := hq t.now t.parameters ps
  have hrun' : (liftM q' : Work α).runIn (t.carrying ps) =
      ((q'.runOn t.data t.now ps).1, t.carrying (q'.runOn t.data t.now ps).2) := rfl
  rw [runIn_bind, runIn_bind, hrun', runIn_inquiry, ← houtcome]
  rcases (q.runOn t.data t.now t.parameters).1 with fault | a
  · exact ⟨_, rfl⟩
  · exact hf a (t.carrying (q.runOn t.data t.now t.parameters).2) _ rfl

theorem lift_bind {R : α → α → Prop} {x x' : Except Fault α} {f f' : α → Work β}
    (hx : x.Parallel R x') (hf : ∀ a a', R a a' → AlikeOn d (f a) (f' a')) :
    AlikeOn d (liftM x >>= f) (liftM x' >>= f') := by
  intro t ps ht
  rw [runIn_lift_bind, runIn_lift_bind]
  cases hx with
  | error fault => exact ⟨ps, rfl⟩
  | ok h => exact hf _ _ h t ps ht

theorem data_bind {f f' : StoreData → Work β} (hf : AlikeOn d (f d) (f' d)) :
    AlikeOn d ((liftM Inquiry.data : Work StoreData) >>= f)
      ((liftM Inquiry.data : Work StoreData) >>= f') := by
  rintro t ps rfl
  rw [runIn_data_bind, runIn_data_bind]
  exact hf t ps rfl

theorem map {w w' : Work α} (g : α → β) (hw : AlikeOn d w w') :
    AlikeOn d (g <$> w) (g <$> w') := by
  intro t ps ht
  obtain ⟨collected, hrun⟩ := hw t ps ht
  rw [runIn_map, runIn_map, hrun]
  exact ⟨collected, rfl⟩

theorem ite {p : Prop} [Decidable p] {v v' w w' : Work α} (hv : AlikeOn d v v')
    (hw : AlikeOn d w w') : AlikeOn d (if p then v else w) (if p then v' else w') := by
  split
  · exact hv
  · exact hw

end AlikeOn

namespace IsHeedless

theorem pure (a : α) : IsHeedless (Pure.pure a) := fun _ _ ps _ => ⟨ps, rfl⟩

theorem throw (fault : Fault) : IsHeedless (MonadExcept.throw fault : Work α) :=
  fun _ _ ps _ => ⟨ps, rfl⟩

theorem lift (x : Except Fault α) : IsHeedless (liftM x) := fun _ _ ps _ => ⟨ps, rfl⟩

theorem now : IsHeedless Work.now := fun _ _ ps _ => ⟨ps, rfl⟩

theorem draw : IsHeedless Work.draw := fun _ _ ps _ => ⟨ps, rfl⟩

theorem put (name : String) (value : CredentialValue) : IsHeedless (Work.put name value) :=
  fun _ t ps _ => ⟨ps, t.draw.2.putVersion_carrying ps name _⟩

theorem remove (name : String) : IsHeedless (Work.remove name) := fun _ _ ps _ => ⟨ps, rfl⟩

theorem replaceOperations (name actor : String) (operations : OperationSet) :
    IsHeedless (Work.replaceOperations name actor operations) := fun _ _ ps _ => ⟨ps, rfl⟩

theorem mergeOperations (name actor : String) (operations : OperationSet) :
    IsHeedless (Work.mergeOperations name actor operations) := fun _ _ ps _ => ⟨ps, rfl⟩

theorem removeActor (name actor : String) : IsHeedless (Work.removeActor name actor) := by
  intro _ t ps _
  refine ⟨ps, ?_⟩
  rw [Work.removeActor, runIn_ofStep, runIn_ofStep, t.removeActor_carrying]

theorem inquiry {q : Inquiry α} (hq : ∀ d, q.AlikeOn d q) : IsHeedless (liftM q : Work α) :=
  fun d => .inquiry (hq d)

theorem data_bind {f : StoreData → Work β} (hf : ∀ d, (f d).IsHeedless) :
    IsHeedless ((liftM Inquiry.data : Work StoreData) >>= f) := fun d => .data_bind (hf d d)

theorem bind {w : Work α} {f : α → Work β} (hw : w.IsHeedless) (hf : ∀ a, (f a).IsHeedless) :
    (w >>= f).IsHeedless := fun d => (hw d).bind hf

theorem ite {p : Prop} [Decidable p] {v w : Work α} (hv : v.IsHeedless) (hw : w.IsHeedless) :
    IsHeedless (if p then v else w) := fun d => (hv d).ite (hw d)

theorem forM {xs : List α} {f : α → Work PUnit} (hf : ∀ x, (f x).IsHeedless) :
    IsHeedless (xs.forM f) := by
  induction xs with
  | nil => exact pure PUnit.unit
  | cons x rest ih => exact (hf x).bind fun _ => ih

end IsHeedless

end Work

namespace Store

variable {α : Type} {s : Store} {caller : Caller} {status : UInt16} {occasion : Occasion}

theorem audited_of_alikeOn {w w' : Work α} (h : w.AlikeOn s.data w') :
    (s.audited caller status occasion w).1 = (s.audited caller status occasion w').1 ∧
      (s.audited caller status occasion w).2.data =
        (s.audited caller status occasion w').2.data := by
  obtain ⟨collected, hrun⟩ := h (s.begin occasion) [] rfl
  have hrun' : w'.runIn (s.begin occasion) =
      ((w.runIn (s.begin occasion)).1, (w.runIn (s.begin occasion)).2.carrying collected) := hrun
  rw [audited, audited, hrun']
  rcases w.runIn (s.begin occasion) with ⟨fault | a, t⟩ <;> exact ⟨rfl, rfl⟩

theorem inquire_of_alikeOn {q q' : Inquiry α} {now : Time.Instant} (h : q.AlikeOn s.data q') :
    (s.inquire caller status now q).1 = (s.inquire caller status now q').1 ∧
      (s.inquire caller status now q).2.data = (s.inquire caller status now q').2.data :=
  ⟨h now [] [], rfl⟩

end Store

end Strongroom
