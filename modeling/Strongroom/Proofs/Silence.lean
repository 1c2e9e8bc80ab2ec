import Strongroom.Proofs.Effects
import Strongroom.Proofs.Trail

/-! Work that notes nothing: whatever it does to the data, what has been collected before it stays
as it is. So the records of a call are decided where it collects and corrects, and what it does in
between can be passed over. -/

namespace Strongroom

namespace Inquiry

variable {α β : Type}

def IsSilent (q : Inquiry α) : Prop := ∀ d now ps, (q.runOn d now ps).2 = ps

namespace IsSilent

theorem pure (a : α) : IsSilent (Pure.pure a) := fun _ _ _ => rfl

theorem throw (fault : Fault) : IsSilent (MonadExcept.throw fault : Inquiry α) := fun _ _ _ => rfl

theorem data : IsSilent Inquiry.data := fun _ _ _ => rfl

theorem bind {q : Inquiry α} {f : α → Inquiry β} (hq : q.IsSilent) (hf : ∀ a, (f a).IsSilent) :
    (q >>= f).IsSilent := by
  intro d now ps
  have hsame := hq d now ps
  rw [runOn_bind]
  rcases hrun : q.runOn d now ps with ⟨fault | a, collected⟩ <;> rw [hrun] at hsame
  · exact hsame
  · exact (hf a d now collected).trans hsame

end IsSilent

end Inquiry

namespace Work

variable {α β : Type}

def IsSilent (w : Work α) : Prop := ∀ t, (w.runIn t).2.parameters = t.parameters

namespace IsSilent

theorem pure (a : α) : IsSilent (Pure.pure a) := fun _ => rfl

theorem throw (fault : Fault) : IsSilent (MonadExcept.throw fault : Work α) := fun _ => rfl

theorem lift (x : Except Fault α) : IsSilent (liftM x) := fun _ => rfl

theorem inquiry {q : Inquiry α} (hq : q.IsSilent) : IsSilent (liftM q : Work α) := fun t =>
  hq t.data t.now t.parameters

theorem now : IsSilent Work.now := fun _ => rfl

theorem draw : IsSilent Work.draw := fun _ => rfl

theorem put (name : String) (value : CredentialValue) : IsSilent (Work.put name value) := fun t =>
  t.draw.2.parameters_putVersion name ⟨t.draw.1, t.now, value⟩

theorem remove (name : String) : IsSilent (Work.remove name) := fun _ => rfl

theorem replaceOperations (name actor : String) (operations : OperationSet) :
    IsSilent (Work.replaceOperations name actor operations) := fun _ => rfl

theorem removeActor (name actor : String) : IsSilent (Work.removeActor name actor) := fun t =>
  t.parameters_removeActor name actor

theorem bind {w : Work α} {f : α → Work β} (hw : w.IsSilent) (hf : ∀ a, (f a).IsSilent) :
    (w >>= f).IsSilent := by
  intro t
  have hsame := hw t
  rw [runIn_bind]
  rcases hrun : w.runIn t with ⟨fault | a, t'⟩ <;> rw [hrun] at hsame
  · exact hsame
  · exact (hf a t').trans hsame

theorem ite {p : Prop} [Decidable p] {v w : Work α} (hv : v.IsSilent) (hw : w.IsSilent) :
    IsSilent (if p then v else w) := by
  split
  · exact hv
  · exact hw

theorem forM {xs : List α} {f : α → Work PUnit} (hf : ∀ x, (f x).IsSilent) :
    IsSilent (xs.forM f) := by
  induction xs with
  | nil => exact pure PUnit.unit
  | cons x rest ih => exact (hf x).bind fun _ => ih

end IsSilent

end Work

theorem Renewal.isSilent_issueInto (issuer : Issuer) (name : String) (p : CertificateParameters) :
    (issueInto issuer name p).IsSilent := by
  refine .bind (.inquiry .data) fun d => .bind (.lift _) fun signer => ?_
  exact .bind .now fun now => .bind .draw fun id => .bind (.lift _) fun value => .put _ _

namespace Custodian

theorem isSilent_latestVersion (name : String) : (latestVersion name).IsSilent := by
  refine .bind .data fun d => ?_
  cases d.find? name with
  | none => exact .throw _
  | some c => exact .pure c.latest

theorem isSilent_issueAs (issuer : Issuer) (policy : AccessPolicy) (actor : String)
    (p : CertificateParameters) (name : String) :
    (issueAs issuer policy actor p name).IsSilent := by
  refine .bind (.inquiry fun d now ps => ?_) fun pinned => Renewal.isSilent_issueInto issuer name _
  rw [runOn_pinSigner]

section Records

variable {α : Type} {c : Custodian} {caller : Caller} {occasion : Occasion} {status : UInt16}

theorem operations_audited {w : Work α} (hw : w.IsBuilt) {ending : Except Fault α}
    {t : Transaction} (h : w.runIn (c.store.begin occasion) = (ending, t)) :
    (c.audited caller occasion status w).2.store.log.operations = c.store.log.operations ++
      t.parameters.map (·.record caller (Store.outcome status ending) occasion.now) := by
  have hoccasion := (hw.isUndoable (c.store.begin occasion)).1
  rw [h] at hoccasion
  have hnow : t.now = occasion.now := congrArg (·.now) hoccasion
  have hlog : (c.audited caller occasion status w).2.store.log = c.store.log.appendAll
      (Store.records caller (Store.outcome status ending) occasion.now t.parameters) := by
    rw [audited, Store.audited, h, ← hnow]
    cases ending <;> rfl
  rw [hlog, AuditLog.operations_appendAll, Store.records]

theorem operations_inquire (c : Custodian) (caller : Caller) (occasion : Occasion) (q : Inquiry α) :
    (c.inquire caller occasion q).2.store.log.operations = c.store.log.operations ++
      (q.runOn c.store.data occasion.now []).2.map (·.record caller
        (Store.outcome okStatus (q.runOn c.store.data occasion.now []).1) occasion.now) :=
  AuditLog.operations_appendAll _ _

end Records

end Custodian

end Strongroom
