import Strongroom.Proofs.Access
import Strongroom.Proofs.Changes

/-! Work that is confined to a key: it looks at nothing and changes nothing but what stands under
the key. Every step that names its credential by a name of that key is so confined, and so is
whatever is put together from such steps. A requirement of access yields the stored name, which has
the same key, since credentials stand under the keys of their names. -/

namespace Strongroom

namespace StoreData

/-- The same stands under the key. -/
structure AgreesAt (key : String) (d d' : StoreData) : Prop where
  credentials : d'.credentials.get? key = d.credentials.get? key
  accessLists : d'.accessLists.get? key = d.accessLists.get? key

def KeyedAt (d : StoreData) (key : String) : Prop :=
  ∀ c, d.credentials.get? key = some c → Naming.key c.name = key

variable {d d' d'' : StoreData} {key other name : String}

theorem Sound.keyedAt (hd : d.Sound) (key : String) : d.KeyedAt key := fun _ hc => hd.keyed hc

namespace AgreesAt

theorem refl (key : String) (d : StoreData) : AgreesAt key d d := ⟨rfl, rfl⟩

theorem symm (h : AgreesAt key d d') : AgreesAt key d' d :=
  ⟨h.credentials.symm, h.accessLists.symm⟩

theorem trans (h : AgreesAt key d d') (h' : AgreesAt key d' d'') : AgreesAt key d d'' :=
  ⟨h'.credentials.trans h.credentials, h'.accessLists.trans h.accessLists⟩

theorem find?_eq (h : AgreesAt (Naming.key name) d d') : d'.find? name = d.find? name :=
  h.credentials

theorem accessList?_eq (h : AgreesAt (Naming.key name) d d') :
    d'.accessList? name = d.accessList? name := h.accessLists

theorem contains_eq (h : AgreesAt (Naming.key name) d d') : d'.contains name = d.contains name := by
  rw [contains, contains, h.find?_eq]

theorem operationsFor_eq (h : AgreesAt (Naming.key name) d d') :
    d'.operationsFor name = d.operationsFor name := by
  funext actor
  rw [operationsFor, operationsFor, h.accessList?_eq]

theorem holding (h : AgreesAt key d d') (c : Credential) :
    AgreesAt key (d.holding key c) (d'.holding key c) :=
  ⟨by rw [get?_holding_self, get?_holding_self], h.accessLists⟩

theorem updating (h : AgreesAt key d d') (f : AccessList → AccessList) :
    AgreesAt key (d.updating key f) (d'.updating key f) := by
  refine ⟨h.credentials, ?_⟩
  rw [StoreData.updating, StoreData.updating, Dictionary.get?_insert_self,
    Dictionary.get?_insert_self, h.accessLists]

theorem holding_of_ne (d : StoreData) (c : Credential) (h : key ≠ other) :
    AgreesAt other d (d.holding key c) := ⟨d.get?_holding_of_ne c h, rfl⟩

theorem updating_of_ne (d : StoreData) (f : AccessList → AccessList) (h : key ≠ other) :
    AgreesAt other d (d.updating key f) := ⟨rfl, Dictionary.get?_insert_of_ne _ _ h⟩

theorem gains_of_ne {v : Version} (hgains : d.Gains name v d') (h : Naming.key name ≠ other) :
    AgreesAt other d d' := by
  cases hgains with
  | first id _ => exact holding_of_ne d _ h
  | next _ _ => exact holding_of_ne d _ h

end AgreesAt

theorem eq_of_agreesAt (h : ∀ key, AgreesAt key d d') : d' = d := by
  have hcredentials : d'.credentials = d.credentials :=
    Dictionary.eq_of_get?_eq fun key => (h key).credentials
  have hlists : d'.accessLists = d.accessLists :=
    Dictionary.eq_of_get?_eq fun key => (h key).accessLists
  cases d
  cases d'
  congr

end StoreData

namespace Inquiry

variable {α : Type}

def LooksAt (key : String) (q : Inquiry α) : Prop :=
  ∀ d d', StoreData.AgreesAt key d d' → ∀ now ps, q.runOn d' now ps = q.runOn d now ps

namespace LooksAt

variable {key name : String}

theorem collect (parameters : List AuditParameters) : LooksAt key (Inquiry.collect parameters) :=
  fun _ _ _ _ _ => rfl

theorem resolveName (name : String) : LooksAt key (Inquiry.resolveName name) :=
  fun _ _ _ _ _ => rfl

theorem resolveFor (actor : String) (hname : Naming.key name = key) :
    LooksAt key (Inquiry.resolveFor actor name) := by
  subst hname
  intro d d' h now ps
  rw [runOn_resolveFor, runOn_resolveFor, h.operationsFor_eq]

end LooksAt

end Inquiry

namespace Transaction

/-- The same stands under the key in both transactions, under its name, and they have come to the
same in everything else but their journals. -/
structure AgreesAt (key : String) (t t' : Transaction) : Prop where
  data : t.data.AgreesAt key t'.data
  keyed : t.data.KeyedAt key
  occasion : t'.occasion = t.occasion
  drawn : t'.drawn = t.drawn
  parameters : t'.parameters = t.parameters

namespace AgreesAt

variable {key name : String} {t t' : Transaction}

theorem refl (h : t.data.KeyedAt key) : AgreesAt key t t := ⟨.refl key _, h, rfl, rfl, rfl⟩

theorem now_eq (h : AgreesAt key t t') : t'.now = t.now := by rw [now, now, h.occasion]

theorem draw_eq (h : AgreesAt key t t') : t'.draw.1 = t.draw.1 := by
  rw [draw, draw, h.occasion, h.drawn]

theorem draw (h : AgreesAt key t t') : AgreesAt key t.draw.2 t'.draw.2 :=
  ⟨h.data, h.keyed, h.occasion, congrArg (· + 1) h.drawn, h.parameters⟩

theorem putVersion (h : AgreesAt (Naming.key name) t t') (v : Version) :
    (t'.putVersion name v).1 = (t.putVersion name v).1 ∧
      AgreesAt (Naming.key name) (t.putVersion name v).2 (t'.putVersion name v).2 := by
  cases hheld : t.data.find? name with
  | none =>
    rw [putVersion_of_find?_eq_none v hheld,
      putVersion_of_find?_eq_none v (h.data.find?_eq.trans hheld), h.draw_eq]
    refine ⟨rfl, h.data.holding _, fun c hc => ?_, h.occasion, congrArg (· + 1) h.drawn,
      h.parameters⟩
    cases (t.data.get?_holding_self _ _).symm.trans hc
    rfl
  | some held =>
    have hheld' := h.data.find?_eq.trans hheld
    cases happend : held.append v with
    | ok c =>
      rw [putVersion_of_append_eq_ok hheld happend, putVersion_of_append_eq_ok hheld' happend]
      obtain ⟨-, rfl⟩ := Credential.append_eq_ok.1 happend
      refine ⟨rfl, h.data.holding _, fun c hc => ?_, h.occasion, h.drawn, h.parameters⟩
      cases (t.data.get?_holding_self _ _).symm.trans hc
      exact h.keyed held hheld
    | error fault =>
      rw [putVersion_of_append_eq_error hheld happend,
        putVersion_of_append_eq_error hheld' happend]
      exact ⟨rfl, h.data, h.keyed, h.occasion, h.drawn, h.parameters⟩

theorem remove (h : AgreesAt (Naming.key name) t t') :
    (t'.remove name).1 = (t.remove name).1 ∧
      AgreesAt (Naming.key name) (t.remove name).2 (t'.remove name).2 := by
  refine ⟨congrArg Option.isSome h.data.credentials, ⟨?_, ?_⟩, fun c hc => ?_, h.occasion, h.drawn,
    h.parameters⟩
  · exact (Dictionary.get?_erase_self _ _).trans (Dictionary.get?_erase_self _ _).symm
  · exact (Dictionary.get?_erase_self _ _).trans (Dictionary.get?_erase_self _ _).symm
  · cases (Dictionary.get?_erase_self _ _).symm.trans hc

theorem updateOperations (h : AgreesAt (Naming.key name) t t') (actor : String)
    (f : OperationSet → OperationSet) :
    AgreesAt (Naming.key name) (t.updateOperations name actor f)
      (t'.updateOperations name actor f) :=
  ⟨h.data.updating fun list => list.insert actor (f (list.operationsOf actor)), h.keyed,
    h.occasion, h.drawn, h.parameters⟩

theorem removeActor (h : AgreesAt (Naming.key name) t t') (actor : String) :
    (t'.removeActor name actor).1 = (t.removeActor name actor).1 ∧
      AgreesAt (Naming.key name) (t.removeActor name actor).2 (t'.removeActor name actor).2 := by
  cases hlist : t.data.accessList? name with
  | none =>
    rw [removeActor_of_accessList?_eq_none hlist,
      removeActor_of_accessList?_eq_none (h.data.accessList?_eq.trans hlist)]
    exact ⟨rfl, h.data, h.keyed, h.occasion, h.drawn, h.parameters⟩
  | some list =>
    rw [removeActor_of_accessList?_eq_some hlist,
      removeActor_of_accessList?_eq_some (h.data.accessList?_eq.trans hlist)]
    refine ⟨rfl, ⟨h.data.credentials, ?_⟩, h.keyed, h.occasion, h.drawn, h.parameters⟩
    exact (Dictionary.get?_insert_self _ _ _).trans (Dictionary.get?_insert_self _ _ _).symm

end AgreesAt

end Transaction

namespace Work

variable {α β : Type} {key name : String}

/-- Work that is confined to the key. In transactions that agree there it has one outcome and leaves
them in agreement, and whatever stands under another key stays. -/
structure IsConfined (key : String) (w : Work α) : Prop where
  reads : ∀ {t t'}, Transaction.AgreesAt key t t' →
    (w.runIn t').1 = (w.runIn t).1 ∧ (w.runIn t).2.AgreesAt key (w.runIn t').2
  keeps : ∀ {t : Transaction}, t.data.KeyedAt key → ∀ {other}, other ≠ key →
    t.data.AgreesAt other (w.runIn t).2.data

namespace IsConfined

theorem keyedAt {w : Work α} (hw : w.IsConfined key) {t : Transaction} (h : t.data.KeyedAt key) :
    (w.runIn t).2.data.KeyedAt key := (hw.reads (.refl h)).2.keyed

theorem pure (a : α) : IsConfined key (Pure.pure a : Work α) :=
  ⟨fun h => ⟨rfl, h⟩, fun _ _ _ => .refl _ _⟩

theorem throw (fault : Fault) : IsConfined key (MonadExcept.throw fault : Work α) :=
  ⟨fun h => ⟨rfl, h⟩, fun _ _ _ => .refl _ _⟩

theorem inquiry {q : Inquiry α} (hq : q.LooksAt key) : IsConfined key (liftM q : Work α) where
  reads {t t'} h := by
    rw [runIn_inquiry, runIn_inquiry, h.now_eq, h.parameters, hq _ _ h.data]
    exact ⟨rfl, h.data, h.keyed, h.occasion, h.drawn, rfl⟩
  keeps _ _ _ := .refl _ _

theorem put (value : CredentialValue) (hname : Naming.key name = key) :
    IsConfined key (Work.put name value) := by
  subst hname
  constructor
  · intro t t' h
    rw [runIn_put, runIn_put, h.draw_eq, h.now_eq]
    exact h.draw.putVersion _
  · intro t _ other hother
    rw [runIn_put]
    rcases t.draw.2.data_putVersion name ⟨t.draw.1, t.now, value⟩ with hsame | hgains
    · rw [hsame]
      exact .refl _ _
    · exact .gains_of_ne hgains hother.symm

theorem remove (hname : Naming.key name = key) : IsConfined key (Work.remove name) := by
  subst hname
  refine ⟨fun h => ⟨congrArg Except.ok h.remove.1, h.remove.2⟩, fun _ other hother => ?_⟩
  exact ⟨Dictionary.get?_erase_of_ne _ hother.symm, Dictionary.get?_erase_of_ne _ hother.symm⟩

theorem updateOperations (actor : String) (f : OperationSet → OperationSet)
    (hname : Naming.key name = key) :
    IsConfined key (ofStep fun t => ((), t.updateOperations name actor f)) := by
  subst hname
  exact ⟨fun h => ⟨rfl, h.updateOperations actor f⟩, fun {t} _ _ hother =>
    .updating_of_ne t.data (fun list => list.insert actor (f (list.operationsOf actor)))
      hother.symm⟩

theorem replaceOperations (actor : String) (operations : OperationSet)
    (hname : Naming.key name = key) :
    IsConfined key (Work.replaceOperations name actor operations) :=
  updateOperations actor _ hname

theorem mergeOperations (actor : String) (operations : OperationSet)
    (hname : Naming.key name = key) :
    IsConfined key (Work.mergeOperations name actor operations) :=
  updateOperations actor _ hname

theorem removeActor (actor : String) (hname : Naming.key name = key) :
    IsConfined key (Work.removeActor name actor) := by
  subst hname
  refine ⟨fun h => ?_, fun {t} _ other hother => ?_⟩
  · obtain ⟨hfound, hleft⟩ := h.removeActor actor
    exact ⟨congrArg Except.ok hfound, hleft⟩
  · rw [Work.removeActor, runIn_ofStep]
    refine ⟨congrArg (·.get? other) (t.credentials_removeActor name actor), ?_⟩
    cases hlist : t.data.accessList? name with
    | none => rw [Transaction.removeActor_of_accessList?_eq_none hlist]; rfl
    | some list =>
      rw [Transaction.removeActor_of_accessList?_eq_some hlist]
      exact Dictionary.get?_insert_of_ne _ _ hother.symm

theorem bind {w : Work α} {f : α → Work β} (hw : w.IsConfined key)
    (hf : ∀ a, (f a).IsConfined key) : (w >>= f).IsConfined key := by
  constructor
  · intro t t' h
    obtain ⟨houtcome, hleft⟩ := hw.reads h
    rw [runIn_bind, runIn_bind]
    rcases hrun : w.runIn t with ⟨outcome, u⟩
    rcases hrun' : w.runIn t' with ⟨outcome', u'⟩
    rw [hrun, hrun'] at houtcome hleft
    cases houtcome
    cases outcome with
    | error fault => exact ⟨rfl, hleft⟩
    | ok a => exact (hf a).reads hleft
  · intro t h other hother
    have hkept := hw.keeps h hother
    have hkeyed := hw.keyedAt h
    rw [runIn_bind]
    rcases hrun : w.runIn t with ⟨fault | a, u⟩ <;> rw [hrun] at hkept hkeyed
    · exact hkept
    · exact hkept.trans ((hf a).keeps hkeyed hother)

theorem ite {p : Prop} [Decidable p] {v w : Work α} (hv : v.IsConfined key)
    (hw : w.IsConfined key) : IsConfined key (if p then v else w) := by
  split
  · exact hv
  · exact hw

theorem forM {xs : List α} {f : α → Work PUnit} (hf : ∀ x, (f x).IsConfined key) :
    IsConfined key (xs.forM f) := by
  induction xs with
  | nil => exact pure PUnit.unit
  | cons x rest ih => exact (hf x).bind fun _ => ih

theorem lift_bind {x : Except Fault α} {f : α → Work β}
    (hf : ∀ a, x = .ok a → (f a).IsConfined key) : IsConfined key (liftM x >>= f) := by
  cases x with
  | error fault => exact throw fault
  | ok a => exact hf a rfl

theorem data_bind {f : StoreData → Work β} (hf : ∀ d, (f d).IsConfined key)
    (hsame : ∀ {d d'}, StoreData.AgreesAt key d d' → f d' = f d) :
    IsConfined key ((liftM Inquiry.data : Work StoreData) >>= f) where
  reads {t t'} h := by
    rw [runIn_data_bind, runIn_data_bind, hsame h.data]
    exact (hf t.data).reads h
  keeps {t} h other hother := (hf t.data).keeps h hother

theorem require_bind {p : AccessPolicy} {actor : String} {op : Operation} {f : String → Work β}
    (hname : Naming.key name = key) (hf : ∀ stored, Naming.key stored = key →
      (f stored).IsConfined key) :
    IsConfined key ((liftM (p.require actor name op) : Work String) >>= f) := by
  subst hname
  have hstored : ∀ {d : StoreData} {stored}, d.KeyedAt (Naming.key name) →
      p.required d actor name [op] = .ok stored → Naming.key stored = Naming.key name := by
    intro d stored hkeyed hrequired
    obtain ⟨c, hc, -, rfl⟩ := AccessPolicy.required_eq_ok.1 hrequired
    exact hkeyed c hc
  constructor
  · intro t t' h
    have hsame : p.required t'.data actor name [op] = p.required t.data actor name [op] :=
      AccessPolicy.required_congr h.data.find?_eq h.data.accessList?_eq [op]
    cases hrequired : p.required t.data actor name [op] with
    | error fault =>
      rw [AccessPolicy.runIn_require_bind_of_error hrequired,
        AccessPolicy.runIn_require_bind_of_error (hsame.trans hrequired)]
      exact ⟨rfl, h⟩
    | ok stored =>
      rw [AccessPolicy.runIn_require_bind_of_ok hrequired,
        AccessPolicy.runIn_require_bind_of_ok (hsame.trans hrequired)]
      exact (hf stored (hstored h.keyed hrequired)).reads h
  · intro t h other hother
    cases hrequired : p.required t.data actor name [op] with
    | error fault =>
      rw [AccessPolicy.runIn_require_bind_of_error hrequired]
      exact .refl _ _
    | ok stored =>
      rw [AccessPolicy.runIn_require_bind_of_ok hrequired]
      exact (hf stored (hstored h hrequired)).keeps h hother

end IsConfined

end Work

end Strongroom
