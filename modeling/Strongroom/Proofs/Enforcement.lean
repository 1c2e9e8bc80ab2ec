import Strongroom.Proofs.Reading

/-! What the enforcement of access lists does to a call: it denies the call or has no part in it.
Every requirement of access is denied or comes to what it comes to where nothing is enforced, and
this passes to whatever is put together from requirements and other work, the order of its steps
being the same. -/

namespace Strongroom

def Denied {α : Type} (outcome : Except Fault α) : Prop :=
  ∃ fault, outcome = .error fault ∧ fault.isDenial = true

namespace Inquiry

variable {α β : Type}

def Restricts (q q' : Inquiry α) : Prop :=
  ∀ d now ps, Denied (q.runOn d now ps).1 ∨ q.runOn d now ps = q'.runOn d now ps

namespace Restricts

theorem refl (q : Inquiry α) : q.Restricts q := fun _ _ _ => .inr rfl

theorem bind {q q' : Inquiry α} {f f' : α → Inquiry β} (hq : q.Restricts q')
    (hf : ∀ a, (f a).Restricts (f' a)) : (q >>= f).Restricts (q' >>= f') := by
  intro d now ps
  rw [runOn_bind, runOn_bind]
  rcases hq d now ps with ⟨fault, hfault, hdenial⟩ | hsame
  · rcases hrun : q.runOn d now ps with ⟨outcome, collected⟩
    rw [hrun] at hfault
    cases hfault
    exact .inl ⟨fault, rfl, hdenial⟩
  · rw [← hsame]
    rcases q.runOn d now ps with ⟨fault | a, collected⟩
    · exact .inr rfl
    · exact hf a d now collected

theorem bind_left {q q' : Inquiry α} (f : α → Inquiry β) (hq : q.Restricts q') :
    (q >>= f).Restricts (q' >>= f) := hq.bind fun a => refl (f a)

theorem bind_right {q : Inquiry α} {f f' : α → Inquiry β} (hf : ∀ a, (f a).Restricts (f' a)) :
    (q >>= f).Restricts (q >>= f') := (refl q).bind hf

theorem map {q q' : Inquiry α} (g : α → β) (hq : q.Restricts q') :
    (g <$> q).Restricts (g <$> q') := by
  rw [map_eq_pure_bind, map_eq_pure_bind]
  exact hq.bind_left _

end Restricts

end Inquiry

namespace Work

variable {α β : Type}

def Restricts (w w' : Work α) : Prop := ∀ t, Denied (w.runIn t).1 ∨ w.runIn t = w'.runIn t

namespace Restricts

theorem refl (w : Work α) : w.Restricts w := fun _ => .inr rfl

theorem inquiry {q q' : Inquiry α} (hq : q.Restricts q') :
    Restricts (liftM q : Work α) (liftM q') := by
  intro t
  rw [runIn_inquiry, runIn_inquiry]
  refine (hq t.data t.now t.parameters).imp_right fun hsame => ?_
  rw [hsame]

theorem bind {w w' : Work α} {f f' : α → Work β} (hw : w.Restricts w')
    (hf : ∀ a, (f a).Restricts (f' a)) : (w >>= f).Restricts (w' >>= f') := by
  intro t
  rw [runIn_bind, runIn_bind]
  rcases hw t with ⟨fault, hfault, hdenial⟩ | hsame
  · rcases hrun : w.runIn t with ⟨outcome, t'⟩
    rw [hrun] at hfault
    cases hfault
    exact .inl ⟨fault, rfl, hdenial⟩
  · rw [← hsame]
    rcases w.runIn t with ⟨fault | a, t'⟩
    · exact .inr rfl
    · exact hf a t'

theorem bind_left {w w' : Work α} (f : α → Work β) (hw : w.Restricts w') :
    (w >>= f).Restricts (w' >>= f) := hw.bind fun a => refl (f a)

theorem bind_right {w : Work α} {f f' : α → Work β} (hf : ∀ a, (f a).Restricts (f' a)) :
    (w >>= f).Restricts (w >>= f') := (refl w).bind hf

theorem map {w w' : Work α} (g : α → β) (hw : w.Restricts w') :
    (g <$> w).Restricts (g <$> w') := by
  rw [← bind_pure_comp, ← bind_pure_comp]
  exact hw.bind_left _

theorem ite {p : Prop} [Decidable p] {v v' w w' : Work α} (hv : v.Restricts v')
    (hw : w.Restricts w') : Restricts (if p then v else w) (if p then v' else w') := by
  split
  · exact hv
  · exact hw

end Restricts

end Work

namespace AccessPolicy

def lenient : AccessPolicy := ⟨false⟩

variable {p : AccessPolicy} {d : StoreData} {actor name : String} {op : Operation}

theorem permits_lenient (h : p.permits d name actor op = true) :
    lenient.permits d name actor op = true :=
  permits_iff.2 ⟨(permits_iff.1 h).1, fun henforced => by cases henforced⟩

theorem required_restricts (p : AccessPolicy) (d : StoreData) (actor name : String)
    (operations : List Operation) :
    Denied (p.required d actor name operations) ∨
      p.required d actor name operations = lenient.required d actor name operations := by
  unfold required authorize
  cases d.find? name with
  | none => exact .inr rfl
  | some c =>
    cases hany : operations.any (p.permits d name actor) with
    | false => exact .inl ⟨_, rfl, rfl⟩
    | true =>
      obtain ⟨op, hop, hpermits⟩ := List.any_eq_true.1 hany
      have hlenient : operations.any (lenient.permits d name actor) = true :=
        List.any_eq_true.2 ⟨op, hop, permits_lenient hpermits⟩
      rw [hlenient]
      exact .inr rfl

variable (p actor name)

theorem requireAny_restricts (operations : List Operation) :
    (p.requireAny actor name operations).Restricts
      (lenient.requireAny actor name operations) := by
  intro d now ps
  rw [runOn_requireAny, runOn_requireAny]
  refine (p.required_restricts d actor name operations).imp_right fun hsame => ?_
  rw [hsame]

theorem require_restricts (op : Operation) :
    (p.require actor name op).Restricts (lenient.require actor name op) :=
  p.requireAny_restricts actor name [op]

theorem listPermissions_restricts :
    (p.listPermissions actor name).Restricts (lenient.listPermissions actor name) :=
  .bind_right fun _ => .bind_left _ (p.requireAny_restricts actor name _)

theorem setPermissions_restricts (entries : List Permission) :
    (p.setPermissions actor name entries).Restricts
      (lenient.setPermissions actor name entries) := by
  refine .bind_right fun _ => .ite (.refl _) ?_
  exact .bind_left _ (.inquiry (p.require_restricts actor name .writeAcl))

theorem deletePermission_restricts (subject : String) :
    (p.deletePermission actor name subject).Restricts
      (lenient.deletePermission actor name subject) := by
  refine .bind_right fun d => .bind_right fun _ => ?_
  exact .bind_left _ (.inquiry (p.require_restricts actor name .writeAcl))

end AccessPolicy

open AccessPolicy

namespace Renewal

theorem plan_restricts (p : AccessPolicy) (actor : String) (signedBy : Option String) :
    (plan p actor signedBy).Restricts (plan lenient actor signedBy) := by
  refine .bind_right fun _ => .bind_right fun given => ?_
  refine .bind (p.require_restricts actor given .read) fun root => .bind_right fun _ => ?_
  refine .bind_right fun d => .bind_right fun names => ?_
  cases hall : names.all (p.permits d · actor .write) with
  | false => exact fun _ _ _ => .inl ⟨_, rfl, rfl⟩
  | true =>
    have hlenient : names.all (lenient.permits d · actor .write) = true :=
      List.all_eq_true.2 fun name hname => permits_lenient (List.all_eq_true.1 hall name hname)
    rw [hlenient]
    exact .refl _

theorem renewBelow_restricts (issuer : Issuer) (p : AccessPolicy) (actor : String)
    (signedBy : Option String) :
    (renewBelow issuer p actor signedBy).Restricts (renewBelow issuer lenient actor signedBy) :=
  .bind_left _ (.inquiry (plan_restricts p actor signedBy))

end Renewal

namespace Custodian

variable (p : AccessPolicy) (actor name : String)

theorem pinSigner_restricts (params : CertificateParameters) :
    (pinSigner p actor params).Restricts (pinSigner lenient actor params) := by
  unfold pinSigner
  split
  · exact .refl _
  · cases params.signerName with
    | none => exact .refl _
    | some signer => exact .bind_left _ (p.require_restricts actor signer .read)

theorem issueAs_restricts (issuer : Issuer) (params : CertificateParameters) :
    (issueAs issuer p actor params name).Restricts (issueAs issuer lenient actor params name) :=
  .bind_left _ (.inquiry (pinSigner_restricts p actor params))

theorem write_restricts (permissions : List Permission) (overwrite : Bool)
    {put put' : String → Work Unit} (hput : ∀ target, (put target).Restricts (put' target)) :
    (write p actor name permissions overwrite put).Restricts
      (write lenient actor name permissions overwrite put') := by
  refine .bind_right fun d => .ite (.bind_left _ (hput name)) ?_
  refine .bind (.inquiry (p.require_restricts actor name .write)) fun stored => ?_
  exact .ite (.bind_left _ (hput stored)) (.refl _)

theorem set_restricts (value : CredentialValue) (permissions : List Permission)
    (overwrite : Bool) :
    (set p actor name value permissions overwrite).Restricts
      (set lenient actor name value permissions overwrite) := by
  refine .bind_right fun _ => .bind_right fun normal => ?_
  exact write_restricts p actor normal permissions overwrite fun target => .refl _

theorem generate_restricts (issuer : Issuer) (defaults : CertificateDefaults)
    (request : CertificateRequest) (permissions : List Permission) (overwrite : Bool) :
    (generate issuer p defaults actor name request permissions overwrite).Restricts
      (generate issuer lenient defaults actor name request permissions overwrite) := by
  refine .bind_right fun _ => .bind_right fun normal => .bind_right fun params => ?_
  exact write_restricts p actor normal permissions overwrite fun target =>
    issueAs_restricts p actor target issuer params

theorem regenerate_restricts (issuer : Issuer) (overrides : CertificateRequest) :
    (regenerate issuer p actor name overrides).Restricts
      (regenerate issuer lenient actor name overrides) := by
  refine .bind_right fun _ => ?_
  refine .bind (.inquiry (p.require_restricts actor name .write)) fun stored => ?_
  refine .bind_right fun _ => .bind_right fun d => ?_
  cases (d.find? stored).bind (·.latestCertificate?) with
  | none => exact .refl _
  | some v =>
    refine .bind_right fun params => ?_
    exact .bind_left _ (issueAs_restricts p actor stored issuer params)

theorem delete_restricts : (delete p actor name).Restricts (delete lenient actor name) :=
  .bind_right fun _ => .bind_left _ (.inquiry (p.require_restricts actor name .delete))

theorem access_restricts : (access p actor name).Restricts (access lenient actor name) :=
  .bind_right fun _ => .bind_left _ (p.require_restricts actor name .read)

theorem get_restricts : (get p actor name).Restricts (get lenient actor name) :=
  .bind_left _ (access_restricts p actor name)

theorem versions_restricts : (versions p actor name).Restricts (versions lenient actor name) :=
  .bind_left _ (access_restricts p actor name)

end Custodian

namespace Store

variable {α : Type} (s : Store) (caller : Caller) (status : UInt16)

theorem audited_restricts (occasion : Occasion) {w w' : Work α} (h : w.Restricts w') :
    Denied (s.audited caller status occasion w).1 ∨
      s.audited caller status occasion w = s.audited caller status occasion w' := by
  rw [audited_fst]
  refine (h (s.begin occasion)).imp_right fun hsame => ?_
  rw [audited, audited, hsame]

theorem inquire_restricts (now : Time.Instant) {q q' : Inquiry α} (h : q.Restricts q') :
    Denied (s.inquire caller status now q).1 ∨
      s.inquire caller status now q = s.inquire caller status now q' := by
  refine (h s.data now []).imp_right fun hsame => ?_
  rw [inquire, inquire, hsame]

end Store

def Call.isSearch : Call → Bool
  | .findByName _ | .findByPath _ | .findFolders => true
  | _ => false

namespace Custodian

def enforcing (c : Custodian) (enforced : Bool) : Custodian :=
  { c with config := { c.config with aclsEnabled := enforced } }

def Agree (left left' : Except Fault Answer × Custodian) : Prop :=
  left.1 = left'.1 ∧ left.2.store = left'.2.store

variable {c : Custodian} {caller : Caller} {occasion : Occasion}

theorem audited_agree {α : Type} {status : UInt16} {w w' : Work α} (f : α → Answer)
    (h : w.Restricts w') :
    Denied ((c.enforcing true).audited caller occasion status (f <$> w)).1 ∨
      Agree ((c.enforcing true).audited caller occasion status (f <$> w))
        ((c.enforcing false).audited caller occasion status (f <$> w')) := by
  rcases c.store.audited_restricts caller status occasion (h.map f) with hdenied | hsame
  · exact .inl hdenied
  · exact .inr ⟨congrArg (·.1) hsame, congrArg (·.2) hsame⟩

theorem inquire_agree {α : Type} {q q' : Inquiry α} (f : α → Answer) (h : q.Restricts q') :
    Denied ((c.enforcing true).inquire caller occasion (f <$> q)).1 ∨
      Agree ((c.enforcing true).inquire caller occasion (f <$> q))
        ((c.enforcing false).inquire caller occasion (f <$> q')) := by
  rcases c.store.inquire_restricts caller okStatus occasion.now (h.map f) with hdenied | hsame
  · exact .inl hdenied
  · exact .inr ⟨congrArg (·.1) hsame, congrArg (·.2) hsame⟩

theorem denied_or_agree (c : Custodian) (caller : Caller) (occasion : Occasion) {call : Call}
    (hcall : call.isSearch = false) :
    Denied ((c.enforcing true).perform caller occasion call).1 ∨
      Agree ((c.enforcing true).perform caller occasion call)
        ((c.enforcing false).perform caller occasion call) := by
  unfold perform
  cases call with
  | set name value permissions overwrite =>
    exact audited_agree _ (set_restricts _ _ name value permissions overwrite)
  | generate name request permissions overwrite =>
    exact audited_agree _ (generate_restricts _ _ name c.issuer _ request permissions overwrite)
  | regenerate name overrides =>
    exact audited_agree _ (regenerate_restricts _ _ name c.issuer overrides)
  | renewBelow signedBy =>
    exact audited_agree _ (Renewal.renewBelow_restricts c.issuer _ _ signedBy)
  | delete name => exact audited_agree _ (delete_restricts _ _ name)
  | get name => exact inquire_agree _ (get_restricts _ _ name)
  | versions name => exact inquire_agree _ (versions_restricts _ _ name)
  | listPermissions name => exact inquire_agree _ (listPermissions_restricts _ _ name)
  | setPermissions name entries =>
    exact audited_agree _ (setPermissions_restricts _ _ name entries)
  | deletePermission name subject =>
    exact audited_agree _ (deletePermission_restricts _ _ name subject)
  | findByName | findByPath | findFolders => cases hcall

/-- What is not denied where access lists are enforced is answered alike where they are not, and
leaves the same data and the same log. -/
theorem agree_of_not_denied (c : Custodian) (caller : Caller) (occasion : Occasion) {call : Call}
    (hcall : call.isSearch = false)
    (h : ∀ fault, ((c.enforcing true).perform caller occasion call).1 = .error fault →
      fault.isDenial = false) :
    Agree ((c.enforcing true).perform caller occasion call)
      ((c.enforcing false).perform caller occasion call) := by
  rcases denied_or_agree c caller occasion hcall with ⟨fault, hfault, hdenial⟩ | hagree
  · rw [h fault hfault] at hdenial
    cases hdenial
  · exact hagree

/-- Bob, who may write what Alice has set, is told that it is no certificate, and would be told so
if access lists were not enforced. -/
theorem agree_of_not_denied_shared :
    (((shared [.write]).enforcing true).perform ⟨.ofNat 1, "bob"⟩ ⟨1, ⟨1, 0⟩⟩
        (.regenerate "/DB" {})).1 = .error (.invalid .notACertificate (some "/db")) ∧
      Agree
        (((shared [.write]).enforcing true).perform ⟨.ofNat 1, "bob"⟩ ⟨1, ⟨1, 0⟩⟩
          (.regenerate "/DB" {}))
        (((shared [.write]).enforcing false).perform ⟨.ofNat 1, "bob"⟩ ⟨1, ⟨1, 0⟩⟩
          (.regenerate "/DB" {})) := by
  have hanswer : (((shared [.write]).enforcing true).perform ⟨.ofNat 1, "bob"⟩ ⟨1, ⟨1, 0⟩⟩
      (.regenerate "/DB" {})).1 = .error (.invalid .notACertificate (some "/db")) := rfl
  refine ⟨hanswer, agree_of_not_denied _ _ _ rfl fun fault hfault => ?_⟩
  cases hanswer.symm.trans hfault
  rfl

end Custodian

end Strongroom
