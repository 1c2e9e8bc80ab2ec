import Strongroom.Api
import Strongroom.Proofs.AllOrNothing
import Strongroom.Proofs.Ancestry
import Strongroom.Proofs.Assembling
import Strongroom.Proofs.Reading

/-! What an actor may do nothing with is to that actor as if it were not there. Wherever a call
presupposes a credential, or is to sign with one, a hidden credential and a missing one lead to the
same response, and whatever is decided before they are looked for is decided alike. -/

namespace Strongroom

namespace Fault

def LooksLike (f g : Fault) : Prop := f.status = g.status ∧ f.response = g.response

theorem LooksLike.refl (f : Fault) : f.LooksLike f := ⟨rfl, rfl⟩

theorem notFound_looksLike (cause cause' : Denial) :
    (notFound cause).LooksLike (notFound cause') := ⟨rfl, rfl⟩

end Fault

theorem Response.ofFault_eq_of_looksLike {f g : Fault} (h : f.LooksLike g) :
    ofFault f = ofFault g := by
  rw [ofFault, ofFault, h.1, h.2]

namespace AccessPolicy

variable {α : Type} {p : AccessPolicy} {actor name : String} {op : Operation}
  {operations : List Operation} {fault : Fault}

theorem runOn_requireAny_bind_of_error {d : StoreData} {now : Time.Instant}
    {ps : List AuditParameters} (h : p.required d actor name operations = .error fault)
    (f : String → Inquiry α) :
    (p.requireAny actor name operations >>= f).runOn d now ps = (.error fault, ps) := by
  rw [Inquiry.runOn_bind, runOn_requireAny, h]

end AccessPolicy

namespace Call

/-- The name of a credential that has to be there already for the call to have an answer. -/
def presupposed? : Call → Option String
  | .regenerate name _ | .delete name | .get name | .versions name | .listPermissions name
  | .setPermissions name _ | .deletePermission name _ => some name
  | .renewBelow signedBy => signedBy
  | _ => none

def refusal (cause : Denial) : Call → Fault
  | .setPermissions _ entries =>
    if (AccessList.ofPermissions entries).permissions.any (AccessPolicy.isBlank ·.actor) then
      .validation .missingActor
    else .notFound cause
  | .renewBelow signedBy =>
    match Renewal.signerName signedBy with
    | .ok _ => .notFound cause
    | .error fault => fault
  | _ => .notFound cause

theorem refusal_looksLike (call : Call) (cause cause' : Denial) :
    (call.refusal cause).LooksLike (call.refusal cause') := by
  cases call with
  | setPermissions name entries =>
    rw [refusal, refusal]
    cases (AccessList.ofPermissions entries).permissions.any (AccessPolicy.isBlank ·.actor) with
    | true => exact .refl _
    | false => exact Fault.notFound_looksLike cause cause'
  | renewBelow signedBy =>
    rw [refusal, refusal]
    cases Renewal.signerName signedBy with
    | ok _ => exact Fault.notFound_looksLike cause cause'
    | error fault => exact .refl fault
  | _ => exact Fault.notFound_looksLike cause cause'

/-- Calls that are to have a certificate of the name signed with what is under the key: with the
signer that the call gives, or else with the one that the latest certificate has. -/
inductive SignsWith (d : StoreData) (key : String) : Call → String → Prop
  | generate {name signer : String} {request : CertificateRequest} {permissions : List Permission}
    {overwrite : Bool} (hsigner : request.signer = some signer) (hgiven : signer ≠ "")
    (hkey : Naming.key signer = key) :
    SignsWith d key (.generate name request permissions overwrite) name
  | regenerate {name signer : String} {overrides : CertificateRequest}
    (hsigner : overrides.signer = some signer) (hkey : Naming.key signer = key) :
    SignsWith d key (.regenerate name overrides) name
  | inherited {name signer : String} {overrides : CertificateRequest} {held : Credential}
    {latest : CertificateValue} (hsigner : overrides.signer = none)
    (hself : overrides.selfSign ≠ some true) (hheld : d.find? name = some held)
    (hlatest : held.latestCertificate? = some latest)
    (hsigned : latest.certificate.fields.selfSigned = false)
    (hrecorded : latest.signerName = some signer) (hkey : Naming.key signer = key) :
    SignsWith d key (.regenerate name overrides) name

end Call

namespace CertificateParameters

def SignedWith (p : CertificateParameters) (key : String) : Prop :=
  p.selfSigned = false ∧ ∃ signer, p.signerName = some signer ∧ Naming.key signer = key

variable {r : CertificateRequest} {p q : CertificateParameters} {signer : String}

theorem signedWith_of_signing {b : Prop} [Decidable b] {fault : Fault}
    (h : (if b then .error fault else .ok (false, some signer) : Except Fault _) =
      .ok (p.selfSigned, p.signerName)) : p.SignedWith (Naming.key signer) := by
  split at h
  · cases h
  · have hpair := Except.ok.inj h
    exact ⟨(congrArg Prod.fst hpair).symm, signer, (congrArg Prod.snd hpair).symm, rfl⟩

theorem signedWith_of_ofRequest {defaults : CertificateDefaults}
    (h : ofRequest r defaults = .ok p) (hsigner : r.signer = some signer) (hgiven : signer ≠ "") :
    p.SignedWith (Naming.key signer) := by
  have hsigning := (ofRequest_eq_ok.1 h).signing
  rw [signing_of_given hsigner hgiven] at hsigning
  exact signedWith_of_signing hsigning

theorem signedWith_of_override (h : p.override r = .ok q) (hsigner : r.signer = some signer) :
    q.SignedWith (Naming.key signer) := by
  have hsigning := (override_eq_ok.1 h).signing
  rw [overrideSigning_of_some hsigner] at hsigning
  exact signedWith_of_signing hsigning

theorem signing_of_override (h : p.override r = .ok q) (hsigner : r.signer = none)
    (hself : r.selfSign ≠ some true) :
    q.selfSigned = p.selfSigned ∧ q.signerName = p.signerName := by
  have hsigning := (override_eq_ok.1 h).signing
  rw [overrideSigning_of_none hsigner, if_neg hself] at hsigning
  have hpair := Except.ok.inj hsigning
  exact ⟨(congrArg Prod.fst hpair).symm, (congrArg Prod.snd hpair).symm⟩

end CertificateParameters

namespace Custodian

variable {c c' : Custodian} {caller : Caller} {occasion : Occasion} {key : String}

def Denies (c : Custodian) (actor key : String) (cause : Denial) : Prop :=
  ∀ name operations, Naming.key name = key →
    c.policy.required c.store.data actor name operations = .error (.notFound cause)

theorem inquire_of_error {α : Type} {q : Inquiry α} {f : α → Answer} {fault : Fault}
    (h : (q.runOn c.store.data occasion.now []).1 = .error fault) :
    (c.inquire caller occasion (f <$> q)).1 = .error fault := by
  rw [inquire_fst, h]
  rfl

theorem audited_of_error {α : Type} {status : UInt16} {w : Work α} {f : α → Answer} {fault : Fault}
    (h : (w.runIn (c.store.begin occasion)).1 = .error fault) :
    (c.audited caller occasion status (f <$> w)).1 = .error fault := by
  rw [audited_fst, h]
  rfl

theorem runOn_access_bind_of_error {α : Type} {policy : AccessPolicy} {d : StoreData}
    {now : Time.Instant} {ps : List AuditParameters} {actor name : String} {fault : Fault}
    (h : policy.required d actor name [.read] = .error fault) (f : String → Inquiry α) :
    ((access policy actor name >>= f).runOn d now ps).1 = .error fault := by
  have haccess := runOn_access policy actor name d now ps
  rw [h] at haccess
  rw [Inquiry.runOn_bind]
  rcases hrun : (access policy actor name).runOn d now ps with ⟨cause | stored, collected⟩ <;>
    rw [hrun] at haccess
  · cases haccess
    rfl
  · cases haccess

theorem perform_of_denies {call : Call} {name : String} {cause : Denial}
    (hdenies : c.Denies caller.actor key cause) (hname : call.presupposed? = some name)
    (hkey : Naming.key name = key) :
    (c.perform caller occasion call).1 = .error (call.refusal cause) := by
  have hrequired := fun operations => hdenies name operations hkey
  cases call with
  | set | generate | findByName | findByPath | findFolders => cases hname
  | get =>
    cases hname
    exact inquire_of_error (runOn_access_bind_of_error (hrequired _) _)
  | versions =>
    cases hname
    exact inquire_of_error (runOn_access_bind_of_error (hrequired _) _)
  | listPermissions =>
    cases hname
    refine inquire_of_error ?_
    rw [AccessPolicy.listPermissions, Inquiry.runOn_collect_bind,
      AccessPolicy.runOn_requireAny_bind_of_error (hrequired _)]
    rfl
  | regenerate =>
    cases hname
    refine audited_of_error ?_
    rw [regenerate, Work.runIn_collect_bind, AccessPolicy.runIn_require_bind_of_error (hrequired _)]
    rfl
  | delete =>
    cases hname
    refine audited_of_error ?_
    rw [delete, Work.runIn_collect_bind, AccessPolicy.runIn_require_bind_of_error (hrequired _)]
    rfl
  | deletePermission =>
    cases hname
    refine audited_of_error ?_
    rw [AccessPolicy.deletePermission, Work.runIn_data_bind, Work.runIn_collect_bind,
      AccessPolicy.runIn_require_bind_of_error (hrequired _)]
    rfl
  | setPermissions =>
    cases hname
    refine audited_of_error ?_
    rw [AccessPolicy.setPermissions, Work.runIn_collect_bind, Call.refusal]
    split
    · rfl
    · rw [AccessPolicy.runIn_require_bind_of_error (hrequired _)]
  | renewBelow signedBy =>
    cases hname
    refine renewBelow_of_planned_eq_error ?_
    rw [Call.refusal]
    cases hgiven : Renewal.signerName (some name) with
    | error fault =>
      rw [Renewal.planned, hgiven]
      rfl
    | ok given =>
      have hnames := Renewal.signerName_eq_ok.1 hgiven
      rw [Renewal.planned_of_names hnames, hdenies given _ (hnames.key_eq.trans hkey)]
      rfl

theorem pinned_of_signedWith {actor : String} {p : CertificateParameters} {cause : Denial}
    (hdenies : c.Denies actor key cause) (hp : p.SignedWith key) :
    pinned c.policy c.store.data actor p = .error (.notFound cause) := by
  obtain ⟨hself, signer, hsigner, hkey⟩ := hp
  rw [pinned, hself, if_neg Bool.false_ne_true, hsigner]
  dsimp only
  rw [hdenies signer _ hkey]
  rfl

theorem runIn_issueAs_of_signedWith {actor name : String} {p : CertificateParameters}
    {cause : Denial} {t : Transaction} (hdenies : c.Denies actor key cause)
    (hp : p.SignedWith key) (hdata : t.data = c.store.data) :
    (issueAs c.issuer c.policy actor p name).runIn t = (.error (.notFound cause), t) := by
  have hpinned := pinned_of_signedWith hdenies hp
  rw [← hdata] at hpinned
  refine Work.runIn_bind_of_eq_error ?_
  rw [Work.runIn_inquiry, runOn_pinSigner, hpinned]

def unwritten (policy : AccessPolicy) (d : StoreData) (actor normal : String) (overwrite : Bool)
    (fault : Fault) : Except Fault Version :=
  match d.find? normal with
  | none => .error fault
  | some held =>
    (policy.required d actor normal [.write]).bind fun _ =>
      if overwrite then .error fault else .ok held.latest

theorem runIn_write_of_put_error {actor normal : String} {permissions : List Permission}
    {overwrite : Bool} {put : String → Work Unit} {fault : Fault} {t : Transaction}
    (hstored : ∀ {held}, t.data.find? normal = some held → t.data.find? held.name = some held)
    (hput : ∀ target t', t'.data = t.data → (put target).runIn t' = (.error fault, t')) :
    ((write c.policy actor normal permissions overwrite put).runIn t).1 =
      unwritten c.policy t.data actor normal overwrite fault := by
  rw [write, Work.runIn_data_bind, unwritten]
  cases hheld : t.data.find? normal with
  | none =>
    rw [StoreData.contains, hheld, if_pos (by simp)]
    rw [Work.runIn_bind_of_eq_error (hput normal t rfl)]
  | some held =>
    rw [StoreData.contains, hheld, if_neg (by simp)]
    cases hrequired : c.policy.required t.data actor normal [.write] with
    | error denied =>
      rw [AccessPolicy.runIn_require_bind_of_error hrequired]
      rfl
    | ok stored =>
      obtain ⟨_, hfound, -, rfl⟩ := AccessPolicy.required_eq_ok.1 hrequired
      cases hheld.symm.trans hfound
      rw [AccessPolicy.runIn_require_bind_of_ok hrequired]
      cases overwrite with
      | true =>
        rw [if_pos rfl, Work.runIn_bind_of_eq_error (hput held.name t rfl)]
        rfl
      | false =>
        have hlatest := runIn_latestVersion_eq_ok.2 ⟨held, hstored hheld, rfl, rfl⟩
        rw [if_neg Bool.false_ne_true, hlatest]
        rfl

theorem generate_of_signedWith (occasion : Occasion) (name : String) {request : CertificateRequest}
    (permissions : List Permission) (overwrite : Bool) {cause : Denial}
    (hdenies : c.Denies caller.actor key cause)
    (hstored : ∀ {normal held}, Naming.key normal = Naming.key name →
      c.store.data.find? normal = some held → c.store.data.find? held.name = some held)
    (hsigned : ∀ p, CertificateParameters.ofRequest request c.config.certificates = .ok p →
      p.SignedWith key) :
    (c.perform caller occasion (.generate name request permissions overwrite)).1 =
      ((Naming.normalize name).bind fun normal =>
        (CertificateParameters.ofRequest request c.config.certificates).bind fun _ =>
          unwritten c.policy c.store.data caller.actor normal overwrite (.notFound cause)).map
        .version := by
  refine audited_fst.trans (congrArg (Except.map Answer.version) ?_)
  rw [generate, Work.runIn_collect_bind, Work.runIn_lift_bind]
  cases hname : Naming.normalize name with
  | error fault => rfl
  | ok normal =>
    dsimp only
    rw [Work.runIn_lift_bind]
    cases hp : CertificateParameters.ofRequest request c.config.certificates with
    | error fault => rfl
    | ok p =>
      dsimp only
      rw [runIn_write_of_put_error (hstored (Naming.key_normalize hname)) fun target t' hdata =>
        runIn_issueAs_of_signedWith hdenies (hsigned p hp) hdata]
      rfl

def unrenewed (policy : AccessPolicy) (d : StoreData) (actor name : String)
    (overrides : CertificateRequest) (fault : Fault) : Except Fault Version :=
  (policy.required d actor name [.write]).bind fun stored =>
    match (d.find? stored).bind (·.latestCertificate?) with
    | none => .error (.invalid .notACertificate (some stored))
    | some v =>
      ((CertificateParameters.ofCertificate v.certificate v.signerName).override overrides).bind
        fun _ => .error fault

theorem regenerate_of_signedWith (occasion : Occasion) {name : String}
    {overrides : CertificateRequest} {cause : Denial} (hdenies : c.Denies caller.actor key cause)
    (hstored : ∀ {held}, c.store.data.find? name = some held →
      c.store.data.find? held.name = some held)
    (hsigned : ∀ held v p, c.store.data.find? name = some held →
      held.latestCertificate? = some v →
      (CertificateParameters.ofCertificate v.certificate v.signerName).override overrides = .ok p →
      p.SignedWith key) :
    (c.perform caller occasion (.regenerate name overrides)).1 =
      (unrenewed c.policy c.store.data caller.actor name overrides (.notFound cause)).map
        .version := by
  refine audited_fst.trans (congrArg (Except.map Answer.version) ?_)
  rw [regenerate, Work.runIn_collect_bind, unrenewed]
  cases hrequired : c.policy.required c.store.data caller.actor name [.write] with
  | error denied =>
    rw [AccessPolicy.runIn_require_bind_of_error hrequired]
    rfl
  | ok stored =>
    obtain ⟨held, hfound, -, rfl⟩ := AccessPolicy.required_eq_ok.1 hrequired
    rw [AccessPolicy.runIn_require_bind_of_ok hrequired, Work.runIn_resolveFor_bind,
      Work.runIn_data_bind]
    dsimp only [Except.bind, Store.begin, Transaction.begin]
    rw [hstored hfound, Option.bind_some]
    cases hlatest : held.latestCertificate? with
    | none => rfl
    | some v =>
      dsimp only
      rw [Work.runIn_lift_bind]
      cases hp : (CertificateParameters.ofCertificate v.certificate v.signerName).override
          overrides with
      | error fault => rfl
      | ok p =>
        dsimp only
        rw [Work.runIn_bind_of_eq_error
          (runIn_issueAs_of_signedWith hdenies (hsigned held v p hfound hlatest hp) rfl)]

/-- Two custodians that differ in what is under a key: there is nothing in the one, and in the other
a credential with which the actor is recorded to be allowed nothing. -/
structure Conceals (c c' : Custodian) (actor key : String) : Prop where
  config : c'.config = c.config
  issuer : c'.issuer = c.issuer
  absent : c.store.data.credentials.get? key = none
  present : ∃ held, c'.store.data.credentials.get? key = some held
  powerless : ∀ list, c'.store.data.accessLists.get? key = some list → list.operationsOf actor = ∅
  credentials : ∀ other, other ≠ key →
    c'.store.data.credentials.get? other = c.store.data.credentials.get? other
  accessLists : ∀ other, other ≠ key →
    c'.store.data.accessLists.get? other = c.store.data.accessLists.get? other

def FailAlike (outcome outcome' : Except Fault Answer) : Prop :=
  ∃ f g, outcome = .error f ∧ outcome' = .error g ∧ f.LooksLike g

theorem FailAlike.error {f g : Fault} (h : f.LooksLike g) : FailAlike (.error f) (.error g) :=
  ⟨f, g, rfl, rfl, h⟩

namespace Conceals

variable {actor : String}

theorem denies_absent (h : Conceals c c' actor key) : c.Denies actor key .credentialMissing := by
  rintro name operations rfl
  have habsent : c.store.data.find? name = none := h.absent
  rw [AccessPolicy.required, AccessPolicy.authorize, habsent]

theorem denies_present (h : Conceals c c' actor key) (henforced : c.config.aclsEnabled = true) :
    c'.Denies actor key .insufficientPermission := by
  rintro name operations rfl
  obtain ⟨held, hheld⟩ := h.present
  have hfound : c'.store.data.find? name = some held := hheld
  have hnothing : c'.store.data.operationsFor name actor = ∅ := by
    unfold StoreData.operationsFor
    cases hlist : c'.store.data.accessList? name with
    | none => rfl
    | some list => exact h.powerless list hlist
  have hpermits : ∀ op, c'.policy.permits c'.store.data name actor op = false := by
    intro op
    rw [not_permits_iff_not_allows, Allows, hnothing]
    rintro ⟨-, hrecorded⟩
    cases op <;> cases hrecorded (h.config ▸ henforced)
  have hany : operations.any (c'.policy.permits c'.store.data name actor) = false :=
    List.any_eq_false.2 fun op _ => by simp [hpermits]
  rw [AccessPolicy.required, AccessPolicy.authorize, hfound]
  simp [hany]

variable {name : String}

theorem find?_eq (h : Conceals c c' actor key) (hname : Naming.key name ≠ key) :
    c'.store.data.find? name = c.store.data.find? name := h.credentials _ hname

theorem required_eq (h : Conceals c c' actor key) (hname : Naming.key name ≠ key)
    (operations : List Operation) :
    c'.policy.required c'.store.data actor name operations =
      c.policy.required c.store.data actor name operations := by
  rw [policy, h.config]
  exact AccessPolicy.required_congr (h.find?_eq hname) (h.accessLists _ hname) operations

theorem find?_name (h : Conceals c c' actor key) (hsound : c.store.data.Sound)
    (hname : Naming.key name ≠ key) {held : Credential}
    (hheld : c'.store.data.find? name = some held) :
    c'.store.data.find? held.name = some held := by
  rw [h.find?_eq hname] at hheld
  have hkey : Naming.key held.name ≠ key := fun he => hname ((hsound.keyed hheld).symm.trans he)
  rw [h.find?_eq hkey, hsound.find?_name hheld]

theorem unwritten_alike (h : Conceals c c' actor key) {normal : String} (overwrite : Bool)
    (cause cause' : Denial) (hnormal : Naming.key normal ≠ key) :
    FailAlike
        ((unwritten c.policy c.store.data actor normal overwrite (.notFound cause)).map .version)
        ((unwritten c'.policy c'.store.data actor normal overwrite (.notFound cause')).map
          .version) ∨
      ∃ held, c.store.data.find? normal = some held ∧
        unwritten c.policy c.store.data actor normal overwrite (.notFound cause) =
          .ok held.latest ∧
        unwritten c'.policy c'.store.data actor normal overwrite (.notFound cause') =
          .ok held.latest := by
  rw [unwritten, unwritten, h.find?_eq hnormal, h.required_eq hnormal]
  cases c.store.data.find? normal with
  | none => exact .inl (.error (Fault.notFound_looksLike cause cause'))
  | some held =>
    cases c.policy.required c.store.data actor normal [.write] with
    | error denied => exact .inl (.error (.refl denied))
    | ok stored =>
      cases overwrite with
      | true => exact .inl (.error (Fault.notFound_looksLike cause cause'))
      | false => exact .inr ⟨held, rfl, rfl, rfl⟩

theorem unrenewed_alike (h : Conceals c c' actor key) (overrides : CertificateRequest)
    (cause cause' : Denial) (hsound : c.store.data.Sound) (hname : Naming.key name ≠ key) :
    FailAlike
      ((unrenewed c.policy c.store.data actor name overrides (.notFound cause)).map .version)
      ((unrenewed c'.policy c'.store.data actor name overrides (.notFound cause')).map
        .version) := by
  rw [unrenewed, unrenewed, h.required_eq hname]
  cases hrequired : c.policy.required c.store.data actor name [.write] with
  | error denied => exact .error (.refl denied)
  | ok stored =>
    obtain ⟨held, hheld, -, rfl⟩ := AccessPolicy.required_eq_ok.1 hrequired
    have hfound := hsound.find?_name hheld
    have hfound' := h.find?_name hsound hname ((h.find?_eq hname).trans hheld)
    dsimp only [Except.bind]
    rw [hfound, hfound', Option.bind_some]
    cases held.latestCertificate? with
    | none => exact .error (.refl _)
    | some v =>
      dsimp only
      cases (CertificateParameters.ofCertificate v.certificate v.signerName).override overrides with
      | error fault => exact .error (.refl fault)
      | ok p => exact .error (Fault.notFound_looksLike cause cause')

theorem generate_alike (h : Conceals c c' caller.actor key)
    (henforced : c.config.aclsEnabled = true) (hsound : c.store.data.Sound)
    (hname : Naming.key name ≠ key) {request : CertificateRequest}
    (hsigned : ∀ p, CertificateParameters.ofRequest request c.config.certificates = .ok p →
      p.SignedWith key) (permissions : List Permission) (overwrite : Bool) :
    let outcome := (c.perform caller occasion (.generate name request permissions overwrite)).1
    let outcome' := (c'.perform caller occasion (.generate name request permissions overwrite)).1
    FailAlike outcome outcome' ∨ ∃ held, c.store.data.find? name = some held ∧
      outcome = .ok (.version held.latest) ∧ outcome' = .ok (.version held.latest) := by
  have hrun := generate_of_signedWith occasion name permissions overwrite h.denies_absent
    (fun _ hheld => hsound.find?_name hheld) hsigned
  have hrun' := generate_of_signedWith occasion name permissions overwrite
    (h.denies_present henforced) (fun hsame hheld => h.find?_name hsound (hsame ▸ hname) hheld)
    (h.config ▸ hsigned)
  intro outcome outcome'
  rw [show outcome = _ from hrun, show outcome' = _ from hrun', h.config]
  cases hnormal : Naming.normalize name with
  | error fault => exact .inl (.error (.refl fault))
  | ok normal =>
    dsimp only [Except.bind]
    cases CertificateParameters.ofRequest request c.config.certificates with
    | error fault => exact .inl (.error (.refl fault))
    | ok p =>
      have hkey : Naming.key normal = Naming.key name := Naming.key_normalize hnormal
      dsimp only
      rw [← StoreData.find?_eq_of_key_eq hkey]
      refine (h.unwritten_alike overwrite _ _ (hkey ▸ hname)).imp_right ?_
      rintro ⟨held, hheld, hkept, hkept'⟩
      exact ⟨held, hheld, by rw [hkept]; rfl, by rw [hkept']; rfl⟩

theorem regenerate_alike (h : Conceals c c' caller.actor key)
    (henforced : c.config.aclsEnabled = true) (hsound : c.store.data.Sound)
    (hname : Naming.key name ≠ key) {overrides : CertificateRequest}
    (hsigned : ∀ held v p, c.store.data.find? name = some held →
      held.latestCertificate? = some v →
      (CertificateParameters.ofCertificate v.certificate v.signerName).override overrides = .ok p →
      p.SignedWith key) :
    FailAlike (c.perform caller occasion (.regenerate name overrides)).1
      (c'.perform caller occasion (.regenerate name overrides)).1 := by
  rw [regenerate_of_signedWith occasion h.denies_absent hsound.find?_name hsigned,
    regenerate_of_signedWith occasion (h.denies_present henforced) (h.find?_name hsound hname)
      (h.find?_eq hname ▸ hsigned)]
  exact h.unrenewed_alike overrides _ _ hsound hname

end Conceals

/-- What the caller gets from the two custodians is the same wherever it is about what is under the
key: every request and every call that presupposes it, and every call that is to sign with it. -/
structure Indistinguishable (c c' : Custodian) (caller : Caller) (occasion : Occasion)
    (key : String) : Prop where
  requests : ∀ request : Api.Request,
    (∀ call, request.call = .ok call →
      ∃ name, call.presupposed? = some name ∧ Naming.key name = key) →
    (Api.handle c caller occasion request).1 = (Api.handle c' caller occasion request).1
  presupposing : ∀ call name, call.presupposed? = some name → Naming.key name = key →
    FailAlike (c.perform caller occasion call).1 (c'.perform caller occasion call).1
  signing : ∀ call name, Call.SignsWith c.store.data key call name → Naming.key name ≠ key →
    FailAlike (c.perform caller occasion call).1 (c'.perform caller occasion call).1 ∨
      ∃ held, c.store.data.find? name = some held ∧ c'.store.data.find? name = some held ∧
        (c.perform caller occasion call).1 = .ok (.version held.latest) ∧
        (c'.perform caller occasion call).1 = .ok (.version held.latest)

theorem Conceals.indistinguishable (h : Conceals c c' caller.actor key)
    (henforced : c.config.aclsEnabled = true) (hdata : c.store.data.Reachable)
    (occasion : Occasion) : Indistinguishable c c' caller occasion key where
  requests request hrequest := by
    rw [Api.handle, Api.handle, Api.answer, Api.answer]
    cases hcall : request.call with
    | error fault => rfl
    | ok call =>
      obtain ⟨name, hname, hkey⟩ := hrequest call hcall
      dsimp only
      rw [perform_of_denies h.denies_absent hname hkey,
        perform_of_denies (h.denies_present henforced) hname hkey]
      exact Response.ofFault_eq_of_looksLike (call.refusal_looksLike _ _)
  presupposing call name hname hkey := by
    rw [perform_of_denies h.denies_absent hname hkey,
      perform_of_denies (h.denies_present henforced) hname hkey]
    exact .error (call.refusal_looksLike _ _)
  signing call name hsigns hname := by
    cases hsigns with
    | @generate _ signer request permissions overwrite hsigner hgiven hkey =>
      subst hkey
      have hsigned : ∀ p, CertificateParameters.ofRequest request c.config.certificates = .ok p →
          p.SignedWith (Naming.key signer) := fun _ hp =>
        CertificateParameters.signedWith_of_ofRequest hp hsigner hgiven
      obtain halike | ⟨held, hheld, hkept, hkept'⟩ :=
        h.generate_alike henforced hdata.sound hname hsigned permissions overwrite
      · exact .inl halike
      · exact .inr ⟨held, hheld, (h.find?_eq hname).trans hheld, hkept, hkept'⟩
    | @regenerate _ signer overrides hsigner hkey =>
      subst hkey
      exact .inl (h.regenerate_alike henforced hdata.sound hname fun _ _ p _ _ hp =>
        CertificateParameters.signedWith_of_override hp hsigner)
    | @inherited _ signer overrides _ _ hsigner hself hheld hlatest hsigned hrecorded hkey =>
      refine .inl (h.regenerate_alike henforced hdata.sound hname fun _ v p hfound hv hp => ?_)
      cases hheld.symm.trans hfound
      cases hlatest.symm.trans hv
      obtain ⟨hsame, hsigner⟩ := CertificateParameters.signing_of_override hp hsigner hself
      exact ⟨hsame.trans hsigned, signer, hsigner.trans hrecorded, hkey⟩

theorem conceals_shared : Conceals (empty {} Issuance.issue) (shared []) "bob" "/db" where
  config := rfl
  issuer := rfl
  absent := rfl
  present := ⟨_, get?_shared []⟩
  powerless list hlist := by
    cases hlist
    rfl
  credentials other hother :=
    Dictionary.get?_insert_of_ne ∅ (⟨⟨0, 1⟩, "/db", secret, []⟩ : Credential) hother.symm
  accessLists other hother := by
    refine (StoreData.accessLists_updatingAll_of_ne _ AccessList.granting
      [⟨"alice", .full⟩, ⟨"bob", ∅⟩] hother.symm).trans ?_
    rfl

theorem Conceals.indistinguishable_shared :
    Conceals (empty {} Issuance.issue) (shared []) "bob" "/db" ∧
      Indistinguishable (empty {} Issuance.issue) (shared []) ⟨.ofNat 1, "bob"⟩ ⟨1, ⟨1, 0⟩⟩ "/db" :=
  ⟨conceals_shared, conceals_shared.indistinguishable rfl .start ⟨1, ⟨1, 0⟩⟩⟩

end Custodian

end Strongroom
