import Strongroom.Proofs.Renewal

/-! What a call can do to the data. A call that fails does nothing; one that succeeds has one of the
effects listed here, each with the permission that it took. -/

namespace Strongroom

def Call.isInquiry : Call → Bool
  | .get _ | .versions _ | .findByName _ | .findByPath _ | .findFolders | .listPermissions _ => true
  | _ => false

inductive Call.Writes : Call → String → List Permission → Bool → Prop
  | set (name : String) (value : CredentialValue) (permissions : List Permission)
    (overwrite : Bool) : Writes (.set name value permissions overwrite) name permissions overwrite
  | generate (name : String) (request : CertificateRequest) (permissions : List Permission)
    (overwrite : Bool) :
    Writes (.generate name request permissions overwrite) name permissions overwrite

namespace Custodian

/-- There is a credential of the name, and the actor is recorded to be allowed the operation on it,
unless access lists are not enforced. -/
def Allows (c : Custodian) (name actor : String) (op : Operation) : Prop :=
  c.store.data.contains name = true ∧
    (c.config.aclsEnabled = true → (c.store.data.operationsFor name actor).contains op = true)

theorem permits_iff_allows {c : Custodian} {name actor : String} {op : Operation} :
    c.policy.permits c.store.data name actor op = true ↔ c.Allows name actor op :=
  AccessPolicy.permits_iff

def pinned (policy : AccessPolicy) (d : StoreData) (actor : String) (p : CertificateParameters) :
    Except Fault CertificateParameters :=
  if p.selfSigned then .ok p
  else match p.signerName with
    | none => .ok p
    | some signer =>
      (policy.required d actor signer [.read]).map fun stored =>
        { p with signerName := some stored }

def IssuesAs (c : Custodian) (actor : String) (occasion : Occasion) (p : CertificateParameters)
    (name : String) (v : Version) : Prop :=
  ∃ q, pinned c.policy c.store.data actor p = .ok q ∧
    Renewal.Issued c.issuer occasion c.store.data name q v

def Makes (c : Custodian) (actor : String) (occasion : Occasion) :
    Call → String → Version → Prop
  | .set _ value _ _, _, v => ∃ n, v = ⟨⟨occasion.number, n⟩, occasion.now, value⟩
  | .generate _ request _ _, name, v =>
    ∃ p, CertificateParameters.ofRequest request c.config.certificates = .ok p ∧
      c.IssuesAs actor occasion p name v
  | .regenerate _ overrides, name, v =>
    ∃ held latest p, c.store.data.find? name = some held ∧
      held.latestCertificate? = some latest ∧
      (CertificateParameters.ofCertificate latest.certificate latest.signerName).override
        overrides = .ok p ∧
      c.IssuesAs actor occasion p name v
  | _, _, _ => False

/-- The answers of successful calls, and the data after them. -/
inductive Effect (c : Custodian) (actor : String) (occasion : Occasion) :
    Call → Answer → StoreData → Prop
  | looked {call : Call} {answer : Answer} (hcall : call.isInquiry = true) :
    Effect c actor occasion call answer c.store.data
  | kept {call : Call} {name normal : String} {permissions : List Permission} {held : Credential}
    (hcall : call.Writes name permissions false) (hname : Naming.normalize name = .ok normal)
    (hheld : c.store.data.find? normal = some held) (hallowed : c.Allows normal actor .write) :
    Effect c actor occasion call (.version held.latest) c.store.data
  | appended {call : Call} {name normal : String} {permissions : List Permission}
    {held : Credential} {v : Version}
    (hcall : call.Writes name permissions true) (hname : Naming.normalize name = .ok normal)
    (hheld : c.store.data.find? normal = some held) (hallowed : c.Allows normal actor .write)
    (hv : c.Makes actor occasion call held.name v) (hkind : v.value.kind = held.kind) :
    Effect c actor occasion call (.version v)
      (c.store.data.holding (Naming.key normal) (held.extended v))
  | created {call : Call} {name normal : String} {permissions : List Permission}
    {overwrite : Bool} {v : Version} (id : FreshId)
    (hcall : call.Writes name permissions overwrite) (hname : Naming.normalize name = .ok normal)
    (habsent : c.store.data.find? normal = none) (hv : c.Makes actor occasion call normal v) :
    Effect c actor occasion call (.version v)
      ((c.store.data.holding (Naming.key normal) ⟨id, normal, v, []⟩).updatingAll
        (Naming.key normal) AccessList.granting (⟨actor, .full⟩ :: permissions))
  | regenerated {name : String} {overrides : CertificateRequest} {held : Credential} {v : Version}
    (hheld : c.store.data.find? name = some held) (hallowed : c.Allows name actor .write)
    (hv : c.Makes actor occasion (.regenerate name overrides) held.name v)
    (hkind : v.value.kind = held.kind) :
    Effect c actor occasion (.regenerate name overrides) (.version v)
      (c.store.data.holding (Naming.key name) (held.extended v))
  | renewed {signedBy : Option String} {names : List String} {d' : StoreData}
    (hplan : Renewal.planned c.policy c.store.data actor signedBy = .ok names)
    (hall : Renewal.RenewedAll c.issuer occasion c.store.data names d') :
    Effect c actor occasion (.renewBelow signedBy) (.names names) d'
  | deleted {name : String} (hallowed : c.Allows name actor .delete) :
    Effect c actor occasion (.delete name) .done
      ⟨c.store.data.credentials.erase (Naming.key name),
        c.store.data.accessLists.erase (Naming.key name)⟩
  | permissionsSet {name : String} {entries : List Permission} {held : Credential}
    (hactors : ((AccessList.ofPermissions entries).permissions.any
      (AccessPolicy.isBlank ·.actor)) = false)
    (hheld : c.store.data.find? name = some held) (hallowed : c.Allows name actor .writeAcl) :
    Effect c actor occasion (.setPermissions name entries)
      (.permissions ⟨held.name, (AccessList.ofPermissions entries).permissions⟩)
      (c.store.data.updatingAll (Naming.key name) AccessList.setting
        (AccessList.ofPermissions entries).permissions)
  | permissionDeleted {name subject : String} {list : AccessList}
    (hallowed : c.Allows name actor .writeAcl)
    (hlist : c.store.data.accessList? name = some list) (hsubject : list.contains subject = true) :
    Effect c actor occasion (.deletePermission name subject) .done
      { c.store.data with
        accessLists := c.store.data.accessLists.insert (Naming.key name) (list.erase subject) }

end Custodian

end Strongroom
