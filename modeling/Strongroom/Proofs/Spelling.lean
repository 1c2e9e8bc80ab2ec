import Strongroom.Proofs.Ancestry
import Strongroom.Proofs.Assembling
import Strongroom.Proofs.Authority
import Strongroom.Proofs.Likeness
import Strongroom.Proofs.Reading

/-! How the name of a credential is spelled does not matter. Every spelling of a name that is stored
has a normal form, since the stored one has, and leads to the same credential; from there on work
goes on under the stored name, and only what was collected shows how the name was spelled. -/

namespace Strongroom

namespace StoreData

def Interchangeable (d : StoreData) (x y : String) : Prop :=
  x = y ∨ Naming.key x = Naming.key y ∧ d.contains x = true

def WellNamed (d : StoreData) : Prop :=
  ∀ key, (d.credentials.get? key).isSome = true → Naming.hasEmptySegment key.toList = false

variable {d d' : StoreData} {x y : String}

theorem contains_eq_of_key_eq (h : Naming.key x = Naming.key y) : d.contains x = d.contains y := by
  rw [contains, contains, find?_eq_of_key_eq h]

theorem Interchangeable.key_eq (h : d.Interchangeable x y) : Naming.key x = Naming.key y := by
  rcases h with rfl | ⟨hkey, -⟩
  · rfl
  · exact hkey

theorem WellNamed.normalize (hd : d.WellNamed) (h : d.contains x = true) :
    ∃ normal, Naming.normalize x = .ok normal :=
  ⟨_, Naming.normalize_eq_ok_iff.2 ⟨hd _ h, rfl⟩⟩

theorem Interchangeable.normalize (h : d.Interchangeable x y) (hd : d.WellNamed) :
    (Naming.normalize x).Parallel d.Interchangeable (Naming.normalize y) := by
  rcases h with rfl | ⟨hkey, hthere⟩
  · exact .refl (fun _ => .inl rfl) _
  · obtain ⟨normal, hnormal⟩ := hd.normalize hthere
    obtain ⟨normal', hnormal'⟩ := hd.normalize (contains_eq_of_key_eq hkey ▸ hthere)
    have hsame : Naming.key normal = Naming.key x := Naming.key_normalize hnormal
    rw [hnormal, hnormal']
    refine .ok (.inr ⟨?_, contains_eq_of_key_eq hsame ▸ hthere⟩)
    rw [hsame, hkey, Naming.key_normalize hnormal']

theorem WellNamed.ne_empty (hd : d.WellNamed) (h : d.contains x = true) : x ≠ "" := by
  rintro rfl
  have hempty : Naming.hasEmptySegment (Naming.key "").toList = true := rfl
  rw [hd _ h] at hempty
  cases hempty

theorem wellNamed_empty : WellNamed ∅ := fun _ h => by cases h

theorem WellNamed.of_isSome_eq (hd : d.WellNamed)
    (h : ∀ key, (d'.credentials.get? key).isSome = (d.credentials.get? key).isSome) :
    d'.WellNamed := fun key hkey => hd key (h key ▸ hkey)

theorem WellNamed.holding (hd : d.WellNamed) (c : Credential)
    (h : Naming.hasEmptySegment (Naming.key x).toList = false) :
    (d.holding (Naming.key x) c).WellNamed := by
  intro key hkey
  by_cases hsame : Naming.key x = key
  · exact hsame ▸ h
  · rw [d.get?_holding_of_ne c hsame] at hkey
    exact hd key hkey

end StoreData

namespace Custodian

theorem Effect.wellNamed {c : Custodian} {actor : String} {occasion : Occasion} {call : Call}
    {answer : Answer} {d' : StoreData} (h : c.Effect actor occasion call answer d')
    (hd : c.store.data.WellNamed) : d'.WellNamed := by
  cases h with
  | looked | kept => exact hd
  | appended hcall hname hheld => exact hd.holding _ (hd _ (Option.isSome_of_mem hheld))
  | regenerated hheld => exact hd.holding _ (hd _ (Option.isSome_of_mem hheld))
  | @created _ _ normal _ _ v id hcall hname =>
    have hnormal : Naming.hasEmptySegment (Naming.key normal).toList = false := by
      rw [Naming.key_normalize hname]
      exact (Naming.normalize_eq_ok_iff.1 hname).1
    refine (hd.holding ⟨id, normal, v, []⟩ hnormal).of_isSome_eq fun key => ?_
    rw [StoreData.credentials_updatingAll]
  | @renewed _ names _ hplan hall =>
    obtain ⟨_, _, -, -, -, hnames, -⟩ := Renewal.planned_eq_ok.1 hplan
    have hgrown := hall.grownAt (SigningGraph.descendants_eq_ok hnames).2.1
    refine hd.of_isSome_eq fun key => ?_
    by_cases hkey : key ∈ names.map Naming.key
    · obtain ⟨name, hname, rfl⟩ := List.mem_map.1 hkey
      obtain ⟨held, v, hheld, hfinal⟩ := hgrown.grown name hname
      exact (congrArg Option.isSome hfinal).trans (congrArg Option.isSome hheld).symm
    · rw [hgrown.kept key hkey]
  | @deleted name =>
    intro key hkey
    by_cases hsame : Naming.key name = key
    · rw [← hsame, Dictionary.get?_erase_self] at hkey
      cases hkey
    · rw [Dictionary.get?_erase_of_ne _ hsame] at hkey
      exact hd key hkey
  | permissionsSet =>
    exact hd.of_isSome_eq fun key => by rw [StoreData.credentials_updatingAll]
  | permissionDeleted => exact hd

theorem Reachable.wellNamed {config : Config} {issuer : Issuer} {c : Custodian}
    (h : Reachable config issuer c) : c.store.data.WellNamed := by
  induction h with
  | start => exact StoreData.wellNamed_empty
  | @perform c h caller occasion call ih =>
    cases hanswer : (c.perform caller occasion call).1 with
    | error fault => exact data_perform_of_error hanswer ▸ ih
    | ok answer => exact (effect_of_perform h.sound hanswer).wellNamed ih
  | logged _ _ ih => exact ih

end Custodian

namespace AccessPolicy

variable {d : StoreData} {x y : String}

theorem permits_eq_of_key_eq (p : AccessPolicy) (h : Naming.key x = Naming.key y)
    (actor : String) : p.permits d x actor = p.permits d y actor := by
  funext op
  rw [permits, permits, StoreData.contains, StoreData.contains, StoreData.find?_eq_of_key_eq h,
    d.operationsFor_eq_of_key_eq h]

theorem required_eq_of_key_eq (p : AccessPolicy) (h : Naming.key x = Naming.key y) (actor : String)
    (operations : List Operation) :
    p.required d actor x operations = p.required d actor y operations := by
  rw [required, required, authorize, authorize, StoreData.find?_eq_of_key_eq h,
    p.permits_eq_of_key_eq h]

theorem requireAny_alikeOn (p : AccessPolicy) (h : Naming.key x = Naming.key y) (actor : String)
    (operations : List Operation) :
    (p.requireAny actor x operations).AlikeOn d (p.requireAny actor y operations) := by
  intro now ps ps'
  rw [runOn_requireAny, runOn_requireAny, p.required_eq_of_key_eq h]

theorem listPermissions_alikeOn (p : AccessPolicy) (h : Naming.key x = Naming.key y)
    (actor : String) : (p.listPermissions actor x).AlikeOn d (p.listPermissions actor y) := by
  refine .bind (.collect _ _) fun _ => .bind (p.requireAny_alikeOn h actor _) fun resolved => ?_
  exact .bind (.resolveName resolved) fun _ => .data_bind (.pure _)

theorem find?_of_required_eq_ok {p : AccessPolicy} {actor stored : String}
    {operations : List Operation} (h : p.required d actor x operations = .ok stored) :
    ∃ c, d.find? x = some c ∧ c.name = stored := by
  obtain ⟨c, hc, -, hname⟩ := required_any_eq_ok.1 h
  exact ⟨c, hc, hname⟩

theorem runOn_listPermissions_eq_ok {p : AccessPolicy} {actor : String} {view : PermissionsView}
    {now : Time.Instant} {ps : List AuditParameters}
    (h : ((p.listPermissions actor x).runOn d now ps).1 = .ok view) :
    ∃ c, d.find? x = some c ∧ c.name = view.credentialName := by
  rw [runOn_listPermissions, Except.map_eq_ok] at h
  obtain ⟨stored, hrequired, rfl⟩ := h
  exact find?_of_required_eq_ok hrequired

theorem setPermissions_alikeOn (p : AccessPolicy) (h : Naming.key x = Naming.key y)
    (actor : String) (entries : List Permission) :
    (p.setPermissions actor x entries).AlikeOn d (p.setPermissions actor y entries) := by
  refine .inquiry_bind (.collect _ _) fun _ => .ite (Work.IsHeedless.throw _ d) ?_
  refine .inquiry_bind (p.requireAny_alikeOn h actor _) fun resolved => ?_
  refine .inquiry_bind (.resolveName resolved) fun _ => ?_
  exact Work.IsHeedless.bind (.forM fun _ => .replaceOperations _ _ _) (fun _ => .pure _) d

theorem deletePermission_alikeOn (p : AccessPolicy) (h : Naming.key x = Naming.key y)
    (actor subject : String) :
    (p.deletePermission actor x subject).AlikeOn d (p.deletePermission actor y subject) := by
  refine .data_bind (.inquiry_bind (.collect _ _) fun _ => ?_)
  refine .inquiry_bind (p.requireAny_alikeOn h actor _) fun resolved => ?_
  refine .inquiry_bind (.resolveName resolved) fun _ => ?_
  exact Work.IsHeedless.bind (.removeActor _ _) (fun found => .ite (.throw _) (.pure _)) d

end AccessPolicy

namespace CertificateRequest

inductive Respelled (d : StoreData) (r : CertificateRequest) : CertificateRequest → Prop
  | same : Respelled d r r
  | signer {x y : String} (hsigner : r.signer = some x) (h : d.Interchangeable x y) :
    Respelled d r { r with signer := some y }

end CertificateRequest

namespace CertificateParameters

inductive Respelled (d : StoreData) (p : CertificateParameters) : CertificateParameters → Prop
  | same : Respelled d p p
  | signer {x y : String} (hself : p.selfSigned = false) (hsigner : p.signerName = some x)
    (h : d.Interchangeable x y) : Respelled d p { p with signerName := some y }

variable {d : StoreData} {r s : CertificateRequest} {x y : String}

theorem ofRequest_parallel (h : r.Respelled d s) (hd : d.WellNamed)
    (defaults : CertificateDefaults) :
    (ofRequest r defaults).Parallel (Respelled d) (ofRequest s defaults) := by
  cases h with
  | same => exact .refl (fun _ => .same) _
  | @signer x y hsigner h =>
    rcases h with rfl | ⟨hkey, hthere⟩
    · rw [← hsigner]
      exact .refl (fun _ => .same) _
    · have hx := hd.ne_empty hthere
      have hy := hd.ne_empty (StoreData.contains_eq_of_key_eq hkey ▸ hthere)
      refine .bind_same fun keyUsage => .bind_same fun purposes => ?_
      refine .bind_same fun keyLength => .bind_same fun durationDays => ?_
      rw [signing_of_given hsigner hx, signing_of_given (r := { r with signer := some y }) rfl hy]
      by_cases hself : r.selfSign = some true
      · rw [if_pos hself, if_pos hself]
        exact .error _
      · rw [if_neg hself, if_neg hself]
        change Except.Parallel (Respelled d) (if namesSubject r then _ else _)
          (if namesSubject r then _ else _)
        split
        · exact .ok (.signer rfl rfl (.inr ⟨hkey, hthere⟩))
        · exact .error _

theorem override_parallel (h : r.Respelled d s) (p : CertificateParameters) :
    (p.override r).Parallel (Respelled d) (p.override s) := by
  cases h with
  | same => exact .refl (fun _ => .same) _
  | @signer x y hsigner h =>
    refine .bind_same fun keyUsage => .bind_same fun purposes => ?_
    refine .bind_same fun keyLength => .bind_same fun durationDays => ?_
    rw [overrideSigning, overrideSigning, hsigner]
    dsimp only
    rcases r.selfSign with _ | _ | _
    · exact .ok (.signer rfl rfl h)
    · exact .ok (.signer rfl rfl h)
    · exact .error _

end CertificateParameters

namespace Renewal

variable {d : StoreData} {x y : String}

theorem names_of_contains (hd : d.WellNamed) (h : d.contains x = true) :
    ∃ given, Names (some x) given := by
  have hthere : d.contains (Text.trimmed x) = true :=
    (StoreData.contains_eq_of_key_eq (Naming.key_trimmed x)).trans h
  obtain ⟨given, hgiven⟩ := hd.normalize hthere
  exact ⟨given, x, rfl, hd.ne_empty hthere, hgiven⟩

theorem planned_eq_of_interchangeable (policy : AccessPolicy) (h : d.Interchangeable x y)
    (hd : d.WellNamed) (actor : String) :
    planned policy d actor (some x) = planned policy d actor (some y) := by
  rcases h with rfl | ⟨hkey, hthere⟩
  · rfl
  · obtain ⟨given, hgiven⟩ := names_of_contains hd hthere
    obtain ⟨given', hgiven'⟩ :=
      names_of_contains hd (StoreData.contains_eq_of_key_eq hkey ▸ hthere)
    have hsame : Naming.key given = Naming.key given' := by
      rw [hgiven.key_eq, hkey, hgiven'.key_eq]
    rw [planned, planned, signerName_eq_ok.2 hgiven, signerName_eq_ok.2 hgiven', Except.bind,
      Except.bind, policy.required_eq_of_key_eq hsame]

theorem isHeedless_issueInto (issuer : Issuer) (name : String) (p : CertificateParameters) :
    (issueInto issuer name p).IsHeedless := by
  refine .data_bind fun d => .bind (.lift _) fun signer => .bind .now fun now => ?_
  exact .bind .draw fun id => .bind (.lift _) fun value => .put _ _

theorem isHeedless_renew (issuer : Issuer) (actor name : String) :
    (renew issuer actor name).IsHeedless := by
  refine .data_bind fun d => .bind (.lift _) fun p => ?_
  refine .bind (isHeedless_issueInto issuer name p) fun _ => .data_bind fun d => ?_
  exact .inquiry fun _ => .collect _ _

theorem renewBelow_alikeOn (issuer : Issuer) (policy : AccessPolicy) (h : d.Interchangeable x y)
    (hd : d.WellNamed) (actor : String) :
    (renewBelow issuer policy actor (some x)).AlikeOn d
      (renewBelow issuer policy actor (some y)) := by
  refine .inquiry_bind (fun now ps ps' => ?_) fun names => ?_
  · rw [runOn_plan_fst, runOn_plan_fst, planned_eq_of_interchangeable policy h hd]
  · exact Work.IsHeedless.bind (.forM fun name => isHeedless_renew issuer actor name)
      (fun _ => .pure names) d

end Renewal

namespace Custodian

variable {d : StoreData} {x y : String} {p q : CertificateParameters}

theorem pinned_eq_of_respelled (policy : AccessPolicy) (h : p.Respelled d q) (actor : String) :
    pinned policy d actor p = pinned policy d actor q := by
  cases h with
  | same => rfl
  | @signer x y hself hsigner h =>
    rw [pinned, pinned, hself, if_neg Bool.false_ne_true, if_neg Bool.false_ne_true, hsigner]
    dsimp only
    rw [policy.required_eq_of_key_eq h.key_eq]

theorem issueAs_alikeOn (issuer : Issuer) (policy : AccessPolicy) (h : p.Respelled d q)
    (actor name : String) :
    (issueAs issuer policy actor p name).AlikeOn d (issueAs issuer policy actor q name) := by
  refine .inquiry_bind (fun now ps ps' => ?_) fun pinned =>
    Renewal.isHeedless_issueInto issuer name pinned d
  rw [runOn_pinSigner, runOn_pinSigner, pinned_eq_of_respelled policy h]

theorem latestVersion_alikeOn (name : String) (d : StoreData) :
    (latestVersion name).AlikeOn d (latestVersion name) := by
  refine .data_bind ?_
  cases d.find? name with
  | none => exact .throw _
  | some c => exact .pure c.latest

theorem isHeedless_resolved (actor name : String) : Work.IsHeedless (do
    Inquiry.resolveFor actor name
    latestVersion name) :=
  .bind (.inquiry fun _ => .resolveFor actor name) fun _ => .inquiry (latestVersion_alikeOn name)

theorem write_alikeOn (policy : AccessPolicy) (h : d.Interchangeable x y) (actor : String)
    (permissions : List Permission) (overwrite : Bool) {put put' : String → Work Unit}
    (hput : ∀ target, (put target).AlikeOn d (put' target)) :
    (write policy actor x permissions overwrite put).AlikeOn d
      (write policy actor y permissions overwrite put') := by
  have hstored : Work.AlikeOn d
      (do
        let stored ← policy.require actor x .write
        if overwrite then
          put stored
          Inquiry.resolveFor actor stored
        latestVersion stored)
      (do
        let stored ← policy.require actor y .write
        if overwrite then
          put' stored
          Inquiry.resolveFor actor stored
        latestVersion stored) := by
    refine .inquiry_bind (policy.requireAny_alikeOn h.key_eq actor _) fun stored => .ite ?_ ?_
    · exact .bind (hput stored) fun _ => isHeedless_resolved actor stored
    · exact .inquiry (latestVersion_alikeOn stored d)
  refine .data_bind ?_
  rcases h with rfl | ⟨hkey, hthere⟩
  · refine .ite (.bind (hput x) fun _ => ?_) hstored
    refine Work.IsHeedless.bind (.bind (.mergeOperations _ _ _) fun _ => ?_) fun _ => ?_
    · exact .forM fun _ => .mergeOperations _ _ _
    · exact isHeedless_resolved actor x
  · have hthere' := StoreData.contains_eq_of_key_eq hkey ▸ hthere
    rw [hthere, hthere', Bool.not_true, if_neg Bool.false_ne_true, if_neg Bool.false_ne_true]
    exact hstored

theorem set_alikeOn (policy : AccessPolicy) (h : d.Interchangeable x y) (hd : d.WellNamed)
    (actor : String) (value : CredentialValue) (permissions : List Permission)
    (overwrite : Bool) :
    (set policy actor x value permissions overwrite).AlikeOn d
      (set policy actor y value permissions overwrite) := by
  refine .inquiry_bind (.collect _ _) fun _ => .lift_bind (h.normalize hd) fun _ _ hnormal => ?_
  exact write_alikeOn policy hnormal actor permissions overwrite fun target =>
    Work.IsHeedless.put target value d

theorem generate_alikeOn (issuer : Issuer) (policy : AccessPolicy) (h : d.Interchangeable x y)
    (hd : d.WellNamed) {r s : CertificateRequest} (hr : r.Respelled d s)
    (defaults : CertificateDefaults) (actor : String) (permissions : List Permission)
    (overwrite : Bool) :
    (generate issuer policy defaults actor x r permissions overwrite).AlikeOn d
      (generate issuer policy defaults actor y s permissions overwrite) := by
  refine .inquiry_bind (.collect _ _) fun _ => .lift_bind (h.normalize hd) fun _ _ hnormal => ?_
  refine .lift_bind (CertificateParameters.ofRequest_parallel hr hd defaults) fun _ _ hp => ?_
  exact write_alikeOn policy hnormal actor permissions overwrite (issueAs_alikeOn issuer policy hp
    actor)

theorem regenerate_alikeOn (issuer : Issuer) (policy : AccessPolicy)
    (h : Naming.key x = Naming.key y) {r s : CertificateRequest} (hr : r.Respelled d s)
    (actor : String) :
    (regenerate issuer policy actor x r).AlikeOn d (regenerate issuer policy actor y s) := by
  refine .inquiry_bind (.collect _ _) fun _ => ?_
  refine .inquiry_bind (policy.requireAny_alikeOn h actor _) fun stored => ?_
  refine .inquiry_bind (.resolveFor actor stored) fun _ => .data_bind ?_
  cases (d.find? stored).bind (·.latestCertificate?) with
  | none => exact Work.IsHeedless.throw _ d
  | some v =>
    refine .lift_bind (CertificateParameters.override_parallel hr _) fun _ _ hp => ?_
    exact .bind (issueAs_alikeOn issuer policy hp actor stored) fun _ d' =>
      .inquiry (latestVersion_alikeOn stored d')

theorem delete_alikeOn (policy : AccessPolicy) (h : Naming.key x = Naming.key y)
    (actor : String) : (delete policy actor x).AlikeOn d (delete policy actor y) := by
  refine .inquiry_bind (.collect _ _) fun _ => ?_
  refine .inquiry_bind (policy.requireAny_alikeOn h actor _) fun stored => ?_
  refine .inquiry_bind (.resolveFor actor stored) fun _ => ?_
  exact Work.IsHeedless.bind (.remove stored) (fun _ => .pure _) d

theorem access_alikeOn (policy : AccessPolicy) (h : Naming.key x = Naming.key y)
    (actor : String) : (access policy actor x).AlikeOn d (access policy actor y) := by
  refine .bind (.collect _ _) fun _ => .bind (policy.requireAny_alikeOn h actor _) fun stored => ?_
  exact .bind (.resolveFor actor stored) fun _ => .pure stored

theorem get_alikeOn (policy : AccessPolicy) (h : Naming.key x = Naming.key y) (actor : String) :
    (get policy actor x).AlikeOn d (get policy actor y) :=
  (access_alikeOn policy h actor).bind fun stored => latestVersion_alikeOn stored d

theorem versions_alikeOn (policy : AccessPolicy) (h : Naming.key x = Naming.key y)
    (actor : String) : (versions policy actor x).AlikeOn d (versions policy actor y) :=
  (access_alikeOn policy h actor).bind fun _ => .data_bind (.pure _)

end Custodian

/-- The same call, in which the name that it is about and the name of the signer that it asks for
may each be spelled in another way. -/
inductive Call.Respelled (d : StoreData) : Call → Call → Prop
  | set {x y : String} (h : d.Interchangeable x y) (value : CredentialValue)
    (permissions : List Permission) (overwrite : Bool) :
    Respelled d (.set x value permissions overwrite) (.set y value permissions overwrite)
  | generate {x y : String} {r s : CertificateRequest} (h : d.Interchangeable x y)
    (hr : r.Respelled d s) (permissions : List Permission) (overwrite : Bool) :
    Respelled d (.generate x r permissions overwrite) (.generate y s permissions overwrite)
  | regenerate {x y : String} {r s : CertificateRequest} (h : d.Interchangeable x y)
    (hr : r.Respelled d s) : Respelled d (.regenerate x r) (.regenerate y s)
  | renewBelow {x y : String} (h : d.Interchangeable x y) :
    Respelled d (.renewBelow (some x)) (.renewBelow (some y))
  | delete {x y : String} (h : d.Interchangeable x y) : Respelled d (.delete x) (.delete y)
  | get {x y : String} (h : d.Interchangeable x y) : Respelled d (.get x) (.get y)
  | versions {x y : String} (h : d.Interchangeable x y) : Respelled d (.versions x) (.versions y)
  | listPermissions {x y : String} (h : d.Interchangeable x y) :
    Respelled d (.listPermissions x) (.listPermissions y)
  | setPermissions {x y : String} (h : d.Interchangeable x y) (entries : List Permission) :
    Respelled d (.setPermissions x entries) (.setPermissions y entries)
  | deletePermission {x y : String} (h : d.Interchangeable x y) (subject : String) :
    Respelled d (.deletePermission x subject) (.deletePermission y subject)

def Answer.namesShown : Answer → List String
  | .names ns => ns
  | .permissions view => [view.credentialName]
  | _ => []

namespace Custodian

variable {c : Custodian} {caller : Caller} {occasion : Occasion} {α : Type}

theorem find?_of_namesShown (hsound : c.store.data.Sound) {call call' : Call}
    (h : call.Respelled c.store.data call') {answer : Answer}
    (hanswer : (c.perform caller occasion call).1 = .ok answer) {name : String}
    (hname : name ∈ answer.namesShown) :
    ∃ held, c.store.data.find? name = some held ∧ held.name = name := by
  have hstored : ∀ {given : String} {held : Credential}, c.store.data.find? given = some held →
      held.name = name → ∃ held, c.store.data.find? name = some held ∧ held.name = name := by
    rintro given held hheld rfl
    exact ⟨held, hsound.find?_name hheld, rfl⟩
  have heffect := effect_of_perform hsound hanswer
  generalize (c.perform caller occasion call).2.store.data = d' at heffect
  cases heffect with
  | looked hcall =>
    cases h with
    | listPermissions =>
      obtain ⟨view, hview, rfl⟩ := inquire_eq_ok.1 hanswer
      obtain ⟨held, hheld, hsame⟩ := AccessPolicy.runOn_listPermissions_eq_ok hview
      exact hstored hheld (hsame.trans (List.mem_singleton.1 hname).symm)
    | get | versions =>
      obtain ⟨_, -, rfl⟩ := inquire_eq_ok.1 hanswer
      cases hname
    | set | generate | regenerate | renewBelow | delete | setPermissions | deletePermission =>
      cases hcall
  | renewed hplan =>
    obtain ⟨_, _, -, -, -, hnames, -⟩ := Renewal.planned_eq_ok.1 hplan
    obtain ⟨held, hheld, hsame⟩ :=
      List.mem_map.1 ((SigningGraph.descendants_eq_ok hnames).2.2.2 name hname)
    exact hstored (hsound.mem_values.1 hheld) hsame
  | permissionsSet _ hheld => exact hstored hheld (List.mem_singleton.1 hname).symm
  | kept | appended | created | regenerated | deleted | permissionDeleted => cases hname

theorem audited_of_alikeOn {status : UInt16} {w w' : Work α} (h : w.AlikeOn c.store.data w') :
    (c.audited caller occasion status w).1 = (c.audited caller occasion status w').1 ∧
      (c.audited caller occasion status w).2.store.data =
        (c.audited caller occasion status w').2.store.data :=
  Store.audited_of_alikeOn h

theorem inquire_of_alikeOn {q q' : Inquiry α} (h : q.AlikeOn c.store.data q') :
    (c.inquire caller occasion q).1 = (c.inquire caller occasion q').1 ∧
      (c.inquire caller occasion q).2.store.data = (c.inquire caller occasion q').2.store.data :=
  Store.inquire_of_alikeOn h

/-- However the names in a call are spelled, a custodian gives the same answer and is left with the
same data. What names the answer gives are the stored ones. -/
theorem Reachable.perform_respelled {config : Config} {issuer : Issuer}
    (hc : Reachable config issuer c) {call call' : Call}
    (h : call.Respelled c.store.data call') (caller : Caller) (occasion : Occasion) :
    (c.perform caller occasion call).1 = (c.perform caller occasion call').1 ∧
      (c.perform caller occasion call).2.store.data =
        (c.perform caller occasion call').2.store.data ∧
      ∀ answer, (c.perform caller occasion call).1 = .ok answer →
        ∀ name ∈ answer.namesShown,
          ∃ held, c.store.data.find? name = some held ∧ held.name = name := by
  have hd := hc.wellNamed
  refine and_assoc.1 ⟨?_, fun _ hanswer _ hname => find?_of_namesShown hc.sound h hanswer hname⟩
  cases h <;> dsimp only [Custodian.perform]
  case set h value permissions overwrite =>
    exact audited_of_alikeOn (.map _ (set_alikeOn _ h hd _ value permissions overwrite))
  case generate h hr permissions overwrite =>
    exact audited_of_alikeOn (.map _ (generate_alikeOn _ _ h hd hr _ _ permissions overwrite))
  case regenerate h hr =>
    exact audited_of_alikeOn (.map _ (regenerate_alikeOn _ _ h.key_eq hr _))
  case renewBelow h => exact audited_of_alikeOn (.map _ (Renewal.renewBelow_alikeOn _ _ h hd _))
  case delete h => exact audited_of_alikeOn (.map _ (delete_alikeOn _ h.key_eq _))
  case get h => exact inquire_of_alikeOn (.map _ (get_alikeOn _ h.key_eq _))
  case versions h => exact inquire_of_alikeOn (.map _ (versions_alikeOn _ h.key_eq _))
  case listPermissions h =>
    exact inquire_of_alikeOn (.map _ (AccessPolicy.listPermissions_alikeOn _ h.key_eq _))
  case setPermissions h entries =>
    exact audited_of_alikeOn (.map _ (AccessPolicy.setPermissions_alikeOn _ h.key_eq _ entries))
  case deletePermission h subject =>
    exact audited_of_alikeOn
      (.map _ (AccessPolicy.deletePermission_alikeOn _ h.key_eq _ subject))

theorem Reachable.perform_respelled_chained :
    let leaf := CertificateRequest.withCommonName "Leaf"
    let call : Call := .generate "/leaf" (leaf.signedBy "/mid") [] true
    let call' : Call := .generate " LEAF" (leaf.signedBy "Mid ") [] true
    Reachable {} Issuance.issue chained ∧ call.Respelled chained.store.data call' ∧
      ∀ occasion : Occasion,
        (chained.perform ⟨.ofNat 5, "alice"⟩ occasion call).1 =
            (chained.perform ⟨.ofNat 5, "alice"⟩ occasion call').1 ∧
          (chained.perform ⟨.ofNat 5, "alice"⟩ occasion call).2.store.data =
            (chained.perform ⟨.ofNat 5, "alice"⟩ occasion call').2.store.data := by
  intro leaf call call'
  have hname : chained.store.data.Interchangeable "/leaf" " LEAF" :=
    .inr ⟨by decide, by decide +kernel⟩
  have hsigner : chained.store.data.Interchangeable "/mid" "Mid " :=
    .inr ⟨by decide, by decide +kernel⟩
  have hcall : call.Respelled chained.store.data call' :=
    .generate hname (.signer rfl hsigner) [] true
  refine ⟨reachable_chained, hcall, fun occasion => ?_⟩
  obtain ⟨hanswer, hdata, -⟩ :=
    reachable_chained.perform_respelled hcall ⟨.ofNat 5, "alice"⟩ occasion
  exact ⟨hanswer, hdata⟩

end Custodian

end Strongroom
