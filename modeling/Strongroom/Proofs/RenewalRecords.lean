import Strongroom.Proofs.Rotation
import Strongroom.Proofs.Silence

/-! What renewal below a signer leaves in the log. A plan is noted once, whether it comes to
something or not, and every certificate that has been renewed is noted after it; how the renewal
ends decides what all of these become records of. -/

namespace Strongroom

namespace Renewal

variable {issuer : Issuer} {policy : AccessPolicy} {actor : String} {signedBy : Option String}
  {d : StoreData} {name : String} {t t' : Transaction}

def noteOf (d : StoreData) (actor : String) (code : AuditCode) (name : String) : AuditParameters :=
  { code, credentialName := some name, allowed := (d.operationsFor name actor).toList }

theorem noteOf_congr {d' : StoreData} (h : d'.accessLists = d.accessLists) :
    noteOf d' actor = noteOf d actor := by
  funext code name
  rw [noteOf, noteOf, StoreData.operationsFor, StoreData.operationsFor, StoreData.accessList?,
    StoreData.accessList?, h]

def planNote (policy : AccessPolicy) (d : StoreData) (actor : String) (signedBy : Option String) :
    AuditParameters :=
  match (signerName signedBy).bind fun given => policy.required d actor given [.read] with
  | .ok root => noteOf d actor .bulkRegenerate root
  | .error _ => { code := .bulkRegenerate, credentialName := signedBy }

theorem runOn_plan_snd (now : Time.Instant) :
    ((plan policy actor signedBy).runOn d now []).2 = [planNote policy d actor signedBy] := by
  simp only [plan, planNote, Inquiry.runOn_collect_bind, Inquiry.runOn_lift_bind]
  cases signerName signedBy with
  | error fault => rfl
  | ok given =>
    simp only [Inquiry.runOn_bind, AccessPolicy.runOn_require, Except.bind]
    cases policy.required d actor given [.read] with
    | error fault => rfl
    | ok root =>
      simp only [Inquiry.runOn_resolveFor, Inquiry.runOn_data, Inquiry.runOn_lift]
      cases d.signingGraph.descendants root with
      | error fault => rfl
      | ok names => by_cases h : names.all (policy.permits d · actor .write) <;> simp [h] <;> rfl

theorem runIn_plan (policy : AccessPolicy) (actor : String) (signedBy : Option String)
    (t : Transaction) (h : t.parameters = []) :
    ∃ t₁, (liftM (plan policy actor signedBy) : Work (List String)).runIn t =
        (planned policy t.data actor signedBy, t₁) ∧
      t₁.data = t.data ∧ t₁.occasion = t.occasion ∧
      t₁.parameters = [planNote policy t.data actor signedBy] := by
  refine ⟨{ t with parameters := [planNote policy t.data actor signedBy] }, ?_, rfl, rfl, rfl⟩
  rw [Work.runIn_inquiry, runOn_plan_fst, h, runOn_plan_snd]

theorem parameters_of_renew (h : (renew issuer actor name).runIn t = (.ok (), t')) :
    t'.parameters = t.parameters ++ [noteOf t.data actor .certificateRegenerate name] := by
  have hlists : t'.data.accessLists = t.data.accessLists :=
    (RenewedAll.cons (renewed_of_renew h) (.nil _)).accessLists_eq
  rw [renew, Work.runIn_data_bind, Work.runIn_lift_bind_eq_ok] at h
  obtain ⟨p, -, h⟩ := h
  obtain ⟨_, t₁, hissue, h⟩ := Work.runIn_bind_eq_ok.1 h
  have hsilent : t₁.parameters = t.parameters := by
    have hsame := isSilent_issueInto issuer name p t
    rwa [hissue] at hsame
  cases h
  rw [← hsilent, ← noteOf_congr hlists]
  rfl

theorem parameters_of_renew_eq_error {fault : Fault}
    (h : (renew issuer actor name).runIn t = (.error fault, t')) :
    t'.parameters = t.parameters := by
  rw [renew, Work.runIn_data_bind, Work.runIn_lift_bind_eq_error] at h
  rcases h with ⟨-, rfl⟩ | ⟨p, -, h⟩
  · rfl
  · rcases Work.runIn_bind_eq_error.1 h with hissue | ⟨_, t₁, -, hcollect⟩
    · have hsame := isSilent_issueInto issuer name p t
      rwa [hissue] at hsame
    · cases hcollect

theorem parameters_of_forM_renew {names : List String}
    (h : (names.forM (renew issuer actor)).runIn t = (.ok (), t')) :
    t'.parameters = t.parameters ++ names.map (noteOf t.data actor .certificateRegenerate) := by
  induction names generalizing t with
  | nil =>
    cases h
    exact (List.append_nil _).symm
  | cons name rest ih =>
    obtain ⟨_, t₁, hfirst, hrest⟩ := Work.runIn_bind_eq_ok.1 h
    have hlists : t₁.data.accessLists = t.data.accessLists :=
      (RenewedAll.cons (renewed_of_renew hfirst) (.nil _)).accessLists_eq
    rw [ih hrest, parameters_of_renew hfirst, noteOf_congr hlists, List.append_assoc,
      List.singleton_append, List.map_cons]

end Renewal

namespace Custodian

open Renewal

variable {c : Custodian} {caller : Caller} {occasion : Occasion} {signedBy : Option String}

def OpensSigner (c : Custodian) (actor : String) (signedBy : Option String) (ca : Credential) :
    Prop :=
  ∃ given, Names signedBy given ∧ c.store.data.find? given = some ca ∧ c.Allows given actor .read

/-- The names are what is to be renewed below the signer, all of it open to the actor. -/
def Plans (c : Custodian) (actor : String) (signedBy : Option String) (ca : Credential)
    (names : List String) : Prop :=
  c.OpensSigner actor signedBy ca ∧ c.store.data.signingGraph.descendants ca.name = .ok names ∧
    ∀ name ∈ names, c.Allows name actor .write

theorem planned_eq_ok_iff {actor : String} {names : List String} :
    planned c.policy c.store.data actor signedBy = .ok names ↔
      ∃ ca, c.Plans actor signedBy ca names := by
  simp only [planned_eq_ok, permits_iff_allows, Plans, OpensSigner]
  constructor
  · rintro ⟨given, ca, hgiven, hca, hread, hnames, hwrite⟩
    exact ⟨ca, ⟨given, hgiven, hca, hread⟩, hnames, hwrite⟩
  · rintro ⟨ca, ⟨given, hgiven, hca, hread⟩, hnames, hwrite⟩
    exact ⟨given, ca, hgiven, hca, hread, hnames, hwrite⟩

theorem OpensSigner.planNote_eq {actor : String} {ca : Credential}
    (h : c.OpensSigner actor signedBy ca) :
    planNote c.policy c.store.data actor signedBy =
      noteOf c.store.data actor .bulkRegenerate ca.name := by
  obtain ⟨given, hgiven, hca, hread⟩ := h
  have hrequired := AccessPolicy.required_of_permits hca (permits_iff_allows.2 hread)
  rw [planNote, signerName_eq_ok.2 hgiven]
  simp only [Except.bind, hrequired]

def renewalRecord (caller : Caller) (now : Time.Instant) (code : AuditCode) (name : Option String)
    (allowed : List Operation) (success : Bool) (status : UInt16) : OperationRecord where
  request := caller.request
  actor := caller.actor
  code := code
  credentialName := name
  subjectActor := none
  allowed := allowed
  success := success
  status := status
  time := now

def renewalRecords (c : Custodian) (caller : Caller) (now : Time.Instant) (success : Bool)
    (status : UInt16) (ca : Credential) (names : List String) : List OperationRecord :=
  let recordOf (code : AuditCode) (name : String) : OperationRecord :=
    renewalRecord caller now code (some name)
      (c.store.data.operationsFor name caller.actor).toList success status
  recordOf .bulkRegenerate ca.name :: names.map (recordOf .certificateRegenerate)

/-- What renewal below a signer answers, with the records that it leaves. -/
inductive RenewalRecorded (c : Custodian) (caller : Caller) (occasion : Occasion)
    (signedBy : Option String) : Except Fault Answer → List OperationRecord → Prop
  | renewed {ca : Credential} {names : List String}
    (hplan : c.Plans caller.actor signedBy ca names) :
    RenewalRecorded c caller occasion signedBy (.ok (.names names))
      (c.renewalRecords caller occasion.now true 200 ca names)
  | closed {fault : Fault} (hclosed : ∀ ca, ¬ c.OpensSigner caller.actor signedBy ca) :
    RenewalRecorded c caller occasion signedBy (.error fault)
      [renewalRecord caller occasion.now .bulkRegenerate signedBy [] false fault.status]
  | refused {ca : Credential} {fault : Fault} (hopen : c.OpensSigner caller.actor signedBy ca)
    (hplan : ∀ other names, ¬ c.Plans caller.actor signedBy other names) :
    RenewalRecorded c caller occasion signedBy (.error fault)
      (c.renewalRecords caller occasion.now false fault.status ca [])
  | failed {ca : Credential} {names done rest : List String} {name : String} {d : StoreData}
    {fault : Fault} (hplan : c.Plans caller.actor signedBy ca names)
    (hnames : names = done ++ name :: rest)
    (hdone : RenewedAll c.issuer occasion c.store.data done d)
    (hfails : FailsToRenew c.issuer occasion d name fault) :
    RenewalRecorded c caller occasion signedBy (.error fault)
      (c.renewalRecords caller occasion.now false fault.status ca done)

theorem planNote_of_not_opensSigner {actor : String}
    (h : ∀ ca, ¬ c.OpensSigner actor signedBy ca) :
    planNote c.policy c.store.data actor signedBy =
      { code := .bulkRegenerate, credentialName := signedBy } := by
  unfold planNote
  split
  · rename_i root hroot
    obtain ⟨given, hgiven, hrequired⟩ := Except.bind_eq_ok.1 hroot
    obtain ⟨ca, hca, hread, rfl⟩ := AccessPolicy.required_eq_ok.1 hrequired
    exact absurd ⟨given, signerName_eq_ok.1 hgiven, hca, permits_iff_allows.1 hread⟩ (h ca)
  · rfl

theorem operations_renewBelow {ending : Except Fault (List String)} {t : Transaction}
    (h : (renewBelow c.issuer c.policy caller.actor signedBy).runIn (c.store.begin occasion) =
      (ending, t)) :
    (c.perform caller occasion (.renewBelow signedBy)).1 = ending.map .names ∧
      (c.perform caller occasion (.renewBelow signedBy)).2.store.log.operations =
        c.store.log.operations ++ t.parameters.map
          (·.record caller (Store.outcome okStatus ending) occasion.now) := by
  have hrun : (Answer.names <$> renewBelow c.issuer c.policy caller.actor signedBy).runIn
      (c.store.begin occasion) = (ending.map .names, t) := by
    rw [Work.runIn_map, h]
  have hbuilt : (Answer.names <$> renewBelow c.issuer c.policy caller.actor signedBy).IsBuilt :=
    (isBuilt_renewBelow c.issuer c.policy signedBy).map Answer.names
  have houtcome : Store.outcome okStatus (ending.map Answer.names) =
      Store.outcome okStatus ending := by
    cases ending <;> rfl
  refine ⟨audited_fst.trans (by rw [h]), ?_⟩
  rw [← houtcome]
  exact operations_audited hbuilt hrun

theorem map_record_eq {ca : Credential} (hca : c.OpensSigner caller.actor signedBy ca)
    {t₁ t : Transaction} (hdata : t₁.data = c.store.data)
    (hplan : t₁.parameters = [planNote c.policy c.store.data caller.actor signedBy])
    {names : List String}
    (hnames : t.parameters =
      t₁.parameters ++ names.map (noteOf t₁.data caller.actor .certificateRegenerate))
    (outcome : Outcome) :
    t.parameters.map (·.record caller outcome occasion.now) =
      c.renewalRecords caller occasion.now outcome.success outcome.status ca names := by
  rw [hnames, hplan, hdata, hca.planNote_eq, List.singleton_append, List.map_cons, List.map_map]
  rfl

/-- A renewal leaves one record of its plan and one of each certificate that it has come to, in
order, all of them with the outcome of the whole. -/
theorem renewBelow_recorded (c : Custodian) (caller : Caller) (occasion : Occasion)
    (signedBy : Option String) :
    ∃ rs, (c.perform caller occasion (.renewBelow signedBy)).2.store.log.operations =
        c.store.log.operations ++ rs ∧
      c.RenewalRecorded caller occasion signedBy
        (c.perform caller occasion (.renewBelow signedBy)).1 rs := by
  obtain ⟨t₁, hplan, hdata, hoccasion, hnote⟩ := runIn_plan c.policy caller.actor signedBy
    (c.store.begin occasion) rfl
  have hdata : t₁.data = c.store.data := hdata
  have hoccasion : t₁.occasion = occasion := hoccasion
  cases hplanned : planned c.policy (c.store.begin occasion).data caller.actor signedBy with
  | error fault =>
    rw [hplanned] at hplan
    obtain ⟨hanswer, hoperations⟩ := operations_renewBelow (Work.runIn_bind_of_eq_error hplan)
    have hplan : ∀ ca names, ¬ c.Plans caller.actor signedBy ca names := fun ca names h => by
      cases hplanned.symm.trans (planned_eq_ok_iff.2 ⟨ca, h⟩)
    refine ⟨_, hoperations, ?_⟩
    rw [hanswer]
    by_cases hopen : ∃ ca, c.OpensSigner caller.actor signedBy ca
    · obtain ⟨ca, hca⟩ := hopen
      have hnone : t₁.parameters = t₁.parameters ++
          ([] : List String).map (noteOf t₁.data caller.actor .certificateRegenerate) :=
        (List.append_nil _).symm
      rw [map_record_eq hca hdata hnote hnone]
      exact .refused hca hplan
    · rw [not_exists] at hopen
      have hclosed : t₁.parameters = [{ code := .bulkRegenerate, credentialName := signedBy }] :=
        hnote.trans (congrArg ([·]) (planNote_of_not_opensSigner hopen))
      rw [hclosed]
      exact .closed hopen
  | ok names =>
    rw [hplanned] at hplan
    obtain ⟨ca, hca⟩ := planned_eq_ok_iff.1 hplanned
    have hrun : (renewBelow c.issuer c.policy caller.actor signedBy).runIn
        (c.store.begin occasion) = _ := Work.runIn_bind_of_eq_ok hplan
    rcases hrenew : (names.forM (renew c.issuer caller.actor)).runIn t₁ with ⟨fault | _, t'⟩
    · obtain ⟨hanswer, hoperations⟩ :=
        operations_renewBelow (hrun.trans (Work.runIn_bind_of_eq_error hrenew))
      obtain ⟨done, name, rest, between, hnames, hdone, hname⟩ := Work.runIn_forM_eq_error.1 hrenew
      have hnotes := (parameters_of_renew_eq_error hname).trans (parameters_of_forM_renew hdone)
      have hall := renewedAll_of_forM_renew hdone
      have hfails := failsToRenew_of_renew hname
      rw [occasion_of_forM_renew hdone, hoccasion] at hfails
      rw [hdata, hoccasion] at hall
      refine ⟨_, hoperations, ?_⟩
      rw [hanswer, map_record_eq hca.1 hdata hnote hnotes]
      exact .failed hca hnames hall hfails
    · obtain ⟨hanswer, hoperations⟩ :=
        operations_renewBelow (hrun.trans (Work.runIn_bind_of_eq_ok hrenew))
      refine ⟨_, hoperations, ?_⟩
      rw [hanswer, map_record_eq hca.1 hdata hnote (parameters_of_forM_renew hrenew)]
      exact .renewed hca

theorem renewBelow_recorded_chained :
    let recordOf (code : AuditCode) (name : String) : OperationRecord :=
      ⟨.ofNat 5, "alice", code, some name, none, Operation.all, true, 200, ⟨1, 0⟩⟩
    (chained.rotate 5).1 = .ok (.names ["/mid", "/leaf"]) ∧
      (chained.rotate 5).2.store.log.operations = chained.store.log.operations ++
        [recordOf .bulkRegenerate "/ca", recordOf .certificateRegenerate "/mid",
          recordOf .certificateRegenerate "/leaf"] := by
  have hanswer := answer_rotate_chained
  have hheld : ∀ name ∈ ["/ca", "/mid", "/leaf"],
      (chained.store.data.operationsFor name "alice").toList = Operation.all := by decide +kernel
  have hname : (chained.store.data.find? "/ca").map (·.name) = some "/ca" := by decide +kernel
  obtain ⟨rs, hoperations, hrecorded⟩ :=
    renewBelow_recorded chained ⟨.ofNat 5, "alice"⟩ ⟨5, ⟨1, 0⟩⟩ (some "/ca")
  intro recordOf
  refine ⟨hanswer, ?_⟩
  unfold rotate at hanswer ⊢
  rw [hanswer] at hrecorded
  rw [hoperations]
  cases hrecorded with
  | @renewed ca _ hplan =>
    obtain ⟨given, hgiven, hca, -⟩ := hplan.1
    have hsigner : signerName (some "/ca") = .ok "/ca" := by rfl
    cases hsigner.symm.trans (signerName_eq_ok.2 hgiven)
    rw [hca, Option.map_some, Option.some.injEq] at hname
    simp only [renewalRecords, List.map_cons, List.map_nil, hname, hheld "/ca" (by simp),
      hheld "/mid" (by simp), hheld "/leaf" (by simp)]
    rfl

end Custodian

end Strongroom
