import Strongroom.Proofs.Outcome

/-! Renewal below a signer is all or nothing, and what it fails for is decided in a fixed order: the
name that is given, the signer, the order below it, the permissions on all of it, and only then the
issuing. -/

namespace Strongroom

namespace Renewal

variable {policy : AccessPolicy} {d : StoreData} {actor : String} {signedBy : Option String}
  {given : String} {ca : Credential}

theorem planned_of_not_names (h : ∀ given, ¬ Names signedBy given) :
    ∃ fault, planned policy d actor signedBy = .error fault ∧ fault.status = 400 := by
  unfold planned
  cases hname : signerName signedBy with
  | ok given => exact absurd (signerName_eq_ok.1 hname) (h given)
  | error fault => exact ⟨fault, rfl, status_of_signerName_eq_error hname⟩

theorem planned_of_names (hgiven : Names signedBy given) :
    planned policy d actor signedBy =
      (policy.required d actor given [.read]).bind fun root =>
        (d.signingGraph.descendants root).bind fun names =>
          if names.all (policy.permits d · actor .write) then .ok names
          else .error (.forbidden .insufficientPermission) := by
  rw [planned, signerName_eq_ok.2 hgiven]
  rfl

theorem planned_of_not_permits_read (hgiven : Names signedBy given)
    (h : policy.permits d given actor .read = false) :
    ∃ cause, planned policy d actor signedBy = .error (.notFound cause) := by
  obtain ⟨cause, hcause⟩ := AccessPolicy.required_of_not_permits h
  rw [planned_of_names hgiven, hcause]
  exact ⟨cause, rfl⟩

theorem planned_of_permits_read (hgiven : Names signedBy given) (hca : d.find? given = some ca)
    (hread : policy.permits d given actor .read = true) :
    planned policy d actor signedBy =
      (d.signingGraph.descendants ca.name).bind fun names =>
        if names.all (policy.permits d · actor .write) then .ok names
        else .error (.forbidden .insufficientPermission) := by
  rw [planned_of_names hgiven, AccessPolicy.required_of_permits hca hread]
  rfl

theorem planned_of_not_permits_write (hgiven : Names signedBy given)
    (hca : d.find? given = some ca) (hread : policy.permits d given actor .read = true)
    {names : List String} (hnames : d.signingGraph.descendants ca.name = .ok names)
    {name : String} (hname : name ∈ names) (h : policy.permits d name actor .write = false) :
    planned policy d actor signedBy = .error (.forbidden .insufficientPermission) := by
  rw [planned_of_permits_read hgiven hca hread, hnames]
  refine if_neg fun hall => ?_
  rw [List.all_eq_true.1 hall name hname] at h
  cases h

theorem status_of_descendants_eq_error {g : SigningGraph} {root : String} {fault : Fault}
    (h : g.descendants root = .error fault) : fault.status = 500 := by
  rcases SigningGraph.descendants_eq_error h with ⟨-, rfl⟩ | ⟨name, -, rfl⟩ <;> rfl

end Renewal

namespace Custodian

open Renewal

variable {c : Custodian} {caller : Caller} {occasion : Occasion} {signedBy : Option String}

theorem renewBelow_of_planned_eq_error {fault : Fault}
    (h : planned c.policy c.store.data caller.actor signedBy = .error fault) :
    (c.perform caller occasion (.renewBelow signedBy)).1 = .error fault := by
  obtain ⟨t₁, -, -, hrun⟩ := runIn_renewBelow c.issuer c.policy caller.actor signedBy
    (c.store.begin occasion)
  have h : planned c.policy (c.store.begin occasion).data caller.actor signedBy = .error fault := h
  rw [h] at hrun
  have hanswer : (c.perform caller occasion (.renewBelow signedBy)).1 = _ := audited_fst
  rw [hanswer, hrun]
  rfl

theorem renewBelow_of_planned_eq_ok {names : List String}
    (h : planned c.policy c.store.data caller.actor signedBy = .ok names) :
    (c.perform caller occasion (.renewBelow signedBy)).1 = .ok (.names names) ∨
      ∃ done name rest d fault, names = done ++ name :: rest ∧
        RenewedAll c.issuer occasion c.store.data done d ∧
        FailsToRenew c.issuer occasion d name fault ∧
        (c.perform caller occasion (.renewBelow signedBy)).1 = .error fault := by
  obtain ⟨t₁, hdata, hoccasion, hrun⟩ := runIn_renewBelow c.issuer c.policy caller.actor
    signedBy (c.store.begin occasion)
  have h : planned c.policy (c.store.begin occasion).data caller.actor signedBy = .ok names := h
  rw [h] at hrun
  have hanswer : (c.perform caller occasion (.renewBelow signedBy)).1 = _ := audited_fst
  rw [hrun] at hanswer
  dsimp only at hanswer
  rcases hrenew : (names.forM (renew c.issuer caller.actor)).runIn t₁ with ⟨fault | _, t₂⟩
  · obtain ⟨done, name, rest, d, hnames, hdone, hfails⟩ := failsToRenew_of_forM_renew hrenew
    rw [hdata, hoccasion] at hdone
    rw [hoccasion] at hfails
    refine .inr ⟨done, name, rest, d, fault, hnames, hdone, hfails, ?_⟩
    rw [hanswer, Work.runIn_bind_of_eq_error hrenew]
    rfl
  · refine .inl ?_
    rw [hanswer, Work.runIn_bind_of_eq_ok hrenew]
    rfl

/-- What renewal below a signer answers, and the data after it. Every refusal presupposes only that
there was no ground for an earlier one. -/
structure AllOrNothing (c : Custodian) (actor : String) (occasion : Occasion)
    (signedBy : Option String) (answer : Except Fault Answer) (d : StoreData) : Prop where
  granted : ∀ {a}, answer = .ok a → ∃ given ca names, Names signedBy given ∧
    c.store.data.find? given = some ca ∧ c.Allows given actor .read ∧
    c.store.data.signingGraph.descendants ca.name = .ok names ∧
    (∀ name ∈ names, c.Allows name actor .write) ∧ a = .names names ∧
    RenewedAll c.issuer occasion c.store.data names d ∧ c.store.data.GrownAt names d
  undone : ∀ {fault}, answer = .error fault → d = c.store.data
  unnamed : (∀ given, ¬ Names signedBy given) → ∃ fault, answer = .error fault ∧ fault.status = 400
  unreadable : ∀ {given}, Names signedBy given → ¬ c.Allows given actor .read →
    ∃ fault, answer = .error fault ∧ fault.status = 404
  revisited : ∀ {given ca fault}, Names signedBy given → c.store.data.find? given = some ca →
    c.Allows given actor .read → c.store.data.signingGraph.descendants ca.name = .error fault →
    answer = .error fault ∧ fault.status = 500
  unwritable : ∀ {given ca names name}, Names signedBy given →
    c.store.data.find? given = some ca → c.Allows given actor .read →
    c.store.data.signingGraph.descendants ca.name = .ok names → name ∈ names →
    ¬ c.Allows name actor .write → ∃ fault, answer = .error fault ∧ fault.status = 403
  issuing : ∀ {given ca names}, Names signedBy given → c.store.data.find? given = some ca →
    c.Allows given actor .read → c.store.data.signingGraph.descendants ca.name = .ok names →
    (∀ name ∈ names, c.Allows name actor .write) →
    answer = .ok (.names names) ∨
      ∃ done name rest between fault, names = done ++ name :: rest ∧
        RenewedAll c.issuer occasion c.store.data done between ∧
        FailsToRenew c.issuer occasion between name fault ∧ answer = .error fault

theorem not_permits_iff_not_allows {name actor : String} {op : Operation} :
    c.policy.permits c.store.data name actor op = false ↔ ¬ c.Allows name actor op := by
  rw [← permits_iff_allows, Bool.not_eq_true]

theorem renewBelow_allOrNothing (c : Custodian) (caller : Caller) (occasion : Occasion)
    (signedBy : Option String) :
    AllOrNothing c caller.actor occasion signedBy
      (c.perform caller occasion (.renewBelow signedBy)).1
      (c.perform caller occasion (.renewBelow signedBy)).2.store.data where
  granted h := by
    obtain ⟨names, t, hrun, rfl, hdata⟩ := audited_eq_ok h
    obtain ⟨hplan, hall⟩ := renewedAll_of_renewBelow hrun
    obtain ⟨given, ca, hgiven, hca, hread, hnames, hwrite⟩ := planned_eq_ok.1 hplan
    have hdistinct := (SigningGraph.descendants_eq_ok hnames).2.1
    rw [← hdata] at hall
    refine ⟨given, ca, names, hgiven, hca, permits_iff_allows.1 hread, hnames, ?_, rfl, hall,
      hall.grownAt hdistinct⟩
    exact fun name hname => permits_iff_allows.1 (hwrite name hname)
  undone h := data_perform_of_error h
  unnamed h := by
    obtain ⟨fault, hplan, hstatus⟩ := planned_of_not_names h
    exact ⟨fault, renewBelow_of_planned_eq_error hplan, hstatus⟩
  unreadable hgiven h := by
    obtain ⟨cause, hplan⟩ := planned_of_not_permits_read hgiven (not_permits_iff_not_allows.2 h)
    exact ⟨.notFound cause, renewBelow_of_planned_eq_error hplan, rfl⟩
  revisited hgiven hca hread h := by
    have hplan := planned_of_permits_read hgiven hca (permits_iff_allows.2 hread)
    rw [h] at hplan
    exact ⟨renewBelow_of_planned_eq_error hplan, status_of_descendants_eq_error h⟩
  unwritable hgiven hca hread hnames hname h := by
    have hplan := planned_of_not_permits_write hgiven hca (permits_iff_allows.2 hread) hnames hname
      (not_permits_iff_not_allows.2 h)
    exact ⟨.forbidden .insufficientPermission, renewBelow_of_planned_eq_error hplan, rfl⟩
  issuing hgiven hca hread hnames h := by
    refine renewBelow_of_planned_eq_ok (planned_eq_ok.2 ⟨_, _, hgiven, hca, ?_, hnames, ?_⟩)
    · exact permits_iff_allows.2 hread
    · exact fun name hname => permits_iff_allows.2 (h name hname)

end Custodian

end Strongroom
