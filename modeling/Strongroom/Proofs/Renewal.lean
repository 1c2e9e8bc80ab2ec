import Strongroom.Custodian
import Strongroom.Proofs.Access
import Strongroom.Proofs.Descent
import Strongroom.Proofs.Naming

/-! Renewal, name by name, and the plan that it follows. The plan is settled on the data before
anything is renewed; then every name in it gains one version, made from the data that the names
before it have left. -/

namespace Strongroom

namespace Renewal

variable {issuer : Issuer} {occasion : Occasion} {d d' : StoreData} {name : String}

def Issued (issuer : Issuer) (occasion : Occasion) (d : StoreData) (name : String)
    (p : CertificateParameters) (v : Version) : Prop :=
  ∃ signer value n, signerFor d name p = .ok signer ∧
    issuer p signer occasion.now ⟨occasion.number, n⟩ = .ok value ∧
    v = ⟨⟨occasion.number, n + 1⟩, occasion.now, .certificate value⟩

theorem issued_of_issueInto {p : CertificateParameters} {t t' : Transaction}
    (h : (issueInto issuer name p).runIn t = (.ok (), t')) :
    ∃ v, Issued issuer t.occasion t.data name p v ∧ t.data.Gains name v t'.data := by
  simp only [issueInto, Work.runIn_data_bind, Work.runIn_lift_bind_eq_ok, Work.runIn_now_bind,
    Work.runIn_draw_bind, Work.runIn_put] at h
  obtain ⟨signer, hsigner, value, hvalue, h⟩ := h
  exact ⟨_, ⟨signer, value, t.drawn, hsigner, hvalue, rfl⟩,
    Transaction.gains_of_putVersion (t := t.draw.2.draw.2) h⟩

theorem isBuilt_issueInto (issuer : Issuer) (name : String) (p : CertificateParameters) :
    (issueInto issuer name p).IsBuilt := by
  refine .bind (.inquiry _) fun d => .bind (.lift _) fun signer => ?_
  exact .bind .now fun now => .bind .draw fun id => .bind (.lift _) fun value => .put _ _

def Renewed (issuer : Issuer) (occasion : Occasion) (d : StoreData) (name : String)
    (d' : StoreData) : Prop :=
  ∃ held latest v, d.find? name = some held ∧ held.latestCertificate? = some latest ∧
    Issued issuer occasion d name (.ofCertificate latest.certificate latest.signerName) v ∧
    v.value.kind = held.kind ∧ d' = d.holding (Naming.key name) (held.extended v)

inductive RenewedAll (issuer : Issuer) (occasion : Occasion) :
    StoreData → List String → StoreData → Prop
  | nil (d : StoreData) : RenewedAll issuer occasion d [] d
  | cons {d d' d'' : StoreData} {name : String} {rest : List String}
    (hfirst : Renewed issuer occasion d name d')
    (hrest : RenewedAll issuer occasion d' rest d'') :
    RenewedAll issuer occasion d (name :: rest) d''

inductive FailsToRenew (issuer : Issuer) (occasion : Occasion) (d : StoreData) (name : String) :
    Fault → Prop
  | parameters {fault : Fault} (h : parametersOf d name = .error fault) :
    FailsToRenew issuer occasion d name fault
  | signer {p : CertificateParameters} {fault : Fault} (hp : parametersOf d name = .ok p)
    (h : signerFor d name p = .error fault) : FailsToRenew issuer occasion d name fault
  | issue {p : CertificateParameters} {signer : Option SigningAuthority} {n : Nat} {fault : Fault}
    (hp : parametersOf d name = .ok p) (hsigner : signerFor d name p = .ok signer)
    (h : issuer p signer occasion.now ⟨occasion.number, n⟩ = .error fault) :
    FailsToRenew issuer occasion d name fault
  | kind {p : CertificateParameters} {v : Version} {held : Credential} {fault : Fault}
    (hp : parametersOf d name = .ok p) (hv : Issued issuer occasion d name p v)
    (hheld : d.find? name = some held) (h : held.append v = .error fault) :
    FailsToRenew issuer occasion d name fault

theorem parametersOf_eq_ok {p : CertificateParameters} (h : parametersOf d name = .ok p) :
    ∃ held latest, d.find? name = some held ∧ held.latestCertificate? = some latest ∧
      p = .ofCertificate latest.certificate latest.signerName := by
  unfold parametersOf at h
  split at h
  · cases h
  · rename_i latest hlatest
    cases h
    obtain ⟨held, hheld, hcertificate⟩ := Option.bind_eq_some_iff.1 hlatest
    exact ⟨held, latest, hheld, hcertificate, rfl⟩

theorem renewed_of_renew {actor : String} {t t' : Transaction}
    (h : (renew issuer actor name).runIn t = (.ok (), t')) :
    Renewed issuer t.occasion t.data name t'.data := by
  rw [renew, Work.runIn_data_bind, Work.runIn_lift_bind_eq_ok] at h
  obtain ⟨p, hp, h⟩ := h
  obtain ⟨held, latest, hheld, hlatest, rfl⟩ := parametersOf_eq_ok hp
  obtain ⟨_, t₁, hissue, h⟩ := Work.runIn_bind_eq_ok.1 h
  obtain ⟨v, hv, hgains⟩ := issued_of_issueInto hissue
  obtain ⟨hkind, hdata⟩ := hgains.of_find?_eq_some hheld
  have hsame : t'.data = t₁.data := (congrArg (·.2.data) h).symm
  exact ⟨held, latest, v, hheld, hlatest, hv, hkind, hsame.trans hdata⟩

theorem isBuilt_renew (issuer : Issuer) (actor name : String) :
    (renew issuer actor name).IsBuilt := by
  refine .bind (.inquiry _) fun d => .bind (.lift _) fun p => ?_
  exact .bind (isBuilt_issueInto issuer name p) fun _ => .bind (.inquiry _) fun _ => .inquiry _

theorem failsToRenew_of_issueInto {p : CertificateParameters} {t t' : Transaction} {fault : Fault}
    (hp : parametersOf t.data name = .ok p)
    (h : (issueInto issuer name p).runIn t = (.error fault, t')) :
    FailsToRenew issuer t.occasion t.data name fault := by
  rw [issueInto, Work.runIn_data_bind, Work.runIn_lift_bind_eq_error] at h
  rcases h with ⟨hsigner, -⟩ | ⟨signer, hsigner, h⟩
  · exact .signer hp hsigner
  · rw [Work.runIn_now_bind, Work.runIn_draw_bind, Work.runIn_lift_bind_eq_error] at h
    rcases h with ⟨hissue, -⟩ | ⟨value, hvalue, h⟩
    · exact .issue (n := t.drawn) hp hsigner hissue
    · obtain ⟨held, hheld, happend⟩ := Transaction.append_eq_error_of_putVersion h
      exact .kind hp ⟨signer, value, t.drawn, hsigner, hvalue, rfl⟩ hheld happend

theorem failsToRenew_of_renew {actor : String} {t t' : Transaction} {fault : Fault}
    (h : (renew issuer actor name).runIn t = (.error fault, t')) :
    FailsToRenew issuer t.occasion t.data name fault := by
  rw [renew, Work.runIn_data_bind, Work.runIn_lift_bind_eq_error] at h
  rcases h with ⟨hp, -⟩ | ⟨p, hp, h⟩
  · exact .parameters hp
  · rcases Work.runIn_bind_eq_error.1 h with hissue | ⟨_, t₁, -, hcollect⟩
    · exact failsToRenew_of_issueInto hp hissue
    · cases hcollect

theorem renewedAll_of_forM_renew {actor : String} {names : List String} {t t' : Transaction}
    (h : (names.forM (renew issuer actor)).runIn t = (.ok (), t')) :
    RenewedAll issuer t.occasion t.data names t'.data := by
  induction names generalizing t with
  | nil =>
    cases h
    exact .nil _
  | cons name rest ih =>
    obtain ⟨_, t₁, hfirst, hrest⟩ := Work.runIn_bind_eq_ok.1 h
    have hoccasion := ((isBuilt_renew issuer actor name).isUndoable t).1
    rw [hfirst] at hoccasion
    exact .cons (renewed_of_renew hfirst) (hoccasion ▸ ih hrest)

theorem occasion_of_forM_renew {actor : String} {names : List String} {t t' : Transaction}
    {ending : Except Fault PUnit} (h : (names.forM (renew issuer actor)).runIn t = (ending, t')) :
    t'.occasion = t.occasion := by
  have hbuilt : (names.forM (renew issuer actor)).IsBuilt := .forM (isBuilt_renew issuer actor)
  have hkept := (hbuilt.isUndoable t).1
  rwa [h] at hkept

theorem failsToRenew_of_forM_renew {actor : String} {names : List String} {t t' : Transaction}
    {fault : Fault} (h : (names.forM (renew issuer actor)).runIn t = (.error fault, t')) :
    ∃ done name rest d', names = done ++ name :: rest ∧
      RenewedAll issuer t.occasion t.data done d' ∧
      FailsToRenew issuer t.occasion d' name fault := by
  obtain ⟨done, name, rest, between, rfl, hdone, hname⟩ := Work.runIn_forM_eq_error.1 h
  have hfails := failsToRenew_of_renew hname
  rw [occasion_of_forM_renew hdone] at hfails
  exact ⟨done, name, rest, _, rfl, renewedAll_of_forM_renew hdone, hfails⟩

/-- The signer that is named, in normal form. -/
def Names (signedBy : Option String) (given : String) : Prop :=
  ∃ text, signedBy = some text ∧ Text.trimmed text ≠ "" ∧
    Naming.normalize (Text.trimmed text) = .ok given

theorem signerName_eq_ok {signedBy : Option String} {given : String} :
    signerName signedBy = .ok given ↔ Names signedBy given := by
  unfold signerName Names
  cases signedBy with
  | none => simp
  | some text => by_cases h : Text.trimmed text = "" <;> simp [h]

theorem Names.key_eq {text given : String} (h : Names (some text) given) :
    Naming.key given = Naming.key text := by
  obtain ⟨_, ⟨⟩, -, hnormal⟩ := h
  rw [Naming.key_normalize hnormal, Naming.key_trimmed]

theorem status_of_signerName_eq_error {signedBy : Option String} {fault : Fault}
    (h : signerName signedBy = .error fault) : fault.status = 400 := by
  unfold signerName at h
  split at h
  · split at h
    · cases h
      rfl
    · exact Naming.status_of_normalize_eq_error h
  · cases h
    rfl

variable {policy : AccessPolicy} {actor : String} {signedBy : Option String}

def planned (policy : AccessPolicy) (d : StoreData) (actor : String) (signedBy : Option String) :
    Except Fault (List String) :=
  (signerName signedBy).bind fun given =>
    (policy.required d actor given [.read]).bind fun root =>
      (d.signingGraph.descendants root).bind fun names =>
        if names.all (policy.permits d · actor .write) then .ok names
        else .error (.forbidden .insufficientPermission)

theorem runOn_plan_fst (now : Time.Instant) (ps : List AuditParameters) :
    ((plan policy actor signedBy).runOn d now ps).1 = planned policy d actor signedBy := by
  simp only [plan, planned, Inquiry.runOn_collect_bind, Inquiry.runOn_lift_bind]
  cases signerName signedBy with
  | error fault => rfl
  | ok given =>
    simp only [Inquiry.runOn_bind, AccessPolicy.runOn_require, Except.bind]
    cases policy.required d actor given [.read] with
    | error fault => rfl
    | ok root =>
      simp only [Inquiry.runOn_resolveFor, Inquiry.runOn_data, Inquiry.runOn_lift]
      cases d.signingGraph.descendants root with
      | error fault => rfl
      | ok names => by_cases h : names.all (policy.permits d · actor .write) <;> simp [h]

theorem runIn_renewBelow (issuer : Issuer) (policy : AccessPolicy) (actor : String)
    (signedBy : Option String) (t : Transaction) :
    ∃ t₁, t₁.data = t.data ∧ t₁.occasion = t.occasion ∧
      (renewBelow issuer policy actor signedBy).runIn t =
        match planned policy t.data actor signedBy with
        | .error fault => (.error fault, t₁)
        | .ok names => (do names.forM (renew issuer actor); return names : Work _).runIn t₁ := by
  let ps := ((plan policy actor signedBy).runOn t.data t.now t.parameters).2
  refine ⟨{ t with parameters := ps }, rfl, rfl, ?_⟩
  have hplan : (liftM (plan policy actor signedBy) : Work (List String)).runIn t =
      (planned policy t.data actor signedBy, { t with parameters := ps }) := by
    rw [Work.runIn_inquiry, runOn_plan_fst]
  rw [renewBelow]
  cases h : planned policy t.data actor signedBy with
  | error fault => exact Work.runIn_bind_of_eq_error (hplan.trans (by rw [h]))
  | ok names => exact Work.runIn_bind_of_eq_ok (hplan.trans (by rw [h]))

theorem renewedAll_of_renewBelow {names : List String} {t t' : Transaction}
    (h : (renewBelow issuer policy actor signedBy).runIn t = (.ok names, t')) :
    planned policy t.data actor signedBy = .ok names ∧
      RenewedAll issuer t.occasion t.data names t'.data := by
  obtain ⟨t₁, hdata, hoccasion, hrun⟩ := runIn_renewBelow issuer policy actor signedBy t
  rw [hrun] at h
  split at h
  · cases h
  · rename_i order hplan
    obtain ⟨_, t₂, hrenew, h⟩ := Work.runIn_bind_eq_ok.1 h
    cases h
    rw [← hdata, ← hoccasion]
    exact ⟨hdata ▸ hplan, renewedAll_of_forM_renew hrenew⟩

theorem planned_eq_ok {names : List String} :
    planned policy d actor signedBy = .ok names ↔
      ∃ given ca, Names signedBy given ∧ d.find? given = some ca ∧
        policy.permits d given actor .read = true ∧
        d.signingGraph.descendants ca.name = .ok names ∧
        ∀ name ∈ names, policy.permits d name actor .write = true := by
  simp only [planned, Except.bind_eq_ok, signerName_eq_ok, AccessPolicy.required_eq_ok]
  constructor
  · rintro ⟨given, hgiven, _, ⟨ca, hca, hread, rfl⟩, order, horder, h⟩
    by_cases hall : order.all (policy.permits d · actor .write)
    · rw [if_pos hall] at h
      cases h
      exact ⟨given, ca, hgiven, hca, hread, horder, List.all_eq_true.1 hall⟩
    · rw [if_neg hall] at h
      cases h
  · rintro ⟨given, ca, hgiven, hca, hread, horder, hwrite⟩
    exact ⟨given, hgiven, ca.name, ⟨ca, hca, hread, rfl⟩, names, horder,
      if_pos (List.all_eq_true.2 hwrite)⟩

theorem renewedAll_cons :
    RenewedAll issuer occasion d (name :: rest) d' ↔
      ∃ next, Renewed issuer occasion d name next ∧ RenewedAll issuer occasion next rest d' := by
  constructor
  · rintro (_ | ⟨hfirst, hrest⟩)
    exact ⟨_, hfirst, hrest⟩
  · rintro ⟨next, hfirst, hrest⟩
    exact .cons hfirst hrest

theorem renewedAll_append :
    RenewedAll issuer occasion d (done ++ rest) d' ↔
      ∃ between, RenewedAll issuer occasion d done between ∧
        RenewedAll issuer occasion between rest d' := by
  induction done generalizing d with
  | nil =>
    constructor
    · exact fun h => ⟨d, .nil d, h⟩
    · rintro ⟨_, ⟨⟩, h⟩
      exact h
  | cons first done ih =>
    rw [List.cons_append, renewedAll_cons]
    simp only [ih]
    constructor
    · rintro ⟨next, hfirst, between, hdone, hrest⟩
      exact ⟨between, .cons hfirst hdone, hrest⟩
    · rintro ⟨between, hdone, hrest⟩
      obtain ⟨next, hfirst, hdone⟩ := renewedAll_cons.1 hdone
      exact ⟨next, hfirst, between, hdone, hrest⟩

def Reissued (issuer : Issuer) (occasion : Occasion) (d : StoreData) (names : List String)
    (name : String) (v : Version) : Prop :=
  ∃ done rest between held latest, names = done ++ name :: rest ∧
    RenewedAll issuer occasion d done between ∧ between.find? name = some held ∧
    held.latestCertificate? = some latest ∧
    Issued issuer occasion between name (.ofCertificate latest.certificate latest.signerName) v

theorem RenewedAll.accessLists_eq {names : List String}
    (h : RenewedAll issuer occasion d names d') : d'.accessLists = d.accessLists := by
  induction h with
  | nil => rfl
  | cons hfirst _ ih =>
    obtain ⟨held, latest, v, -, -, -, -, rfl⟩ := hfirst
    exact ih

theorem RenewedAll.get?_of_not_mem {names : List String} {key : String}
    (h : RenewedAll issuer occasion d names d') (hkey : key ∉ names.map Naming.key) :
    d'.credentials.get? key = d.credentials.get? key := by
  induction h with
  | nil => rfl
  | cons hfirst _ ih =>
    rw [List.map_cons, List.mem_cons, not_or] at hkey
    obtain ⟨held, latest, v, -, -, -, -, rfl⟩ := hfirst
    rw [ih hkey.2, StoreData.get?_holding_of_ne _ _ (Ne.symm hkey.1)]

/-- The turn of one name among different ones: it gains a version, made from the data that the names
before it have left, and keeps it; from its turn on nothing changes but the names still to come. -/
theorem RenewedAll.turn {done rest : List String}
    (h : RenewedAll issuer occasion d (done ++ name :: rest) d')
    (hdistinct : ((done ++ name :: rest).map Naming.key).Nodup) :
    ∃ between held latest v, RenewedAll issuer occasion d done between ∧
      d.find? name = some held ∧ between.find? name = some held ∧
      held.latestCertificate? = some latest ∧
      Issued issuer occasion between name (.ofCertificate latest.certificate latest.signerName) v ∧
      v.value.kind = held.kind ∧ d'.find? name = some (held.extended v) ∧
      ∀ key ∉ (name :: rest).map Naming.key,
        d'.credentials.get? key = between.credentials.get? key := by
  rw [List.map_append, List.map_cons, List.nodup_append, List.nodup_cons] at hdistinct
  obtain ⟨-, ⟨hnotRest, -⟩, hapart⟩ := hdistinct
  have hnotDone : Naming.key name ∉ done.map Naming.key := fun hmem =>
    hapart _ hmem _ List.mem_cons_self rfl
  obtain ⟨between, hdone, hlater⟩ := renewedAll_append.1 h
  obtain ⟨next, hrenewed, hrest⟩ := renewedAll_cons.1 hlater
  obtain ⟨held, latest, v, hfound, hlatest, hissued, hkind, rfl⟩ := hrenewed
  have hsame : between.find? name = d.find? name := hdone.get?_of_not_mem hnotDone
  refine ⟨between, held, latest, v, hdone, hsame.symm.trans hfound, hfound, hlatest, hissued, hkind,
    ?_, fun key hkey => hlater.get?_of_not_mem hkey⟩
  rw [StoreData.find?, hrest.get?_of_not_mem hnotRest, StoreData.get?_holding_self]

theorem RenewedAll.find?_of_mem {names : List String}
    (h : RenewedAll issuer occasion d names d') (hdistinct : (names.map Naming.key).Nodup)
    (hname : name ∈ names) :
    ∃ held v, d.find? name = some held ∧ v.value.kind = held.kind ∧
      Reissued issuer occasion d names name v ∧ d'.find? name = some (held.extended v) := by
  obtain ⟨done, rest, rfl⟩ := List.append_of_mem hname
  obtain ⟨between, held, latest, v, hdone, hheld, hat, hlatest, hissued, hkind, hfinal, -⟩ :=
    h.turn hdistinct
  exact ⟨held, v, hheld, hkind,
    ⟨done, rest, between, held, latest, rfl, hdone, hat, hlatest, hissued⟩, hfinal⟩

theorem RenewedAll.grownAt {names : List String} (h : RenewedAll issuer occasion d names d')
    (hdistinct : (names.map Naming.key).Nodup) : d.GrownAt names d' where
  distinct := hdistinct
  grown name hname := by
    obtain ⟨held, v, hheld, -, -, hfinal⟩ := h.find?_of_mem hdistinct hname
    exact ⟨held, v, hheld, hfinal⟩
  kept _ hkey := h.get?_of_not_mem hkey
  accessLists := h.accessLists_eq

end Renewal

end Strongroom
