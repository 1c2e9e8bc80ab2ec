import Strongroom.Proofs.Calls
import Strongroom.Proofs.Issuing
import Strongroom.Proofs.Requests

/-! What the steps of a call fail with, told by the status of the fault where it has many forms and
by the fault itself where it has few. What is wrong with a request has one status, whatever it is;
issuing has faults of its own only for the time and for a signer that was brought in. -/

namespace Strongroom

theorem KeyUsage.status_of_ofTokens_eq_error {tokens : List String} {fault : Fault}
    (h : ofTokens tokens = .error fault) : fault.status = 400 := by
  rw [ofTokens_eq] at h
  split at h <;> cases h
  rfl

theorem Purpose.status_of_ofTokens_eq_error {tokens : List String} {fault : Fault}
    (h : ofTokens tokens = .error fault) : fault.status = 400 := by
  rw [ofTokens_eq] at h
  split at h <;> cases h
  rfl

namespace CertificateParameters

variable {r : CertificateRequest} {fault : Fault}

theorem status_of_checkKeyLength_eq_error {length : Nat}
    (h : checkKeyLength length = .error fault) : fault.status = 400 := by
  unfold checkKeyLength at h
  split at h <;> cases h
  rfl

theorem status_of_checkDuration_eq_error {days : Nat} (h : checkDuration days = .error fault) :
    fault.status = 400 := by
  unfold checkDuration at h
  split at h <;> cases h
  rfl

theorem status_of_ofRequest_eq_error {defaults : CertificateDefaults}
    (h : ofRequest r defaults = .error fault) : fault.status = 400 := by
  have hanswers := ofRequest_answers r defaults
  rw [h] at hanswers
  cases hanswers with
  | @refused _ _ c => cases c <;> rfl

theorem status_of_overriding_eq_error {α β : Type} {read : α → Except Fault β} {given : Option α}
    {held : β} (hread : ∀ {a}, read a = .error fault → fault.status = 400)
    (h : overriding read given held = .error fault) : fault.status = 400 := by
  cases given with
  | none => cases h
  | some a => exact hread h

theorem status_of_overrideSigning_eq_error {held : Bool × Option String}
    (h : overrideSigning r held = .error fault) : fault.status = 400 := by
  unfold overrideSigning at h
  split at h <;> cases h
  rfl

theorem status_of_override_eq_error {p : CertificateParameters}
    (h : p.override r = .error fault) : fault.status = 400 := by
  unfold override at h
  obtain h | ⟨usage, -, h⟩ := Except.bind_eq_error.1 h
  · refine status_of_overriding_eq_error (fun h => ?_) h
    exact KeyUsage.status_of_ofTokens_eq_error (Except.map_eq_error.1 h)
  obtain h | ⟨purposes, -, h⟩ := Except.bind_eq_error.1 h
  · refine status_of_overriding_eq_error (fun h => ?_) h
    exact Purpose.status_of_ofTokens_eq_error (Except.map_eq_error.1 h)
  obtain h | ⟨length, -, h⟩ := Except.bind_eq_error.1 h
  · exact status_of_overriding_eq_error status_of_checkKeyLength_eq_error h
  obtain h | ⟨days, -, h⟩ := Except.bind_eq_error.1 h
  · exact status_of_overriding_eq_error status_of_checkDuration_eq_error h
  obtain h | ⟨signing, -, h⟩ := Except.bind_eq_error.1 h
  · exact status_of_overrideSigning_eq_error h
  · cases h

end CertificateParameters

namespace Issuance

variable {p : CertificateParameters} {signer : Option SigningAuthority} {now : Time.Instant}
  {id : FreshId} {fault : Fault}

theorem status_of_chooseSigner_eq_error (hgiven : signer = none ↔ p.selfSigned = true)
    (h : chooseSigner p signer = .error fault) : fault.status = 400 := by
  unfold chooseSigner at h
  split at h
  · cases h
  · rename_i hself
    cases signer with
    | none => exact absurd (hgiven.1 rfl) hself
    | some s =>
      dsimp only at h
      split at h <;> cases h
      rfl

theorem status_of_checkNames_eq_error {names : List AlternativeName}
    (h : checkNames names = .error fault) : fault.status = 400 := by
  induction names with
  | nil => cases h
  | cons name rest ih =>
    cases name with
    | ip address => exact ih h
    | dns text =>
      rw [checkNames] at h
      split at h
      · exact ih h
      · cases h
        rfl

theorem validity_eq_error {days : Nat} (h : validity now days = .error fault) :
    fault = .issuing .validity := by
  unfold validity at h
  dsimp only at h
  split at h <;> cases h
  rfl

theorem issuerOf_eq_error {c : Certificate} (h : issuerOf c = .error fault) :
    fault = .issuing .issuance := by
  unfold issuerOf at h
  split at h
  · cases h
  · split at h
    · split at h <;> cases h
      rfl
    · cases h
      rfl

theorem issuerFor_eq_error (h : issuerFor p signer = .error fault) :
    fault = .issuing .issuance ∨ ∃ name, fault = .integrity (.keyMismatch name) := by
  cases signer with
  | none => cases h
  | some s =>
    rw [issuerFor] at h
    split at h
    · exact .inr ⟨s.name, (Except.error.inj h).symm⟩
    · exact .inl (issuerOf_eq_error h)

theorem issue_eq_error (hgiven : signer = none ↔ p.selfSigned = true)
    (h : issue p signer now id = .error fault) :
    fault.status = 400 ∨ fault = .issuing .validity ∨ fault = .issuing .issuance ∨
      ∃ name, fault = .integrity (.keyMismatch name) := by
  unfold issue at h
  obtain h | ⟨authority, -, h⟩ := Except.bind_eq_error.1 h
  · exact .inl (status_of_chooseSigner_eq_error hgiven h)
  obtain h | ⟨length, -, h⟩ := Except.bind_eq_error.1 h
  · exact .inl (CertificateParameters.status_of_checkKeyLength_eq_error h)
  obtain h | ⟨period, -, h⟩ := Except.bind_eq_error.1 h
  · exact .inr (.inl (validity_eq_error h))
  obtain h | ⟨_, -, h⟩ := Except.bind_eq_error.1 h
  · exact .inl (status_of_checkNames_eq_error h)
  obtain h | ⟨issuer, -, h⟩ := Except.bind_eq_error.1 h
  · exact .inr (.inr (issuerFor_eq_error h))
  · cases h

end Issuance

theorem AccessPolicy.required_eq_error {policy : AccessPolicy} {d : StoreData}
    {actor name : String} {operations : List Operation} {fault : Fault}
    (h : policy.required d actor name operations = .error fault) :
    ∃ cause, fault = .notFound cause := by
  unfold required at h
  split at h
  · cases h
  · rename_i cause _
    exact ⟨cause, (Except.error.inj h).symm⟩

theorem Credential.status_of_append_eq_error {c : Credential} {v : Version} {fault : Fault}
    (h : c.append v = .error fault) : fault.status = 400 := by
  unfold append at h
  split at h <;> cases h
  rfl

namespace Renewal

variable {d : StoreData} {name : String} {p : CertificateParameters} {fault : Fault}

theorem signerFor_eq_error (h : signerFor d name p = .error fault) :
    p.selfSigned = false ∧
      ((p.signerName = none ∧ fault = .integrity (.unsigned name)) ∨
        ∃ signer, p.signerName = some signer ∧
          ((d.find? signer = none ∧ fault = .integrity (.danglingSigner name signer)) ∨
            fault = .invalid .notACertificate (some signer))) := by
  unfold signerFor at h
  split at h
  · cases h
  · rename_i hself
    refine ⟨Bool.eq_false_iff.2 hself, ?_⟩
    split at h
    · rename_i hnone
      cases h
      exact .inl ⟨hnone, rfl⟩
    · rename_i signer hsigner
      refine .inr ⟨signer, hsigner, ?_⟩
      split at h
      · rename_i habsent
        cases h
        exact .inl ⟨habsent, rfl⟩
      · split at h
        · cases h
          exact .inr rfl
        · cases h

theorem signerFor_eq_none_iff {signer : Option SigningAuthority}
    (h : signerFor d name p = .ok signer) : signer = none ↔ p.selfSigned = true := by
  unfold signerFor at h
  split at h
  · rename_i hself
    cases h
    exact ⟨fun _ => hself, fun _ => rfl⟩
  · rename_i hself
    have hsome : ∃ s, signer = some s := by
      split at h
      · cases h
      · split at h
        · cases h
        · split at h <;> cases h
          exact ⟨_, rfl⟩
    obtain ⟨s, rfl⟩ := hsome
    exact ⟨nofun, fun h => absurd h hself⟩

end Renewal

theorem Custodian.pinned_eq_error {policy : AccessPolicy} {d : StoreData} {actor : String}
    {p : CertificateParameters} {fault : Fault} (h : pinned policy d actor p = .error fault) :
    ∃ cause, fault = .notFound cause := by
  unfold pinned at h
  split at h
  · cases h
  · split at h
    · cases h
    · exact AccessPolicy.required_eq_error (Except.map_eq_error.1 h)

end Strongroom
