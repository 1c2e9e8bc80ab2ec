import Strongroom.Proofs.History
import Strongroom.Proofs.Parameters
import Strongroom.Proofs.Reading
import Strongroom.Proofs.Signing

/-! Where stored certificates come from. A certificate is read from a document or issued here, so
that a custodian which is given none but such holds none but such. -/

namespace Strongroom

/-- Certificates that there can be: what is read from a document, and what is issued. -/
inductive Certificate.IsGenuine : Certificate → Prop
  | read {text : String} {c : Certificate} (h : ofArmor text = .ok c) : IsGenuine c
  | issued {p : CertificateParameters} {signer : Option SigningAuthority} {now : Time.Instant}
    {id : FreshId} {value : CertificateValue} (h : Issuance.issue p signer now id = .ok value) :
    IsGenuine value.certificate

theorem Certificate.IsGenuine.obtained {c : Certificate} (h : c.IsGenuine)
    (signerName : Option String) : (CertificateParameters.ofCertificate c signerName).Obtained := by
  cases h with
  | read h => exact .imported signerName h
  | issued h => exact .issued signerName h

def Call.IsGenuine : Call → Prop
  | .set _ (.certificate value) _ _ => value.certificate.IsGenuine
  | _ => True

def StoreData.GenuineAt (d : StoreData) (key : String) : Prop :=
  ∀ v value, d.Stores key v → v.value = .certificate value → value.certificate.IsGenuine

theorem Renewal.Issued.isGenuine {issuer : Issuer} {occasion : Occasion} {d : StoreData}
    {name : String} {p : CertificateParameters} {v : Version} {value : CertificateValue}
    (h : Issued issuer occasion d name p v) (hissuer : issuer.IsStandard)
    (hvalue : v.value = .certificate value) : value.certificate.IsGenuine := by
  obtain ⟨signer, issued, n, -, hissue, rfl⟩ := h
  cases hvalue
  exact .issued (hissuer hissue)

namespace Event

variable {e : Event} {key name : String} {v : Version} {value : CertificateValue}

theorem Made.isGenuine (h : e.Made name v) (hcall : e.call.IsGenuine)
    (hissuer : e.before.issuer.IsStandard) (hvalue : v.value = .certificate value) :
    value.certificate.IsGenuine := by
  cases h with
  | among _ hreissued =>
    obtain ⟨_, _, _, _, _, -, -, -, -, hissued⟩ := hreissued
    exact hissued.isGenuine hissuer hvalue
  | alone _ hmakes =>
    cases h : e.call with
    | set _ given _ _ =>
      rw [h] at hmakes hcall
      obtain ⟨n, rfl⟩ := hmakes
      cases hvalue
      exact hcall
    | generate | regenerate =>
      obtain ⟨p, q, -, hissued⟩ := hmakes.issuesAs (by rw [h]; rfl)
      exact hissued.isGenuine hissuer hvalue
    | _ =>
      rw [h] at hmakes
      exact hmakes.elim

theorem genuineAt_after (hsound : e.before.store.data.Sound) (hcall : e.call.IsGenuine)
    (hissuer : e.before.issuer.IsStandard) (h : e.before.store.data.GenuineAt key) :
    e.after.store.data.GenuineAt key := by
  rintro v value ⟨left, hleft, hv⟩ hvalue
  have hleft : e.left key = some left := hleft
  cases step_of_sound key hsound with
  | kept _ _ hkept => exact h v value ⟨left, hkept.symm.trans hleft, hv⟩ hvalue
  | created _ _ hproduced _ hcreated hversions =>
    cases hcreated.symm.trans hleft
    rw [hversions, List.mem_singleton] at hv
    obtain ⟨_, -, hmade⟩ := hproduced.made
    exact (hv ▸ hmade).isGenuine hcall hissuer hvalue
  | @appended held _ _ _ hproduced hfound _ happended =>
    cases happended.symm.trans hleft
    rw [Credential.versions_extended, List.mem_append, List.mem_singleton] at hv
    rcases hv with hv | rfl
    · exact h v value ⟨held, hfound, hv⟩ hvalue
    · obtain ⟨_, -, hmade⟩ := hproduced.made
      exact hmade.isGenuine hcall hissuer hvalue
  | deleted _ hgone => cases hgone.symm.trans hleft

end Event

namespace Custodian

/-- The custodians that come of one with nothing in it by calls of the given sort. -/
inductive ReachableBy (sort : Call → Prop) (config : Config) (issuer : Issuer) : Custodian → Prop
  | start : ReachableBy sort config issuer (empty config issuer)
  | perform {c : Custodian} (h : ReachableBy sort config issuer c) (caller : Caller)
    (occasion : Occasion) {call : Call} (hcall : sort call) :
    ReachableBy sort config issuer (c.perform caller occasion call).2
  | logged {c : Custodian} (h : ReachableBy sort config issuer c) (log : AuditLog) :
    ReachableBy sort config issuer { c with store := ⟨c.store.data, log⟩ }

namespace ReachableBy

variable {sort : Call → Prop} {config : Config} {issuer : Issuer} {c : Custodian}

theorem reachable (h : ReachableBy sort config issuer c) : Reachable config issuer c := by
  induction h with
  | start => exact .start
  | perform _ caller occasion _ ih => exact ih.perform caller occasion _
  | logged _ log ih => exact ih.logged log

theorem genuineAt (h : ReachableBy Call.IsGenuine config issuer c) (hissuer : issuer.IsStandard)
    (key : String) : c.store.data.GenuineAt key := by
  induction h with
  | start =>
    rintro v value ⟨_, hnone, -⟩
    cases hnone
  | @perform before h caller occasion call hcall ih =>
    exact Event.genuineAt_after (e := ⟨⟨caller, occasion, call⟩, before⟩) h.reachable.sound hcall
      (h.reachable.issuer_eq ▸ hissuer) ih
  | logged _ _ ih => exact ih

theorem isGenuine_latest {name : String} {held : Credential} {latest : CertificateValue}
    (h : ReachableBy Call.IsGenuine config issuer c) (hissuer : issuer.IsStandard)
    (hheld : c.store.data.find? name = some held)
    (hlatest : held.latestCertificate? = some latest) : latest.certificate.IsGenuine := by
  refine h.genuineAt hissuer _ held.latest latest ⟨held, hheld, held.latest_mem_versions⟩ ?_
  unfold Credential.latestCertificate? CredentialValue.certificate? at hlatest
  split at hlatest
  · rename_i value hvalue
    cases hlatest
    exact hvalue
  · cases hlatest

end ReachableBy

theorem reachableBy_afterAll {sort : Call → Prop} (config : Config) (issuer : Issuer)
    {turns : List Turn} (h : ∀ turn ∈ turns, sort turn.call) :
    ReachableBy sort config issuer ((empty config issuer).afterAll turns) := by
  induction turns using List.reverseRecOn with
  | nil => exact .start
  | append_singleton turns turn ih =>
    rw [afterAll_concat]
    have hbefore := ih fun earlier hearlier => h earlier (List.mem_append_left _ hearlier)
    exact hbefore.perform turn.caller turn.occasion (h turn List.mem_concat_self)

end Custodian

end Strongroom
