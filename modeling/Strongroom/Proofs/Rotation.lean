import Strongroom.Proofs.AllOrNothing
import Strongroom.Proofs.Ancestry
import Strongroom.Proofs.Issuing

/-! Chains hold together when they are renewed. A signer comes before what it signed, and nothing
changes it after its turn, so that every certificate is signed by the version that its signer is
left with. -/

namespace Strongroom

/-- The value names the signer, holds the latest certificate that the signer has in the data, and
verifies with it. -/
def StoreData.ChainedTo (d : StoreData) (signer : String) (value : CertificateValue) : Prop :=
  value.signerName = some signer ∧ ∃ s latest, d.find? signer = some s ∧
    s.latestCertificate? = some latest ∧ value.signerCertificate = some latest.certificate ∧
    value.certificate.isSignedBy latest.certificate = true

namespace Renewal

variable {issuer : Issuer} {occasion : Occasion} {d d' : StoreData} {name signer : String}
  {done rest : List String} {held : Credential} {latest : CertificateValue}

theorem signerFor_eq_ok {p : CertificateParameters} {authority : Option SigningAuthority}
    (hself : p.selfSigned = false) (hsigner : p.signerName = some signer)
    (h : signerFor d name p = .ok authority) :
    ∃ s latest, d.find? signer = some s ∧ s.latestCertificate? = some latest ∧
      authority = some ⟨s.name, latest.certificate, latest.privateKey⟩ := by
  unfold signerFor at h
  rw [hself, if_neg Bool.false_ne_true, hsigner] at h
  dsimp only at h
  split at h
  · cases h
  · rename_i s hs
    split at h
    · cases h
    · rename_i latest hlatest
      cases h
      exact ⟨s, latest, hs, hlatest, rfl⟩

theorem signerFor_of_unsigned {p : CertificateParameters} (hself : p.selfSigned = false)
    (hsigner : p.signerName = none) :
    signerFor d name p = .error (.integrity (.unsigned name)) := by
  unfold signerFor
  rw [hself, if_neg Bool.false_ne_true, hsigner]

theorem Issued.chainedTo (hissuer : issuer.IsStandard) {v : Version}
    (hself : latest.certificate.fields.selfSigned = false)
    (hsigner : latest.signerName = some signer)
    (h : Issued issuer occasion d name (.ofCertificate latest.certificate latest.signerName) v) :
    ∃ value, v.value = .certificate value ∧ d.ChainedTo signer value := by
  obtain ⟨authority, value, n, hauthority, hvalue, rfl⟩ := h
  have hissue := hissuer hvalue
  obtain ⟨s, signing, hs, hsigning, rfl⟩ := signerFor_eq_ok hself hsigner hauthority
  obtain ⟨_, hgiven, hcertificate, hverifies⟩ := Issuance.signer_of_issue hissue hself
  cases hgiven
  have hname : value.signerName = some signer := by
    rw [Issuance.signerName_of_issue hissue]
    exact (if_neg (by simpa [CertificateParameters.ofCertificate] using hself)).trans hsigner
  exact ⟨value, rfl, hname, s, signing, hs, hsigning, hcertificate, hverifies⟩

theorem RenewedAll.chainedTo (hissuer : issuer.IsStandard)
    (h : RenewedAll issuer occasion d (done ++ name :: rest) d')
    (hdistinct : ((done ++ name :: rest).map Naming.key).Nodup)
    (hheld : d.find? name = some held) (hlatest : held.latestCertificate? = some latest)
    (hself : latest.certificate.fields.selfSigned = false)
    (hsigner : latest.signerName = some signer)
    (hafter : Naming.key signer ∉ (name :: rest).map Naming.key) :
    ∃ v value, d'.find? name = some (held.extended v) ∧ v.value = .certificate value ∧
      d'.ChainedTo signer value := by
  obtain ⟨between, _, _, v, -, hfound, -, hcertificate, hissued, -, hfinal, hkept⟩ :=
    h.turn hdistinct
  cases hheld.symm.trans hfound
  cases hlatest.symm.trans hcertificate
  obtain ⟨value, hvalue, hname, s, signing, hs, hchained⟩ := hissued.chainedTo hissuer hself hsigner
  have hsame : d'.find? signer = between.find? signer := hkept _ hafter
  exact ⟨v, value, hfinal, hvalue, hname, s, signing, hsame.trans hs, hchained⟩

end Renewal

theorem StoreData.Sound.signer_before {d : StoreData} (hd : d.Sound)
    {root name signer : String} {done rest : List String} {held : Credential}
    (hnames : d.signingGraph.descendants root = .ok (done ++ name :: rest))
    (hheld : d.find? name = some held) (hsigner : held.signerName? = some signer) :
    (Naming.key signer = Naming.key root ∨ Naming.key signer ∈ done.map Naming.key) ∧
      Naming.key signer ∉ (name :: rest).map Naming.key := by
  obtain ⟨-, hdistinct, hapart, -⟩ := SigningGraph.descendants_eq_ok hnames
  have hsigned : ∀ {parent}, name ∈ d.signedBy parent → Naming.key signer = Naming.key parent := by
    intro parent hchild
    obtain ⟨_, given, hfound, -, hgiven, hkey⟩ := hd.mem_signedBy.1 hchild
    cases hheld.symm.trans hfound
    cases hsigner.symm.trans hgiven
    exact hkey
  have hplaced : Naming.key signer = Naming.key root ∨ Naming.key signer ∈ done.map Naming.key := by
    rcases SigningGraph.descendants_ordered hnames rfl with hchild | ⟨parent, hparent, hchild⟩
    · exact .inl (hsigned hchild)
    · exact .inr (hsigned hchild ▸ List.mem_map_of_mem hparent)
  refine ⟨hplaced, fun hlater => ?_⟩
  rcases hplaced with hroot | hdone
  · obtain ⟨n, hn, hkey⟩ := List.mem_map.1 hlater
    exact hapart n (List.mem_append_right _ hn) (hkey.trans hroot)
  · rw [List.map_append, List.nodup_append] at hdistinct
    exact hdistinct.2.2 _ hdone _ hlater rfl

namespace Custodian

open Renewal

variable {c : Custodian} {caller : Caller} {occasion : Occasion} {signedBy : Option String}
  {done rest : List String} {name signer : String} {held : Credential} {latest : CertificateValue}

/-- What did not sign itself was signed by the head of the order or by what stands before it, and is
now signed by the version that its signer is left with. -/
theorem chainedTo_of_renewBelow (hdata : c.store.data.Reachable) (hissuer : c.issuer.IsStandard)
    (hanswer : (c.perform caller occasion (.renewBelow signedBy)).1 =
      .ok (.names (done ++ name :: rest)))
    (hheld : c.store.data.find? name = some held)
    (hlatest : held.latestCertificate? = some latest)
    (hself : latest.certificate.fields.selfSigned = false)
    (hsigner : latest.signerName = some signer) :
    let d' := (c.perform caller occasion (.renewBelow signedBy)).2.store.data
    ((∃ given, Names signedBy given ∧ Naming.key signer = Naming.key given) ∨
        Naming.key signer ∈ done.map Naming.key) ∧
      (∃ v value, d'.find? name = some (held.extended v) ∧ v.value = .certificate value ∧
        d'.ChainedTo signer value) ∧
      (Naming.key signer ∈ (done ++ name :: rest).map Naming.key →
        ∃ p w, c.store.data.find? signer = some p ∧ d'.find? signer = some (p.extended w)) := by
  obtain ⟨given, ca, names, hgiven, hca, -, hnames, -, heq, hall, hgrown⟩ :=
    (renewBelow_allOrNothing c caller occasion signedBy).granted hanswer
  cases heq
  have hrecorded : held.signerName? = some signer := by
    rw [Credential.signerName?, hlatest, Option.bind_some, hsigner]
  obtain ⟨hplaced, hafter⟩ := hdata.sound.signer_before hnames hheld hrecorded
  have hchained := hall.chainedTo hissuer hgrown.distinct hheld hlatest hself hsigner hafter
  refine ⟨hplaced.imp_left fun hroot => ?_, hchained, fun hmem => ?_⟩
  · exact ⟨given, hgiven, hroot.trans (hdata.sound.keyed hca)⟩
  · obtain ⟨n, hn, hkey⟩ := List.mem_map.1 hmem
    obtain ⟨p, w, hp, hw⟩ := hgrown.grown n hn
    rw [StoreData.find?_eq_of_key_eq hkey] at hp hw
    exact ⟨p, w, hp, hw⟩

def answeredNames? : Except Fault Answer → Option (List String)
  | .ok (.names names) => some names
  | _ => none

theorem answeredNames?_eq_some {outcome : Except Fault Answer} {names : List String} :
    answeredNames? outcome = some names ↔ outcome = .ok (.names names) := by
  unfold answeredNames?
  split <;> simp_all

def rotate (c : Custodian) (n : Nat) : Except Fault Answer × Custodian :=
  c.perform ⟨.ofNat n, "alice"⟩ ⟨n, ⟨1, 0⟩⟩ (.renewBelow (some "/ca"))

theorem answer_rotate_chained : (chained.rotate 5).1 = .ok (.names ["/mid", "/leaf"]) :=
  answeredNames?_eq_some.1 (by decide +kernel)

theorem isStandard_chained : chained.issuer.IsStandard := by
  rw [reachable_chained.issuer_eq]
  exact Issuer.isStandard_issue

theorem chainedTo_of_renewBelow_chained :
    ∃ (held mid : Credential) (v w : Version) (value : CertificateValue),
      let d' := (chained.rotate 5).2.store.data
      chained.store.data.find? "/leaf" = some held ∧ d'.find? "/leaf" = some (held.extended v) ∧
        v.value = .certificate value ∧ d'.ChainedTo "/mid" value ∧
        chained.store.data.find? "/mid" = some mid ∧ d'.find? "/mid" = some (mid.extended w) := by
  have hfields : ((chained.store.data.find? "/leaf").bind (·.latestCertificate?)).map
      (fun latest => (latest.certificate.fields.selfSigned, latest.signerName)) =
        some (false, some "/mid") := by decide +kernel
  obtain ⟨latest, hlatest, hpair⟩ := Option.map_eq_some_iff.1 hfields
  obtain ⟨hself, hsigner⟩ := Prod.mk.inj hpair
  obtain ⟨held, hheld, hcertificate⟩ := Option.bind_eq_some_iff.1 hlatest
  have hanswer : (chained.rotate 5).1 = .ok (.names (["/mid"] ++ "/leaf" :: [])) :=
    answer_rotate_chained
  obtain ⟨-, ⟨v, value, hv, hvalue, hchained⟩, hmid⟩ :=
    chainedTo_of_renewBelow reachable_chained.data isStandard_chained hanswer hheld hcertificate
      hself hsigner
  obtain ⟨mid, w, hbefore, hw⟩ := hmid (by decide +kernel)
  refine ⟨held, mid, v, w, value, ?_⟩
  unfold rotate
  exact ⟨hheld, hv, hvalue, hchained, hbefore, hw⟩

end Custodian

end Strongroom
