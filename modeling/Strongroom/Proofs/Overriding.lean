import Strongroom.Proofs.Assembling

/-! A request that is accepted on its own says the same when it changes other parameters: the result
has what the request asks for where it speaks and what was there elsewhere. The one exception is an
empty signer. On its own it counts as none, but as a change it is taken for a signer, so that it
contradicts signing oneself and otherwise takes the signature away from what signs itself. -/

namespace Strongroom.CertificateParameters

/-- The parameters `p` with those of `q` wherever the request says something about them. Who signs
is one thing, about which a signer or the wish to sign oneself says something. -/
def patched (p q : CertificateParameters) (r : CertificateRequest) : CertificateParameters where
  keyLength := if r.keyLength.isSome then q.keyLength else p.keyLength
  durationDays := if r.duration.isSome then q.durationDays else p.durationDays
  selfSigned := if r.signer.isSome || r.selfSign = some true then q.selfSigned else p.selfSigned
  isAuthority := if r.isAuthority.isSome then q.isAuthority else p.isAuthority
  signerName := if r.signer.isSome || r.selfSign = some true then q.signerName else p.signerName
  subject := if r.subject.isEmpty then p.subject else q.subject
  alternativeNames :=
    if r.alternativeNames.isSome then q.alternativeNames else p.alternativeNames
  keyUsage := if r.keyUsage.isSome then q.keyUsage else p.keyUsage
  purposes := if r.purposes.isSome then q.purposes else p.purposes

variable {r : CertificateRequest} {defaults : CertificateDefaults} {q : CertificateParameters}

theorem overriding_of_readGiven {α β : Type} {read : α → Except Fault β} {given : Option α}
    {value : Option β} (h : readGiven read given = .ok value) (held : Option β) :
    overriding (fun a => (read a).map some) given held =
      .ok (if given.isSome then value else held) := by
  cases given with
  | none => rfl
  | some a => exact h

theorem overriding_of_getD {check : Nat → Except Fault Nat} {given : Option UInt32}
    {default value : Nat} (h : check ((given.map UInt32.toNat).getD default) = .ok value)
    (held : Nat) :
    overriding (check ·.toNat) given held = .ok (if given.isSome then value else held) := by
  cases given with
  | none => rfl
  | some n => exact h

theorem overrideSigning_of_signing {selfSigned : Bool} {signerName : Option String}
    (h : signing r = .ok (selfSigned, signerName)) (hempty : r.signer ≠ some "")
    (held : Bool × Option String) :
    overrideSigning r held =
      .ok (if r.signer.isSome || r.selfSign = some true then (selfSigned, signerName)
        else held) := by
  cases hsigner : r.signer with
  | none =>
    obtain ⟨-, -, rfl, rfl⟩ := signing_eq_ok.1 h
    rw [r.namedSigner_of_ne_empty hempty, hsigner, overrideSigning_of_none hsigner]
    by_cases hself : r.selfSign = some true <;> simp [hself]
  | some signer =>
    have hgiven : signer ≠ "" := fun heq => hempty (heq ▸ hsigner)
    rw [overrideSigning_of_some hsigner, ← signing_of_given hsigner hgiven, h]
    rfl

theorem override_eq (h : ofRequest r defaults = .ok q) (p : CertificateParameters) :
    p.override r =
      (overrideSigning r (p.selfSigned, p.signerName)).map fun (selfSigned, signerName) =>
        { p.patched q r with selfSigned, signerName } := by
  have hq := ofRequest_eq_ok.1 h
  have hauthority :
      r.isAuthority.getD p.isAuthority = (p.patched q r).isAuthority := by
    rw [patched, hq.isAuthority]
    cases r.isAuthority <;> rfl
  have hsubject : (if r.subject.isEmpty then p.subject else r.subject) =
      (p.patched q r).subject := by
    rw [patched, hq.subject]
  have hnames : (r.alternativeNames.map (·.map AlternativeName.classify)).or p.alternativeNames =
      (p.patched q r).alternativeNames := by
    rw [patched, hq.alternativeNames]
    cases r.alternativeNames <;> rfl
  rw [override, overriding_of_readGiven hq.keyUsage, overriding_of_readGiven hq.purposes,
    overriding_of_getD hq.keyLength, overriding_of_getD hq.durationDays, hauthority, hsubject,
    hnames]
  cases overrideSigning r (p.selfSigned, p.signerName) <;> rfl

/-- A request that is accepted on its own does to any parameters what it says there, unless its
signer is empty: then it is refused if it is to sign itself, and otherwise leaves nobody to sign. -/
theorem override_eq_patched_iff (h : ofRequest r defaults = .ok q) (p : CertificateParameters) :
    (p.override r = .ok (p.patched q r) ↔ r.signer ≠ some "") ∧
      (r.signer = some "" → p.override r =
        if r.selfSign = some true then .error (.validation .authorityAndSelfSign)
        else .ok { p.patched q r with selfSigned := false, signerName := some "" }) := by
  have hsigning := (ofRequest_eq_ok.1 h).signing
  have hempty : r.signer = some "" → p.override r =
      if r.selfSign = some true then .error (.validation .authorityAndSelfSign)
      else .ok { p.patched q r with selfSigned := false, signerName := some "" } := by
    intro hempty
    rw [override_eq h, overrideSigning_of_some hempty]
    split <;> rfl
  refine ⟨⟨fun hpatched hsigner => ?_, fun hsigner => ?_⟩, hempty⟩
  · -- on its own the request would name no signer
    have hnone : (p.patched q r).signerName = none := by
      obtain ⟨-, -, -, hname⟩ := signing_eq_ok.1 hsigning
      rw [patched, hname, CertificateRequest.namedSigner, hsigner]
      rfl
    rw [hempty hsigner] at hpatched
    split at hpatched
    · cases hpatched
    · have hname := congrArg signerName (Except.ok.inj hpatched)
      rw [hnone] at hname
      cases hname
  · rw [override_eq h, overrideSigning_of_signing hsigning hsigner]
    by_cases hspoken : (r.signer.isSome || r.selfSign = some true) = true <;>
      simp [Except.map, patched, hspoken]

theorem override_eq_patched_iff_renamed :
    let r : CertificateRequest :=
      { alternativeNames := some ["db.example"], keyLength := some 3072, signer := some "/ca" }
    let q : CertificateParameters :=
      ⟨3072, 365, false, false, some "/ca", {}, some [.dns "db.example"], none, none⟩
    let p : CertificateParameters :=
      ⟨2048, 30, true, true, none, { commonName := some "Root" }, none, none, none⟩
    ofRequest r ⟨365, 2048⟩ = .ok q ∧ r.signer ≠ some "" ∧ p.override r = .ok (p.patched q r) ∧
      p.patched q r = ⟨3072, 30, false, true, some "/ca", { commonName := some "Root" },
        some [.dns "db.example"], none, none⟩ := by
  intro r q p
  have hq : ofRequest r ⟨365, 2048⟩ = .ok q := by decide +kernel
  have hsigner : r.signer ≠ some "" := by decide
  exact ⟨hq, hsigner, (override_eq_patched_iff hq p).1.2 hsigner, rfl⟩

/-- Requests with an empty signer that are accepted on their own. The one that is to sign itself is
refused as a change of what it led to, the authority is left without anybody to sign. -/
theorem override_empty_signer :
    let r : CertificateRequest :=
      { subject := { commonName := some "Root" }, signer := some "", selfSign := some true }
    let q : CertificateParameters :=
      ⟨2048, 365, true, false, none, { commonName := some "Root" }, none, none, none⟩
    let r' : CertificateRequest :=
      { subject := { commonName := some "Root" }, signer := some "", isAuthority := some true }
    let q' : CertificateParameters :=
      ⟨2048, 365, true, true, none, { commonName := some "Root" }, none, none, none⟩
    ofRequest r ⟨365, 2048⟩ = .ok q ∧
      q.override r = .error (.validation .authorityAndSelfSign) ∧
      ofRequest r' ⟨365, 2048⟩ = .ok q' ∧
      q'.override r' = .ok { q' with selfSigned := false, signerName := some "" } := by
  decide +kernel

end Strongroom.CertificateParameters
