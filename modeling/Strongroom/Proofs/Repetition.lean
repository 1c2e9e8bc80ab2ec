import Strongroom.Proofs.Rotation

/-! Renewal below a signer, done again. It keeps who signed whom, but for certificates that sign
themselves although a signer is recorded for them: those lose it. Where there are none, the same is
renewed the next time. -/

namespace Strongroom

namespace StoreData

variable {d d' : StoreData} {name twin parent : String} {names : List String}

def signsItself (d : StoreData) (name : String) : Bool :=
  ((d.find? name).bind (·.latestCertificate?)).any (·.certificate.fields.selfSigned)

theorem Sound.mem_names (hd : d.Sound) :
    name ∈ d.signingGraph.names ↔ (d.find? name).map (·.name) = some name := by
  rw [signingGraph, List.mem_map, Option.map_eq_some_iff]
  constructor
  · rintro ⟨c, hc, rfl⟩
    exact ⟨c, hd.mem_values.1 hc, rfl⟩
  · rintro ⟨c, hc, rfl⟩
    exact ⟨c, hd.mem_values.2 hc, rfl⟩

theorem Sound.eq_of_key_eq (hd : d.Sound) (hname : name ∈ d.signingGraph.names)
    (htwin : twin ∈ d.signingGraph.names) (hkey : Naming.key name = Naming.key twin) :
    name = twin := by
  rw [hd.mem_names] at hname htwin
  rw [find?_eq_of_key_eq hkey, htwin] at hname
  exact (Option.some.inj hname).symm

theorem Sound.mem_signedBy_iff (hd : d.Sound) :
    name ∈ d.signedBy parent ↔ name ∈ d.signingGraph.names ∧
      ∃ signer, (d.find? name).bind (·.signerName?) = some signer ∧
        Naming.key signer = Naming.key parent := by
  rw [hd.mem_signedBy, hd.mem_names, Option.map_eq_some_iff]
  constructor
  · rintro ⟨c, signer, hc, hname, hsigner, hkey⟩
    exact ⟨⟨c, hc, hname⟩, signer, Option.bind_eq_some_iff.2 ⟨c, hc, hsigner⟩, hkey⟩
  · rintro ⟨⟨c, hc, hname⟩, signer, hsigner, hkey⟩
    rw [hc, Option.bind_some] at hsigner
    exact ⟨c, signer, hc, hname, hsigner, hkey⟩

instance : Std.Irrefl fun a b : String => Naming.key a < Naming.key b := ⟨fun _ => lt_irrefl _⟩

instance : Std.Antisymm fun a b : String => Naming.key a < Naming.key b :=
  ⟨fun _ _ hab hba => absurd hba (lt_asymm hab)⟩

theorem GrownAt.name_find? (h : d.GrownAt names d') (name : String) :
    (d'.find? name).map (·.name) = (d.find? name).map (·.name) := by
  by_cases hkey : Naming.key name ∈ names.map Naming.key
  · obtain ⟨n, hn, hsame⟩ := List.mem_map.1 hkey
    obtain ⟨held, v, hheld, hgrown⟩ := h.grown n hn
    rw [← find?_eq_of_key_eq hsame, ← find?_eq_of_key_eq hsame, hheld, hgrown]
    rfl
  · have hkept : d'.find? name = d.find? name := h.kept _ hkey
    rw [hkept]

theorem GrownAt.names_eq (h : d.GrownAt names d') (hd : d.Sound) (hd' : d'.Sound) :
    d'.signingGraph.names = d.signingGraph.names := by
  refine hd'.ascending_names.eq_of_mem_iff hd.ascending_names fun name => ?_
  exact hd'.mem_names.trans (h.name_find? name ▸ hd.mem_names.symm)

theorem GrownAt.contains_eq (h : d.GrownAt names d') (name : String) :
    d'.contains name = d.contains name := by
  have hsome := congrArg Option.isSome (h.name_find? name)
  rwa [Option.isSome_map, Option.isSome_map] at hsome

theorem GrownAt.signingGraph_eq (h : d.GrownAt names d') (hd : d.Sound) (hd' : d'.Sound)
    (hsigned : ∀ parent, d'.signedBy parent = d.signedBy parent) :
    d'.signingGraph = d.signingGraph := by
  have hnames := h.names_eq hd hd'
  have hnodes : d'.contains = d.contains := funext h.contains_eq
  have hchildren : d'.signedBy = d.signedBy := funext hsigned
  simp only [signingGraph] at hnames ⊢
  simp only [hnames, hnodes, hchildren]

end StoreData

namespace Renewal

variable {issuer : Issuer} {occasion : Occasion} {d d' : StoreData} {name : String}
  {names : List String}

theorem RenewedAll.signerName?_of_mem (hissuer : issuer.IsStandard)
    (h : RenewedAll issuer occasion d names d') (hdistinct : (names.map Naming.key).Nodup)
    (hname : name ∈ names) :
    (d'.find? name).bind (·.signerName?) =
      if d.signsItself name then none else (d.find? name).bind (·.signerName?) := by
  obtain ⟨done, rest, rfl⟩ := List.append_of_mem hname
  obtain ⟨between, held, latest, v, -, hheld, -, hlatest, ⟨_, value, n, -, hvalue, rfl⟩, -, hfinal,
    -⟩ := h.turn hdistinct
  have hgiven := Issuance.signerName_of_issue (hissuer hvalue)
  have hself : d.signsItself name = latest.certificate.fields.selfSigned := by
    rw [StoreData.signsItself, hheld, Option.bind_some, hlatest, Option.any_some]
  have hrecorded : held.signerName? = latest.signerName := by
    rw [Credential.signerName?, hlatest, Option.bind_some]
  rw [hfinal, hheld, hself, Option.bind_some, Option.bind_some, hrecorded, Credential.signerName?,
    Credential.latestCertificate?, Credential.latest_extended]
  exact hgiven

theorem RenewedAll.signedBy_eq (hissuer : issuer.IsStandard) (hd : d.Sound) (hd' : d'.Sound)
    (h : RenewedAll issuer occasion d names d') (hdistinct : (names.map Naming.key).Nodup)
    (hstored : ∀ name ∈ names, name ∈ d.signingGraph.names) (parent : String) :
    d'.signedBy parent =
      (d.signedBy parent).filter fun name => name ∉ names || !d.signsItself name := by
  have hgrown := h.grownAt hdistinct
  refine (hd'.ascending_signedBy parent).eq_of_mem_iff
    ((hd.ascending_signedBy parent).filter _) fun name => ?_
  rw [List.mem_filter, hd'.mem_signedBy_iff, hd.mem_signedBy_iff, hgrown.names_eq hd hd', and_assoc]
  refine and_congr_right fun hname => ?_
  by_cases hmem : name ∈ names
  · rw [h.signerName?_of_mem hissuer hdistinct hmem]
    cases d.signsItself name <;> simp [hmem]
  · -- no other spelling of the name is renewed either
    have hkey : Naming.key name ∉ names.map Naming.key := by
      intro hkey
      obtain ⟨n, hn, hsame⟩ := List.mem_map.1 hkey
      exact hmem (hd.eq_of_key_eq (hstored n hn) hname hsame ▸ hn)
    have hkept : d'.find? name = d.find? name := hgrown.kept _ hkey
    simp [hkept, hmem]

end Renewal

namespace Custodian

open Renewal

variable {config : Config} {issuer : Issuer} {c : Custodian} {caller : Caller}
  {occasion : Occasion} {signedBy : Option String} {names : List String}

/-- Renewal keeps who signed whom, except that certificates that sign themselves lose the signer
that is recorded for them. Where there are none, a second renewal that succeeds renews the same
names. -/
theorem Reachable.signedBy_renewBelow (h : Reachable config issuer c)
    (hissuer : issuer.IsStandard)
    (hanswer : (c.perform caller occasion (.renewBelow signedBy)).1 = .ok (.names names)) :
    let c' := (c.perform caller occasion (.renewBelow signedBy)).2
    (∀ parent, c'.store.data.signedBy parent = (c.store.data.signedBy parent).filter
        fun name => name ∉ names || !c.store.data.signsItself name) ∧
      ((∀ name ∈ names, c.store.data.signsItself name = false) →
        (∀ parent, c'.store.data.signedBy parent = c.store.data.signedBy parent) ∧
        ∀ caller' occasion' answer,
          (c'.perform caller' occasion' (.renewBelow signedBy)).1 = .ok answer →
          answer = .names names ∧ c'.store.data.GrownAt names
            (c'.perform caller' occasion' (.renewBelow signedBy)).2.store.data) := by
  intro c'
  obtain ⟨given, ca, _, hgiven, hca, -, hnames, -, heq, hall, hgrown⟩ :=
    (renewBelow_allOrNothing c caller occasion signedBy).granted hanswer
  cases heq
  have hsound : c.store.data.Sound := h.sound
  have hsound' : c'.store.data.Sound := (h.perform caller occasion (.renewBelow signedBy)).sound
  have hstored := (SigningGraph.descendants_eq_ok hnames).2.2.2
  have hsigned := hall.signedBy_eq (h.issuer_eq ▸ hissuer) hsound hsound' hgrown.distinct hstored
  refine ⟨hsigned, fun hapart => ?_⟩
  have hsame : ∀ parent, c'.store.data.signedBy parent = c.store.data.signedBy parent := by
    intro parent
    refine (hsigned parent).trans (List.filter_eq_self.2 fun name _ => ?_)
    by_cases hmem : name ∈ names
    · simp [hapart name hmem]
    · simp [hmem]
  have hgraph := hgrown.signingGraph_eq hsound hsound' hsame
  refine ⟨hsame, fun caller' occasion' answer hagain => ?_⟩
  obtain ⟨given', ca', names', hgiven', hca', -, hnames', -, rfl, -, hgrown'⟩ :=
    (renewBelow_allOrNothing c' caller' occasion' signedBy).granted hagain
  cases (signerName_eq_ok.2 hgiven).symm.trans (signerName_eq_ok.2 hgiven')
  have hhead : ca'.name = ca.name := by
    have hname := hgrown.name_find? given
    rw [hca, hca'] at hname
    exact Option.some.inj hname
  rw [hgraph, hhead, hnames] at hnames'
  cases hnames'
  exact ⟨rfl, hgrown'⟩

theorem Reachable.signedBy_renewBelow_chained :
    let first := chained.rotate 5
    let second := first.2.rotate 6
    first.1 = .ok (.names ["/mid", "/leaf"]) ∧
      (∀ parent, first.2.store.data.signedBy parent = chained.store.data.signedBy parent) ∧
      second.1 = .ok (.names ["/mid", "/leaf"]) ∧
      first.2.store.data.GrownAt ["/mid", "/leaf"] second.2.store.data := by
  have hanswer := answer_rotate_chained
  have hagain : ((chained.rotate 5).2.rotate 6).1 = .ok (.names ["/mid", "/leaf"]) :=
    answeredNames?_eq_some.1 (by decide +kernel)
  have hapart : ∀ name ∈ ["/mid", "/leaf"], chained.store.data.signsItself name = false := by
    decide +kernel
  unfold rotate at hanswer hagain ⊢
  obtain ⟨-, hkept⟩ := reachable_chained.signedBy_renewBelow Issuer.isStandard_issue hanswer
  obtain ⟨hsame, hrenewed⟩ := hkept hapart
  obtain ⟨-, hgrown⟩ := hrenewed _ _ _ hagain
  exact ⟨hanswer, hsame, hagain, hgrown⟩

def copied : Custodian :=
  let request := (CertificateRequest.withCommonName "Root").asAuthority
  let c := ((empty {} Issuance.issue).perform ⟨.ofNat 0, "alice"⟩ ⟨0, ⟨0, 0⟩⟩
    (.generate "/ca" request [] true)).2
  match (c.store.data.find? "/ca").bind (·.latestCertificate?) with
  | none => c
  | some head =>
    let copy : CertificateValue := { head with signerName := some "/ca" }
    (c.perform ⟨.ofNat 1, "alice"⟩ ⟨1, ⟨0, 0⟩⟩ (.set "/copy" (.certificate copy) [] true)).2

theorem reachable_copied : Reachable {} Issuance.issue copied := by
  unfold copied
  dsimp only
  split
  · exact .perform .start _ _ _
  · exact .perform (.perform .start _ _ _) _ _ _

/-- The copy signs itself when it is renewed and so loses its signer: it is not renewed again. -/
theorem signedBy_renewBelow_copied :
    let first := copied.rotate 2
    let second := first.2.rotate 3
    Reachable {} Issuance.issue copied ∧ first.1 = .ok (.names ["/copy"]) ∧
      copied.store.data.signedBy "/ca" = ["/copy"] ∧ first.2.store.data.signedBy "/ca" = [] ∧
      second.1 = .ok (.names []) := by
  refine ⟨reachable_copied, answeredNames?_eq_some.1 ?_, ?_, ?_, answeredNames?_eq_some.1 ?_⟩
  · decide +kernel
  · decide +kernel
  · decide +kernel
  · decide +kernel

end Custodian

end Strongroom
