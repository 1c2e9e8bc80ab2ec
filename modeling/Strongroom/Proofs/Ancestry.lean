import Strongroom.Proofs.Closure
import Strongroom.Proofs.Runs

/-! Signers, followed upwards. A credential has one signer at most, so that the graph of the latest
certificates is a forest, and what the order below a credential holds is told by going up: it is
whatever leads to the credential. -/

namespace Strongroom

namespace StoreData

variable {d : StoreData}

def signer? (d : StoreData) (c : Credential) : Option Credential := c.signerName?.bind d.find?

/-- Following signers upwards from `c`, one step or more, reaches the other credential. -/
inductive LeadsTo (d : StoreData) : Credential → Credential → Prop
  | signed {c signer : Credential} (h : d.signer? c = some signer) : LeadsTo d c signer
  | through {c signer root : Credential} (h : d.signer? c = some signer)
    (hup : LeadsTo d signer root) : LeadsTo d c root

theorem isSignedUnder_iff {key : String} {c : Credential} :
    isSignedUnder key c = true ↔
      ∃ signer, c.signerName? = some signer ∧ Naming.key signer = key := by
  unfold isSignedUnder
  cases c.signerName? <;> simp

theorem Sound.mem_values (hd : d.Sound) {c : Credential} :
    c ∈ d.credentials.values ↔ d.find? c.name = some c := by
  rw [Dictionary.mem_values]
  constructor
  · rintro ⟨key, hc⟩
    have hkey := hd.keyed hc
    rwa [find?, hkey]
  · exact fun hc => ⟨_, hc⟩

theorem Sound.ascending_names (hd : d.Sound) :
    (d.credentials.values.map (·.name)).Pairwise fun a b => Naming.key a < Naming.key b := by
  rw [Dictionary.values, List.map_map, List.pairwise_map]
  refine d.credentials.ascending.imp_of_mem fun {a b} ha hb hlt => ?_
  have hkey : ∀ e ∈ d.credentials.entries, Naming.key e.2.name = e.1 := fun e he =>
    hd.keyed (Dictionary.get?_eq_some_iff.2 he)
  rw [Function.comp_apply, Function.comp_apply, hkey a ha, hkey b hb]
  exact hlt

theorem Sound.ascending_signedBy (hd : d.Sound) (parent : String) :
    (d.signedBy parent).Pairwise fun a b => Naming.key a < Naming.key b :=
  hd.ascending_names.sublist (List.filter_sublist.map _)

theorem Sound.mem_signedBy (hd : d.Sound) {parent name : String} :
    name ∈ d.signedBy parent ↔ ∃ c signer, d.find? name = some c ∧ c.name = name ∧
      c.signerName? = some signer ∧ Naming.key signer = Naming.key parent := by
  rw [signedBy, List.mem_map]
  constructor
  · rintro ⟨c, hc, rfl⟩
    obtain ⟨hstored, hsigned⟩ := List.mem_filter.1 hc
    obtain ⟨signer, hsigner, hkey⟩ := isSignedUnder_iff.1 hsigned
    exact ⟨c, signer, hd.mem_values.1 hstored, rfl, hsigner, hkey⟩
  · rintro ⟨c, signer, hc, rfl, hsigner, hkey⟩
    have hstored := hd.mem_values.2 hc
    exact ⟨c, List.mem_filter.2 ⟨hstored, isSignedUnder_iff.2 ⟨signer, hsigner, hkey⟩⟩, rfl⟩

theorem find?_eq_of_key_eq {name other : String} (h : Naming.key name = Naming.key other) :
    d.find? name = d.find? other := by
  rw [find?, find?, h]

theorem Sound.mem_signedBy_iff_signer? (hd : d.Sound) {parent name : String} {signer : Credential}
    (hsigner : d.find? parent = some signer) :
    name ∈ d.signedBy parent ↔
      ∃ c, d.find? name = some c ∧ c.name = name ∧ d.signer? c = some signer := by
  rw [hd.mem_signedBy]
  constructor
  · rintro ⟨c, given, hc, hname, hgiven, hkey⟩
    refine ⟨c, hc, hname, ?_⟩
    rw [signer?, hgiven, Option.bind_some, find?_eq_of_key_eq hkey, hsigner]
  · rintro ⟨c, hc, hname, hup⟩
    obtain ⟨given, hgiven, hfound⟩ := Option.bind_eq_some_iff.1 hup
    have hkey : Naming.key given = Naming.key parent :=
      (hd.keyed hfound).symm.trans (hd.keyed hsigner)
    exact ⟨c, given, hc, hname, hgiven, hkey⟩

theorem Sound.isForest (hd : d.Sound) : d.signingGraph.IsForest where
  single {parent other name twin} hname htwin hkey := by
    obtain ⟨c, signer, hc, -, hsigner, hparent⟩ := hd.mem_signedBy.1 hname
    obtain ⟨c', signer', hc', -, hsigner', hother⟩ := hd.mem_signedBy.1 htwin
    rw [find?_eq_of_key_eq hkey, hc'] at hc
    cases hc
    rw [hsigner'] at hsigner
    cases hsigner
    exact hparent.symm.trans hother
  distinct parent := List.pairwise_map.2 ((hd.ascending_signedBy parent).imp fun h => ne_of_lt h)

theorem Sound.below_iff_leadsTo (hd : d.Sound) {root name : String} {ca : Credential}
    (hca : d.find? root = some ca) :
    d.signingGraph.Below root name ↔
      ∃ c, d.find? name = some c ∧ c.name = name ∧ d.LeadsTo c ca := by
  constructor
  · intro hbelow
    induction hbelow with
    | single hchild =>
      obtain ⟨c, hc, hname, hup⟩ := (hd.mem_signedBy_iff_signer? hca).1 hchild
      exact ⟨c, hc, hname, .signed hup⟩
    | tail _ hchild ih =>
      obtain ⟨signer, hsigner, -, hleads⟩ := ih
      obtain ⟨c, hc, hname, hup⟩ := (hd.mem_signedBy_iff_signer? hsigner).1 hchild
      exact ⟨c, hc, hname, .through hup hleads⟩
  · rintro ⟨c, hc, rfl, hleads⟩
    induction hleads with
    | signed hup => exact .single ((hd.mem_signedBy_iff_signer? hca).2 ⟨_, hc, rfl, hup⟩)
    | through hup _ ih =>
      obtain ⟨given, -, hfound⟩ := Option.bind_eq_some_iff.1 hup
      have hsigner := hd.find?_name hfound
      exact .tail (ih hca hsigner) ((hd.mem_signedBy_iff_signer? hsigner).2 ⟨_, hc, rfl, hup⟩)

theorem signingGraph_hasNode {root : String} {ca : Credential} (hca : d.find? root = some ca) :
    d.signingGraph.hasNode root = true := by
  change (d.find? root).isSome = true
  rw [hca]
  rfl

theorem Sound.descendants_eq_error_iff (hd : d.Sound) {root : String} {ca : Credential}
    (hca : d.find? root = some ca) :
    (∃ fault, d.signingGraph.descendants root = .error fault) ↔ d.LeadsTo ca ca := by
  rw [hd.isForest.descendants_eq_error_iff (signingGraph_hasNode hca)]
  constructor
  · rintro ⟨name, hbelow, hkey⟩
    obtain ⟨c, hc, -, hleads⟩ := (hd.below_iff_leadsTo hca).1 hbelow
    rw [find?_eq_of_key_eq hkey, hca] at hc
    cases hc
    exact hleads
  · intro hleads
    have hbelow := (hd.below_iff_leadsTo hca).2 ⟨ca, hd.find?_name hca, rfl, hleads⟩
    exact ⟨ca.name, hbelow, hd.keyed hca⟩

theorem Sound.mem_descendants_iff (hd : d.Sound) {root name : String} {ca : Credential}
    {names : List String} (hca : d.find? root = some ca)
    (h : d.signingGraph.descendants root = .ok names) :
    name ∈ names ↔ ∃ c ∈ d.credentials.values, c.name = name ∧ d.LeadsTo c ca := by
  rw [SigningGraph.mem_descendants_iff h, hd.below_iff_leadsTo hca]
  constructor
  · rintro ⟨c, hc, rfl, hleads⟩
    exact ⟨c, hd.mem_values.2 hc, rfl, hleads⟩
  · rintro ⟨c, hc, rfl, hleads⟩
    exact ⟨c, hd.mem_values.1 hc, rfl, hleads⟩

/-- Below a credential there is no order if it leads to itself, and otherwise the names of whatever
leads to it, whatever else leads to itself. -/
theorem Reachable.descendants_iff_leadsTo (hd : d.Reachable) {root : String} {ca : Credential}
    (hca : d.find? root = some ca) :
    ((∃ breach, d.signingGraph.descendants root = .error (.integrity breach)) ↔
        d.LeadsTo ca ca) ∧
      (¬ d.LeadsTo ca ca → ∃ names, d.signingGraph.descendants root = .ok names ∧ names.Nodup ∧
        ∀ name, name ∈ names ↔ ∃ c ∈ d.credentials.values, c.name = name ∧ d.LeadsTo c ca) := by
  have hfails := hd.sound.descendants_eq_error_iff hca
  have hnode := signingGraph_hasNode hca
  constructor
  · rw [← hfails]
    constructor
    · rintro ⟨breach, h⟩
      exact ⟨_, h⟩
    · rintro ⟨fault, h⟩
      obtain ⟨name, rfl⟩ := SigningGraph.descendants_eq_error_of_hasNode hnode h
      exact ⟨_, h⟩
  · intro hacyclic
    cases h : d.signingGraph.descendants root with
    | error fault => exact absurd (hfails.1 ⟨fault, h⟩) hacyclic
    | ok names =>
      have hdistinct := (SigningGraph.descendants_eq_ok h).2.1
      exact ⟨names, rfl, hdistinct.of_map _, fun name => hd.sound.mem_descendants_iff hca h⟩

theorem Reachable.descendants_iff_leadsTo_chained :
    ∃ (d : StoreData) (ca loop : Credential), d.Reachable ∧ d.find? "/CA" = some ca ∧
      d.find? "/loop" = some loop ∧ d.LeadsTo loop loop ∧ ¬ d.LeadsTo ca ca ∧
      ∀ name, name ∈ ["/mid", "/leaf"] ↔
        ∃ c ∈ d.credentials.values, c.name = name ∧ d.LeadsTo c ca := by
  let d := Custodian.chained.store.data
  have hd : d.Reachable := Custodian.reachable_chained.data
  have hbelow : d.signingGraph.descendants "/CA" = .ok ["/mid", "/leaf"] := by decide +kernel
  have hrevisited : d.signingGraph.descendants "/loop" =
      .error (.integrity (.revisited "/loop" "/loop")) := by decide +kernel
  have hfound : (d.find? "/CA").isSome = true := by decide +kernel
  have hthere : (d.find? "/loop").isSome = true := by decide +kernel
  obtain ⟨ca, hca⟩ := Option.isSome_iff_exists.1 hfound
  obtain ⟨loop, hloop⟩ := Option.isSome_iff_exists.1 hthere
  obtain ⟨hcycle, hnames⟩ := hd.descendants_iff_leadsTo hca
  have hacyclic : ¬ d.LeadsTo ca ca := by
    intro hleads
    obtain ⟨_, h⟩ := hcycle.2 hleads
    rw [hbelow] at h
    cases h
  obtain ⟨names, hok, -, hmem⟩ := hnames hacyclic
  cases hbelow.symm.trans hok
  have hitself := (hd.descendants_iff_leadsTo hloop).1.1 ⟨_, hrevisited⟩
  exact ⟨d, ca, loop, hd, hca, hloop, hitself, hacyclic, hmem⟩

end StoreData

end Strongroom
