import Mathlib
import Strongroom.Certificate.Template

/-! What is read back from a template is what the parameters asked for. The uses of a key pass
through bits, flags and bits again, purposes and attributes through their identifiers, and addresses
through octets; each table leads back where the other one came from. -/

namespace Strongroom

namespace Network.Address

theorem pairs_flatMap (groups : List UInt16) :
    ofOctets?.pairs (groups.flatMap fun g =>
      [UInt8.ofNat (g.toNat / 256), UInt8.ofNat g.toNat]) = groups := by
  induction groups with
  | nil => rfl
  | cons g rest ih =>
    have hlt : g.toNat < 65536 := g.toNat_lt
    have hg : UInt16.ofNat (256 * (UInt8.ofNat (g.toNat / 256)).toNat +
        (UInt8.ofNat g.toNat).toNat) = g := by
      rw [UInt8.toNat_ofNat', UInt8.toNat_ofNat', ← UInt16.toNat_inj, UInt16.toNat_ofNat']
      omega
    rw [List.flatMap_cons, List.cons_append, List.cons_append, List.nil_append, ofOctets?.pairs,
      ih, hg]

theorem ofOctets?_octets (a : Address) : ofOctets? a.octets = some a := by
  cases a with
  | v4 quad => rfl
  | v6 groups =>
    have hlength : (octets (.v6 groups)).length = 16 := by simp [octets]
    unfold ofOctets?
    split
    · rename_i hquad
      rw [hquad] at hlength
      cases hlength
    · rw [if_pos hlength, octets, pairs_flatMap, ofGroups?]
      obtain ⟨array, hsize⟩ := groups
      simp [hsize]

end Network.Address

namespace KeyUse

theorem mem_all (use : KeyUse) : use ∈ all := by cases use <;> decide

theorem position_inj {use other : KeyUse} : use.position = other.position ↔ use = other := by
  cases use <;> cases other <;> decide

def place : KeyUse → Nat
  | digitalSignature => 7
  | nonRepudiation => 6
  | keyEncipherment => 5
  | dataEncipherment => 4
  | keyAgreement => 3
  | certificateSigning => 2
  | revocationSigning => 1
  | encipherOnly => 0
  | decipherOnly => 15

theorem place_inj {use other : KeyUse} : use.place = other.place ↔ use = other := by
  cases use <;> cases other <;> decide

theorem place_lt (use : KeyUse) : use.place < 16 := by cases use <;> decide

theorem toBitVec_mask (use : KeyUse) : use.mask.toBitVec = BitVec.twoPow 16 use.place := by
  cases use <;> rfl

end KeyUse

namespace KeyUsage

theorem allows_eq_getLsbD (u : KeyUsage) (use : KeyUse) :
    u.allows use = u.bits.toBitVec.getLsbD use.place := by
  have hplace := use.place_lt
  rw [allows, contains, Bool.eq_iff_iff, beq_iff_eq, ← UInt16.toBitVec_inj, UInt16.toBitVec_and,
    use.toBitVec_mask, BitVec.and_twoPow]
  cases hbit : u.bits.toBitVec.getLsbD use.place with
  | true => simp
  | false =>
    have hzero : 0#16 ≠ BitVec.twoPow 16 use.place := by
      intro h
      have hset := congrArg (·.getLsbD use.place) h
      simp [hplace] at hset
    simpa using hzero

theorem getLsbD_ofUses (uses : List KeyUse) (i : Nat) :
    (ofUses uses).bits.toBitVec.getLsbD i = uses.any (·.place = i) := by
  have hfold : ∀ u : KeyUsage, (uses.foldl insert u).bits.toBitVec.getLsbD i =
      (u.bits.toBitVec.getLsbD i || uses.any (·.place = i)) := by
    induction uses with
    | nil => simp
    | cons use rest ih =>
      intro u
      rw [List.foldl_cons, ih, insert, UInt16.toBitVec_or, BitVec.getLsbD_or, use.toBitVec_mask,
        BitVec.getLsbD_twoPow, List.any_cons, Bool.or_assoc]
      simp [use.place_lt]
  rw [ofUses, hfold]
  simp [none]

theorem allows_ofUses (uses : List KeyUse) (use : KeyUse) :
    (ofUses uses).allows use = decide (use ∈ uses) := by
  rw [allows_eq_getLsbD, getLsbD_ofUses, Bool.eq_iff_iff, List.any_eq_true, decide_eq_true_iff]
  simp [KeyUse.place_inj]

theorem ofUses_congr {uses others : List KeyUse} (h : ∀ use, use ∈ uses ↔ use ∈ others) :
    ofUses uses = ofUses others := by
  have hbits : (ofUses uses).bits = (ofUses others).bits := by
    refine UInt16.toBitVec_inj.1 (BitVec.eq_of_getLsbD_eq fun i _ => ?_)
    rw [getLsbD_ofUses, getLsbD_ofUses, Bool.eq_iff_iff, List.any_eq_true, List.any_eq_true]
    simp [h]
  cases hu : ofUses uses
  cases ho : ofUses others
  rw [hu, ho] at hbits
  exact congrArg mk hbits

theorem ofUses_eq_none_iff {uses : List KeyUse} : ofUses uses = none ↔ uses = [] := by
  constructor
  · intro h
    refine List.eq_nil_iff_forall_not_mem.2 fun use hmem => ?_
    have hallows := allows_ofUses uses use
    rw [h, show none = ofUses [] from rfl, allows_ofUses] at hallows
    simp [hmem] at hallows
  · rintro rfl
    rfl

def IsKnown (u : KeyUsage) : Prop := ∃ uses, ofUses uses = u

theorem isKnown_ofUses (uses : List KeyUse) : (ofUses uses).IsKnown := ⟨uses, rfl⟩

theorem ofUses_uses_ofUses (uses : List KeyUse) : ofUses (ofUses uses).uses = ofUses uses := by
  refine ofUses_congr fun use => ?_
  rw [KeyUsage.uses, List.mem_filter, allows_ofUses, decide_eq_true_iff]
  exact and_iff_right use.mem_all

end KeyUsage

namespace Purpose

theorem mem_all (p : Purpose) : p ∈ all := by cases p <;> decide

theorem identifier_inj {p q : Purpose} : p.identifier = q.identifier ↔ p = q := by
  cases p <;> cases q <;> decide +kernel

def canonical (purposes : List Purpose) : List Purpose :=
  [serverAuth, clientAuth, codeSigning, emailProtection, timeStamping].filter (· ∈ purposes)

theorem mem_canonical {p : Purpose} {purposes : List Purpose} :
    p ∈ canonical purposes ↔ p ∈ purposes := by
  rw [canonical, List.mem_filter, decide_eq_true_iff]
  exact and_iff_right p.mem_all

theorem canonical_canonical (purposes : List Purpose) :
    canonical (canonical purposes) = canonical purposes :=
  List.filter_congr fun p _ => by simp only [mem_canonical]

theorem canonical_eq_nil_iff {purposes : List Purpose} :
    canonical purposes = [] ↔ purposes = [] := by
  simp only [List.eq_nil_iff_forall_not_mem, mem_canonical]

theorem purposesOf_map_identifier (purposes : List Purpose) :
    CertificateFields.purposesOf (purposes.map identifier) = canonical purposes := by
  refine List.filter_congr fun p _ => ?_
  rw [Bool.eq_iff_iff, List.contains_iff_mem, decide_eq_true_iff, List.mem_map]
  simp [identifier_inj]

end Purpose

namespace Subject

theorem given_given (value : Option String) : given (given value) = given value := by
  unfold given
  rw [Option.filter_filter]
  simp

@[simp]
theorem withoutEmpty_withoutEmpty (s : Subject) :
    s.withoutEmpty.withoutEmpty = s.withoutEmpty := by simp [withoutEmpty, given_given]

theorem present_withoutEmpty (s : Subject) : s.withoutEmpty.present = s.present := by
  simp only [present, labelled, withoutEmpty, List.filterMap_cons, given_given]

@[simp]
theorem text_withoutEmpty (s : Subject) : s.withoutEmpty.text = s.text := by
  rw [text, present_withoutEmpty, text]

end Subject

namespace CertificateTemplate

open X509

def shown (labelled : List (String × Option String)) (kind : Octets) : Option String :=
  (((labelled.filterMap fun (label, value) => (Subject.given value).map (label, ·)).map
    fun (label, value) => (kindOf label, value)).find? (·.1 = kind)).map (·.2)

theorem shown_cons (label : String) (value : Option String)
    (rest : List (String × Option String)) (kind : Octets) :
    shown ((label, value) :: rest) kind =
      if kindOf label = kind then (Subject.given value).or (shown rest kind)
      else shown rest kind := by
  unfold shown
  cases hgiven : Subject.given value with
  | none => simp [hgiven]
  | some text => by_cases hkind : kindOf label = kind <;> simp [hgiven, hkind]

theorem septets_of_lt {n : Nat} (h : n < 128) : Identifier.septets n = [n] := by
  rw [Identifier.septets, if_pos h]

theorem subjectOf_text? (p : CertificateParameters) (validity : Validity) :
    CertificateFields.subjectOf (ofParameters p validity).text? = p.subject.withoutEmpty := by
  have htext : (ofParameters p validity).text? = shown p.subject.labelled := rfl
  have hnil : ∀ kind, shown [] kind = none := fun _ => rfl
  rw [htext]
  simp [CertificateFields.subjectOf, Subject.withoutEmpty, Subject.labelled, shown_cons, hnil,
    kindOf, Identifier.locality, Identifier.organization, Identifier.state, Identifier.country,
    Identifier.organizationUnit, Identifier.commonName, Identifier.ofArcs, septets_of_lt]

theorem testBit_flagsOf (uses : List KeyUse) (use : KeyUse) :
    (flagsOf uses).testBit use.position = decide (use ∈ uses) := by
  have hfold : ∀ flags : Nat,
      (uses.foldl (fun flags use => flags ||| 1 <<< use.position) flags).testBit use.position =
        (flags.testBit use.position || decide (use ∈ uses)) := by
    induction uses with
    | nil => simp
    | cons first rest ih =>
      intro flags
      rw [List.foldl_cons, ih, Nat.testBit_or, Nat.one_shiftLeft, Nat.testBit_two_pow,
        Bool.or_assoc]
      simp [KeyUse.position_inj, eq_comm]
  rw [flagsOf, hfold, Nat.zero_testBit, Bool.false_or]

theorem ofFlags_flagsOf (uses : List KeyUse) : KeyUsage.ofFlags (flagsOf uses) = .ofUses uses := by
  refine KeyUsage.ofUses_congr fun use => ?_
  rw [List.mem_filter, testBit_flagsOf, decide_eq_true_iff]
  exact and_iff_right use.mem_all

def saying {α : Type} [DecidableEq α] (nothing x : α) : Option α :=
  if x = nothing then none else some x

@[simp]
theorem getD_saying {α : Type} [DecidableEq α] (nothing x : α) :
    (saying nothing x).getD nothing = x := by
  unfold saying
  split
  · rename_i h
    exact h.symm
  · rfl

theorem map_unlessEmpty {α β : Type} [DecidableEq β] {f : List α → β} {items : List α}
    (h : f items = f [] → items = []) :
    (unlessEmpty items).map f = saying (f []) (f items) := by
  cases items with
  | nil => simp [unlessEmpty, saying]
  | cons item rest =>
    have hne : f (item :: rest) ≠ f [] := fun heq => by cases h heq
    simp [unlessEmpty, saying, hne]

variable (p : CertificateParameters) (validity : Validity)

theorem keyUsage?_ofParameters (h : ∀ u, p.keyUsage = some u → u.IsKnown) :
    (ofParameters p validity).keyUsage? = saying .none (p.keyUsage.getD .none) := by
  have huses : KeyUsage.ofUses (ofParameters p validity).uses = p.keyUsage.getD .none := by
    cases hu : p.keyUsage with
    | none => simp [ofParameters, hu, KeyUsage.ofUses]
    | some u =>
      obtain ⟨uses, rfl⟩ := h u hu
      simp [ofParameters, hu, KeyUsage.ofUses_uses_ofUses]
  rw [keyUsage?, map_unlessEmpty, ofFlags_flagsOf, ofFlags_flagsOf, huses]
  · rfl
  · rw [ofFlags_flagsOf, ofFlags_flagsOf]
    exact KeyUsage.ofUses_eq_none_iff.1

theorem purposes?_ofParameters :
    (ofParameters p validity).purposes? = saying [] (Purpose.canonical (p.purposes.getD [])) := by
  have hread : CertificateFields.purposesOf (ofParameters p validity).purposes =
      Purpose.canonical (p.purposes.getD []) := Purpose.purposesOf_map_identifier _
  rw [purposes?, map_unlessEmpty, hread]
  · rfl
  · intro h
    rw [hread] at h
    have hnone : p.purposes.getD [] = [] := Purpose.canonical_eq_nil_iff.1 h
    rw [ofParameters, hnone, List.map_nil]

theorem alternativeNameOf?_nameOf (n : AlternativeName) :
    CertificateFields.alternativeNameOf? (nameOf n) = some n := by
  cases n with
  | ip address =>
    rw [nameOf, CertificateFields.alternativeNameOf?, Network.Address.ofOctets?_octets]
    rfl
  | dns name => rfl

theorem alternativeNames?_ofParameters :
    (ofParameters p validity).alternativeNames? = saying [] (p.alternativeNames.getD []) := by
  have hread : (ofParameters p validity).names.filterMap CertificateFields.alternativeNameOf? =
      p.alternativeNames.getD [] := by
    rw [ofParameters, List.filterMap_map]
    simp [alternativeNameOf?_nameOf]
  rw [alternativeNames?, map_unlessEmpty, hread]
  · rfl
  · intro h
    rw [hread] at h
    have hnone : p.alternativeNames.getD [] = [] := h
    rw [ofParameters, hnone, List.map_nil]

end CertificateTemplate

end Strongroom
