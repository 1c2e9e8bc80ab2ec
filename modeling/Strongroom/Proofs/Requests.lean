import Strongroom.Proofs.Assembling
import Strongroom.Proofs.Template

/-! Which requests are accepted. What is required of a request is looked at in a fixed order, and
whatever fails first is the fault that is reported. The parameters of an accepted request are signed
by one party, show a subject if there is one, and allow the uses of its tokens together. -/

namespace Strongroom

section Tokens

variable {α : Type}

theorem readTokens_eq {table : List String} {code : ParameterCode}
    (ofToken? : String → Option α) (read : List String → Except Fault (List α))
    (htable : ∀ token, ofToken? token = none ↔ token ∉ table) (hnil : read [] = .ok [])
    (hcons : ∀ token rest, read (token :: rest) =
      match ofToken? token with
      | some a => (read rest).map (a :: ·)
      | none => .error (.invalid code (some token)))
    (tokens : List String) :
    read tokens =
      if ∀ token ∈ tokens, token ∈ table then .ok (tokens.filterMap ofToken?)
      else .error (.invalid code (tokens.find? (· ∉ table))) := by
  induction tokens with
  | nil => rw [hnil, if_pos (by simp), List.filterMap_nil]
  | cons token rest ih =>
    rw [hcons]
    cases htoken : ofToken? token with
    | none =>
      have hmissing := (htable token).1 htoken
      rw [if_neg (fun h => hmissing (h token List.mem_cons_self)),
        List.find?_cons_of_pos (by simpa using hmissing)]
    | some a =>
      have hmem : token ∈ table := by
        by_contra hmissing
        rw [(htable token).2 hmissing] at htoken
        cases htoken
      rw [ih, List.find?_cons_of_neg (by simpa using hmem), List.filterMap_cons_some htoken]
      simp only [List.forall_mem_cons, hmem, true_and]
      split <;> rfl

theorem find?_token_eq_none {all : List α} {name : α → String} {token : String} :
    all.find? (name · = token) = none ↔ token ∉ all.map name := by
  simp [List.find?_eq_none, List.mem_map]

end Tokens

def KeyUse.tokens : List String := all.map token

def Purpose.tokens : List String := all.map token

theorem KeyUse.ofToken?_eq_none {token : String} : ofToken? token = none ↔ token ∉ tokens :=
  find?_token_eq_none

theorem Purpose.ofToken?_eq_none {token : String} : ofToken? token = none ↔ token ∉ tokens :=
  find?_token_eq_none

theorem KeyUsage.ofTokens_eq (tokens : List String) :
    ofTokens tokens =
      if ∀ token ∈ tokens, token ∈ KeyUse.tokens then
        .ok (ofUses (tokens.filterMap KeyUse.ofToken?))
      else .error (.invalid .unknownKeyUsage (tokens.find? (· ∉ KeyUse.tokens))) := by
  have hread := readTokens_eq KeyUse.ofToken? readUses (fun _ => KeyUse.ofToken?_eq_none) rfl
    (fun token rest => by rw [readUses]; cases KeyUse.ofToken? token <;> rfl) tokens
  rw [ofTokens, hread]
  split <;> rfl

theorem Purpose.ofTokens_eq (tokens : List String) :
    ofTokens tokens =
      if ∀ token ∈ tokens, token ∈ Purpose.tokens then .ok (tokens.filterMap ofToken?)
      else .error (.invalid .unknownPurpose (tokens.find? (· ∉ Purpose.tokens))) :=
  readTokens_eq ofToken? ofTokens (fun _ => ofToken?_eq_none) rfl
    (fun token rest => by rw [ofTokens]; cases ofToken? token <;> rfl) tokens

inductive Requirement
  | keyUsage
  | purposes
  | keyLength
  | duration
  | oneSigner
  | signed
  | named
deriving DecidableEq, Repr

namespace CertificateRequest

variable (r : CertificateRequest) (defaults : CertificateDefaults)

def effectiveLength : Nat := (r.keyLength.map UInt32.toNat).getD defaults.keyLength

def effectiveDuration : Nat := (r.duration.map UInt32.toNat).getD defaults.durationDays

end CertificateRequest

namespace Requirement

def inOrder : List Requirement :=
  [keyUsage, purposes, keyLength, duration, oneSigner, signed, named]

theorem mem_inOrder (c : Requirement) : c ∈ inOrder := by cases c <;> simp [inOrder]

/-- Tokens are in their tables and numbers in their ranges; a request names a signer or is to sign
itself, not both, and an authority may do neither; a part of the subject or a name is there. -/
def Holds (r : CertificateRequest) (defaults : CertificateDefaults) : Requirement → Prop
  | keyUsage => ∀ token ∈ r.keyUsage.getD [], token ∈ KeyUse.tokens
  | purposes => ∀ token ∈ r.purposes.getD [], token ∈ Purpose.tokens
  | keyLength => r.effectiveLength defaults ∈ [2048, 3072, 4096]
  | duration => 1 ≤ r.effectiveDuration defaults ∧ r.effectiveDuration defaults ≤ 3650
  | oneSigner => ¬(r.selfSign = some true ∧ r.namedSigner.isSome)
  | signed => r.selfSign = some true ∨ r.isAuthority = some true ∨ r.namedSigner.isSome
  | named => (∃ field ∈ r.subject.labelled, field.2 ≠ none ∧ field.2 ≠ some "") ∨
      r.alternativeNames.getD [] ≠ []

instance (r : CertificateRequest) (defaults : CertificateDefaults) :
    (c : Requirement) → Decidable (c.Holds r defaults)
  | keyUsage => inferInstanceAs (Decidable (∀ token ∈ _, token ∈ _))
  | purposes => inferInstanceAs (Decidable (∀ token ∈ _, token ∈ _))
  | keyLength => inferInstanceAs (Decidable (_ ∈ _))
  | duration => inferInstanceAs (Decidable (_ ∧ _))
  | oneSigner => inferInstanceAs (Decidable (¬(_ ∧ _)))
  | signed => inferInstanceAs (Decidable (_ ∨ _ ∨ _))
  | named => inferInstanceAs (Decidable ((∃ field ∈ _, _) ∨ _ ≠ _))

def fault (r : CertificateRequest) (defaults : CertificateDefaults) : Requirement → Fault
  | keyUsage => .invalid .unknownKeyUsage ((r.keyUsage.getD []).find? (· ∉ KeyUse.tokens))
  | purposes => .invalid .unknownPurpose ((r.purposes.getD []).find? (· ∉ Purpose.tokens))
  | keyLength => .invalid .keyLength (some (Text.natText (r.effectiveLength defaults)))
  | duration => .invalid .duration (some (Text.natText (r.effectiveDuration defaults)))
  | oneSigner => .validation .authorityAndSelfSign
  | signed => .validation .missingAuthority
  | named => .validation .emptyRequest

variable {r : CertificateRequest} {defaults : CertificateDefaults} {α β : Type}

def demand (r : CertificateRequest) (defaults : CertificateDefaults) (c : Requirement)
    (x : Except Fault α) : Except Fault α :=
  if c.Holds r defaults then x else .error (c.fault r defaults)

theorem demand_bind (c : Requirement) (x : Except Fault α) (f : α → Except Fault β) :
    c.demand r defaults x >>= f = c.demand r defaults (x >>= f) := by
  unfold demand
  split <;> rfl

theorem foldr_demand (cs : List Requirement) (x : Except Fault α) :
    ((∀ c ∈ cs, c.Holds r defaults) ∧ cs.foldr (demand r defaults) x = x) ∨
      ∃ before c after, cs = before ++ c :: after ∧ (∀ b ∈ before, b.Holds r defaults) ∧
        ¬c.Holds r defaults ∧ cs.foldr (demand r defaults) x = .error (c.fault r defaults) := by
  induction cs with
  | nil => exact .inl ⟨by simp, rfl⟩
  | cons c rest ih =>
    rw [List.foldr_cons]
    by_cases hc : c.Holds r defaults
    · have hdemand : ∀ y : Except Fault α, c.demand r defaults y = y := fun _ => if_pos hc
      rw [hdemand]
      rcases ih with ⟨hall, hx⟩ | ⟨before, failing, after, rfl, hbefore, hfailing, hx⟩
      · exact .inl ⟨List.forall_mem_cons.2 ⟨hc, hall⟩, hx⟩
      · exact .inr ⟨c :: before, failing, after, rfl, List.forall_mem_cons.2 ⟨hc, hbefore⟩,
          hfailing, hx⟩
    · exact .inr ⟨[], c, rest, rfl, by simp, hc, if_neg hc⟩

end Requirement

theorem Subject.given_eq_none_iff {value : Option String} :
    given value = none ↔ value = none ∨ value = some "" := by
  cases value <;> simp [given, Option.filter_eq_none_iff]

namespace CertificateParameters

variable {r : CertificateRequest} {defaults : CertificateDefaults} {p : CertificateParameters}

theorem readGiven_eq {β : Type} {read : List String → Except Fault β} {value : List String → β}
    {table : List String} {code : ParameterCode}
    (hread : ∀ tokens, read tokens =
      if ∀ token ∈ tokens, token ∈ table then .ok (value tokens)
      else .error (.invalid code (tokens.find? (· ∉ table))))
    (given : Option (List String)) :
    readGiven read given =
      if ∀ token ∈ given.getD [], token ∈ table then .ok (given.map value)
      else .error (.invalid code ((given.getD []).find? (· ∉ table))) := by
  cases given with
  | none => simp [readGiven]
  | some tokens =>
    rw [readGiven, hread, Option.getD_some]
    split <;> rfl

theorem namesSubject_iff (r : CertificateRequest) (defaults : CertificateDefaults) :
    namesSubject r = true ↔ Requirement.named.Holds r defaults := by
  have hsubject : r.subject.isEmpty = false ↔
      ∃ field ∈ r.subject.labelled, field.2 ≠ none ∧ field.2 ≠ some "" := by
    simp [Subject.isEmpty, Subject.present, Subject.given_eq_none_iff]
  have hnames : r.alternativeNames.any (!·.isEmpty) = true ↔ r.alternativeNames.getD [] ≠ [] := by
    cases r.alternativeNames <;> simp
  rw [namesSubject, Bool.or_eq_true, Bool.not_eq_true', hsubject, hnames]
  rfl

def assembled (r : CertificateRequest) (defaults : CertificateDefaults) :
    CertificateParameters where
  keyLength := r.effectiveLength defaults
  durationDays := r.effectiveDuration defaults
  selfSigned := r.namedSigner.isNone
  isAuthority := r.isAuthority.getD false
  signerName := r.namedSigner
  subject := r.subject
  alternativeNames := r.alternativeNames.map (·.map AlternativeName.classify)
  keyUsage := r.keyUsage.map fun tokens => .ofUses (tokens.filterMap KeyUse.ofToken?)
  purposes := r.purposes.map (·.filterMap Purpose.ofToken?)

theorem ofRequest_eq_foldr (r : CertificateRequest) (defaults : CertificateDefaults) :
    ofRequest r defaults =
      Requirement.inOrder.foldr (Requirement.demand r defaults) (.ok (assembled r defaults)) := by
  have husage : readGiven KeyUsage.ofTokens r.keyUsage =
      Requirement.demand r defaults .keyUsage (.ok (assembled r defaults).keyUsage) :=
    readGiven_eq KeyUsage.ofTokens_eq r.keyUsage
  have hpurposes : readGiven Purpose.ofTokens r.purposes =
      Requirement.demand r defaults .purposes (.ok (assembled r defaults).purposes) :=
    readGiven_eq Purpose.ofTokens_eq r.purposes
  have hlength : checkKeyLength ((r.keyLength.map UInt32.toNat).getD defaults.keyLength) =
      Requirement.demand r defaults .keyLength (.ok (r.effectiveLength defaults)) := rfl
  have hduration : checkDuration ((r.duration.map UInt32.toNat).getD defaults.durationDays) =
      Requirement.demand r defaults .duration (.ok (r.effectiveDuration defaults)) := rfl
  have hsigning : signing r = Requirement.demand r defaults .oneSigner
      (Requirement.demand r defaults .signed (.ok (r.namedSigner.isNone, r.namedSigner))) := by
    rw [signing_eq]
    by_cases hboth : r.selfSign = some true ∧ r.namedSigner.isSome
    · rw [if_pos hboth]
      exact (if_neg (not_not.2 hboth)).symm
    · rw [if_neg hboth]
      exact (if_pos hboth).symm
  rw [ofRequest, husage, hpurposes, hlength, hduration, hsigning]
  simp only [Requirement.demand_bind, namesSubject_iff r defaults]
  rfl

end CertificateParameters

theorem KeyUse.ofToken?_eq_some {token : String} {use : KeyUse} :
    ofToken? token = some use ↔ use.token = token := by
  constructor
  · intro h
    simpa using List.find?_some h
  · rintro rfl
    cases use <;> rfl

def KeyUsage.IsUnionOf (tokens : List String) (usage : KeyUsage) : Prop :=
  ∀ bit, usage.bits.toBitVec.getLsbD bit = true ↔
    ∃ use : KeyUse, use.token ∈ tokens ∧ use.mask.toBitVec.getLsbD bit = true

theorem KeyUsage.isUnionOf_ofUses (tokens : List String) :
    IsUnionOf tokens (ofUses (tokens.filterMap KeyUse.ofToken?)) := by
  intro bit
  rw [getLsbD_ofUses, List.any_eq_true]
  refine exists_congr fun use => ?_
  have hmask : use.mask.toBitVec.getLsbD bit = decide (use.place = bit) := by
    have hplace := use.place_lt
    rw [use.toBitVec_mask, BitVec.getLsbD_twoPow]
    simp [hplace]
  simp [hmask, List.mem_filterMap, KeyUse.ofToken?_eq_some]

namespace Subject

theorem intercalate_eq_empty_iff {pieces : List String} (h : ∀ piece ∈ pieces, piece ≠ "") :
    ",".intercalate pieces = "" ↔ pieces = [] := by
  rcases pieces with _ | ⟨piece, _ | ⟨next, rest⟩⟩
  · simp
  · simpa using h
  · simp [String.intercalate_cons_cons]

theorem text_eq_empty_iff (s : Subject) :
    s.text = "" ↔ ∀ field ∈ s.labelled, field.2 = none ∨ field.2 = some "" := by
  rw [text, intercalate_eq_empty_iff, List.map_eq_nil_iff, present, List.filterMap_eq_nil_iff]
  · simp [given_eq_none_iff]
  · intro piece hpiece
    obtain ⟨⟨label, value⟩, -, rfl⟩ := List.mem_map.1 hpiece
    simp

end Subject

namespace CertificateParameters

variable {r : CertificateRequest} {defaults : CertificateDefaults} {p : CertificateParameters}

/-- The parameters are signed by themselves or by a signer, not both, have a subject to show if one
was given, and allow what the tokens name together. -/
structure Meets (p : CertificateParameters) (r : CertificateRequest) : Prop where
  signing : p.selfSigned = true ↔ p.signerName = none
  subject : p.subject.text = "" ↔
    ∀ field ∈ r.subject.labelled, field.2 = none ∨ field.2 = some ""
  keyUsage : Option.Rel KeyUsage.IsUnionOf r.keyUsage p.keyUsage

theorem meets_assembled (r : CertificateRequest) (defaults : CertificateDefaults) :
    (assembled r defaults).Meets r where
  signing := Option.isNone_iff_eq_none
  subject := r.subject.text_eq_empty_iff
  keyUsage := by
    rw [assembled]
    cases r.keyUsage with
    | none => exact .none
    | some tokens => exact .some (KeyUsage.isUnionOf_ofUses tokens)

/-- How a request is to be answered: by parameters that meet it where all that is required holds,
and otherwise by the fault of the first requirement that does not. -/
inductive Answers (r : CertificateRequest) (defaults : CertificateDefaults) :
    Except Fault CertificateParameters → Prop
  | accepted {p : CertificateParameters} (hall : ∀ c : Requirement, c.Holds r defaults)
      (hp : p.Meets r) : Answers r defaults (.ok p)
  | refused {before after : List Requirement} {c : Requirement}
      (horder : Requirement.inOrder = before ++ c :: after)
      (hbefore : ∀ b ∈ before, b.Holds r defaults) (hc : ¬c.Holds r defaults) :
      Answers r defaults (.error (c.fault r defaults))

theorem ofRequest_answers (r : CertificateRequest) (defaults : CertificateDefaults) :
    Answers r defaults (ofRequest r defaults) := by
  rw [ofRequest_eq_foldr]
  rcases Requirement.foldr_demand Requirement.inOrder (.ok (assembled r defaults)) with
    ⟨hall, hok⟩ | ⟨before, c, after, horder, hbefore, hc, herror⟩
  · rw [hok]
    exact .accepted (fun c => hall c c.mem_inOrder) (meets_assembled r defaults)
  · rw [herror]
    exact .refused horder hbefore hc

end CertificateParameters

end Strongroom
