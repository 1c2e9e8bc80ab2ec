import Strongroom.Proofs.Findings

/-! A part of a name is found by searching for it, unless lower case makes something else of it than
of the same characters in the name. Of all characters only the capital sigma looks at what stands
around it: it becomes one letter at the end of a word and another one elsewhere, and where a part is
cut out of a name a word may end that went on there. -/

namespace Strongroom

namespace Text

def endsWord (before after : List Char) : Bool := casedNext before && !casedNext after

def lowerBetween (before : List Char) : (s after : List Char) → List Char
  | [], _ => []
  | c :: s, after =>
    (if c = 'Σ' then
      if endsWord before (s ++ after) then ['ς'] else ['σ']
    else lowerChar c) ++ lowerBetween (c :: before) s after

theorem lowerAfter_append (before s after : List Char) :
    lowerAfter before (s ++ after) =
      lowerBetween before s after ++ lowerAfter (s.reverse ++ before) after := by
  induction s generalizing before with
  | nil => rfl
  | cons c s ih =>
    rw [List.cons_append, lowerAfter, ih, lowerBetween, List.append_assoc, List.reverse_cons,
      List.append_assoc]
    rfl

theorem lower_eq_lowerBetween (s : List Char) : lower s = lowerBetween [] s [] := by
  have happend := lowerAfter_append [] s []
  rw [List.append_nil] at happend
  rw [lower, happend, lowerAfter, List.append_nil]

theorem lowerBetween_infix_lower (before s after : List Char) :
    lowerBetween before.reverse s after <:+: lower (before ++ s ++ after) := by
  rw [lower, List.append_assoc, lowerAfter_append, lowerAfter_append, List.append_nil]
  exact List.infix_append' _ _ _

theorem lowerBetween_congr {before before' s after after' : List Char}
    (h : ∀ start rest, s = start ++ 'Σ' :: rest →
      endsWord (start.reverse ++ before) (rest ++ after) =
        endsWord (start.reverse ++ before') (rest ++ after')) :
    lowerBetween before s after = lowerBetween before' s after' := by
  induction s generalizing before before' with
  | nil => rfl
  | cons c s ih =>
    have hrest : lowerBetween (c :: before) s after = lowerBetween (c :: before') s after' := by
      refine ih fun start rest hcut => ?_
      have hnext := h (c :: start) rest (by rw [hcut, List.cons_append])
      simpa using hnext
    rw [lowerBetween, lowerBetween, hrest]
    by_cases hc : c = 'Σ'
    · subst hc
      have hfirst : endsWord before (s ++ after) = endsWord before' (s ++ after') := h [] s rfl
      rw [hfirst]
    · rw [if_neg hc, if_neg hc]

theorem isUncased_of_isBlank {c : Char} (h : isBlank c = true) :
    isCaseIgnorable c = false ∧ isCased c = false := by
  have hapart : ∀ r ∈ blankRanges, ∀ q ∈ caseIgnorableRanges ++ casedRanges,
      r.2 < q.1 ∨ q.2 < r.1 := by decide +kernel
  obtain ⟨r, hr, hblank⟩ := List.any_eq_true.1 h
  rw [Bool.and_eq_true, decide_eq_true_eq, decide_eq_true_eq] at hblank
  have hout : ∀ q ∈ caseIgnorableRanges ++ casedRanges, ¬ (q.1 ≤ c.toNat ∧ c.toNat ≤ q.2) := by
    intro q hq hin
    rcases hapart r hr q hq with hlt | hlt <;> omega
  constructor
  · refine List.any_eq_false.2 fun q hq hin => ?_
    exact hout q (List.mem_append_left _ hq) (by simpa using hin)
  · refine List.any_eq_false.2 fun q hq hin => ?_
    exact hout q (List.mem_append_right _ hq) (by simpa using hin)

theorem casedNext_append_blanks {s blanks : List Char} (h : ∀ c ∈ blanks, isBlank c = true) :
    casedNext (s ++ blanks) = casedNext s :=
  casedNext_append fun c hc => isUncased_of_isBlank (h c (List.mem_of_mem_head? hc))

theorem exists_blanks_trim (s : List Char) :
    ∃ lead trail, (∀ c ∈ lead, isBlank c = true) ∧ (∀ c ∈ trail, isBlank c = true) ∧
      s = lead ++ trim s ++ trail := by
  refine ⟨s.takeWhile isBlank, ((trimStart s).reverse.takeWhile isBlank).reverse, ?_, ?_, ?_⟩
  · exact fun c hc => List.mem_takeWhile_imp hc
  · exact fun c hc => List.mem_takeWhile_imp (List.mem_reverse.1 hc)
  · have hend : trim s ++ ((trimStart s).reverse.takeWhile isBlank).reverse = trimStart s := by
      rw [trim, trimEnd, ← List.reverse_append, List.takeWhile_append_dropWhile,
        List.reverse_reverse]
    rw [List.append_assoc, hend, trimStart, List.takeWhile_append_dropWhile]

theorem lower_trim_infix_lower (s : List Char) : lower (trim s) <:+: lower s := by
  obtain ⟨lead, trail, hlead, htrail, hs⟩ := exists_blanks_trim s
  have hlead' : ∀ c ∈ lead.reverse, isBlank c = true := fun c hc => hlead c (List.mem_reverse.1 hc)
  have hsame : lower (trim s) = lowerBetween lead.reverse (trim s) trail := by
    rw [lower_eq_lowerBetween]
    refine lowerBetween_congr fun start rest _ => ?_
    rw [endsWord, endsWord, casedNext_append_blanks hlead', casedNext_append_blanks htrail,
      List.append_nil, List.append_nil]
  rw [hsame]
  conv_rhs => rw [hs]
  exact lowerBetween_infix_lower lead (trim s) trail

/-- Every sigma of the part ends a word of the part exactly if it ends one of the text that the part
is cut out of. -/
def KeepsSigmas (above part below : List Char) : Prop :=
  ∀ start rest, part = start ++ 'Σ' :: rest →
    endsWord (start.reverse ++ above.reverse) (rest ++ below) = endsWord start.reverse rest

theorem KeepsSigmas.lower_infix_lower {above part below : List Char}
    (h : KeepsSigmas above part below) :
    lower part <:+: lower (above ++ part ++ below) := by
  have hsame : lower part = lowerBetween above.reverse part below := by
    rw [lower_eq_lowerBetween]
    refine lowerBetween_congr fun start rest hcut => ?_
    rw [h start rest hcut, List.append_nil, List.append_nil]
  exact hsame ▸ lowerBetween_infix_lower above part below

end Text

namespace Custodian

open Search Text

variable {c : Custodian}

/-- Whoever may read a credential finds it by every part of its name, except by one with a sigma
that ends a word there and not in the name, or in the name and not there. -/
theorem Reachable.found_by_part {config : Config} {issuer : Issuer} (h : Reachable config issuer c)
    {caller : Caller} {held : Credential} (hopens : c.Opens caller.actor held)
    {above part below : String} (hname : held.name = above ++ part ++ below) (occasion : Occasion) :
    ∃ found, (c.perform caller occasion (.findByName part)).1 = .ok (.found found) ∧
      (Found.of held ∈ found ∨ ∃ start rest, part.toList = start ++ 'Σ' :: rest ∧
        endsWord (start.reverse ++ above.toList.reverse) (rest ++ below.toList) ≠
          endsWord start.reverse rest) := by
  refine ⟨_, c.perform_search caller occasion (.part part), ?_⟩
  by_cases hsigmas : KeepsSigmas above.toList part.toList below.toList
  · left
    refine mem_answered.2 ⟨held, (mem_readable h.sound).2 hopens, Query.test_iff.2 ?_, rfl⟩
    have hkey : (Naming.key held.name).toList =
        lower (above.toList ++ part.toList ++ below.toList) := by
      rw [Naming.key, String.toList_ofList, (h.isNormal_name hopens.1).keyChars_eq, hname,
        String.toList_append, String.toList_append]
    rw [Query.Matches, hkey]
    exact (lower_trim_infix_lower part.toList).trans hsigmas.lower_infix_lower
  · right
    simpa only [KeepsSigmas, not_forall, exists_prop] using hsigmas

def sigmatic : Custodian :=
  ((empty {} Issuance.issue).perform ⟨.ofNat 0, "alice"⟩ ⟨0, ⟨0, 0⟩⟩
    (.set "/ΑΣΑ" (.password "secret") [] true)).2

theorem reachable_sigmatic : Reachable {} Issuance.issue sigmatic := Reachable.start.perform _ _ _

theorem exists_opens_sigmatic : ∃ held, sigmatic.Opens "alice" held ∧ held.name = "/ΑΣΑ" := by
  have hnamed : (sigmatic.store.data.find? "/ΑΣΑ").map (·.name) = some "/ΑΣΑ" := by decide +kernel
  have hpermits : sigmatic.policy.permits sigmatic.store.data "/ΑΣΑ" "alice" .read = true := by
    decide +kernel
  obtain ⟨held, hheld, hname⟩ := Option.map_eq_some_iff.1 hnamed
  exact ⟨held, ⟨hname ▸ hheld, hname ▸ permits_iff_allows.1 hpermits⟩, hname⟩

theorem Reachable.found_by_part_sigmatic :
    Reachable {} Issuance.issue sigmatic ∧ ∃ held, sigmatic.Opens "alice" held ∧
      held.name = "/Α" ++ "ΣΑ" ++ "" ∧ ∃ found, Found.of held ∈ found ∧
        (sigmatic.perform ⟨.ofNat 1, "alice"⟩ ⟨1, ⟨1, 0⟩⟩ (.findByName "ΣΑ")).1 =
          .ok (.found found) := by
  obtain ⟨held, hopens, hname⟩ := exists_opens_sigmatic
  have hcut : held.name = "/Α" ++ "ΣΑ" ++ "" := hname.trans (by decide)
  have hopens' : sigmatic.Opens (⟨.ofNat 1, "alice"⟩ : Caller).actor held := hopens
  obtain ⟨found, hanswer, hfound⟩ := reachable_sigmatic.found_by_part hopens' hcut ⟨1, ⟨1, 0⟩⟩
  refine ⟨reachable_sigmatic, held, hopens, hcut, found, ?_, hanswer⟩
  rcases hfound with hfound | ⟨start, rest, hpart, hdiffers⟩
  · exact hfound
  · have hpart : ['Σ', 'Α'] = start ++ 'Σ' :: rest := hpart
    cases start with
    | nil =>
      cases hpart
      exact absurd (by decide +kernel) hdiffers
    | cons x start =>
      obtain ⟨-, hpart⟩ := List.cons.inj hpart
      cases start <;> simp at hpart

/-- She does not find it by the part that ends with the sigma, which ends a word there. -/
theorem unfound_part :
    Reachable {} Issuance.issue sigmatic ∧ ∃ held, sigmatic.Opens "alice" held ∧
      held.name = "/" ++ "ΑΣ" ++ "Α" ∧
      (sigmatic.perform ⟨.ofNat 1, "alice"⟩ ⟨1, ⟨1, 0⟩⟩ (.findByName "ΑΣ")).1 =
        .ok (.found []) := by
  obtain ⟨held, hopens, hname⟩ := exists_opens_sigmatic
  have hnone : answered sigmatic.policy sigmatic.store.data "alice"
      (Query.part "ΑΣ").test = [] := by decide +kernel
  refine ⟨reachable_sigmatic, held, hopens, hname.trans (by decide), ?_⟩
  exact hnone ▸ sigmatic.perform_search ⟨.ofNat 1, "alice"⟩ ⟨1, ⟨1, 0⟩⟩ (.part "ΑΣ")

end Custodian

end Strongroom
