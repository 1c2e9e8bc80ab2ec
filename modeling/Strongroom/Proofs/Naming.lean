import Strongroom.Naming
import Strongroom.Proofs.Digits

/-! A normal name has the key of the name that it comes from, and whether a name has a normal form
can be told from its key. The slash that is put in front of a name is no blank, has no case and no
other character becomes it, so that it does not matter whether it is there before trimming and
lowering or comes after, and the segments of a name stay where they are. -/

namespace Strongroom

namespace Text

def IsTrimmed (s : List Char) : Prop :=
  (∀ c ∈ s.head?, isBlank c = false) ∧ ∀ c ∈ s.getLast?, isBlank c = false

theorem head?_dropWhile_isBlank (s : List Char) :
    ∀ c ∈ (s.dropWhile isBlank).head?, isBlank c = false := by
  intro c hc
  have := List.head?_dropWhile_not isBlank s
  rwa [Option.mem_def.1 hc] at this

theorem trim_of_isTrimmed {s : List Char} (h : IsTrimmed s) : trim s = s := by
  have hend : s.reverse.dropWhile isBlank = s.reverse :=
    dropWhile_of_head? (by rw [List.head?_reverse]; exact h.2)
  rw [trim, trimStart, dropWhile_of_head? h.1, trimEnd, hend, List.reverse_reverse]

theorem isTrimmed_trim (s : List Char) : IsTrimmed (trim s) := by
  constructor
  · intro c hc
    have hpre : trim s <+: trimStart s := by
      rw [trim, trimEnd, ← List.reverse_suffix, List.reverse_reverse]
      exact List.dropWhile_suffix isBlank
    obtain ⟨ending, hending⟩ := hpre
    refine head?_dropWhile_isBlank s c ?_
    rw [← trimStart, ← hending, List.head?_append, Option.mem_def.1 hc]
    rfl
  · intro c hc
    rw [trim, trimEnd, List.getLast?_reverse] at hc
    exact head?_dropWhile_isBlank _ c hc

theorem trim_cons_slash {s : List Char} (h : IsTrimmed s) : trim ('/' :: s) = '/' :: s := by
  have hslash : isBlank '/' = false := by decide
  refine trim_of_isTrimmed ⟨?_, ?_⟩
  · rintro c ⟨⟩
    exact hslash
  · intro c hc
    rw [List.getLast?_cons] at hc
    cases hc
    cases hlast : s.getLast? with
    | none => exact hslash
    | some last => exact h.2 last hlast

theorem casedNext_append {before after : List Char}
    (h : ∀ c ∈ after.head?, isCaseIgnorable c = false ∧ isCased c = false) :
    casedNext (before ++ after) = casedNext before := by
  unfold casedNext
  rw [List.dropWhile_append]
  cases before.dropWhile isCaseIgnorable with
  | nil =>
    cases after with
    | nil => rfl
    | cons c rest =>
      obtain ⟨hignorable, hcased⟩ := h c rfl
      simp [hignorable, hcased]
  | cons c rest => rfl

theorem casedNext_append_slash (before after : List Char) :
    casedNext (before ++ '/' :: after) = casedNext before := by
  have hignorable : isCaseIgnorable '/' = false := by decide +kernel
  have hcased : isCased '/' = false := by decide +kernel
  refine casedNext_append ?_
  rintro c ⟨⟩
  exact ⟨hignorable, hcased⟩

theorem lowerAfter_append_slash (before s : List Char) :
    lowerAfter (before ++ ['/']) s = lowerAfter before s := by
  -- only a final sigma looks at what comes before it, and a slash there is like the start of a text
  induction s generalizing before with
  | nil => rfl
  | cons c rest ih =>
    rw [lowerAfter, lowerAfter, casedNext_append_slash, ← List.cons_append, ih]

theorem lower_cons_slash (s : List Char) : lower ('/' :: s) = '/' :: lower s := by
  have hslash : lowerChar '/' = ['/'] := by decide
  rw [lower, lowerAfter, if_neg (by decide), hslash, lower]
  exact congrArg ('/' :: ·) (lowerAfter_append_slash [] s)

theorem ofNat_ne_slash {n : Nat} (h : 47 < n) : Char.ofNat n ≠ '/' := by
  intro he
  have hn := congrArg Char.toNat he
  rw [Char.toNat_ofNat, show '/'.toNat = 47 from rfl] at hn
  split at hn <;> omega

theorem toLower_ne_slash {c : Char} (hascii : c.toNat < 128) (h : c ≠ '/') : c.toLower ≠ '/' := by
  have hall : ∀ n < 128, n ≠ 47 → (Char.ofNat n).toLower ≠ '/' := by decide +kernel
  have hne : c.toNat ≠ 47 := fun he => h (Char.toNat_inj.1 he)
  have := hall c.toNat hascii hne
  rwa [Char.ofNat_toNat] at this

theorem lowerChar_ne_slash {c : Char} (h : c ≠ '/') : ∀ x ∈ lowerChar c, x ≠ '/' := by
  have hruns : ∀ r ∈ caseRuns, 47 < r.lower := by decide +kernel
  unfold lowerChar
  split
  · rename_i hascii
    simpa using toLower_ne_slash hascii h
  · split
    · simp
    · split
      · rename_i r hr
        have hr := hruns r (List.mem_of_find?_eq_some hr)
        simpa using ofNat_ne_slash (by omega)
      · simpa using h

theorem lowerChar_ne_nil (c : Char) : lowerChar c ≠ [] := by
  unfold lowerChar
  split
  · simp
  · split
    · simp
    · split <;> simp

theorem head?_lower_ne_slash {s : List Char} (h : s.head? ≠ some '/') :
    (lower s).head? ≠ some '/' := by
  cases s with
  | nil => simp [lower, lowerAfter]
  | cons c rest =>
    have hc : c ≠ '/' := fun he => h (by rw [he]; rfl)
    rw [lower, lowerAfter]
    split
    · split <;> simp
    · intro hhead
      obtain ⟨x, xs, hx⟩ := List.exists_cons_of_ne_nil (lowerChar_ne_nil c)
      rw [hx] at hhead
      refine lowerChar_ne_slash hc x (hx ▸ List.mem_cons_self) ?_
      simpa using hhead

theorem lowerAfter_cons_slash (before rest : List Char) :
    lowerAfter before ('/' :: rest) = '/' :: lowerAfter ('/' :: before) rest := by
  have hslash : lowerChar '/' = ['/'] := by decide
  rw [lowerAfter, if_neg (by decide), hslash]
  rfl

theorem exists_lowerAfter_cons {c : Char} (h : c ≠ '/') (before rest : List Char) :
    ∃ x block, x ≠ '/' ∧ '/' ∉ block ∧
      lowerAfter before (c :: rest) = x :: block ++ lowerAfter (c :: before) rest := by
  rw [lowerAfter]
  split
  · split
    · exact ⟨'ς', [], by decide, List.not_mem_nil, rfl⟩
    · exact ⟨'σ', [], by decide, List.not_mem_nil, rfl⟩
  · obtain ⟨x, block, hblock⟩ := List.exists_cons_of_ne_nil (lowerChar_ne_nil c)
    have hslash := lowerChar_ne_slash h
    rw [hblock] at hslash ⊢
    exact ⟨x, block, hslash x List.mem_cons_self,
      fun hmem => hslash '/' (List.mem_cons_of_mem x hmem) rfl, rfl⟩

end Text

namespace Naming

open Text

theorem normalizeChars_eq_ok {s n : List Char} (h : normalizeChars s = .ok n) :
    n = slashed (trim s) := by
  simp only [normalizeChars] at h
  split at h
  · cases h
  · split at h <;> cases h
    rfl

theorem slashed_of_head?_eq {s : List Char} (h : s.head? = some '/') : slashed s = s := if_pos h

theorem slashed_of_head?_ne {s : List Char} (h : s.head? ≠ some '/') : slashed s = '/' :: s :=
  if_neg h

theorem keyChars_slashed_trim (s : List Char) : keyChars (slashed (trim s)) = keyChars s := by
  have htrim := isTrimmed_trim s
  unfold keyChars
  by_cases hslash : (trim s).head? = some '/'
  · rw [slashed_of_head?_eq hslash, trim_of_isTrimmed htrim]
  · rw [slashed_of_head?_ne hslash, trim_cons_slash htrim, lower_cons_slash,
      slashed_of_head?_eq rfl, slashed_of_head?_ne (head?_lower_ne_slash hslash)]

theorem key_normalize {name normal : String} (h : normalize name = .ok normal) :
    key normal = key name := by
  unfold normalize at h
  split at h
  · rename_i n hn
    cases h
    rw [key, key, String.toList_ofList, normalizeChars_eq_ok hn, keyChars_slashed_trim]
  · cases h
  · cases h

theorem key_trimmed (name : String) : key (trimmed name) = key name := by
  rw [key, key, trimmed, String.toList_ofList, keyChars, keyChars,
    trim_of_isTrimmed (isTrimmed_trim _)]

theorem status_of_normalize_eq_error {name : String} {fault : Fault}
    (h : normalize name = .error fault) : fault.status = 400 := by
  unfold normalize at h
  split at h <;> cases h <;> rfl

theorem hasEmptySegment_cons_slash (s : List Char) :
    hasEmptySegment ('/' :: s) = (s.head?.all (· = '/') || hasEmptySegment s) := by
  cases s with
  | nil => rfl
  | cons c rest =>
    by_cases hc : c = '/'
    · simp [hc, hasEmptySegment]
    · simp [hc, hasEmptySegment]

theorem hasEmptySegment_append {s : List Char} (h : '/' ∉ s) (rest : List Char) :
    hasEmptySegment (s ++ rest) = hasEmptySegment rest := by
  induction s with
  | nil => rfl
  | cons c s ih =>
    rw [List.mem_cons, not_or] at h
    have hc : c ≠ '/' := Ne.symm h.1
    rw [List.cons_append, hasEmptySegment.eq_4 _ _ (by simp [hc]) (by simp [hc]), ih h.2]

theorem all_head?_lowerAfter (before s : List Char) :
    (lowerAfter before s).head?.all (· = '/') = s.head?.all (· = '/') := by
  cases s with
  | nil => rfl
  | cons c rest =>
    by_cases hc : c = '/'
    · rw [hc, lowerAfter_cons_slash]
      rfl
    · obtain ⟨x, block, hx, -, hlower⟩ := exists_lowerAfter_cons hc before rest
      simp [hlower, hx, hc]

theorem hasEmptySegment_lowerAfter (before s : List Char) :
    hasEmptySegment (lowerAfter before s) = hasEmptySegment s := by
  induction s generalizing before with
  | nil => rfl
  | cons c rest ih =>
    by_cases hc : c = '/'
    · rw [hc, lowerAfter_cons_slash, hasEmptySegment_cons_slash, all_head?_lowerAfter, ih,
        ← hasEmptySegment_cons_slash]
    · obtain ⟨x, block, hx, hblock, hlower⟩ := exists_lowerAfter_cons hc before rest
      have hapart : '/' ∉ x :: block := List.not_mem_cons_of_ne_of_not_mem hx.symm hblock
      have hc' : '/' ∉ [c] := List.not_mem_cons_of_ne_of_not_mem (Ne.symm hc) List.not_mem_nil
      rw [hlower, hasEmptySegment_append hapart, ih]
      exact (hasEmptySegment_append hc' rest).symm

theorem slashed_lower (s : List Char) : slashed (lower s) = lower (slashed s) := by
  by_cases hslash : s.head? = some '/'
  · obtain ⟨rest, rfl⟩ := List.head?_eq_some_iff.1 hslash
    rw [slashed_of_head?_eq hslash, slashed_of_head?_eq]
    rw [lower, lowerAfter_cons_slash]
    rfl
  · rw [slashed_of_head?_ne hslash, slashed_of_head?_ne (head?_lower_ne_slash hslash),
      lower_cons_slash]

theorem hasEmptySegment_keyChars (s : List Char) :
    hasEmptySegment (keyChars s) = hasEmptySegment (slashed (trim s)) := by
  rw [keyChars, slashed_lower, lower, hasEmptySegment_lowerAfter]

theorem normalize_eq_ok_iff {name normal : String} :
    normalize name = .ok normal ↔
      hasEmptySegment (key name).toList = false ∧
        normal = String.ofList (slashed (trim name.toList)) := by
  rw [key, String.toList_ofList, hasEmptySegment_keyChars, normalize, normalizeChars]
  generalize trim name.toList = s
  by_cases hnone : s = [] ∨ s = ['/']
  · have hempty : hasEmptySegment (slashed s) = true := by
      rcases hnone with rfl | rfl <;> rfl
    rw [if_pos (by simpa using hnone), hempty]
    simp
  · rw [if_neg (by simpa using hnone)]
    cases hasEmptySegment (slashed s) <;> simp [eq_comm]

end Naming

end Strongroom
