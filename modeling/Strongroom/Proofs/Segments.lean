import Strongroom.Proofs.Folders

/-! Normal names are paths: segments without a slash, none of them empty, each behind one slash.
Normalization answers for every name, and what it says of a name is the same for all names of one
key. -/

namespace Strongroom.Naming

open Text

def IsSegment (g : List Char) : Prop := g ≠ [] ∧ '/' ∉ g

def joined (segments : List (List Char)) : List Char := segments.flatMap ('/' :: ·)

/-- One or more segments, each with one slash in front. -/
def IsPath (s : List Char) : Prop :=
  ∃ segments, segments ≠ [] ∧ (∀ g ∈ segments, IsSegment g) ∧ s = joined segments

def rooted (name : String) : String :=
  if (trimmed name).toList.head? = some '/' then trimmed name else "/" ++ trimmed name

theorem joined_cons (g : List Char) (segments : List (List Char)) :
    joined (g :: segments) = '/' :: (g ++ joined segments) :=
  List.flatMap_cons

theorem head?_joined_all (segments : List (List Char)) :
    (joined segments).head?.all (· = '/') = true := by
  cases segments <;> rfl

theorem hasEmptySegment_joined {segments : List (List Char)} (h : ∀ g ∈ segments, IsSegment g) :
    hasEmptySegment (joined segments) = false := by
  induction segments with
  | nil => rfl
  | cons g rest ih =>
    obtain ⟨⟨hsome, hslash⟩, hrest⟩ := List.forall_mem_cons.1 h
    obtain ⟨c, g', rfl⟩ := List.exists_cons_of_ne_nil hsome
    have hc : ¬ c = '/' := fun he => hslash (by simp [he])
    rw [joined_cons, hasEmptySegment_cons_slash, hasEmptySegment_append hslash, ih hrest]
    simpa using hc

theorem exists_segments {s : List Char} (h : hasEmptySegment s = false) :
    ∃ start segments, '/' ∉ start ∧ (∀ g ∈ segments, IsSegment g) ∧
      s = start ++ joined segments := by
  induction s with
  | nil => exact ⟨[], [], List.not_mem_nil, by simp, rfl⟩
  | cons c s ih =>
    by_cases hc : c = '/'
    · subst hc
      rw [hasEmptySegment_cons_slash, Bool.or_eq_false_iff] at h
      obtain ⟨start, segments, hstart, hsegments, rfl⟩ := ih h.2
      have hsome : start ≠ [] := by
        rintro rfl
        rw [List.nil_append, head?_joined_all] at h
        cases h.1
      refine ⟨[], start :: segments, List.not_mem_nil, ?_, (joined_cons start segments).symm⟩
      exact List.forall_mem_cons.2 ⟨⟨hsome, hstart⟩, hsegments⟩
    · have hc' : '/' ∉ [c] := List.not_mem_cons_of_ne_of_not_mem (Ne.symm hc) List.not_mem_nil
      rw [← List.singleton_append, hasEmptySegment_append hc'] at h
      obtain ⟨start, segments, hstart, hsegments, rfl⟩ := ih h
      exact ⟨c :: start, segments, List.not_mem_cons_of_ne_of_not_mem (Ne.symm hc) hstart,
        hsegments, rfl⟩

theorem isPath_iff {s : List Char} (h : s.head? = some '/') :
    IsPath s ↔ hasEmptySegment s = false := by
  constructor
  · rintro ⟨segments, -, hsegments, rfl⟩
    exact hasEmptySegment_joined hsegments
  · intro hempty
    obtain ⟨start, segments, hstart, hsegments, rfl⟩ := exists_segments hempty
    have hnone : start = [] := by
      cases start with
      | nil => rfl
      | cons c start =>
        cases h
        exact absurd List.mem_cons_self hstart
    subst hnone
    refine ⟨segments, ?_, hsegments, rfl⟩
    rintro rfl
    cases h

theorem head?_slashed (s : List Char) : (slashed s).head? = some '/' := by
  unfold slashed
  split
  · assumption
  · rfl

theorem toList_rooted (name : String) : (rooted name).toList = slashed (trim name.toList) := by
  rw [rooted, trimmed, String.toList_ofList, slashed]
  split
  · exact String.toList_ofList
  · rw [String.toList_append]
    exact congrArg ('/' :: ·) String.toList_ofList

theorem rooted_eq (name : String) : rooted name = String.ofList (slashed (trim name.toList)) := by
  rw [← toList_rooted, String.ofList_toList]

theorem isPath_rooted_iff (name : String) :
    IsPath (rooted name).toList ↔ hasEmptySegment (key name).toList = false := by
  rw [toList_rooted, isPath_iff (head?_slashed _), key, String.toList_ofList,
    hasEmptySegment_keyChars]

def IsNameless (name : String) : Prop := trimmed name = "" ∨ trimmed name = "/"

theorem isNameless_iff (name : String) :
    IsNameless name ↔ trim name.toList = [] ∨ trim name.toList = ['/'] := by
  rw [IsNameless, trimmed, ← String.toList_inj, ← String.toList_inj, String.toList_ofList]
  rfl

variable {name : String}

theorem normalize_of_isPath (h : IsPath (rooted name).toList) :
    normalize name = .ok (rooted name) :=
  normalize_eq_ok_iff.2 ⟨(isPath_rooted_iff name).1 h, rooted_eq name⟩

theorem normalize_of_isNameless (h : IsNameless name) :
    normalize name = .error (.invalid .missingName none) := by
  have hnone := (isNameless_iff name).1 h
  rw [normalize, normalizeChars, if_pos (by simpa using hnone)]
  rfl

theorem normalize_of_not_isPath (h : ¬ IsPath (rooted name).toList) (hnamed : ¬ IsNameless name) :
    normalize name = .error (.invalid .malformedName (some name)) := by
  rw [toList_rooted, isPath_iff (head?_slashed _), Bool.not_eq_false] at h
  rw [isNameless_iff] at hnamed
  rw [normalize, normalizeChars, if_neg (by simpa using hnamed), if_pos h]

structure Normalizes (name : String) (answer : Except Fault String) : Prop where
  accepted_iff : ∀ normal, answer = .ok normal ↔ IsPath (rooted name).toList ∧ normal = rooted name
  fixed : ∀ normal, answer = .ok normal → normalize normal = .ok normal
  key_eq : ∀ normal, answer = .ok normal → key normal = key name
  missing_iff : answer = .error (.invalid .missingName none) ↔
    trimmed name = "" ∨ trimmed name = "/"
  malformed_iff : answer = .error (.invalid .malformedName (some name)) ↔
    ¬ IsPath (rooted name).toList ∧ ¬ (trimmed name = "" ∨ trimmed name = "/")
  alike : ∀ other, key other = key name →
    ((∃ normal, normalize other = .ok normal) ↔ ∃ normal, answer = .ok normal)

/-- Every name is normalized as it is to be, and names of one key alike. -/
theorem normalizes_normalize (name : String) : Normalizes name (normalize name) where
  accepted_iff normal := by
    rw [normalize_eq_ok_iff, isPath_rooted_iff, rooted_eq]
  fixed normal h := isNormal_of_normalize h
  key_eq normal h := key_normalize h
  missing_iff := by
    refine ⟨fun h => ?_, normalize_of_isNameless⟩
    by_contra hnamed
    by_cases hpath : IsPath (rooted name).toList
    · cases h.symm.trans (normalize_of_isPath hpath)
    · cases h.symm.trans (normalize_of_not_isPath hpath hnamed)
  malformed_iff := by
    refine ⟨fun h => ⟨fun hpath => ?_, fun hnone => ?_⟩, fun h => normalize_of_not_isPath h.1 h.2⟩
    · cases h.symm.trans (normalize_of_isPath hpath)
    · cases h.symm.trans (normalize_of_isNameless hnone)
  alike other hkey := by
    have hsegments : ∀ name, (∃ normal, normalize name = .ok normal) ↔
        hasEmptySegment (key name).toList = false := by
      intro name
      simp only [normalize_eq_ok_iff, exists_and_left, exists_eq, and_true]
    rw [hsegments, hsegments, hkey]

example : normalize " a / b " = .ok "/a / b" := rfl

end Strongroom.Naming
