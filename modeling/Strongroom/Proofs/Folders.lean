import Strongroom.Proofs.ByteOrder
import Strongroom.Proofs.History
import Strongroom.Proofs.Reading
import Strongroom.Proofs.Spelling

/-! Search by folder and the listing of folders agree. A stored name is normal, so that its folders
are what it has up to each of its slashes. Lower case leaves the slashes where they are and looks at
nothing beyond them, so that a key starts with what is searched for exactly if the name has a folder
that becomes it. -/

namespace Strongroom

namespace Text

theorem lowerAfter_append_cons_slash (before above below : List Char) :
    lowerAfter before (above ++ '/' :: below) =
      lowerAfter before above ++ '/' :: lowerAfter ('/' :: (above.reverse ++ before)) below := by
  induction above generalizing before with
  | nil => exact lowerAfter_cons_slash before below
  | cons c above ih =>
    rw [List.cons_append, lowerAfter, lowerAfter, casedNext_append_slash, ih, List.reverse_cons,
      List.append_assoc, List.append_assoc]
    rfl

theorem lower_append_slash (above : List Char) : lower (above ++ ['/']) = lower above ++ ['/'] :=
  lowerAfter_append_cons_slash [] above []

theorem exists_slash_of_lowerAfter {before s start rest : List Char}
    (h : lowerAfter before s = start ++ '/' :: rest) :
    ∃ above below, s = above ++ '/' :: below ∧
      lowerAfter ('/' :: (above.reverse ++ before)) below = rest := by
  induction s generalizing before start with
  | nil => cases (List.append_ne_nil_of_right_ne_nil start (List.cons_ne_nil '/' rest)) h.symm
  | cons c s ih =>
    by_cases hc : c = '/'
    · subst hc
      rw [lowerAfter_cons_slash] at h
      cases start with
      | nil => exact ⟨[], s, rfl, (List.cons.inj h).2⟩
      | cons x start =>
        obtain ⟨above, below, rfl, hbelow⟩ := ih (List.cons.inj h).2
        refine ⟨'/' :: above, below, rfl, ?_⟩
        simpa using hbelow
    · obtain ⟨x, block, hx, hblock, hlower⟩ := exists_lowerAfter_cons hc before s
      have hapart : '/' ∉ x :: block := List.not_mem_cons_of_ne_of_not_mem hx.symm hblock
      rw [hlower] at h
      rcases List.append_eq_append_iff.1 h with ⟨start', rfl, hrest⟩ | ⟨block', hcut, hrest⟩
      · obtain ⟨above, below, rfl, hbelow⟩ := ih hrest
        refine ⟨c :: above, below, rfl, ?_⟩
        simpa using hbelow
      · cases block' with
        | nil =>
          have hrest : lowerAfter (c :: before) s = [] ++ '/' :: rest := hrest.symm
          obtain ⟨above, below, rfl, hbelow⟩ := ih hrest
          refine ⟨c :: above, below, rfl, ?_⟩
          simpa using hbelow
        | cons y block' =>
          obtain ⟨rfl, -⟩ := List.cons.inj hrest
          exact absurd (hcut ▸ List.mem_append_right start List.mem_cons_self) hapart

theorem lower_eq_append_slash {s start rest : List Char} (h : lower s = start ++ '/' :: rest) :
    ∃ above below, s = above ++ '/' :: below ∧ lower above = start := by
  obtain ⟨above, below, rfl, hbelow⟩ := exists_slash_of_lowerAfter h
  rw [lower, lowerAfter_append_cons_slash, hbelow] at h
  exact ⟨above, below, rfl, List.append_cancel_right h⟩

end Text

namespace Naming

open Text

def IsNormal (name : String) : Prop := normalize name = .ok name

theorem slashed_slashed (s : List Char) : slashed (slashed s) = slashed s := by
  by_cases hslash : s.head? = some '/'
  · rw [slashed_of_head?_eq hslash, slashed_of_head?_eq hslash]
  · rw [slashed_of_head?_ne hslash, slashed_of_head?_eq rfl]

theorem trim_slashed_trim (s : List Char) : trim (slashed (trim s)) = slashed (trim s) := by
  have htrim := isTrimmed_trim s
  by_cases hslash : (trim s).head? = some '/'
  · rw [slashed_of_head?_eq hslash, trim_of_isTrimmed htrim]
  · rw [slashed_of_head?_ne hslash, trim_cons_slash htrim]

theorem isNormal_of_normalize {name normal : String} (h : normalize name = .ok normal) :
    IsNormal normal := by
  obtain ⟨hsegments, hnormal⟩ := normalize_eq_ok_iff.1 h
  refine normalize_eq_ok_iff.2 ⟨by rw [key_normalize h, hsegments], ?_⟩
  rw [hnormal, String.toList_ofList, trim_slashed_trim, slashed_slashed]

theorem hasEmptySegment_append_slash (s : List Char) : hasEmptySegment (s ++ ['/']) = true := by
  induction s with
  | nil => rfl
  | cons c s ih =>
    by_cases hc : c = '/'
    · rw [hc, List.cons_append, hasEmptySegment_cons_slash, ih, Bool.or_true]
    · have hc' : '/' ∉ [c] := List.not_mem_cons_of_ne_of_not_mem (Ne.symm hc) List.not_mem_nil
      rw [List.cons_append, ← List.singleton_append, hasEmptySegment_append hc', ih]

namespace IsNormal

variable {name : String} (h : IsNormal name)

include h

theorem toList_eq : name.toList = slashed (trim name.toList) := by
  have hname := congrArg String.toList (normalize_eq_ok_iff.1 h).2
  rwa [String.toList_ofList] at hname

theorem trim_eq : trim name.toList = name.toList := by rw [h.toList_eq, trim_slashed_trim]

theorem slashed_eq : slashed name.toList = name.toList := by rw [h.toList_eq, slashed_slashed]

theorem keyChars_eq : keyChars name.toList = lower name.toList := by
  rw [keyChars, h.trim_eq, slashed_lower, h.slashed_eq]

theorem hasEmptySegment_eq : hasEmptySegment name.toList = false := by
  have hkey := (normalize_eq_ok_iff.1 h).1
  rwa [key, String.toList_ofList, hasEmptySegment_keyChars, ← h.toList_eq] at hkey

theorem head?_eq : name.toList.head? = some '/' := by
  have hslashed := h.slashed_eq
  by_cases hslash : name.toList.head? = some '/'
  · exact hslash
  · rw [slashed_of_head?_ne hslash] at hslashed
    rw [← hslashed, List.head?_cons]

theorem cons_dropWhile_eq : '/' :: name.toList.dropWhile (· = '/') = name.toList := by
  obtain ⟨rest, hrest⟩ := List.head?_eq_some_iff.1 h.head?_eq
  have hsegments := h.hasEmptySegment_eq
  rw [hrest, hasEmptySegment_cons_slash, Bool.or_eq_false_iff] at hsegments
  cases rest with
  | nil => cases hsegments.1
  | cons c rest =>
    have hc : ¬ c = '/' := of_decide_eq_false hsegments.1
    rw [hrest, List.dropWhile_cons_of_pos (by decide),
      List.dropWhile_cons_of_neg (by simpa using hc)]

end IsNormal

end Naming

namespace Search

open Text

/-- The folders of a name are what it has before each of its segments. -/
def IsFolderOf (folder name : String) : Prop :=
  ∃ above below : String, folder = above ++ "/" ∧ below ≠ "" ∧ name = folder ++ below

theorem isFolderOf_iff {folder name : String} :
    IsFolderOf folder name ↔ ∃ above below : List Char, folder.toList = above ++ ['/'] ∧
      below ≠ [] ∧ name.toList = above ++ '/' :: below := by
  constructor
  · rintro ⟨above, below, rfl, hbelow, rfl⟩
    refine ⟨above.toList, below.toList, String.toList_append, ?_, ?_⟩
    · simpa using hbelow
    · rw [String.toList_append, String.toList_append, List.append_assoc]
      rfl
  · rintro ⟨above, below, hfolder, hbelow, hname⟩
    refine ⟨.ofList above, .ofList below, String.toList_inj.1 ?_, by simpa using hbelow,
      String.toList_inj.1 ?_⟩
    · rw [hfolder, String.toList_append, String.toList_ofList]
      rfl
    · rw [hname, String.toList_append, hfolder, String.toList_ofList, List.append_assoc]
      rfl

theorem mem_upToSlashes {before rest upTo : List Char} :
    upTo ∈ upToSlashes before rest ↔
      ∃ above below, rest = above ++ '/' :: below ∧ upTo = before ++ above ++ ['/'] := by
  induction rest generalizing before with
  | nil => simp [upToSlashes]
  | cons c rest ih =>
    by_cases hc : c = '/'
    · subst hc
      rw [upToSlashes, if_pos rfl, List.mem_cons, ih]
      constructor
      · rintro (rfl | ⟨above, below, rfl, rfl⟩)
        · exact ⟨[], rest, rfl, by simp⟩
        · exact ⟨'/' :: above, below, rfl, by simp⟩
      · rintro ⟨above, below, hcut, rfl⟩
        cases above with
        | nil => exact .inl (by simp)
        | cons x above =>
          obtain ⟨rfl, rfl⟩ := List.cons.inj hcut
          exact .inr ⟨above, below, rfl, by simp⟩
    · rw [upToSlashes, if_neg hc, ih]
      constructor
      · rintro ⟨above, below, rfl, rfl⟩
        exact ⟨c :: above, below, rfl, by simp⟩
      · rintro ⟨above, below, hcut, rfl⟩
        cases above with
        | nil => exact absurd (List.cons.inj hcut).1 hc
        | cons x above =>
          obtain ⟨rfl, rfl⟩ := List.cons.inj hcut
          exact ⟨above, below, rfl, by simp⟩

theorem mem_folders_iff {folder name : String} (h : Naming.IsNormal name) :
    folder ∈ folders name ↔ IsFolderOf folder name := by
  rw [folders, h.cons_dropWhile_eq, isFolderOf_iff]
  simp only [List.mem_map, mem_upToSlashes, List.nil_append]
  constructor
  · rintro ⟨_, ⟨above, below, hname, rfl⟩, rfl⟩
    refine ⟨above, below, String.toList_ofList, ?_, hname⟩
    rintro rfl
    have hsegments := h.hasEmptySegment_eq
    rw [hname, Naming.hasEmptySegment_append_slash] at hsegments
    cases hsegments
  · rintro ⟨above, below, hfolder, -, hname⟩
    exact ⟨folder.toList, ⟨above, below, hname, hfolder⟩, String.ofList_toList⟩

theorem folderChars_eq_append_slash (path : List Char) :
    ∃ start, folderChars path = start ++ ['/'] := by
  simp only [folderChars]
  split
  · rename_i hlast
    exact List.getLast?_eq_some_iff.1 hlast
  · exact ⟨_, rfl⟩

theorem isPrefixOf_keyChars_iff {path : List Char} {name : String} (h : Naming.IsNormal name) :
    (folderChars path).isPrefixOf (Naming.keyChars name.toList) = true ↔
      ∃ folder, IsFolderOf folder name ∧ lower folder.toList = folderChars path := by
  obtain ⟨start, hstart⟩ := folderChars_eq_append_slash path
  rw [List.isPrefixOf_iff_prefix, h.keyChars_eq]
  constructor
  · rintro ⟨rest, hrest⟩
    rw [hstart, List.append_assoc] at hrest
    obtain ⟨above, below, hname, habove⟩ := lower_eq_append_slash hrest.symm
    have hfolder : String.ofList (above ++ ['/']) ∈ folders name := by
      rw [folders, h.cons_dropWhile_eq]
      exact List.mem_map_of_mem (mem_upToSlashes.2 ⟨above, below, hname, rfl⟩)
    refine ⟨_, (mem_folders_iff h).1 hfolder, ?_⟩
    rw [String.toList_ofList, lower_append_slash, habove, hstart]
  · rintro ⟨folder, hfolder, hlower⟩
    obtain ⟨above, below, hcut, -, hname⟩ := isFolderOf_iff.1 hfolder
    rw [← hlower, hcut, hname, lower_append_slash, lower, lower, lowerAfter_append_cons_slash]
    exact ⟨_, List.append_assoc _ _ _⟩

theorem folderChars_of_isFolderOf {folder name : String} (h : Naming.IsNormal name)
    (hfolder : IsFolderOf folder name) : folderChars folder.toList = lower folder.toList := by
  obtain ⟨above, below, hcut, -, hname⟩ := isFolderOf_iff.1 hfolder
  have hhead : folder.toList.head? = some '/' := by
    have hfirst := h.head?_eq
    rw [hname, List.head?_append, List.head?_cons] at hfirst
    rwa [hcut, List.head?_append, List.head?_singleton]
  have hlast : folder.toList.getLast? = some '/' := by rw [hcut, List.getLast?_concat]
  have htrimmed : IsTrimmed folder.toList := by
    have hslash : isBlank '/' = false := by decide
    constructor
    · rintro c hc
      cases hhead.symm.trans hc
      exact hslash
    · rintro c hc
      cases hlast.symm.trans hc
      exact hslash
  have hkey : Naming.keyChars folder.toList = lower folder.toList := by
    rw [Naming.keyChars, trim_of_isTrimmed htrimmed, Naming.slashed_lower,
      Naming.slashed_of_head?_eq hhead]
  rw [folderChars, hkey, if_pos]
  rw [hcut, lower_append_slash, List.getLast?_concat]

def answered (policy : AccessPolicy) (d : StoreData) (actor : String)
    (matches? : Credential → Bool) : List Found :=
  (((readable policy d actor).filter matches?).map fun c => ⟨c.name, c.latest.createdAt⟩).mergeSort
    comesBefore

def listed (policy : AccessPolicy) (d : StoreData) (actor : String) : List String :=
  let found := (readable policy d actor).flatMap fun c => folders c.name
  (Dictionary.ofListWith (fun held _ => held) (found.map (·, ()))).keys

section Answers

variable (policy : AccessPolicy) (d : StoreData) (actor : String) (now : Time.Instant)

theorem runOn_matching (matches? : Credential → Bool) :
    ((matching policy actor matches?).runOn d now []).1 =
      .ok (answered policy d actor matches?) := by
  rw [matching, Inquiry.runOn_collect_bind, Inquiry.runOn_data_bind]
  rfl

theorem runOn_allFolders :
    ((allFolders policy actor).runOn d now []).1 = .ok (listed policy d actor) := by
  rw [allFolders, Inquiry.runOn_collect_bind, Inquiry.runOn_data_bind]
  rfl

end Answers

section Members

variable {policy : AccessPolicy} {d : StoreData} {actor : String}

theorem mem_answered {matches? : Credential → Bool} {found : Found} :
    found ∈ answered policy d actor matches? ↔ ∃ held ∈ readable policy d actor,
      matches? held = true ∧ found = ⟨held.name, held.latest.createdAt⟩ := by
  rw [answered, List.mem_mergeSort, List.mem_map]
  simp only [List.mem_filter, and_assoc, eq_comm]

theorem nodup_answered (hsound : d.Sound) (matches? : Credential → Bool) :
    ((answered policy d actor matches?).map (·.name)).Nodup := by
  have hnames : (d.credentials.values.map (·.name)).Nodup :=
    hsound.ascending_names.imp fun hlt => ne_of_apply_ne Naming.key (ne_of_lt hlt)
  have hperm := List.mergeSort_perm
    (((readable policy d actor).filter matches?).map fun c => Found.mk c.name c.latest.createdAt)
    comesBefore
  rw [answered, (hperm.map _).nodup_iff, List.map_map]
  exact hnames.sublist ((List.filter_sublist.trans List.filter_sublist).map _)

theorem mem_listed {folder : String} :
    folder ∈ listed policy d actor ↔
      ∃ held ∈ readable policy d actor, folder ∈ folders held.name := by
  rw [listed, Dictionary.mem_keys_ofListWith, List.map_map, List.map_id'', List.mem_flatMap]
  exact fun _ => rfl

theorem ascending_listed :
    (listed policy d actor).Pairwise fun a b => Octets.ofText a < Octets.ofText b := by
  rw [listed, Dictionary.keys, List.pairwise_map]
  exact (Dictionary.ascending _).imp Octets.ofText_lt_ofText_iff.2

end Members

end Search

namespace Custodian

theorem Reachable.isNormal_name {config : Config} {issuer : Issuer} {c : Custodian}
    (h : Reachable config issuer c) {key : String} {held : Credential}
    (hheld : c.store.data.credentials.get? key = some held) : Naming.IsNormal held.name := by
  induction h generalizing held with
  | start => cases hheld
  | @perform c h caller occasion call ih =>
    cases Event.step_of_sound (e := ⟨⟨caller, occasion, call⟩, c⟩) key h.sound with
    | kept _ _ hleft => exact ih (hleft.symm.trans hheld)
    | created _ _ _ hcreated hleft =>
      cases hleft.symm.trans hheld
      obtain ⟨_, _, _, -, hname⟩ := hcreated.named
      exact Naming.isNormal_of_normalize hname
    | @appended found v _ _ _ hfound _ hleft =>
      have hname : Naming.IsNormal found.name := ih hfound
      cases hleft.symm.trans hheld
      exact hname
    | deleted _ hleft => cases hleft.symm.trans hheld
  | logged _ _ ih => exact ih hheld

def Opens (c : Custodian) (actor : String) (held : Credential) : Prop :=
  c.store.data.find? held.name = some held ∧ c.Allows held.name actor .read

theorem mem_readable {c : Custodian} (hsound : c.store.data.Sound) {actor : String}
    {held : Credential} :
    held ∈ Search.readable c.policy c.store.data actor ↔ c.Opens actor held := by
  rw [Search.readable, List.mem_filter, hsound.mem_values, permits_iff_allows, Opens]

/-- Search by folder and the list of folders, told by the folders that names have. -/
structure FolderView (c : Custodian) (actor : String) (foundIn : String → List Search.Found)
    (listed : List String) : Prop where
  found_iff : ∀ path found, found ∈ foundIn path ↔ ∃ held, c.Opens actor held ∧
    found = ⟨held.name, held.latest.createdAt⟩ ∧ ∃ folder, Search.IsFolderOf folder held.name ∧
      Text.lower folder.toList = Search.folderChars path.toList
  once : ∀ path, ((foundIn path).map (·.name)).Nodup
  ascending : listed.Pairwise fun a b => Octets.ofText a < Octets.ofText b
  listed_iff : ∀ folder, folder ∈ listed ↔
    ∃ held, c.Opens actor held ∧ Search.IsFolderOf folder held.name
  found_of_listed : ∀ folder ∈ listed, foundIn folder ≠ []
  listed_of_found : ∀ path, foundIn path ≠ [] →
    ∃ folder ∈ listed, Text.lower folder.toList = Search.folderChars path.toList

theorem Reachable.folderView_answered {config : Config} {issuer : Issuer} {c : Custodian}
    (h : Reachable config issuer c) (actor : String) :
    c.FolderView actor
      (fun path => Search.answered c.policy c.store.data actor (Search.isInFolder path))
      (Search.listed c.policy c.store.data actor) := by
  have hnormal : ∀ {held}, c.Opens actor held → Naming.IsNormal held.name := fun hopens =>
    h.isNormal_name hopens.1
  have hfound : ∀ path found,
      found ∈ Search.answered c.policy c.store.data actor (Search.isInFolder path) ↔
        ∃ held, c.Opens actor held ∧ found = ⟨held.name, held.latest.createdAt⟩ ∧
          ∃ folder, Search.IsFolderOf folder held.name ∧
            Text.lower folder.toList = Search.folderChars path.toList := by
    intro path found
    simp only [Search.mem_answered, mem_readable h.sound]
    refine exists_congr fun held => and_congr_right fun hopens => ?_
    rw [Search.isInFolder, Search.isPrefixOf_keyChars_iff (hnormal hopens), and_comm]
  have hlisted : ∀ folder, folder ∈ Search.listed c.policy c.store.data actor ↔
      ∃ held, c.Opens actor held ∧ Search.IsFolderOf folder held.name := by
    intro folder
    simp only [Search.mem_listed, mem_readable h.sound]
    refine exists_congr fun held => and_congr_right fun hopens => ?_
    exact Search.mem_folders_iff (hnormal hopens)
  refine ⟨hfound, fun path => Search.nodup_answered h.sound _, Search.ascending_listed, hlisted,
    ?_, ?_⟩
  · intro folder hfolder
    obtain ⟨held, hopens, hof⟩ := (hlisted folder).1 hfolder
    have hsame := Search.folderChars_of_isFolderOf (hnormal hopens) hof
    exact List.ne_nil_of_mem ((hfound folder _).2 ⟨held, hopens, rfl, folder, hof, hsame.symm⟩)
  · intro path hfilled
    obtain ⟨found, hmem⟩ := List.exists_mem_of_ne_nil _ hfilled
    obtain ⟨held, hopens, -, folder, hof, hlower⟩ := (hfound path found).1 hmem
    exact ⟨folder, (hlisted folder).2 ⟨held, hopens, hof⟩, hlower⟩

section Calls

variable (c : Custodian) (caller : Caller) (occasion : Occasion)

theorem perform_findByPath (path : String) :
    (c.perform caller occasion (.findByPath path)).1 = .ok (.found
      (Search.answered c.policy c.store.data caller.actor (Search.isInFolder path))) := by
  refine inquire_fst.trans ?_
  rw [Search.byPath, Search.runOn_matching]
  rfl

theorem perform_findFolders :
    (c.perform caller occasion .findFolders).1 =
      .ok (.names (Search.listed c.policy c.store.data caller.actor)) := by
  refine inquire_fst.trans ?_
  rw [Search.runOn_allFolders]
  rfl

end Calls

/-- Searches by folder and the listing of folders do not fail, and they agree. -/
theorem Reachable.exists_folderView {config : Config} {issuer : Issuer} {c : Custodian}
    (h : Reachable config issuer c) (actor : String) :
    ∃ foundIn listed, c.FolderView actor foundIn listed ∧
      ∀ caller occasion, caller.actor = actor →
        (∀ path, (c.perform caller occasion (.findByPath path)).1 = .ok (.found (foundIn path))) ∧
          (c.perform caller occasion .findFolders).1 = .ok (.names listed) := by
  refine ⟨_, _, h.folderView_answered actor, ?_⟩
  rintro caller occasion rfl
  exact ⟨c.perform_findByPath caller occasion, c.perform_findFolders caller occasion⟩

def foldered : Custodian :=
  ((empty {} Issuance.issue).perform ⟨.ofNat 0, "alice"⟩ ⟨0, ⟨0, 0⟩⟩
    (.set " Deploy/Prod/db " (.password "secret") [] true)).2

theorem Reachable.exists_folderView_foldered :
    Reachable {} Issuance.issue foldered ∧
      ∃ foundIn listed, foldered.FolderView "alice" foundIn listed ∧
        foundIn "deploy" = [⟨"/Deploy/Prod/db", ⟨0, 0⟩⟩] ∧ foundIn "/dep" = [] ∧
        listed = ["/", "/Deploy/", "/Deploy/Prod/"] := by
  have h : Reachable {} Issuance.issue foldered := Reachable.start.perform _ _ _
  obtain ⟨foundIn, listed, hview, hanswers⟩ := h.exists_folderView "alice"
  obtain ⟨hfound, hlisted⟩ := hanswers ⟨.ofNat 1, "alice"⟩ ⟨1, ⟨1, 0⟩⟩ rfl
  have hfound : ∀ path, foundIn path =
      Search.answered foldered.policy foldered.store.data "alice" (Search.isInFolder path) :=
    fun path => Answer.found.inj (Except.ok.inj
      ((hfound path).symm.trans (foldered.perform_findByPath _ _ path)))
  refine ⟨h, foundIn, listed, hview, ?_, ?_, ?_⟩
  · exact (hfound "deploy").trans (by decide +kernel)
  · exact (hfound "/dep").trans (by decide +kernel)
  · exact Answer.names.inj (Except.ok.inj (hlisted.symm.trans rfl))

end Custodian

end Strongroom
