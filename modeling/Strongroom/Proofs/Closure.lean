import Strongroom.Proofs.Descent

/-! The order below a signer holds what can be reached from it, every name after the one that leads
to it. Where every name has one signer there is such an order unless the signer can be reached from
itself: a walk down from it can meet nothing else twice. -/

namespace Strongroom.SigningGraph

variable {g : SigningGraph} {root : String}

/-- What was signed by `root`, directly or through others. -/
def Below (g : SigningGraph) (root name : String) : Prop :=
  Relation.TransGen (fun parent name => name ∈ g.childrenOf parent) root name

theorem mem_nextLevel {level : List String} {name : String} :
    name ∈ g.nextLevel level ↔ ∃ parent ∈ level, name ∈ g.childrenOf parent := by
  rw [nextLevel, sorted, (List.mergeSort_perm _ _).mem_iff, List.mem_flatMap]

theorem mem_nextLevel_singleton {name : String} :
    name ∈ g.nextLevel [root] ↔ name ∈ g.childrenOf root := by
  simp [mem_nextLevel]

theorem levelsFrom_closed {visited level names : List String}
    {hlevel : ∀ name ∈ level, name ∈ g.names}
    (h : g.levelsFrom root visited level hlevel = .ok names) :
    (∀ name ∈ level, name ∈ names) ∧
      ∀ parent ∈ names, ∀ name ∈ g.childrenOf parent, name ∈ names := by
  induction visited, level, hlevel using levelsFrom.induct g root generalizing names with
  | case1 visited hlevel =>
    rw [levelsFrom] at h
    cases h
    simp
  | case2 visited first rest hlevel fault hvisit =>
    rw [levelsFrom_cons, hvisit] at h
    cases h
  | case3 visited first rest hlevel keys hvisit _ ih =>
    rw [levelsFrom_cons, hvisit] at h
    obtain ⟨below, hbelow, rfl⟩ := Except.map_eq_ok.1 h
    obtain ⟨hnext, hclosed⟩ := ih hbelow
    refine ⟨fun name hname => List.mem_append_left _ hname, ?_⟩
    intro parent hparent name hname
    rcases List.mem_append.1 hparent with hparent | hparent
    · exact List.mem_append_right _ (hnext name (mem_nextLevel.2 ⟨parent, hparent, hname⟩))
    · exact List.mem_append_right _ (hclosed parent hparent name hname)

theorem levelsFrom_ordered {visited level names done rest : List String} {name : String}
    {hlevel : ∀ name ∈ level, name ∈ g.names}
    (h : g.levelsFrom root visited level hlevel = .ok names)
    (hnames : names = done ++ name :: rest) :
    name ∈ level ∨ ∃ parent ∈ done, name ∈ g.childrenOf parent := by
  induction visited, level, hlevel using levelsFrom.induct g root generalizing names done with
  | case1 visited hlevel =>
    rw [levelsFrom] at h
    cases h
    simp at hnames
  | case2 visited first others hlevel fault hvisit =>
    rw [levelsFrom_cons, hvisit] at h
    cases h
  | case3 visited first others hlevel keys hvisit _ ih =>
    rw [levelsFrom_cons, hvisit] at h
    obtain ⟨below, hbelow, rfl⟩ := Except.map_eq_ok.1 h
    have hsplit : ∀ later, below = later ++ name :: rest → done = first :: others ++ later →
        ∃ parent ∈ done, name ∈ g.childrenOf parent := by
      rintro later hlater rfl
      rcases ih hbelow hlater with hname | ⟨parent, hparent, hname⟩
      · obtain ⟨parent, hparent, hname⟩ := mem_nextLevel.1 hname
        exact ⟨parent, List.mem_append_left _ hparent, hname⟩
      · exact ⟨parent, List.mem_append_right _ hparent, hname⟩
    rcases List.append_eq_append_iff.1 hnames with ⟨later, hdone, hlater⟩ | ⟨others', hin, hout⟩
    · exact .inr (hsplit later hlater hdone)
    · cases others' with
      | nil => exact .inr (hsplit [] hout.symm (by simpa using hin.symm))
      | cons n ns =>
        obtain ⟨rfl, -⟩ := List.cons.inj hout
        exact .inl (hin ▸ List.mem_append_right _ List.mem_cons_self)

theorem descendants_eq_levelsFrom (h : g.hasNode root = true) :
    g.descendants root =
      g.levelsFrom root [Naming.key root] (g.nextLevel [root]) mem_names_of_mem_nextLevel :=
  if_pos h

theorem mem_descendants_iff {names : List String} (h : g.descendants root = .ok names)
    {name : String} : name ∈ names ↔ g.Below root name := by
  have hnode := (descendants_eq_ok h).1
  rw [descendants_eq_levelsFrom hnode] at h
  constructor
  · intro hname
    -- by induction on the names before it, one of which has signed it
    obtain ⟨done, rest, hnames⟩ := List.append_of_mem hname
    induction hlen : done.length using Nat.strong_induction_on generalizing name done rest with
    | _ n ih =>
      rcases levelsFrom_ordered h hnames with hlevel | ⟨parent, hparent, hchild⟩
      · exact .single (mem_nextLevel_singleton.1 hlevel)
      · obtain ⟨earlier, later, rfl⟩ := List.append_of_mem hparent
        have hshorter : earlier.length < n := by
          rw [← hlen, List.length_append]
          simp
        have habove := ih _ hshorter (hnames ▸ List.mem_append_left _ hparent) earlier
          (later ++ name :: rest) (by rw [hnames, List.append_assoc]; rfl) rfl
        exact .tail habove hchild
  · intro hbelow
    obtain ⟨hlevel, hclosed⟩ := levelsFrom_closed h
    induction hbelow with
    | single hchild => exact hlevel _ (mem_nextLevel_singleton.2 hchild)
    | tail _ hchild ih => exact hclosed _ ih _ hchild

theorem descendants_ordered {names done rest : List String} {name : String}
    (h : g.descendants root = .ok names) (hnames : names = done ++ name :: rest) :
    name ∈ g.childrenOf root ∨ ∃ parent ∈ done, name ∈ g.childrenOf parent := by
  have hnode := (descendants_eq_ok h).1
  rw [descendants_eq_levelsFrom hnode] at h
  exact (levelsFrom_ordered h hnames).imp_left mem_nextLevel_singleton.1

/-- Graphs in which no name, whatever its spelling, has two signers or stands twice under one. -/
structure IsForest (g : SigningGraph) : Prop where
  single : ∀ {parent other name twin}, name ∈ g.childrenOf parent → twin ∈ g.childrenOf other →
    Naming.key name = Naming.key twin → Naming.key parent = Naming.key other
  distinct : ∀ parent, ((g.childrenOf parent).map Naming.key).Nodup

theorem nodup_map_key_flatMap {α : Type*} {l : List α} (hl : l.Nodup) (f : α → List String) :
    ((l.flatMap f).map Naming.key).Nodup ↔
      (∀ a ∈ l, ((f a).map Naming.key).Nodup) ∧
        ∀ a ∈ l, ∀ b ∈ l, a ≠ b → ∀ name ∈ f a, ∀ twin ∈ f b,
          Naming.key name ≠ Naming.key twin := by
  rw [List.map_flatMap, List.nodup_flatMap]
  refine and_congr_right fun _ => ⟨fun hpairs a ha b hb hab name hname twin htwin heq => ?_,
    fun hapart => hl.pairwise_of_forall_ne fun a ha b hb hab key hkey hother => ?_⟩
  · have : Std.Symm (Function.onFun List.Disjoint fun a => (f a).map Naming.key) :=
      ⟨fun _ _ h => List.Disjoint.symm h⟩
    exact hpairs.forall ha hb hab (List.mem_map_of_mem hname) (heq ▸ List.mem_map_of_mem htwin)
  · obtain ⟨name, hname, rfl⟩ := List.mem_map.1 hkey
    obtain ⟨twin, htwin, heq⟩ := List.mem_map.1 hother
    exact hapart a ha b hb hab name hname twin htwin heq.symm

theorem nodup_map_key_nextLevel {level : List String} (hlevel : level.Nodup) :
    ((g.nextLevel level).map Naming.key).Nodup ↔
      (∀ parent ∈ level, ((g.childrenOf parent).map Naming.key).Nodup) ∧
        ∀ parent ∈ level, ∀ other ∈ level, parent ≠ other →
          ∀ name ∈ g.childrenOf parent, ∀ twin ∈ g.childrenOf other,
            Naming.key name ≠ Naming.key twin :=
  (((List.mergeSort_perm _ _).map _).nodup_iff).trans (nodup_map_key_flatMap hlevel _)

theorem IsForest.nodup_nextLevel (hg : g.IsForest) {level : List String}
    (h : (level.map Naming.key).Nodup) : ((g.nextLevel level).map Naming.key).Nodup := by
  refine (nodup_map_key_nextLevel h.of_map).2 ⟨fun parent _ => hg.distinct parent, ?_⟩
  intro parent hparent other hother hne name hname twin htwin heq
  exact hne (List.inj_on_of_nodup_map h hparent hother (hg.single hname htwin heq))

theorem mem_visited_of_visit_eq_error {visited level : List String} {fault : Fault}
    (hlevel : (level.map Naming.key).Nodup) (h : visit root visited level = .error fault) :
    ∃ name ∈ level, Naming.key name ∈ visited := by
  induction level generalizing visited with
  | nil => cases h
  | cons first rest ih =>
    obtain ⟨hfirst, hrest⟩ := List.nodup_cons.1 hlevel
    unfold visit at h
    split at h
    · rename_i hseen
      cases h
      exact ⟨first, List.mem_cons_self, hseen⟩
    · obtain ⟨name, hname, hseen⟩ := ih hrest h
      have hne : Naming.key name ≠ Naming.key first := fun he =>
        hfirst (he ▸ List.mem_map_of_mem hname)
      exact ⟨name, List.mem_cons_of_mem _ hname, List.mem_of_ne_of_mem hne hseen⟩

/-- Where a walk down from `root` stands: the level is signed by what was visited last, and what was
visited, `root` apart, by what had been visited before that. -/
structure WalkedTo (g : SigningGraph) (root : String) (before visited level : List String) :
    Prop where
  mono : before ⊆ visited
  distinct : (level.map Naming.key).Nodup
  next : ∀ name ∈ level, g.Below root name ∧ ∃ parent, name ∈ g.childrenOf parent ∧
    Naming.key parent ∈ visited ∧ Naming.key parent ∉ before
  past : ∀ key ∈ visited, key = Naming.key root ∨ ∃ name parent, Naming.key name = key ∧
    name ∈ g.childrenOf parent ∧ Naming.key parent ∈ before

theorem IsForest.walkedTo_start (hg : g.IsForest) (root : String) :
    WalkedTo g root [] [Naming.key root] (g.nextLevel [root]) where
  mono := List.nil_subset _
  distinct := hg.nodup_nextLevel (List.nodup_singleton _)
  next name hname := by
    have hchild := mem_nextLevel_singleton.1 hname
    exact ⟨.single hchild, root, hchild, List.mem_singleton_self _, List.not_mem_nil⟩
  past key hkey := .inl (List.mem_singleton.1 hkey)

variable {before visited level : List String}

theorem WalkedTo.step (hg : g.IsForest) (hwalk : WalkedTo g root before visited level)
    {keys : List String} (h : visit root visited level = .ok keys) :
    WalkedTo g root visited keys (g.nextLevel level) := by
  obtain ⟨rfl, hdistinct, hfresh⟩ := visit_eq_ok h
  constructor
  · exact List.subset_append_right _ _
  · exact hg.nodup_nextLevel hdistinct
  · intro name hname
    obtain ⟨parent, hparent, hchild⟩ := mem_nextLevel.1 hname
    have hseen : Naming.key parent ∈ (level.map Naming.key).reverse :=
      List.mem_reverse.2 (List.mem_map_of_mem hparent)
    exact ⟨.tail (hwalk.next parent hparent).1 hchild, parent, hchild,
      List.mem_append_left _ hseen, hfresh parent hparent⟩
  · intro key hkey
    rcases List.mem_append.1 hkey with hkey | hkey
    · obtain ⟨name, hname, rfl⟩ := List.mem_map.1 (List.mem_reverse.1 hkey)
      obtain ⟨-, parent, hchild, hparent, -⟩ := hwalk.next name hname
      exact .inr ⟨name, parent, rfl, hchild, hparent⟩
    · refine (hwalk.past key hkey).imp_right ?_
      rintro ⟨name, parent, hname, hchild, hparent⟩
      exact ⟨name, parent, hname, hchild, hwalk.mono hparent⟩

theorem WalkedTo.key_eq_root (hg : g.IsForest) (hwalk : WalkedTo g root before visited level)
    {name : String} (hname : name ∈ level) (hseen : Naming.key name ∈ visited) :
    Naming.key name = Naming.key root := by
  obtain ⟨-, parent, hchild, -, hparent⟩ := hwalk.next name hname
  rcases hwalk.past _ hseen with hroot | ⟨twin, other, htwin, hother, hbefore⟩
  · exact hroot
  · exact absurd (hg.single hother hchild htwin ▸ hbefore) hparent

theorem WalkedTo.revisits_root (hg : g.IsForest) (hwalk : WalkedTo g root before visited level)
    {hlevel : ∀ name ∈ level, name ∈ g.names} {fault : Fault}
    (h : g.levelsFrom root visited level hlevel = .error fault) :
    ∃ name, g.Below root name ∧ Naming.key name = Naming.key root := by
  induction visited, level, hlevel using levelsFrom.induct g root generalizing before with
  | case1 visited hlevel =>
    rw [levelsFrom] at h
    cases h
  | case2 visited first rest hlevel cause hvisit =>
    rw [levelsFrom_cons, hvisit] at h
    cases h
    obtain ⟨name, hname, hseen⟩ := mem_visited_of_visit_eq_error hwalk.distinct hvisit
    exact ⟨name, (hwalk.next name hname).1, hwalk.key_eq_root hg hname hseen⟩
  | case3 visited first rest hlevel keys hvisit _ ih =>
    rw [levelsFrom_cons, hvisit] at h
    exact ih (hwalk.step hg hvisit) (Except.map_eq_error.1 h)

theorem descendants_eq_error_of_hasNode (hroot : g.hasNode root = true) {fault : Fault}
    (h : g.descendants root = .error fault) :
    ∃ name, fault = .integrity (.revisited root name) := by
  rcases descendants_eq_error h with ⟨habsent, -⟩ | ⟨name, -, hname⟩
  · rw [hroot] at habsent
    cases habsent
  · exact ⟨name, hname⟩

theorem IsForest.descendants_eq_error_iff (hg : g.IsForest) (hroot : g.hasNode root = true) :
    (∃ fault, g.descendants root = .error fault) ↔
      ∃ name, g.Below root name ∧ Naming.key name = Naming.key root := by
  constructor
  · rintro ⟨fault, h⟩
    rw [descendants_eq_levelsFrom hroot] at h
    exact (hg.walkedTo_start root).revisits_root hg h
  · rintro ⟨name, hbelow, hkey⟩
    cases h : g.descendants root with
    | ok names =>
      have hapart := (descendants_eq_ok h).2.2.1
      exact absurd hkey (hapart name ((mem_descendants_iff h).2 hbelow))
    | error fault => exact ⟨fault, rfl⟩

end Strongroom.SigningGraph
