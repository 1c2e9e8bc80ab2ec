import Strongroom.Proofs.ByteOrder
import Strongroom.Proofs.Closure

/-! The order below a signer exists exactly when no two walks down from it end under one key, and it
is then made of the levels of those walks, each sorted by the octets of its names. It is found in no
more rounds than the graph has names, one more at most for what is met again. -/

namespace Strongroom.SigningGraph

variable {g : SigningGraph} {root : String}

def sortedByOctets (names : List String) : List String :=
  names.mergeSort fun a b => decide (Octets.ofText a ≤ Octets.ofText b)

theorem sortedByOctets_eq_sorted (names : List String) : sortedByOctets names = sorted names := by
  simp only [sortedByOctets, sorted, Octets.ofText_le_ofText_iff]

def levelAt (g : SigningGraph) (root : String) : Nat → List String
  | 0 => [root]
  | depth + 1 => sortedByOctets ((g.levelAt root depth).flatMap g.childrenOf)

theorem levelAt_succ (depth : Nat) :
    g.levelAt root (depth + 1) = g.nextLevel (g.levelAt root depth) :=
  sortedByOctets_eq_sorted _

/-- Where a walk down from `root` ends. A step is the place of a child, and the last step stands
first. -/
def walk? (g : SigningGraph) (root : String) : List Nat → Option String
  | [] => some root
  | place :: before => (g.walk? root before).bind fun parent => (g.childrenOf parent)[place]?

theorem walk?_cons_eq_some {place : Nat} {before : List Nat} {name : String} :
    g.walk? root (place :: before) = some name ↔
      ∃ parent, g.walk? root before = some parent ∧
        (g.childrenOf parent)[place]? = some name := by
  rw [walk?, Option.bind_eq_some_iff]

theorem exists_walk_of_mem_childrenOf {before : List Nat} {parent name : String}
    (hbefore : g.walk? root before = some parent) (hname : name ∈ g.childrenOf parent) :
    ∃ place, g.walk? root (place :: before) = some name := by
  obtain ⟨place, hplace⟩ := List.mem_iff_getElem?.1 hname
  exact ⟨place, walk?_cons_eq_some.2 ⟨parent, hbefore, hplace⟩⟩

theorem mem_levelAt {depth : Nat} {name : String} :
    name ∈ g.levelAt root depth ↔ ∃ walk, walk.length = depth ∧ g.walk? root walk = some name := by
  induction depth generalizing name with
  | zero => simp [levelAt, walk?, eq_comm]
  | succ depth ih =>
    rw [levelAt_succ, mem_nextLevel]
    constructor
    · rintro ⟨parent, hparent, hname⟩
      obtain ⟨before, rfl, hbefore⟩ := ih.1 hparent
      obtain ⟨place, hwalk⟩ := exists_walk_of_mem_childrenOf hbefore hname
      exact ⟨place :: before, rfl, hwalk⟩
    · rintro ⟨_ | ⟨place, before⟩, hlength, hwalk⟩
      · cases hlength
      · obtain ⟨parent, hbefore, hplace⟩ := walk?_cons_eq_some.1 hwalk
        exact ⟨parent, ih.2 ⟨before, Nat.succ.inj hlength, hbefore⟩, List.mem_of_getElem? hplace⟩

theorem Below.exists_walk {name : String} (h : g.Below root name) :
    ∃ walk, g.walk? root walk = some name := by
  induction h with
  | single hchild =>
    have hstart : g.walk? root [] = some root := rfl
    obtain ⟨place, hwalk⟩ := exists_walk_of_mem_childrenOf hstart hchild
    exact ⟨_, hwalk⟩
  | tail _ hchild ih =>
    obtain ⟨before, hbefore⟩ := ih
    obtain ⟨place, hwalk⟩ := exists_walk_of_mem_childrenOf hbefore hchild
    exact ⟨_, hwalk⟩

/-- No two walks down from `root` end in names with one key, the walk of no steps included. -/
def Unambiguous (g : SigningGraph) (root : String) : Prop :=
  ∀ walk other name twin, g.walk? root walk = some name → g.walk? root other = some twin →
    Naming.key name = Naming.key twin → walk = other

theorem Unambiguous.parent_eq (h : g.Unambiguous root) {before before' : List Nat}
    {parent other name twin : String} (hparent : g.walk? root before = some parent)
    (hother : g.walk? root before' = some other) (hname : name ∈ g.childrenOf parent)
    (htwin : twin ∈ g.childrenOf other) (hkey : Naming.key name = Naming.key twin) :
    parent = other := by
  obtain ⟨place, hwalk⟩ := exists_walk_of_mem_childrenOf hparent hname
  obtain ⟨place', hwalk'⟩ := exists_walk_of_mem_childrenOf hother htwin
  obtain ⟨-, rfl⟩ := List.cons.inj (h _ _ _ _ hwalk hwalk' hkey)
  exact Option.some.inj (hparent.symm.trans hother)

theorem Unambiguous.nodup_levelAt (h : g.Unambiguous root) (depth : Nat) :
    ((g.levelAt root depth).map Naming.key).Nodup := by
  induction depth with
  | zero => exact List.nodup_singleton _
  | succ depth ih =>
    rw [levelAt_succ, nodup_map_key_nextLevel ih.of_map]
    constructor
    · intro parent hparent
      obtain ⟨before, -, hbefore⟩ := mem_levelAt.1 hparent
      refine List.nodup_iff_getElem?_ne_getElem?.2 fun i j hij hj heq => ?_
      rw [List.length_map] at hj
      have hi := hij.trans hj
      rw [List.getElem?_map, List.getElem?_map, List.getElem?_eq_getElem hi,
        List.getElem?_eq_getElem hj] at heq
      have hsame := h (i :: before) (j :: before) _ _
        (walk?_cons_eq_some.2 ⟨parent, hbefore, List.getElem?_eq_getElem hi⟩)
        (walk?_cons_eq_some.2 ⟨parent, hbefore, List.getElem?_eq_getElem hj⟩)
        (Option.some.inj heq)
      exact absurd (List.cons.inj hsame).1 (Nat.ne_of_lt hij)
    · intro parent hparent other hother hne name hname twin htwin heq
      obtain ⟨before, -, hbefore⟩ := mem_levelAt.1 hparent
      obtain ⟨before', -, hbefore'⟩ := mem_levelAt.1 hother
      exact hne (h.parent_eq hbefore hbefore' hname htwin heq)

theorem walk_eq_of_nodup_levelAt (h : ∀ depth, ((g.levelAt root depth).map Naming.key).Nodup)
    {walk other : List Nat} {name twin : String} (hlength : walk.length = other.length)
    (hname : g.walk? root walk = some name) (htwin : g.walk? root other = some twin)
    (hkey : Naming.key name = Naming.key twin) : walk = other := by
  induction walk generalizing other name twin with
  | nil => exact (List.eq_nil_of_length_eq_zero hlength.symm).symm
  | cons place before ih =>
    obtain _ | ⟨place', before'⟩ := other
    · cases hlength
    have hbefores : before.length = before'.length := Nat.succ.inj hlength
    obtain ⟨parent, hparent, hplace⟩ := walk?_cons_eq_some.1 hname
    obtain ⟨parent', hparent', hplace'⟩ := walk?_cons_eq_some.1 htwin
    have hmem := mem_levelAt.2 ⟨before, rfl, hparent⟩
    have hmem' := mem_levelAt.2 ⟨before', hbefores.symm, hparent'⟩
    have hnext := h (before.length + 1)
    rw [levelAt_succ, nodup_map_key_nextLevel (h _).of_map] at hnext
    obtain ⟨hwithin, hacross⟩ := hnext
    by_cases hparents : parent = parent'
    · subst hparents
      obtain rfl := ih hbefores hparent hparent' rfl
      have hplaces : ((g.childrenOf parent).map Naming.key)[place]? =
          ((g.childrenOf parent).map Naming.key)[place']? := by
        rw [List.getElem?_map, List.getElem?_map, hplace, hplace', Option.map_some,
          Option.map_some, hkey]
      have hlt : place < ((g.childrenOf parent).map Naming.key).length := by
        rw [List.length_map]
        exact (List.getElem?_eq_some_iff.1 hplace).1
      rw [(List.getElem?_inj hlt (hwithin parent hmem)).1 hplaces]
    · exact absurd hkey (hacross parent hmem parent' hmem' hparents name
        (List.mem_of_getElem? hplace) twin (List.mem_of_getElem? hplace'))

def levelsAbove (g : SigningGraph) (root : String) (depth : Nat) : List String :=
  (List.range depth).flatMap (g.levelAt root)

theorem levelsAbove_succ (depth : Nat) :
    g.levelsAbove root (depth + 1) = g.levelsAbove root depth ++ g.levelAt root depth := by
  simp [levelsAbove, List.range_succ]

theorem unambiguous_iff_nodup_levelsAbove :
    g.Unambiguous root ↔ ∀ depth, ((g.levelsAbove root depth).map Naming.key).Nodup := by
  constructor
  · intro h depth
    rw [levelsAbove, nodup_map_key_flatMap List.nodup_range]
    refine ⟨fun i _ => h.nodup_levelAt i, fun i _ j _ hij name hname twin htwin heq => hij ?_⟩
    obtain ⟨walk, rfl, hwalk⟩ := mem_levelAt.1 hname
    obtain ⟨other, rfl, hother⟩ := mem_levelAt.1 htwin
    rw [h _ _ _ _ hwalk hother heq]
  · intro h walk other name twin hwalk hother heq
    have hlevels : ∀ depth, ((g.levelAt root depth).map Naming.key).Nodup := fun depth => by
      have hnodup := h (depth + 1)
      rw [levelsAbove_succ, List.map_append] at hnodup
      exact (List.nodup_append.1 hnodup).2.1
    refine walk_eq_of_nodup_levelAt hlevels ?_ hwalk hother heq
    by_contra hne
    have hnodup := h (max walk.length other.length + 1)
    rw [levelsAbove, nodup_map_key_flatMap List.nodup_range] at hnodup
    exact hnodup.2 _ (List.mem_range.2 (by omega)) _ (List.mem_range.2 (by omega)) hne
      name (mem_levelAt.2 ⟨walk, rfl, hwalk⟩) twin (mem_levelAt.2 ⟨other, rfl, hother⟩) heq

theorem levelsAbove_sublist {depth last : Nat} (h : depth ≤ last) :
    (g.levelsAbove root depth).Sublist (g.levelsAbove root last) := by
  induction last, h using Nat.le_induction with
  | base => exact List.Sublist.refl _
  | succ last _ ih =>
    rw [levelsAbove_succ]
    exact ih.trans (List.sublist_append_left _ _)

theorem levelAt_eq_nil {last depth : Nat} (hlast : g.levelAt root last = []) (h : last ≤ depth) :
    g.levelAt root depth = [] := by
  induction depth, h using Nat.le_induction with
  | base => exact hlast
  | succ depth _ ih =>
    rw [levelAt_succ, ih]
    exact List.mergeSort_nil

theorem levelsAbove_eq {last depth : Nat} (hlast : g.levelAt root last = []) (h : last ≤ depth) :
    g.levelsAbove root depth = g.levelsAbove root last := by
  induction depth, h using Nat.le_induction with
  | base => rfl
  | succ depth hle ih => rw [levelsAbove_succ, levelAt_eq_nil hlast hle, List.append_nil, ih]

theorem unambiguous_of_levelAt_eq_nil {last : Nat} (hlast : g.levelAt root last = [])
    (hnodup : ((g.levelsAbove root last).map Naming.key).Nodup) : g.Unambiguous root := by
  refine unambiguous_iff_nodup_levelsAbove.2 fun depth => ?_
  rcases Nat.le_total depth last with hle | hle
  · exact hnodup.sublist ((levelsAbove_sublist hle).map _)
  · rwa [levelsAbove_eq hlast hle]

/-- Where the walk down stands: it has met all names above a depth, under keys that differ, and
turns to those that stand there. -/
structure HasReached (g : SigningGraph) (root : String) (depth : Nat)
    (visited level : List String) : Prop where
  level_eq : level = g.levelAt root depth
  mem_visited : ∀ key, key ∈ visited ↔ key ∈ (g.levelsAbove root depth).map Naming.key
  nodup : ((g.levelsAbove root depth).map Naming.key).Nodup

theorem hasReached_start (g : SigningGraph) (root : String) :
    g.HasReached root 1 [Naming.key root] (g.nextLevel [root]) where
  level_eq := (levelAt_succ 0).symm
  mem_visited key := by simp [levelsAbove, levelAt]
  nodup := List.nodup_singleton _

variable {depth : Nat} {visited level : List String}

theorem HasReached.step (h : g.HasReached root depth visited level) {keys : List String}
    (hvisit : visit root visited level = .ok keys) :
    g.HasReached root (depth + 1) keys (g.nextLevel level) := by
  obtain ⟨rfl, hnodup, hfresh⟩ := visit_eq_ok hvisit
  have hlevel := h.level_eq
  subst hlevel
  refine ⟨(levelAt_succ depth).symm, fun key => ?_, ?_⟩
  · rw [levelsAbove_succ, List.map_append, List.mem_append, List.mem_append, List.mem_reverse,
      h.mem_visited, or_comm]
  · rw [levelsAbove_succ, List.map_append, List.nodup_append]
    refine ⟨h.nodup, hnodup, fun key hkey other hother heq => ?_⟩
    obtain ⟨name, hname, rfl⟩ := List.mem_map.1 hother
    exact hfresh name hname ((h.mem_visited _).2 (heq ▸ hkey))

theorem HasReached.levels_of_ok (h : g.HasReached root depth visited level)
    {hlevel : ∀ name ∈ level, name ∈ g.names} {order : List String}
    (horder : g.levelsFrom root visited level hlevel = .ok order) :
    ∃ last, depth ≤ last ∧ g.levelAt root last = [] ∧
      g.levelsAbove root last = g.levelsAbove root depth ++ order ∧
      ((g.levelsAbove root last).map Naming.key).Nodup := by
  induction visited, level, hlevel using levelsFrom.induct g root generalizing depth order with
  | case1 visited hlevel =>
    rw [levelsFrom] at horder
    cases horder
    exact ⟨depth, le_rfl, h.level_eq.symm, (List.append_nil _).symm, h.nodup⟩
  | case2 visited first rest hlevel fault hvisit =>
    rw [levelsFrom_cons, hvisit] at horder
    cases horder
  | case3 visited first rest hlevel keys hvisit _ ih =>
    rw [levelsFrom_cons, hvisit] at horder
    obtain ⟨below, hbelow, rfl⟩ := Except.map_eq_ok.1 horder
    obtain ⟨last, hle, hempty, hlevels, hnodup⟩ := ih (h.step hvisit) hbelow
    refine ⟨last, Nat.le_of_succ_le hle, hempty, ?_, hnodup⟩
    rw [hlevels, levelsAbove_succ, ← h.level_eq, List.append_assoc]

theorem HasReached.not_nodup_of_error (h : g.HasReached root depth visited level)
    {hlevel : ∀ name ∈ level, name ∈ g.names} {fault : Fault}
    (hfault : g.levelsFrom root visited level hlevel = .error fault) :
    ∃ last, ¬((g.levelsAbove root last).map Naming.key).Nodup := by
  induction visited, level, hlevel using levelsFrom.induct g root generalizing depth with
  | case1 visited hlevel =>
    rw [levelsFrom] at hfault
    cases hfault
  | case2 visited first rest hlevel cause hvisit =>
    refine ⟨depth + 1, fun hnodup => ?_⟩
    rw [levelsAbove_succ, ← h.level_eq, List.map_append, List.nodup_append] at hnodup
    obtain ⟨name, hname, hseen⟩ := mem_visited_of_visit_eq_error hnodup.2.1 hvisit
    exact hnodup.2.2 _ ((h.mem_visited _).1 hseen) _ (List.mem_map_of_mem hname) rfl
  | case3 visited first rest hlevel keys hvisit _ ih =>
    rw [levelsFrom_cons, hvisit] at hfault
    exact ih (h.step hvisit) (Except.map_eq_error.1 hfault)

/-- The order of renewal below `root`: its levels one after the other, each sorted by octets, with
what can be reached from it and nothing twice, and each name after the one that signed it. -/
structure IsOrder (g : SigningGraph) (root : String) (order : List String) : Prop where
  levels : ∃ depth, order = (List.range depth).flatMap (fun i => g.levelAt root (i + 1)) ∧
    ∀ i ≥ depth, g.levelAt root (i + 1) = []
  reached : ∀ name, name ∈ order ↔ g.Below root name
  nodup : order.Nodup
  apart : root ∉ order
  after : ∀ done name rest, order = done ++ name :: rest →
    (∃ parent ∈ root :: done, name ∈ g.childrenOf parent) ∧
      ∀ parent ∈ order, name ∈ g.childrenOf parent → parent ∈ done

theorem Unambiguous.mem_done (h : g.Unambiguous root) {done : List String} {name : String}
    (hreached : ∀ parent ∈ done, g.Below root parent)
    (hordered : ∃ parent ∈ root :: done, name ∈ g.childrenOf parent) {parent : String}
    (hparent : g.Below root parent) (hapart : parent ≠ root)
    (hchild : name ∈ g.childrenOf parent) : parent ∈ done := by
  obtain ⟨signer, hsigner, hname⟩ := hordered
  have hwalk : ∃ walk, g.walk? root walk = some signer := by
    rcases List.mem_cons.1 hsigner with rfl | hsigner
    · exact ⟨[], rfl⟩
    · exact (hreached signer hsigner).exists_walk
  obtain ⟨walk, hwalk⟩ := hwalk
  obtain ⟨other, hother⟩ := hparent.exists_walk
  obtain rfl := h.parent_eq hother hwalk hchild hname rfl
  exact (List.mem_cons.1 hsigner).resolve_left hapart

theorem isOrder_of_descendants_eq_ok {order : List String}
    (h : g.descendants root = .ok order) : g.Unambiguous root ∧ g.IsOrder root order := by
  obtain ⟨hnode, hdistinct, hapart, -⟩ := descendants_eq_ok h
  have hwalked := h
  rw [descendants_eq_levelsFrom hnode] at hwalked
  obtain ⟨last, hle, hlast, hlevels, hnodup⟩ := (hasReached_start g root).levels_of_ok hwalked
  obtain ⟨depth, rfl⟩ := Nat.exists_eq_add_of_le' hle
  have hwalks := unambiguous_of_levelAt_eq_nil hlast hnodup
  have hroot : root ∉ order := fun hroot => hapart root hroot rfl
  have hreached : ∀ name, name ∈ order ↔ g.Below root name := fun _ => mem_descendants_iff h
  refine ⟨hwalks, ⟨depth, ?_, fun i hi => levelAt_eq_nil hlast (Nat.succ_le_succ hi)⟩,
    hreached, hdistinct.of_map, hroot, ?_⟩
  · -- the first of the levels is the root itself
    rw [levelsAbove, List.range_succ_eq_map, List.flatMap_cons, List.flatMap_map] at hlevels
    exact (List.cons.inj hlevels).2.symm
  · intro done name rest hsplit
    have hordered : ∃ parent ∈ root :: done, name ∈ g.childrenOf parent := by
      rcases descendants_ordered h hsplit with hname | ⟨parent, hparent, hname⟩
      · exact ⟨root, List.mem_cons_self, hname⟩
      · exact ⟨parent, List.mem_cons_of_mem _ hparent, hname⟩
    refine ⟨hordered, fun parent hparent hname => ?_⟩
    have hdone : ∀ parent ∈ done, g.Below root parent := fun parent hmem =>
      (hreached parent).1 (hsplit ▸ List.mem_append_left _ hmem)
    exact hwalks.mem_done hdone hordered ((hreached parent).1 hparent)
      (fun heq => hroot (heq ▸ hparent)) hname

theorem not_unambiguous_of_descendants_eq_error {fault : Fault}
    (h : g.descendants root = .error fault) :
    ¬(g.hasNode root = true ∧ g.Unambiguous root) := by
  rintro ⟨hnode, hwalks⟩
  rw [descendants_eq_levelsFrom hnode] at h
  obtain ⟨last, htwice⟩ := (hasReached_start g root).not_nodup_of_error h
  exact htwice (unambiguous_iff_nodup_levelsAbove.1 hwalks last)

def levelsWithin (g : SigningGraph) (root : String) :
    Nat → List String → List String → Option (Except Fault (List String))
  | _, _, [] => some (.ok [])
  | 0, _, _ :: _ => none
  | rounds + 1, visited, name :: rest =>
    match visit root visited (name :: rest) with
    | .error fault => some (.error fault)
    | .ok keys =>
      (g.levelsWithin root rounds keys (g.nextLevel (name :: rest))).map
        (·.map (name :: rest ++ ·))

theorem levelsWithin_eq_levelsFrom {rounds : Nat} {hlevel : ∀ name ∈ level, name ∈ g.names}
    (hrounds : (g.unvisited visited).length < rounds) :
    g.levelsWithin root rounds visited level = some (g.levelsFrom root visited level hlevel) := by
  induction visited, level, hlevel using levelsFrom.induct g root generalizing rounds with
  | case1 visited hlevel => rw [levelsFrom, levelsWithin]
  | case2 visited first rest hlevel fault hvisit =>
    obtain ⟨rounds, rfl⟩ := Nat.exists_eq_succ_of_ne_zero (Nat.ne_zero_of_lt hrounds)
    rw [levelsFrom_cons, levelsWithin, hvisit]
    rfl
  | case3 visited first rest hlevel keys hvisit _ ih =>
    obtain ⟨rounds, rfl⟩ := Nat.exists_eq_succ_of_ne_zero (Nat.ne_zero_of_lt hrounds)
    have hfewer := unvisited_length_lt (hlevel first List.mem_cons_self) hvisit
    rw [levelsFrom_cons, levelsWithin, hvisit]
    dsimp only
    rw [ih (by omega)]
    rfl

def descendantsWithin (g : SigningGraph) (rounds : Nat) (root : String) :
    Option (Except Fault (List String)) :=
  if g.hasNode root then g.levelsWithin root rounds [Naming.key root] (g.nextLevel [root])
  else some (.error (.integrity (.missingSigner root)))

theorem descendantsWithin_eq_descendants (g : SigningGraph) (root : String) :
    g.descendantsWithin (g.names.length + 1) root = some (g.descendants root) := by
  unfold descendantsWithin descendants
  split
  · exact levelsWithin_eq_levelsFrom (Nat.lt_succ_of_le (List.length_filter_le _ _))
  · rfl

/-- What is to be answered of a root: an order when it is there and no two walks down from it meet,
and otherwise a fault of integrity. -/
inductive Resolves (g : SigningGraph) (root : String) : Except Fault (List String) → Prop
  | ok {order} (hnode : g.hasNode root = true) (hwalks : g.Unambiguous root)
      (horder : g.IsOrder root order) : Resolves g root (.ok order)
  | error {breach} (h : ¬(g.hasNode root = true ∧ g.Unambiguous root)) :
      Resolves g root (.error (.integrity breach))

/-- The order is found where there is one, and a fault of integrity where there is none, in no more
rounds than the graph has names and one. -/
theorem descendants_resolves (g : SigningGraph) (root : String) :
    g.Resolves root (g.descendants root) ∧
      g.descendantsWithin (g.names.length + 1) root = some (g.descendants root) := by
  refine ⟨?_, descendantsWithin_eq_descendants g root⟩
  cases h : g.descendants root with
  | ok order =>
    obtain ⟨hwalks, horder⟩ := isOrder_of_descendants_eq_ok h
    exact .ok (descendants_eq_ok h).1 hwalks horder
  | error fault =>
    have hnone := not_unambiguous_of_descendants_eq_error h
    rcases descendants_eq_error h with ⟨-, rfl⟩ | ⟨name, -, rfl⟩
    · exact .error hnone
    · exact .error hnone

end Strongroom.SigningGraph
