import Strongroom.Store.Data

/-!
Graphs of who signed whom, and the order in which what lies below a signer is to be renewed: level
by level, each level sorted, so that a signer comes before what it signed. A name that is met a
second time, whatever its spelling, is a fault.
-/

namespace Strongroom

structure SigningGraph where
  names : List String
  hasNode : String → Bool
  childrenOf : String → List String
  mem_names : ∀ {parent name : String}, name ∈ childrenOf parent → name ∈ names

namespace SigningGraph

def sorted (names : List String) : List String := names.mergeSort (· ≤ ·)

def visit (root : String) : (visited : List String) → List String → Except Fault (List String)
  | visited, [] => .ok visited
  | visited, name :: rest =>
    if Naming.key name ∈ visited then .error (.integrity (.revisited root name))
    else visit root (Naming.key name :: visited) rest

def nextLevel (g : SigningGraph) (level : List String) : List String :=
  sorted (level.flatMap g.childrenOf)

def unvisited (g : SigningGraph) (visited : List String) : List String :=
  g.names.filter fun name => Naming.key name ∉ visited

theorem mem_names_of_mem_nextLevel {g : SigningGraph} {level : List String} :
    ∀ name ∈ g.nextLevel level, name ∈ g.names := by
  intro name h
  have h := (List.mergeSort_perm _ _).mem_iff.1 h
  obtain ⟨parent, _, h⟩ := List.mem_flatMap.1 h
  exact g.mem_names h

theorem mem_of_visit_eq_ok {root : String} {visited level keys : List String}
    (h : visit root visited level = .ok keys) :
    (∀ k ∈ visited, k ∈ keys) ∧ ∀ name ∈ level, Naming.key name ∈ keys := by
  induction level generalizing visited with
  | nil => simp_all [visit]
  | cons name rest ih =>
    unfold visit at h
    split at h
    · cases h
    · have ⟨hv, hr⟩ := ih h
      refine ⟨fun k hk => hv k (List.mem_cons_of_mem _ hk), fun n hn => ?_⟩
      rcases List.mem_cons.1 hn with rfl | hn
      · exact hv _ List.mem_cons_self
      · exact hr n hn

theorem head_not_mem_of_visit_eq_ok {root name : String} {visited rest keys : List String}
    (h : visit root visited (name :: rest) = .ok keys) : Naming.key name ∉ visited := by
  unfold visit at h
  split at h
  · cases h
  · assumption

theorem unvisited_length_lt {g : SigningGraph} {root name : String}
    {visited rest keys : List String} (hname : name ∈ g.names)
    (h : visit root visited (name :: rest) = .ok keys) :
    (g.unvisited keys).length < (g.unvisited visited).length := by
  have ⟨hv, hl⟩ := mem_of_visit_eq_ok h
  have hsub : g.unvisited keys = (g.unvisited visited).filter fun n => Naming.key n ∉ keys := by
    unfold unvisited
    rw [List.filter_filter]
    congr 1
    funext n
    by_cases hn : Naming.key n ∈ visited
    · simp [hn, hv _ hn]
    · simp [hn]
  rw [hsub]
  refine List.length_filter_lt_length_iff_exists.2 ⟨name, ?_, ?_⟩
  · exact List.mem_filter.2 ⟨hname, by simpa using head_not_mem_of_visit_eq_ok h⟩
  · simpa using hl name List.mem_cons_self

def levelsFrom (g : SigningGraph) (root : String) (visited level : List String)
    (hlevel : ∀ name ∈ level, name ∈ g.names) : Except Fault (List String) :=
  match level with
  | [] => .ok []
  | name :: rest =>
    match _h : visit root visited (name :: rest) with
    | .error fault => .error fault
    | .ok keys =>
      (levelsFrom g root keys (g.nextLevel (name :: rest)) mem_names_of_mem_nextLevel).map
        (name :: rest ++ ·)
termination_by (g.unvisited visited).length
decreasing_by exact unvisited_length_lt (hlevel name List.mem_cons_self) _h

/-- Everything signed by `root`, directly or through others, in the order of renewal. -/
def descendants (g : SigningGraph) (root : String) : Except Fault (List String) :=
  if g.hasNode root then
    g.levelsFrom root [Naming.key root] (g.nextLevel [root]) mem_names_of_mem_nextLevel
  else .error (.integrity (.missingSigner root))

end SigningGraph

def SigningGraph.ofEdges (nodes : List String) (edges : List (String × String)) : SigningGraph where
  names := edges.map (·.2)
  hasNode := nodes.contains
  childrenOf parent := (edges.filter (·.1 = parent)).map (·.2)
  mem_names := by
    intro parent name h
    obtain ⟨e, he, rfl⟩ := List.mem_map.1 h
    exact List.mem_map_of_mem (List.mem_filter.1 he).1

def StoreData.signingGraph (d : StoreData) : SigningGraph where
  names := d.credentials.values.map (·.name)
  hasNode := d.contains
  childrenOf := d.signedBy
  mem_names := by
    intro parent name h
    obtain ⟨c, hc, rfl⟩ := List.mem_map.1 h
    exact List.mem_map_of_mem (List.mem_filter.1 hc).1

end Strongroom
