import Strongroom.Proofs.Except
import Strongroom.SigningGraph

/-! What lies below a signer: names of the graph that all have different keys, none of them the
signer's own. When there is no such order, the fault is one of integrity. -/

namespace Strongroom.SigningGraph

theorem visit_eq_ok {root : String} {visited level keys : List String}
    (h : visit root visited level = .ok keys) :
    keys = (level.map Naming.key).reverse ++ visited ∧ (level.map Naming.key).Nodup ∧
      ∀ name ∈ level, Naming.key name ∉ visited := by
  induction level generalizing visited with
  | nil =>
    cases h
    simp
  | cons name rest ih =>
    unfold visit at h
    split at h
    · cases h
    · rename_i hnew
      obtain ⟨rfl, hnodup, hfresh⟩ := ih h
      refine ⟨by simp, ?_, ?_⟩
      · rw [List.map_cons, List.nodup_cons]
        refine ⟨fun hmem => ?_, hnodup⟩
        obtain ⟨other, hother, hkey⟩ := List.mem_map.1 hmem
        exact hfresh other hother (hkey ▸ List.mem_cons_self)
      · intro other hother
        rcases List.mem_cons.1 hother with rfl | hother
        · exact hnew
        · exact fun hmem => hfresh other hother (List.mem_cons_of_mem _ hmem)

theorem visit_eq_error {root : String} {visited level : List String} {fault : Fault}
    (h : visit root visited level = .error fault) :
    ∃ name ∈ level, fault = .integrity (.revisited root name) := by
  induction level generalizing visited with
  | nil => cases h
  | cons name rest ih =>
    unfold visit at h
    split at h
    · cases h
      exact ⟨name, List.mem_cons_self, rfl⟩
    · obtain ⟨other, hother, rfl⟩ := ih h
      exact ⟨other, List.mem_cons_of_mem _ hother, rfl⟩

variable {g : SigningGraph}

theorem levelsFrom_cons (root : String) (visited : List String) (name : String)
    (rest : List String) (hlevel : ∀ n ∈ name :: rest, n ∈ g.names) :
    g.levelsFrom root visited (name :: rest) hlevel =
      (visit root visited (name :: rest)).bind fun keys =>
        (g.levelsFrom root keys (g.nextLevel (name :: rest)) mem_names_of_mem_nextLevel).map
          (name :: rest ++ ·) := by
  rw [levelsFrom]
  split <;> rename_i h <;> rw [h] <;> rfl

theorem levelsFrom_eq_ok {root : String} {visited level names : List String}
    {hlevel : ∀ name ∈ level, name ∈ g.names}
    (h : g.levelsFrom root visited level hlevel = .ok names) :
    (names.map Naming.key).Nodup ∧ (∀ name ∈ names, Naming.key name ∉ visited) ∧
      ∀ name ∈ names, name ∈ g.names := by
  induction visited, level, hlevel using levelsFrom.induct g root generalizing names with
  | case1 visited hlevel =>
    rw [levelsFrom] at h
    cases h
    simp
  | case2 visited name rest hlevel fault hvisit =>
    rw [levelsFrom_cons, hvisit] at h
    cases h
  | case3 visited name rest hlevel keys hvisit _ ih =>
    rw [levelsFrom_cons, hvisit] at h
    obtain ⟨below, hbelow, rfl⟩ := Except.map_eq_ok.1 h
    obtain ⟨hnodup, hfresh, hmem⟩ := ih hbelow
    obtain ⟨rfl, hlevelNodup, hlevelFresh⟩ := visit_eq_ok hvisit
    refine ⟨?_, ?_, ?_⟩
    · rw [List.map_append, List.nodup_append]
      refine ⟨hlevelNodup, hnodup, fun key hkey other hother he => ?_⟩
      subst he
      obtain ⟨n, hn, rfl⟩ := List.mem_map.1 hother
      exact hfresh n hn (List.mem_append_left _ (List.mem_reverse.2 hkey))
    · intro n hn
      rcases List.mem_append.1 hn with hn | hn
      · exact hlevelFresh n hn
      · exact fun hv => hfresh n hn (List.mem_append_right _ hv)
    · intro n hn
      rcases List.mem_append.1 hn with hn | hn
      · exact hlevel n hn
      · exact hmem n hn

theorem levelsFrom_eq_error {root : String} {visited level : List String} {fault : Fault}
    {hlevel : ∀ name ∈ level, name ∈ g.names}
    (h : g.levelsFrom root visited level hlevel = .error fault) :
    ∃ name ∈ g.names, fault = .integrity (.revisited root name) := by
  induction visited, level, hlevel using levelsFrom.induct g root with
  | case1 visited hlevel =>
    rw [levelsFrom] at h
    cases h
  | case2 visited name rest hlevel fault hvisit =>
    rw [levelsFrom_cons, hvisit] at h
    cases h
    obtain ⟨n, hn, hfault⟩ := visit_eq_error hvisit
    exact ⟨n, hlevel n hn, hfault⟩
  | case3 visited name rest hlevel keys hvisit _ ih =>
    rw [levelsFrom_cons, hvisit] at h
    exact ih (Except.map_eq_error.1 h)

theorem descendants_eq_ok {root : String} {names : List String}
    (h : g.descendants root = .ok names) :
    g.hasNode root ∧ (names.map Naming.key).Nodup ∧
      (∀ name ∈ names, Naming.key name ≠ Naming.key root) ∧ ∀ name ∈ names, name ∈ g.names := by
  unfold descendants at h
  split at h
  · rename_i hnode
    obtain ⟨hnodup, hfresh, hmem⟩ := levelsFrom_eq_ok h
    exact ⟨hnode, hnodup, fun n hn he => hfresh n hn (he ▸ List.mem_cons_self), hmem⟩
  · cases h

theorem descendants_eq_error {root : String} {fault : Fault}
    (h : g.descendants root = .error fault) :
    (g.hasNode root = false ∧ fault = .integrity (.missingSigner root)) ∨
      ∃ name ∈ g.names, fault = .integrity (.revisited root name) := by
  unfold descendants at h
  split at h
  · exact .inr (levelsFrom_eq_error h)
  · rename_i hnode
    cases h
    exact .inl ⟨by simpa using hnode, rfl⟩

end Strongroom.SigningGraph
