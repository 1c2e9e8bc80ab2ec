import Strongroom.Proofs.Folders

/-! What a search finds is decided by what the actor may read. Everything found has a place in the
order of times and names, and two things in one place are the same, so that the order in which the
stored credentials are gone through does not show, nor does anything else that is stored. -/

namespace Strongroom

theorem Text.occursIn_iff {part s : List Char} : occursIn part s = true ↔ part <:+: s := by
  induction s with
  | nil => simp [occursIn]
  | cons c rest ih =>
    rw [occursIn, Bool.or_eq_true, ih, List.isPrefixOf_iff_prefix, List.infix_cons_iff]

namespace Time.Instant

def toPair (t : Instant) : ℤ ×ₗ ℕ := toLex (t.second, t.nano)

theorem toPair_injective : Function.Injective toPair := by
  rintro ⟨second, nano⟩ ⟨second', nano'⟩ h
  simpa [toPair] using h

theorem lt_iff_toPair_lt {s t : Instant} : s < t ↔ s.toPair < t.toPair := by
  rw [toPair, toPair, Prod.Lex.toLex_lt_toLex]
  rfl

end Time.Instant

namespace Search

namespace Found

def of (held : Credential) : Found := ⟨held.name, held.latest.createdAt⟩

def Precedes (a b : Found) : Prop :=
  b.createdAt < a.createdAt ∨
    a.createdAt = b.createdAt ∧ Octets.ofText a.name < Octets.ofText b.name

def place (f : Found) : (ℤ ×ₗ ℕ)ᵒᵈ ×ₗ String :=
  toLex (OrderDual.toDual f.createdAt.toPair, f.name)

theorem place_injective : Function.Injective place := by
  rintro ⟨name, t⟩ ⟨name', t'⟩ h
  obtain ⟨ht, hname⟩ := Prod.mk.inj (toLex.injective h)
  have hinstant : t = t' := Time.Instant.toPair_injective (OrderDual.toDual.injective ht)
  exact congrArg₂ Found.mk hname hinstant

theorem precedes_iff {a b : Found} : a.Precedes b ↔ a.place < b.place := by
  rw [place, place, Prod.Lex.toLex_lt_toLex, OrderDual.toDual_lt_toDual,
    ← Time.Instant.lt_iff_toPair_lt, EmbeddingLike.apply_eq_iff_eq,
    Time.Instant.toPair_injective.eq_iff, Precedes, Octets.ofText_lt_ofText_iff]

theorem comesBefore_iff {a b : Found} : comesBefore a b = true ↔ a.place ≤ b.place := by
  rw [place, place, Prod.Lex.toLex_le_toLex, OrderDual.toDual_lt_toDual,
    ← Time.Instant.lt_iff_toPair_lt, EmbeddingLike.apply_eq_iff_eq,
    Time.Instant.toPair_injective.eq_iff, comesBefore]
  simp

theorem pairwise_mergeSort (fs : List Found) :
    (fs.mergeSort comesBefore).Pairwise fun a b => a.place ≤ b.place := by
  refine (List.pairwise_mergeSort ?_ ?_ fs).imp comesBefore_iff.1
  · intro a b c hab hbc
    exact comesBefore_iff.2 ((comesBefore_iff.1 hab).trans (comesBefore_iff.1 hbc))
  · intro a b
    rw [Bool.or_eq_true, comesBefore_iff, comesBefore_iff]
    exact le_total a.place b.place

theorem mergeSort_eq_of_perm {fs gs : List Found} (h : fs.Perm gs) :
    fs.mergeSort comesBefore = gs.mergeSort comesBefore := by
  have hperm : (fs.mergeSort comesBefore).Perm (gs.mergeSort comesBefore) :=
    (fs.mergeSort_perm comesBefore).trans (h.trans (gs.mergeSort_perm comesBefore).symm)
  refine hperm.eq_of_pairwise ?_ (pairwise_mergeSort fs) (pairwise_mergeSort gs)
  intro a b _ _ hab hba
  exact place_injective (le_antisymm hab hba)

end Found

inductive Query
  | part (pattern : String)
  | folder (path : String)

namespace Query

def call : Query → Call
  | part pattern => .findByName pattern
  | folder path => .findByPath path

def test : Query → Credential → Bool
  | part pattern => nameContains pattern
  | folder path => isInFolder path

/-- The key of the name has in it what the pattern becomes, or begins with what the path becomes. -/
def Matches (held : Credential) : Query → Prop
  | part pattern => Text.lower (Text.trim pattern.toList) <:+: (Naming.key held.name).toList
  | folder path => folderChars path.toList <+: (Naming.key held.name).toList

theorem test_iff {q : Query} {held : Credential} : q.test held = true ↔ q.Matches held := by
  cases q with
  | part pattern =>
    rw [test, nameContains, Text.occursIn_iff, Matches, Naming.key, String.toList_ofList]
  | folder path =>
    rw [test, isInFolder, List.isPrefixOf_iff_prefix, Matches, Naming.key, String.toList_ofList]

end Query

def foundAmong (policy : AccessPolicy) (d : StoreData) (actor : String) (q : Query)
    (stored : List Credential) : List Found :=
  (((stored.filter fun c => policy.permits d c.name actor .read).filter q.test).map
    Found.of).mergeSort comesBefore

theorem foundAmong_eq_of_perm (policy : AccessPolicy) (d : StoreData) (actor : String) (q : Query)
    {stored stored' : List Credential} (h : stored.Perm stored') :
    foundAmong policy d actor q stored = foundAmong policy d actor q stored' :=
  Found.mergeSort_eq_of_perm (((h.filter _).filter _).map _)

end Search

namespace Custodian

open Search

/-- The list has each credential that matches and that the actor may read once, and nothing else, in
its order. -/
structure Finds (c : Custodian) (actor : String) (q : Query) (found : List Found) : Prop where
  each : ∃ matched : List Credential, matched.Nodup ∧
    (∀ held, held ∈ matched ↔ c.Opens actor held ∧ q.Matches held) ∧
    found.Perm (matched.map Found.of)
  once : (found.map (·.name)).Nodup
  sorted : found.Pairwise Found.Precedes

variable {c c' : Custodian} {actor : String} {q : Query}

theorem nodup_values (hsound : c.store.data.Sound) : c.store.data.credentials.values.Nodup := by
  have hnames : (c.store.data.credentials.values.map (·.name)).Nodup :=
    hsound.ascending_names.imp fun hlt => ne_of_apply_ne Naming.key (ne_of_lt hlt)
  exact hnames.of_map _

theorem finds_answered (hsound : c.store.data.Sound) (actor : String) (q : Query) :
    c.Finds actor q (answered c.policy c.store.data actor q.test) := by
  have honce : ((answered c.policy c.store.data actor q.test).map (·.name)).Nodup :=
    nodup_answered hsound q.test
  refine ⟨⟨(readable c.policy c.store.data actor).filter q.test, ?_, ?_, ?_⟩, honce, ?_⟩
  · exact ((nodup_values hsound).filter _).filter _
  · intro held
    rw [List.mem_filter, mem_readable hsound, Query.test_iff]
  · exact List.mergeSort_perm _ comesBefore
  · -- names that differ make the order strict
    have hsorted : (answered c.policy c.store.data actor q.test).Pairwise
        fun a b => a.place ≤ b.place := Found.pairwise_mergeSort _
    refine (hsorted.and (List.pairwise_map.1 honce)).imp fun hab => ?_
    obtain ⟨hle, hname⟩ := hab
    refine Found.precedes_iff.2 (lt_of_le_of_ne hle fun hsame => ?_)
    exact hname (congrArg Found.name (Found.place_injective hsame))

theorem Finds.eq_of_opens_iff {found found' : List Found} (h : c.Finds actor q found)
    (h' : c'.Finds actor q found') (hopens : ∀ held, c'.Opens actor held ↔ c.Opens actor held) :
    found' = found := by
  obtain ⟨matched, hnodup, hmem, hperm⟩ := h.each
  obtain ⟨matched', hnodup', hmem', hperm'⟩ := h'.each
  have hsame : matched'.Perm matched := by
    refine (List.perm_ext_iff_of_nodup hnodup' hnodup).2 fun held => ?_
    rw [hmem', hmem, hopens]
  have hfound : found'.Perm found := hperm'.trans ((hsame.map _).trans hperm.symm)
  refine hfound.eq_of_pairwise ?_ h'.sorted h.sorted
  intro a b _ _ hab hba
  exact absurd (Found.precedes_iff.1 hab) (lt_asymm (Found.precedes_iff.1 hba))

theorem perform_search (c : Custodian) (caller : Caller) (occasion : Occasion) (q : Query) :
    (c.perform caller occasion q.call).1 =
      .ok (.found (answered c.policy c.store.data caller.actor q.test)) := by
  cases q with
  | part pattern =>
    refine inquire_fst.trans ?_
    rw [byName, runOn_matching]
    rfl
  | folder path => exact c.perform_findByPath caller occasion path

/-- A search does not fail and finds each match that the actor may read, in an order that does not
depend on how the store goes through its credentials, and the same in all custodians in which the
actor may read the same. -/
theorem Reachable.exists_findings {config : Config} {issuer : Issuer}
    (h : Reachable config issuer c) (actor : String) (q : Query) :
    ∃ found, c.Finds actor q found ∧
      (∀ caller occasion, caller.actor = actor →
        (c.perform caller occasion q.call).1 = .ok (.found found)) ∧
      (∀ stored : List Credential, stored.Perm c.store.data.credentials.values →
        foundAmong c.policy c.store.data actor q stored = found) ∧
      ∀ {config' : Config} {issuer' : Issuer} {c' : Custodian}, Reachable config' issuer' c' →
        (∀ held, c'.Opens actor held ↔ c.Opens actor held) →
        ∀ caller occasion, caller.actor = actor →
          (c'.perform caller occasion q.call).1 = .ok (.found found) := by
  have hfinds := finds_answered h.sound actor q
  refine ⟨_, hfinds, ?_, ?_, ?_⟩
  · rintro caller occasion rfl
    exact c.perform_search caller occasion q
  · intro stored hstored
    exact foundAmong_eq_of_perm c.policy c.store.data actor q hstored
  · rintro config' issuer' c' h' hopens caller occasion rfl
    rw [c'.perform_search, hfinds.eq_of_opens_iff (finds_answered h'.sound _ q) hopens]

def crowded : Custodian :=
  ((shared []).perform ⟨.ofNat 1, "bob"⟩ ⟨1, ⟨1, 0⟩⟩ (.set "/key" (.password "own") [] true)).2

theorem readable_crowded :
    readable crowded.policy crowded.store.data "alice" =
      readable (shared []).policy (shared []).store.data "alice" := by
  have hvalues : crowded.store.data.credentials.values =
      (shared []).store.data.credentials.values ++
        [⟨⟨1, 1⟩, "/key", ⟨⟨1, 0⟩, ⟨1, 0⟩, .password "own"⟩, []⟩] := rfl
  have hshared : (shared []).store.data.credentials.values = [⟨⟨0, 1⟩, "/db", secret, []⟩] := rfl
  have hdb : crowded.policy.permits crowded.store.data "/db" "alice" .read =
      (shared []).policy.permits (shared []).store.data "/db" "alice" .read := by decide +kernel
  have hkey : crowded.policy.permits crowded.store.data "/key" "alice" .read = false := by
    decide +kernel
  rw [readable, readable, hvalues, hshared, List.filter_append, List.filter_singleton,
    List.filter_singleton, List.filter_singleton, hdb, hkey]
  exact List.append_nil _

theorem Reachable.exists_findings_crowded :
    Reachable {} Issuance.issue (shared []) ∧ Reachable {} Issuance.issue crowded ∧
      (∀ held, crowded.Opens "alice" held ↔ (shared []).Opens "alice" held) ∧
      (crowded.perform ⟨.ofNat 2, "alice"⟩ ⟨2, ⟨2, 0⟩⟩ (.findByName "DB")).1 =
        .ok (.found [⟨"/db", ⟨0, 0⟩⟩]) := by
  have h : Reachable {} Issuance.issue (shared []) := (reachableOn_shared []).reachable
  have h' : Reachable {} Issuance.issue crowded := h.perform _ _ _
  have hopens : ∀ held, crowded.Opens "alice" held ↔ (shared []).Opens "alice" held := by
    intro held
    rw [← mem_readable h'.sound, ← mem_readable h.sound, readable_crowded]
  obtain ⟨found, -, -, hamong, hsame⟩ := h.exists_findings "alice" (.part "DB")
  have hfound : found = [⟨"/db", ⟨0, 0⟩⟩] :=
    (hamong _ (List.Perm.refl _)).symm.trans (by decide +kernel)
  exact ⟨h, h', hopens, hfound ▸ hsame h' hopens _ _ rfl⟩

end Custodian

end Strongroom
