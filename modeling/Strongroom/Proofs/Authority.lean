import Strongroom.Proofs.Runs

/-! Nothing happens to a credential without the right to it. Whatever the call, what it does under a
key, be it the key of a name in the call or not, is covered by what the actor is recorded to be
allowed there. -/

namespace Strongroom

theorem StoreData.operationsFor_eq_of_key_eq {name other : String} (d : StoreData)
    (h : Naming.key name = Naming.key other) (actor : String) :
    d.operationsFor name actor = d.operationsFor other actor := by
  rw [operationsFor, accessList?, h, operationsFor, accessList?]

/-- The change from `d` to `d'` of what stands under a key, where there was a credential, is covered
by what the actor was recorded to be allowed on it. -/
structure Rightful (d d' : StoreData) (actor key : String) (held : Credential) : Prop where
  gone : d'.credentials.get? key = none →
    (d.operationsFor held.name actor).contains .delete = true
  rewritten : ∀ {left}, d'.credentials.get? key = some left → left ≠ held →
    (d.operationsFor held.name actor).contains .write = true
  relisted : ∀ {left}, d'.credentials.get? key = some left →
    d'.accessLists.get? key ≠ d.accessLists.get? key →
    (d.operationsFor held.name actor).contains .writeAcl = true

namespace Rightful

variable {d d' : StoreData} {actor key : String} {held : Credential}

theorem of_unchanged (hheld : d.credentials.get? key = some held)
    (hcredentials : d'.credentials.get? key = d.credentials.get? key)
    (hlists : d'.accessLists.get? key = d.accessLists.get? key) : Rightful d d' actor key held where
  gone h := by
    rw [hcredentials, hheld] at h
    cases h
  rewritten h hne := by
    rw [hcredentials, hheld] at h
    exact absurd (Option.some.inj h).symm hne
  relisted _ hne := absurd hlists hne

theorem of_write {left : Credential} (hleft : d'.credentials.get? key = some left)
    (hlists : d'.accessLists = d.accessLists)
    (h : (d.operationsFor held.name actor).contains .write = true) :
    Rightful d d' actor key held where
  gone hgone := by
    rw [hleft] at hgone
    cases hgone
  rewritten _ _ := h
  relisted _ hne := absurd (congrArg (·.get? key) hlists) hne

theorem of_delete (hgone : d'.credentials.get? key = none)
    (h : (d.operationsFor held.name actor).contains .delete = true) :
    Rightful d d' actor key held where
  gone _ := h
  rewritten hleft _ := by
    rw [hgone] at hleft
    cases hleft
  relisted hleft _ := by
    rw [hgone] at hleft
    cases hleft

theorem of_writeAcl (hheld : d.credentials.get? key = some held)
    (hcredentials : d'.credentials = d.credentials)
    (h : (d.operationsFor held.name actor).contains .writeAcl = true) :
    Rightful d d' actor key held where
  gone hgone := by
    rw [hcredentials, hheld] at hgone
    cases hgone
  rewritten hleft hne := by
    rw [hcredentials, hheld] at hleft
    exact absurd (Option.some.inj hleft).symm hne
  relisted _ _ := h

end Rightful

namespace Custodian

variable {c : Custodian} {actor key : String} {held : Credential}

theorem Allows.recorded {name : String} {op : Operation} (h : c.Allows name actor op)
    (henforced : c.config.aclsEnabled = true) (hname : Naming.key name = Naming.key held.name) :
    (c.store.data.operationsFor held.name actor).contains op = true := by
  rw [← c.store.data.operationsFor_eq_of_key_eq hname]
  exact h.2 henforced

theorem rightful_of_extended {name : String} {first : Credential} {v : Version}
    (henforced : c.config.aclsEnabled = true) (hsound : c.store.data.Sound)
    (hheld : c.store.data.credentials.get? key = some held) (h : c.Allows name actor .write) :
    Rightful c.store.data (c.store.data.holding (Naming.key name) (first.extended v)) actor key
      held := by
  by_cases hkey : Naming.key name = key
  · subst hkey
    exact .of_write (StoreData.get?_holding_self _ _ _) rfl
      (h.recorded henforced (hsound.keyed hheld).symm)
  · exact .of_unchanged hheld (StoreData.get?_holding_of_ne _ _ hkey) rfl

theorem Effect.rightful {occasion : Occasion} {call : Call} {answer : Answer} {d' : StoreData}
    (h : c.Effect actor occasion call answer d') (henforced : c.config.aclsEnabled = true)
    (hsound : c.store.data.Sound) (hheld : c.store.data.credentials.get? key = some held) :
    Rightful c.store.data d' actor key held := by
  have hstored := hsound.keyed hheld
  cases h with
  | looked | kept => exact .of_unchanged hheld rfl rfl
  | appended _ _ _ hallowed => exact rightful_of_extended henforced hsound hheld hallowed
  | regenerated _ hallowed => exact rightful_of_extended henforced hsound hheld hallowed
  | @created _ _ normal _ _ _ _ _ _ habsent =>
    have hkey : Naming.key normal ≠ key := by
      rintro rfl
      cases hheld.symm.trans habsent
    refine .of_unchanged hheld ?_ (StoreData.accessLists_updatingAll_of_ne _ _ _ hkey)
    rw [StoreData.credentials_updatingAll, StoreData.get?_holding_of_ne _ _ hkey]
  | @renewed _ names _ hplan hall =>
    obtain ⟨_, _, -, -, -, hnames, hwrite⟩ := Renewal.planned_eq_ok.1 hplan
    have hdistinct := (SigningGraph.descendants_eq_ok hnames).2.1
    by_cases hkey : key ∈ names.map Naming.key
    · obtain ⟨name, hname, rfl⟩ := List.mem_map.1 hkey
      obtain ⟨_, _, -, -, -, hfinal⟩ := hall.find?_of_mem hdistinct hname
      exact .of_write hfinal hall.accessLists_eq
        ((permits_iff_allows.1 (hwrite name hname)).recorded henforced hstored.symm)
    · exact .of_unchanged hheld (hall.get?_of_not_mem hkey)
        (congrArg (·.get? key) hall.accessLists_eq)
  | @deleted name hallowed =>
    by_cases hkey : Naming.key name = key
    · subst hkey
      exact .of_delete (Dictionary.get?_erase_self _ _)
        (hallowed.recorded henforced hstored.symm)
    · exact .of_unchanged hheld (Dictionary.get?_erase_of_ne _ hkey)
        (Dictionary.get?_erase_of_ne _ hkey)
  | @permissionsSet name _ _ _ _ hallowed =>
    have hcredentials := StoreData.credentials_updatingAll c.store.data (Naming.key name)
      AccessList.setting
    by_cases hkey : Naming.key name = key
    · subst hkey
      exact .of_writeAcl hheld (hcredentials _) (hallowed.recorded henforced hstored.symm)
    · exact .of_unchanged hheld (congrArg (·.get? key) (hcredentials _))
        (StoreData.accessLists_updatingAll_of_ne _ _ _ hkey)
  | @permissionDeleted name _ _ hallowed =>
    by_cases hkey : Naming.key name = key
    · subst hkey
      exact .of_writeAcl hheld rfl (hallowed.recorded henforced hstored.symm)
    · exact .of_unchanged hheld rfl (Dictionary.get?_insert_of_ne _ _ hkey)

theorem Reachable.rightful_perform {config : Config} {issuer : Issuer}
    (h : Reachable config issuer c) (henforced : config.aclsEnabled = true)
    (hheld : c.store.data.credentials.get? key = some held) (caller : Caller)
    (occasion : Occasion) (call : Call) :
    Rightful c.store.data (c.perform caller occasion call).2.store.data caller.actor key held := by
  cases hanswer : (c.perform caller occasion call).1 with
  | error fault =>
    rw [data_perform_of_error hanswer]
    exact .of_unchanged hheld rfl rfl
  | ok answer =>
    have heffect := effect_of_perform h.sound hanswer
    exact heffect.rightful (h.config_eq ▸ henforced) h.sound hheld

theorem Reachable.rightful_perform_delete :
    ∃ (c : Custodian) (held : Credential), Reachable {} Issuance.issue c ∧
      c.store.data.credentials.get? "/db" = some held ∧
      (c.perform ⟨.ofNat 1, "alice"⟩ ⟨1, ⟨1, 0⟩⟩ (.delete "DB")).2.store.data.credentials.get?
        "/db" = none ∧
      Rightful c.store.data
        (c.perform ⟨.ofNat 1, "alice"⟩ ⟨1, ⟨1, 0⟩⟩ (.delete "DB")).2.store.data "alice" "/db"
        held := by
  have hstart : Reachable {} Issuance.issue _ := .start
  have hset := hstart.perform ⟨.ofNat 0, "alice"⟩ ⟨0, ⟨0, 0⟩⟩
    (.set "db" (.password "secret") [] true)
  exact ⟨_, _, hset, rfl, rfl, hset.rightful_perform rfl rfl _ _ _⟩

end Custodian

end Strongroom
