import Strongroom.Proofs.Grants
import Strongroom.Proofs.History

/-! Who has an entry in the access list under a key. An event enters actors there or strikes them,
and along every run an actor has an entry if it was entered and has not been struck since. A blank
actor is entered by nothing but the permissions that a creating call brings with it, which are not
looked at as those of a setting are. -/

namespace Strongroom

namespace AccessList

variable {list : AccessList} {actor : String}

theorem contains_erase (other : String) :
    Dictionary.contains (list.erase other) actor =
      (list.contains actor && !decide (other = actor)) := by
  rw [Dictionary.contains, Dictionary.get?_erase]
  by_cases hactor : other = actor <;> simp [hactor, Dictionary.contains]

theorem contains_foldl_setting (entries : List Permission) :
    ((ofPermissions entries).permissions.foldl setting list).contains actor =
      (entries.any (·.actor = actor) || list.contains actor) := by
  rw [← contains_ofPermissions, Dictionary.contains, get?_foldl_setting, Option.isSome_or,
    Dictionary.contains, Dictionary.contains]

end AccessList

namespace StoreData

def lists (d : StoreData) (key actor : String) : Bool :=
  (d.accessLists.get? key).any (·.contains actor)

theorem lists_of_get?_eq {d : StoreData} {key actor : String} {list? : Option AccessList}
    (h : d.accessLists.get? key = list?) : d.lists key actor = list?.any (·.contains actor) := by
  rw [lists, h]

end StoreData

namespace Call

def sets (key actor : String) : Call → Bool
  | .setPermissions name entries => Naming.key name = key && entries.any (·.actor = actor)
  | _ => false

def strikes (key actor : String) : Call → Bool
  | .delete name => Naming.key name = key
  | .deletePermission name subject => Naming.key name = key && subject = actor
  | _ => false

variable {call : Call} {name : String} {permissions : List Permission} {overwrite : Bool}

theorem Writes.sets_eq (h : call.Writes name permissions overwrite) (key actor : String) :
    call.sets key actor = false := by
  cases h <;> rfl

theorem Writes.strikes_eq (h : call.Writes name permissions overwrite) (key actor : String) :
    call.strikes key actor = false := by
  cases h <;> rfl

theorem not_sets_of_isInquiry (h : call.isInquiry = true) (key actor : String) :
    call.sets key actor = false := by
  cases call with
  | setPermissions => cases h
  | _ => rfl

theorem not_strikes_of_isInquiry (h : call.isInquiry = true) (key actor : String) :
    call.strikes key actor = false := by
  cases call with
  | delete | deletePermission => cases h
  | _ => rfl

end Call

namespace Event

variable (key actor : String) (e : Event)

/-- Whether the event has created what is under the key, and the actor is its caller or among those
that were to be granted something on it. -/
def admits : Bool :=
  e.creates key && (decide (e.caller.actor = actor) || e.call.additional.any (·.actor = actor))

def enters : Bool :=
  match e.answer with
  | .ok _ => e.admits key actor || e.call.sets key actor
  | .error _ => false

def strikes : Bool :=
  match e.answer with
  | .ok _ => e.call.strikes key actor
  | .error _ => false

/-- After the event, the actor is listed under the key if the event has entered it, or if it was
listed and the event has not struck it. -/
def Registers : Prop :=
  e.after.store.data.lists key actor =
    (e.enters key actor || e.before.store.data.lists key actor && !e.strikes key actor)

variable {key actor e} {answer : Answer}

theorem Registers.of_kept (henters : e.enters key actor = false)
    (hstrikes : e.strikes key actor = false) (hlist : e.leftList key = e.foundList key) :
    e.Registers key actor := by
  have hsame : e.after.store.data.lists key actor = e.before.store.data.lists key actor :=
    StoreData.lists_of_get?_eq hlist
  rw [Registers, hsame, henters, hstrikes, Bool.false_or, Bool.not_false, Bool.and_true]

theorem enters_of_answer_eq_ok (h : e.answer = .ok answer) (key actor : String) :
    e.enters key actor = (e.admits key actor || e.call.sets key actor) := by
  rw [enters, h]

theorem strikes_of_answer_eq_ok (h : e.answer = .ok answer) (key actor : String) :
    e.strikes key actor = e.call.strikes key actor := by
  rw [strikes, h]

theorem admits_of_creates_eq_false (h : e.creates key = false) : e.admits key actor = false := by
  rw [admits, h, Bool.false_and]

theorem registers_of_found {name normal : String} {permissions : List Permission}
    {overwrite : Bool} {held : Credential} (hanswer : e.answer = .ok answer)
    (hcall : e.call.Writes name permissions overwrite) (hname : Naming.normalize name = .ok normal)
    (hheld : e.before.store.data.find? normal = some held)
    (hlist : e.leftList key = e.foundList key) : e.Registers key actor := by
  have hcreates : e.creates key = false := not_creates_of_found hanswer hcall hname hheld
  refine .of_kept ?_ ?_ hlist
  · rw [enters_of_answer_eq_ok hanswer, admits_of_creates_eq_false hcreates, hcall.sets_eq]
    rfl
  · rw [strikes_of_answer_eq_ok hanswer, hcall.strikes_eq]

theorem registers_of_created {name normal : String} {permissions : List Permission}
    {overwrite : Bool} {id : FreshId} {v : Version}
    (hlists : (e.foundList key).isSome = (e.found key).isSome) (hanswer : e.answer = .ok answer)
    (hcall : e.call.Writes name permissions overwrite) (hname : Naming.normalize name = .ok normal)
    (habsent : e.before.store.data.find? normal = none)
    (hafter : e.after.store.data =
      (e.before.store.data.holding (Naming.key normal) ⟨id, normal, v, []⟩).updatingAll
        (Naming.key normal) AccessList.granting (⟨e.caller.actor, .full⟩ :: permissions)) :
    e.Registers key actor := by
  have henters := enters_of_answer_eq_ok hanswer key actor
  have hstrikes := strikes_of_answer_eq_ok hanswer key actor
  have hcreates := creates_of_answer_eq_ok key hanswer
  rw [hcall.provides_eq, ← Naming.key_normalize hname] at hcreates
  rw [admits, hcall.sets_eq, hcall.additional_eq, Bool.or_false] at henters
  rw [hcall.strikes_eq] at hstrikes
  by_cases hkey : Naming.key normal = key
  · subst hkey
    have hfound : e.found (Naming.key normal) = none := habsent
    rw [hfound, Option.isSome_none, Option.isSome_eq_false_iff, Option.isNone_iff_eq_none] at hlists
    have hbefore : e.before.store.data.lists (Naming.key normal) actor = false :=
      StoreData.lists_of_get?_eq hlists
    have hlist : e.leftList (Naming.key normal) =
        some ((⟨e.caller.actor, .full⟩ :: permissions).foldl AccessList.granting ∅) := by
      rw [leftList, hafter]
      exact StoreData.accessLists_updatingAll_of_get?_eq_none
        (d := e.before.store.data.holding _ _) _ hlists _ _
    have hleft : e.after.store.data.lists (Naming.key normal) actor = _ :=
      StoreData.lists_of_get?_eq hlist
    rw [Option.any_some, AccessList.contains_foldl_granting, List.any_cons] at hleft
    have hempty : Dictionary.contains (∅ : AccessList) actor = false := rfl
    rw [hempty, Bool.false_or] at hleft
    rw [Registers, hleft, hbefore, henters, hcreates, hfound]
    simp
  · refine .of_kept ?_ hstrikes ?_
    · rw [henters, hcreates, decide_eq_false hkey]
      rfl
    · rw [leftList, hafter, StoreData.accessLists_updatingAll_of_ne _ _ _ hkey]
      rfl

theorem registers_of_permissionsSet {name : String} {entries : List Permission}
    {held : Credential} (hlists : (e.foundList key).isSome = (e.found key).isSome)
    (hanswer : e.answer = .ok answer) (hcall : e.call = .setPermissions name entries)
    (hheld : e.before.store.data.find? name = some held)
    (hafter : e.after.store.data =
      e.before.store.data.updatingAll (Naming.key name) AccessList.setting
        (AccessList.ofPermissions entries).permissions) : e.Registers key actor := by
  have hcreates : e.creates key = false := by
    rw [creates_of_answer_eq_ok _ hanswer, hcall]
    rfl
  have henters := enters_of_answer_eq_ok hanswer key actor
  have hstrikes := strikes_of_answer_eq_ok hanswer key actor
  rw [admits_of_creates_eq_false hcreates, hcall, Call.sets, Bool.false_or] at henters
  rw [hcall] at hstrikes
  by_cases hkey : Naming.key name = key
  · subst hkey
    have hfound : e.found (Naming.key name) = some held := hheld
    rw [hfound, Option.isSome_some, Option.isSome_iff_exists] at hlists
    obtain ⟨list, hlist⟩ := hlists
    have hbefore : e.before.store.data.lists (Naming.key name) actor = list.contains actor :=
      StoreData.lists_of_get?_eq hlist
    have hleft : e.after.store.data.lists (Naming.key name) actor =
        (entries.any (·.actor = actor) || list.contains actor) := by
      rw [StoreData.lists, hafter, StoreData.accessLists_updatingAll_of_get?_eq_some _ hlist,
        Option.any_some, AccessList.contains_foldl_setting]
    rw [Registers, hleft, hbefore, henters, hstrikes]
    simp [Call.strikes]
  · refine .of_kept ?_ hstrikes ?_
    · rw [henters, decide_eq_false hkey, Bool.false_and]
    · rw [leftList, hafter, StoreData.accessLists_updatingAll_of_ne _ _ _ hkey, foundList]

theorem registers_of_permissionDeleted {name subject : String} {list : AccessList}
    (hanswer : e.answer = .ok answer) (hcall : e.call = .deletePermission name subject)
    (hlist : e.before.store.data.accessList? name = some list)
    (hafter : e.after.store.data = { e.before.store.data with
      accessLists :=
        e.before.store.data.accessLists.insert (Naming.key name) (list.erase subject) }) :
    e.Registers key actor := by
  have hcreates : e.creates key = false := by
    rw [creates_of_answer_eq_ok _ hanswer, hcall]
    rfl
  have henters := enters_of_answer_eq_ok hanswer key actor
  have hstrikes := strikes_of_answer_eq_ok hanswer key actor
  rw [admits_of_creates_eq_false hcreates, hcall] at henters
  rw [hcall, Call.strikes] at hstrikes
  by_cases hkey : Naming.key name = key
  · subst hkey
    have hbefore : e.before.store.data.lists (Naming.key name) actor = list.contains actor :=
      StoreData.lists_of_get?_eq hlist
    have hleft : e.after.store.data.lists (Naming.key name) actor =
        (list.contains actor && !decide (subject = actor)) := by
      rw [StoreData.lists, hafter, Dictionary.get?_insert_self, Option.any_some,
        AccessList.contains_erase]
    rw [Registers, hleft, hbefore, henters, hstrikes]
    simp [Call.sets]
  · refine .of_kept henters ?_ ?_
    · rw [hstrikes, decide_eq_false hkey, Bool.false_and]
    · rw [leftList, hafter, Dictionary.get?_insert_of_ne _ _ hkey, foundList]

theorem registers_of_deleted {name : String} (hanswer : e.answer = .ok answer)
    (hcall : e.call = .delete name)
    (hafter : e.after.store.data =
      ⟨e.before.store.data.credentials.erase (Naming.key name),
        e.before.store.data.accessLists.erase (Naming.key name)⟩) : e.Registers key actor := by
  have hcreates : e.creates key = false := by
    rw [creates_of_answer_eq_ok _ hanswer, hcall]
    rfl
  have henters := enters_of_answer_eq_ok hanswer key actor
  have hstrikes := strikes_of_answer_eq_ok hanswer key actor
  rw [admits_of_creates_eq_false hcreates, hcall] at henters
  rw [hcall, Call.strikes] at hstrikes
  by_cases hkey : Naming.key name = key
  · rw [Registers, henters, hstrikes, StoreData.lists, hafter, hkey, Dictionary.get?_erase_self]
    simp [Call.sets]
  · refine .of_kept henters ?_ ?_
    · rw [hstrikes, decide_eq_false hkey]
    · rw [leftList, hafter, Dictionary.get?_erase_of_ne _ hkey, foundList]

theorem registers_of_unlisting (hanswer : e.answer = .ok answer) (hcreates : e.creates key = false)
    (hsets : e.call.sets key actor = false) (hstrikes : e.call.strikes key actor = false)
    (hlist : e.leftList key = e.foundList key) : e.Registers key actor := by
  refine .of_kept ?_ ?_ hlist
  · rw [enters_of_answer_eq_ok hanswer, admits_of_creates_eq_false hcreates, hsets]
    rfl
  · rw [strikes_of_answer_eq_ok hanswer, hstrikes]

theorem registers_of_effect {d' : StoreData} (hanswer : e.answer = .ok answer)
    (hlists : (e.foundList key).isSome = (e.found key).isSome)
    (hafter : e.after.store.data = d')
    (h : e.before.Effect e.caller.actor e.occasion e.call answer d') : e.Registers key actor := by
  have hcreates := creates_of_answer_eq_ok key hanswer
  obtain ⟨⟨caller, occasion, call⟩, c⟩ := e
  dsimp only at *
  cases h with
  | looked hcall =>
    rw [Call.not_provides_of_isInquiry hcall] at hcreates
    refine registers_of_unlisting hanswer hcreates ?_ ?_ (congrArg (·.accessLists.get? key) hafter)
    · exact Call.not_sets_of_isInquiry hcall key actor
    · exact Call.not_strikes_of_isInquiry hcall key actor
  | kept hcall hname hheld | appended hcall hname hheld =>
    exact registers_of_found hanswer hcall hname hheld (congrArg (·.accessLists.get? key) hafter)
  | created id hcall hname habsent =>
    exact registers_of_created hlists hanswer hcall hname habsent hafter
  | regenerated =>
    exact registers_of_unlisting hanswer hcreates rfl rfl
      (congrArg (·.accessLists.get? key) hafter)
  | renewed hplan hall =>
    obtain ⟨_, _, -, -, -, hnames, -⟩ := Renewal.planned_eq_ok.1 hplan
    rw [← hafter] at hall
    have hgrown := hall.grownAt (SigningGraph.descendants_eq_ok hnames).2.1
    exact registers_of_unlisting hanswer hcreates rfl rfl (congrArg (·.get? key) hgrown.accessLists)
  | deleted => exact registers_of_deleted hanswer rfl hafter
  | permissionsSet _ hheld => exact registers_of_permissionsSet hlists hanswer rfl hheld hafter
  | permissionDeleted _ hlist => exact registers_of_permissionDeleted hanswer rfl hlist hafter

theorem registers (hsound : e.before.store.data.Sound)
    (hlists : (e.foundList key).isSome = (e.found key).isSome) : e.Registers key actor := by
  cases hanswer : e.answer with
  | error fault =>
    have hdata : e.after.store.data = e.before.store.data :=
      Custodian.data_perform_of_error hanswer
    refine .of_kept ?_ ?_ (congrArg (·.accessLists.get? key) hdata)
    · rw [enters, hanswer]
    · rw [strikes, hanswer]
  | ok answer =>
    exact registers_of_effect hanswer hlists rfl (Custodian.effect_of_perform hsound hanswer)

end Event

theorem Custodian.Effect.not_isBlank {c : Custodian} {actor name : String} {occasion : Occasion}
    {entries : List Permission} {answer : Answer} {d' : StoreData}
    (h : c.Effect actor occasion (.setPermissions name entries) answer d') :
    ∀ p ∈ entries, AccessPolicy.isBlank p.actor = false := by
  intro p hp
  cases h with
  | permissionsSet hactors =>
    rw [AccessList.any_ofPermissions entries AccessPolicy.isBlank] at hactors
    exact Bool.eq_false_iff.2 (List.any_eq_false.1 hactors p hp)
  | looked hcall => cases hcall
  | kept hcall | appended hcall | created _ hcall => cases hcall

namespace Event

variable {key actor : String} {e : Event}

theorem enters_of_isBlank (hsound : e.before.store.data.Sound)
    (hcaller : AccessPolicy.isBlank e.caller.actor = false)
    (hactor : AccessPolicy.isBlank actor = true) :
    e.enters key actor = (e.creates key && e.call.additional.any (·.actor = actor)) := by
  have hdiffers : e.caller.actor ≠ actor := fun hsame => by
    rw [hsame, hactor] at hcaller
    cases hcaller
  cases hanswer : e.answer with
  | error fault => rw [enters, creates, hanswer, Bool.false_and]
  | ok answer =>
    have hsets : e.call.sets key actor = false := by
      have heffect := Custodian.effect_of_perform hsound hanswer
      cases hcall : e.call with
      | setPermissions name entries =>
        have hentries : entries.any (·.actor = actor) = false := by
          refine List.any_eq_false.2 fun p hp hsame => ?_
          have hnot := (hcall ▸ heffect).not_isBlank p hp
          rw [of_decide_eq_true hsame, hactor] at hnot
          cases hnot
        rw [Call.sets, hentries, Bool.and_false]
      | _ => rfl
    rw [enters_of_answer_eq_ok hanswer, hsets, admits, decide_eq_false hdiffers, Bool.false_or,
      Bool.or_false]

end Event

def Entered (key actor : String) (events : List Event) : Prop :=
  ∃ earlier e later, events = earlier ++ e :: later ∧ e.enters key actor = true ∧
    ∀ e' ∈ later, e'.strikes key actor = false

theorem entered_concat_iff {key actor : String} {events : List Event} {e : Event} :
    Entered key actor (events ++ [e]) ↔
      e.enters key actor = true ∨ Entered key actor events ∧ e.strikes key actor = false := by
  constructor
  · rintro ⟨earlier, entry, later, hevents, henters, hlater⟩
    rcases List.eq_nil_or_concat later with rfl | ⟨between, last, rfl⟩
    · obtain ⟨-, hlast⟩ := List.append_inj' hevents rfl
      cases hlast
      exact .inl henters
    · rw [List.concat_eq_append, ← List.cons_append, ← List.append_assoc] at hevents
      obtain ⟨rfl, hlast⟩ := List.append_inj' hevents rfl
      cases hlast
      refine .inr ⟨⟨earlier, entry, between, rfl, henters, fun e' he' => ?_⟩, ?_⟩
      · exact hlater e' (by simp [he'])
      · exact hlater e (by simp)
  · rintro (henters | ⟨⟨earlier, entry, later, rfl, henters, hlater⟩, hstrikes⟩)
    · exact ⟨events, e, [], rfl, henters, by simp⟩
    · refine ⟨earlier, entry, later ++ [e], by simp, henters, fun e' he' => ?_⟩
      rcases List.mem_append.1 he' with he' | he'
      · exact hlater e' he'
      · exact List.mem_singleton.1 he' ▸ hstrikes

theorem Custodian.lists_iff_entered (config : Config) (issuer : Issuer) (turns : List Turn)
    (key actor : String) :
    ((empty config issuer).afterAll turns).store.data.lists key actor = true ↔
      Entered key actor ((empty config issuer).events turns) := by
  induction turns using List.reverseRecOn with
  | nil =>
    constructor
    · intro h
      cases h
    · rintro ⟨earlier, e, later, hevents, -⟩
      simp [events] at hevents
  | append_singleton turns turn ih =>
    have hsound := (reachable_afterAll turns config issuer).sound
    have hlists := (events_grantsRecorded config issuer turns key).stored
    have hstep : Event.Registers key actor ⟨turn, (empty config issuer).afterAll turns⟩ :=
      Event.registers hsound hlists
    rw [afterAll_concat, events_concat, entered_concat_iff, ← ih, hstep, Bool.or_eq_true,
      Bool.and_eq_true, Bool.not_eq_true']

theorem Custodian.exists_of_mem_events {c : Custodian} {turns : List Turn} {e : Event}
    (h : e ∈ c.events turns) : e.toTurn ∈ turns ∧ ∃ earlier, e.before = c.afterAll earlier := by
  induction turns using List.reverseRecOn with
  | nil => cases h
  | append_singleton turns turn ih =>
    rw [events_concat] at h
    rcases List.mem_append.1 h with h | h
    · exact ⟨List.mem_append_left _ (ih h).1, (ih h).2⟩
    · cases List.mem_singleton.1 h
      exact ⟨by simp, turns, rfl⟩

/-- As long as nobody calls under a blank name, a blank actor is listed under a key only if the
call that created what is there was to grant it something, and its entry has not been removed. -/
theorem Custodian.lists_blank_iff (config : Config) (issuer : Issuer) {turns : List Turn}
    (hcallers : ∀ turn ∈ turns, AccessPolicy.isBlank turn.caller.actor = false) {actor : String}
    (hactor : AccessPolicy.isBlank actor = true) (key : String) :
    ((empty config issuer).afterAll turns).store.data.lists key actor = true ↔
      ∃ earlier e later, (empty config issuer).events turns = earlier ++ e :: later ∧
        e.creates key = true ∧ (∃ p ∈ e.call.additional, p.actor = actor) ∧
        ∀ e' ∈ later, e'.strikes key actor = false := by
  rw [lists_iff_entered, Entered]
  refine exists_congr fun earlier => exists_congr fun e => exists_congr fun later => ?_
  refine and_congr_right fun hevents => ?_
  have hmem : e ∈ (empty config issuer).events turns := hevents ▸ by simp
  obtain ⟨hturn, before, hbefore⟩ := exists_of_mem_events hmem
  have hsound : e.before.store.data.Sound :=
    hbefore ▸ (reachable_afterAll before config issuer).sound
  rw [Event.enters_of_isBlank hsound (hcallers _ hturn) hactor, Bool.and_eq_true, List.any_eq_true,
    and_assoc]
  simp only [decide_eq_true_eq]

def Custodian.blankGrant : List Turn :=
  [⟨⟨.ofNat 0, "alice"⟩, ⟨0, ⟨0, 0⟩⟩,
    .set "/db" (.password "secret") [⟨" ", .ofList [.read]⟩] true⟩]

theorem Custodian.lists_blank_iff_blankGrant :
    (∀ turn ∈ blankGrant, AccessPolicy.isBlank turn.caller.actor = false) ∧
      AccessPolicy.isBlank " " = true ∧
      ∃ earlier e later,
        (empty {} Issuance.issue).events blankGrant = earlier ++ e :: later ∧
        e.creates "/db" = true ∧ (∃ p ∈ e.call.additional, p.actor = " ") ∧
        ∀ e' ∈ later, e'.strikes "/db" " " = false := by
  have hcallers : ∀ turn ∈ blankGrant, AccessPolicy.isBlank turn.caller.actor = false := by decide
  have hactor : AccessPolicy.isBlank " " = true := rfl
  exact ⟨hcallers, hactor, (lists_blank_iff {} Issuance.issue hcallers hactor "/db").1 rfl⟩

/-- An actor that is empty but for a blank is listed, though nobody has called under such a name. -/
theorem Custodian.blank_actor_listed :
    (∀ turn ∈ blankGrant, AccessPolicy.isBlank turn.caller.actor = false) ∧
      AccessPolicy.isBlank " " = true ∧
      ((empty {} Issuance.issue).afterAll blankGrant).store.data.lists "/db" " " = true :=
  ⟨by decide, rfl, rfl⟩

end Strongroom
