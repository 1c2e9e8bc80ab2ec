import Strongroom.Proofs.Runs

/-! The versions under a key are the history of what was written to it. Along every run, each
effective write since the last deletion has added one version at the end, nothing else has touched
what stands under the key, and the first of these writes has created it. -/

namespace Strongroom

/-- Whether the call, once it has succeeded with the answer, is an effective write to the key, which
may have been `occupied` before. -/
def Call.writesTo (call : Call) (answer : Answer) (key : String) (occupied : Bool) : Bool :=
  match call, answer with
  | .set name _ _ overwrite, _ | .generate name _ _ overwrite, _ =>
    Naming.key name = key && (overwrite || !occupied)
  | .regenerate name _, _ => Naming.key name = key
  | .renewBelow _, .names names => key ∈ names.map Naming.key
  | _, _ => false

def Call.deletes (key : String) : Call → Bool
  | .delete name => Naming.key name = key
  | _ => false

namespace Event

def writes (key : String) (e : Event) : Bool :=
  match e.answer with
  | .ok answer => e.call.writesTo answer key (e.found key).isSome
  | .error _ => false

def deletes (key : String) (e : Event) : Bool :=
  match e.answer with
  | .ok _ => e.call.deletes key
  | .error _ => false

inductive Made (e : Event) (name : String) (v : Version) : Prop
  | alone (hanswer : e.answer = .ok (.version v))
    (hmakes : e.before.Makes e.caller.actor e.occasion e.call name v) : Made e name v
  | among {names : List String} (hanswer : e.answer = .ok (.names names))
    (hreissued : Renewal.Reissued e.before.issuer e.occasion e.before.store.data names name v) :
    Made e name v

/-- The version is what the event has written to the key: its call has made it, and it is the latest
there right after the event. -/
structure Produced (key : String) (e : Event) (v : Version) : Prop where
  made : ∃ name, Naming.key name = key ∧ e.Made name v
  latest : (e.left key).map (·.latest) = some v

structure Created (key : String) (e : Event) (held : Credential) : Prop where
  absent : e.found key = none
  named : ∃ name permissions overwrite, e.call.Writes name permissions overwrite ∧
    Naming.normalize name = .ok held.name
  kept : ∃ first, e.left key = some first ∧ first.id = held.id ∧ first.name = held.name ∧
    first.kind = held.kind

end Event

def writesSinceDeletion (key : String) (events : List Event) : List Event :=
  (events.rtakeWhile fun e => !e.deletes key).filter (·.writes key)

/-- What stands under the key is what the events have written to it. -/
structure Recorded (key : String) (events : List Event) (held : Credential) : Prop where
  versions : List.Forall₂ (Event.Produced key) (writesSinceDeletion key events) held.versions
  uniform : ∀ v ∈ held.versions, v.value.kind = held.kind
  latest : held.versions.getLast? = some held.latest
  created : ∃ e later, writesSinceDeletion key events = e :: later ∧ e.Created key held

inductive Event.Step (key : String) (e : Event) : Prop
  | kept (hwrites : e.writes key = false) (hdeletes : e.deletes key = false)
    (h : e.left key = e.found key) : Step key e
  | created {first : Credential} {v : Version} (hwrites : e.writes key = true)
    (hdeletes : e.deletes key = false) (hproduced : e.Produced key v)
    (hcreated : e.Created key first) (h : e.left key = some first)
    (hversions : first.versions = [v]) : Step key e
  | appended {held : Credential} {v : Version} (hwrites : e.writes key = true)
    (hdeletes : e.deletes key = false) (hproduced : e.Produced key v)
    (hfound : e.found key = some held) (hkind : v.value.kind = held.kind)
    (h : e.left key = some (held.extended v)) : Step key e
  | deleted (hdeletes : e.deletes key = true) (h : e.left key = none) : Step key e

theorem Call.Writes.writesTo_eq {call : Call} {name : String} {permissions : List Permission}
    {overwrite : Bool} (h : call.Writes name permissions overwrite) (answer : Answer) (key : String)
    (occupied : Bool) :
    call.writesTo answer key occupied =
      (decide (Naming.key name = key) && (overwrite || !occupied)) := by
  cases h <;> rfl

theorem Call.Writes.deletes_eq {call : Call} {name : String} {permissions : List Permission}
    {overwrite : Bool} (h : call.Writes name permissions overwrite) (key : String) :
    call.deletes key = false := by
  cases h <;> rfl

theorem Call.not_writesTo_of_isInquiry {call : Call} (h : call.isInquiry = true) (answer : Answer)
    (key : String) (occupied : Bool) : call.writesTo answer key occupied = false := by
  cases call with
  | get | versions | findByName | findByPath | findFolders | listPermissions => rfl
  | set | generate | regenerate | renewBelow | delete | setPermissions | deletePermission => cases h

theorem Call.not_deletes_of_isInquiry {call : Call} (h : call.isInquiry = true) (key : String) :
    call.deletes key = false := by
  cases call with
  | delete => cases h
  | _ => rfl

namespace Event

variable {e : Event} {answer : Answer}

theorem writes_of_answer_eq_ok (key : String) (h : e.answer = .ok answer) :
    e.writes key = e.call.writesTo answer key (e.found key).isSome := by
  rw [writes, h]

theorem deletes_of_answer_eq_ok (key : String) (h : e.answer = .ok answer) :
    e.deletes key = e.call.deletes key := by
  rw [deletes, h]

variable {key : String}

theorem step_of_extended {name : String} {held : Credential} {v : Version}
    (hsound : e.before.store.data.Sound) (hwrites : e.writes key = decide (Naming.key name = key))
    (hdeletes : e.deletes key = false) (hheld : e.before.store.data.find? name = some held)
    (hmade : e.Made held.name v) (hkind : v.value.kind = held.kind)
    (hafter : e.after.store.data =
      e.before.store.data.holding (Naming.key name) (held.extended v)) : e.Step key := by
  by_cases hkey : Naming.key name = key
  · subst hkey
    have hleft : e.left (Naming.key name) = some (held.extended v) := by
      rw [left, hafter, StoreData.get?_holding_self]
    refine .appended (by rw [hwrites, decide_eq_true rfl]) hdeletes ⟨?_, ?_⟩ hheld hkind hleft
    · exact ⟨held.name, hsound.keyed hheld, hmade⟩
    · rw [hleft, Option.map_some, Credential.latest_extended]
  · refine .kept (by rw [hwrites, decide_eq_false hkey]) hdeletes ?_
    rw [left, hafter, StoreData.get?_holding_of_ne _ _ hkey, found]

theorem step_of_created {name normal : String} {permissions entries : List Permission}
    {overwrite : Bool} {id : FreshId} {v : Version}
    {f : AccessList → Permission → AccessList} (hanswer : e.answer = .ok answer)
    (hcall : e.call.Writes name permissions overwrite) (hname : Naming.normalize name = .ok normal)
    (habsent : e.before.store.data.find? normal = none) (hmade : e.Made normal v)
    (hafter : e.after.store.data =
      (e.before.store.data.holding (Naming.key normal) ⟨id, normal, v, []⟩).updatingAll
        (Naming.key normal) f entries) : e.Step key := by
  have hwrites := writes_of_answer_eq_ok key hanswer
  have hdeletes := deletes_of_answer_eq_ok key hanswer
  rw [hcall.writesTo_eq, ← Naming.key_normalize hname] at hwrites
  rw [hcall.deletes_eq] at hdeletes
  by_cases hkey : Naming.key normal = key
  · subst hkey
    have habsent : e.found (Naming.key normal) = none := habsent
    have hleft : e.left (Naming.key normal) = some ⟨id, normal, v, []⟩ := by
      rw [left, hafter, StoreData.credentials_updatingAll, StoreData.get?_holding_self]
    refine .created (v := v) (by simp [hwrites, habsent]) hdeletes ⟨⟨normal, rfl, hmade⟩, ?_⟩ ?_
      hleft rfl
    · rw [hleft]
      rfl
    · exact ⟨habsent, ⟨name, permissions, overwrite, hcall, hname⟩, _, hleft, rfl, rfl, rfl⟩
  · refine .kept (by simp [hwrites, hkey]) hdeletes ?_
    rw [left, hafter, StoreData.credentials_updatingAll, StoreData.get?_holding_of_ne _ _ hkey,
      found]

theorem step_of_renewed {signedBy : Option String} {names : List String}
    (hcall : e.call = .renewBelow signedBy) (hanswer : e.answer = .ok (.names names))
    (hdistinct : (names.map Naming.key).Nodup)
    (hall : Renewal.RenewedAll e.before.issuer e.occasion e.before.store.data names
      e.after.store.data) : e.Step key := by
  have hwrites : e.writes key = decide (key ∈ names.map Naming.key) := by
    rw [writes_of_answer_eq_ok key hanswer, hcall, Call.writesTo]
  have hdeletes : e.deletes key = false := by
    rw [deletes_of_answer_eq_ok key hanswer, hcall]
    rfl
  by_cases hkey : key ∈ names.map Naming.key
  · obtain ⟨name, hname, rfl⟩ := List.mem_map.1 hkey
    obtain ⟨held, v, hheld, hkind, hreissued, hfinal⟩ := hall.find?_of_mem hdistinct hname
    refine .appended (by rw [hwrites, decide_eq_true hkey]) hdeletes ⟨?_, ?_⟩ hheld hkind hfinal
    · exact ⟨name, rfl, .among hanswer hreissued⟩
    · rw [left, ← StoreData.find?, hfinal, Option.map_some, Credential.latest_extended]
  · refine .kept (by rw [hwrites, decide_eq_false hkey]) hdeletes ?_
    exact hall.get?_of_not_mem hkey

theorem step_of_deleted {name : String} {lists : Dictionary AccessList}
    (hcall : e.call = .delete name) (hanswer : e.answer = .ok answer)
    (hafter : e.after.store.data =
      ⟨e.before.store.data.credentials.erase (Naming.key name), lists⟩) : e.Step key := by
  have hwrites : e.writes key = false := by
    rw [writes_of_answer_eq_ok key hanswer, hcall]
    rfl
  have hdeletes : e.deletes key = decide (Naming.key name = key) := by
    rw [deletes_of_answer_eq_ok key hanswer, hcall, Call.deletes]
  by_cases hkey : Naming.key name = key
  · refine .deleted (by rw [hdeletes, decide_eq_true hkey]) ?_
    rw [left, hafter, hkey, Dictionary.get?_erase_self]
  · refine .kept hwrites (by rw [hdeletes, decide_eq_false hkey]) ?_
    rw [left, hafter, Dictionary.get?_erase_of_ne _ hkey, found]

theorem step_of_effect {d' : StoreData} (hsound : e.before.store.data.Sound)
    (hanswer : e.answer = .ok answer) (hafter : e.after.store.data = d')
    (h : e.before.Effect e.caller.actor e.occasion e.call answer d') : e.Step key := by
  have hwrites := writes_of_answer_eq_ok key hanswer
  have hdeletes := deletes_of_answer_eq_ok key hanswer
  obtain ⟨⟨caller, occasion, call⟩, c⟩ := e
  dsimp only at *
  cases h with
  | looked hcall =>
    rw [Call.not_writesTo_of_isInquiry hcall] at hwrites
    rw [Call.not_deletes_of_isInquiry hcall] at hdeletes
    exact .kept hwrites hdeletes (congrArg (·.credentials.get? key) hafter)
  | @kept call name normal permissions held hcall hname hheld hallowed =>
    rw [hcall.writesTo_eq] at hwrites
    rw [hcall.deletes_eq] at hdeletes
    refine .kept (hwrites.trans ?_) hdeletes (congrArg (·.credentials.get? key) hafter)
    by_cases hkey : Naming.key name = key
    · have hfound : found ⟨⟨caller, occasion, call⟩, c⟩ key = some held := by
        rw [← hkey, ← Naming.key_normalize hname]
        exact hheld
      simp [hfound]
    · simp [hkey]
  | @appended call name normal permissions held v hcall hname hheld hallowed hv hkind =>
    rw [hcall.writesTo_eq, Bool.true_or, Bool.and_true, ← Naming.key_normalize hname] at hwrites
    rw [hcall.deletes_eq] at hdeletes
    exact step_of_extended hsound hwrites hdeletes hheld (.alone hanswer hv) hkind hafter
  | created id hcall hname habsent hv =>
    exact step_of_created hanswer hcall hname habsent (.alone hanswer hv) hafter
  | @regenerated name overrides held v hheld hallowed hv hkind =>
    rw [Call.writesTo] at hwrites
    exact step_of_extended hsound hwrites hdeletes hheld (.alone hanswer hv) hkind hafter
  | renewed hplan hall =>
    obtain ⟨_, _, -, -, -, hnames, -⟩ := Renewal.planned_eq_ok.1 hplan
    have hdistinct := (SigningGraph.descendants_eq_ok hnames).2.1
    rw [← hafter] at hall
    exact step_of_renewed rfl hanswer hdistinct hall
  | deleted => exact step_of_deleted rfl hanswer hafter
  | permissionsSet =>
    refine .kept hwrites hdeletes ?_
    rw [left, hafter, StoreData.credentials_updatingAll, found]
  | permissionDeleted => exact .kept hwrites hdeletes (congrArg (·.credentials.get? key) hafter)

theorem step_of_sound (key : String) (hsound : e.before.store.data.Sound) : e.Step key := by
  cases hanswer : e.answer with
  | error fault =>
    refine .kept (by rw [writes, hanswer]) (by rw [deletes, hanswer]) ?_
    exact congrArg (·.credentials.get? key) (Custodian.data_perform_of_error hanswer)
  | ok answer =>
    exact step_of_effect hsound hanswer rfl (Custodian.effect_of_perform hsound hanswer)

end Event

theorem writesSinceDeletion_concat_of_deletes {key : String} {e : Event} (events : List Event)
    (h : e.deletes key = true) : writesSinceDeletion key (events ++ [e]) = [] := by
  rw [writesSinceDeletion, List.rtakeWhile_concat_neg _ _ _ (by simp [h]), List.filter_nil]

theorem writesSinceDeletion_concat {key : String} {e : Event} (events : List Event)
    (h : e.deletes key = false) :
    writesSinceDeletion key (events ++ [e]) =
      writesSinceDeletion key events ++ if e.writes key then [e] else [] := by
  rw [writesSinceDeletion, List.rtakeWhile_concat_pos _ _ _ (by simp [h]), List.filter_append,
    List.filter_singleton, Bool.cond_eq_ite]
  rfl

theorem Recorded.extended {key : String} {events : List Event} {held : Credential} {e : Event}
    {v : Version} (h : Recorded key events held) (hwrites : e.writes key = true)
    (hdeletes : e.deletes key = false) (hproduced : e.Produced key v)
    (hkind : v.value.kind = held.kind) : Recorded key (events ++ [e]) (held.extended v) := by
  have hconcat := writesSinceDeletion_concat events hdeletes
  rw [if_pos hwrites] at hconcat
  obtain ⟨first, later, hlist, hcreated⟩ := h.created
  constructor
  · rw [hconcat, Credential.versions_extended]
    exact List.rel_append h.versions (.cons hproduced .nil)
  · intro u hu
    rw [Credential.versions_extended] at hu
    rcases List.mem_append.1 hu with hu | hu
    · exact h.uniform u hu
    · rw [List.mem_singleton.1 hu, hkind, Credential.kind_extended]
  · rw [Credential.versions_extended, Credential.latest_extended, List.getLast?_concat]
  · refine ⟨first, later ++ [e], ?_, hcreated.absent, hcreated.named, hcreated.kept⟩
    rw [hconcat, hlist, List.cons_append]

theorem Event.Created.recorded {key : String} {events : List Event} {first : Credential}
    {e : Event} {v : Version} (h : e.Created key first) (hwrites : e.writes key = true)
    (hdeletes : e.deletes key = false) (hproduced : e.Produced key v)
    (hversions : first.versions = [v]) (hbefore : writesSinceDeletion key events = []) :
    Recorded key (events ++ [e]) first := by
  have hconcat := writesSinceDeletion_concat events hdeletes
  rw [if_pos hwrites, hbefore, List.nil_append] at hconcat
  obtain ⟨rfl, hlater⟩ := List.cons.inj hversions
  constructor
  · rw [hconcat, hversions]
    exact .cons hproduced .nil
  · intro u hu
    rw [hversions, List.mem_singleton] at hu
    rw [hu, Credential.kind]
  · rw [hversions, Credential.latest, hlater]
    rfl
  · exact ⟨e, [], hconcat, h⟩

/-- The events account for what stands under the key: for a credential they have recorded, and for
nothing by having written nothing since the last deletion. -/
def AccountFor (key : String) (events : List Event) : Option Credential → Prop
  | some held => Recorded key events held
  | none => writesSinceDeletion key events = []

theorem AccountFor.concat {key : String} {events : List Event} {e : Event}
    (h : AccountFor key events (e.found key)) (hstep : e.Step key) :
    AccountFor key (events ++ [e]) (e.left key) := by
  cases hstep with
  | kept hwrites hdeletes hleft =>
    have hconcat := writesSinceDeletion_concat events hdeletes
    rw [hwrites, if_neg Bool.false_ne_true, List.append_nil] at hconcat
    rw [hleft]
    cases hfound : e.found key with
    | none =>
      rw [hfound] at h
      exact hconcat.trans h
    | some held =>
      rw [hfound] at h
      exact ⟨hconcat ▸ h.versions, h.uniform, h.latest, hconcat ▸ h.created⟩
  | created hwrites hdeletes hproduced hcreated hleft hversions =>
    rw [hcreated.absent] at h
    rw [hleft]
    exact hcreated.recorded hwrites hdeletes hproduced hversions h
  | appended hwrites hdeletes hproduced hfound hkind hleft =>
    rw [hfound] at h
    rw [hleft]
    exact Recorded.extended h hwrites hdeletes hproduced hkind
  | deleted hdeletes hleft =>
    rw [hleft]
    exact writesSinceDeletion_concat_of_deletes events hdeletes

theorem Custodian.events_accountFor (config : Config) (issuer : Issuer) (turns : List Turn)
    (key : String) :
    AccountFor key ((empty config issuer).events turns)
      (((empty config issuer).afterAll turns).store.data.credentials.get? key) := by
  induction turns using List.reverseRecOn with
  | nil => rfl
  | append_singleton turns turn ih =>
    have hsound := (reachable_afterAll turns config issuer).sound
    rw [events_concat, afterAll_concat]
    exact AccountFor.concat ih (Event.step_of_sound key hsound)

end Strongroom
