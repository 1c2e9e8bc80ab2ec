import Strongroom.Proofs.Locality
import Strongroom.Proofs.Reading
import Strongroom.Proofs.Runs

/-! Calls on credentials of different names do not concern each other. A call that writes a value,
deletes a credential or changes its access list is confined to the key of the name that it gives,
whether it succeeds or is rolled back. Two such calls on different keys can therefore change places:
each has its answer either way, and the data that they leave are the same. -/

namespace Strongroom

inductive Call.ActsOn : Call → String → Prop
  | set (name : String) (value : CredentialValue) (permissions : List Permission)
    (overwrite : Bool) : ActsOn (.set name value permissions overwrite) name
  | delete (name : String) : ActsOn (.delete name) name
  | setPermissions (name : String) (entries : List Permission) :
    ActsOn (.setPermissions name entries) name
  | deletePermission (name subject : String) : ActsOn (.deletePermission name subject) name

namespace AccessPolicy

variable {name key : String}

theorem isConfined_grantOnCreate (creator : String) (entries : List Permission)
    (hname : Naming.key name = key) : (grantOnCreate name creator entries).IsConfined key :=
  .bind (.mergeOperations _ _ hname) fun _ => .forM fun _ => .mergeOperations _ _ hname

theorem isConfined_setPermissions (p : AccessPolicy) (actor : String) (entries : List Permission)
    (hname : Naming.key name = key) : (p.setPermissions actor name entries).IsConfined key := by
  refine .bind (.inquiry (.collect _)) fun _ => .ite (.throw _) ?_
  refine .require_bind hname fun stored hstored => .bind (.inquiry (.resolveName _)) fun _ => ?_
  exact .bind (.forM fun _ => .replaceOperations _ _ hstored) fun _ => .pure _

theorem isConfined_deletePermission (p : AccessPolicy) (actor subject : String)
    (hname : Naming.key name = key) : (p.deletePermission actor name subject).IsConfined key := by
  refine .data_bind (fun d => ?_) fun hagree => ?_
  · refine .bind (.inquiry (.collect _)) fun _ => .require_bind hname fun stored hstored => ?_
    refine .bind (.inquiry (.resolveName _)) fun _ => .bind (.removeActor _ hstored) fun found => ?_
    exact .ite (.throw _) (.pure _)
  · -- what is recorded for the subject is looked up before the requirement, under the given name
    subst hname
    rw [hagree.operationsFor_eq]

end AccessPolicy

namespace Custodian

variable {name key : String}

theorem latestVersion_looksAt (hname : Naming.key name = key) :
    (latestVersion name).LooksAt key := by
  subst hname
  intro d d' h now ps
  rw [latestVersion, Inquiry.runOn_data_bind, Inquiry.runOn_data_bind, h.find?_eq]
  cases d.find? name <;> rfl

theorem isConfined_write (policy : AccessPolicy) (actor : String) (permissions : List Permission)
    (overwrite : Bool) {put : String → Work Unit}
    (hput : ∀ target, Naming.key target = key → (put target).IsConfined key)
    (hname : Naming.key name = key) :
    (write policy actor name permissions overwrite put).IsConfined key := by
  refine .data_bind (fun d => .ite ?_ ?_) fun hagree => ?_
  · refine .bind (hput name hname) fun _ => ?_
    refine .bind (AccessPolicy.isConfined_grantOnCreate _ _ hname) fun _ => ?_
    exact .bind (.inquiry (.resolveFor _ hname)) fun _ => .inquiry (latestVersion_looksAt hname)
  · refine .require_bind hname fun stored hstored => ?_
    have hlatest := Work.IsConfined.inquiry (latestVersion_looksAt hstored)
    refine .ite (.bind (hput stored hstored) fun _ => ?_) hlatest
    exact .bind (.inquiry (.resolveFor _ hstored)) fun _ => hlatest
  · subst hname
    rw [hagree.contains_eq]

theorem isConfined_set (policy : AccessPolicy) (actor : String) (value : CredentialValue)
    (permissions : List Permission) (overwrite : Bool) (hname : Naming.key name = key) :
    (set policy actor name value permissions overwrite).IsConfined key := by
  refine .bind (.inquiry (.collect _)) fun _ => .lift_bind fun normal hnormal => ?_
  refine isConfined_write policy actor permissions overwrite (fun target htarget => ?_)
    ((Naming.key_normalize hnormal).trans hname)
  exact .put value htarget

theorem isConfined_delete (policy : AccessPolicy) (actor : String)
    (hname : Naming.key name = key) : (delete policy actor name).IsConfined key := by
  refine .bind (.inquiry (.collect _)) fun _ => .require_bind hname fun stored hstored => ?_
  refine .bind (.inquiry (.resolveFor _ hstored)) fun _ => ?_
  exact .bind (.remove hstored) fun _ => .pure _

/-- In the custodian the turn looks at nothing and changes nothing but what stands under the key.
With the same under the key, whatever else there is, it has the same answer and leaves the same
there; and what stands under any other key stays. -/
structure ConfinesTo (c : Custodian) (turn : Turn) (key : String) : Prop where
  reads : ∀ {c' : Custodian}, c'.config = c.config →
    c.store.data.AgreesAt key c'.store.data →
      Event.answer ⟨turn, c'⟩ = Event.answer ⟨turn, c⟩ ∧
        (Event.after ⟨turn, c⟩).store.data.AgreesAt key (Event.after ⟨turn, c'⟩).store.data
  keeps : ∀ {other}, other ≠ key →
    c.store.data.AgreesAt other (Event.after ⟨turn, c⟩).store.data

variable {c c' : Custodian} {turn turn' : Turn} {α : Type}

section Audited

variable {f : α → Answer} {status : UInt16} {w : Work α}

theorem answer_of_audited (hrun : c.perform turn.caller turn.occasion turn.call =
      c.audited turn.caller turn.occasion status (f <$> w)) :
    Event.answer ⟨turn, c⟩ = (w.runIn (c.store.begin turn.occasion)).1.map f := by
  rw [Event.answer, hrun, audited_fst]

theorem data_after_of_ok {a : α} (hrun : c.perform turn.caller turn.occasion turn.call =
      c.audited turn.caller turn.occasion status (f <$> w))
    (hok : (w.runIn (c.store.begin turn.occasion)).1 = .ok a) :
    (Event.after ⟨turn, c⟩).store.data = (w.runIn (c.store.begin turn.occasion)).2.data := by
  have hmapped := Work.runIn_map f w (t := c.store.begin turn.occasion)
  rw [hok] at hmapped
  rw [Event.after, hrun]
  exact Store.data_audited_of_ok hmapped

theorem data_after_of_error {fault : Fault} (hbuilt : w.IsBuilt)
    (hrun : c.perform turn.caller turn.occasion turn.call =
      c.audited turn.caller turn.occasion status (f <$> w))
    (herror : (w.runIn (c.store.begin turn.occasion)).1 = .error fault) :
    (Event.after ⟨turn, c⟩).store.data = c.store.data := by
  have hanswer := answer_of_audited hrun
  rw [Event.answer, hrun, herror] at hanswer
  rw [Event.after, hrun]
  exact data_audited_of_error hbuilt hanswer

theorem confinesTo_of_audited (f : α → Answer) (status : UInt16) (hw : w.IsConfined key)
    (hbuilt : w.IsBuilt) (hkeyed : c.store.data.KeyedAt key)
    (hrun : ∀ c' : Custodian, c'.policy = c.policy →
      c'.perform turn.caller turn.occasion turn.call =
        c'.audited turn.caller turn.occasion status (f <$> w)) :
    c.ConfinesTo turn key := by
  have hhere := hrun c rfl
  constructor
  · intro c' hconfig hagree
    have hthere := hrun c' (by rw [policy, policy, hconfig])
    have hbegin : Transaction.AgreesAt key (c.store.begin turn.occasion)
        (c'.store.begin turn.occasion) := ⟨hagree, hkeyed, rfl, rfl, rfl⟩
    obtain ⟨hsame, hleft⟩ := hw.reads hbegin
    rw [answer_of_audited hthere, answer_of_audited hhere, hsame]
    refine ⟨rfl, ?_⟩
    cases houtcome : (w.runIn (c.store.begin turn.occasion)).1 with
    | error fault =>
      rw [data_after_of_error hbuilt hhere houtcome,
        data_after_of_error hbuilt hthere (hsame.trans houtcome)]
      exact hagree
    | ok a =>
      rw [data_after_of_ok hhere houtcome, data_after_of_ok hthere (hsame.trans houtcome)]
      exact hleft.data
  · intro other hother
    have hkept := hw.keeps (t := c.store.begin turn.occasion) hkeyed hother
    cases houtcome : (w.runIn (c.store.begin turn.occasion)).1 with
    | error fault =>
      rw [data_after_of_error hbuilt hhere houtcome]
      exact .refl _ _
    | ok a =>
      rw [data_after_of_ok hhere houtcome]
      exact hkept

end Audited

theorem confinesTo_of_actsOn (hsound : c.store.data.Sound) (hcall : turn.call.ActsOn name) :
    c.ConfinesTo turn (Naming.key name) := by
  have hkeyed := hsound.keyedAt (Naming.key name)
  obtain ⟨caller, occasion, call⟩ := turn
  cases hcall with
  | set name value permissions overwrite =>
    refine confinesTo_of_audited .version okStatus
      (isConfined_set c.policy caller.actor value permissions overwrite rfl)
      (isBuilt_set _ _ _ _ _) hkeyed fun c' hpolicy => ?_
    rw [← hpolicy]
    rfl
  | delete name =>
    refine confinesTo_of_audited (fun _ => .done) noContentStatus
      (isConfined_delete c.policy caller.actor rfl) (isBuilt_delete _ _) hkeyed
      fun c' hpolicy => ?_
    rw [← hpolicy]
    rfl
  | setPermissions name entries =>
    refine confinesTo_of_audited .permissions okStatus
      (c.policy.isConfined_setPermissions caller.actor entries rfl)
      (isBuilt_setPermissions _ _ _) hkeyed fun c' hpolicy => ?_
    rw [← hpolicy]
    rfl
  | deletePermission name subject =>
    refine confinesTo_of_audited (fun _ => .done) noContentStatus
      (c.policy.isConfined_deletePermission caller.actor subject rfl)
      (isBuilt_deletePermission _ _ _) hkeyed fun c' hpolicy => ?_
    rw [← hpolicy]
    rfl

/-- Whichever of the turns comes first, each has the same answer, and the same data are left. -/
structure Commutes (c : Custodian) (turn turn' : Turn) : Prop where
  answer : Event.answer ⟨turn, Event.after ⟨turn', c⟩⟩ = Event.answer ⟨turn, c⟩
  answer' : Event.answer ⟨turn', Event.after ⟨turn, c⟩⟩ = Event.answer ⟨turn', c⟩
  data : (c.afterAll [turn, turn']).store.data = (c.afterAll [turn', turn]).store.data

theorem ConfinesTo.commutes {key key' : String} (h : c.ConfinesTo turn key)
    (h' : c.ConfinesTo turn' key') (hlater : (Event.after ⟨turn', c⟩).ConfinesTo turn key)
    (hlater' : (Event.after ⟨turn, c⟩).ConfinesTo turn' key') (hne : key ≠ key') :
    c.Commutes turn turn' := by
  have hconfig : ∀ turn : Turn, (Event.after ⟨turn, c⟩).config = c.config :=
    fun turn => config_perform _ _ _ _
  obtain ⟨hanswer, hleft⟩ := h.reads (hconfig turn') (h'.keeps hne)
  obtain ⟨hanswer', hleft'⟩ := h'.reads (hconfig turn) (h.keeps hne.symm)
  refine ⟨hanswer, hanswer', StoreData.eq_of_agreesAt fun other => ?_⟩
  change StoreData.AgreesAt other
    (Event.after ⟨turn, Event.after ⟨turn', c⟩⟩).store.data
    (Event.after ⟨turn', Event.after ⟨turn, c⟩⟩).store.data
  by_cases hkey : other = key
  · subst hkey
    exact hleft.symm.trans (hlater'.keeps hne)
  · by_cases hkey' : other = key'
    · subst hkey'
      exact (hlater.keeps hkey).symm.trans hleft'
    · have hturn := (h.keeps hkey).trans (hlater'.keeps hkey')
      exact ((h'.keeps hkey').trans (hlater.keeps hkey)).symm.trans hturn

/-- Calls on names with different keys, by whomever, can change places, and neither of them looks at
or changes anything under the key of the other's name. -/
theorem Reachable.commutes_of_key_ne {config : Config} {issuer : Issuer}
    (h : Reachable config issuer c) {name name' : String} (hname : turn.call.ActsOn name)
    (hname' : turn'.call.ActsOn name') (hne : Naming.key name ≠ Naming.key name') :
    c.Commutes turn turn' ∧ c.ConfinesTo turn (Naming.key name) ∧
      c.ConfinesTo turn' (Naming.key name') := by
  have hfirst := confinesTo_of_actsOn h.sound hname
  have hfirst' := confinesTo_of_actsOn h.sound hname'
  have hlater := confinesTo_of_actsOn (h.perform turn'.caller turn'.occasion turn'.call).sound hname
  have hlater' := confinesTo_of_actsOn (h.perform turn.caller turn.occasion turn.call).sound hname'
  exact ⟨hfirst.commutes hfirst' hlater hlater' hne, hfirst, hfirst'⟩

theorem Reachable.commutes_of_key_ne_shared :
    let creation : Turn := ⟨⟨.ofNat 1, "bob"⟩, ⟨1, ⟨1, 0⟩⟩,
      .set "/new" (.password "guess") [] true⟩
    let mismatch : Turn := ⟨⟨.ofNat 2, "alice"⟩, ⟨2, ⟨1, 0⟩⟩,
      .set "/DB" (.user "alice" "secret") [] true⟩
    Reachable {} Issuance.issue (shared []) ∧ creation.call.ActsOn "/new" ∧
      mismatch.call.ActsOn "/DB" ∧ Naming.key "/new" ≠ Naming.key "/DB" ∧
      Event.answer ⟨mismatch, shared []⟩ = .error (.validation .typeMismatch) ∧
      (shared []).Commutes creation mismatch ∧
      (shared []).ConfinesTo creation (Naming.key "/new") ∧
      (shared []).ConfinesTo mismatch (Naming.key "/DB") := by
  intro creation mismatch
  have hc : Reachable {} Issuance.issue (shared []) := (reachableOn_shared []).reachable
  have hcreation : creation.call.ActsOn "/new" := .set "/new" _ _ _
  have hmismatch : mismatch.call.ActsOn "/DB" := .set "/DB" _ _ _
  have hne : Naming.key "/new" ≠ Naming.key "/DB" := by decide
  exact ⟨hc, hcreation, hmismatch, hne, rfl, hc.commutes_of_key_ne hcreation hmismatch hne⟩

end Custodian

end Strongroom
