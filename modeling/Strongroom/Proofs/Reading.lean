import Strongroom.Proofs.Authority
import Strongroom.Proofs.Numbering

/-! Nothing that is stored is shown without a right to it. The right is that to read, except that a
write which leaves a credential as it is shows its latest version to whoever may write it. -/

namespace Strongroom

namespace Answer

def shown : Answer → List Version
  | version v => [v]
  | versions vs => vs
  | _ => []

end Answer

theorem Credential.latest_mem_versions (c : Credential) : c.latest ∈ c.versions := by
  unfold latest versions
  cases hlast : c.later.getLast? with
  | none => exact List.mem_cons_self
  | some v => exact List.mem_cons_of_mem _ (List.mem_of_getLast? hlast)

theorem Inquiry.runOn_map {α β : Type} (f : α → β) (q : Inquiry α) (d : StoreData)
    (now : Time.Instant) (ps : List AuditParameters) :
    ((f <$> q).runOn d now ps).1 = (q.runOn d now ps).1.map f := by
  rw [map_eq_pure_bind, runOn_bind]
  rcases q.runOn d now ps with ⟨fault | a, collected⟩ <;> rfl

namespace Custodian

variable {c : Custodian} {caller : Caller} {occasion : Occasion} {name : String}

theorem inquire_fst {α : Type} {q : Inquiry α} {f : α → Answer} :
    (c.inquire caller occasion (f <$> q)).1 =
      (q.runOn c.store.data occasion.now []).1.map f :=
  Inquiry.runOn_map f q _ _ _

theorem inquire_eq_ok {α : Type} {q : Inquiry α} {f : α → Answer} {answer : Answer} :
    (c.inquire caller occasion (f <$> q)).1 = .ok answer ↔
      ∃ a, (q.runOn c.store.data occasion.now []).1 = .ok a ∧ f a = answer := by
  rw [inquire_fst, Except.map_eq_ok]

theorem runOn_access (policy : AccessPolicy) (actor name : String) (d : StoreData)
    (now : Time.Instant) (ps : List AuditParameters) :
    ((access policy actor name).runOn d now ps).1 = policy.required d actor name [.read] := by
  rw [access, Inquiry.runOn_collect_bind, Inquiry.runOn_bind, AccessPolicy.runOn_require]
  cases policy.required d actor name [.read] <;> rfl

theorem runOn_access_bind_eq_ok {α : Type} {policy : AccessPolicy} {actor : String}
    {d : StoreData} {now : Time.Instant} {ps : List AuditParameters} {f : String → Inquiry α}
    {a : α} (h : ((access policy actor name >>= f).runOn d now ps).1 = .ok a) :
    ∃ held ps', d.find? name = some held ∧ policy.permits d name actor .read = true ∧
      ((f held.name).runOn d now ps').1 = .ok a := by
  have hrequired := runOn_access policy actor name d now ps
  rw [Inquiry.runOn_bind] at h
  rcases hrun : (access policy actor name).runOn d now ps with ⟨fault | stored, ps'⟩ <;>
    rw [hrun] at h hrequired
  · cases h
  · obtain ⟨held, hheld, hpermits, rfl⟩ := AccessPolicy.required_eq_ok.1 hrequired.symm
    exact ⟨held, ps', hheld, hpermits, h⟩

theorem shown_of_get {v : Version} (hsound : c.store.data.Sound)
    (h : ((get c.policy caller.actor name).runOn c.store.data occasion.now []).1 = .ok v) :
    ∃ held, c.store.data.find? name = some held ∧ c.Allows name caller.actor .read ∧
      v = held.latest := by
  obtain ⟨held, ps, hheld, hpermits, h⟩ := runOn_access_bind_eq_ok h
  rw [latestVersion, Inquiry.runOn_data_bind, hsound.find?_name hheld] at h
  cases h
  exact ⟨held, hheld, permits_iff_allows.1 hpermits, rfl⟩

theorem shown_of_versions {vs : List Version} (hsound : c.store.data.Sound)
    (h : ((versions c.policy caller.actor name).runOn c.store.data occasion.now []).1 = .ok vs) :
    ∃ held, c.store.data.find? name = some held ∧ c.Allows name caller.actor .read ∧
      vs = held.versions.reverse := by
  obtain ⟨held, ps, hheld, hpermits, h⟩ := runOn_access_bind_eq_ok h
  rw [Inquiry.runOn_data_bind, hsound.find?_name hheld] at h
  cases h
  exact ⟨held, hheld, permits_iff_allows.1 hpermits, rfl⟩

theorem shown_of_isInquiry {call : Call} {answer : Answer} {v : Version}
    (hsound : c.store.data.Sound) (hcall : call.isInquiry = true)
    (hanswer : (c.perform caller occasion call).1 = .ok answer) (hv : v ∈ answer.shown) :
    ∃ name, c.Allows name caller.actor .read ∧ c.store.data.Stores (Naming.key name) v := by
  cases call with
  | get name =>
    obtain ⟨a, ha, rfl⟩ := inquire_eq_ok.1 hanswer
    obtain ⟨held, hheld, hallowed, rfl⟩ := shown_of_get hsound ha
    cases List.mem_singleton.1 hv
    exact ⟨name, hallowed, held, hheld, held.latest_mem_versions⟩
  | versions name =>
    obtain ⟨a, ha, rfl⟩ := inquire_eq_ok.1 hanswer
    obtain ⟨held, hheld, hallowed, rfl⟩ := shown_of_versions hsound ha
    exact ⟨name, hallowed, held, hheld, List.mem_reverse.1 hv⟩
  | findByName | findByPath | findFolders | listPermissions =>
    obtain ⟨a, -, rfl⟩ := inquire_eq_ok.1 hanswer
    cases hv
  | set | generate | regenerate | renewBelow | delete | setPermissions | deletePermission =>
    cases hcall

theorem IssuesAs.occasion_id {p : CertificateParameters} {actor : String} {v : Version}
    (h : c.IssuesAs actor occasion p name v) : v.id.occasion = occasion.number := by
  obtain ⟨_, -, _, _, _, -, -, rfl⟩ := h
  rfl

theorem Makes.occasion_id {call : Call} {actor target : String} {v : Version}
    (h : c.Makes actor occasion call target v) : v.id.occasion = occasion.number := by
  cases call with
  | set =>
    obtain ⟨n, rfl⟩ := h
    rfl
  | generate =>
    obtain ⟨_, -, hissued⟩ := h
    exact hissued.occasion_id
  | regenerate =>
    obtain ⟨_, _, _, -, -, -, hissued⟩ := h
    exact hissued.occasion_id
  | renewBelow | delete | get | versions | findByName | findByPath | findFolders | listPermissions
  | setPermissions | deletePermission => cases h

inductive Source (c : Custodian) (actor : String) (occasion : Occasion) (call : Call)
    (v : Version) : Prop
  | read {name : String} (hallowed : c.Allows name actor .read)
    (hv : c.store.data.Stores (Naming.key name) v)
  | kept {name normal : String} {permissions : List Permission} {held : Credential}
    (hcall : call.Writes name permissions false) (hname : Naming.normalize name = .ok normal)
    (hheld : c.store.data.find? normal = some held) (hallowed : c.Allows normal actor .write)
    (hv : v = held.latest)
  | made (hv : v.id.occasion = occasion.number)

theorem source_of_shown {call : Call} {answer : Answer} {v : Version}
    (hsound : c.store.data.Sound) (hanswer : (c.perform caller occasion call).1 = .ok answer)
    (hv : v ∈ answer.shown) : c.Source caller.actor occasion call v := by
  have hone : ∀ {made : Version}, v ∈ (Answer.version made).shown → v = made := fun h =>
    List.mem_singleton.1 h
  have heffect := effect_of_perform hsound hanswer
  generalize (c.perform caller occasion call).2.store.data = d' at heffect
  cases heffect with
  | looked hcall =>
    obtain ⟨name, hallowed, hstored⟩ := shown_of_isInquiry hsound hcall hanswer hv
    exact .read hallowed hstored
  | kept hcall hname hheld hallowed => exact .kept hcall hname hheld hallowed (hone hv)
  | appended _ _ _ _ hmade => exact .made (hone hv ▸ hmade.occasion_id)
  | created _ _ _ _ hmade => exact .made (hone hv ▸ hmade.occasion_id)
  | regenerated _ _ hmade => exact .made (hone hv ▸ hmade.occasion_id)
  | renewed | deleted | permissionsSet | permissionDeleted => cases hv

/-- What had been stored before a call is shown by it only to those who may read it, or else may
write it and have it left as it is. -/
theorem ReachableOn.recorded_of_shown {config : Config} {issuer : Issuer} {used : List Nat}
    (h : ReachableOn config issuer used c) (henforced : config.aclsEnabled = true)
    (hnew : occasion.number ∉ used) {call : Call} {answer : Answer} {key : String}
    {held : Credential} {v : Version}
    (hheld : c.store.data.credentials.get? key = some held) (hstored : v ∈ held.versions)
    (hanswer : (c.perform caller occasion call).1 = .ok answer) (hv : v ∈ answer.shown) :
    (c.store.data.operationsFor held.name caller.actor).contains .read = true ∨
      (c.store.data.operationsFor held.name caller.actor).contains .write = true ∧
        v = held.latest ∧ ∃ name normal permissions, call.Writes name permissions false ∧
          Naming.normalize name = .ok normal ∧ Naming.key normal = key := by
  have hsound : c.store.data.Sound := h.reachable.sound
  have hacls : c.config.aclsEnabled = true := h.reachable.config_eq ▸ henforced
  have hkey : Naming.key held.name = key := hsound.keyed hheld
  have hsame : ∀ {other}, c.store.data.Stores other v → other = key := fun hother =>
    (h.numbered.apart hother ⟨held, hheld, hstored⟩ rfl).1
  cases source_of_shown hsound hanswer hv with
  | read hallowed hread => exact .inl (hallowed.recorded hacls ((hsame hread).trans hkey.symm))
  | @kept name normal permissions found hcall hname hfound hallowed hlatest =>
    have hnormal : Naming.key normal = key :=
      hsame ⟨found, hfound, hlatest ▸ found.latest_mem_versions⟩
    have hfound : c.store.data.credentials.get? (Naming.key normal) = some found := hfound
    rw [hnormal, hheld] at hfound
    cases hfound
    exact .inr ⟨hallowed.recorded hacls (hnormal.trans hkey.symm), hlatest, name, normal,
      permissions, hcall, hname, hnormal⟩
  | made hoccasion =>
    have hdrawn := h.numbered.drawn ⟨held, hheld, hstored⟩
    exact absurd (hoccasion ▸ hdrawn) hnew

def shared (operations : List Operation) : Custodian :=
  ((empty {} Issuance.issue).perform ⟨.ofNat 0, "alice"⟩ ⟨0, ⟨0, 0⟩⟩
    (.set "/db" (.password "secret") [⟨"bob", .ofList operations⟩] true)).2

def secret : Version := ⟨⟨0, 0⟩, ⟨0, 0⟩, .password "secret"⟩

theorem get?_shared (operations : List Operation) :
    (shared operations).store.data.credentials.get? "/db" = some ⟨⟨0, 1⟩, "/db", secret, []⟩ := rfl

theorem reachableOn_shared (operations : List Operation) :
    ReachableOn {} Issuance.issue [0] (shared operations) := by
  have hnew : (⟨0, ⟨0, 0⟩⟩ : Occasion).number ∉ [] := List.not_mem_nil
  exact ReachableOn.start.perform _ hnew _

theorem ReachableOn.recorded_of_shown_get :
    ReachableOn {} Issuance.issue [0] (shared [.read]) ∧
      ((shared [.read]).perform ⟨.ofNat 1, "bob"⟩ ⟨1, ⟨1, 0⟩⟩ (.get "/DB")).1 =
        .ok (.version secret) ∧
      ((shared [.read]).store.data.operationsFor "/db" "bob").contains .read = true := by
  have hc := reachableOn_shared [.read]
  have hanswer : ((shared [.read]).perform ⟨.ofNat 1, "bob"⟩ ⟨1, ⟨1, 0⟩⟩ (.get "/DB")).1 =
      .ok (.version secret) := rfl
  have hshown := hc.recorded_of_shown rfl (by decide) (get?_shared _) List.mem_cons_self hanswer
    List.mem_cons_self
  rcases hshown with hread | ⟨-, -, _, _, _, hwrites, -⟩
  · exact ⟨hc, hanswer, hread⟩
  · cases hwrites

/-- Bob, who may write and not read, is shown what is there when he asks not to overwrite it. -/
theorem shown_without_read :
    ReachableOn {} Issuance.issue [0] (shared [.write]) ∧
      (shared [.write]).store.data.Stores "/db" secret ∧
      ((shared [.write]).perform ⟨.ofNat 1, "bob"⟩ ⟨1, ⟨1, 0⟩⟩
        (.set "/db" (.password "guess") [] false)).1 = .ok (.version secret) ∧
      ((shared [.write]).store.data.operationsFor "/db" "bob").contains .read = false :=
  ⟨reachableOn_shared [.write], ⟨_, get?_shared _, List.mem_cons_self⟩, rfl, rfl⟩

end Custodian

end Strongroom
