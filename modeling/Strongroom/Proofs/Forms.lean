import Strongroom.Access.Permission
import Strongroom.Certificate.Form
import Strongroom.Proofs.AddressText
import Strongroom.Proofs.JsonText
import Strongroom.Proofs.TimeText
import Strongroom.Proofs.UuidText

/-! What each record is written as tells the record. A field is found under its name whatever comes
before it, as long as no name comes twice. -/

namespace Strongroom

namespace Json

/-- The document that is written for the value tells it: the document is plain, and it is read as
the value. -/
structure Tells {α : Type} (toJson : α → Json) (ofJson? : Json → Option α) (a : α) : Prop where
  plain : (toJson a).Plain
  read : ofJson? (toJson a) = some a

section Values

variable {α : Type} {toJson : α → Json} {ofJson? : Json → Option α}

theorem tells_string (s : String) : Tells string toText? s := ⟨.text s, rfl⟩

theorem tells_bool (b : Bool) : Tells bool toBool? b := ⟨.bool b, rfl⟩

theorem plain_nat (n : Nat) : (nat n).Plain := .number fun _ => rfl

theorem toNat?_nat {limit n : Nat} (h : n ≤ limit) : (nat n).toNat? limit = some n := by
  simp [nat, toNat?, Number.toNat?, h]

theorem tells_uint32 (n : UInt32) :
    Tells (fun n : UInt32 => nat n.toNat) (fun j => (j.toNat? maxUInt32).map UInt32.ofNat) n where
  plain := plain_nat _
  read := by
    have hlimit : n.toNat ≤ maxUInt32 := Nat.le_of_lt_succ n.toNat_lt
    rw [toNat?_nat hlimit, Option.map_some, UInt32.ofNat_toNat]

theorem tells_optional {o : Option α} (hnull : ∀ a, toJson a ≠ null)
    (h : ∀ a ∈ o, Tells toJson ofJson? a) : Tells (optional toJson) (toOption? ofJson?) o := by
  cases o with
  | none => exact ⟨.null, rfl⟩
  | some a =>
    have ha := h a rfl
    refine ⟨ha.plain, ?_⟩
    rw [optional, toOption?, ha.read]
    · rfl
    · exact hnull a

theorem tells_list {items : List α} (h : ∀ a ∈ items, Tells toJson ofJson? a) :
    Tells (list toJson) (toList? ofJson?) items where
  plain := by
    refine .array fun j hj => ?_
    obtain ⟨a, ha, rfl⟩ := List.mem_map.1 hj
    exact (h a ha).plain
  read := by
    have hid : items.map id = items := List.map_id items
    exact (mapM_map_of_forall fun a ha => (h a ha).read).trans (congrArg some hid)

theorem tells_optionalText (s : Option String) : Tells optionalText (toOption? toText?) s :=
  tells_optional (fun _ => nofun) fun s _ => tells_string s

theorem tells_texts (texts : Option (List String)) :
    Tells (optional (list string)) (toOption? (toList? toText?)) texts :=
  tells_optional (fun _ => nofun) fun _ _ => tells_list fun s _ => tells_string s

theorem tells_number (n : Option UInt32) :
    Tells (optional fun n : UInt32 => nat n.toNat)
      (toOption? fun j => (j.toNat? maxUInt32).map UInt32.ofNat) n :=
  tells_optional (fun _ => nofun) fun n _ => tells_uint32 n

theorem tells_flag (b : Option Bool) : Tells (optional bool) (toOption? toBool?) b :=
  tells_optional (fun _ => nofun) fun b _ => tells_bool b

theorem plain_record {members : List (String × Json)} (h : ∀ m ∈ members, m.2.Plain) :
    (record members).Plain := by
  refine .object (fun member hmember => ?_) fun member hmember => ?_
  · obtain ⟨m, -, rfl⟩ := List.mem_map.1 hmember
    rfl
  · obtain ⟨m, hm, rfl⟩ := List.mem_map.1 hmember
    exact h m hm

end Values

namespace Fields

variable {names : List String} {members : List (String × Json)}

theorem ofMembers_map (hknown : ∀ m ∈ members, m.1 ∈ names) (hnodup : (members.map (·.1)).Nodup) :
    ofMembers names (members.map fun m => (some m.1, m.2)) = some members := by
  induction members with
  | nil => rfl
  | cons m members ih =>
    obtain ⟨key, value⟩ := m
    rw [List.map_cons, List.nodup_cons] at hnodup
    have hkey : names.contains key = true := List.contains_iff_mem.2 (hknown _ List.mem_cons_self)
    have hfresh : members.any (·.1 = key) = false := by
      simp only [List.any_eq_false, decide_eq_true_eq]
      rintro m hm rfl
      exact hnodup.1 (List.mem_map.2 ⟨m, hm, rfl⟩)
    have hrest := ih (fun m hm => hknown m (List.mem_cons_of_mem _ hm)) hnodup.2
    rw [List.map_cons, ofMembers, hrest, Option.bind_eq_bind, Option.bind_some, if_pos hkey, hfresh,
      if_neg Bool.false_ne_true]

theorem ofJson?_record (hnames : members.map (·.1) = names) (hnodup : names.Nodup) :
    ofJson? names (record members) = some ⟨false, members⟩ := by
  subst hnames
  rw [record, ofJson?, ofMembers_map (fun m hm => List.mem_map_of_mem hm) hnodup, Option.map_some]

theorem mem_of_ofMembers {members : List (Option String × Json)} {found : List (String × Json)}
    (h : ofMembers names members = some found) {m : String × Json} (hm : m ∈ found) :
    (some m.1, m.2) ∈ members := by
  induction members generalizing found with
  | nil =>
    cases h
    cases hm
  | cons member members ih =>
    obtain ⟨_ | key, value⟩ := member
    · cases h
    rw [ofMembers] at h
    obtain ⟨rest, hrest, h⟩ := Option.bind_eq_some_iff.1 h
    split at h
    · split at h
      · cases h
      · cases h
        rcases List.mem_cons.1 hm with rfl | hm
        · exact List.mem_cons_self
        · exact List.mem_cons_of_mem _ (ih hrest hm)
    · cases h
      exact List.mem_cons_of_mem _ (ih hrest hm)

theorem get?_eq_none {fields : Fields} (h : ofJson? names (record members) = some fields)
    {name : String} (hname : name ∉ members.map (·.1)) : fields.get? name = none := by
  obtain ⟨found, hfound, rfl⟩ := Option.map_eq_some_iff.1 h
  refine List.lookup_eq_none_iff.2 fun m hm => ?_
  obtain ⟨member, hmember, hsame⟩ := List.mem_map.1 (mem_of_ofMembers hfound hm)
  have hkey : member.1 = m.1 := Option.some.inj (congrArg Prod.fst hsame)
  rw [bne_iff_ne]
  rintro rfl
  exact hname (hkey ▸ List.mem_map_of_mem hmember)

theorem get?_cons (positional : Bool) (member : String × Json) (name : String) :
    (⟨positional, member :: members⟩ : Fields).get? name =
      if name = member.1 then some member.2 else (⟨positional, members⟩ : Fields).get? name := by
  rw [get?, List.lookup_cons]
  split <;> simp_all [get?]

end Fields

theorem tells_of_fields {α : Type} {toJson : α → Json} {names : List String}
    {members : List (String × Json)} {build : Fields → Option α} {a : α}
    (hjson : toJson a = record members) (hnames : members.map (·.1) = names) (hnodup : names.Nodup)
    (hplain : ∀ m ∈ members, m.2.Plain) (hbuild : build ⟨false, members⟩ = some a) :
    Tells toJson (fun j => (Fields.ofJson? names j).bind build) a where
  plain := hjson ▸ plain_record hplain
  read := by rw [hjson, Fields.ofJson?_record hnames hnodup, Option.bind_some, hbuild]

end Json

open Json

theorem Operation.tells (op : Operation) : Tells Operation.toJson Operation.ofJson? op := by
  cases op <;> exact ⟨.text _, rfl⟩

theorem OperationSet.ofList_toList (s : OperationSet) : ofList s.toList = s := by
  ext op
  cases op <;> simp [ofList, toList, Operation.all]

theorem OperationSet.tells (s : OperationSet) :
    Tells OperationSet.toJson OperationSet.ofJson? s := by
  have hlist : Tells (list Operation.toJson) (toList? Operation.ofJson?) s.toList :=
    tells_list fun op _ => op.tells
  refine ⟨hlist.plain, ?_⟩
  rw [toJson, ofJson?, hlist.read, Option.map_some, ofList_toList]

theorem AuditCode.tells (code : AuditCode) : Tells AuditCode.toJson AuditCode.ofJson? code := by
  cases code <;> exact ⟨.text _, rfl⟩

theorem Uuid.tells (u : Uuid) : Tells Uuid.toJson Uuid.ofJson? u where
  plain := .text _
  read := by rw [ofJson?, toJson, (tells_string _).read, Option.bind_some, ofText?_text]

theorem Time.Instant.Legible.tells {t : Instant} (h : t.Legible) :
    Tells Instant.toJson Instant.ofJson? t where
  plain := .text _
  read := by rw [ofJson?, toJson, (tells_string _).read, Option.bind_some, h.ofText?_text]

theorem tells_status (status : UInt16) : Tells statusToJson statusOfJson? status where
  plain := plain_nat _
  read := by
    have hlimit : status.toNat ≤ maxUInt16 := Nat.le_of_lt_succ status.toNat_lt
    rw [statusOfJson?, statusToJson, toNat?_nat hlimit, Option.map_some, UInt16.ofNat_toNat]

section Records

theorem OperationRecord.tells {r : OperationRecord} (h : r.time.Legible) :
    Tells OperationRecord.toJson OperationRecord.ofJson? r := by
  have hallowed : Tells (list Operation.toJson) (toList? Operation.ofJson?) r.allowed :=
    tells_list fun op _ => op.tells
  refine tells_of_fields rfl rfl (by decide) ?_ ?_
  · simp [r.request.tells.plain, (tells_string _).plain, r.code.tells.plain,
      (tells_optionalText _).plain, hallowed.plain, (tells_bool _).plain, (tells_status _).plain,
      h.tells.plain]
  · simp [Fields.required, Fields.nullable, Fields.get?_cons, r.request.tells.read,
      (tells_string _).read, r.code.tells.read, (tells_optionalText _).read, hallowed.read,
      (tells_bool _).read, (tells_status _).read, h.tells.read]

theorem RequestRecord.tells {r : RequestRecord} (h : r.time.Legible) :
    Tells RequestRecord.toJson RequestRecord.ofJson? r := by
  refine tells_of_fields rfl rfl (by decide) ?_ ?_
  · simp [r.request.tells.plain, (tells_string _).plain, (tells_status _).plain, h.tells.plain]
  · simp [Fields.required, Fields.get?_cons, r.request.tells.read, (tells_string _).read,
      (tells_status _).read, h.tells.read]

theorem AuthFailureRecord.tells {r : AuthFailureRecord} (h : r.time.Legible) :
    Tells AuthFailureRecord.toJson AuthFailureRecord.ofJson? r := by
  refine tells_of_fields rfl rfl (by decide) ?_ ?_
  · simp [r.request.tells.plain, (tells_string _).plain, (tells_status _).plain, h.tells.plain]
  · simp [Fields.required, Fields.get?_cons, r.request.tells.read, (tells_string _).read,
      (tells_status _).read, h.tells.read]

theorem Permission.tells (p : Permission) : Tells Permission.toJson Permission.ofJson? p := by
  refine tells_of_fields rfl rfl (by decide) ?_ ?_
  · simp [(tells_string _).plain, p.operations.tells.plain]
  · simp [Fields.required, Fields.get?_cons, (tells_string _).read, p.operations.tells.read]

theorem PermissionsView.tells (v : PermissionsView) :
    Tells PermissionsView.toJson PermissionsView.ofJson? v := by
  have hpermissions : Tells (list Permission.toJson) (toList? Permission.ofJson?) v.permissions :=
    tells_list fun p _ => p.tells
  refine tells_of_fields rfl rfl (by decide) ?_ ?_
  · simp [(tells_string _).plain, hpermissions.plain]
  · simp [Fields.required, Fields.get?_cons, (tells_string _).read, hpermissions.read]

theorem OperationRecord.ofJson?_eq_none {members : List (String × Json)}
    (h : "operation" ∉ members.map (·.1)) : OperationRecord.ofJson? (record members) = none := by
  rw [ofJson?]
  cases hfields : Fields.ofJson? fieldNames (record members) with
  | none => rfl
  | some fields => simp [Fields.required, Fields.get?_eq_none hfields h]

theorem RequestRecord.ofJson?_eq_none {members : List (String × Json)}
    (h : "actor" ∉ members.map (·.1)) : RequestRecord.ofJson? (record members) = none := by
  rw [ofJson?]
  cases hfields : Fields.ofJson? fieldNames (record members) with
  | none => rfl
  | some fields => simp [Fields.required, Fields.get?_eq_none hfields h]

end Records

section Requests

theorem AlternativeName.ofTagged?_tag (n : AlternativeName) :
    ofTagged? (string n.tag) (string n.valueText) = some n := by
  cases n with
  | ip address => simp [ofTagged?, toName?, string, toText?, tag, valueText, address.ofText?_text]
  | dns name => simp [ofTagged?, toName?, string, toText?, tag, valueText]

theorem AlternativeName.tells (n : AlternativeName) :
    Tells AlternativeName.toJson AlternativeName.ofJson? n where
  plain := plain_record <| by simp [(tells_string _).plain]
  read := by
    have hfound := @Fields.ofMembers_map ["type", "value"]
      [("type", string n.tag), ("value", string n.valueText)] (by simp) (by simp)
    have htag : List.lookup "type" [("type", string n.tag), ("value", string n.valueText)] =
      some (string n.tag) := rfl
    have hvalue : List.lookup "value" [("type", string n.tag), ("value", string n.valueText)] =
      some (string n.valueText) := rfl
    have hfirst : valueFirst ([("type", string n.tag), ("value", string n.valueText)].map fun m =>
      (some m.1, m.2)) = false := rfl
    rw [toJson, record, ofJson?, hfound]
    simp only [Option.bind_eq_bind, Option.bind_some, htag, hvalue, hfirst, Bool.false_and,
      Bool.false_eq_true, if_false, n.ofTagged?_tag]

theorem Subject.plain_of_mem {s : Subject} {m : String × Json} (h : m ∈ s.toMembers) :
    m.2.Plain := by
  simp only [toMembers, List.mem_cons, List.not_mem_nil, or_false] at h
  rcases h with rfl | rfl | rfl | rfl | rfl | rfl <;> exact (tells_optionalText _).plain

theorem Subject.tells (s : Subject) : Tells Subject.toJson Subject.ofJson? s := by
  refine tells_of_fields rfl rfl (by decide) (fun _ => plain_of_mem) ?_
  rw [ofFields?, toMembers]
  simp [Fields.defaulted, Fields.get?_cons, (tells_optionalText _).read]

theorem isHoldable_optionalText (depth : Nat) (s : Option String) :
    (optionalText s).isHoldable depth = true := by
  cases s <;> rfl

theorem Subject.membersHoldable (depth : Nat) (s : Subject) :
    membersHoldable depth (s.toMembers.map fun m => (some m.1, m.2)) = true := by
  simp [toMembers, Json.membersHoldable, isHoldable_optionalText]

def CertificateRequest.ownMembers (r : CertificateRequest) : List (String × Json) :=
  [("alternative_names", .optional (list string) r.alternativeNames),
    ("key_usage", .optional (list string) r.keyUsage),
    ("extended_key_usage", .optional (list string) r.purposes),
    ("key_length", .optional (fun n : UInt32 => nat n.toNat) r.keyLength),
    ("duration", .optional (fun n : UInt32 => nat n.toNat) r.duration),
    ("ca", .optionalText r.signer),
    ("is_ca", .optional .bool r.isAuthority),
    ("self_sign", .optional .bool r.selfSign)]

theorem CertificateRequest.toJson_eq (r : CertificateRequest) :
    r.toJson = record (r.subject.toMembers ++ r.ownMembers) := rfl

theorem CertificateRequest.plain_of_mem_ownMembers {r : CertificateRequest} {m : String × Json}
    (h : m ∈ r.ownMembers) : m.2.Plain := by
  simp only [ownMembers, List.mem_cons, List.not_mem_nil, or_false] at h
  rcases h with rfl | rfl | rfl | rfl | rfl | rfl | rfl | rfl
  · exact (tells_texts _).plain
  · exact (tells_texts _).plain
  · exact (tells_texts _).plain
  · exact (tells_number _).plain
  · exact (tells_number _).plain
  · exact (tells_optionalText _).plain
  · exact (tells_flag _).plain
  · exact (tells_flag _).plain

theorem CertificateRequest.filter_isOwn (r : CertificateRequest) :
    ((r.subject.toMembers ++ r.ownMembers).map fun m => (some m.1, m.2)).filter isOwn =
        r.ownMembers.map (fun m => (some m.1, m.2)) ∧
      ((r.subject.toMembers ++ r.ownMembers).map fun m => (some m.1, m.2)).filter (!isOwn ·) =
        r.subject.toMembers.map (fun m => (some m.1, m.2)) := by
  constructor <;> rfl

theorem CertificateRequest.tells (r : CertificateRequest) :
    Tells CertificateRequest.toJson CertificateRequest.ofJson? r where
  plain := plain_record fun m hm =>
    (List.mem_append.1 hm).elim Subject.plain_of_mem plain_of_mem_ownMembers
  read := by
    obtain ⟨hown, hheld⟩ := r.filter_isOwn
    have hfields : Fields.ofJson? ownFieldNames (record r.ownMembers) = some ⟨false, _⟩ :=
      Fields.ofJson?_record rfl (by decide)
    have hsubject : Subject.ofJson? (record r.subject.toMembers) = some r.subject :=
      r.subject.tells.read
    rw [toJson_eq, record, ofJson?, hown, hheld, ← record, ← record, hfields,
      r.subject.membersHoldable, hsubject, ownMembers]
    simp [Fields.defaulted, Fields.get?_cons, (tells_texts _).read, (tells_number _).read,
      (tells_optionalText _).read, (tells_flag _).read]

end Requests

end Strongroom
