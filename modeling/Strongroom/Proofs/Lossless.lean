import Strongroom.Proofs.Forms
import Strongroom.Proofs.LogRuns

/-! The forms of JSON lose nothing. The text of a value is read as that value and stands on one
line, so that values written one to a line are read line by line. -/

namespace Strongroom

namespace Json

def linesOf : List Char → List (List Char)
  | [] => []
  | '\n' :: rest => [] :: linesOf rest
  | '\r' :: '\n' :: rest => [] :: linesOf rest
  | c :: rest =>
    match linesOf rest with
    | [] => [[c]]
    | line :: more => (c :: line) :: more

def lined (documents : List Json) : List Char :=
  documents.flatMap fun j => j.compact.toList ++ ['\n']

def readAs? {α : Type} (ofJson? : Json → Option α) (text : String) : Option α :=
  (ofText? text).bind ofJson?

/-- A form that loses nothing of the values with the property: the text of a value is read as the
value and has no line break, and values written one to a line are read line by line. -/
structure Lossless {α : Type} (toJson : α → Json) (ofJson? : Json → Option α) (p : α → Prop) :
    Prop where
  read : ∀ a, p a → readAs? ofJson? (toJson a).compact = some a
  noBreak : ∀ a, p a → ∀ c ∈ (toJson a).compact.toList, c ≠ '\n' ∧ c ≠ '\r'
  lines : ∀ items : List α, (∀ a ∈ items, p a) →
    ((linesOf (lined (items.map toJson))).mapM fun line => readAs? ofJson? (String.ofList line)) =
      some items

theorem Plain.noBreak {j : Json} (h : j.Plain) : ∀ c ∈ j.compact.toList, c ≠ '\n' ∧ c ≠ '\r' := by
  intro c hc
  rw [compact, String.toList_ofList] at hc
  have hcontrol := h.isInline c hc
  constructor <;> rintro rfl <;> exact absurd hcontrol (by decide)

theorem linesOf_append {line : List Char} (h : ∀ c ∈ line, c ≠ '\n' ∧ c ≠ '\r')
    (rest : List Char) : linesOf (line ++ '\n' :: rest) = line :: linesOf rest := by
  induction line with
  | nil => rfl
  | cons c line ih =>
    obtain ⟨hfeed, hreturn⟩ := h c List.mem_cons_self
    rw [List.cons_append, linesOf, ih fun d hd => h d (List.mem_cons_of_mem c hd)]
    · exact hfeed
    · exact fun _ hc _ => hreturn hc

theorem linesOf_lined {documents : List Json} (h : ∀ j ∈ documents, j.Plain) :
    linesOf (lined documents) = documents.map fun j => j.compact.toList := by
  induction documents with
  | nil => rfl
  | cons j documents ih =>
    rw [lined, List.flatMap_cons, List.append_assoc, List.singleton_append,
      linesOf_append (h j List.mem_cons_self).noBreak, List.map_cons, ← lined,
      ih fun k hk => h k (List.mem_cons_of_mem j hk)]

variable {α : Type} {toJson : α → Json} {ofJson? : Json → Option α} {p : α → Prop}

theorem Tells.readAs?_compact {a : α} (h : Tells toJson ofJson? a) :
    readAs? ofJson? (toJson a).compact = some a := by
  rw [readAs?, h.plain.ofText?_compact, Option.bind_some, h.read]

theorem lossless_of_tells (h : ∀ a, p a → Tells toJson ofJson? a) :
    Lossless toJson ofJson? p where
  read a ha := (h a ha).readAs?_compact
  noBreak a ha := (h a ha).plain.noBreak
  lines items hitems := by
    have hplain : ∀ j ∈ items.map toJson, j.Plain := by
      intro j hj
      obtain ⟨a, ha, rfl⟩ := List.mem_map.1 hj
      exact (h a (hitems a ha)).plain
    have hid : items.map id = items := List.map_id items
    rw [linesOf_lined hplain, List.map_map]
    refine (mapM_map_of_forall fun a ha => ?_).trans (congrArg some hid)
    exact (congrArg (readAs? ofJson?) String.ofList_toList).trans
      (h a (hitems a ha)).readAs?_compact

end Json

namespace AuditEvent

def toJson : AuditEvent → Json
  | operation r => r.toJson
  | request r => r.toJson
  | authFailure r => r.toJson

def ofJson? (j : Json) : Option AuditEvent :=
  (OperationRecord.ofJson? j).map operation <|> (RequestRecord.ofJson? j).map request <|>
    (AuthFailureRecord.ofJson? j).map authFailure

theorem line_eq (event : AuditEvent) : event.line = event.toJson.compact := by cases event <;> rfl

theorem tells {event : AuditEvent} (h : event.time.Legible) :
    Json.Tells toJson ofJson? event := by
  cases event with
  | operation r =>
    have hr := OperationRecord.tells h
    refine ⟨hr.plain, ?_⟩
    rw [toJson, ofJson?, hr.read]
    rfl
  | request r =>
    have hr := RequestRecord.tells h
    have hoperation : OperationRecord.ofJson? r.toJson = none :=
      OperationRecord.ofJson?_eq_none (by simp)
    refine ⟨hr.plain, ?_⟩
    rw [toJson, ofJson?, hoperation, hr.read]
    rfl
  | authFailure r =>
    have hr := AuthFailureRecord.tells h
    have hoperation : OperationRecord.ofJson? r.toJson = none :=
      OperationRecord.ofJson?_eq_none (by simp)
    have hrequest : RequestRecord.ofJson? r.toJson = none :=
      RequestRecord.ofJson?_eq_none (by simp)
    refine ⟨hr.plain, ?_⟩
    rw [toJson, ofJson?, hoperation, hrequest, hr.read]
    rfl

def fileChars (events : List AuditEvent) : List Char :=
  events.flatMap fun event => event.line.toList ++ ['\n']

theorem fileChars_eq (events : List AuditEvent) :
    fileChars events = Json.lined (events.map toJson) := by
  simp [fileChars, Json.lined, line_eq, List.flatMap_map]

end AuditEvent

open Json

/-- Requests, subjects, permissions, alternative names and the records of each kind lose nothing
when they are written, records as long as the text of their time tells it; and a file of records of
all kinds is read line by line. -/
theorem forms_lossless :
    Lossless CertificateRequest.toJson CertificateRequest.ofJson? (fun _ => True) ∧
      Lossless Subject.toJson Subject.ofJson? (fun _ => True) ∧
      Lossless Permission.toJson Permission.ofJson? (fun _ => True) ∧
      Lossless PermissionsView.toJson PermissionsView.ofJson? (fun _ => True) ∧
      Lossless AlternativeName.toJson AlternativeName.ofJson? (fun _ => True) ∧
      Lossless OperationRecord.toJson OperationRecord.ofJson? (·.time.Legible) ∧
      Lossless RequestRecord.toJson RequestRecord.ofJson? (·.time.Legible) ∧
      Lossless AuthFailureRecord.toJson AuthFailureRecord.ofJson? (·.time.Legible) ∧
      ∀ events : List AuditEvent, (∀ event ∈ events, event.time.Legible) →
        ((linesOf (AuditEvent.fileChars events)).mapM fun line =>
          readAs? AuditEvent.ofJson? (String.ofList line)) = some events := by
  refine ⟨lossless_of_tells fun r _ => r.tells, lossless_of_tells fun s _ => s.tells,
    lossless_of_tells fun p _ => p.tells, lossless_of_tells fun v _ => v.tells,
    lossless_of_tells fun n _ => n.tells, lossless_of_tells fun _ => OperationRecord.tells,
    lossless_of_tells fun _ => RequestRecord.tells,
    lossless_of_tells fun _ => AuthFailureRecord.tells, fun events hevents => ?_⟩
  rw [AuditEvent.fileChars_eq]
  exact (lossless_of_tells fun _ => AuditEvent.tells).lines events hevents

def AuditEvent.brokenPath : List AuditEvent :=
  [.request ⟨.ofNat 1, "app", "GET", "/a\nb", 404, ⟨1700000000, 999999999⟩⟩,
    .authFailure ⟨.ofNat 2, "GET", "/", "no \"token\"", 401, ⟨1483228799, 1500000000⟩⟩]

theorem brokenPath_read :
    (∀ event ∈ AuditEvent.brokenPath, event.time.Legible) ∧
      ((linesOf (AuditEvent.fileChars AuditEvent.brokenPath)).mapM fun line =>
        readAs? AuditEvent.ofJson? (String.ofList line)) = some AuditEvent.brokenPath := by
  have hlegible : ∀ event ∈ AuditEvent.brokenPath, event.time.Legible := by
    intro event hevent
    simp only [AuditEvent.brokenPath, List.mem_cons, List.not_mem_nil, or_false] at hevent
    rcases hevent with rfl | rfl
    · exact ⟨by decide, by decide⟩
    · exact ⟨by decide, by decide⟩
  exact ⟨hlegible, forms_lossless.2.2.2.2.2.2.2.2 _ hlegible⟩

end Strongroom
