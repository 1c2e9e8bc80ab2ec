import Strongroom.Certificate.KeyUsage
import Strongroom.Certificate.Purpose
import Strongroom.Certificate.Request
import Strongroom.Json.Record

/-!
Requests and the parts of certificates as JSON. The subject's fields stand among those of the
request; with what is unknown they are held until the rest is read.
-/

namespace Strongroom

namespace KeyUsage

def toJson (u : KeyUsage) : Json := .nat u.bits.toNat

def ofJson? (j : Json) : Option KeyUsage :=
  (j.toNat? Json.maxUInt16).map fun n => ⟨UInt16.ofNat n⟩

end KeyUsage

namespace Purpose

def toJson (p : Purpose) : Json := .string p.token

def ofJson? (j : Json) : Option Purpose := j.toName?.bind ofToken?

end Purpose

namespace AlternativeName

def tag : AlternativeName → String
  | ip _ => "ip"
  | dns _ => "dns"

def valueText : AlternativeName → String
  | ip address => address.text
  | dns name => name

def toJson (n : AlternativeName) : Json :=
  .record [("type", .string n.tag), ("value", .string n.valueText)]

def ofTagged? (tag value : Json) : Option AlternativeName := do
  let tag ← tag.toName?
  let text ← value.toText?
  if tag = "ip" then (Network.Address.ofText? text).map ip
  else if tag = "dns" then some (dns text)
  else none

def valueFirst (members : List (Option String × Json)) : Bool :=
  match members.find? fun m => m.1 = some "type" || m.1 = some "value" with
  | some (key, _) => key = some "value"
  | none => false

def ofJson? (j : Json) : Option AlternativeName :=
  match j with
  | .object members => do
    let found ← Json.Fields.ofMembers ["type", "value"] members
    let tag ← found.lookup "type"
    let value ← found.lookup "value"
    if valueFirst members && !value.isHoldable (Json.depthLimit - 1) then none
    else ofTagged? tag value
  | .array [tag, value] => ofTagged? tag value
  | _ => none

end AlternativeName

namespace Subject

def toMembers (s : Subject) : List (String × Json) :=
  [("common_name", .optionalText s.commonName),
    ("organization", .optionalText s.organization),
    ("organization_unit", .optionalText s.organizationUnit),
    ("locality", .optionalText s.locality),
    ("state", .optionalText s.state),
    ("country", .optionalText s.country)]

def toJson (s : Subject) : Json := .record s.toMembers

def fieldNames : List String :=
  ["common_name", "organization", "organization_unit", "locality", "state", "country"]

def ofFields? (fields : Json.Fields) : Option Subject := do
  let text := Json.toOption? Json.toText?
  let commonName ← fields.defaulted "common_name" none text
  let organization ← fields.defaulted "organization" none text
  let organizationUnit ← fields.defaulted "organization_unit" none text
  let locality ← fields.defaulted "locality" none text
  let state ← fields.defaulted "state" none text
  let country ← fields.defaulted "country" none text
  return { commonName, organization, organizationUnit, locality, state, country }

def ofJson? (j : Json) : Option Subject := (Json.Fields.ofJson? fieldNames j).bind ofFields?

end Subject

namespace CertificateRequest

def toJson (r : CertificateRequest) : Json :=
  let texts := Json.optional (Json.list Json.string)
  let number := Json.optional fun n : UInt32 => Json.nat n.toNat
  .record (r.subject.toMembers ++ [
    ("alternative_names", texts r.alternativeNames),
    ("key_usage", texts r.keyUsage),
    ("extended_key_usage", texts r.purposes),
    ("key_length", number r.keyLength),
    ("duration", number r.duration),
    ("ca", .optionalText r.signer),
    ("is_ca", .optional .bool r.isAuthority),
    ("self_sign", .optional .bool r.selfSign)])

def ownFieldNames : List String :=
  ["alternative_names", "key_usage", "extended_key_usage", "key_length", "duration", "ca", "is_ca",
    "self_sign"]

def isOwn (member : Option String × Json) : Bool := member.1.any ownFieldNames.contains

def ofJson? (j : Json) : Option CertificateRequest :=
  match j with
  | .object members => do
    let held := members.filter (!isOwn ·)
    let own ← Json.Fields.ofJson? ownFieldNames (.object (members.filter isOwn))
    let subject ←
      if Json.membersHoldable (Json.depthLimit - 1) held then Subject.ofJson? (.object held)
      else none
    let texts := Json.toOption? (Json.toList? Json.toText?)
    let number := Json.toOption? fun j => (j.toNat? Json.maxUInt32).map UInt32.ofNat
    let flag := Json.toOption? Json.toBool?
    let alternativeNames ← own.defaulted "alternative_names" none texts
    let keyUsage ← own.defaulted "key_usage" none texts
    let purposes ← own.defaulted "extended_key_usage" none texts
    let keyLength ← own.defaulted "key_length" none number
    let duration ← own.defaulted "duration" none number
    let signer ← own.defaulted "ca" none (Json.toOption? Json.toText?)
    let isAuthority ← own.defaulted "is_ca" none flag
    let selfSign ← own.defaulted "self_sign" none flag
    return { subject, alternativeNames, keyUsage, purposes, keyLength, duration, signer,
             isAuthority, selfSign }
  | _ => none

end CertificateRequest

end Strongroom
