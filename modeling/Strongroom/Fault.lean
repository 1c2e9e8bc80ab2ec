import Strongroom.Armor
import Strongroom.Text.Decimal

/-!
What can go wrong, by cause, and the three things said about it: the status, the message for the
operator and the response for the caller. Denials have one response whatever their cause, and so
have internal faults.
-/

namespace Strongroom

inductive Denial
  | credentialMissing
  | insufficientPermission
deriving DecidableEq, Repr

inductive ParameterCode
  | missingSigner
  | unknownKeyUsage
  | unknownPurpose
  | keyLength
  | duration
  | missingAuthority
  | authorityAndSelfSign
  | emptyRequest
  | missingName
  | malformedName
  | typeMismatch
  | notACertificate
  | missingActor
  | notAnAuthority
  | badRequest
  | alternativeName
  | other (code : String)
deriving DecidableEq, Repr

inductive Breach
  | armor (fault : Armor.Fault)
  | label (found : String)
  | certificate
  | missingSigner (signer : String)
  | revisited (root name : String)
  | notCertified (name : String)
  | danglingSigner (name signer : String)
  | unsigned (name : String)
  | vanished (name : String)
  | keyMismatch (signer : String)
  | described (text : String)
deriving DecidableEq, Repr

inductive IssuingFault
  | noSigner
  | validity
  | issuance
  | described (text : String)
deriving DecidableEq, Repr

inductive ConfigFault
  | unreadable (path : String)
  | malformed
  | zeroInterval
  | daysRetained (days : Nat)
  | keyLength (length : Nat)
  | duration (days : Nat)
  | described (text : String)
deriving DecidableEq, Repr

inductive Fault
  | notFound (cause : Denial)
  | forbidden (cause : Denial)
  | invalid (code : ParameterCode) (token : Option String)
  | integrity (breach : Breach)
  | issuing (fault : IssuingFault)
  | config (fault : ConfigFault)
  | io (text : String)
deriving DecidableEq, Repr

def Denial.name : Denial → String
  | credentialMissing => "CredentialMissing"
  | insufficientPermission => "InsufficientPermission"

namespace ParameterCode

def name : ParameterCode → String
  | missingSigner => "missing_signed_by"
  | unknownKeyUsage => "invalid_key_usage"
  | unknownPurpose => "invalid_extended_key_usage"
  | keyLength => "invalid_key_length"
  | duration => "invalid_duration"
  | missingAuthority => "missing_signing_ca"
  | authorityAndSelfSign => "ca_and_self_sign"
  | emptyRequest => "missing_certificate_parameters"
  | missingName => "missing_credential_name"
  | malformedName => "invalid_credential_name"
  | typeMismatch => "type_mismatch"
  | notACertificate => "not_a_certificate"
  | missingActor => "missing_actor"
  | notAnAuthority => "not_a_ca"
  | badRequest => "bad_request"
  | alternativeName => "invalid_alternative_name"
  | other code => code

def known : List ParameterCode :=
  [missingSigner, unknownKeyUsage, unknownPurpose, keyLength, duration, missingAuthority,
    authorityAndSelfSign, emptyRequest, missingName, malformedName, typeMismatch, notACertificate,
    missingActor, notAnAuthority, badRequest, alternativeName]

def ofName (name : String) : ParameterCode :=
  (known.find? (·.name = name)).getD (other name)

def response (code : ParameterCode) (token : String) : String :=
  match code with
  | missingSigner => "You must specify a signing CA. Please update and retry your request."
  | unknownKeyUsage =>
    "The provided key usage '" ++ token ++ "' is not supported. Valid values include " ++
      "'digital_signature', 'non_repudiation', 'key_encipherment', 'data_encipherment', " ++
      "'key_agreement', 'key_cert_sign', 'crl_sign', 'encipher_only' and 'decipher_only'."
  | unknownPurpose =>
    "The provided extended key usage '" ++ token ++ "' is not supported. Valid values include " ++
      "'client_auth', 'server_auth', 'code_signing', 'email_protection' and 'timestamping'."
  | keyLength =>
    "The provided key length is not supported. Valid values include '2048', '3072' and '4096'."
  | duration => "The provided duration must be between 1 and 3650 days."
  | missingAuthority =>
    "A signing CA, self_sign or is_ca must be provided to generate a certificate."
  | authorityAndSelfSign => "A certificate cannot be both self-signed and signed by a CA."
  | emptyRequest => "You must specify at least one subject field or alternative name."
  | missingName =>
    "A credential name must be provided. Please validate your input and retry your request."
  | malformedName =>
    "The credential name '" ++ token ++ "' contains invalid characters or empty path segments."
  | typeMismatch =>
    "The credential type cannot be modified. Please delete the credential if you wish to " ++
      "create it with a different type."
  | notACertificate => "The referenced credential is not a certificate."
  | missingActor => "An actor must be provided for every permission entry."
  | notAnAuthority => "The credential '" ++ token ++ "' is not a certificate authority."
  | badRequest =>
    "The request could not be fulfilled because the request path or body did not meet " ++
      "expectation. Please check the documentation for required formatting and retry your request."
  | alternativeName => "invalid parameter: invalid_alternative_name"
  | other code => "invalid parameter: " ++ code

end ParameterCode

def Armor.Fault.message : Armor.Fault → String
  | missingHeader => "no header line"
  | malformedHeader => "the header line has no label"
  | missingFooter => "no footer line"
  | malformedBody => "the body is not base 64"

def Breach.message : Breach → String
  | armor fault => "invalid certificate PEM: " ++ fault.message
  | label found => "expected a CERTIFICATE block, found " ++ found
  | certificate => "invalid certificate: malformed document"
  | missingSigner signer => "missing signing CA " ++ signer
  | revisited root name => "signing graph below " ++ root ++ " revisits " ++ name
  | notCertified name => name ++ " is in the signing graph but holds no certificate"
  | danglingSigner name signer => name ++ " references missing CA " ++ signer
  | unsigned name => name ++ " is neither self-signed nor linked to a CA"
  | vanished name => "credential " ++ name ++ " vanished inside its transaction"
  | keyMismatch signer => "private key of " ++ signer ++ " does not match its certificate"
  | described text => text

def IssuingFault.message : IssuingFault → String
  | noSigner => "certificate is not self-signed and no signing CA was supplied"
  | validity => "validity out of range: not within four-digit years"
  | issuance => "certificate issuance failed: the signing certificate cannot be used"
  | described text => text

def ConfigFault.message : ConfigFault → String
  | unreadable path => "failed to read " ++ path
  | malformed => "not a configuration"
  | zeroInterval => "audit_logs.cleanup_interval_secs must be greater than zero"
  | daysRetained days =>
    "audit_logs.days_retained must be between 1 and 36500, got " ++ Text.natText days
  | keyLength length =>
    "certificates.default_key_length must be one of [2048, 3072, 4096], got " ++
      Text.natText length
  | duration days =>
    "certificates.default_duration_days must be between 1 and 3650, got " ++ Text.natText days
  | described text => text

namespace Fault

def validation (code : ParameterCode) : Fault := .invalid code none

def isDenial : Fault → Bool
  | notFound _ | forbidden _ => true
  | _ => false

def status : Fault → UInt16
  | notFound _ => 404
  | forbidden _ => 403
  | invalid _ _ => 400
  | integrity _ | issuing _ | config _ | io _ => 500

def denialResponse : String :=
  "The request could not be completed because the credential does not exist or you do not have " ++
    "sufficient authorization."

def internalResponse : String :=
  "An application error occurred. Please contact your administrator."

def response : Fault → String
  | notFound _ | forbidden _ => denialResponse
  | invalid code token => code.response (token.getD "")
  | _ => internalResponse

def message : Fault → String
  | notFound cause => "not found or not authorized (" ++ cause.name ++ ")"
  | forbidden cause => "forbidden (" ++ cause.name ++ ")"
  | invalid code (some token) => "invalid parameter " ++ code.name ++ ": " ++ token
  | invalid code none => "invalid parameter " ++ code.name
  | integrity breach => "integrity violation: " ++ breach.message
  | issuing fault => "certificate generation failed: " ++ fault.message
  | config fault => "configuration error: " ++ fault.message
  | io text => "io error: " ++ text

def hasSource : Fault → Bool
  | io _ => true
  | _ => false

end Fault

end Strongroom
