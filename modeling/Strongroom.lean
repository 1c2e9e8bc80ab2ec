import Strongroom.Text.Basic
import Strongroom.Text.LowerCase
import Strongroom.Octets
import Strongroom.Dictionary
import Strongroom.Time.Text
import Strongroom.Json.Reader
import Strongroom.Json.Writer
import Strongroom.Json.Record
import Strongroom.Network.Address
import Strongroom.Armor
import Strongroom.Der
import Strongroom.Hash.Sha1
import Strongroom.Signature.Rsa
import Strongroom.Signature.EllipticCurve
import Strongroom.Signature.Edwards
import Strongroom.X509.Verification
import Strongroom.Naming
import Strongroom.Operation
import Strongroom.Uuid
import Strongroom.Certificate.Parameters
import Strongroom.Credential
import Strongroom.Audit.Log
import Strongroom.Audit.Form
import Strongroom.Certificate.Form
import Strongroom.Access.Permission
import Strongroom.Store.Basic
import Strongroom.SigningGraph
import Strongroom.Config
import Strongroom.Api
import Strongroom.Proofs.History
import Strongroom.Proofs.Repetition
import Strongroom.Proofs.Reading
import Strongroom.Proofs.Concealment
import Strongroom.Proofs.Grants
import Strongroom.Proofs.Recording
import Strongroom.Proofs.Enforcement
import Strongroom.Proofs.Signing
import Strongroom.Proofs.Responses
import Strongroom.Proofs.Parameters
import Strongroom.Proofs.Spelling
import Strongroom.Proofs.Entries
import Strongroom.Proofs.LogRuns
import Strongroom.Proofs.Lossless
import Strongroom.Proofs.Separation
import Strongroom.Proofs.Levels
import Strongroom.Proofs.Overriding
import Strongroom.Proofs.Requests
import Strongroom.Proofs.Folders
import Strongroom.Proofs.RenewalRecords
import Strongroom.Proofs.StoredNames
import Strongroom.Proofs.Inheritance
import Strongroom.Proofs.Segments
import Strongroom.Proofs.NameParts
import Strongroom.Proofs.Settings
import Strongroom.Proofs.Decisions
import Strongroom.Proofs.Expiry
import Strongroom.Proofs.Guards
