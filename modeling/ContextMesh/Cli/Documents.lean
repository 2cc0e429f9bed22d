import ContextMesh.Client.Recording
import ContextMesh.Custody.Secrets
import ContextMesh.Sync.Protocol

/-!
What the command line prints. Every process prints one canonical JSON document on one line, the
result of its command or an error with a code, and its exit class is that of the code.
-/

set_option autoImplicit false
set_option relaxedAutoImplicit false

namespace ContextMesh.Cli

open Checked Contract Store Sync Custody

/-- CLI JSON schema version. -/
def CLI_SCHEMA_VERSION : ℕ := 1

/-- Maximum payload/input bytes accepted from files or stdin. -/
def CLI_PAYLOAD_LIMIT : ℕ := PROVIDER_INPUT_LIMIT

/-! ### Errors -/

structure CliError where
  code : String
  exit : ℕ
  details : Json

def usage (details : Json) : CliError := ⟨"usage", 2, details⟩

def validation (details : Json) : CliError := ⟨"validation", 3, details⟩

def conflict (details : Json) : CliError := ⟨"conflict", 4, details⟩

def auth (details : Json) : CliError := ⟨"authentication", 5, details⟩

def notFound (details : Json) : CliError := ⟨"not_found", 6, details⟩

def providerFailure (details : Json) : CliError := ⟨"provider", 7, details⟩

def transport (details : Json) : CliError := ⟨"transport", 8, details⟩

def internal (details : Json) : CliError := ⟨"internal", 9, details⟩

/-- `{"field": field, "reason": reason}` -/
def complaint (field reason : String) : Json :=
  .obj [("field", .str field), ("reason", .str reason)]

/-- `{error:?}` of a contract error. -/
def debugContract : ContractError → String
  | .wireTooLarge => "WireTooLarge"
  | .jsonSyntax => "JsonSyntax"
  | .duplicateKey => "DuplicateKey"
  | .unknownField => "UnknownField"
  | .missingField => "MissingField"
  | .unsupportedVersion => "UnsupportedVersion"
  | .invalidEncoding => "InvalidEncoding"
  | .invalidKind => "InvalidKind"
  | .parentOrder => "ParentOrder"
  | .limitExceeded => "LimitExceeded"
  | .unsafeNumber => "UnsafeNumber"
  | .canonicalization => "Canonicalization"
  | .entropy => "Entropy"
  | .authorMismatch => "AuthorMismatch"
  | .idMismatch => "IdMismatch"
  | .signatureInvalid => "SignatureInvalid"

variable (B : Boundary)

/-- `{head:?}` of a head that may be absent. -/
def debugHead : Option EventId → String
  | some head => "Some(" ++ head.text B ++ ")"
  | none => "None"

/-- `{error:?}` of a store error. -/
def debugStore : StoreError → String
  | .databaseUnavailable => "DatabaseUnavailable"
  | .migrationFailed => "MigrationFailed"
  | .newerSchema => "NewerSchema"
  | .corruptStorage => "CorruptStorage"
  | .contextUnknown => "ContextUnknown"
  | .contextProvisionMismatch => "ContextProvisionMismatch"
  | .genesisMismatch => "GenesisMismatch"
  | .unauthorizedAuthor => "UnauthorizedAuthor"
  | .parentMissing parent => "ParentMissing(" ++ parent.text B ++ ")"
  | .parentContextMismatch parent => "ParentContextMismatch(" ++ parent.text B ++ ")"
  | .eventCollision => "EventCollision"
  | .invalidRefName => "InvalidRefName"
  | .refMutationMismatch => "RefMutationMismatch"
  | .refMissing => "RefMissing"
  | .refAlreadyExists => "RefAlreadyExists"
  | .staleHead current => "StaleHead \x7b current: " ++ debugHead B current ++ " \x7d"
  | .limitExceeded => "LimitExceeded"
  | .entropyUnavailable => "EntropyUnavailable"
  | .reservedEventKind => "ReservedEventKind"
  | .invalidMerge => "InvalidMerge"
  | .projectionCycle => "ProjectionCycle"
  | .projectionLimitExceeded => "ProjectionLimitExceeded"
  | .bundleMalformed => "BundleMalformed"
  | .bundleUnsupportedVersion => "BundleUnsupportedVersion"
  | .bundleOrder => "BundleOrder"
  | .bundleLimitExceeded => "BundleLimitExceeded"
  | .bundleRefInvalid => "BundleRefInvalid"
  | .verificationLimitInvalid => "VerificationLimitInvalid"
  | .indeterminateCommit => "IndeterminateCommit"
  | .contract error => "Contract(" ++ debugContract error ++ ")"

/-- `{error:?}` of a provider error. -/
def debugProvider : ProviderError → String
  | .validation => "Validation"
  | .providerMalformed => "ProviderMalformed"
  | .limitExceeded => "LimitExceeded"
  | .postExecutionConflict result current => "PostExecutionConflict \x7b result: " ++
      result.text B ++ ", current_head: " ++ debugHead B current ++ " \x7d"
  | .store error => "Store(" ++ debugStore B error ++ ")"
  | .internal => "Internal"

def storeError : StoreError → CliError
  | .contextUnknown => notFound (.obj [("subject", .str "context")])
  | .refMissing | .staleHead _ => conflict (.obj [("store_error", .str "conflict")])
  | .parentMissing _ | .parentContextMismatch _ =>
    validation (.obj [("store_error", .str "parent")])
  | .databaseUnavailable | .indeterminateCommit =>
    internal (.obj [("store_error", .str "database")])
  | other => internal (.obj [("store_error", .str (debugStore B other))])

def keyError (_ : KeyFileError) : CliError := auth (.obj [("key_file", .str "unavailable")])

def providerError : ProviderError → CliError
  | .postExecutionConflict result currentHead => providerFailure (.obj
      [("current_head", currentHead.elim .null fun id ↦ .str (id.text B)),
        ("kind", .str "post_execution_conflict"), ("result", .str (result.text B))])
  | .store (.staleHead _) | .store .refMissing =>
    conflict (.obj [("store_error", .str "conflict")])
  | .store .contextUnknown => notFound (.obj [("subject", .str "context")])
  | .validation | .limitExceeded => validation (.obj [("provider_error", .str "validation")])
  | other => providerFailure (.obj [("provider_error", .str (debugProvider B other))])

def syncError (_ : SyncError) : CliError := transport (.obj [("sync", .str "failed")])

/-! ### Documents -/

/-- Canonical bytes, or the two braces of an empty object where there are none. -/
def render (value : Json) : Bytes := (B.toVec value).getD [0x7b, 0x7d]

def successDocument (command : String) (result : Json) : Json :=
  .obj [("command", .str command), ("ok", .bool true), ("result", result),
    ("schema_version", .num (.posInt CLI_SCHEMA_VERSION))]

def failureDocument (code : String) (details : Json) : Json :=
  .obj [("command", .str "?"), ("error", .obj [("code", .str code), ("details", details)]),
    ("ok", .bool false), ("schema_version", .num (.posInt CLI_SCHEMA_VERSION))]

/-- What a process leaves behind: the bytes on its standard output, and its exit class. -/
structure Report where
  stdout : Bytes
  exit : ℕ

def emitSuccess (command : String) (result : Json) : Bytes :=
  render B (successDocument command result) ++ [10]

def emitFailure (code : String) (details : Json) : Bytes :=
  render B (failureDocument code details) ++ [10]

end ContextMesh.Cli
