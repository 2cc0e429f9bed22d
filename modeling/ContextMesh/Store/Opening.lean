import ContextMesh.Store.Verify

/-!
Opening a store. A file without tables is given the schema; any other file has to be of this
version, with this schema and without dangling references, and is left as it is. All of it is one
transaction.
-/

set_option autoImplicit false
set_option relaxedAutoImplicit false

namespace ContextMesh.Store

open Checked

/-- OA-02 database schema version. -/
def STORE_SCHEMA_VERSION : ℤ := 1

/-! ### Reading the version -/

/-- The number that decimal digits state. -/
def digitsValue (value : ℕ) : List Char → Option ℕ
  | [] => some value
  | c :: rest => if c.isDigit then digitsValue (value * 10 + (c.toNat - 48)) rest else none

/-- A sign, if any, and at least one digit, within 64 bits. -/
def parseI64 (text : String) : Option ℤ :=
  match text.toList with
  | [] | ['-'] | ['+'] => none
  | '-' :: digits => do
    let value ← digitsValue 0 digits
    if value ≤ 2 ^ 63 then some (-(value : ℤ)) else none
  | '+' :: digits => do
    let value ← digitsValue 0 digits
    if value < 2 ^ 63 then some value else none
  | digits => do
    let value ← digitsValue 0 digits
    if value < 2 ^ 63 then some value else none

/-- The version that a file states. -/
def schemaVersion (db : Database) : Except StoreError ℤ := do
  ensure (db.objects.count ("table", "metadata") = 1) .migrationFailed
  match (db.metadata.filter fun entry ↦ entry.1 = "schema_version").map Prod.snd with
  | [.text value] => required (parseI64 value) .migrationFailed
  | _ => .error .migrationFailed

/-! ### The schema -/

/-- The objects that the schema script creates, in its order. The indexes that the engine adds by
itself are not listed. -/
def SCHEMA_OBJECTS : List (String × String) :=
  [("table", "metadata"), ("table", "contexts"), ("table", "authorized_authors"),
    ("table", "events"), ("table", "parent_edges"), ("table", "local_refs"),
    ("table", "remote_refs"), ("trigger", "events_no_update"), ("trigger", "events_no_delete"),
    ("trigger", "edges_no_update"), ("trigger", "edges_no_delete"),
    ("trigger", "authors_no_update"), ("trigger", "authors_no_delete"),
    ("trigger", "contexts_transition_only"), ("trigger", "contexts_no_delete")]

/-- The metadata that the schema script writes. -/
def SCHEMA_METADATA : List (String × SqlValue) :=
  [("schema_version", .text "1"), ("schema_fingerprint", .text STORE_SCHEMA_FINGERPRINT)]

/-- The characters of a name without regard to the case of ASCII letters. -/
def caseless (name : String) : List Char := name.toList.map Char.toLower

/-- Two objects that cannot be in one file; triggers have names of their own. -/
def clashes (a b : String × String) : Prop :=
  (a.1 = "trigger" ↔ b.1 = "trigger") ∧ caseless a.2 = caseless b.2

instance (a b : String × String) : Decidable (clashes a b) := by
  unfold clashes
  infer_instance

/-- `name LIKE 'sqlite_%'`. -/
def sqliteName (name : String) : Bool :=
  7 ≤ (caseless name).length ∧ (caseless name).take 6 = "sqlite".toList

/-- The tables of a file, except those of the engine. -/
def tableCount (db : Database) : ℕ :=
  db.objects.countP fun object ↦ object.1 = "table" ∧ ¬ sqliteName object.2

theorem Tables.keyed_empty : Tables.empty.Keyed where
  contexts := .nil
  authors := List.nodup_nil
  events := .nil
  edges := List.nodup_nil
  localRefs := List.nodup_nil
  remoteRefs := List.nodup_nil

/-- Runs the schema script on a file without tables. -/
def installSchema (db : Database) : Except StoreError Database := do
  ensure (∀ object ∈ SCHEMA_OBJECTS, ∀ taken ∈ db.objects, ¬ clashes object taken) .migrationFailed
  .ok ⟨SCHEMA_METADATA, db.objects ++ SCHEMA_OBJECTS, .empty, Tables.keyed_empty⟩

/-- The transaction of an opening. -/
def migrate (db : Database) : Except StoreError Database := do
  if tableCount db = 0 then do
    let installed ← installSchema db
    verifyObjects installed
    .ok installed
  else do
    let version ← schemaVersion db
    ensure (version ≤ STORE_SCHEMA_VERSION) .newerSchema
    ensure (version = STORE_SCHEMA_VERSION) .migrationFailed
    verifyObjects db
    .ok db

/-- The file after an opening, and whether the store is open. -/
def openStore (fault : Option Fault) (db : Database) : Database × Except StoreError Unit :=
  match fault with
  | some (.refused error) => (db, .error error)
  | some .lost => (db, (migrate db).bind fun _ ↦ .error .indeterminateCommit)
  | some .unacknowledged =>
    match migrate db with
    | .ok after => (after, .error .indeterminateCommit)
    | .error error => (db, .error error)
  | none =>
    match migrate db with
    | .ok after => (after, .ok ())
    | .error error => (db, .error error)

end ContextMesh.Store
