import ContextMesh.Ledger.Runs
import ContextMesh.Store.Integrity
import ContextMesh.Store.Opening

/-!
The life of a store file: openings by any number of processes, calls of those that have it open, and
crashes, each failed by the database or not. A file that an opening accepts stays one that opens, as
it is, whatever is done to it; a file that is none of this version is never written to.
-/

set_option autoImplicit false
set_option relaxedAutoImplicit false

namespace ContextMesh.Store

open Checked Contract

variable {B : Boundary}

/-! ### Openings -/

/-- The file is a store of this version. -/
structure Accepted (db : Database) : Prop where
  tables : tableCount db ≠ 0
  version : schemaVersion db = .ok STORE_SCHEMA_VERSION
  objects : verifyObjects db = .ok ()

theorem migrate_eq_ok {db after : Database} :
    migrate db = .ok after ↔ (Accepted db ∧ after = db) ∨
      tableCount db = 0 ∧ installSchema db = .ok after ∧ verifyObjects after = .ok () := by
  rw [migrate]
  by_cases hnone : tableCount db = 0
  · rw [if_pos hnone]
    constructor
    · intro h
      obtain ⟨installed, hinstalled, h⟩ := bind_eq_ok.mp h
      obtain ⟨hobjects, h⟩ := unit_bind_eq_ok.mp h
      rw [Except.ok.injEq] at h
      subst h
      exact Or.inr ⟨hnone, hinstalled, hobjects⟩
    · rintro (⟨haccepted, -⟩ | ⟨-, hinstalled, hobjects⟩)
      · exact absurd hnone haccepted.tables
      · exact bind_eq_ok.mpr ⟨after, hinstalled, unit_bind_eq_ok.mpr ⟨hobjects, rfl⟩⟩
  · rw [if_neg hnone]
    constructor
    · intro h
      obtain ⟨version, hversion, h⟩ := bind_eq_ok.mp h
      obtain ⟨-, h⟩ := unit_bind_eq_ok.mp h
      obtain ⟨hsame, h⟩ := unit_bind_eq_ok.mp h
      obtain ⟨hobjects, h⟩ := unit_bind_eq_ok.mp h
      rw [ensure_eq_ok] at hsame
      exact Or.inl ⟨⟨hnone, hsame ▸ hversion, hobjects⟩, (Except.ok.inj h).symm⟩
    · rintro (⟨haccepted, rfl⟩ | ⟨htables, -⟩)
      · rw [haccepted.version, ok_bind, ensure_true le_rfl, ok_bind, ensure_true rfl, ok_bind,
          haccepted.objects, ok_bind]
      · exact absurd htables hnone

/-- A name that no object of the file clashes with is not in the file. -/
theorem count_eq_zero {db : Database} {object : String × String}
    (h : ∀ taken ∈ db.objects, ¬ clashes object taken) : db.objects.count object = 0 :=
  List.count_eq_zero.mpr fun hmem ↦ h object hmem ⟨Iff.rfl, rfl⟩

/-- The schema passes its own checks. -/
theorem installSchema_accepted {db after : Database} (h : installSchema db = .ok after) :
    Accepted after := by
  obtain ⟨hfree, h⟩ := unit_bind_eq_ok.mp h
  rw [ensure_eq_ok] at hfree
  rw [Except.ok.injEq] at h
  subst h
  have honce (object : String × String) (hobject : object ∈ SCHEMA_OBJECTS)
      (hown : SCHEMA_OBJECTS.count object = 1) :
      (db.objects ++ SCHEMA_OBJECTS).count object = 1 := by
    rw [List.count_append, count_eq_zero (hfree object hobject), hown]
  constructor
  · have htables : 0 < SCHEMA_OBJECTS.countP fun object ↦
        object.1 = "table" ∧ ¬ sqliteName object.2 := by decide
    rw [tableCount, List.countP_append]
    omega
  · rw [schemaVersion, ensure_true (honce _ (by decide) (by decide))]
    rfl
  · refine unit_bind_eq_ok.mpr ⟨ensure_eq_ok.mpr rfl, unit_bind_eq_ok.mpr ⟨?_, ?_⟩⟩
    · have hrequired : ∀ object ∈ REQUIRED_OBJECTS, object ∈ SCHEMA_OBJECTS ∧
          SCHEMA_OBJECTS.count object = 1 := by decide
      refine checkEach_eq_ok.mpr fun object hobject ↦ ensure_eq_ok.mpr ?_
      obtain ⟨hmem, hown⟩ := hrequired object hobject
      exact honce object hmem hown
    · have hempty : Tables.empty.ForeignKeys := by decide
      exact ensure_eq_ok.mpr hempty

theorem migrate_accepted {db : Database} (h : Accepted db) : migrate db = .ok db :=
  migrate_eq_ok.mpr (Or.inl ⟨h, rfl⟩)

/-- What an opening accepted opens again as it is. -/
theorem accepted_of_migrate {db after : Database} (h : migrate db = .ok after) :
    Accepted after := by
  rcases migrate_eq_ok.mp h with ⟨haccepted, rfl⟩ | ⟨-, hinstalled, -⟩
  · exact haccepted
  · exact installSchema_accepted hinstalled

/-- A call leaves an accepted file an accepted one, whatever rows it has: the statements keep its
foreign keys. -/
theorem Accepted.call {db : Database} (h : Accepted db) (operation : Operation)
    (fault : Option Fault) : Accepted (db.call B operation fault) where
  tables := h.tables
  version := h.version
  objects := by
    obtain ⟨hfingerprint, hrest⟩ := unit_bind_eq_ok.mp h.objects
    obtain ⟨hrequired, hkeys⟩ := unit_bind_eq_ok.mp hrest
    exact unit_bind_eq_ok.mpr ⟨hfingerprint, unit_bind_eq_ok.mpr ⟨hrequired,
      ensure_eq_ok.mpr (operation.execute_foreignKeys fault (ensure_eq_ok.mp hkeys))⟩⟩

/-- An opening that is refused leaves the file alone. -/
theorem openStore_error {db : Database} {error : StoreError} (h : migrate db = .error error)
    (fault : Option Fault) : (openStore fault db).1 = db ∧ (openStore fault db).2.isOk = false := by
  rcases fault with _ | _ | _ | _
  · simp [openStore, h, Except.isOk, Except.toBool]
  · exact ⟨rfl, rfl⟩
  · simp [openStore, h, Except.isOk, Except.toBool, Except.bind]
  · simp [openStore, h, Except.isOk, Except.toBool]

/-- An opening that is not refused commits, or leaves the file alone and fails. -/
theorem openStore_ok {db after : Database} (h : migrate db = .ok after) (fault : Option Fault) :
    (openStore fault db).1 = after ∨
      (openStore fault db).1 = db ∧ (openStore fault db).2.isOk = false := by
  rcases fault with _ | _ | _ | _
  · left
    rw [openStore, h]
  · exact Or.inr ⟨rfl, rfl⟩
  · right
    simp [openStore, h, Except.isOk, Except.toBool, Except.bind]
  · left
    rw [openStore, h]

/-! ### Lifetimes -/

/-- What becomes of a file, and whether a process has it open: it is opened, called while it is
open, and closed, also by the end of its process. -/
inductive Lifetime (B : Boundary) (start : Database) : Database → Bool → Prop
  | created : Lifetime B start start false
  | opens {d : Database} {opened : Bool} (life : Lifetime B start d opened)
      (fault : Option Fault) :
      Lifetime B start (openStore fault d).1 (opened || (openStore fault d).2.isOk)
  | calls {d : Database} (life : Lifetime B start d true) (operation : Operation)
      (fault : Option Fault) : Lifetime B start (d.call B operation fault) true
  | exits {d : Database} {opened : Bool} (life : Lifetime B start d opened) :
      Lifetime B start d false

variable {start d : Database} {opened : Bool}

/-- A file that cannot be opened is never written to. -/
theorem Lifetime.foreign (life : Lifetime B start d opened) {error : StoreError}
    (hrefused : migrate start = .error error) : d = start ∧ opened = false := by
  induction life with
  | created => exact ⟨rfl, rfl⟩
  | opens life fault ih =>
    obtain ⟨rfl, rfl⟩ := ih
    obtain ⟨hsame, hclosed⟩ := openStore_error hrefused fault
    exact ⟨hsame, by rw [hclosed]; rfl⟩
  | calls life operation fault ih => cases ih.2
  | exits life ih => exact ⟨ih.1, rfl⟩

/-- A file that can be opened has not been written to, or is a store of this version with what calls
made of its rows. -/
theorem Lifetime.accepted (life : Lifetime B start d opened) {first : Database}
    (hfirst : migrate start = .ok first) :
    (d = start ∧ opened = false) ∨ Accepted d ∧ Run B first.tables d.tables := by
  have haccepted := accepted_of_migrate hfirst
  induction life with
  | created => exact Or.inl ⟨rfl, rfl⟩
  | opens life fault ih =>
    rcases ih with ⟨rfl, rfl⟩ | ⟨hopened, hrun⟩
    · rcases openStore_ok hfirst fault with hcommitted | ⟨hsame, hclosed⟩
      · rw [hcommitted]
        exact Or.inr ⟨haccepted, .refl _⟩
      · rw [hsame, hclosed]
        exact Or.inl ⟨rfl, rfl⟩
    · have hsame := openStore_ok (migrate_accepted hopened) fault
      rw [or_iff_left_of_imp And.left] at hsame
      rw [hsame]
      exact Or.inr ⟨hopened, hrun⟩
  | calls life operation fault ih =>
    rcases ih with ⟨-, hclosed⟩ | ⟨hopened, hrun⟩
    · cases hclosed
    · exact Or.inr ⟨hopened.call operation fault, hrun.step operation fault⟩
  | exits life ih => exact ih.imp (fun h ↦ ⟨h.1, rfl⟩) id

/-- Whatever openings, calls and crashes a file lives through, with whatever failures of the
database: a file that is no store of this version is left alone and never opens; and a file that is
one, or that has no tables, opens, with nothing in it but what calls made of its first rows, also
where no store would have these rows. An opening changes the file at most once, from one without
tables to the empty store. -/
theorem lifetime_reopens (life : Lifetime B start d opened) :
    (∀ error, migrate start = .error error → d = start ∧ opened = false) ∧
    ∀ first, migrate start = .ok first →
      ∃ d', openStore none d = (d', .ok ()) ∧ Run B first.tables d'.tables ∧
        (d' = d ∨ d = start ∧ opened = false ∧ d' = first) ∧
        ∀ fault, (openStore fault d).1 = d ∨ (openStore fault d).1 = d' := by
  refine ⟨fun error hrefused ↦ life.foreign hrefused, fun first hfirst ↦ ?_⟩
  rcases life.accepted hfirst with ⟨rfl, hclosed⟩ | ⟨haccepted, hrun⟩
  · refine ⟨first, by rw [openStore, hfirst], .refl _, Or.inr ⟨rfl, hclosed, rfl⟩, fun fault ↦ ?_⟩
    exact (openStore_ok hfirst fault).symm.imp_left And.left
  · have hmigrates := migrate_accepted haccepted
    refine ⟨d, by rw [openStore, hmigrates], hrun, Or.inl rfl, fun fault ↦ ?_⟩
    exact (openStore_ok hmigrates fault).symm.imp_left And.left

section Golden

open Reference Golden

/-- A file without content. -/
def blank : Database := ⟨[], [], .empty, Tables.keyed_empty⟩

/-- A file is created by an opening that the database does not acknowledge, opened, and provisioned;
the admission of the genesis is not acknowledged either, and the process ends. The file opens again
with the genesis in it. -/
theorem lifetime_reopens_crashed : ∃ (d d' : Database) (opened : Bool),
    Lifetime Golden.B blank d opened ∧ openStore none d = (d', .ok ()) ∧
      Run Golden.B .empty d'.tables ∧ first.row ∈ d'.tables.events := by
  obtain ⟨created, hcreated, hempty⟩ : ∃ created, migrate blank = .ok created ∧
    created.tables = .empty := ⟨_, rfl, rfl⟩
  let provision := Operation.provisionContext ⟨Golden.context, first.id, [Golden.author]⟩
  let admission := Operation.admitEvent first.event .none
  have hlife : Lifetime Golden.B blank
      ((created.call Golden.B provision none).call Golden.B admission (some .unacknowledged))
        false := by
    have hcreates : Lifetime Golden.B blank blank false := .created
    have hreopened := (hcreates.opens (some .unacknowledged)).opens none
    have hfirst : openStore (some .unacknowledged) blank =
        (created, .error .indeterminateCommit) := by rw [openStore, hcreated]
    have hsecond : openStore none created = (created, .ok ()) := by
      rw [openStore, migrate_accepted (accepted_of_migrate hcreated)]
    rw [hfirst, hsecond] at hreopened
    exact ((hreopened.calls provision none).calls admission (some .unacknowledged)).exits
  obtain ⟨d', hopens, hrun, hsame, -⟩ := (lifetime_reopens hlife).2 created hcreated
  refine ⟨_, d', _, hlife, hopens, hempty ▸ hrun, ?_⟩
  have hprovisioned : (created.call Golden.B provision none).tables = provisioned.tables := by
    have hbody : provision.body Golden.B Tables.empty = .ok (provisioned.tables, ()) :=
      Ledger.provisionContext_fresh .empty rfl rfl
    rw [Database.call_tables, hempty]
    exact congrArg Prod.fst (transact_ok hbody).1
  have hrooted : ((created.call Golden.B provision none).call Golden.B admission
      (some .unacknowledged)).tables = rooted.tables := by
    obtain ⟨status, hbody⟩ := Ledger.admit_none provisioned_wellFormed first_admits
    rw [Database.call_tables, hprovisioned, Operation.execute, transact, hbody]
    exact congrArg Ledger.tables (if_pos rfl)
  rcases hsame with rfl | ⟨hblank, -, -⟩
  · rw [hrooted]
    exact List.mem_singleton_self _
  · rw [hblank] at hrooted
    cases congrArg Tables.events hrooted

end Golden

end ContextMesh.Store
