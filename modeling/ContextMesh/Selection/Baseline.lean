import ContextMesh.Delta.Coverage
import ContextMesh.Receipt.Record
import Mathlib.Data.Prod.Lex

/-!
Task-conditioned selection. Candidate sources are read from the store, scored by how often the
terms of the task occur in their text, and compiled into references within a budget. The baseline
selector keeps exactly the sources with a positive score.
-/

set_option autoImplicit false
set_option relaxedAutoImplicit false

namespace ContextMesh.Selection

open Checked Ordered Contract Store Ledger ContextMesh.Delta Receipt

/-- Hard ceiling on the candidate event set one selection may read. -/
def MAX_SELECTION_CANDIDATES : ℕ := 65536

/-- Hard ceiling on selected event references. -/
def MAX_SELECTED_EVENTS : ℕ := 4096

/-- Hard ceiling on the total exported byte size of a selection. -/
def MAX_SELECTED_BYTES : ℕ := 2097152

def NO_SOURCES_NOTE : String := "no sources in context history"

def NO_MATCH_NOTE : String := "no source matches the task"

def BASELINE_IDENTITY : String := "ob-baseline-lexical-tf"

def BASELINE_VERSION : String := "0.1.0"

def BASELINE_CONFIG : Bytes := asBytes "{}"

inductive SelectionError
  | emptyTask
  | invalidTask
  | budgetExceeded
  | unverifiableSource
  | tooManyCandidates
  | selectorError
  deriving DecidableEq

structure SelectionBudget where
  maxSelectedEvents : ℕ
  maxExportedBytes : ℕ
  deriving DecidableEq

def SelectionBudget.default : SelectionBudget := ⟨MAX_SELECTED_EVENTS, MAX_SELECTED_BYTES⟩

/-- Why a selection is empty. -/
inductive SelectionMarker
  | noSources
  | noMatch
  deriving DecidableEq

/-! ### Text -/

/-- The Unicode property White_Space. -/
def isWhiteSpace (c : Char) : Bool :=
  let n := c.toNat
  (9 ≤ n ∧ n ≤ 13) ∨ n = 0x20 ∨ n = 0x85 ∨ n = 0xA0 ∨ n = 0x1680 ∨ (0x2000 ≤ n ∧ n ≤ 0x200A) ∨
    n = 0x2028 ∨ n = 0x2029 ∨ n = 0x202F ∨ n = 0x205F ∨ n = 0x3000

/-- Nothing is left of the text when white space is trimmed. -/
def isBlank (text : String) : Bool := text.toList.all isWhiteSpace

/-- The byte at an index, zero behind the end. -/
def byteAt (bytes : Bytes) (index : ℕ) : ℕ := (bytes.getD index 0).toNat

def isContinuation (byte : ℕ) : Bool := 0x80 ≤ byte ∧ byte ≤ 0xBF

/-- The second bytes that may follow the first byte of three or four. -/
def isSecond (first second : ℕ) : Bool :=
  if first = 0xE0 then 0xA0 ≤ second ∧ second ≤ 0xBF
  else if first = 0xED then 0x80 ≤ second ∧ second ≤ 0x9F
  else if first = 0xF0 then 0x90 ≤ second ∧ second ≤ 0xBF
  else if first = 0xF4 then 0x80 ≤ second ∧ second ≤ 0x8F
  else isContinuation second

def replacement : Char := Char.ofNat 0xFFFD

/-- The character at the front of some bytes, and the bytes it takes. A front that no character
begins with, or the beginning of one that breaks off, is a replacement character. -/
def frontChar (bytes : Bytes) : Char × ℕ :=
  let first := byteAt bytes 0
  let second := byteAt bytes 1
  let third := byteAt bytes 2
  let fourth := byteAt bytes 3
  if first < 0x80 then (Char.ofNat first, 1)
  else if 0xC2 ≤ first ∧ first ≤ 0xDF then
    if isContinuation second then (Char.ofNat (first % 32 * 64 + second % 64), 2)
    else (replacement, 1)
  else if 0xE0 ≤ first ∧ first ≤ 0xEF then
    if ¬ isSecond first second then (replacement, 1)
    else if ¬ isContinuation third then (replacement, 2)
    else (Char.ofNat (first % 16 * 4096 + second % 64 * 64 + third % 64), 3)
  else if 0xF0 ≤ first ∧ first ≤ 0xF4 then
    if ¬ isSecond first second then (replacement, 1)
    else if ¬ isContinuation third then (replacement, 2)
    else if ¬ isContinuation fourth then (replacement, 3)
    else (Char.ofNat
      (first % 8 * 262144 + second % 64 * 4096 + third % 64 * 64 + fourth % 64), 4)
  else (replacement, 1)

/-- The characters of at most so many fronts. -/
def frontChars : ℕ → Bytes → List Char
  | 0, _ | _, [] => []
  | fronts + 1, byte :: rest =>
    let front := frontChar (byte :: rest)
    front.1 :: frontChars fronts ((byte :: rest).drop front.2)

/-- Reads bytes as UTF-8, with replacement characters for what is none. -/
def fromUtf8Lossy (bytes : Bytes) : String := String.ofList (frontChars bytes.length bytes)

/-- The terms read so far and the one being read. -/
structure Terms where
  tokens : List String
  current : String

/-- Reads one character: an ASCII letter or digit continues a term, anything else ends it. -/
def readTerm (terms : Terms) (c : Char) : Terms :=
  if c.isAlphanum then ⟨terms.tokens, terms.current.push c.toLower⟩
  else if terms.current ≠ "" then ⟨terms.tokens ++ [terms.current], ""⟩
  else terms

/-- Splits ASCII text into lowercase alphanumeric terms. -/
def tokenize (text : String) : List String :=
  let terms := text.toList.foldl readTerm ⟨[], ""⟩
  if terms.current ≠ "" then terms.tokens ++ [terms.current] else terms.tokens

variable (B : Boundary)

/-- The text of a source: its canonical payload bytes, read as UTF-8. -/
def sourceText (source : SourceEvent) : String :=
  match canonicalize B source.payload with
  | .ok bytes => fromUtf8Lossy bytes
  | .error _ => ""

/-- Scores one source as the sum of task-term frequencies in its text. -/
def scoreSource (taskTerms : List String) (source : SourceEvent) : ℕ :=
  let tokens := tokenize (source.kind ++ " " ++ sourceText B source)
  (taskTerms.map fun term ↦ tokens.count term).sum

/-! ### Selectors -/

structure Selector where
  identity : String
  version : String
  configHash : String
  select : TaskRecordV1 → List SourceEvent → Except SelectionError (List SourceReference)

/-- Ranks the sources with a positive score, best first and then in the order of their texts. -/
def rank (task : TaskRecordV1) (sources : List SourceEvent) :
    Except SelectionError (List SourceReference) := do
  let taskTerms := tokenize task.verbatim
  ensure (taskTerms ≠ []) .emptyTask
  let scored := sources.map fun source ↦ (scoreSource B taskTerms source, source)
  let sorted := sort (fun entry : ℕ × SourceEvent ↦
    toLex (OrderDual.toDual entry.1, entry.2.event.text B)) scored
  .ok ((sorted.filter fun entry ↦ entry.1 > 0).map fun entry ↦ .fromSource entry.2)

variable (blake3 : Bytes → Fixed 32)

/-- The baseline selector at a version. -/
def BaselineSelector.withVersion (version : String) : Selector :=
  ⟨BASELINE_IDENTITY, version, taskContentHash blake3 BASELINE_CONFIG, rank B⟩

def BaselineSelector.new : Selector := BaselineSelector.withVersion B blake3 BASELINE_VERSION

/-! ### Compilation -/

/-- References within a budget. -/
structure CompiledContext where
  references : List SourceReference
  budget : SelectionBudget
  totalBytes : ℕ

/-- Compiles references under a budget; what is beyond it is refused, never truncated. -/
def compileContext (references : List SourceReference) (budget : SelectionBudget) :
    Except SelectionError CompiledContext := do
  ensure (¬ (references.length > MAX_SELECTED_EVENTS ∨
    references.length > budget.maxSelectedEvents)) .budgetExceeded
  let totalBytes := (references.map SourceReference.payloadBytes).sum
  ensure (¬ (totalBytes > MAX_SELECTED_BYTES ∨ totalBytes > budget.maxExportedBytes))
    .budgetExceeded
  .ok ⟨references, budget, totalBytes⟩

structure SelectionResult where
  context : CompiledContext
  marker : Option SelectionMarker
  uncertainty : List String
  selector : SelectorRecordV1

def SelectionResult.references (result : SelectionResult) : List SourceReference :=
  result.context.references

/-- Reads one candidate. -/
def loadSource (t : Tables) (id : EventId) : Except SelectionError SourceEvent := do
  let found ← (event B t id).mapError fun _ ↦ .selectorError
  let event ← required found .unverifiableSource
  (SourceEvent.fromSigned B event).mapError fun _ ↦ .unverifiableSource

/-- Selects and compiles a bounded source set for a task over a candidate set. -/
def selectSources (t : Tables) (taskText : String) (structured : Option Json)
    (budget : SelectionBudget) (selector : Selector) (candidates : List EventId) :
    Except SelectionError SelectionResult := do
  ensure (¬ isBlank taskText) .emptyTask
  let task ← (TaskRecordV1.fromVerbatim B blake3 taskText structured).mapError fun _ ↦ .invalidTask
  let candidates := normalize (EventId.text B) candidates
  ensure (candidates.length ≤ MAX_SELECTION_CANDIDATES) .tooManyCandidates
  let provenance ← (SelectorRecordV1.new selector.identity selector.version
    selector.configHash).mapError fun _ ↦ .selectorError
  if candidates = [] then do
    let context ← compileContext [] budget
    .ok ⟨context, some .noSources, [NO_SOURCES_NOTE], provenance⟩
  else do
    let sources ← mapEach (loadSource B t) candidates
    let ranked ← selector.select task sources
    let context ← compileContext ranked budget
    if ranked = [] then .ok ⟨context, some .noMatch, [NO_MATCH_NOTE], provenance⟩
    else .ok ⟨context, none, [], provenance⟩

variable {B blake3}

/-! ### What is selected -/

theorem compileContext_eq_ok {references : List SourceReference} {budget : SelectionBudget}
    {context : CompiledContext} : compileContext references budget = .ok context ↔
      (references.length ≤ MAX_SELECTED_EVENTS ∧
        references.length ≤ budget.maxSelectedEvents) ∧
      ((references.map SourceReference.payloadBytes).sum ≤ MAX_SELECTED_BYTES ∧
        (references.map SourceReference.payloadBytes).sum ≤ budget.maxExportedBytes) ∧
      ⟨references, budget, (references.map SourceReference.payloadBytes).sum⟩ = context := by
  unfold compileContext
  dsimp only
  rw [unit_bind_eq_ok, ensure_eq_ok, unit_bind_eq_ok, ensure_eq_ok, Except.ok.injEq, not_or, not_or,
    Nat.not_lt, Nat.not_lt, Nat.not_lt, Nat.not_lt]

/-- The baseline selector keeps the sources with a positive score. -/
theorem mem_rank {task : TaskRecordV1} {sources : List SourceEvent} {ranked : List SourceReference}
    (hok : rank B task sources = .ok ranked) (reference : SourceReference) :
    reference ∈ ranked ↔ ∃ source ∈ sources,
      0 < scoreSource B (tokenize task.verbatim) source ∧ .fromSource source = reference := by
  obtain ⟨-, hok⟩ := unit_bind_eq_ok.mp hok
  rw [Except.ok.injEq] at hok
  subst hok
  simp only [List.mem_map, List.mem_filter, mem_sort, decide_eq_true_eq]
  constructor
  · rintro ⟨entry, ⟨⟨source, hsource, rfl⟩, hscore⟩, rfl⟩
    exact ⟨source, hsource, hscore, rfl⟩
  · rintro ⟨source, hsource, hscore, rfl⟩
    exact ⟨_, ⟨⟨source, hsource, rfl⟩, hscore⟩, rfl⟩

theorem length_rank {task : TaskRecordV1} {sources : List SourceEvent}
    {ranked : List SourceReference} (hok : rank B task sources = .ok ranked) :
    ranked.length ≤ sources.length := by
  obtain ⟨-, hok⟩ := unit_bind_eq_ok.mp hok
  rw [Except.ok.injEq] at hok
  rw [← hok, List.length_map]
  refine (List.length_filter_le _ _).trans ?_
  rw [(sort_perm _ _).length_eq, List.length_map]

theorem fromSigned_eq_ok {signed : SignedEventV1} {source : SourceEvent}
    (hok : SourceEvent.fromSigned B signed = .ok source) : source.event = signed.eventId := by
  obtain ⟨payload, -, hok⟩ := bind_eq_ok.mp hok
  rw [Except.ok.injEq] at hok
  rw [← hok]

variable {L : Ledger B}

theorem loadSource_eq_ok (h : L.WellKeyed) {id : EventId} {source : SourceEvent} :
    loadSource B L.tables id = .ok source ↔
      ∃ e ∈ L.events, e.id = id ∧ SourceEvent.fromSigned B e.event = .ok source := by
  rw [loadSource, event_tables h, mapError_ok, ok_bind]
  constructor
  · intro hok
    obtain ⟨found, hfound, hsource⟩ := bind_eq_ok.mp hok
    rw [required_eq_ok, Option.map_eq_some_iff] at hfound
    obtain ⟨e, he, rfl⟩ := hfound
    obtain ⟨hstored, hid⟩ := h.find_eq_some.mp he
    exact ⟨e, hstored, hid, mapError_eq_ok.mp hsource⟩
  · rintro ⟨e, he, hid, hsource⟩
    rw [h.find_eq_some.mpr ⟨he, hid⟩, Option.map_some, required_some, ok_bind, hsource, mapError_ok]

/-- The selection holds the candidates that score above zero for the task. -/
theorem mem_selectSources (h : L.WellKeyed) {taskText version : String} {structured : Option Json}
    {budget : SelectionBudget} {candidates : List EventId} {result : SelectionResult}
    (hok : selectSources B blake3 L.tables taskText structured budget
      (BaselineSelector.withVersion B blake3 version) candidates = .ok result) (id : EventId) :
    id ∈ result.references.map SourceReference.event ↔ id ∈ candidates ∧
      ∃ e ∈ L.events, e.id = id ∧ ∃ source, SourceEvent.fromSigned B e.event = .ok source ∧
        0 < scoreSource B (tokenize taskText) source := by
  obtain ⟨-, hok⟩ := unit_bind_eq_ok.mp hok
  obtain ⟨task, htask, hok⟩ := bind_eq_ok.mp hok
  obtain ⟨-, hok⟩ := unit_bind_eq_ok.mp hok
  obtain ⟨provenance, -, hok⟩ := bind_eq_ok.mp hok
  have hverbatim : task.verbatim = taskText := by
    obtain ⟨-, hnew⟩ := unit_bind_eq_ok.mp (mapError_eq_ok.mp htask)
    rw [Except.ok.injEq] at hnew
    rw [← hnew]
  have hsame : id ∈ normalize (EventId.text B) candidates ↔ id ∈ candidates := mem_normalize
  rw [← hsame]
  split_ifs at hok with hnone
  · obtain ⟨context, hcontext, hok⟩ := bind_eq_ok.mp hok
    obtain ⟨-, -, rfl⟩ := compileContext_eq_ok.mp hcontext
    rw [Except.ok.injEq] at hok
    rw [← hok, hnone]
    simp [SelectionResult.references]
  · obtain ⟨sources, hsources, hok⟩ := bind_eq_ok.mp hok
    obtain ⟨ranked, hranked, hok⟩ := bind_eq_ok.mp hok
    obtain ⟨context, hcontext, hok⟩ := bind_eq_ok.mp hok
    obtain ⟨-, -, rfl⟩ := compileContext_eq_ok.mp hcontext
    have hreferences : result.references = ranked := by
      split_ifs at hok <;> rw [Except.ok.injEq] at hok <;> rw [← hok, SelectionResult.references]
    rw [hreferences]
    simp only [List.mem_map, mem_rank hranked, mem_mapEach hsources, loadSource_eq_ok h, hverbatim]
    constructor
    · rintro ⟨reference, ⟨source, ⟨id', hid, e, he, rfl, hsource⟩, hscore, rfl⟩, rfl⟩
      have hevent : (SourceReference.fromSource source).event = e.id := fromSigned_eq_ok hsource
      rw [hevent]
      exact ⟨hid, e, he, rfl, source, hsource, hscore⟩
    · rintro ⟨hid, e, he, rfl, source, hsource, hscore⟩
      exact ⟨_, ⟨source, ⟨e.id, hid, e, he, rfl, hsource⟩, hscore, rfl⟩, fromSigned_eq_ok hsource⟩

end ContextMesh.Selection
