import ContextMesh.Client.Responses
import ContextMesh.Foundation.Pipe
import Mathlib.Data.List.TakeWhile

/-!
A provider that is a process. The whole document of the invocation is written to the standard input
of the process before one byte of its output is read; the output is collected up to a line, and the
line counts only when the process exits with success. The process is any process: it may read and
write in any portions, close its ends, exit, and leave others behind that hold its pipes, and every
wait may fail or run out of time.

Over every schedule, the process is told nothing but the document, and the outcome is that of the
first line of everything it wrote (`exchange_faithful`). What a process can make of an invocation is
exactly one of the frozen failures, or the verdict on one line (`answers_iff`).
-/

set_option autoImplicit false
set_option relaxedAutoImplicit false

namespace ContextMesh.Store

open Checked Contract Piping

/-! ### The document -/

/-- Maximum ancestry events in one invocation document. -/
def MAX_INVOCATION_ANCESTRY : ℕ := 1024

section Document

variable (B : Boundary)

/-- An event as it is embedded: its wire, read as plain JSON. -/
def ancestryValue (event : SignedEventV1) : Except ProviderFault Json := do
  let wire ← (event.toWire B).mapError fun _ ↦
    ⟨"internal", "stored ancestry could not be re-rendered"⟩
  required (fromSlice B wire) ⟨"internal", "ancestry re-parse failed"⟩

def invocationMembers (invocation : InvocationContext) (ancestry : List Json) : Members :=
  [("ancestry", .arr ancestry), ("context", .str (invocation.context.text B)),
    ("input", invocation.input), ("invocation_id", .str invocation.invocationId),
    ("protocol_version", .num (.posInt 1)),
    ("request_event_id", .str (invocation.requestEventId.text B)),
    ("selected_head", .str (invocation.selectedHead.text B))]

/-- The line that is written to the process. -/
def invocationLine (invocation : InvocationContext) : Except ProviderFault Bytes := do
  ensure (invocation.ancestry.length ≤ MAX_INVOCATION_ANCESTRY)
    ⟨"limit_exceeded", "invocation ancestry exceeds its bound"⟩
  let ancestry ← mapEach (ancestryValue B) invocation.ancestry
  let line ← (canonicalize B (.obj (invocationMembers B invocation ancestry))).mapError fun _ ↦
    ⟨"internal", "invocation document rendering failed"⟩
  ensure (line.length + 1 ≤ JSONL_LINE_LIMIT)
    ⟨"limit_exceeded", "invocation document exceeds the JSONL line limit"⟩
  .ok (line ++ [NEWLINE])

theorem invocationMembers_increasing (invocation : InvocationContext) (ancestry : List Json) :
    Increasing (invocationMembers B invocation ancestry) :=
  increasing_of_names ["ancestry", "context", "input", "invocation_id", "protocol_version",
    "request_event_id", "selected_head"] rfl (by decide)

/-- The document is 273 bytes longer at most than what it embeds. -/
theorem length_invocationMembers_le (invocation : InvocationContext) (ancestry : List Json) :
    canonicalLength B (.obj (invocationMembers B invocation ancestry)) ≤
      canonicalLength B (.arr ancestry) + canonicalLength B invocation.input +
        canonicalLength B (.str invocation.invocationId) + 273 := by
  have hcontext : canonicalLength B (.str (invocation.context.text B)) = 50 := by
    rw [ContextId.text, canonicalLength_fixedText _ (by decide)]
    decide
  have hevent (id : EventId) : canonicalLength B (.str (id.text B)) = 50 := by
    rw [EventId.text, canonicalLength_fixedText _ (by decide)]
    decide
  have hversion : canonicalLength B (.num (.posInt 1)) ≤ 16 := B.toVec_posInt_length (by decide)
  have hnames : canonicalLength B (.str "ancestry") = 10 ∧ canonicalLength B (.str "context") = 9 ∧
      canonicalLength B (.str "input") = 7 ∧ canonicalLength B (.str "invocation_id") = 15 ∧
      canonicalLength B (.str "protocol_version") = 18 ∧
      canonicalLength B (.str "request_event_id") = 18 ∧
      canonicalLength B (.str "selected_head") = 15 := by
    refine ⟨?_, ?_, ?_, ?_, ?_, ?_, ?_⟩ <;>
    · rw [canonicalLength_plain (by decide)]
      decide
  rw [canonicalLength_obj (invocationMembers_increasing B invocation ancestry)]
  simp only [invocationMembers, List.map_cons, List.map_nil, List.sum_cons, List.sum_nil,
    List.length_cons, List.length_nil, hcontext, hevent, hnames]
  omega

end Document

/-! ### The exchange -/

/-- The bytes of one read of the output. -/
def CHUNK : ℕ := 8 * 1024

def transport (detail : String) : ProviderFault := ⟨"provider_transport", detail⟩

def timedOut : ProviderFault := ⟨"provider_timeout", "provider execution timed out"⟩

def outputTooLong : ProviderFault :=
  ⟨"limit_exceeded", "provider output exceeds the JSONL line limit"⟩

/-- Why a process does not even start to read. -/
def spawnFailures : List ProviderFault :=
  ["provider process could not start", "provider stdin unavailable",
    "provider stdout unavailable"].map transport

/-- Why an exchange with a process ends without its output. -/
def exchangeFailures : List ProviderFault :=
  ["provider stdin write failed", "provider stdin close failed", "provider stdout read failed",
    "provider exit could not be observed", "provider exited without success"].map transport ++
    [timedOut, outputTooLong]

inductive Child
  | running
  | exited (success : Bool)

/-- Where the exchange waits, and what it has in hand. -/
inductive Stage
  | writing (unsent : Bytes)
  | closing
  | reading (collected : Bytes)
  | waiting (collected : Bytes)
  | ended (result : Except ProviderFault Bytes)

/-- The failure of the operation that the exchange waits for. -/
def Stage.failure : Stage → Option ProviderFault
  | writing _ => some (transport "provider stdin write failed")
  | closing => some (transport "provider stdin close failed")
  | reading _ => some (transport "provider stdout read failed")
  | waiting _ => some (transport "provider exit could not be observed")
  | ended _ => none

/-- How many steps an exchange that waits here has left at most. -/
def Stage.left : Stage → ℕ
  | .writing unsent => unsent.length + JSONL_LINE_LIMIT + 6
  | .closing => JSONL_LINE_LIMIT + 5
  | .reading collected => JSONL_LINE_LIMIT + 4 - collected.length
  | .waiting _ => 1
  | .ended _ => 0

/-- An exchange with its process. -/
structure Dialog where
  stage : Stage
  stdin : Pipe UInt8
  stdout : Pipe UInt8
  child : Child

namespace Dialog

def start (line : Bytes) : Dialog := ⟨.writing line, .empty, .empty, .running⟩

/-- The exchange ends: its ends of the pipes are closed, and a process that still runs is killed. -/
def finish (x : Dialog) (result : Except ProviderFault Bytes) : Dialog where
  stage := .ended result
  stdin := x.stdin.close
  stdout := x.stdout.hangUp
  child := match x.child with
    | .running => .exited false
    | .exited success => .exited success

/-- One step of the exchange. -/
inductive Own (capacity : ℕ) : Dialog → Dialog → Prop
  | write {x : Dialog} {rest : Bytes} (part : Bytes)
      (stage : x.stage = .writing (part ++ rest)) (moves : part ≠ [])
      (room : x.stdin.Accepts capacity part) :
      Own capacity x { x with stage := .writing rest, stdin := x.stdin.put part }
  | written {x : Dialog} (stage : x.stage = .writing []) :
      Own capacity x { x with stage := .closing }
  | close {x : Dialog} (stage : x.stage = .closing) :
      Own capacity x { x with stage := .reading [], stdin := x.stdin.close }
  | collect {x : Dialog} {collected : Bytes} (chunk : Bytes) (count : ℕ)
      (stage : x.stage = .reading collected) (portion : x.stdout.pending.take count = chunk)
      (moves : chunk ≠ []) (within : count ≤ CHUNK)
      (short : (collected ++ chunk).length ≤ JSONL_LINE_LIMIT + 1)
      (unbroken : NEWLINE ∉ collected ++ chunk) :
      Own capacity x
        { x with stage := .reading (collected ++ chunk), stdout := x.stdout.take count }
  | complete {x : Dialog} {collected : Bytes} (chunk : Bytes) (count : ℕ)
      (stage : x.stage = .reading collected) (portion : x.stdout.pending.take count = chunk)
      (moves : chunk ≠ []) (within : count ≤ CHUNK)
      (short : (collected ++ chunk).length ≤ JSONL_LINE_LIMIT + 1)
      (broken : NEWLINE ∈ collected ++ chunk) :
      Own capacity x
        { x with stage := .waiting (collected ++ chunk), stdout := (x.stdout.take count).hangUp }
  | overflow {x : Dialog} {collected : Bytes} (chunk : Bytes) (count : ℕ)
      (stage : x.stage = .reading collected) (portion : x.stdout.pending.take count = chunk)
      (within : count ≤ CHUNK) (long : JSONL_LINE_LIMIT + 1 < (collected ++ chunk).length) :
      Own capacity x (finish { x with stdout := x.stdout.take count } (.error outputTooLong))
  | drained {x : Dialog} {collected : Bytes} (stage : x.stage = .reading collected)
      (ended : x.stdout.ended = true) (dry : x.stdout.pending = []) :
      Own capacity x { x with stage := .waiting collected, stdout := x.stdout.hangUp }
  | accept {x : Dialog} {collected : Bytes} (stage : x.stage = .waiting collected)
      (exited : x.child = .exited true) : Own capacity x (x.finish (.ok collected))
  | reject {x : Dialog} {collected : Bytes} (stage : x.stage = .waiting collected)
      (exited : x.child = .exited false) :
      Own capacity x (x.finish (.error (transport "provider exited without success")))
  | fail {x : Dialog} {fault : ProviderFault} (fails : x.stage.failure = some fault) :
      Own capacity x (x.finish (.error fault))
  | expire {x : Dialog} (waits : ∀ result, x.stage ≠ .ended result) :
      Own capacity x (x.finish (.error timedOut))

/-- One step of the process, or of one that it left behind. -/
inductive Far (capacity : ℕ) : Dialog → Dialog → Prop
  | stdin {x : Dialog} {p : Pipe UInt8} (reads : Empties x.stdin p) :
      Far capacity x { x with stdin := p }
  | stdout {x : Dialog} {p : Pipe UInt8} (writes : Fills capacity x.stdout p) :
      Far capacity x { x with stdout := p }
  | exit {x : Dialog} (success : Bool) (runs : x.child = .running) :
      Far capacity x { x with child := .exited success }

/-- What an exchange gets to, counting its own steps. -/
inductive Run (capacity : ℕ) (line : Bytes) : ℕ → Dialog → Prop
  | start : Run capacity line 0 (.start line)
  | own {n : ℕ} {x y : Dialog} (run : Run capacity line n x) (step : Own capacity x y) :
      Run capacity line (n + 1) y
  | far {n : ℕ} {x y : Dialog} (run : Run capacity line n x) (step : Far capacity x y) :
      Run capacity line n y

end Dialog

/-! ### The provider -/

def ProviderFault.outcome (fault : ProviderFault) : ProviderOutcome :=
  .failure fault.code fault.detail

/-- The outcome of an exchange with its result. -/
def commandOutcome (B : Boundary) (invocationId : String) (result : Except ProviderFault Bytes) :
    ProviderOutcome :=
  match result >>= fun collected ↦ parseProviderLine B collected invocationId with
  | .ok outcome => outcome
  | .error fault => fault.outcome

/-- What the provider may answer to an invocation, over every process. -/
inductive CommandAnswers (B : Boundary) (capacity : ℕ) (invocation : InvocationContext) :
    ProviderOutcome → Prop
  | refused {fault : ProviderFault} (document : invocationLine B invocation = .error fault) :
      CommandAnswers B capacity invocation fault.outcome
  | unstarted {line : Bytes} {fault : ProviderFault}
      (document : invocationLine B invocation = .ok line) (fails : fault ∈ spawnFailures) :
      CommandAnswers B capacity invocation fault.outcome
  | exchanged {line : Bytes} {n : ℕ} {x : Dialog} {result : Except ProviderFault Bytes}
      (document : invocationLine B invocation = .ok line) (run : x.Run capacity line n)
      (stage : x.stage = .ended result) :
      CommandAnswers B capacity invocation (commandOutcome B invocation.invocationId result)

/-! ### First lines -/

section Lines

variable {collected out : Bytes}

theorem firstLine_unbroken (collected : Bytes) : NEWLINE ∉ firstLine collected := by
  intro hmem
  rw [firstLine] at hmem
  have hother := List.mem_takeWhile_imp hmem
  exact of_decide_eq_true hother rfl

theorem firstLine_eq_self (h : NEWLINE ∉ collected) : firstLine collected = collected := by
  refine List.takeWhile_eq_self_iff.mpr fun byte hbyte ↦ decide_eq_true ?_
  rintro rfl
  exact h hbyte

/-- What follows a line leaves it as it is. -/
theorem firstLine_prefix (h : collected <+: out) (hbroken : NEWLINE ∈ collected) :
    firstLine collected = firstLine out := by
  obtain ⟨rest, rfl⟩ := h
  have hshort : (firstLine collected).length ≠ collected.length := by
    intro hlength
    have hwhole : firstLine collected = collected :=
      (List.takeWhile_prefix _).eq_of_length hlength
    rw [← hwhole] at hbroken
    exact firstLine_unbroken collected hbroken
  exact ((List.takeWhile_append).trans (if_neg hshort)).symm

/-- The verdict is that on the first line. -/
theorem parseProviderLine_congr (B : Boundary) (invocationId : String)
    (h : firstLine collected = firstLine out) :
    parseProviderLine B collected invocationId = parseProviderLine B out invocationId := by
  unfold parseProviderLine
  rw [h]

end Lines

/-! ### What an exchange keeps -/

namespace Dialog

variable {capacity n : ℕ} {line collected : Bytes} {x y : Dialog}

/-- The bytes read so far are those of some reads after which the loop has collected as much. -/
def Follows (x : Dialog) (collected : Bytes) : Prop :=
  ∃ chunks : List Bytes, chunks.flatten = x.stdout.read ∧
    ∀ rest, collectOutput [] (chunks ++ rest) = collectOutput collected rest

/-- The output is collected: up to a line, or up to its end. -/
structure Complete (line : Bytes) (x : Dialog) (collected : Bytes) : Prop where
  told : x.stdin.written = line
  collects : ∃ chunks : List Bytes, chunks.flatten = x.stdout.read ∧
    collectOutput [] chunks = .ok collected
  whole : x.stdout.read = collected
  broken : x.stdout.broken = true
  all : NEWLINE ∈ collected ∨ collected = x.stdout.written

/-- What holds throughout: the process is told the line only, and nothing of its output is read
before it was told all of it. -/
structure Bounds (line : Bytes) (x : Dialog) : Prop where
  told : x.stdin.written <+: line
  first : x.stdout.read ≠ [] → x.stdin.written = line
  bounded : x.stdout.read.length ≤ JSONL_LINE_LIMIT + 1 + CHUNK

/-- The exchange ended with a fault. -/
structure Faulted (line : Bytes) (x : Dialog) (fault : ProviderFault) : Prop where
  bounds : x.Bounds line
  known : fault ∈ exchangeFailures
  long : fault.code = "limit_exceeded" → JSONL_LINE_LIMIT + 1 < x.stdout.read.length
  dead : x.child ≠ .running

/-- What is true of an exchange where it waits. -/
def Sound (line : Bytes) (x : Dialog) : Prop :=
  match x.stage with
  | .writing unsent => x.stdin.written ++ unsent = line ∧ x.stdout.read = []
  | .closing => x.stdin.written = line ∧ x.stdout.read = []
  | .reading collected => x.stdin.written = line ∧ x.stdout.read = collected ∧
      collected.length ≤ JSONL_LINE_LIMIT + 1 ∧ x.Follows collected
  | .waiting collected => x.Complete line collected
  | .ended (.ok collected) => x.Complete line collected ∧ x.child = .exited true
  | .ended (.error fault) => x.Faulted line fault

theorem collectOutput_more {chunk : Bytes} {rest : List Bytes} (hmoves : chunk ≠ [])
    (hshort : (collected ++ chunk).length ≤ JSONL_LINE_LIMIT + 1)
    (hunbroken : NEWLINE ∉ collected ++ chunk) :
    collectOutput collected (chunk :: rest) = collectOutput (collected ++ chunk) rest := by
  rw [collectOutput, if_neg (mt List.length_eq_zero_iff.mp hmoves)]
  dsimp only
  rw [ensure_true hshort, ok_bind, if_neg hunbroken]

theorem collectOutput_line {chunk : Bytes} {rest : List Bytes} (hmoves : chunk ≠ [])
    (hshort : (collected ++ chunk).length ≤ JSONL_LINE_LIMIT + 1)
    (hbroken : NEWLINE ∈ collected ++ chunk) :
    collectOutput collected (chunk :: rest) = .ok (collected ++ chunk) := by
  rw [collectOutput, if_neg (mt List.length_eq_zero_iff.mp hmoves)]
  dsimp only
  rw [ensure_true hshort, ok_bind, if_pos hbroken]

theorem Complete.length_le (h : x.Complete line collected) :
    collected.length ≤ JSONL_LINE_LIMIT + 1 := by
  obtain ⟨chunks, -, hcollects⟩ := h.collects
  exact (collectOutput_bounded (Nat.zero_le _) hcollects).2

theorem Complete.bounds (h : x.Complete line collected) : x.Bounds line where
  told := h.told ▸ List.prefix_rfl
  first _ := h.told
  bounded := by
    rw [h.whole]
    exact h.length_le.trans (Nat.le_add_right _ _)

theorem Sound.bounds (h : x.Sound line) : x.Bounds line := by
  rw [Sound] at h
  cases hstage : x.stage with
  | writing unsent =>
    rw [hstage] at h
    obtain ⟨htold, hread⟩ := h
    exact ⟨⟨_, htold⟩, fun hsome ↦ absurd hread hsome, hread ▸ Nat.zero_le _⟩
  | closing =>
    rw [hstage] at h
    obtain ⟨htold, hread⟩ := h
    exact ⟨htold ▸ List.prefix_rfl, fun _ ↦ htold, hread ▸ Nat.zero_le _⟩
  | reading collected =>
    rw [hstage] at h
    obtain ⟨htold, hread, hlength, -⟩ := h
    exact ⟨htold ▸ List.prefix_rfl, fun _ ↦ htold, hread ▸ hlength.trans (Nat.le_add_right _ _)⟩
  | waiting collected =>
    rw [hstage] at h
    exact Complete.bounds h
  | ended result =>
    rw [hstage] at h
    cases result with
    | ok collected => exact h.1.bounds
    | error fault => exact h.bounds

/-! ### Steps of the process -/

theorem Complete.far (h : x.Complete line collected) (step : Far capacity x y) :
    y.Complete line collected := by
  cases step with
  | stdin reads => exact ⟨reads.written_eq.trans h.told, h.collects, h.whole, h.broken, h.all⟩
  | stdout writes =>
    -- the exchange has closed its end, and nothing is written any more
    refine ⟨h.told, ?_, writes.read_eq.trans h.whole, writes.broken_eq.trans h.broken, ?_⟩
    · rw [writes.read_eq]
      exact h.collects
    · rw [writes.written_eq (Or.inr h.broken)]
      exact h.all
  | exit success runs => exact ⟨h.told, h.collects, h.whole, h.broken, h.all⟩

theorem Bounds.far (h : x.Bounds line) (step : Far capacity x y) : y.Bounds line := by
  cases step with
  | stdin reads =>
    refine ⟨?_, fun hread ↦ reads.written_eq.trans (h.first hread), h.bounded⟩
    rw [reads.written_eq]
    exact h.told
  | stdout writes =>
    refine ⟨h.told, fun hread ↦ h.first (writes.read_eq ▸ hread), ?_⟩
    rw [writes.read_eq]
    exact h.bounded
  | exit success runs => exact ⟨h.told, h.first, h.bounded⟩

theorem Far.stage_eq (step : Far capacity x y) : y.stage = x.stage := by
  cases step with
  | stdin => rfl
  | stdout => rfl
  | exit => rfl

theorem Far.told_eq (step : Far capacity x y) : y.stdin.written = x.stdin.written := by
  cases step with
  | stdin reads => exact reads.written_eq
  | stdout => rfl
  | exit => rfl

theorem Far.read_eq (step : Far capacity x y) : y.stdout.read = x.stdout.read := by
  cases step with
  | stdin => rfl
  | stdout writes => exact writes.read_eq
  | exit => rfl

/-- A process that has exited stays as it is. -/
theorem Far.child_eq (step : Far capacity x y) (hdead : x.child ≠ .running) :
    y.child = x.child := by
  cases step with
  | stdin => rfl
  | stdout => rfl
  | exit success runs => exact absurd runs hdead

theorem Sound.far (h : x.Sound line) (step : Far capacity x y) : y.Sound line := by
  rw [Sound] at h ⊢
  rw [step.stage_eq]
  cases hstage : x.stage with
  | writing unsent =>
    rw [hstage] at h
    obtain ⟨htold, hread⟩ := h
    exact ⟨step.told_eq ▸ htold, step.read_eq.trans hread⟩
  | closing =>
    rw [hstage] at h
    obtain ⟨htold, hread⟩ := h
    exact ⟨step.told_eq.trans htold, step.read_eq.trans hread⟩
  | reading collected =>
    rw [hstage] at h
    obtain ⟨htold, hread, hlength, chunks, hchunks, hcollects⟩ := h
    exact ⟨step.told_eq.trans htold, step.read_eq.trans hread, hlength, chunks,
      hchunks.trans step.read_eq.symm, hcollects⟩
  | waiting collected =>
    rw [hstage] at h
    exact Complete.far h step
  | ended result =>
    rw [hstage] at h
    cases result with
    | ok collected =>
      obtain ⟨hcomplete, hexited⟩ := h
      have hdead : x.child ≠ .running := hexited ▸ Child.noConfusion
      exact ⟨hcomplete.far step, (step.child_eq hdead).trans hexited⟩
    | error fault =>
      obtain ⟨hbounds, hknown, hlong, hdead⟩ := h
      exact ⟨hbounds.far step, hknown, step.read_eq ▸ hlong, step.child_eq hdead ▸ hdead⟩

/-! ### Steps of the exchange -/

theorem child_finish (x : Dialog) (result : Except ProviderFault Bytes) :
    (x.finish result).child ≠ .running := by
  rw [finish]
  dsimp only
  split <;> exact Child.noConfusion

/-- An exchange that gives up. -/
theorem Sound.finish {fault : ProviderFault} (hbounds : x.Bounds line)
    (hknown : fault ∈ exchangeFailures)
    (hlong : fault.code = "limit_exceeded" → JSONL_LINE_LIMIT + 1 < x.stdout.read.length) :
    (x.finish (.error fault)).Sound line :=
  ⟨⟨hbounds.told, hbounds.first, hbounds.bounded⟩, hknown, hlong, x.child_finish _⟩

theorem failure_known {stage : Stage} {fault : ProviderFault} (h : stage.failure = some fault) :
    fault ∈ exchangeFailures ∧ fault.code = "provider_transport" := by
  cases stage with
  | ended result => exact nomatch h
  | _ =>
    obtain rfl := Option.some.inj h
    exact ⟨by simp [exchangeFailures], rfl⟩

section Reading

variable {chunk : Bytes} {count : ℕ}

/-- One more read, from which the loop goes on. -/
theorem Follows.snoc (h : x.Follows collected) (hportion : x.stdout.pending.take count = chunk)
    (hmoves : chunk ≠ []) (hshort : (collected ++ chunk).length ≤ JSONL_LINE_LIMIT + 1)
    (hunbroken : NEWLINE ∉ collected ++ chunk) (stage : Stage) :
    Follows { x with stage := stage, stdout := x.stdout.take count } (collected ++ chunk) := by
  obtain ⟨chunks, hread, hcollects⟩ := h
  refine ⟨chunks ++ [chunk], ?_, fun rest ↦ ?_⟩
  · rw [List.flatten_append, List.flatten_singleton, hread]
    exact (Pipe.read_take hportion).symm
  · rw [List.append_assoc, List.singleton_append, hcollects,
      collectOutput_more hmoves hshort hunbroken]

/-- One more read, which completes a line. -/
theorem Follows.completes (h : x.Follows collected) (hportion : x.stdout.pending.take count = chunk)
    (hmoves : chunk ≠ []) (hshort : (collected ++ chunk).length ≤ JSONL_LINE_LIMIT + 1)
    (hbroken : NEWLINE ∈ collected ++ chunk) : ∃ chunks : List Bytes,
      chunks.flatten = (x.stdout.take count).read ∧
      collectOutput [] chunks = .ok (collected ++ chunk) := by
  obtain ⟨chunks, hread, hcollects⟩ := h
  refine ⟨chunks ++ [chunk], ?_, ?_⟩
  · rw [List.flatten_append, List.flatten_singleton, hread, Pipe.read_take hportion]
  · rw [hcollects, collectOutput_line hmoves hshort hbroken]

end Reading

theorem Sound.own (h : x.Sound line) (step : Own capacity x y) : y.Sound line := by
  have hbounds := h.bounds
  rw [Sound] at h
  cases step with
  | write part stage moves room =>
    rw [stage] at h
    obtain ⟨htold, hread⟩ := h
    exact ⟨by rw [Pipe.written_put, List.append_assoc, htold], hread⟩
  | written stage =>
    rw [stage] at h
    obtain ⟨htold, hread⟩ := h
    exact ⟨by rwa [List.append_nil] at htold, hread⟩
  | close stage =>
    rw [stage] at h
    obtain ⟨htold, hread⟩ := h
    exact ⟨htold, hread, Nat.zero_le _, [], hread.symm, fun rest ↦ rfl⟩
  | collect chunk count stage portion moves within short unbroken =>
    rw [stage] at h
    obtain ⟨htold, hread, -, hfollows⟩ := h
    exact ⟨htold, by rw [Pipe.read_take portion, hread], short,
      hfollows.snoc portion moves short unbroken _⟩
  | complete chunk count stage portion moves within short broken =>
    rw [stage] at h
    obtain ⟨htold, hread, -, hfollows⟩ := h
    refine ⟨htold, hfollows.completes portion moves short broken, ?_, rfl, Or.inl broken⟩
    exact (Pipe.read_take portion).trans (congrArg (· ++ _) hread)
  | @overflow collected chunk count stage portion within long =>
    rw [stage] at h
    obtain ⟨htold, hread, hlength, -⟩ := h
    have hafter : (x.stdout.take count).read = collected ++ chunk := by
      rw [Pipe.read_take portion, hread]
    have hchunk : chunk.length ≤ CHUNK := by
      rw [← portion]
      exact (List.length_take_le _ _).trans within
    refine .finish ⟨hbounds.told, fun _ ↦ htold, ?_⟩ (by simp [exchangeFailures]) fun _ ↦
      hafter ▸ long
    dsimp only
    rw [hafter, List.length_append]
    omega
  | drained stage ended dry =>
    rw [stage] at h
    obtain ⟨htold, hread, -, chunks, hchunks, hcollects⟩ := h
    refine ⟨htold, ⟨chunks, hchunks, ?_⟩, hread, rfl, Or.inr ?_⟩
    · have hend := hcollects []
      rwa [List.append_nil] at hend
    · exact hread.symm.trans (Pipe.read_eq_written dry)
  | accept stage exited =>
    rw [stage] at h
    exact ⟨⟨h.told, h.collects, h.whole, rfl, h.all⟩, by rw [Dialog.finish, exited]⟩
  | reject stage exited =>
    exact .finish hbounds (by simp [exchangeFailures]) fun hcode ↦ absurd hcode (by decide)
  | fail fails =>
    obtain ⟨hknown, htransport⟩ := failure_known fails
    exact .finish hbounds hknown fun hcode ↦ absurd (htransport.symm.trans hcode) (by decide)
  | expire waits =>
    exact .finish hbounds (by simp [exchangeFailures]) fun hcode ↦ absurd hcode (by decide)

/-- An exchange that still waits has a step left. -/
theorem Sound.left_pos (h : x.Sound line) (hwaits : ∀ result, x.stage ≠ .ended result) :
    0 < x.stage.left := by
  rw [Sound] at h
  cases hstage : x.stage with
  | reading collected =>
    rw [hstage] at h
    have hlength := h.2.2.1
    rw [Stage.left]
    omega
  | ended result => exact absurd hstage (hwaits result)
  | _ => exact Nat.succ_pos _

theorem Own.spends (step : Own capacity x y) (h : x.Sound line) :
    y.stage.left < x.stage.left := by
  have hends {y' : Dialog} {result : Except ProviderFault Bytes}
      (hwaits : ∀ result, x.stage ≠ .ended result) :
      (y'.finish result).stage.left < x.stage.left := h.left_pos hwaits
  rw [Sound] at h
  cases step with
  | write part stage moves room =>
    have hpart := List.length_pos_iff.mpr moves
    rw [stage]
    simp only [Stage.left, List.length_append]
    omega
  | written stage =>
    rw [stage]
    simp only [Stage.left, List.length_nil]
    omega
  | close stage =>
    rw [stage]
    simp only [Stage.left, List.length_nil]
    omega
  | collect chunk count stage portion moves within short unbroken =>
    have hchunk := List.length_pos_iff.mpr moves
    rw [List.length_append] at short
    rw [stage]
    simp only [Stage.left, List.length_append]
    omega
  | complete chunk count stage portion moves within short broken =>
    rw [List.length_append] at short
    rw [stage]
    simp only [Stage.left]
    omega
  | overflow chunk count stage portion within long =>
    exact hends fun result hended ↦ nomatch stage.symm.trans hended
  | drained stage ended dry =>
    rw [stage] at h ⊢
    have hlength := h.2.2.1
    simp only [Stage.left]
    omega
  | accept stage exited =>
    exact hends fun result hended ↦ nomatch stage.symm.trans hended
  | reject stage exited =>
    exact hends fun result hended ↦ nomatch stage.symm.trans hended
  | fail fails => exact hends fun result hended ↦ by rw [hended] at fails; exact nomatch fails
  | expire waits => exact hends waits

/-! ### Runs -/

theorem Run.sound (h : x.Run capacity line n) : x.Sound line := by
  induction h with
  | start => exact ⟨rfl, rfl⟩
  | own run step ih => exact ih.own step
  | far run step ih => exact ih.far step

/-- The steps taken and the steps left are no more than there were at the start. -/
theorem Run.spent (h : x.Run capacity line n) :
    n + x.stage.left ≤ line.length + JSONL_LINE_LIMIT + 6 := by
  induction h with
  | start => exact (Nat.zero_add _).le
  | own run step ih =>
    have hspends := step.spends run.sound
    omega
  | far run step ih => rwa [step.stage_eq]

/-- The result of an exchange is the output of a process that exited with success after it was told
the whole line: the reads of the output collect it, and its first line is that of everything the
process wrote. -/
structure Heard (line : Bytes) (x : Dialog) (collected : Bytes) : Prop where
  exited : x.child = .exited true
  told : x.stdin.written = line
  collects : ∃ chunks : List Bytes, chunks.flatten = collected ∧
    collectOutput [] chunks = .ok collected
  written : collected <+: x.stdout.written
  line : firstLine collected = firstLine x.stdout.written

theorem Complete.heard (h : x.Complete line collected) (hexited : x.child = .exited true) :
    x.Heard line collected := by
  have hwritten : collected <+: x.stdout.written := h.whole ▸ x.stdout.read_prefix
  refine ⟨hexited, h.told, ?_, hwritten, ?_⟩
  · obtain ⟨chunks, hchunks, hcollects⟩ := h.collects
    exact ⟨chunks, hchunks.trans h.whole, hcollects⟩
  · rcases h.all with hbroken | hall
    · exact firstLine_prefix hwritten hbroken
    · rw [hall]

/-! ### Exchanges that happen -/

section Happens

variable {sent unsent answer : Bytes}

/-- A process that reads byte by byte is told the line. -/
theorem Run.tells (hcapacity : 0 < capacity)
    (h : Run capacity line n ⟨.writing unsent, ⟨sent, [], false, false⟩, .empty, .running⟩) :
    ∃ m, Run capacity line m
      ⟨.closing, ⟨sent ++ unsent, [], false, false⟩, .empty, .running⟩ := by
  induction unsent generalizing n sent with
  | nil =>
    rw [List.append_nil]
    exact ⟨n + 1, h.own (.written rfl)⟩
  | cons byte unsent ih =>
    have hput := h.own (.write [byte] rfl (List.cons_ne_nil _ _) ⟨rfl, rfl, hcapacity⟩)
    obtain ⟨m, hm⟩ := ih (hput.far (.stdin (.take _ 1)))
    rw [List.append_cons]
    exact ⟨m, hm⟩

theorem exists_closing (hcapacity : 0 < capacity) (line : Bytes) :
    ∃ m, Run capacity line m ⟨.closing, ⟨line, [], false, false⟩, .empty, .running⟩ :=
  Run.tells hcapacity .start

/-- A process that writes byte by byte is read so, as long as it completes no line. -/
theorem Run.hears (hcapacity : 0 < capacity)
    (h : Run capacity line n
      ⟨.reading collected, ⟨line, [], true, false⟩, ⟨collected, [], false, false⟩, .running⟩)
    (hunbroken : NEWLINE ∉ collected ++ answer)
    (hshort : (collected ++ answer).length ≤ JSONL_LINE_LIMIT + 1) :
    ∃ m, Run capacity line m ⟨.reading (collected ++ answer), ⟨line, [], true, false⟩,
      ⟨collected ++ answer, [], false, false⟩, .running⟩ := by
  induction answer generalizing n collected with
  | nil =>
    rw [List.append_nil]
    exact ⟨n, h⟩
  | cons byte answer ih =>
    have hput := h.far (.stdout (.put [byte] ⟨rfl, rfl, hcapacity⟩))
    rw [List.append_cons] at hunbroken hshort
    have hread := hput.own (.collect [byte] 1 rfl rfl (List.cons_ne_nil _ _) (by decide)
      (by rw [List.length_append] at hshort; omega)
      fun hmem ↦ hunbroken (List.mem_append_left _ hmem))
    obtain ⟨m, hm⟩ := ih hread hunbroken hshort
    rw [List.append_cons]
    exact ⟨m, hm⟩

theorem exists_reading (hcapacity : 0 < capacity) (line : Bytes) (hunbroken : NEWLINE ∉ answer)
    (hshort : answer.length ≤ JSONL_LINE_LIMIT + 1) :
    ∃ m, Run capacity line m ⟨.reading answer, ⟨line, [], true, false⟩,
      ⟨answer, [], false, false⟩, .running⟩ := by
  obtain ⟨m, hm⟩ := exists_closing hcapacity line
  exact (hm.own (.close rfl)).hears hcapacity hunbroken hshort

/-- A process that writes an answer, closes its output and exits is waited for. -/
theorem exists_waiting (hcapacity : 0 < capacity) (line : Bytes) (hunbroken : NEWLINE ∉ answer)
    (hshort : answer.length ≤ JSONL_LINE_LIMIT + 1) (success : Bool) :
    ∃ m, Run capacity line m ⟨.waiting answer, ⟨line, [], true, false⟩,
      ⟨answer, [], true, true⟩, .exited success⟩ := by
  obtain ⟨m, hm⟩ := exists_reading hcapacity line hunbroken hshort
  have hclosed := hm.far (.stdout (.close _))
  have hdrained := hclosed.own (.drained rfl rfl rfl)
  exact ⟨_, hdrained.far (.exit success rfl)⟩

/-- A process can make the exchange end with each of its failures. -/
theorem exists_faulted (hcapacity : 0 < capacity) (line : Bytes) {fault : ProviderFault}
    (hfault : fault ∈ exchangeFailures) :
    ∃ m x, Run capacity line m x ∧ x.stage = .ended (.error fault) := by
  obtain ⟨_, hclosing⟩ := exists_closing hcapacity line
  obtain ⟨_, hreading⟩ := exists_reading hcapacity line List.not_mem_nil (Nat.zero_le _)
  have hwaiting (success : Bool) :=
    exists_waiting hcapacity line List.not_mem_nil (Nat.zero_le _) success
  have hzero : NEWLINE ≠ 0 := by decide
  simp only [exchangeFailures, List.map_cons, List.map_nil, List.cons_append, List.nil_append,
    List.mem_cons, List.not_mem_nil, or_false] at hfault
  rcases hfault with rfl | rfl | rfl | rfl | rfl | rfl | rfl
  · exact ⟨_, _, Run.start.own (.fail rfl), rfl⟩
  · exact ⟨_, _, hclosing.own (.fail rfl), rfl⟩
  · exact ⟨_, _, hreading.own (.fail rfl), rfl⟩
  · obtain ⟨_, h⟩ := hwaiting true
    exact ⟨_, _, h.own (.fail rfl), rfl⟩
  · obtain ⟨_, h⟩ := hwaiting false
    exact ⟨_, _, h.own (.reject rfl rfl), rfl⟩
  · exact ⟨_, _, Run.start.own (.expire fun _ ↦ Stage.noConfusion), rfl⟩
  · -- one byte more than may be collected
    have hunbroken : NEWLINE ∉ List.replicate (JSONL_LINE_LIMIT + 1) 0 :=
      fun hmem ↦ hzero (List.eq_of_mem_replicate hmem)
    obtain ⟨_, h⟩ := exists_reading hcapacity line hunbroken (List.length_replicate).le
    have hput := h.far (.stdout (.put [0] ⟨rfl, rfl, hcapacity⟩))
    refine ⟨_, _, hput.own (.overflow [0] 1 rfl rfl (by decide) ?_), rfl⟩
    rw [List.length_append, List.length_replicate]
    exact Nat.lt_succ_self _

/-- A process can answer with every line within the bound. -/
theorem exists_answered (hcapacity : 0 < capacity) (line : Bytes) (hunbroken : NEWLINE ∉ answer)
    (hshort : answer.length ≤ JSONL_LINE_LIMIT + 1) :
    ∃ m x, Run capacity line m x ∧ x.stage = .ended (.ok answer) := by
  obtain ⟨_, h⟩ := exists_waiting hcapacity line hunbroken hshort true
  exact ⟨_, _, h.own (.accept rfl rfl), rfl⟩

end Happens

/-! ### Every schedule -/

/-- Whatever the process does and in whatever portions the bytes move: it reads nothing but the
line, none of its output is read before the line is written, the exchange takes a bounded number of
steps and holds a bounded part of the output, and a result is the first line of all that a
successful process wrote. -/
theorem exchange_faithful (capacity : ℕ) (line : Bytes) (n : ℕ) (x : Dialog)
    (hrun : x.Run capacity line n) :
    n ≤ line.length + JSONL_LINE_LIMIT + 6 ∧ x.stdin.read <+: line ∧
    (x.stdout.read ≠ [] → x.stdin.written = line) ∧
    x.stdout.read.length ≤ JSONL_LINE_LIMIT + 1 + CHUNK ∧
    (∀ collected, x.stage = .ended (.ok collected) → x.Heard line collected) ∧
    ∀ fault, x.stage = .ended (.error fault) → x.child ≠ .running ∧
      (fault.code = "limit_exceeded" → JSONL_LINE_LIMIT + 1 < x.stdout.written.length) := by
  have hsound := hrun.sound
  have hbounds := hsound.bounds
  refine ⟨Nat.le_of_add_right_le hrun.spent, x.stdin.read_prefix.trans hbounds.told,
    hbounds.first, hbounds.bounded, fun collected hended ↦ ?_, fun fault hended ↦ ?_⟩
  · rw [Sound, hended] at hsound
    exact hsound.1.heard hsound.2
  · rw [Sound, hended] at hsound
    exact ⟨hsound.dead, fun hcode ↦
      (hsound.long hcode).trans_le x.stdout.read_prefix.length_le⟩

/-- The process answers with a response. -/
theorem exchange_faithful_answered : ∃ n x, Run 65536 [NEWLINE] n x ∧ n ≤ 1 + JSONL_LINE_LIMIT + 6 ∧
    x.Heard [NEWLINE] nullLine := by
  obtain ⟨n, x, hrun, hended⟩ := exists_answered (by decide : 0 < 65536) [NEWLINE]
    nullLine_unbroken (by decide +kernel)
  obtain ⟨hsteps, -, -, -, hheard, -⟩ := exchange_faithful 65536 [NEWLINE] n x hrun
  exact ⟨n, x, hrun, hsteps, hheard nullLine hended⟩

end Dialog

section Answers

variable {B : Boundary} {capacity : ℕ}

/-- The outcome is a failure of the exchange, or the verdict on a line within the bound. -/
def Verdict (B : Boundary) (invocation : InvocationContext) (outcome : ProviderOutcome) : Prop :=
  (∃ fault ∈ spawnFailures ++ exchangeFailures, outcome = fault.outcome) ∨
    ∃ answer, NEWLINE ∉ answer ∧ answer.length ≤ JSONL_LINE_LIMIT + 1 ∧
      outcome = commandOutcome B invocation.invocationId (.ok answer)

theorem CommandAnswers.cases {invocation : InvocationContext} {outcome : ProviderOutcome}
    (h : CommandAnswers B capacity invocation outcome) :
    (∃ fault, invocationLine B invocation = .error fault ∧ outcome = fault.outcome) ∨
      ∃ line, invocationLine B invocation = .ok line ∧ Verdict B invocation outcome := by
  cases h with
  | refused document => exact Or.inl ⟨_, document, rfl⟩
  | unstarted document fails =>
    exact Or.inr ⟨_, document, Or.inl ⟨_, List.mem_append_left _ fails, rfl⟩⟩
  | @exchanged line n x result document run stage =>
    have hsound := run.sound
    rw [Dialog.Sound, stage] at hsound
    refine Or.inr ⟨line, document, ?_⟩
    cases result with
    | error fault => exact Or.inl ⟨fault, List.mem_append_right _ hsound.known, rfl⟩
    | ok collected =>
      -- the verdict on all that was collected is that on its first line
      refine Or.inr ⟨firstLine collected, firstLine_unbroken collected, ?_, ?_⟩
      · exact (List.takeWhile_prefix _).length_le.trans hsound.1.length_le
      · rw [commandOutcome, commandOutcome, ok_bind, ok_bind,
          parseProviderLine_congr B _ (firstLine_eq_self (firstLine_unbroken collected))]

/-- What a process can make of an invocation: a refused document, one of the frozen failures, or the
verdict on one line within the bound, and each of these. -/
theorem answers_iff (B : Boundary) (capacity : ℕ) (hcapacity : 0 < capacity)
    (invocation : InvocationContext) (outcome : ProviderOutcome) :
    CommandAnswers B capacity invocation outcome ↔
      (∃ fault, invocationLine B invocation = .error fault ∧ outcome = fault.outcome) ∨
      ∃ line, invocationLine B invocation = .ok line ∧ Verdict B invocation outcome := by
  constructor
  · exact CommandAnswers.cases
  · rintro (⟨fault, document, rfl⟩ | ⟨line, document, ⟨fault, hfault, rfl⟩ |
      ⟨answer, hunbroken, hshort, rfl⟩⟩)
    · exact .refused document
    · rcases List.mem_append.mp hfault with hspawn | hexchange
      · exact .unstarted document hspawn
      · obtain ⟨_, _, hrun, hended⟩ := Dialog.exists_faulted hcapacity line hexchange
        exact .exchanged document hrun hended
    · obtain ⟨_, _, hrun, hended⟩ := Dialog.exists_answered hcapacity line hunbroken hshort
      exact .exchanged document hrun hended

/-- An invocation over no events. -/
def bareInvocation : InvocationContext :=
  ⟨⟨Reference.zeros 32⟩, ⟨Reference.zeros 32⟩, [], ⟨Reference.zeros 32⟩, "inv1_a", .null⟩

theorem bareInvocation_line :
    ∃ line, invocationLine Reference.silent bareInvocation = .ok line := by
  obtain ⟨document, hdocument⟩ := canonicalize_total (B := Reference.silent)
    (.obj (invocationMembers Reference.silent bareInvocation []))
  have hembeds := length_invocationMembers_le Reference.silent bareInvocation []
  have hsmall : canonicalLength Reference.silent (.arr []) +
      canonicalLength Reference.silent .null +
        canonicalLength Reference.silent (.str "inv1_a") ≤ 1000 := by
    decide +kernel
  have hlength : document.length + 1 ≤ JSONL_LINE_LIMIT := by
    have hlimit : JSONL_LINE_LIMIT = 2097152 := rfl
    rw [canonicalize_length hdocument]
    change _ ≤ canonicalLength Reference.silent (.arr []) + canonicalLength Reference.silent .null +
      canonicalLength Reference.silent (.str "inv1_a") + 273 at hembeds
    omega
  refine ⟨document ++ [NEWLINE], unit_bind_eq_ok.mpr ⟨ensure_true (Nat.zero_le _), ?_⟩⟩
  exact bind_eq_ok.mpr ⟨[], rfl, bind_eq_ok.mpr ⟨document, mapError_eq_ok.mpr hdocument,
    unit_bind_eq_ok.mpr ⟨ensure_true hlength, rfl⟩⟩⟩

theorem nullLine_verdict : commandOutcome Reference.silent "inv1_a" (.ok nullLine) =
    .response .null := by
  have hfirst : firstLine nullLine = firstLine (nullLine ++ [NEWLINE]) := by
    rw [firstLine_append nullLine_unbroken, firstLine_eq_self nullLine_unbroken]
  have hparse : parseProviderLine Reference.silent (nullLine ++ [NEWLINE]) "inv1_a" =
      .ok (.response .null) :=
    (parseProviderLine_iff nullLine_straight).mpr (Or.inl ⟨_, nullLine_response, rfl⟩)
  rw [commandOutcome, ok_bind, parseProviderLine_congr _ _ hfirst, hparse]

/-- A process may answer the invocation with a response. -/
theorem answers_iff_response :
    CommandAnswers Reference.silent 65536 bareInvocation (.response .null) := by
  obtain ⟨line, hline⟩ := bareInvocation_line
  exact (answers_iff Reference.silent 65536 (by decide) bareInvocation (.response .null)).mpr
    (Or.inr ⟨line, hline, Or.inr ⟨nullLine, nullLine_unbroken, by decide +kernel,
      nullLine_verdict.symm⟩⟩)

end Answers

end ContextMesh.Store
