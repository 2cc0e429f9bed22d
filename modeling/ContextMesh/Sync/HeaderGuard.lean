import ContextMesh.Contract.Boundary
import ContextMesh.Foundation.Scanning

/-!
The guard of the HTTP header. A connection counts the bytes it reads and looks for the blank line
that ends the header; it keeps three bytes from one read to the next. However the bytes arrive, the
header is complete when its end lies within the limit, and an error is returned when more bytes
than the limit arrived without it.
-/

set_option autoImplicit false
set_option relaxedAutoImplicit false

namespace ContextMesh.Sync

open Contract Scanning

/-- Hard maximum bytes of an HTTP header. -/
def MAX_HTTP_HEADER_BYTES : ℕ := 16 * 1024

/-- The blank line, CR LF CR LF. -/
def BLANK_LINE : Bytes := [13, 10, 13, 10]

/-- The kind of an input error. -/
inductive ErrorKind
  | invalidData
  deriving DecidableEq

/-- The sum on `usize`, nothing when it overflows. -/
def checkedAdd (a b : ℕ) : Option ℕ := if a + b < 2 ^ 64 then some (a + b) else none

/-- What one read delivers: a slice holds at most `isize::MAX` bytes. -/
abbrev Delivered := {bytes : Bytes // bytes.length < 2 ^ 63}

/-- The state of the guard, with the kept bytes as a list. -/
structure HeaderGuardStream where
  headerBytes : ℕ
  tail : Bytes
  tail_le : tail.length ≤ 3
  complete : Bool

namespace HeaderGuardStream

def new : HeaderGuardStream := ⟨0, [], Nat.zero_le 3, false⟩

/-- Counts the bytes of a read and looks for the blank line in the kept bytes and the read. An error
leaves the kept bytes as they are. -/
def observe (guard : HeaderGuardStream) (bytes : Bytes) :
    HeaderGuardStream × Except ErrorKind Unit :=
  if guard.complete then (guard, .ok ())
  else
    match checkedAdd guard.headerBytes bytes.length with
    | none => (guard, .error .invalidData)
    | some total =>
      let counted := { guard with headerBytes := total }
      let combined := guard.tail ++ bytes
      match position BLANK_LINE combined with
      | some i =>
        match checkedAdd (guard.headerBytes - guard.tail.length) (i + 4) with
        | none => (counted, .error .invalidData)
        | some headerBytes =>
          if headerBytes > MAX_HTTP_HEADER_BYTES then (counted, .error .invalidData)
          else ({ counted with complete := true }, .ok ())
      | none =>
        if total > MAX_HTTP_HEADER_BYTES then (counted, .error .invalidData)
        else ({ counted with tail := lastOf 3 combined, tail_le := length_lastOf_le 3 combined },
          .ok ())

/-- Observes reads one after another, also after an error, with the results in order. -/
def observeAll (guard : HeaderGuardStream) :
    List Delivered → HeaderGuardStream × List (Except ErrorKind Unit)
  | [] => (guard, [])
  | bytes :: rest =>
    let (observed, result) := guard.observe bytes
    let (final, results) := observed.observeAll rest
    (final, result :: results)

/-! ### The guard after a stream -/

/-- The blank line at a position ends within the limit. -/
def WithinLimit (stream : Bytes) (i : ℕ) : Prop :=
  Occurs BLANK_LINE stream i ∧ i + 4 ≤ MAX_HTTP_HEADER_BYTES

/-- What a guard knows of the stream before it, and whether it has returned an error. -/
inductive Observed : HeaderGuardStream → Bytes → Bool → Prop
  | scanning {guard : HeaderGuardStream} {stream : Bytes} (hcomplete : guard.complete = false)
      (hcount : guard.headerBytes = stream.length) (hlimit : stream.length ≤ MAX_HTTP_HEADER_BYTES)
      (htail : guard.tail = lastOf 3 stream) (hnone : ∀ i, ¬ Occurs BLANK_LINE stream i) :
      Observed guard stream false
  | accepted {guard : HeaderGuardStream} {stream : Bytes} {i : ℕ}
      (hcomplete : guard.complete = true) (hfirst : First BLANK_LINE stream i)
      (hlimit : i + 4 ≤ MAX_HTTP_HEADER_BYTES) : Observed guard stream false
  | refused {guard : HeaderGuardStream} {stream : Bytes} (hcomplete : guard.complete = false)
      (hcount : MAX_HTTP_HEADER_BYTES < guard.headerBytes)
      (hlimit : MAX_HTTP_HEADER_BYTES < stream.length) (hnone : ∀ i, ¬ WithinLimit stream i) :
      Observed guard stream true

theorem checkedAdd_eq_some {a b total : ℕ} :
    checkedAdd a b = some total ↔ a + b < 2 ^ 64 ∧ a + b = total := by
  unfold checkedAdd
  split_ifs with h
  · rw [Option.some.injEq]
    exact (and_iff_right h).symm
  · exact iff_of_false nofun fun hsum ↦ h hsum.1

theorem observe_complete {guard : HeaderGuardStream} (h : guard.complete = true) (bytes : Bytes) :
    guard.observe bytes = (guard, .ok ()) := by
  rw [observe, if_pos h]

theorem blankLine_ne_nil : BLANK_LINE ≠ [] := by decide

/-- Within the limit nothing is found in bytes that come after it. -/
theorem not_withinLimit_append {stream : Bytes} (hlimit : MAX_HTTP_HEADER_BYTES < stream.length)
    (hnone : ∀ i, ¬ WithinLimit stream i) (more : Bytes) (i : ℕ) :
    ¬ WithinLimit (stream ++ more) i := by
  rintro ⟨hoccurs, hend⟩
  refine hnone i ⟨hoccurs.of_append ?_, hend⟩
  exact (hend.trans_lt hlimit).le

/-- A guard that has refused refuses every further read. -/
theorem observe_refused {guard : HeaderGuardStream} (hcomplete : guard.complete = false)
    (hcount : MAX_HTTP_HEADER_BYTES < guard.headerBytes) (bytes : Bytes) :
    ∃ observed, guard.observe bytes = (observed, .error .invalidData) ∧
      observed.complete = false ∧ MAX_HTTP_HEADER_BYTES < observed.headerBytes := by
  have htail := guard.tail_le
  have hopen : ¬ guard.complete = true := Bool.eq_false_iff.mp hcomplete
  rw [observe, if_neg hopen]
  split
  · exact ⟨guard, rfl, hcomplete, hcount⟩
  · next total htotal =>
    obtain ⟨-, rfl⟩ := checkedAdd_eq_some.mp htotal
    have hcounted : MAX_HTTP_HEADER_BYTES < guard.headerBytes + bytes.length := by omega
    dsimp only
    split
    · next i _ =>
      split
      · exact ⟨_, rfl, hcomplete, hcounted⟩
      · next headerBytes hend =>
        obtain ⟨-, rfl⟩ := checkedAdd_eq_some.mp hend
        rw [if_pos (by omega)]
        exact ⟨_, rfl, hcomplete, hcounted⟩
    · rw [if_pos hcounted]
      exact ⟨_, rfl, hcomplete, hcounted⟩

/-- One read of a guard that is still scanning. -/
theorem observe_scanning {guard : HeaderGuardStream} {stream : Bytes}
    (hcomplete : guard.complete = false) (hcount : guard.headerBytes = stream.length)
    (hlimit : stream.length ≤ MAX_HTTP_HEADER_BYTES) (htail : guard.tail = lastOf 3 stream)
    (hnone : ∀ i, ¬ Occurs BLANK_LINE stream i) (bytes : Delivered) :
    ∃ observed result, guard.observe bytes = (observed, result) ∧
      Observed observed (stream ++ bytes) (decide (result ≠ .ok ())) := by
  have hbound : MAX_HTTP_HEADER_BYTES = 16384 := rfl
  have hopen : ¬ guard.complete = true := Bool.eq_false_iff.mp hcomplete
  have hfits : checkedAdd guard.headerBytes bytes.1.length =
      some (stream.length + bytes.1.length) := by
    have := bytes.2
    rw [checkedAdd_eq_some, hcount]
    exact ⟨by omega, rfl⟩
  have hlength : (stream ++ bytes.1).length = stream.length + bytes.1.length :=
    List.length_append
  rw [observe, if_neg hopen, hfits]
  dsimp only
  cases hposition : position BLANK_LINE (guard.tail ++ bytes.1) with
  | some i =>
    have hfirst := (position_eq_some blankLine_ne_nil).mp hposition
    have hwhole : First BLANK_LINE (stream ++ bytes.1)
        (stream.length - guard.tail.length + i) := by
      rw [htail] at hfirst ⊢
      exact (first_lastOf_append blankLine_ne_nil hnone).mp hfirst
    have hend := hwhole.1.bound blankLine_ne_nil
    change stream.length - guard.tail.length + i + 4 ≤ _ at hend
    have hsum : checkedAdd (guard.headerBytes - guard.tail.length) (i + 4) =
        some (stream.length - guard.tail.length + i + 4) := by
      have := bytes.2
      rw [checkedAdd_eq_some, hcount]
      exact ⟨by omega, by omega⟩
    dsimp only
    rw [hsum]
    dsimp only
    by_cases hlate : stream.length - guard.tail.length + i + 4 > MAX_HTTP_HEADER_BYTES
    · rw [if_pos hlate]
      refine ⟨_, _, rfl, .refused hcomplete ?_ ?_ fun j hj ↦ ?_⟩
      · change MAX_HTTP_HEADER_BYTES < stream.length + bytes.1.length
        omega
      · omega
      · -- no earlier blank line is in the stream, and the first one ends after the limit
        obtain ⟨hoccurs, hj⟩ := hj
        refine hwhole.2 j ?_ hoccurs
        omega
    · rw [if_neg hlate]
      exact ⟨_, _, rfl, .accepted rfl hwhole (Nat.le_of_not_lt hlate)⟩
  | none =>
    rw [htail] at hposition
    have hrest := not_occurs_append blankLine_ne_nil hnone
      ((position_eq_none blankLine_ne_nil).mp hposition)
    dsimp only
    by_cases hlate : stream.length + bytes.1.length > MAX_HTTP_HEADER_BYTES
    · rw [if_pos hlate]
      refine ⟨_, _, rfl, .refused hcomplete hlate ?_ fun j hj ↦ hrest j hj.1⟩
      rw [hlength]
      exact hlate
    · rw [if_neg hlate]
      refine ⟨_, _, rfl, .scanning hcomplete hlength.symm ?_ ?_ hrest⟩
      · rw [hlength]
        exact Nat.le_of_not_lt hlate
      · change lastOf 3 (guard.tail ++ bytes.1) = _
        rw [htail]
        exact lastOf_append 3 stream bytes.1

/-- One read of any guard. -/
theorem Observed.step {guard : HeaderGuardStream} {stream : Bytes} {failed : Bool}
    (h : Observed guard stream failed) (bytes : Delivered) :
    ∃ observed result, guard.observe bytes = (observed, result) ∧
      Observed observed (stream ++ bytes) (failed || decide (result ≠ .ok ())) := by
  cases h with
  | scanning hcomplete hcount hlimit htail hnone =>
    simp only [Bool.false_or]
    exact observe_scanning hcomplete hcount hlimit htail hnone bytes
  | accepted hcomplete hfirst hlimit =>
    refine ⟨guard, .ok (), observe_complete hcomplete bytes, ?_⟩
    exact .accepted hcomplete (hfirst.append blankLine_ne_nil _) hlimit
  | refused hcomplete hcount hlimit hnone =>
    obtain ⟨observed, hobserve, hcomplete, hcount⟩ := observe_refused hcomplete hcount bytes
    refine ⟨observed, _, hobserve, .refused hcomplete hcount ?_
      (not_withinLimit_append hlimit hnone _)⟩
    rw [List.length_append]
    omega

/-- The bytes of reads, in order. -/
def streamOf (reads : List Delivered) : Bytes := reads.flatMap Subtype.val

/-- A run keeps the knowledge of the guard, and fails with its first error. -/
theorem Observed.run {guard : HeaderGuardStream} {stream : Bytes} {failed : Bool}
    (h : Observed guard stream failed) (reads : List Delivered) :
    Observed (guard.observeAll reads).1 (stream ++ streamOf reads)
      (failed || (guard.observeAll reads).2.any fun result ↦ result ≠ .ok ()) := by
  induction reads generalizing guard stream failed with
  | nil =>
    have hnil : stream ++ streamOf [] = stream := List.append_nil _
    rw [observeAll, hnil, List.any_nil, Bool.or_false]
    exact h
  | cons bytes rest ih =>
    obtain ⟨observed, result, hobserve, hobserved⟩ := h.step bytes
    have hstream : stream ++ streamOf (bytes :: rest) = stream ++ bytes ++ streamOf rest := by
      rw [List.append_assoc]
      rfl
    rw [observeAll, hobserve, hstream]
    dsimp only
    rw [List.any_cons, ← Bool.or_assoc]
    exact ih hobserved

theorem observed_new : Observed new [] false := by
  refine .scanning rfl rfl (Nat.zero_le _) rfl fun i hoccurs ↦ ?_
  have hbound : i + 4 ≤ 0 := hoccurs.bound blankLine_ne_nil
  omega

/-- The guard after all reads, told from the stream alone. -/
theorem Observed.verdict {guard : HeaderGuardStream} {stream : Bytes} {failed : Bool}
    (h : Observed guard stream failed) :
    (guard.complete = true ↔
      ∃ i, First BLANK_LINE stream i ∧ i + 4 ≤ MAX_HTTP_HEADER_BYTES) ∧
    (failed = true ↔
      MAX_HTTP_HEADER_BYTES < stream.length ∧ ¬ ∃ i, WithinLimit stream i) := by
  cases h with
  | scanning hcomplete hcount hlimit htail hnone =>
    refine ⟨iff_of_false (Bool.eq_false_iff.mp hcomplete) ?_, iff_of_false Bool.false_ne_true ?_⟩
    · rintro ⟨i, hfirst, -⟩
      exact hnone i hfirst.1
    · exact fun h ↦ absurd h.1 (Nat.not_lt_of_le hlimit)
  | accepted hcomplete hfirst hlimit =>
    exact ⟨iff_of_true hcomplete ⟨_, hfirst, hlimit⟩,
      iff_of_false Bool.false_ne_true fun h ↦ h.2 ⟨_, hfirst.1, hlimit⟩⟩
  | refused hcomplete hcount hlimit hnone =>
    refine ⟨iff_of_false (Bool.eq_false_iff.mp hcomplete) ?_,
      iff_of_true rfl ⟨hlimit, not_exists.mpr hnone⟩⟩
    rintro ⟨i, hfirst, hend⟩
    exact hnone i ⟨hfirst.1, hend⟩

theorem observeAll_complete {guard : HeaderGuardStream} (h : guard.complete = true)
    (reads : List Delivered) : (guard.observeAll reads).1.complete = true ∧
      ∀ result ∈ (guard.observeAll reads).2, result = .ok () := by
  induction reads with
  | nil => exact ⟨h, List.forall_mem_nil _⟩
  | cons bytes rest ih =>
    rw [observeAll, observe_complete h]
    exact ⟨ih.1, List.forall_mem_cons.mpr ⟨rfl, ih.2⟩⟩

/-- However a stream is split into reads, the guard is complete after them exactly when the first
blank line ends within the limit, and some read has returned an error exactly when the stream is
longer than the limit without a blank line that ends within it. Two splits of one stream end alike,
and no read after the one that completed the header returns an error. -/
theorem observeAll_exact (reads : List Delivered) :
    ((new.observeAll reads).1.complete = true ↔
      ∃ i, First BLANK_LINE (streamOf reads) i ∧ i + 4 ≤ MAX_HTTP_HEADER_BYTES) ∧
    ((∃ result ∈ (new.observeAll reads).2, result ≠ .ok ()) ↔
      MAX_HTTP_HEADER_BYTES < (streamOf reads).length ∧
        ¬ ∃ i, WithinLimit (streamOf reads) i) ∧
    (∀ other, streamOf other = streamOf reads →
      ((new.observeAll other).1.complete = true ↔ (new.observeAll reads).1.complete = true) ∧
      ((∃ result ∈ (new.observeAll other).2, result ≠ .ok ()) ↔
        ∃ result ∈ (new.observeAll reads).2, result ≠ .ok ())) ∧
    ((new.observeAll reads).1.complete = true → ∀ later,
      ((new.observeAll reads).1.observeAll later).1.complete = true ∧
      ∀ result ∈ ((new.observeAll reads).1.observeAll later).2, result = .ok ()) := by
  have hverdict (reads : List Delivered) := (observed_new.run reads).verdict
  simp only [List.nil_append, Bool.false_or, List.any_eq_true, decide_eq_true_eq] at hverdict
  refine ⟨(hverdict reads).1, (hverdict reads).2, fun other hsame ↦ ?_, observeAll_complete⟩
  have hother := hverdict other
  rw [hsame] at hother
  exact ⟨hother.1.trans (hverdict reads).1.symm, hother.2.trans (hverdict reads).2.symm⟩

end HeaderGuardStream

end ContextMesh.Sync
