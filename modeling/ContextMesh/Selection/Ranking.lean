import ContextMesh.Reference.Golden
import ContextMesh.Selection.Baseline
import Mathlib.Data.Finset.Card

/-!
The baseline selection as a ranking. The distinct candidates that score above zero, best first and
then in the order of their texts, are selected as a whole or refused for the budget; neither the
order nor the multiplicity of the candidates matters.
-/

set_option autoImplicit false
set_option relaxedAutoImplicit false

namespace ContextMesh.Selection

open Checked Ordered Contract Store Ledger ContextMesh.Delta Receipt

variable {B : Boundary}

/-! ### Terms -/

theorem not_isWhiteSpace {c : Char} (h : c.isAlphanum = true) : isWhiteSpace c = false := by
  have hrange : (48 ≤ c.toNat ∧ c.toNat ≤ 57) ∨ (65 ≤ c.toNat ∧ c.toNat ≤ 90) ∨
      (97 ≤ c.toNat ∧ c.toNat ≤ 122) := by
    change ((decide (c.val ≥ 'A'.val ∧ c.val ≤ 'Z'.val) ||
      (decide (c.val ≥ 'a'.val) && decide (c.val ≤ 'z'.val))) ||
        (decide (c.val ≥ '0'.val) && decide (c.val ≤ '9'.val))) = true at h
    simp only [Bool.or_eq_true, Bool.and_eq_true, decide_eq_true_eq, ge_iff_le,
      UInt32.le_iff_toNat_le] at h
    have hval : c.val.toNat = c.toNat := rfl
    have hdigits : '0'.val.toNat = 48 ∧ '9'.val.toNat = 57 := ⟨rfl, rfl⟩
    have hupper : 'A'.val.toNat = 65 ∧ 'Z'.val.toNat = 90 := ⟨rfl, rfl⟩
    have hlower : 'a'.val.toNat = 97 ∧ 'z'.val.toNat = 122 := ⟨rfl, rfl⟩
    omega
  simp only [isWhiteSpace, decide_eq_false_iff_not]
  omega

theorem isBlank_of_term {text : String} (h : ∃ c ∈ text.toList, c.isAlphanum = true) :
    ¬ isBlank text = true := by
  obtain ⟨c, hc, hterm⟩ := h
  intro hblank
  have hspace := List.all_eq_true.mp hblank c hc
  rw [not_isWhiteSpace hterm] at hspace
  cases hspace

/-- A term that has begun is there in the end. -/
theorem readTerms_ne {text : List Char} {terms : Terms}
    (h : terms.tokens ≠ [] ∨ terms.current ≠ "" ∨ ∃ c ∈ text, c.isAlphanum = true) :
    (text.foldl readTerm terms).tokens ≠ [] ∨ (text.foldl readTerm terms).current ≠ "" := by
  induction text generalizing terms with
  | nil =>
    rcases h with htokens | hcurrent | ⟨c, hc, -⟩
    · exact Or.inl htokens
    · exact Or.inr hcurrent
    · exact absurd hc List.not_mem_nil
  | cons c rest ih =>
    rw [List.foldl_cons]
    apply ih
    unfold readTerm
    by_cases hterm : c.isAlphanum = true
    · rw [if_pos hterm]
      exact Or.inr (Or.inl (String.push_ne_empty))
    · rw [if_neg hterm]
      by_cases hcurrent : terms.current ≠ ""
      · rw [if_pos hcurrent]
        exact Or.inl (List.append_ne_nil_of_right_ne_nil _ (List.cons_ne_nil _ _))
      · rw [if_neg hcurrent]
        rcases h with htokens | hcurrent' | ⟨other, hother, halnum⟩
        · exact Or.inl htokens
        · exact absurd hcurrent' hcurrent
        · rcases List.mem_cons.mp hother with rfl | hother
          · exact absurd halnum hterm
          · exact Or.inr (Or.inr ⟨other, hother, halnum⟩)

/-- A text with an ASCII letter or digit has a term. -/
theorem tokenize_ne_nil {text : String} (h : ∃ c ∈ text.toList, c.isAlphanum = true) :
    tokenize text ≠ [] := by
  unfold tokenize
  dsimp only
  by_cases hcurrent : (text.toList.foldl readTerm ⟨[], ""⟩).current ≠ ""
  · rw [if_pos hcurrent]
    exact List.append_ne_nil_of_right_ne_nil _ (List.cons_ne_nil _ _)
  · rw [if_neg hcurrent]
    exact (readTerms_ne (Or.inr (Or.inr h))).resolve_right hcurrent

/-! ### Records -/

/-- The task record takes the structured form of a task. -/
def AcceptedForm (B : Boundary) (structured : Option Json) : Prop :=
  ∀ form, structured = some form →
    validateJsonValue form 1 = .ok () ∧ ∃ bytes, canonicalPayloadBytes B form = .ok bytes

theorem acceptedForm_none : AcceptedForm B none := by
  intro form hform
  cases hform

section Records

variable {blake3 : Bytes → Fixed 32}

theorem size_taskContentHash (text : Bytes) :
    (taskContentHash blake3 text).utf8ByteSize = 71 := by
  have hdigit : ∀ n, (hexDigit n).utf8Size = 1 := by
    intro n
    by_cases hn : n < 16
    · exact (by decide : ∀ n < 16, (hexDigit n).utf8Size = 1) n hn
    · have hlength : "0123456789abcdef".toList.length ≤ n := Nat.le_of_not_lt hn
      rw [hexDigit, List.getD_eq_getElem?_getD, List.getElem?_eq_none hlength]
      rfl
  have hdigits : ∀ bytes : Bytes,
      (String.ofList (bytes.flatMap hexByte)).utf8ByteSize = bytes.length * 2 := by
    intro bytes
    induction bytes with
    | nil => rfl
    | cons byte rest ih =>
      rw [List.flatMap_cons, hexByte, List.cons_append, List.cons_append, List.nil_append,
        String.ofList_cons, String.ofList_cons, String.utf8ByteSize_append,
        String.utf8ByteSize_append, String.utf8ByteSize_singleton, String.utf8ByteSize_singleton,
        hdigit, hdigit, ih, List.length_cons]
      omega
  have hlead : "blake3_".utf8ByteSize = 7 := by decide
  rw [taskContentHash, String.utf8ByteSize_append, hlead, hdigits, (blake3 text).2]

theorem taskContentHash_ne (text : Bytes) : taskContentHash blake3 text ≠ "" := by
  intro hempty
  have hsize : (taskContentHash blake3 text).utf8ByteSize = 71 := size_taskContentHash text
  rw [hempty] at hsize
  cases hsize

/-- A task of an accepted form is recorded as it is. -/
theorem fromVerbatim_accepted {taskText : String} {structured : Option Json}
    (hsome : taskText ≠ "") (hsize : taskText.utf8ByteSize ≤ MAX_TASK_BYTES)
    (hform : AcceptedForm B structured) :
    TaskRecordV1.fromVerbatim B blake3 taskText structured =
      .ok ⟨taskText, taskContentHash blake3 (asBytes taskText), structured⟩ := by
  have hhash : taskContentHash blake3 (asBytes taskText) ≠ "" ∧
      "blake3_".toList <+: (taskContentHash blake3 (asBytes taskText)).toList := by
    refine ⟨taskContentHash_ne _, ?_⟩
    rw [toList_taskContentHash]
    exact List.prefix_append _ _
  unfold TaskRecordV1.fromVerbatim TaskRecordV1.new TaskRecordV1.validate
  dsimp only
  rw [ensure_true ⟨hsome, hsize⟩, ok_bind, ensure_true hhash, ok_bind]
  cases structured with
  | none => rfl
  | some form =>
    obtain ⟨hvalid, bytes, hbytes⟩ := hform form rfl
    dsimp only
    rw [hvalid, hbytes]
    rfl

/-- The record of the baseline selector at a version. -/
theorem provenance_accepted {version : String} (hsome : version ≠ "")
    (hsize : version.utf8ByteSize ≤ MAX_SELECTOR_VERSION_BYTES) :
    SelectorRecordV1.new BASELINE_IDENTITY version (taskContentHash blake3 BASELINE_CONFIG) =
      .ok ⟨BASELINE_IDENTITY, version, taskContentHash blake3 BASELINE_CONFIG⟩ := by
  have hidentity : BASELINE_IDENTITY ≠ "" ∧
      BASELINE_IDENTITY.utf8ByteSize ≤ MAX_SELECTOR_IDENTITY_BYTES := by decide
  have hhash : taskContentHash blake3 BASELINE_CONFIG ≠ "" ∧
      (taskContentHash blake3 BASELINE_CONFIG).utf8ByteSize ≤ MAX_SELECTOR_CONFIG_HASH_BYTES := by
    refine ⟨taskContentHash_ne _, ?_⟩
    rw [size_taskContentHash]
    decide
  unfold SelectorRecordV1.new SelectorRecordV1.validate
  dsimp only
  rw [ensure_true hidentity, ok_bind, ensure_true ⟨hsome, hsize⟩, ok_bind, ensure_true hhash,
    ok_bind]

end Records

/-! ### The ranking -/

/-- What a stored event is scored and referred to by. -/
def sourceOf (e : StoredEvent B) : SourceEvent :=
  ⟨e.id, e.context, e.kind, e.author, e.event.body.payload, payloadBytes e⟩

theorem fromSigned_stored (e : StoredEvent B) :
    SourceEvent.fromSigned B e.event = .ok (sourceOf e) := by
  obtain ⟨bytes, hbytes, hlength⟩ := payload_ok e
  rw [SourceEvent.fromSigned, hbytes, ok_bind, hlength]
  rfl

/-- The score of a stored event; an event that is not stored has none. -/
def scoreOf (L : Ledger B) (taskTerms : List String) (id : EventId) : ℕ :=
  match L.find id with
  | some e => scoreSource B taskTerms (sourceOf e)
  | none => 0

/-- The candidates that score above zero, each once, by score and then by their texts. -/
structure Ranking (L : Ledger B) (taskTerms : List String) (candidates : List EventId)
    (references : List SourceReference) : Prop where
  stored : ∀ reference ∈ references, ∃ e ∈ L.events, reference = .fromSource (sourceOf e)
  selected : ∀ id, id ∈ references.map SourceReference.event ↔
    id ∈ candidates ∧ 0 < scoreOf L taskTerms id
  ordered : references.Pairwise fun first second ↦
    scoreOf L taskTerms second.event < scoreOf L taskTerms first.event ∨
      scoreOf L taskTerms first.event = scoreOf L taskTerms second.event ∧
        first.event.text B < second.event.text B

/-- The references are within the budget and the ceilings. -/
def Fits (references : List SourceReference) (budget : SelectionBudget) : Prop :=
  references.length ≤ min MAX_SELECTED_EVENTS budget.maxSelectedEvents ∧
    (references.map SourceReference.payloadBytes).sum ≤
      min MAX_SELECTED_BYTES budget.maxExportedBytes

section Rank

variable {L : Ledger B} {taskTerms : List String} {references : List SourceReference}

theorem scoreOf_stored (h : L.WellKeyed) {e : StoredEvent B} (he : e ∈ L.events) :
    scoreOf L taskTerms e.id = scoreSource B taskTerms (sourceOf e) := by
  rw [scoreOf, h.find_eq_some.mpr ⟨he, rfl⟩]

/-- The order of a ranking: by score, best first, and then by text. -/
def rankKey (B : Boundary) (taskTerms : List String) (source : SourceEvent) : ℕᵒᵈ ×ₗ String :=
  toLex (OrderDual.toDual (scoreSource B taskTerms source), source.event.text B)

theorem rankKey_lt {first second : SourceEvent} :
    rankKey B taskTerms first < rankKey B taskTerms second ↔
      scoreSource B taskTerms second < scoreSource B taskTerms first ∨
        scoreSource B taskTerms first = scoreSource B taskTerms second ∧
          first.event.text B < second.event.text B := by
  unfold rankKey
  rw [Prod.Lex.toLex_lt_toLex]
  exact Iff.rfl

/-- The candidates are loaded in their order. -/
theorem loadSources (h : L.WellKeyed) {candidates : List EventId} {sources : List SourceEvent}
    (hok : mapEach (loadSource B L.tables) candidates = .ok sources) :
    sources.map SourceEvent.event = candidates ∧
      ∀ source ∈ sources, ∃ e ∈ L.events, source = sourceOf e := by
  rw [mapEach_eq_ok] at hok
  induction hok with
  | nil => exact ⟨rfl, List.forall_mem_nil _⟩
  | @cons id source candidates sources hload _ ih =>
    obtain ⟨e, he, rfl, hsource⟩ := (loadSource_eq_ok h).mp hload
    rw [fromSigned_stored, Except.ok.injEq] at hsource
    subst hsource
    refine ⟨?_, List.forall_mem_cons.mpr ⟨⟨e, he, rfl⟩, ih.2⟩⟩
    rw [List.map_cons, ih.1]
    rfl

/-- What the baseline selector returns, without the scores it sorts by. -/
theorem rank_eq_ok {task : TaskRecordV1} {sources : List SourceEvent} :
    rank B task sources = .ok references ↔ tokenize task.verbatim ≠ [] ∧
      references = ((sort (rankKey B (tokenize task.verbatim)) sources).filter fun source ↦
        0 < scoreSource B (tokenize task.verbatim) source).map SourceReference.fromSource := by
  unfold rank
  dsimp only
  rw [unit_bind_eq_ok, ensure_eq_ok, Except.ok.injEq, Ordered.sort_map, List.filter_map,
    List.map_map, eq_comm (b := references)]
  exact Iff.rfl

/-- The baseline selector ranks the loaded candidates. -/
theorem rank_ranking (h : L.WellKeyed) {task : TaskRecordV1} {candidates : List EventId}
    {sources : List SourceEvent} (hnodup : candidates.Nodup)
    (hsources : mapEach (loadSource B L.tables) candidates = .ok sources)
    (hok : rank B task sources = .ok references) :
    Ranking L (tokenize task.verbatim) candidates references := by
  obtain ⟨-, rfl⟩ := rank_eq_ok.mp hok
  obtain ⟨hevents, hstored⟩ := loadSources h hsources
  have hscore : ∀ source ∈ sources,
      scoreOf L (tokenize task.verbatim) source.event =
        scoreSource B (tokenize task.verbatim) source := by
    intro source hsource
    obtain ⟨e, he, rfl⟩ := hstored source hsource
    exact scoreOf_stored h he
  have hdistinct : sources.Pairwise fun first second ↦
      rankKey B (tokenize task.verbatim) first ≠ rankKey B (tokenize task.verbatim) second := by
    rw [← hevents] at hnodup
    refine (List.pairwise_map.mp hnodup).imp fun hne hsame ↦ hne ?_
    exact EventId.text_injective (congrArg (fun key ↦ (ofLex key).2) hsame)
  constructor
  · intro reference hreference
    obtain ⟨source, hsource, rfl⟩ := List.mem_map.mp hreference
    obtain ⟨e, he, rfl⟩ := hstored source (mem_sort.mp (List.mem_filter.mp hsource).1)
    exact ⟨e, he, rfl⟩
  · intro id
    simp only [List.mem_map, List.mem_filter, mem_sort, decide_eq_true_eq, ← hevents]
    constructor
    · rintro ⟨reference, ⟨source, ⟨hsource, hpositive⟩, rfl⟩, rfl⟩
      exact ⟨⟨source, hsource, rfl⟩, (hscore source hsource).symm ▸ hpositive⟩
    · rintro ⟨⟨source, hsource, rfl⟩, hpositive⟩
      rw [hscore source hsource] at hpositive
      exact ⟨_, ⟨source, ⟨hsource, hpositive⟩, rfl⟩, rfl⟩
  · rw [List.pairwise_map]
    have hsorted := (canonical_iff_pairwise.mp (sort_canonical hdistinct)).sublist
      (List.filter_sublist (p := fun source ↦
        decide (0 < scoreSource B (tokenize task.verbatim) source)))
    refine hsorted.imp_of_mem fun {first second} hfirst hsecond hlt ↦ ?_
    have hfirst' := hscore first (mem_sort.mp (List.mem_filter.mp hfirst).1)
    have hsecond' := hscore second (mem_sort.mp (List.mem_filter.mp hsecond).1)
    rw [rankKey_lt, ← hfirst', ← hsecond'] at hlt
    exact hlt

/-- A list has at most one ranking. -/
theorem Ranking.unique (h : L.WellKeyed) {candidates : List EventId}
    {others : List SourceReference} (hranking : Ranking L taskTerms candidates references)
    (hothers : Ranking L taskTerms candidates others) : references = others := by
  have hcanonical {list : List SourceReference} (hlist : Ranking L taskTerms candidates list) :
      Canonical (fun reference : SourceReference ↦ toLex (OrderDual.toDual
        (scoreOf L taskTerms reference.event), reference.event.text B)) list := by
    rw [canonical_iff_pairwise]
    exact hlist.ordered.imp fun hlt ↦ Prod.Lex.toLex_lt_toLex.mpr hlt
  have hsubset {first second : List SourceReference} (hfirst : Ranking L taskTerms candidates first)
      (hsecond : Ranking L taskTerms candidates second) : ∀ r ∈ first, r ∈ second := by
    intro r hr
    have hmem := (hsecond.selected r.event).mpr
      ((hfirst.selected r.event).mp (List.mem_map_of_mem hr))
    obtain ⟨other, hother, hevent⟩ := List.mem_map.mp hmem
    obtain ⟨e, he, rfl⟩ := hfirst.stored r hr
    obtain ⟨f, hf, rfl⟩ := hsecond.stored other hother
    have hid : f.id = e.id := hevent
    rw [h.event_eq_of_id hf he hid] at hother
    exact hother
  exact (hcanonical hranking).eq_of_mem_iff (hcanonical hothers) fun r ↦
    ⟨hsubset hranking hothers r, hsubset hothers hranking r⟩

/-- Only the distinct candidates matter. -/
theorem Ranking.of_mem_iff {candidates others : List EventId}
    (hsame : ∀ id, id ∈ others ↔ id ∈ candidates)
    (h : Ranking L taskTerms candidates references) : Ranking L taskTerms others references :=
  ⟨h.stored, fun id ↦ (h.selected id).trans (and_congr_left' (hsame id).symm), h.ordered⟩

/-- A ranking is empty when no candidate scores. -/
theorem Ranking.eq_nil_iff {candidates : List EventId}
    (h : Ranking L taskTerms candidates references) :
    references = [] ↔ ∀ id ∈ candidates, scoreOf L taskTerms id = 0 := by
  constructor
  · intro hnone id hid
    by_contra hscore
    have hmem := (h.selected id).mpr ⟨hid, Nat.pos_of_ne_zero hscore⟩
    rw [hnone] at hmem
    exact absurd hmem List.not_mem_nil
  · intro hzero
    rw [List.eq_nil_iff_forall_not_mem]
    intro reference hreference
    obtain ⟨hid, hscore⟩ := (h.selected reference.event).mp (List.mem_map_of_mem hreference)
    exact hscore.ne' (hzero _ hid)

end Rank

/-! ### Selections -/

section Select

variable {references : List SourceReference} {budget : SelectionBudget}

theorem compileContext_fits (h : Fits references budget) :
    compileContext references budget =
      .ok ⟨references, budget, (references.map SourceReference.payloadBytes).sum⟩ :=
  compileContext_eq_ok.mpr ⟨le_min_iff.mp h.1, le_min_iff.mp h.2, rfl⟩

theorem compileContext_exceeds (h : ¬ Fits references budget) :
    compileContext references budget = .error .budgetExceeded := by
  unfold compileContext
  dsimp only
  by_cases hcount : references.length ≤ min MAX_SELECTED_EVENTS budget.maxSelectedEvents
  · have hbytes : ¬ (references.map SourceReference.payloadBytes).sum ≤
        min MAX_SELECTED_BYTES budget.maxExportedBytes := fun hbytes ↦ h ⟨hcount, hbytes⟩
    rw [le_min_iff] at hcount hbytes
    rw [ensure_true (by omega), ok_bind, ensure_false (by omega)]
    rfl
  · rw [le_min_iff] at hcount
    rw [ensure_false (by omega)]
    rfl

/-- What a selection reports of a ranking. -/
structure Selected (L : Ledger B) (taskTerms : List String) (candidates : List EventId)
    (ranked : List SourceReference) (result : SelectionResult) : Prop where
  references : result.references = ranked
  totalBytes : result.context.totalBytes = (ranked.map SourceReference.payloadBytes).sum
  noSources : result.marker = some .noSources ↔ candidates = []
  noMatch : result.marker = some .noMatch ↔
    candidates ≠ [] ∧ ∀ id ∈ candidates, scoreOf L taskTerms id = 0

variable {L : Ledger B} (blake3 : Bytes → Fixed 32) {version taskText : String}
  {structured : Option Json} (budget) {candidates : List EventId}

/-- The selection sees neither the order nor the multiplicity of the candidates. -/
theorem selectSources_congr {blake3 : Bytes → Fixed 32} {budget : SelectionBudget} {t : Tables}
    {selector : Selector} {others : List EventId} (hsame : ∀ id, id ∈ others ↔ id ∈ candidates) :
    selectSources B blake3 t taskText structured budget selector others =
      selectSources B blake3 t taskText structured budget selector candidates := by
  have hnormal : normalize (EventId.text B) others = normalize (EventId.text B) candidates :=
    normalize_congr EventId.text_injective hsame
  unfold selectSources
  rw [hnormal]

theorem length_normalize_text (candidates : List EventId) :
    (normalize (EventId.text B) candidates).length = candidates.toFinset.card := by
  have hnodup : (normalize (EventId.text B) candidates).Nodup :=
    (normalize_canonical EventId.text_injective candidates).nodup
  rw [← List.toFinset_card_of_nodup hnodup]
  congr 1
  ext id
  rw [List.mem_toFinset, List.mem_toFinset, mem_normalize]

/-- The selection of stored candidates is their ranking, or exceeds the budget. -/
theorem selectSources_ranking (h : L.WellKeyed)
    (hterm : ∃ c ∈ taskText.toList, c.isAlphanum = true)
    (hsize : taskText.utf8ByteSize ≤ MAX_TASK_BYTES) (hform : AcceptedForm B structured)
    (hsome : version ≠ "") (hversion : version.utf8ByteSize ≤ MAX_SELECTOR_VERSION_BYTES)
    (hstored : ∀ id ∈ candidates, ∃ e ∈ L.events, e.id = id)
    (hfew : candidates.toFinset.card ≤ MAX_SELECTION_CANDIDATES) :
    ∃ references, Ranking L (tokenize taskText) candidates references ∧
      (Fits references budget → ∃ result, selectSources B blake3 L.tables taskText structured budget
        (BaselineSelector.withVersion B blake3 version) candidates = .ok result ∧
          Selected L (tokenize taskText) candidates references result) ∧
      (¬ Fits references budget → selectSources B blake3 L.tables taskText structured budget
        (BaselineSelector.withVersion B blake3 version) candidates = .error .budgetExceeded) := by
  have htask : taskText ≠ "" := by
    rintro rfl
    obtain ⟨c, hc, -⟩ := hterm
    exact absurd hc List.not_mem_nil
  have hmem (id : EventId) : id ∈ normalize (EventId.text B) candidates ↔ id ∈ candidates :=
    mem_normalize
  obtain ⟨sources, hsources⟩ : ∃ sources, mapEach (loadSource B L.tables)
      (normalize (EventId.text B) candidates) = .ok sources := by
    refine mapEach_total fun id hid ↦ ?_
    obtain ⟨e, he, rfl⟩ := hstored id ((hmem id).mp hid)
    exact ⟨sourceOf e, (loadSource_eq_ok h).mpr ⟨e, he, rfl, fromSigned_stored e⟩⟩
  obtain ⟨references, hranked⟩ : ∃ references, rank B
      ⟨taskText, taskContentHash blake3 (asBytes taskText), structured⟩ sources = .ok references :=
    ⟨_, rank_eq_ok.mpr ⟨tokenize_ne_nil hterm, rfl⟩⟩
  have hranking : Ranking L (tokenize taskText) candidates references :=
    (rank_ranking h (normalize_canonical EventId.text_injective candidates).nodup hsources
      hranked).of_mem_iff fun id ↦ (hmem id).symm
  refine ⟨references, hranking, ?_⟩
  rw [selectSources, ensure_true (isBlank_of_term hterm), ok_bind,
    fromVerbatim_accepted htask hsize hform, mapError_ok, ok_bind]
  dsimp only
  rw [ensure_true ((length_normalize_text candidates).trans_le hfew), ok_bind,
    BaselineSelector.withVersion, provenance_accepted hsome hversion, mapError_ok, ok_bind]
  by_cases hnone : normalize (EventId.text B) candidates = []
  · have hempty : candidates = [] := normalize_eq_nil.mp hnone
    have hnil : references = [] := by
      rw [hranking.eq_nil_iff, hempty]
      exact List.forall_mem_nil _
    have hfits : Fits [] budget := ⟨Nat.zero_le _, Nat.zero_le _⟩
    rw [if_pos hnone, hnil, compileContext_fits hfits, ok_bind]
    refine ⟨fun _ ↦ ⟨_, rfl, rfl, rfl, ?_, ?_⟩, fun hexceeds ↦ absurd hfits hexceeds⟩
    · exact iff_of_true rfl hempty
    · exact iff_of_false (fun hmarker ↦ nomatch hmarker) fun hboth ↦ hboth.1 hempty
  · have hnonempty : candidates ≠ [] := fun hempty ↦ hnone (normalize_eq_nil.mpr hempty)
    rw [if_neg hnone, hsources, ok_bind]
    dsimp only
    rw [hranked, ok_bind]
    constructor
    · intro hfits
      rw [compileContext_fits hfits, ok_bind]
      by_cases hmatch : references = []
      · rw [if_pos hmatch]
        refine ⟨_, rfl, rfl, rfl, ?_, ?_⟩
        · exact iff_of_false (fun hmarker ↦ nomatch hmarker) hnonempty
        · exact iff_of_true rfl ⟨hnonempty, hranking.eq_nil_iff.mp hmatch⟩
      · rw [if_neg hmatch]
        refine ⟨_, rfl, rfl, rfl, ?_, ?_⟩
        · exact iff_of_false (fun hmarker ↦ nomatch hmarker) hnonempty
        · exact iff_of_false (fun hmarker ↦ nomatch hmarker) fun hboth ↦
            hmatch (hranking.eq_nil_iff.mpr hboth.2)
    · intro hexceeds
      rw [compileContext_exceeds hexceeds]
      rfl

/-- The baseline selection is exact: it exceeds the budget exactly when the ranking of the distinct
candidates does, and returns that ranking otherwise, whatever the order of the candidates is. -/
theorem selectSources_exact (h : L.WellKeyed)
    (hterm : ∃ c ∈ taskText.toList, c.isAlphanum = true)
    (hsize : taskText.utf8ByteSize ≤ MAX_TASK_BYTES) (hform : AcceptedForm B structured)
    (hsome : version ≠ "") (hversion : version.utf8ByteSize ≤ MAX_SELECTOR_VERSION_BYTES)
    (hstored : ∀ id ∈ candidates, ∃ e ∈ L.events, e.id = id)
    (hfew : candidates.toFinset.card ≤ MAX_SELECTION_CANDIDATES) :
    ∃ references, Ranking L (tokenize taskText) candidates references ∧
      (∀ others, Ranking L (tokenize taskText) candidates others → others = references) ∧
      (selectSources B blake3 L.tables taskText structured budget
        (BaselineSelector.withVersion B blake3 version) candidates = .error .budgetExceeded ↔
          ¬ Fits references budget) ∧
      (Fits references budget → ∃ result, selectSources B blake3 L.tables taskText structured budget
        (BaselineSelector.withVersion B blake3 version) candidates = .ok result ∧
          Selected L (tokenize taskText) candidates references result) ∧
      ∀ others, (∀ id, id ∈ others ↔ id ∈ candidates) →
        selectSources B blake3 L.tables taskText structured budget
          (BaselineSelector.withVersion B blake3 version) others =
        selectSources B blake3 L.tables taskText structured budget
          (BaselineSelector.withVersion B blake3 version) candidates := by
  obtain ⟨references, hranking, hfits, hexceeds⟩ :=
    selectSources_ranking budget blake3 h hterm hsize hform hsome hversion hstored hfew
  refine ⟨references, hranking, fun others hothers ↦ hothers.unique h hranking, ?_, hfits,
    fun others hsame ↦ selectSources_congr hsame⟩
  refine ⟨fun hrefused hwithin ↦ ?_, hexceeds⟩
  obtain ⟨result, hok, -⟩ := hfits hwithin
  rw [hok] at hrefused
  cases hrefused

end Select

section Golden

open Reference Golden

/-- The genesis scores two terms of the task and the request one, so it comes first, though its text
is the greater one. -/
theorem advanced_ranking : Ranking advanced (tokenize "context genesis agent")
    [second.id, first.id, second.id]
    [.fromSource (sourceOf first), .fromSource (sourceOf second)] := by
  have hwell := advanced_wellFormed.toWellKeyed
  have hmem : first ∈ advanced.events ∧ second ∈ advanced.events :=
    ⟨List.mem_cons_self, List.mem_cons_of_mem _ (List.mem_singleton_self _)⟩
  have hfirst : scoreOf advanced (tokenize "context genesis agent") first.id = 2 := by
    rw [scoreOf_stored hwell hmem.1]
    decide +kernel
  have hsecond : scoreOf advanced (tokenize "context genesis agent") second.id = 1 := by
    rw [scoreOf_stored hwell hmem.2]
    decide +kernel
  refine ⟨fun reference hreference ↦ ?_, fun id ↦ ⟨fun hid ↦ ?_, fun hid ↦ ?_⟩, ?_⟩
  · rcases List.mem_pair.mp hreference with rfl | rfl
    · exact ⟨first, hmem.1, rfl⟩
    · exact ⟨second, hmem.2, rfl⟩
  · rcases List.mem_pair.mp hid with rfl | rfl
    · exact ⟨List.mem_cons_of_mem _ List.mem_cons_self, hfirst.symm ▸ Nat.succ_pos 1⟩
    · exact ⟨List.mem_cons_self, hsecond.symm ▸ Nat.one_pos⟩
  · have heither : id = second.id ∨ id = first.id ∨ id = second.id := by
      simpa only [List.mem_cons, List.not_mem_nil, or_false] using hid.1
    rcases heither with rfl | rfl | rfl
    · exact List.mem_cons_of_mem _ (List.mem_singleton_self _)
    · exact List.mem_cons_self
    · exact List.mem_cons_of_mem _ (List.mem_singleton_self _)
  · refine List.pairwise_pair.mpr (Or.inl ?_)
    show scoreOf advanced _ second.id < scoreOf advanced _ first.id
    rw [hfirst, hsecond]
    exact Nat.lt_succ_self 1

theorem selectSources_exact_advanced : ∃ result,
    selectSources Golden.B (fun _ ↦ zeros 32) advanced.tables "context genesis agent" none .default
      (BaselineSelector.withVersion Golden.B (fun _ ↦ zeros 32) BASELINE_VERSION)
      [second.id, first.id, second.id] = .ok result ∧
    Selected advanced (tokenize "context genesis agent") [second.id, first.id, second.id]
      [.fromSource (sourceOf first), .fromSource (sourceOf second)] result := by
  have hterm : ∃ c ∈ "context genesis agent".toList, c.isAlphanum = true := ⟨'a', by decide, rfl⟩
  have hstored : ∀ id ∈ [second.id, first.id, second.id], ∃ e ∈ advanced.events, e.id = id := by
    intro id hid
    simp only [List.mem_cons, List.not_mem_nil, or_false] at hid
    rcases hid with rfl | rfl | rfl
    · exact ⟨second, List.mem_append_right _ (List.mem_singleton_self _), rfl⟩
    · exact ⟨first, List.mem_append_left _ (List.mem_singleton_self _), rfl⟩
    · exact ⟨second, List.mem_append_right _ (List.mem_singleton_self _), rfl⟩
  have hfew : [second.id, first.id, second.id].toFinset.card ≤ MAX_SELECTION_CANDIDATES :=
    (List.toFinset_card_le _).trans (by decide)
  obtain ⟨references, -, hunique, -, hselects, -⟩ :=
    selectSources_exact .default (fun _ ↦ zeros 32) advanced_wellFormed.toWellKeyed hterm
      (by decide) acceptedForm_none (by decide : BASELINE_VERSION ≠ "") (by decide)
      hstored hfew
  obtain rfl := hunique _ advanced_ranking
  have hbytes : ([SourceReference.fromSource (sourceOf first), .fromSource (sourceOf second)].map
      SourceReference.payloadBytes).sum ≤ MAX_SELECTED_BYTES := by decide +kernel
  exact hselects ⟨(by decide : 2 ≤ MAX_SELECTED_EVENTS), hbytes⟩

/-- Without any candidate the ranking is empty and within the budget, but a task text that is too
long for its record is refused, and so is a selector without a version. -/
theorem selectSources_refused : ∃ taskText : String,
    (∃ c ∈ taskText.toList, c.isAlphanum = true) ∧
    Ranking advanced (tokenize taskText) [] [] ∧ Fits [] .default ∧
    selectSources Golden.B (fun _ ↦ zeros 32) advanced.tables taskText none .default
      (BaselineSelector.new Golden.B fun _ ↦ zeros 32) [] = .error .invalidTask ∧
    selectSources Golden.B (fun _ ↦ zeros 32) advanced.tables "agent" none .default
      (BaselineSelector.withVersion Golden.B (fun _ ↦ zeros 32) "") [] = .error .selectorError := by
  have hterm : ∃ c ∈ (letters (MAX_TASK_BYTES + 1)).toList, c.isAlphanum = true := by
    refine ⟨'a', ?_, rfl⟩
    rw [letters, String.toList_ofList]
    exact List.mem_replicate.mpr ⟨Nat.succ_ne_zero _, rfl⟩
  have hlarge : ¬ (letters (MAX_TASK_BYTES + 1) ≠ "" ∧
      (letters (MAX_TASK_BYTES + 1)).utf8ByteSize ≤ MAX_TASK_BYTES) := by
    rw [letters_size]
    exact fun hboth ↦ Nat.not_succ_le_self _ hboth.2
  have hnothing : ∀ taskTerms, Ranking advanced taskTerms [] [] := fun taskTerms ↦
    ⟨List.forall_mem_nil _, fun _ ↦ iff_of_false List.not_mem_nil fun h ↦ List.not_mem_nil h.1,
      List.Pairwise.nil⟩
  refine ⟨letters (MAX_TASK_BYTES + 1), hterm, hnothing _, ⟨Nat.zero_le _, Nat.zero_le _⟩, ?_, ?_⟩
  · have hrecord : TaskRecordV1.fromVerbatim Golden.B (fun _ ↦ zeros 32)
        (letters (MAX_TASK_BYTES + 1)) none = .error .limitExceeded := by
      unfold TaskRecordV1.fromVerbatim TaskRecordV1.new TaskRecordV1.validate
      dsimp only
      rw [ensure_false hlarge]
      rfl
    rw [selectSources, ensure_true (isBlank_of_term hterm), ok_bind, hrecord]
    rfl
  · rw [selectSources, ensure_true (by decide), ok_bind,
      fromVerbatim_accepted (by decide) (by decide) acceptedForm_none, mapError_ok, ok_bind]
    rfl

end Golden

end ContextMesh.Selection
