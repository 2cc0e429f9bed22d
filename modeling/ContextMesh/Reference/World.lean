import ContextMesh.Reference.Libraries
import ContextMesh.Foundation.Keyed
import ContextMesh.Contract.Event
import Mathlib.Data.List.Find

/-!
Worlds: the libraries with a table of key pairs and of signed events in place of the cryptographic
algorithms. A body of the table gets its identifier and its signature from the table, so every
signed event of a sound world is authentic.
-/

set_option autoImplicit false
set_option relaxedAutoImplicit false

namespace ContextMesh.Reference

open Checked Keyed Contract

def zeros (size : ℕ) : Fixed size := ⟨List.replicate size 0, List.length_replicate⟩

/-- A text of so many letters. -/
@[irreducible] def letters (count : ℕ) : String := String.ofList (List.replicate count 'a')

theorem letters_plain (count : ℕ) : (letters count).toList.all plainChar := by
  have hletter : plainChar 'a' = true := by decide
  rw [letters, String.toList_ofList, List.all_replicate]
  cases count with
  | zero => rfl
  | succ count => exact hletter

theorem letters_size (count : ℕ) : (letters count).utf8ByteSize = count := by
  have hletter : Char.utf8Size 'a' = 1 := by decide
  induction count with
  | zero =>
    rw [letters]
    rfl
  | succ count ih =>
    rw [letters] at ih ⊢
    rw [List.replicate_succ, String.ofList_cons, String.utf8ByteSize_append,
      String.utf8ByteSize_singleton, ih, hletter, Nat.add_comm]

/-- The libraries without any cryptography; the texts of a body need no more. -/
def silent : Boundary := Cryptography.boundary
  ⟨fun _ _ ↦ zeros 32, fun _ ↦ zeros 32, fun _ _ ↦ zeros 64, fun _ ↦ false, fun _ _ _ ↦ false⟩

/-- A body with the identifier and the signature it gets. -/
structure Signed where
  body : EventBodyV1
  id : Fixed 32
  signature : Fixed 64

namespace Signed

def bodyBytes (s : Signed) : Bytes := toVec (s.body.toJson silent)

def event (s : Signed) : SignedEventV1 := ⟨⟨s.id⟩, s.body, ⟨s.signature⟩⟩

def wire (s : Signed) : Bytes := toVec (s.event.toJson silent)

end Signed

/-- Key pairs as seeds with their verifying keys, signed events, and every digest that is not an
event identifier. -/
structure World where
  keys : List (Fixed 32 × Fixed 32)
  signed : List Signed
  digest : String → Bytes → Fixed 32

namespace World

variable (w : World)

def deriveKey (domain : String) (bytes : Bytes) : Fixed 32 :=
  if domain = EVENT_ID_DOMAIN then
    ((w.signed.find? fun s ↦ s.bodyBytes = bytes).map Signed.id).getD (zeros 32)
  else w.digest domain bytes

def verifyingKey (seed : Fixed 32) : Fixed 32 :=
  ((w.keys.find? fun pair ↦ pair.1 = seed).map Prod.snd).getD (zeros 32)

def signatureOf (key : Fixed 32) (message : Bytes) : Fixed 64 :=
  ((w.signed.find? fun s ↦ s.body.author.bytes = key ∧ signingMessage ⟨s.id⟩ = message).map
    Signed.signature).getD (zeros 64)

def sign (seed : Fixed 32) (message : Bytes) : Fixed 64 :=
  w.signatureOf (w.verifyingKey seed) message

def boundary : Boundary := Cryptography.boundary
  { deriveKey := w.deriveKey
    verifyingKey := w.verifyingKey
    sign := w.sign
    isVerifyingKey := fun key ↦ key ∈ zeros 32 :: w.keys.map Prod.snd
    verifyStrict := fun key message signature ↦ signature = w.signatureOf key message }

/-- The bodies and the identifiers of the table are distinct and the authors have keys. -/
structure Sound : Prop where
  bodies : (w.signed.map Signed.bodyBytes).Nodup
  ids : (w.signed.map Signed.id).Nodup
  authors : ∀ s ∈ w.signed, s.body.author.bytes ∈ w.keys.map Prod.snd

variable {w}

theorem canonicalize_eq (v : Json) : canonicalize w.boundary v = .ok (toVec v) := rfl

theorem deriveEventId_eq (h : w.Sound) {s : Signed} (hs : s ∈ w.signed)
    (hvalid : s.body.validate w.boundary = .ok ()) :
    deriveEventId w.boundary s.body = .ok ⟨s.id⟩ := by
  rw [deriveEventId, EventBodyV1.canonicalBytes, hvalid, ok_bind, canonicalize_eq, ok_bind]
  have hfind : w.signed.find? (fun other ↦ other.bodyBytes = s.bodyBytes) = some s :=
    (find_key_eq_some h.bodies).mpr ⟨hs, rfl⟩
  change Except.ok (EventId.mk (w.deriveKey EVENT_ID_DOMAIN s.bodyBytes)) = _
  rw [deriveKey, if_pos rfl, hfind]
  rfl

/-- Only the body of a signed event has the identifier of the event. -/
theorem bytes_of_deriveKey (h : w.Sound) {s : Signed} (hs : s ∈ w.signed) (hid : s.id ≠ zeros 32)
    {bytes : Bytes} (hkey : w.deriveKey EVENT_ID_DOMAIN bytes = s.id) : bytes = s.bodyBytes := by
  rw [deriveKey, if_pos rfl] at hkey
  cases hfind : w.signed.find? fun other ↦ other.bodyBytes = bytes with
  | none =>
    rw [hfind] at hkey
    exact absurd hkey.symm hid
  | some other =>
    rw [hfind] at hkey
    obtain rfl := List.inj_on_of_nodup_map h.ids (List.mem_of_find?_eq_some hfind) hs hkey
    have hsame := List.find?_some hfind
    exact (of_decide_eq_true hsame).symm

/-- The signature of the table is the one the key of its author gives. -/
theorem signatureOf_eq (h : w.Sound) {s : Signed} (hs : s ∈ w.signed) :
    w.signatureOf s.body.author.bytes (signingMessage ⟨s.id⟩) = s.signature := by
  have hsame : ∀ other ∈ w.signed, (other.body.author.bytes = s.body.author.bytes ∧
      signingMessage ⟨other.id⟩ = signingMessage ⟨s.id⟩) ↔ other.id = s.id := by
    intro other hother
    constructor
    · rintro ⟨-, hmessage⟩
      exact Subtype.ext (List.append_cancel_left hmessage)
    · intro hid
      obtain rfl := List.inj_on_of_nodup_map h.ids hother hs hid
      exact ⟨rfl, rfl⟩
  rw [signatureOf, List.find?_congr fun other hother ↦ decide_eq_decide.mpr (hsame other hother),
    (find_key_eq_some h.ids).mpr ⟨hs, rfl⟩]
  rfl

/-- Honest signatures of a world verify. -/
theorem honest (w : World) : Honest w.boundary where
  verifying seed := by
    change decide (w.verifyingKey seed ∈ zeros 32 :: w.keys.map Prod.snd) = true
    rw [decide_eq_true_eq, verifyingKey]
    cases hfind : w.keys.find? fun pair ↦ pair.1 = seed with
    | none => exact List.mem_cons_self
    | some pair =>
      exact List.mem_cons_of_mem _ (List.mem_map_of_mem (List.mem_of_find?_eq_some hfind))
  accepts _ _ := decide_eq_true rfl

/-- The numbers of a world read back as safe ones. -/
theorem safeNumbers (w : World) : SafeNumbers w.boundary := by
  intro n h
  cases n with
  | posInt n => exact h
  | negInt n => exact h
  | float x => rfl

theorem verify_event (h : w.Sound) {s : Signed} (hs : s ∈ w.signed)
    (hvalid : s.body.validate w.boundary = .ok ()) : s.event.verify w.boundary = .ok () := by
  have hverifying : w.boundary.isVerifyingKey s.body.author.bytes = true :=
    decide_eq_true (List.mem_cons_of_mem _ (h.authors s hs))
  have hsignature : w.boundary.verifyStrict s.body.author.bytes (signingMessage ⟨s.id⟩)
      s.signature = true := decide_eq_true (signatureOf_eq h hs).symm
  rw [SignedEventV1.verify, verifyParts, Signed.event, hvalid, ok_bind,
    deriveEventId_eq h hs hvalid, ok_bind, ensure_true rfl, ok_bind, ensure_true hverifying,
    ok_bind, ensure_true hsignature]

/-- A signed event of a sound world is authentic on its canonical bytes. -/
theorem authentic (h : w.Sound) {s : Signed} (hs : s ∈ w.signed)
    (hvalid : s.body.validate w.boundary = .ok ())
    (hsettled : Settled w.boundary (s.event.toJson w.boundary)) :
    s.event.Authentic w.boundary s.wire := by
  have hrender : s.event.toWire w.boundary = .ok s.wire := by
    rw [SignedEventV1.toWire_eq_ok]
    exact ⟨verify_event h hs hvalid, canonicalize_eq _⟩
  exact ⟨SignedEventV1.fromWire_of_settled hrender hsettled, hrender⟩

/-- An identity of the world that signs a body of the table gets the event of the table. -/
theorem createEvent_eq (h : w.Sound) {s : Signed} (hs : s ∈ w.signed)
    (hvalid : s.body.validate w.boundary = .ok ()) {identity : SigningIdentity}
    (hkey : s.body.author = identity.author w.boundary)
    (hversion : s.body.version = EVENT_VERSION) :
    identity.createEvent w.boundary s.body.context s.body.parents s.body.kind s.body.payload =
      .ok s.event := by
  have hbody : EventBodyV1.new w.boundary s.body.context s.body.parents s.body.kind
      (identity.author w.boundary) s.body.payload = .ok s.body := by
    have hself : (⟨EVENT_VERSION, s.body.context, s.body.parents, s.body.kind,
        identity.author w.boundary, s.body.payload⟩ : EventBodyV1) = s.body := by
      rw [← hversion, ← hkey]
    rw [EventBodyV1.new, hself, hvalid, ok_bind]
  have hsign : w.boundary.sign identity.seed (signingMessage ⟨s.id⟩) = s.signature := by
    change w.signatureOf (w.verifyingKey identity.seed) (signingMessage ⟨s.id⟩) = s.signature
    rw [← signatureOf_eq h hs, hkey]
    rfl
  rw [SigningIdentity.createEvent, hbody, ok_bind, SigningIdentity.signBody, hvalid, ok_bind,
    ensure_true hkey, ok_bind, deriveEventId_eq h hs hvalid, ok_bind, hsign]
  rfl

/-- No other body has the identifier of a signed event. -/
theorem not_collides (h : w.Sound) {s : Signed} (hs : s ∈ w.signed) (hid : s.id ≠ zeros 32)
    (hvalid : s.body.validate w.boundary = .ok ()) {bytes bytes' : Bytes}
    (hbytes' : s.body.canonicalBytes w.boundary = .ok bytes') (hne : bytes ≠ bytes') :
    w.boundary.deriveKey EVENT_ID_DOMAIN bytes ≠ w.boundary.deriveKey EVENT_ID_DOMAIN bytes' := by
  intro hkeys
  have hderived := deriveEventId_eq h hs hvalid
  rw [deriveEventId, hbytes', ok_bind, Except.ok.injEq] at hderived
  have hkey : w.deriveKey EVENT_ID_DOMAIN bytes' = s.id := EventId.mk.inj hderived
  exact hne ((bytes_of_deriveKey h hs hid (hkeys.trans hkey)).trans
    (bytes_of_deriveKey h hs hid hkey).symm)

/-- Bodies of different kinds or payloads have different canonical bytes. -/
theorem bodyBytes_inj {first second : Signed}
    (hfirst : Settled silent (first.body.toJson silent))
    (hsecond : Settled silent (second.body.toJson silent))
    (h : first.bodyBytes = second.bodyBytes) :
    first.body.kind = second.body.kind ∧ first.body.payload = second.body.payload ∧
      first.body.context = second.body.context := by
  have hread := (deserialize_toVec (first.body.toJson silent)).symm.trans
    ((congrArg deserialize h).trans (deserialize_toVec (second.body.toJson silent)))
  rw [Except.ok.injEq] at hread
  have hjson : first.body.toJson silent = second.body.toJson silent :=
    hfirst.symm.trans (hread.trans hsecond)
  simp only [EventBodyV1.toJson, Json.obj.injEq, List.cons.injEq, Prod.mk.injEq,
    Json.str.injEq, true_and] at hjson
  exact ⟨hjson.2.2.1, hjson.2.2.2.2.1, ContextId.text_injective hjson.2.1⟩

end World

end ContextMesh.Reference
