import ContextMesh.Custody.Secrets
import ContextMesh.Reference.Golden
import ContextMesh.Transport.Client

/-!
Loading key and token files while writers run. A loader looks at the name, opens the file, looks at
the open file, reads it and looks at the name again; between these calls anything can happen to the
directory. What it loads is the whole secret of one writer, and a token that was generated is a
token to the server and the client alike.
-/

set_option autoImplicit false
set_option relaxedAutoImplicit false

namespace ContextMesh.Custody

open Checked Contract Sync Transport Relation

variable {ι ν : Type}

/-- The disk at the five calls of a loader. -/
structure Glances (ν : Type) where
  before : Volume ν UInt8
  opened : Volume ν UInt8
  described : Volume ν UInt8
  read : Volume ν UInt8
  after : Volume ν UInt8

/-- The file that opening a name leads to. -/
def opensTo (d : Volume ν UInt8) (path : ν) : Option (ℕ ⊕ ℕ) :=
  match d.names path with
  | some (.file inode) => some (.inl inode)
  | some (.symlink target) => target.map .inl
  | some (.directory mode) => some (.inr mode)
  | none => none

/-- The name still leads to the file that was opened, with nothing wrong about it. -/
def unchanged (g : Glances ν) (path : ν) (inode expectedLen : ℕ) : Prop :=
  g.after.names path = some (.file inode) ∧ ¬ exposed (g.after.files inode).mode ∧
    (g.after.files inode).content.length = expectedLen

instance (g : Glances ν) (path : ν) (inode expectedLen : ℕ) :
    Decidable (unchanged g path inode expectedLen) := inferInstanceAs (Decidable (_ ∧ _ ∧ _))

/-- Loads a secret of 32 bytes. -/
def readSecretFile (g : Glances ν) (path : ν) (expectedLen : ℕ) : Except KeyFileError Bytes :=
  match g.before.names path with
  | none => .error .unavailable
  | some (.file inode) =>
    let before := g.before.files inode
    if before.content.length ≠ expectedLen then .error .malformed
    else if exposed before.mode then .error .insecurePermissions
    else
      match opensTo g.opened path with
      | none => .error .unavailable
      | some (.inr mode) => .error (if exposed mode then .insecurePermissions else .malformed)
      | some (.inl other) =>
        let opened := g.described.files other
        if other = inode ∧ opened.content.length = expectedLen ∧ ¬ exposed opened.mode then
          if (g.read.files other).content.length < 32 then .error .malformed
          else if unchanged g path other expectedLen then
            .ok ((g.read.files other).content.take 32)
          else .error .unavailable
        else .error (if exposed opened.mode then .insecurePermissions else .malformed)
  | some _ => .error .malformed

/-- Loads the text of a token; the length is that of the file when it was opened. -/
def loadTokenFile (g : Glances ν) (path : ν) : Except SyncError Bytes :=
  match g.before.names path with
  | some (.file inode) =>
    if exposed (g.before.files inode).mode then .error .tokenSource
    else
      match opensTo g.opened path with
      | some (.inl other) =>
        let opened := g.described.files other
        if other ≠ inode ∨ exposed opened.mode then .error .tokenSource
        else if opened.content.length ≠ 7 + ENCODED_LEN then .error .tokenSource
        else if g.after.names path = some (.file other) ∧ ¬ exposed (g.after.files other).mode then
          .ok (g.read.files other).content
        else .error .tokenSource
      | _ => .error .tokenSource
  | _ => .error .tokenSource

/-- The seed of an identity from its key file. -/
def loadKeyFile (g : Glances ν) (path : ν) : Except KeyFileError Bytes := readSecretFile g path 32

/-- The text that a generated token file holds. -/
def tokenText (B : Boundary) (bytes : Fixed 32) : Bytes :=
  ascii ("token1_" ++ B.encode64 bytes.1)

/-! ### Secrets stay -/

section Stays

variable [DecidableEq ι] [DecidableEq ν] {job : ι → Job ν} {origin : Volume ν UInt8}
  {w w' : World ι ν} {name : ν} {inode : ℕ} {bytes : Bytes}

/-- A final name leads to a file with the whole secret. -/
def Holds (d : Volume ν UInt8) (name : ν) (inode : ℕ) (bytes : Bytes) : Prop :=
  d.names name = some (.file inode) ∧ d.files inode = whole bytes

/-- No step of a call moves a final name or touches the secret behind it. -/
theorem Holds.work (h : Holds w.disk name inode bytes) (hname : ∀ i, name ≠ (job i).temp)
    (hsound : Sound job origin w) (hwork : Work job w w') : Holds w'.disk name inode bytes := by
  obtain ⟨hentry, hwhole⟩ := h
  have howned {i : ι} {other : ℕ} (howns : Owns job w.disk i other) : inode ≠ other := by
    rintro rfl
    exact howns.alone name (hname i) (Or.inl hentry)
  have hput {i : ι} {other : ℕ} (howns : Owns job w.disk i other) (file : File UInt8) :
      Holds (w.disk.put other file) name inode bytes :=
    ⟨hentry, (Volume.files_put_other w.disk (howned howns) file).trans hwhole⟩
  have hunlink (i : ι) : Holds (w.disk.enter (job i).temp none) name inode bytes :=
    ⟨(Volume.names_enter ..).trans ((if_neg (hname i)).trans hentry), hwhole⟩
  cases hwork with
  | @create i stage free =>
    refine ⟨(Volume.names_enter ..).trans ((if_neg (hname i)).trans hentry), ?_⟩
    have hold := hsound.numbered name inode (Or.inl hentry)
    exact (Volume.files_create_other _ _ _ hold.ne).trans hwhole
  | @write i other chunk rest stage =>
    have hfits := hsound.fits i
    rw [stage] at hfits
    exact hput hfits.1 _
  | @sync i other stage =>
    have hfits := hsound.fits i
    rw [stage] at hfits
    exact hput hfits.1 _
  | @link i other node stage entry free =>
    have hne : name ≠ (job i).path := by
      rintro rfl
      rw [free] at hentry
      cases hentry
    exact ⟨(Volume.names_enter ..).trans ((if_neg hne).trans hentry), hwhole⟩
  | @unlink i other stage => exact hunlink i
  | @clean i error stage => exact hunlink i
  | @repair other node entry =>
    refine ⟨hentry, ?_⟩
    by_cases hsame : inode = node
    · subst hsame
      exact (Volume.files_put_self ..).trans (by rw [hwhole]; rfl)
    · exact (Volume.files_put_other _ hsame _).trans hwhole
  | _ => exact ⟨hentry, hwhole⟩

theorem Holds.works (h : Holds w.disk name inode bytes) (hname : ∀ i, name ≠ (job i).temp)
    (happart : Apart job) (hsound : Sound job origin w) (hrun : ReflTransGen (Work job) w w') :
    Sound job origin w' ∧ Holds w'.disk name inode bytes := by
  induction hrun with
  | refl => exact ⟨hsound, h⟩
  | tail _ hwork ih =>
    obtain ⟨hsound, hholds⟩ := ih
    exact ⟨hsound.work happart hwork, hholds.work hname hsound hwork⟩

end Stays

/-! ### What loaders see -/

section Loaders

variable {g : Glances ν} {path : ν} {inode : ℕ} {bytes : Bytes}

/-- A secret that stays at its name during all five calls. -/
structure Steady (g : Glances ν) (path : ν) (inode : ℕ) (bytes : Bytes) : Prop where
  before : Holds g.before path inode bytes
  opened : Holds g.opened path inode bytes
  described : Holds g.described path inode bytes
  read : Holds g.read path inode bytes
  after : Holds g.after path inode bytes

theorem whole_private (bytes : Bytes) : ¬ exposed (whole bytes).mode := by
  have hmasked : SECRET_MODE &&& 0o077 = 0 := by decide
  exact not_not_intro hmasked

theorem Holds.opensTo {d : Volume ν UInt8} (h : Holds d path inode bytes) :
    opensTo d path = some (.inl inode) := by
  rw [Custody.opensTo, h.1]

theorem loadKeyFile_steady (h : Steady g path inode bytes) :
    loadKeyFile g path = if bytes.length = 32 then .ok bytes else .error .malformed := by
  rw [loadKeyFile, readSecretFile, h.before.1]
  dsimp only
  rw [h.before.2, h.opened.opensTo, if_neg (whole_private bytes)]
  by_cases hlength : bytes.length = 32
  · have hshort : ¬ (whole bytes).content.length ≠ 32 := not_not_intro hlength
    have hread : ¬ (whole bytes).content.length < 32 := Nat.not_lt.mpr hlength.ge
    have hunchanged : unchanged g path inode 32 := by
      rw [unchanged, h.after.2]
      exact ⟨h.after.1, whole_private bytes, hlength⟩
    dsimp only
    rw [if_neg hshort, h.described.2, if_pos ⟨rfl, hlength, whole_private bytes⟩, h.read.2,
      if_neg hread, if_pos hunchanged, if_pos hlength]
    exact congrArg Except.ok (List.take_of_length_le hlength.le)
  · have hwrong : (whole bytes).content.length ≠ 32 := hlength
    rw [if_pos hwrong, if_neg hlength]

theorem loadTokenFile_steady (h : Steady g path inode bytes) :
    loadTokenFile g path = if bytes.length = 50 then .ok bytes else .error .tokenSource := by
  rw [loadTokenFile, h.before.1]
  dsimp only
  rw [h.before.2, h.opened.opensTo, if_neg (whole_private bytes)]
  dsimp only
  have hsame : ¬ (inode ≠ inode ∨ exposed (whole bytes).mode) := by
    rintro (hother | hexposed)
    · exact hother rfl
    · exact whole_private bytes hexposed
  rw [h.described.2, if_neg hsame]
  by_cases hlength : bytes.length = 50
  · have hshort : ¬ (whole bytes).content.length ≠ 7 + ENCODED_LEN := not_not_intro hlength
    have hafter : g.after.names path = some (.file inode) ∧
        ¬ exposed (g.after.files inode).mode := by
      rw [h.after.2]
      exact ⟨h.after.1, whole_private bytes⟩
    rw [if_neg hshort, if_pos hafter, h.read.2, if_pos hlength]
    rfl
  · have hwrong : (whole bytes).content.length ≠ 7 + ENCODED_LEN := hlength
    rw [if_pos hwrong, if_neg hlength]

theorem entry_of_loadKeyFile (h : loadKeyFile g path = .ok bytes) :
    ∃ inode, g.before.names path = some (.file inode) := by
  rw [loadKeyFile, readSecretFile] at h
  cases hentry : g.before.names path with
  | none =>
    rw [hentry] at h
    cases h
  | some node =>
    cases node with
    | file inode => exact ⟨inode, rfl⟩
    | symlink target =>
      rw [hentry] at h
      cases h
    | directory mode =>
      rw [hentry] at h
      cases h

theorem entry_of_loadTokenFile (h : loadTokenFile g path = .ok bytes) :
    ∃ inode, g.before.names path = some (.file inode) := by
  rw [loadTokenFile] at h
  cases hentry : g.before.names path with
  | none =>
    rw [hentry] at h
    cases h
  | some node =>
    cases node with
    | file inode => exact ⟨inode, rfl⟩
    | symlink target =>
      rw [hentry] at h
      cases h
    | directory mode =>
      rw [hentry] at h
      cases h

end Loaders

/-! ### Loading while others write -/

section Runs

variable [DecidableEq ι] [DecidableEq ν] {job : ι → Job ν} {origin : Volume ν UInt8} {path : ν}

/-- The five calls of a loader, with steps of the writers in between. -/
structure Loads (job : ι → Job ν) (before opened described read after : World ι ν) : Prop where
  opens : ReflTransGen (Work job) before opened
  describes : ReflTransGen (Work job) opened described
  reads : ReflTransGen (Work job) described read
  looks : ReflTransGen (Work job) read after

def glances (before opened described read after : World ι ν) : Glances ν :=
  ⟨before.disk, opened.disk, described.disk, read.disk, after.disk⟩

variable {before opened described read after : World ι ν}

theorem Loads.steady (h : Loads job before opened described read after) (happart : Apart job)
    (hsound : Sound job origin before) (hpath : ∀ i, path ≠ (job i).temp) {inode : ℕ}
    {bytes : Bytes} (hholds : Holds before.disk path inode bytes) :
    Steady (glances before opened described read after) path inode bytes := by
  obtain ⟨hsound₁, hholds₁⟩ := hholds.works hpath happart hsound h.opens
  obtain ⟨hsound₂, hholds₂⟩ := hholds₁.works hpath happart hsound₁ h.describes
  obtain ⟨hsound₃, hholds₃⟩ := hholds₂.works hpath happart hsound₂ h.reads
  obtain ⟨-, hholds₄⟩ := hholds₃.works hpath happart hsound₃ h.looks
  exact ⟨hholds, hholds₁, hholds₂, hholds₃, hholds₄⟩

omit [DecidableEq ν] [DecidableEq ι] in
theorem Sound.holds {w : World ι ν} (h : Sound job origin w) (hpath : ∀ i, path ≠ (job i).temp)
    (hfree : origin.names path = none) {inode : ℕ}
    (hentry : w.disk.names path = some (.file inode)) :
    ∃ i, (job i).path = path ∧ Holds w.disk path inode (job i).bytes := by
  obtain ⟨hmem, hplaced⟩ := h.targets path hpath
  rcases hplaced _ hmem with hold | ⟨-, i, other, hi, hother, hwhole⟩
  · rw [hold, hfree] at hentry
    cases hentry
  · rw [hentry, Option.some.injEq, Node.file.injEq] at hother
    exact ⟨i, hi, hentry, hother ▸ hwhole⟩

/-- What a call has written is there to load once the call has succeeded. -/
theorem Loads.steady_of_done (h : Loads job before opened described read after)
    (happart : Apart job) (hsound : Sound job origin before) (hpath : ∀ i, path ≠ (job i).temp)
    {i : ι} {inode : ℕ} (hdone : before.stage i = .done inode) (hi : (job i).path = path) :
    Steady (glances before opened described read after) path inode (job i).bytes := by
  have hfits := hsound.fits i
  rw [hdone] at hfits
  obtain ⟨hentry, hwhole, -⟩ := hfits
  rw [hi] at hentry
  exact h.steady happart hsound hpath ⟨hentry, hwhole⟩

/-- A call that has succeeded is over. -/
theorem done_stays {w w' : World ι ν} {i : ι} {inode : ℕ} (hdone : w.stage i = .done inode)
    (hrun : ReflTransGen (Step job) w w') : w'.stage i = .done inode := by
  have hmove {w : World ι ν} (hdone : w.stage i = .done inode) {j : ι}
      (hj : w.stage j ≠ .done inode) (disk : Volume ν UInt8) (stage : Stage) :
      (w.move j disk stage).stage i = .done inode := by
    have hne : i ≠ j := fun hsame ↦ hj (hsame ▸ hdone)
    exact (stage_move_other w hne disk stage).trans hdone
  induction hrun with
  | refl => exact hdone
  | tail _ hstep ih =>
    cases hstep with
    | crash hcrash =>
      show Stage.crashed _ = _
      rw [ih]
      rfl
    | work hwork =>
      cases hwork with
      | fail running => exact hmove ih (fun hsame ↦ by rw [hsame] at running; exact running) _ _
      | repair entry => exact ih
      | _ =>
        -- the other steps name the stage they start from
        exact hmove ih (by simp [*]) _ _

/-- Loading a key or a token at any time of a run, with any steps of the writers between the calls,
gives the whole secret of one call for that name or fails. Once a call has succeeded, loading gives
its secret. -/
theorem loads_whole (hsettled : origin.Settled) (hnumbered : origin.Numbered)
    (happart : Apart job) (hpath : ∀ i, path ≠ (job i).temp) (hfree : origin.names path = none)
    (hrun : ReflTransGen (Step job) (World.start origin) before)
    (hloads : Loads job before opened described read after) :
    (∀ bytes, loadKeyFile (glances before opened described read after) path = .ok bytes →
      ∃ i, (job i).path = path ∧ bytes = (job i).bytes) ∧
    (∀ text, loadTokenFile (glances before opened described read after) path = .ok text →
      ∃ i, (job i).path = path ∧ text = (job i).bytes) ∧
    ∀ i inode, before.stage i = .done inode → (job i).path = path →
      ((job i).bytes.length = 32 →
        loadKeyFile (glances before opened described read after) path = .ok (job i).bytes) ∧
      ((job i).bytes.length = 50 →
        loadTokenFile (glances before opened described read after) path = .ok (job i).bytes) := by
  have hsound := (sound_start hsettled hnumbered).run happart hrun
  refine ⟨fun bytes hload ↦ ?_, fun text hload ↦ ?_, fun i inode hdone hi ↦ ?_⟩
  · obtain ⟨inode, hentry⟩ := entry_of_loadKeyFile hload
    obtain ⟨i, hi, hholds⟩ := hsound.holds hpath hfree hentry
    rw [loadKeyFile_steady (hloads.steady happart hsound hpath hholds)] at hload
    split_ifs at hload
    exact ⟨i, hi, (Except.ok.inj hload).symm⟩
  · obtain ⟨inode, hentry⟩ := entry_of_loadTokenFile hload
    obtain ⟨i, hi, hholds⟩ := hsound.holds hpath hfree hentry
    rw [loadTokenFile_steady (hloads.steady happart hsound hpath hholds)] at hload
    split_ifs at hload
    exact ⟨i, hi, (Except.ok.inj hload).symm⟩
  · have hsteady := hloads.steady_of_done happart hsound hpath hdone hi
    refine ⟨fun hlength ↦ ?_, fun hlength ↦ ?_⟩
    · rw [loadKeyFile_steady hsteady, if_pos hlength]
    · rw [loadTokenFile_steady hsteady, if_pos hlength]

end Runs

/-! ### Tokens -/

section Tokens

variable {B : Boundary}

theorem plainChar_ascii {c : Char} (h : plainChar c = true) : c.toNat < 128 := by
  have hbound {n : ℕ} (hn : n < 128) {v : UInt32} (hle : c.val ≤ v) (hv : v.toNat = n) :
      c.toNat < 128 := by
    have hnat : c.val.toNat ≤ v.toNat := hle
    show c.val.toNat < 128
    omega
  simp only [plainChar, Char.isAlphanum, Bool.or_eq_true, decide_eq_true_eq] at h
  rcases h with (((halpha | hdigit) | rfl) | rfl) | rfl
  · rcases Bool.or_eq_true_iff.mp halpha with hupper | hlower
    · exact hbound (by decide : 90 < 128) (of_decide_eq_true hupper).2 rfl
    · have hle := (Bool.and_eq_true_iff.mp hlower).2
      exact hbound (by decide : 122 < 128) (of_decide_eq_true hle) rfl
  · have hle := (Bool.and_eq_true_iff.mp hdigit).2
    exact hbound (by decide : 57 < 128) (of_decide_eq_true hle) rfl
  · decide
  · decide
  · decide

theorem asciiText_ascii {text : String} (h : ∀ c ∈ text.toList, c.toNat < 128) :
    asciiText (ascii text) = some text := by
  have hsmall : (ascii text).all fun byte ↦ byte.toNat < 128 := by
    rw [ascii, Ascii.encode_ascii h, List.all_eq_true]
    intro byte hbyte
    obtain ⟨c, hc, rfl⟩ := List.mem_map.mp hbyte
    rw [Ascii.byteOf_toNat (h c hc)]
    exact decide_eq_true (h c hc)
  rw [asciiText, if_pos hsmall, ascii, Ascii.encode_ascii h, List.map_map]
  have hback : text.toList.map ((fun byte : UInt8 ↦ Char.ofNat byte.toNat) ∘ Ascii.byteOf) =
      text.toList := by
    refine (List.map_congr_left fun c hc ↦ ?_).trans (List.map_id _)
    show Char.ofNat (Ascii.byteOf c).toNat = c
    rw [Ascii.byteOf_toNat (h c hc), Char.ofNat_toNat]
  rw [hback, String.ofList_toList]

theorem length_ascii (text : String) : (ascii text).length = text.utf8ByteSize :=
  Ascii.length_encode text

theorem tokenText_eq (bytes : Fixed 32) :
    tokenText B bytes = ascii "token1_" ++ ascii (B.encode64 bytes.1) := by
  rw [tokenText, ascii, String.toList_append, Ascii.encode, List.flatMap_append]
  rfl

theorem length_tokenText (bytes : Fixed 32) : (tokenText B bytes).length = 50 := by
  have hprefix : (ascii "token1_").length = 7 := by decide
  rw [tokenText_eq, List.length_append, hprefix, length_ascii, B.encode64_size, bytes.2]

/-- The tokens that are accepted are the generated ones. -/
theorem parse_eq_ok {text : Bytes} {token : LoadedToken} :
    LoadedToken.parse B text = .ok token ↔ ∃ bytes : Fixed 32, text = tokenText B bytes ∧
      token.authorization = ascii "Bearer " ++ text := by
  have hlead : (ascii "token1_").length = 7 := by decide
  have hdrop (rest : Bytes) : (ascii "token1_" ++ rest).drop 7 = rest := by
    rw [← hlead, List.drop_left]
  constructor
  · intro h
    rw [LoadedToken.parse] at h
    split_ifs at h with hshape
    obtain ⟨encoded, -, h⟩ := bind_eq_ok.mp h
    obtain ⟨decoded, -, h⟩ := bind_eq_ok.mp h
    obtain ⟨hcanonical, h⟩ := unit_bind_eq_ok.mp h
    obtain ⟨hlength, hcanonical⟩ := ensure_eq_ok.mp hcanonical
    rw [Except.ok.injEq] at h
    obtain ⟨rest, rfl⟩ := hshape.2
    rw [hdrop] at hcanonical
    exact ⟨⟨decoded, hlength⟩, by rw [tokenText_eq, hcanonical], by rw [← h]⟩
  · rintro ⟨bytes, rfl, hauthorization⟩
    have hshape : (tokenText B bytes).length = 7 + ENCODED_LEN ∧
        ascii "token1_" <+: tokenText B bytes :=
      ⟨length_tokenText bytes, by rw [tokenText_eq]; exact List.prefix_append ..⟩
    have hplain : ∀ c ∈ (B.encode64 bytes.1).toList, c.toNat < 128 := fun c hc ↦
      plainChar_ascii (List.all_eq_true.mp (B.encode64_plain bytes.1) c hc)
    have htail : (tokenText B bytes).drop 7 = ascii (B.encode64 bytes.1) := by
      rw [tokenText_eq, hdrop]
    rw [LoadedToken.parse, dif_pos hshape, htail, asciiText_ascii hplain, required_some, ok_bind,
      B.decode64_encode64, required_some, ok_bind, ensure_true ⟨bytes.2, rfl⟩, ok_bind]
    obtain ⟨authorization, hsized⟩ := token
    congr 2
    exact hauthorization.symm

variable {ι ν : Type} [DecidableEq ι] [DecidableEq ν] {job : ι → Job ν} {origin : Volume ν UInt8}
  {path : ν}

/-- A token that a call generated is one token to all who load it: a server that keeps its hash
admits the requests of a client that sends it, whenever each of them loads it, whatever other
writers do meanwhile, and with crashes in between. -/
theorem token_shared (hsettled : origin.Settled) (hnumbered : origin.Numbered)
    (happart : Apart job) (hpath : ∀ i, path ≠ (job i).temp) {i : ι} {bytes : Fixed 32}
    (hi : (job i).path = path) (hbytes : (job i).bytes = tokenText B bytes)
    {w : World ι ν} {inode : ℕ} (hrun : ReflTransGen (Step job) (World.start origin) w)
    (hdone : w.stage i = .done inode) :
    ∃ token : LoadedToken,
      (∀ before opened described read after, ReflTransGen (Step job) w before →
        Loads job before opened described read after →
          (loadTokenFile (glances before opened described read after) path >>=
            LoadedToken.parse B) = .ok token) ∧
      ∀ headers, HeaderMap.getAll headers AUTHORIZATION = [token.authorization] →
        authenticated B headers (token.hash B) = true := by
  have hsized : (ascii "Bearer " ++ tokenText B bytes).length = 57 := by
    have hlead : (ascii "Bearer ").length = 7 := by decide
    rw [List.length_append, hlead, length_tokenText]
  set token : LoadedToken := ⟨ascii "Bearer " ++ tokenText B bytes, hsized⟩ with htoken
  have hparses : LoadedToken.parse B (tokenText B bytes) = .ok token :=
    parse_eq_ok.mpr ⟨bytes, rfl, rfl⟩
  refine ⟨token, fun before opened described read after hlater hloads ↦ ?_,
    fun headers hheaders ↦ ?_⟩
  · have hsound := (sound_start hsettled hnumbered).run happart (hrun.trans hlater)
    have hsteady := hloads.steady_of_done happart hsound hpath (done_stays hdone hlater) hi
    rw [loadTokenFile_steady hsteady, hbytes, if_pos (length_tokenText bytes), ok_bind, hparses]
  · rw [authenticated, hheaders]
    exact decide_eq_true rfl

end Tokens

section Example

open Reference

/-- Two calls for token files of different names. -/
def minting : Bool → Job ℕ
  | true => ⟨0, 2, tokenText Golden.B (zeros 32), 0o022, umask_owned⟩
  | false => ⟨1, 3, tokenText Golden.B Golden.seed, 0o022, umask_owned⟩

theorem minting_apart : Apart minting := ⟨by decide, by decide⟩

theorem minting_path : ∀ i, (0 : ℕ) ≠ (minting i).temp := by decide

/-- One call after the other, from an empty directory. -/
theorem minting_done : ∃ w w', ReflTransGen (Work minting) (.start blank) w ∧
    ReflTransGen (Work minting) w w' ∧ w.stage true = .done 0 ∧ w.stage false = .idle ∧
      w'.stage false = .done w.disk.next := by
  obtain ⟨w, hrun, hdone, hothers, hnames⟩ :=
    writes_alone (w := World.start blank) minting_apart (i := true) rfl rfl rfl
  have hidle : w.stage false = .idle := hothers false (by decide)
  have hpath : w.disk.names (minting false).path = none := hnames 1 (by decide)
  have htemp : w.disk.names (minting false).temp = none := hnames 3 (by decide)
  obtain ⟨w', hrun', hdone', -⟩ := writes_alone minting_apart hidle hpath htemp
  exact ⟨w, w', hrun, hrun', hdone, hidle, hdone'⟩

/-- A token file is loaded after it was written; another one is written between the calls of the
loader. -/
theorem loads_whole_minting : ∃ w w', ReflTransGen (Step minting) (.start blank) w ∧
    w.stage false = .idle ∧ (∃ inode, w'.stage false = .done inode) ∧
    Loads minting w w w' w' w' ∧
      loadTokenFile (glances w w w' w' w') 0 = .ok (tokenText Golden.B (zeros 32)) := by
  obtain ⟨w, w', hrun, hrun', hdone, hidle, hdone'⟩ := minting_done
  have hbefore : ReflTransGen (Step minting) (.start blank) w :=
    ReflTransGen.mono (fun _ _ ↦ .work) _ _ hrun
  have hloads : Loads minting w w w' w' w' := ⟨.refl, hrun', .refl, .refl⟩
  obtain ⟨-, -, hloaded⟩ := loads_whole blank_settled blank_numbered minting_apart minting_path rfl
    hbefore hloads
  exact ⟨w, w', hbefore, hidle, ⟨_, hdone'⟩, hloads,
    (hloaded true 0 hdone rfl).2 (length_tokenText _)⟩

/-- A server loads the token before the other file is written, and a client while it is. -/
theorem token_shared_minting : ∃ w w' token, ReflTransGen (Step minting) (.start blank) w ∧
    (loadTokenFile (glances w w w w w) 0 >>= LoadedToken.parse Golden.B) = .ok token ∧
      (loadTokenFile (glances w w w' w' w') 0 >>= LoadedToken.parse Golden.B) = .ok token ∧
      authenticated Golden.B [(AUTHORIZATION, token.authorization)] (token.hash Golden.B) =
        true := by
  obtain ⟨w, w', hrun, hrun', hdone, -⟩ := minting_done
  have hbefore : ReflTransGen (Step minting) (.start blank) w :=
    ReflTransGen.mono (fun _ _ ↦ .work) _ _ hrun
  obtain ⟨token, hloaded, hadmitted⟩ := token_shared blank_settled blank_numbered minting_apart
    minting_path (i := true) rfl rfl hbefore hdone
  exact ⟨w, w', token, hbefore, hloaded w w w w w .refl ⟨.refl, .refl, .refl, .refl⟩,
    hloaded w w w' w' w' .refl ⟨.refl, hrun', .refl, .refl⟩, hadmitted _ rfl⟩

end Example

end ContextMesh.Custody
