import EncFS.Config.SoundVolume

set_option autoImplicit false

namespace EncFS

inductive VolumeEvent (ω : Type)
  | use (opts : EncFS_Opts) (a : Attempt) (u : Surroundings) (w : ω)
  | chpasswd (useStdin : Bool) (old : Attempt) (attempts : List Attempt) (opened : Bool)

structure VolumeState (τ : Type) where
  files : Files
  password : Bytes
  raw : τ

def Attempt.typing (a : Attempt) (password : Bytes) : Attempt :=
  { a with passBuf := some password }

namespace VolumeEvent

variable {τ ω γ α : Type}

def Valid (created : EncFS_Opts) (Good : ω → Prop) : VolumeEvent ω → Prop
  | use opts _ _ w => opts.rootDir = created.rootDir ∧
      opts.reverseEncryption = created.reverseEncryption ∧ Good w
  | chpasswd _ _ _ _ => True

def run (P : Platform) (rootDir : Bytes) (used : EncFS_Root → ω → τ → Option (List α × τ)) :
    VolumeEvent ω → VolumeState τ → Option (List α × VolumeState τ)
  | use opts a u w, st => do
    let root ← (initFS P st.files opts (a.typing st.password) u).1
    let (answers, raw) ← used root w st.raw
    some (answers, { st with raw })
  | chpasswd useStdin old attempts opened, st =>
    match doChpasswd P.installation st.files rootDir useStdin (old.typing st.password) attempts
      opened with
    | some (password, files) => some ([], { st with password, files })
    | none => some ([], st)

def Does (Q : ω → γ → List α → γ → Prop) : VolumeEvent ω → γ → List α → γ → Prop
  | use _ _ _ w, c, answers, c' => Q w c answers c'
  | chpasswd _ _ _ _, c, answers, c' => answers = [] ∧ c' = c

end VolumeEvent

section Life

variable {P : Platform} {rootDir : Bytes} {C : FSConfig} {S : SSL_Cipher} {files files' : Files}
  {password : Bytes} {config : EncFSConfig} {userKey : Bytes}

lemma Unlocks.chpasswd {useStdin opened : Bool} {old : Attempt} {attempts : List Attempt}
    {newPassword : Bytes} (h : Unlocks P rootDir S C.key files password config userKey)
    (hparameters : config.parameters = C.config.parameters)
    (hchange : doChpasswd P.installation files rootDir useStdin (old.typing password) attempts
      opened = some (newPassword, files')) :
    ∃ config' userKey', Unlocks P rootDir S C.key files' newPassword config' userKey' ∧
      config'.parameters = C.config.parameters := by
  have hmade : config.makeKey P.installation password (old.typing password) =
      (some userKey, config) := h.makeKey (old.typing password) rfl
  have hunlock : config.volumeKey P.installation password (old.typing password) = some C.key := by
    rw [volumeKey_eq _ h.getCipher (congrArg Prod.fst hmade), h.keyData]
    exact SSL_Cipher.readKey_writeKey userKey true h.key
  obtain ⟨cipher, oldKey, key, salt, config', hcipher, -, -, hnew, hsave⟩ :=
    doChpasswd_eq_some h.read rfl hunlock hchange
  obtain rfl : KeyCipher.ssl S = cipher := Option.some.inj (h.getCipher.symm.trans hcipher)
  obtain ⟨salt', kdf, deltas, hsalt, rfl, hderived⟩ : EncFSConfig.HasKey P.installation (.ssl S)
    { config with salt := salt, kdfIterations := 0 } config' newPassword key :=
      EncFSConfig.newKey_v6 hcipher rfl h.cfgType hnew
  rw [h.cfgType] at hsave
  have hstored : config.stored.getCipher P.installation = some (.ssl S) := by
    rw [h.stored]
    exact h.getCipher
  refine ⟨_, key, unlocks_saved h.cfgType h.subVersion hstored h.key hsalt hderived hsave, ?_⟩
  exact (congrArg EncFSConfig.parameters h.stored).trans hparameters

lemma fitsReverse_congr {config' : EncFSConfig} (h : config.parameters = config'.parameters)
    (hfits : config'.FitsReverse) : config.FitsReverse := by
  simp only [EncFSConfig.parameters, CodingParameters.mk.injEq] at h
  obtain ⟨-, -, -, -, hmac, hrand, hunique, hexternal, hchained, -⟩ := h
  rw [EncFSConfig.FitsReverse, hmac, hrand, hunique, hexternal, hchained]
  exact hfits

structure EncFS_Root.SameVolume (root : EncFS_Root) (C : FSConfig) (rootDir : Bytes) : Prop where
  coding : root.fsConfig.SameCoding C
  nameCoding : root.fsConfig.nameCoding = C.nameCoding
  root : root.root = DirNode.new rootDir root.fsConfig

/-- What stays as it is over the life of a volume. -/
structure Lasting (P : Platform) (created : EncFS_Opts) (C : FSConfig) (S : SSL_Cipher) : Prop where
  cipher : C.cipher = .ssl S
  names : ∃ N, NameIO.New C.config.nameIface C.cipher C.key = some N ∧ C.nameCoding =
    (N.setChainedNameIV C.config.chainedNameIV).setReverseEncryption C.reverseEncryption
  direction : created.reverseEncryption = C.reverseEncryption
  sound : C.Sound

lemma Unlocks.initFS_eq {created opts : EncFS_Opts} {a : Attempt} {u : Surroundings}
    (h : Unlocks P created.rootDir S C.key files password config userKey)
    (hparameters : config.parameters = C.config.parameters) (hlasting : Lasting P created C S)
    (hroot : opts.rootDir = created.rootDir)
    (hdirection : opts.reverseEncryption = created.reverseEncryption) :
    ∃ root, (initFS P files opts (a.typing password) u).1 = some root ∧
      root.SameVolume C created.rootDir := by
  obtain ⟨N, hN, hcoding⟩ := hlasting.names
  have hiface : config.nameIface = C.config.nameIface :=
    congrArg CodingParameters.nameIface hparameters
  have hchained : config.chainedNameIV = C.config.chainedNameIV :=
    congrArg CodingParameters.chainedNameIV hparameters
  rw [hlasting.direction] at hdirection
  have hfits : ¬(opts.reverseEncryption = true ∧ ¬config.FitsReverse) := by
    rintro ⟨hreverse, hno⟩
    exact hno (fitsReverse_congr hparameters
      (hlasting.sound.reverse (hdirection.symm.trans hreverse)))
  rw [initFS, hroot, h.read]
  dsimp only
  rw [h.openVolume_eq opts rfl, if_neg hfits, EncFS_Root.new, hiface, ← hlasting.cipher, hN, hroot]
  refine ⟨_, rfl, ⟨hparameters, rfl, rfl, hdirection⟩, ?_, rfl⟩
  rw [hcoding, ← hchained, ← hdirection]

lemma FSConfig.SameCoding.symm {C C' : FSConfig} (h : C.SameCoding C') : C'.SameCoding C :=
  ⟨h.parameters.symm, h.cipher.symm, h.key.symm, h.reverseEncryption.symm⟩

lemma newFileNode_isSome_congr {τ : Type} {C C' : FSConfig} {base : FileIO τ}
    {random macRandom : RandomSource} {ext : UInt64} (h : C.SameCoding C')
    (hnode : (C'.newFileNode base random macRandom ext).isSome) :
    ∃ O, C.newFileNode base random macRandom ext = some O := by
  obtain ⟨O, hO⟩ := Option.isSome_iff_exists.mp hnode
  obtain ⟨F, hF, hO⟩ := Option.bind_eq_some_iff.mp hO
  have hmac := congrArg CodingParameters.blockMACBytes h.parameters
  have hrand := congrArg CodingParameters.blockMACRandBytes h.parameters
  simp only [EncFSConfig.parameters] at hmac hrand
  rw [FSConfig.newFileNode, h.newCipherFileIO_eq, hF, Option.bind_some, hmac, hrand]
  split
  · rename_i hheaders
    rw [if_pos hheaders] at hO
    obtain ⟨M, hM, -⟩ := Option.map_eq_some_iff.mp hO
    rw [h.newMACFileIO_eq, hM]
    exact ⟨_, rfl⟩
  · exact ⟨_, rfl⟩

lemma EncFS_Root.new_eq_some {opts : EncFS_Opts} {cipher : KeyCipher} {key : Bytes}
    {root : EncFS_Root} (h : EncFS_Root.new opts config cipher key = some root) :
    root.fsConfig.config = config ∧ root.fsConfig.cipher = cipher ∧ root.fsConfig.key = key ∧
      opts.reverseEncryption = root.fsConfig.reverseEncryption ∧
      ∃ N, NameIO.New config.nameIface cipher key = some N ∧ root.fsConfig.nameCoding =
        (N.setChainedNameIV config.chainedNameIV).setReverseEncryption opts.reverseEncryption := by
  obtain ⟨N, hN, h⟩ := Option.bind_eq_some_iff.mp h
  cases h
  exact ⟨rfl, rfl, rfl, rfl, N, hN, rfl⟩

section Uses

variable {τ γ : Type} {created : EncFS_Opts} {K : τ → γ → Prop}

/-- The volume can be opened, and in what is stored of it `K` finds the content. -/
def InUse (P : Platform) (created : EncFS_Opts) (C : FSConfig) (S : SSL_Cipher)
    (K : τ → γ → Prop) (st : VolumeState τ) (c : γ) : Prop :=
  (∃ config userKey, Unlocks P created.rootDir S C.key st.files st.password config userKey ∧
    config.parameters = C.config.parameters) ∧ K st.raw c

lemma createV6Config_lasting {u : Surroundings} {root : EncFS_Root}
    (h : createV6Config P files created u = (some (password, root), files')) :
    ∃ S, Lasting P created (root.reopened created).fsConfig S ∧ ∀ {s : τ} {c : γ}, K s c →
      InUse P created (root.reopened created).fsConfig S K ⟨files', password, s⟩ c := by
  obtain ⟨s, alg, config, cipher, v, hoffered, hconfig, hv, rfl, rfl, hnew⟩ :=
    createV6Config_eq_some h
  obtain ⟨hcreated, hcipher, -, hparameters⟩ := newConfig_eq_some hoffered hconfig
  obtain ⟨hsame, S, userKey, rfl, hunlocks⟩ := saveNewVolume_spec hcreated hv
  obtain ⟨-, hagain⟩ := new_reopened hnew (Eq.refl created.rootDir)
  have hreverse : created.reverseEncryption = true → v.config.stored.FitsReverse := by
    intro hreverse
    rw [hreverse] at hoffered
    exact fitsReverse_of_offered hoffered hconfig hsame
  obtain ⟨-, hmade⟩ := made_of_parameters (hsame.trans hparameters)
  have hsound := hoffered.sound hcipher hmade hagain hreverse
  obtain ⟨hC, hCcipher, hCkey, hdirection, N, hN, hcoding⟩ := EncFS_Root.new_eq_some hagain
  generalize (root.reopened created).fsConfig = C at *
  rw [← hC, ← hCcipher, ← hCkey] at hN
  rw [← hC, hdirection] at hcoding
  rw [← hC, ← hCkey] at hunlocks
  exact ⟨S, ⟨hCcipher, ⟨N, hN, hcoding⟩, hdirection, hsound⟩, fun hK =>
    ⟨⟨C.config, userKey, hunlocks, rfl⟩, hK⟩⟩

variable {ω α : Type} {Good : ω → Prop} {Q : ω → γ → List α → γ → Prop}
  {used : EncFS_Root → ω → τ → Option (List α × τ)}

lemma run_event (hlasting : Lasting P created C S)
    (hused : ∀ {root : EncFS_Root}, root.SameVolume C created.rootDir → ∀ {w s c}, Good w → K s c →
      ∃ answers s' c', used root w s = some (answers, s') ∧ Q w c answers c' ∧ K s' c')
    {e : VolumeEvent ω} (he : e.Valid created Good) {st : VolumeState τ} {c : γ}
    (h : InUse P created C S K st c) :
    ∃ answers st' c', e.run P created.rootDir used st = some (answers, st') ∧
      e.Does Q c answers c' ∧ InUse P created C S K st' c' := by
  obtain ⟨⟨config, userKey, hunlocks, hparameters⟩, hK⟩ := h
  cases e with
  | use opts a u w =>
    obtain ⟨hroot, hdirection, hw⟩ := he
    obtain ⟨root, hopen, hsame⟩ :=
      hunlocks.initFS_eq (a := a) (u := u) hparameters hlasting hroot hdirection
    obtain ⟨answers, raw, c', hrun, hQ, hK'⟩ := hused hsame hw hK
    refine ⟨answers, { st with raw := raw }, c', ?_, hQ, ⟨config, userKey, hunlocks, hparameters⟩,
      hK'⟩
    rw [VolumeEvent.run, hopen, Option.bind_eq_bind, Option.bind_some, hrun]
    rfl
  | chpasswd useStdin old attempts opened =>
    rw [VolumeEvent.run]
    split
    · rename_i password files hchange
      obtain ⟨config', userKey', hchanged⟩ := hunlocks.chpasswd hparameters hchange
      exact ⟨[], _, c, rfl, ⟨rfl, rfl⟩, ⟨config', userKey', hchanged⟩, hK⟩
    · exact ⟨[], st, c, rfl, ⟨rfl, rfl⟩, ⟨config, userKey, hunlocks, hparameters⟩, hK⟩

lemma createV6Config_life {u : Surroundings} {root : EncFS_Root}
    (h : createV6Config P files created u = (some (password, root), files'))
    (hused : (root.reopened created).fsConfig.Sound → ∀ {root' : EncFS_Root},
      root'.SameVolume (root.reopened created).fsConfig created.rootDir → ∀ {w s c}, Good w →
        K s c → ∃ answers s' c', used root' w s = some (answers, s') ∧ Q w c answers c' ∧ K s' c')
    {events : List (VolumeEvent ω)} (hevents : ∀ e ∈ events, e.Valid created Good) {s : τ} {c : γ}
    (hK : (root.reopened created).fsConfig.Sound → K s c) :
    ∃ answers st c', sessionsOf (fun e => e.run P created.rootDir used) events
        ⟨files', password, s⟩ = some (answers, st) ∧
      Sessions (VolumeEvent.Does Q) events c answers c' ∧ K st.raw c' := by
  obtain ⟨S, hlasting, hinUse⟩ := createV6Config_lasting (K := K) h
  have hsound := hlasting.sound
  obtain ⟨answers, st, c', hrun, hdoes, hend⟩ := sessionsOf_refines
    (fun e he => run_event hlasting (hused hsound) (hevents e he)) (hinUse (hK hsound))
  exact ⟨answers, st, c', hrun, hdoes, hend.2⟩

end Uses

def FSConfig.useFile (random macRandom : RandomSource) (ext : UInt64) (root : EncFS_Root)
    (w : Session FileStart) (raw : Bytes) : Option (List Answer × Bytes) :=
  (root.fsConfig.newFileNode RawFileIO.fileIO random macRandom ext).bind fun node =>
    node.session w raw

lemma FSConfig.SameCoding.lawful {C' : FSConfig} (h : C'.SameCoding C) (hsound : C.Sound) :
    (C'.cipher.coding C'.key).Lawful C'.config.blockSize.toNat := by
  have hsize : C'.config.blockSize = C.config.blockSize :=
    congrArg CodingParameters.blockSize h.parameters
  rw [h.cipher, h.key, hsize]
  exact hsound.coding

lemma FSConfig.SameCoding.useFile_valid {root : EncFS_Root} (h : root.fsConfig.SameCoding C)
    (hsound : C.Sound) (hholes : C.config.allowHoles = false) {random macRandom : RandomSource}
    {ext : UInt64} (hrandom : ∀ i n, random.randomize i n ≠ none)
    (hmacRandom : ∀ i n, macRandom.randomize i n ≠ none) {w : Session FileStart} (hw : w.Valid)
    {raw c : Bytes} (hraw : C.KeepsFile random macRandom ext raw c) :
    ∃ raw', FSConfig.useFile random macRandom ext root w raw =
        some ((FlatFile.run c w.requests).1, raw') ∧
      C.KeepsFile random macRandom ext raw' (FlatFile.run c w.requests).2 := by
  obtain ⟨node, hnode⟩ :=
    newFileNode_isSome_congr h (hsound.nodes RawFileIO.fileIO random macRandom ext)
  have hkeeps : node.Keeps (root.fsConfig.KeepsFile random macRandom ext) :=
    FSConfig.newFileNode_keeps (h.lawful hsound) hrandom
      ((congrArg CodingParameters.allowHoles h.parameters).trans hholes) hmacRandom hnode
  obtain ⟨raw', hsession, hraw'⟩ := hkeeps raw c w hw (h.keepsFile hraw)
  refine ⟨raw', ?_, h.symm.keepsFile hraw'⟩
  rw [FSConfig.useFile, hnode, Option.bind_some, hsession]

end Life

def VolumeEvent.requests : VolumeEvent (Session FileStart) → List Request
  | use _ _ _ w => w.requests
  | chpasswd _ _ _ _ => []

/-- Through any number of mounts and changes of the password a file that started empty answers as a
flat array does, whoever wrote to it before. -/
theorem volume_life {P : Platform} {files files' : Files} {opts : EncFS_Opts} {u : Surroundings}
    {password : Bytes} {root : EncFS_Root} {random macRandom : RandomSource} {ext : UInt64}
    (h : createV6Config P files opts u = (some (password, root), files'))
    (hholes : root.fsConfig.config.allowHoles = false) (hrandom : ∀ i n, random.randomize i n ≠ none)
    (hmacRandom : ∀ i n, macRandom.randomize i n ≠ none)
    (events : List (VolumeEvent (Session FileStart)))
    (hevents : ∀ e ∈ events, e.Valid opts Session.Valid) :
    ∃ st, sessionsOf (fun e => e.run P opts.rootDir (FSConfig.useFile random macRandom ext)) events
        ⟨files', password, []⟩ =
      some ((FlatFile.runAll [] (events.map VolumeEvent.requests)).1, st) := by
  have hholes' : (root.reopened opts).fsConfig.config.allowHoles = false := hholes
  have hused (hsound : (root.reopened opts).fsConfig.Sound) {root' : EncFS_Root}
      (hsame : root'.SameVolume (root.reopened opts).fsConfig opts.rootDir) {w : Session FileStart}
      {raw c : Bytes} (hw : w.Valid)
      (hraw : (root.reopened opts).fsConfig.KeepsFile random macRandom ext raw c) :
      ∃ answers raw' c', FSConfig.useFile random macRandom ext root' w raw = some (answers, raw') ∧
        (answers, c') = FlatFile.run c w.requests ∧
        (root.reopened opts).fsConfig.KeepsFile random macRandom ext raw' c' := by
    obtain ⟨raw', hsession, hraw'⟩ :=
      hsame.coding.useFile_valid hsound hholes' hrandom hmacRandom hw hraw
    exact ⟨_, raw', _, hsession, rfl, hraw'⟩
  have hempty (hsound : (root.reopened opts).fsConfig.Sound) :
      (root.reopened opts).fsConfig.KeepsFile random macRandom ext [] [] := by
    obtain ⟨node, hnode⟩ :=
      Option.isSome_iff_exists.mp (hsound.nodes RawFileIO.fileIO random macRandom ext)
    exact FSConfig.keepsFile_empty hsound.coding hrandom hnode
  obtain ⟨answers, st, c', hrun, hdoes, -⟩ := createV6Config_life h hused hevents hempty
  have hflat : Sessions (fun e c a c' => (a, c') = FlatFile.run c (VolumeEvent.requests e)) events
      [] answers c' := by
    refine hdoes.imp fun {e c a c'} he => ?_
    cases e with
    | use opts a u w => exact he
    | chpasswd useStdin old attempts opened =>
      obtain ⟨rfl, rfl⟩ := he
      rfl
  exact ⟨st, hrun.trans (by rw [← hflat.runAll])⟩

def renewal : List (VolumeEvent (Session FileStart)) :=
  [.use expertOpts (typed "") expertAnswers ⟨⟨0, 0⟩, O_RDWR, [.write 2 [1, 2], .read 0 9]⟩,
    .chpasswd true (typed "") [{ typed "new" with passBuf2 := some (bytes "new") }] true,
    .use { expertOpts with forceDecode := true } (typed "") expertAnswers
      ⟨⟨5, 5⟩, O_WRONLY, [.write 3 [7], .read 1 5]⟩]

theorem volume_life_renewal :
    ∃ root files', createV6Config maskPlatform noFiles expertOpts expertAnswers =
        (some (bytes "pw", root), files') ∧
      ∃ st, sessionsOf (fun e => e.run maskPlatform expertOpts.rootDir
          (FSConfig.useFile onesSource onesSource 3)) renewal ⟨files', bytes "pw", []⟩ =
        some ([[.done true, .bytes (some [0, 0, 1, 2])], [],
          [.done true, .bytes (some [0, 1, 7])]], st) := by
  obtain ⟨root, hcreated, hholes⟩ := expert_created
  have hvalid : ∀ e ∈ renewal, e.Valid expertOpts Session.Valid := by
    simp [renewal, VolumeEvent.Valid, Session.Valid, Request.Valid, expertOpts, O_RDWR, O_WRONLY]
  exact ⟨root, _, hcreated, volume_life hcreated hholes (fun _ _ => Option.some_ne_none _)
    (fun _ _ => Option.some_ne_none _) renewal hvalid⟩

end EncFS
