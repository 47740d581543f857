import EncFS.Config.VolumeLife
import EncFS.FileNode
import EncFS.Mount.Refinement

/-! A volume that is created, and mounted again and again: its names and the data of its files. -/

set_option autoImplicit false

namespace EncFS

open FileTree NameIO

namespace CipherFileIO

variable {F : CipherFileIO RawFile} {ext : UInt64}

lemma getAttr_keeps (hC : F.cipher.Lawful F.blockSize) {raw b : Bytes}
    (h : F.KeepsContent ext raw b) (f : CipherFile RawFile) :
    F.getAttr 0 ⟨true, raw.length⟩ f = .ok (0, ⟨true, b.length⟩) f := by
  obtain ⟨s, -, hs⟩ := RawFileIO.openFile_fresh raw (.inl (or_O_RDWR 0))
  obtain ⟨v, g, ⟨-, raw', hraw, hstored⟩, rfl⟩ := h 0 0 hs
  obtain ⟨hheader, hplain⟩ := hstored.size
  rw [← hraw.raw, hs.raw] at hheader hplain
  rw [getAttr, decoded_length hC]
  by_cases hpos : F.haveHeader = true ∧ 0 < raw.length
  · obtain ⟨hlong, hlength⟩ := hheader hpos
    rw [if_pos ⟨rfl, hpos.1, rfl, Int.natCast_pos.mpr hpos.2⟩, if_pos (Int.ofNat_le.mpr hlong),
      ← hlength, Int.ofNat_sub hlong]
    rfl
  · have hlength := hplain hpos
    rw [if_neg fun h => hpos ⟨h.2.1, Int.natCast_pos.mp h.2.2.2⟩, hlength]
    rfl

end CipherFileIO

lemma MACFileIO.getAttr_layout {τ : Type} {M : MACFileIO τ} {b c : Bytes} (h : M.Layout b c) :
    M.getAttr 0 ⟨true, b.length⟩ = (0, ⟨true, c.length⟩) := by
  have hback := locWithoutHeader_locWithHeader (h := M.headerSize) M.dataBlockSize_pos c.length
  rw [← bs, ← h.length] at hback
  rw [getAttr, if_pos ⟨rfl, rfl⟩, Int.toNat_natCast, hback]

namespace FSConfig

variable (C : FSConfig) (random macRandom : RandomSource)

def getAttr (raw : Bytes) : Option ℤ :=
  ( C.newCipherFileIO RawFileIO.fileIO random).bind fun io =>
    match io.getAttr 0 ⟨true, raw.length⟩ ( CipherFileIO.fresh 0 ⟨0, 0⟩ (.fresh raw)).file with
    | .error _ _ => none
    | .ok (res, stbuf) _ =>
      if C.config.blockMACBytes ≠ 0 ∨ C.config.blockMACRandBytes ≠ 0 then
        ( C.newMACFileIO io.fileIO macRandom).map fun M => (M.getAttr res stbuf).2.st_size
      else some stbuf.st_size

variable {C random macRandom}

lemma getAttr_keeps (hC : (C.cipher.coding C.key).Lawful C.config.blockSize.toNat) {raw c : Bytes}
    (h : C.KeepsFile random macRandom 0 raw c) :
    C.getAttr random macRandom raw = some (c.length : ℤ) := by
  obtain ⟨F, hF, h⟩ := h
  obtain ⟨-, -, hcipher, hsize, -⟩ := newCipherFileIO_eq_some hF
  have hCF : F.cipher.Lawful F.blockSize := by rwa [hcipher, hsize]
  rw [getAttr, hF, Option.bind_some]
  split at h
  · rename_i hheaders
    obtain ⟨M, hM, b, hb, hlayout⟩ := h
    have hattr := CipherFileIO.getAttr_keeps hCF hb
    rw [hattr]
    dsimp only
    rw [if_pos hheaders, hM, Option.map_some, MACFileIO.getAttr_layout hlayout]
  · rename_i hplain
    have hattr := CipherFileIO.getAttr_keeps hCF h
    rw [hattr]
    dsimp only
    rw [if_neg hplain]

end FSConfig

/-- A file is opened, which the system may refuse, used, and closed before the next request. -/
inductive VolumeRequest
  | names (r : MountRequest) (a : Refusals)
  | file (path : Bytes) (refusal : Option ℤ) (w : Session FileStart)

inductive VolumeReply
  | names (reply : MountReply)
  | data (answers : List Answer)
  deriving DecidableEq

def VolumeRequest.Proper (Good : Bytes → Prop) : VolumeRequest → Prop
  | .names r a => ∀ reply, (MountEvent.request (ε := Bytes) r a reply).Proper Good
  | .file path _ w => Good path ∧ w.Valid

def FileTree.openFile {κ ε : Type} [DecidableEq κ] (T : FileTree κ ε) (p : List κ) :
    Except TreeError ε :=
  match T.find p with
  | none => .error .notFound
  | some .dir => .error .isDirectory
  | some (.file c) => .ok c

lemma FileTree.openFile_matched {κ κ' ε : Type} [DecidableEq κ] [DecidableEq κ']
    {R : ε → ε → Prop} {P : FileTree κ ε} {T : FileTree κ' ε} {p : List κ} {q : List κ'}
    (h : Option.Rel (TreeEntry.Alike R) (P.find p) (T.find q)) :
    Matched R (P.openFile p) (T.openFile q) := by
  rw [openFile, openFile]
  generalize P.find p = x at h
  generalize T.find q = y at h
  cases h with
  | none => exact .error _
  | some h =>
    cases h with
    | dir => exact .error _
    | file hc => exact .ok hc

namespace EncFS_Root

variable (root : EncFS_Root) (random macRandom : RandomSource) (publicFilesystem : Bool) (new : ℕ)

def externalIV (path : Bytes) : UInt64 :=
  if root.fsConfig.config.externalIVChaining then
    match root.root.naming.encodePathIV path 0 with
    | .error _ => 0
    | .ok (_, iv) => iv
  else 0

def mount : Mount Bytes Context :=
  root.root.mounted publicFilesystem ⟨[], root.fsConfig.getAttr random macRandom⟩ new

def useFile (path : Bytes) (refusal : Option ℤ) (w : Session FileStart) (V : Volume Bytes Context) :
    VolumeReply × Volume Bytes Context :=
  match (root.mount random macRandom publicFilesystem new).nodes.cipherName V.nodes path with
  | .error _ => (.names (.code (- EIO)), V)
  | .ok cname =>
    match changeResult refusal (V.disk.openFile (components cname)) with
    | .error errno => (.names (.code (-errno)), V)
    | .ok raw =>
      match FSConfig.useFile random macRandom (root.externalIV path) root w raw with
      | none => (.names (.code (- EIO)), V)
      | some (answers, raw) =>
        (.data answers, { V with disk := V.disk.setContent (components cname) raw })

def serve (V : Volume Bytes Context) : VolumeRequest → VolumeReply × Volume Bytes Context
  | .names r a =>
    let (reply, V) := (root.mount random macRandom publicFilesystem new).serve V a r
    (.names reply, V)
  | .file path refusal w => root.useFile random macRandom publicFilesystem new path refusal w V

def run (V : Volume Bytes Context) :
    List VolumeRequest → List VolumeReply × Volume Bytes Context
  | [] => ([], V)
  | q :: qs =>
    let (reply, V) := root.serve random macRandom publicFilesystem new V q
    let (replies, V) := run V qs
    (reply :: replies, V)

end EncFS_Root

inductive PlainVolume.Answers (W : PlainVolume Bytes) :
    FileTree Bytes Bytes → List VolumeRequest → List VolumeReply → FileTree Bytes Bytes → Prop
  | nil (P : FileTree Bytes Bytes) : W.Answers P [] [] P
  | names {P P' P'' : FileTree Bytes Bytes} {r : MountRequest} {a : Refusals} {reply : MountReply}
      {l : List VolumeRequest} {replies : List VolumeReply} (h : W.Serves P a r reply P')
      (rest : W.Answers P' l replies P'') :
      W.Answers P (.names r a :: l) (.names reply :: replies) P''
  | file {P P' : FileTree Bytes Bytes} {path c : Bytes} {refusal : Option ℤ} {w : Session FileStart}
      {l : List VolumeRequest} {replies : List VolumeReply}
      (h : changeResult refusal (P.openFile (components path)) = .ok c)
      (rest : W.Answers (P.setContent (components path) (FlatFile.run c w.requests).2) l replies P') :
      W.Answers P (.file path refusal w :: l) (.data (FlatFile.run c w.requests).1 :: replies) P'
  | not_opened {P P' : FileTree Bytes Bytes} {path : Bytes} {refusal : Option ℤ} {errno : ℤ}
      {w : Session FileStart} {l : List VolumeRequest} {replies : List VolumeReply}
      (h : changeResult refusal (P.openFile (components path)) = .error errno)
      (rest : W.Answers P l replies P') :
      W.Answers P (.file path refusal w :: l) (.names (.code (-errno)) :: replies) P'

/-- What a volume is for: files are flat, and have their lengths. -/
def FSConfig.plainVolume (C : FSConfig) (publicFilesystem : Bool) : PlainVolume Bytes :=
  ⟨⟨[], fun c => some c.length⟩, publicFilesystem, false, C.nameCoding.Clash⟩

lemma DirNode.new_rootDir (sourceDir : Bytes) (C : FSConfig) :
    (DirNode.new sourceDir C).rootDir.getLast? = some slash := by
  rw [DirNode.new]
  dsimp only
  split
  · assumption
  · exact List.getLast?_concat

section Mounted

variable {root : EncFS_Root} {C : FSConfig} {rootDir : Bytes} {random macRandom : RandomSource}

def FSConfig.Holds (C : FSConfig) (random macRandom : RandomSource) (c raw : Bytes) : Prop :=
  C.KeepsFile random macRandom 0 raw c

variable (hsame : root.SameVolume C rootDir) (hsound : C.Sound)
  (hnull : C.config.nameIface.name ≠ NNIOIface.name) (hforward : C.reverseEncryption = false)
  (hexternal : C.config.externalIVChaining = false) (hholes : C.config.allowHoles = false)
  (hrandom : ∀ i n, random.randomize i n ≠ none)
  (hmacRandom : ∀ i n, macRandom.randomize i n ≠ none) (publicFilesystem : Bool) (new : ℕ)
include hsame hsound hnull hforward hrandom

lemma mount_realizes :
    (root.mount random macRandom publicFilesystem new).Realizes (C.plainVolume publicFilesystem)
      (C.Holds random macRandom) PlainPath (NodesNamed root.root new) := by
  have hnaming : root.root.naming = C.nameCoding := by
    rw [hsame.root]
    exact hsame.nameCoding
  have hsupported : root.root.naming.Supported := by
    rw [hnaming]
    exact (hsound.names hnull).2 hforward
  have hslash : root.root.rootDir.getLast? = some slash := by
    rw [hsame.root]
    exact DirNode.new_rootDir rootDir _
  have hcoding : (root.fsConfig.cipher.coding root.fsConfig.key).Lawful
      root.fsConfig.config.blockSize.toNat := hsame.coding.lawful hsound
  exact
    { codes := hsupported.codesPaths
      parent := parentDirectory_plain
      root := hslash
      fresh := by
        obtain ⟨node, hnode⟩ :=
          Option.isSome_iff_exists.mp (hsound.nodes RawFileIO.fileIO random macRandom 0)
        exact FSConfig.keepsFile_empty hsound.coding hrandom hnode
      getAttr := fun h => (FSConfig.getAttr_keeps hcoding (hsame.coding.keepsFile h)).symm
      publicFilesystem := rfl
      externalIVChaining := rfl
      clash := congrArg (fun N : NameIO => N.Clash) hnaming.symm
      cipherName := fun hS _ => hS.cipherName_eq _
      renames := NodesNamed.renames root.root hsupported.codesPaths hslash _ new }

include hexternal hholes hmacRandom

lemma mount_answers {l : List VolumeRequest} (hproper : ∀ q ∈ l, q.Proper PlainPath)
    {V : Volume Bytes Context} {P : FileTree Bytes Bytes}
    (h : root.root.Shows (C.Holds random macRandom) P V.disk)
    (hV : NodesNamed root.root new V.nodes) :
    ∃ P', (C.plainVolume publicFilesystem).Answers P l
        (root.run random macRandom publicFilesystem new V l).1 P' ∧
      root.root.Shows (C.Holds random macRandom) P'
        (root.run random macRandom publicFilesystem new V l).2.disk := by
  have hM : (root.mount random macRandom publicFilesystem new).Realizes _ _ _ _ :=
    mount_realizes hsame hsound hnull hforward hrandom publicFilesystem new
  induction l generalizing V P with
  | nil => exact ⟨P, .nil P, h⟩
  | cons q l ih =>
    have hq := hproper q List.mem_cons_self
    have hrest : ∀ q ∈ l, q.Proper PlainPath := fun q hq => hproper q (List.mem_cons_of_mem _ hq)
    rw [EncFS_Root.run]
    cases q with
    | names r a =>
      have hserved := hM.serves h hV (hq (.code 0))
      rw [EncFS_Root.serve]
      generalize (root.mount random macRandom publicFilesystem new).serve V a r = x at hserved
      obtain ⟨reply, V₁⟩ := x
      obtain ⟨P₁, hserves, hshows, hnodes⟩ := hserved
      obtain ⟨P', hanswers, hend⟩ := ih hrest hshows hnodes
      exact ⟨P', .names hserves hanswers, hend⟩
    | file path refusal w =>
      obtain ⟨hpath, hw⟩ := hq
      obtain ⟨q, es, iv, -, hcipher, hes, hx⟩ :=
        DirNode.cipherPath_coded hM.codes hM.root hpath
      have hcname : (root.mount random macRandom publicFilesystem new).nodes.cipherName V.nodes
          path = .ok (root.root.rootDir ++ q) := (hV.cipherName_eq path).trans hcipher
      have hopen : Matched (C.Holds random macRandom)
          (changeResult refusal (P.openFile (components path)))
          (changeResult refusal (V.disk.openFile (components (root.root.rootDir ++ q)))) :=
        (openFile_matched (hM.find_rel h hpath hcipher)).changeResult refusal
      simp only [EncFS_Root.serve, EncFS_Root.useFile, hcname]
      generalize hx' : changeResult refusal (P.openFile (components path)) = x at hopen
      generalize changeResult refusal (V.disk.openFile _) = y at hopen
      cases hopen with
      | error errno =>
        obtain ⟨P', hanswers, hend⟩ := ih hrest h hV
        exact ⟨P', .not_opened hx' hanswers, hend⟩
      | ok hc =>
        obtain ⟨raw, huse, hraw⟩ := hsame.coding.useFile_valid hsound hholes hrandom hmacRandom hw hc
        have hiv : root.externalIV path = 0 := by
          have hchaining : root.fsConfig.config.externalIVChaining = false :=
            (congrArg CodingParameters.externalIVChaining hsame.coding.parameters).trans hexternal
          rw [EncFS_Root.externalIV, hchaining]
          rfl
        have hshows := h.setContent ⟨iv, hx⟩ hraw
        have hes' : components (root.root.rootDir ++ q) = components root.root.rootDir ++ es := hes
        rw [← hes'] at hshows
        obtain ⟨P', hanswers, hend⟩ := ih hrest (V := ⟨_, V.nodes⟩) hshows hV
        simp only [hiv, huse]
        exact ⟨P', .file hx' hanswers, hend⟩

end Mounted

lemma EncFS_Root.SameVolume.root_eq {root : EncFS_Root} {C : FSConfig} {rootDir : Bytes}
    (h : root.SameVolume C rootDir) : root.root = DirNode.new rootDir C := by
  rw [h.root, DirNode.new, DirNode.new, h.nameCoding]

/-- A mounted volume in the life of what is stored of it, with no file open at first. -/
def EncFS_Root.use (random macRandom : RandomSource) (new : ℕ) (root : EncFS_Root)
    (w : Bool × List VolumeRequest) (disk : FileTree Bytes Bytes) :
    Option (List VolumeReply × FileTree Bytes Bytes) :=
  let (replies, V) := root.run random macRandom w.1 new ⟨disk, .empty⟩ w.2
  some (replies, V.disk)

lemma nodesNamed_empty (D : DirNode) (new : ℕ) : NodesNamed D new .empty := by
  have hfiled {path : Bytes} {pl : ℕ} : ¬ Context.empty.Filed path pl := Context.not_filed rfl
  exact ⟨Context.Sound.empty.filing, fun h => absurd h hfiled, fun h => absurd h hfiled⟩

lemma createV6Config_reopened {P : Platform} {files files' : Files} {opts : EncFS_Opts}
    {u : Surroundings} {password : Bytes} {root : EncFS_Root}
    (h : createV6Config P files opts u = (some (password, root), files')) :
    root.root = DirNode.new opts.rootDir (root.reopened opts).fsConfig ∧
      root.fsConfig.Holds = (root.reopened opts).fsConfig.Holds ∧
      root.fsConfig.plainVolume = (root.reopened opts).fsConfig.plainVolume := by
  obtain ⟨s, alg, config, cipher, v, -, -, -, rfl, rfl, hnew⟩ := createV6Config_eq_some h
  obtain ⟨N, hN, hnew⟩ := Option.bind_eq_some_iff.mp hnew
  cases hnew
  exact ⟨rfl, rfl, rfl⟩

def plainAnswers : Surroundings :=
  { expertAnswers with stdin := bytes "x\n0\n2\n300\n512\n3\n\n\nn\ny\n2\nn\n" }

def emptyDirectory : FileTree Bytes Bytes :=
  .ofEntries [([], .dir), ([[114]], .dir)] (by simp [List.nodup_cons]) (by simp)

lemma emptyDirectory_shows {D : DirNode} (hD : components D.rootDir = [[114]])
    (R : Bytes → Bytes → Prop) : D.Shows R DirNode.nothing emptyDirectory := by
  refine ⟨List.mem_cons_self, fun h => ?_, fun {q e'} h => ?_⟩
  · obtain ⟨rfl, rfl⟩ := Prod.mk.inj (List.mem_singleton.mp h)
    refine ⟨[], .dir, D.naming.pathCode.nil, ?_, .dir⟩
    rw [hD]
    exact List.mem_cons_of_mem _ List.mem_cons_self
  · rw [hD] at h
    rcases List.mem_cons.mp h with h | h
    · cases (Prod.mk.inj h).1
    · obtain ⟨hq, -⟩ := Prod.mk.inj (List.mem_singleton.mp h)
      have hsame : [[114]] ++ q = [[114]] ++ [] := hq
      rw [List.append_cancel_left hsame]
      exact .inl ⟨[], List.mem_singleton.mpr rfl, D.naming.pathCode.nil⟩

def directoryUsed : List (VolumeEvent (Bool × List VolumeRequest)) :=
  [.use expertOpts (typed "") plainAnswers (false,
      [.names (.mkdir [47, 100]) DirNode.willing,
        .names (.mknod [47, 100, 47, 120] true) DirNode.willing,
        .file [47, 100, 47, 120] none ⟨⟨0, 0⟩, O_RDWR, [.write 2 [1, 2]]⟩]),
    .chpasswd true (typed "") [{ typed "new" with passBuf2 := some (bytes "new") }] true,
    .use expertOpts (typed "") plainAnswers (true,
      [.names (.rename [47, 100] [47, 101]) DirNode.willing,
        .names (.getattr [47, 101, 47, 120]) DirNode.willing,
        .file [47, 101, 47, 120] none ⟨⟨5, 5⟩, O_RDWR, [.read 1 5]⟩])]

end EncFS
