import EncFS.DirNode.OpenDescendants
import EncFS.DirNode.DirectoryRename
import EncFS.Mount

/-! The requests for a tree with plain names, and the runs of a mounted volume as runs of such a
tree. -/

set_option autoImplicit false

namespace EncFS

open FileTree NameIO

/-- What a mounted volume is for: the same requests, without encoded names. -/
structure PlainVolume (ε : Type) where
  contents : FileContents ε
  publicFilesystem : Bool
  externalIVChaining : Bool
  clash : FileTree Bytes ε → Bytes → Bytes → Prop

def UnixAnswers.Willing (A : UnixAnswers) : Prop :=
  (∀ name, A.opens name = true) ∧ ∀ oldName newName, A.moves oldName newName = true

namespace MountRequest

def paths : MountRequest → List Bytes
  | .getattr path | .getdir path | .mknod path _ | .mkdir path | .unlink path | .rmdir path
  | .readlink path | .chmod path | .chown path | .utime path => [path]
  | .rename fromP toP | .link fromP toP => [fromP, toP]
  | .symlink _ _ => []

end MountRequest

inductive MountEvent (ε : Type)
  | request (r : MountRequest) (a : Refusals) (reply : MountReply)
  | written (path : Bytes) (content : ε)

/-- The paths are such as `Good` takes, the root is not removed, and what can be renamed can be
renamed back. -/
def MountEvent.Proper {ε : Type} (Good : Bytes → Prop) : MountEvent ε → Prop
  | .request r a _ => (∀ path ∈ r.paths, Good path) ∧
      (∀ path, r = .rmdir path → components path ≠ []) ∧
      ∀ oldName newName, a.names.moves oldName newName = true → a.names.moves newName oldName = true
  | .written path _ => Good path

namespace PlainVolume

variable {ε : Type} (W : PlainVolume ε)

section

variable (P : FileTree Bytes ε) (a : Refusals)

def getAttr (path : Bytes) : Except ℤ Attr :=
  W.contents.attrOf a.lstat (P.find (components path))

def retries (path : Bytes) : Bool :=
  W.publicFilesystem && (W.getAttr P a (parentDirectory path)).isOk

def change : MountRequest → Option (Except ℤ (FileTree Bytes ε))
  | .mknod path regular => some (withRetry (W.retries P a path) fun i =>
      if regular then changeResult (a.change i) (P.add (components path) (.file W.contents.fresh))
      else .error ENOSYS)
  | .mkdir path => some (withRetry (W.retries P a path) fun i =>
      changeResult (a.change i) (P.add (components path) .dir))
  | .unlink path => some (changeResult (a.change 0) (P.deleteFile (components path)))
  | .rmdir path => some (changeResult (a.change 0) (P.removeDirectory (components path)))
  | _ => none

def callOn (path : Bytes) : Except ℤ (TreeEntry ε) :=
  changeResult (a.change 0)
    (match P.find (components path) with
    | none => .error .notFound
    | some e => .ok e)

def code : MountRequest → Option ℤ
  | .link _ _ => some (if W.externalIVChaining then -EPERM else -ENOSYS)
  | .symlink _ _ => some (- EIO)
  | .readlink _ | .chown _ => some 0
  | .chmod path =>
    match callOn P a path with
    | .error errno => some (-errno)
    | .ok _ => some 0
  | .utime path =>
    match callOn P a path with
    | .error errno => some (if errno = EPERM then -EPERM else 0)
    | .ok _ => some 0
  | _ => none

end

inductive Serves (P : FileTree Bytes ε) (a : Refusals) :
    MountRequest → MountReply → FileTree Bytes ε → Prop
  | code {r : MountRequest} {res : ℤ} (h : W.code P a r = some res) : Serves P a r (.code res) P
  | changed {r : MountRequest} {P' : FileTree Bytes ε} (h : W.change P a r = some (.ok P')) :
      Serves P a r (.code 0) P'
  | unchanged {r : MountRequest} {errno : ℤ} (h : W.change P a r = some (.error errno)) :
      Serves P a r (.code (-errno)) P
  | getattr (path : Bytes) : Serves P a (.getattr path) (attrReply (W.getAttr P a path)) P
  | getdir {path : Bytes} {filled : List Bytes} (hdir : P.isDirectory (components path) = true)
      (hfilled : filled.Perm ([dot] :: [dot, dot] :: P.names (components path))) :
      Serves P a (.getdir path) (.names filled) P
  | getdir_none {path : Bytes}
      (h : P.isDirectory (components path) ≠ true ∨ ¬ a.names.Willing) :
      Serves P a (.getdir path) (.names []) P
  | renamed {fromP toP : Bytes} {P' : FileTree Bytes ε}
      (h : P.rename (components fromP) (components toP) = some P') :
      Serves P a (.rename fromP toP) (.renamed .moved) P'
  | not_renamed {fromP toP : Bytes} {outcome : RenameOutcome} (houtcome : outcome ≠ .moved)
      (h : P.rename (components fromP) (components toP) = none ∨ ¬ a.names.Willing ∨
        W.clash P fromP toP) :
      Serves P a (.rename fromP toP) (.renamed outcome) P

inductive Run : FileTree Bytes ε → List (MountEvent ε) → FileTree Bytes ε → Prop
  | nil (P : FileTree Bytes ε) : Run P [] P
  | request {P P' P'' : FileTree Bytes ε} {r : MountRequest} {a : Refusals} {reply : MountReply}
      {l : List (MountEvent ε)} (h : W.Serves P a r reply P') (rest : Run P' l P'') :
      Run P (.request r a reply :: l) P''
  | written {P P' : FileTree Bytes ε} {path : Bytes} {content : ε} {l : List (MountEvent ε)}
      (rest : Run (P.setContent (components path) content) l P') :
      Run P (.written path content :: l) P'

end PlainVolume

namespace Mount

variable {ε σ : Type} (M : Mount ε σ)

/-- The runs of a mounted volume. Files get contents that `R` takes for the plain ones, and between
the requests files are opened and closed. -/
inductive Run (R : ε → ε → Prop) (table : σ → σ → Prop) :
    Volume ε σ → List (MountEvent ε) → Volume ε σ → Prop
  | nil (V : Volume ε σ) : Run R table V [] V
  | request {V V' V'' : Volume ε σ} {r : MountRequest} {a : Refusals} {reply : MountReply}
      {l : List (MountEvent ε)} (h : M.serve V a r = (reply, V')) (rest : Run R table V' l V'') :
      Run R table V (.request r a reply :: l) V''
  | written {V V' : Volume ε σ} {path cname : Bytes} {content cyContent : ε}
      {l : List (MountEvent ε)} (hpath : M.FSRoot.cipherPath path = .ok cname)
      (hcontent : R content cyContent)
      (rest : Run R table { V with disk := V.disk.setContent (components cname) cyContent } l V') :
      Run R table V (.written path content :: l) V'
  | nodes {V V' : Volume ε σ} {S : σ} {l : List (MountEvent ε)} (h : table V.nodes S)
      (rest : Run R table { V with nodes := S } l V') : Run R table V l V'

/-- The volume is set up for a plain one, whose paths are such as `Good` takes, with nodes that are
named by their paths. -/
structure Realizes (W : PlainVolume ε) (R : ε → ε → Prop) (Good : Bytes → Prop) (I : σ → Prop) :
    Prop where
  codes : M.FSRoot.naming.CodesPaths Good
  parent {path : Bytes} : Good path → Good (parentDirectory path)
  root : M.FSRoot.rootDir.getLast? = some slash
  fresh : R W.contents.fresh M.contents.fresh
  getAttr {c c' : ε} : R c c' → W.contents.getAttr c = M.contents.getAttr c'
  publicFilesystem : W.publicFilesystem = M.publicFilesystem
  externalIVChaining : W.externalIVChaining = M.externalIVChaining
  clash : W.clash = M.FSRoot.naming.Clash
  cipherName {S : σ} {path : Bytes} : I S → Good path →
    M.nodes.cipherName S path = M.FSRoot.cipherPath path
  renames : DirNode.RenamesNodes M.nodes.renameNode Good I

end Mount

namespace Matched

variable {δ α β : Type} {Q Q' : α → β → Prop} {x : Except δ α} {y : Except δ β}

lemma imp (h : Matched Q x y) (hQ : ∀ {a b}, x = .ok a → y = .ok b → Q a b → Q' a b) :
    Matched Q' x y := by
  cases h with
  | error e => exact .error e
  | ok h => exact .ok (hQ rfl rfl h)

lemma changeResult {x : Except TreeError α} {y : Except TreeError β} (refusal : Option ℤ)
    (h : Matched Q x y) : Matched Q (EncFS.changeResult refusal x) (EncFS.changeResult refusal y) := by
  cases refusal with
  | some errno => exact .error errno
  | none =>
    cases h with
    | error e => exact .error e.errno
    | ok h => exact .ok h

lemma withRetry {f : ℕ → Except ℤ α} {g : ℕ → Except ℤ β} (retries : Bool)
    (h : ∀ i, Matched Q (f i) (g i)) :
    Matched Q (EncFS.withRetry retries f) (EncFS.withRetry retries g) := by
  have hfirst := h 0
  rw [EncFS.withRetry, EncFS.withRetry]
  generalize f 0 = x at hfirst
  generalize g 0 = y at hfirst
  cases hfirst with
  | error e =>
    dsimp only
    split
    · exact h 1
    · exact .error e
  | ok hQ => exact .ok hQ

end Matched

lemma parentDirectory_plain {path : Bytes} (h : PlainPath path) : PlainPath (parentDirectory path) := by
  rw [parentDirectory]
  split
  · rename_i hslash
    obtain ⟨last, hsplit⟩ : ∃ last : Bytes,
        path = (path.reverse.dropWhile (· != slash)).tail.reverse ++ slash :: last := by
      have hparts := List.takeWhile_append_dropWhile (p := (· != slash)) (l := path.reverse)
      cases hrest : path.reverse.dropWhile (· != slash) with
      | nil =>
        have hno := List.dropWhile_eq_nil_iff.mp hrest slash (List.mem_reverse.mpr hslash)
        exact absurd hno (by decide)
      | cons c rest =>
        have hc := List.head?_dropWhile_not (· != slash) path.reverse
        rw [hrest] at hc hparts
        obtain rfl : c = slash := by simpa using hc
        refine ⟨(path.reverse.takeWhile (· != slash)).reverse, ?_⟩
        have hrev := congrArg List.reverse hparts
        rw [List.reverse_reverse, List.reverse_append, List.reverse_cons, List.append_assoc] at hrev
        exact hrev.symm
    generalize (path.reverse.dropWhile (· != slash)).tail.reverse = parent at hsplit ⊢
    subst hsplit
    refine ⟨fun hnull => h.no_null (List.mem_append_left _ hnull), fun n hn => h.valid n ?_⟩
    rw [components_append]
    exact List.mem_append_left _ hn
  · exact ⟨List.not_mem_nil, fun n hn => absurd hn List.not_mem_nil⟩

namespace DirNode.Shows

variable {ε : Type} {D : DirNode} {R : ε → ε → Prop} {P T : FileTree Bytes ε} (h : D.Shows R P T)
  {x es : List Bytes} (hx : D.naming.pathCode.Codes x es)
include h hx

lemma add {e e' : TreeEntry ε} (he : e.Alike R e') :
    Matched (D.Shows R) (P.add x e) (T.add (components D.rootDir ++ es) e') := by
  refine (h.mirrors.add (undecodable_apart D.naming) hx h.root_mem he).imp fun hP _ hmirrors => ?_
  refine ⟨?_, hmirrors⟩
  rw [(add_cases hP).2.2.2]
  exact List.mem_append_left _ h.root

lemma deleteFile :
    Matched (D.Shows R) (P.deleteFile x) (T.deleteFile (components D.rootDir ++ es)) := by
  refine (h.mirrors.deleteFile (undecodable_apart D.naming) hx).imp fun hP _ hmirrors => ?_
  obtain ⟨⟨c, hfile⟩, hentries⟩ := deleteFile_cases hP
  refine ⟨(mem_without hentries).mpr ⟨h.root, ?_⟩, hmirrors⟩
  rintro rfl
  rw [find_eq_some.mpr h.root] at hfile
  cases hfile

lemma removeDirectory (hne : x ≠ []) :
    Matched (D.Shows R) (P.removeDirectory x) (T.removeDirectory (components D.rootDir ++ es)) := by
  refine (h.mirrors.removeDirectory (undecodable_apart D.naming) hx hne).imp fun hP _ hmirrors => ?_
  exact ⟨(mem_without (removeDirectory_cases hP).2.2).mpr ⟨h.root, hne.symm⟩, hmirrors⟩

lemma setContent {c c' : ε} (hc : R c c') :
    D.Shows R (P.setContent x c) (T.setContent (components D.rootDir ++ es) c') where
  root := by
    refine List.mem_map.mpr ⟨_, h.root, ?_⟩
    dsimp only
    split <;> rfl
  mirrors := h.mirrors.setContent hx hc

end DirNode.Shows

namespace Mount

variable {ε σ : Type} {M : Mount ε σ} {W : PlainVolume ε} {R : ε → ε → Prop}
  {Good : Bytes → Prop} {I : σ → Prop}

/-- The plain volume serves the request in the same way. -/
def ServedAs (M : Mount ε σ) (W : PlainVolume ε) (R : ε → ε → Prop) (I : σ → Prop)
    (P : FileTree Bytes ε) (a : Refusals) (r : MountRequest) (x : MountReply × Volume ε σ) : Prop :=
  ∃ P', W.Serves P a r x.1 P' ∧ M.FSRoot.Shows R P' x.2.disk ∧ I x.2.nodes

namespace Realizes

variable (hM : M.Realizes W R Good I) {V : Volume ε σ} {P : FileTree Bytes ε} {a : Refusals}
  (h : M.FSRoot.Shows R P V.disk)
include hM h

lemma find_rel {path cname : Bytes} (hpath : Good path)
    (hcname : M.FSRoot.cipherPath path = .ok cname) :
    Option.Rel (TreeEntry.Alike R) (P.find (components path)) (V.disk.find (components cname)) := by
  obtain ⟨q, es, iv, -, hcipher, hes, hx⟩ :=
    DirNode.cipherPath_coded hM.codes hM.root hpath
  rw [hcname] at hcipher
  obtain rfl := Except.ok.inj hcipher
  rw [hes]
  exact h.mirrors.find_rel (undecodable_apart _) ⟨iv, hx⟩

lemma getAttr_eq {path cname : Bytes} (hpath : Good path)
    (hcname : M.FSRoot.cipherPath path = .ok cname) :
    M.getAttr V a.lstat cname = W.getAttr P a path := by
  have hrel := hM.find_rel h hpath hcname
  rw [Mount.getAttr, PlainVolume.getAttr]
  generalize P.find (components path) = o at hrel
  generalize V.disk.find (components cname) = o' at hrel
  cases hrel with
  | none => rfl
  | some halike =>
    cases halike with
    | dir => rfl
    | file hc =>
      simp only [FileContents.attrOf, hM.getAttr hc]

lemma callOn_matched {path cname : Bytes} (hpath : Good path)
    (hcname : M.FSRoot.cipherPath path = .ok cname) :
    Matched (TreeEntry.Alike R) (PlainVolume.callOn P a path) (Mount.callOn V a cname) := by
  have hrel := hM.find_rel h hpath hcname
  apply Matched.changeResult
  generalize P.find (components path) = o at hrel
  generalize V.disk.find (components cname) = o' at hrel
  cases hrel with
  | none => exact .error _
  | some halike => exact .ok halike

variable (hV : I V.nodes)
include hV

omit hM in
lemma servedAs_finish {r : MountRequest} {x y : Except ℤ (FileTree Bytes ε)}
    (hx : W.change P a r = some x) (hxy : Matched (M.FSRoot.Shows R) x y) :
    M.ServedAs W R I P a r (finish V y) := by
  cases hxy with
  | error errno => exact ⟨P, .unchanged hx, h, hV⟩
  | ok hshows => exact ⟨_, .changed hx, hshows, hV⟩

omit hM in
lemma servedAs_code {r : MountRequest} {res : ℤ} (hr : W.code P a r = some res) :
    M.ServedAs W R I P a r (.code res, V) :=
  ⟨P, .code hr, h, hV⟩

lemma retries_eq {path : Bytes} (hpath : Good path) :
    M.retries path a V = W.retries P a path := by
  have hparent := hM.parent hpath
  obtain ⟨q, -, -, -, hcipher, -, -⟩ :=
    DirNode.cipherPath_coded hM.codes hM.root hparent
  rw [Mount.retries, PlainVolume.retries, hM.cipherName hV hparent, hcipher]
  dsimp only
  rw [hM.getAttr_eq h hparent hcipher, hM.publicFilesystem]

lemma getattr {path : Bytes} (hpath : Good path) :
    M.ServedAs W R I P a (.getattr path) (M.encfsGetattr path a V, V) := by
  obtain ⟨q, -, -, -, hcipher, -, -⟩ := DirNode.cipherPath_coded hM.codes hM.root hpath
  have hattr := hM.getAttr_eq h (a := a) hpath hcipher
  rw [encfsGetattr, hM.cipherName hV hpath, hcipher]
  dsimp only
  rw [hattr]
  exact ⟨P, .getattr path, h, hV⟩

lemma getdir {path : Bytes} (hpath : Good path) :
    M.ServedAs W R I P a (.getdir path) (M.encfsGetdir path a V, V) := by
  rw [encfsGetdir]
  rcases h.openDir hM.codes hM.root a.names hpath with
    ⟨hopen, hrefused⟩ | ⟨t, hopen, hdir, hnames⟩
  · rw [hopen]
    exact ⟨P, .getdir_none (hrefused.imp_right fun ⟨name, hname⟩ hwilling =>
      hname (hwilling.1 name)), h, hV⟩
  · rw [hopen]
    exact ⟨P, .getdir hdir hnames, h, hV⟩

lemma mknod {path : Bytes} (hpath : Good path) (regular : Bool) :
    M.ServedAs W R I P a (.mknod path regular) (M.encfsMknod path regular a V) := by
  obtain ⟨q, es, iv, -, hcipher, hes, hx⟩ := DirNode.cipherPath_coded hM.codes hM.root hpath
  rw [encfsMknod, hM.cipherName hV hpath, hcipher]
  dsimp only
  rw [hM.retries_eq h hV hpath]
  refine servedAs_finish h hV rfl (Matched.withRetry _ fun i => ?_)
  split
  · rw [hes]
    exact (h.add ⟨iv, hx⟩ (.file hM.fresh)).changeResult _
  · exact .error _

lemma mkdir {path : Bytes} (hpath : Good path) :
    M.ServedAs W R I P a (.mkdir path) (M.encfsMkdir path a V) := by
  obtain ⟨q, es, iv, -, hcipher, hes, hx⟩ := DirNode.cipherPath_coded hM.codes hM.root hpath
  rw [encfsMkdir, hcipher]
  dsimp only
  rw [hM.retries_eq h hV hpath]
  refine servedAs_finish h hV rfl (Matched.withRetry _ fun i => ?_)
  rw [hes]
  exact (h.add ⟨iv, hx⟩ .dir).changeResult _

lemma unlink {path : Bytes} (hpath : Good path) :
    M.ServedAs W R I P a (.unlink path) (M.encfsUnlink path a V) := by
  obtain ⟨q, es, iv, -, hcipher, hes, hx⟩ := DirNode.cipherPath_coded hM.codes hM.root hpath
  rw [encfsUnlink, hcipher]
  refine servedAs_finish h hV rfl ?_
  rw [hes]
  exact (h.deleteFile ⟨iv, hx⟩).changeResult _

lemma rmdir {path : Bytes} (hpath : Good path) (hne : components path ≠ []) :
    M.ServedAs W R I P a (.rmdir path) (M.encfsRmdir path a V) := by
  obtain ⟨q, es, iv, -, hcipher, hes, hx⟩ := DirNode.cipherPath_coded hM.codes hM.root hpath
  rw [encfsRmdir, hcipher]
  refine servedAs_finish h hV rfl ?_
  rw [hes]
  exact (h.removeDirectory ⟨iv, hx⟩ hne).changeResult _

lemma rename {fromP toP : Bytes} (hfrom : Good fromP) (hto : Good toP)
    (hback : ∀ old new, a.names.moves old new = true → a.names.moves new old = true) :
    M.ServedAs W R I P a (.rename fromP toP) (M.encfsRename fromP toP a V) := by
  have hN := hM.codes
  have hnodes := hM.renames.rename (A := a.names) M.FSRoot (V.disk.entries.length + 1) fromP toP hV
  rw [encfsRename]
  cases hrename : M.FSRoot.rename M.nodes.renameNode a.names
    (V.disk.entries.length + 1) fromP toP V with
  | mk outcome V' =>
    rw [hrename] at hnodes
    by_cases hmoved : outcome = .moved
    · subst hmoved
      obtain ⟨P', hP', hshows⟩ :=
        h.rename_moved hN hM.root hM.renames.disk hfrom hto hrename
      exact ⟨P', .renamed hP', hshows, hnodes⟩
    · have hdisk := hM.renames.rename_unmoved hfrom hto hback hV hrename hmoved
      refine ⟨P, .not_renamed hmoved ?_, hdisk ▸ h, hnodes⟩
      cases hP : P.rename (components fromP) (components toP) with
      | none => exact .inl rfl
      | some P' =>
        by_contra hno
        simp only [not_or, not_not, reduceCtorEq, not_false_eq_true, true_and] at hno
        rw [hM.clash] at hno
        apply hmoved
        rw [← hM.renames.rename_directory_done hN hM.root hfrom hto hV h hno.1.1 hno.1.2 hno.2 hP,
          hrename]

lemma link {fromP toP : Bytes} (hfrom : Good fromP) (hto : Good toP) :
    M.ServedAs W R I P a (.link fromP toP) (.code (M.encfsLink fromP toP), V) := by
  obtain ⟨q, -, -, -, hcipher, -⟩ := DirNode.cipherPath_coded hM.codes hM.root hfrom
  obtain ⟨q', -, -, -, hcipher', -⟩ := DirNode.cipherPath_coded hM.codes hM.root hto
  refine servedAs_code h hV ?_
  rw [encfsLink, hcipher, hcipher', PlainVolume.code, hM.externalIVChaining]

lemma readlink {path : Bytes} (hpath : Good path) :
    M.ServedAs W R I P a (.readlink path) (.code (M.encfsReadlink path), V) := by
  obtain ⟨q, -, -, -, hcipher, -⟩ := DirNode.cipherPath_coded hM.codes hM.root hpath
  rw [encfsReadlink, withCipherPath, hcipher]
  exact servedAs_code h hV rfl

lemma chown {path : Bytes} (hpath : Good path) :
    M.ServedAs W R I P a (.chown path) (.code (M.encfsChown path), V) := by
  obtain ⟨q, -, -, -, hcipher, -⟩ := DirNode.cipherPath_coded hM.codes hM.root hpath
  rw [encfsChown, withCipherPath, hcipher]
  exact servedAs_code h hV rfl

lemma chmod {path : Bytes} (hpath : Good path) :
    M.ServedAs W R I P a (.chmod path) (.code (M.encfsChmod path a V), V) := by
  obtain ⟨q, -, -, -, hcipher, -⟩ := DirNode.cipherPath_coded hM.codes hM.root hpath
  have hcall := hM.callOn_matched (a := a) h hpath hcipher
  refine servedAs_code h hV ?_
  rw [encfsChmod, withCipherPath, hcipher, PlainVolume.code]
  dsimp only
  generalize PlainVolume.callOn P a path = x at hcall
  generalize Mount.callOn V a (M.FSRoot.rootDir ++ q) = y at hcall
  cases hcall with
  | error errno => rfl
  | ok _ => rfl

lemma utime {path : Bytes} (hpath : Good path) :
    M.ServedAs W R I P a (.utime path) (.code (M.encfsUtime path a V), V) := by
  obtain ⟨q, -, -, -, hcipher, -⟩ := DirNode.cipherPath_coded hM.codes hM.root hpath
  have hcall := hM.callOn_matched (a := a) h hpath hcipher
  refine servedAs_code h hV ?_
  rw [encfsUtime, withCipherPath, hcipher, PlainVolume.code]
  dsimp only
  generalize PlainVolume.callOn P a path = x at hcall
  generalize Mount.callOn V a (M.FSRoot.rootDir ++ q) = y at hcall
  cases hcall with
  | error errno =>
    rw [returnCode]
    dsimp only
    by_cases hperm : errno = EPERM
    · subst hperm
      rfl
    · have hcode : ¬ -errno = -1 := fun heq => hperm (neg_inj.mp heq)
      rw [if_neg hperm, if_neg hcode, if_neg Bool.false_ne_true]
  | ok _ => rfl

lemma serves {r : MountRequest} {reply : MountReply}
    (hproper : (MountEvent.request (ε := ε) r a reply).Proper Good) :
    M.ServedAs W R I P a r (M.serve V a r) := by
  obtain ⟨hpaths, hrmdir, hback⟩ := hproper
  have honly {path : Bytes} (hr : r.paths = [path]) : Good path :=
    hpaths path (hr ▸ List.mem_singleton.mpr rfl)
  have hboth {fromP toP : Bytes} (hr : r.paths = [fromP, toP]) : Good fromP ∧ Good toP :=
    ⟨hpaths fromP (hr ▸ List.mem_cons_self),
      hpaths toP (hr ▸ List.mem_cons_of_mem _ (List.mem_singleton.mpr rfl))⟩
  cases r with
  | getattr path => exact hM.getattr h hV (honly rfl)
  | getdir path => exact hM.getdir h hV (honly rfl)
  | mknod path regular => exact hM.mknod h hV (honly rfl) regular
  | mkdir path => exact hM.mkdir h hV (honly rfl)
  | unlink path => exact hM.unlink h hV (honly rfl)
  | rmdir path => exact hM.rmdir h hV (honly rfl) (hrmdir path rfl)
  | rename fromP toP => exact hM.rename h hV (hboth rfl).1 (hboth rfl).2 hback
  | link fromP toP => exact hM.link h hV (hboth rfl).1 (hboth rfl).2
  | symlink fromP toP => exact servedAs_code h hV rfl
  | readlink path => exact hM.readlink h hV (honly rfl)
  | chmod path => exact hM.chmod h hV (honly rfl)
  | chown path => exact hM.chown h hV (honly rfl)
  | utime path => exact hM.utime h hV (honly rfl)

end Realizes

lemma Realizes.run (hM : M.Realizes W R Good I) {table : σ → σ → Prop}
    (htable : ∀ S S', I S → table S S' → I S') {V V' : Volume ε σ} {l : List (MountEvent ε)}
    (hrun : M.Run R table V l V') {P : FileTree Bytes ε} (h : M.FSRoot.Shows R P V.disk)
    (hV : I V.nodes) (hproper : ∀ e ∈ l, e.Proper Good) :
    ∃ P', W.Run P l P' ∧ M.FSRoot.Shows R P' V'.disk ∧ I V'.nodes := by
  induction hrun generalizing P with
  | nil V => exact ⟨P, .nil P, h, hV⟩
  | request hserve _ ih =>
    have hserved := hM.serves h hV (hproper _ List.mem_cons_self)
    rw [hserve] at hserved
    obtain ⟨P₁, hserves, hshows, hnodes⟩ := hserved
    obtain ⟨P', hrest, hend⟩ := ih hshows hnodes fun e he => hproper e (List.mem_cons_of_mem _ he)
    exact ⟨P', .request hserves hrest, hend⟩
  | written hpath hcontent _ ih =>
    obtain ⟨q, es, iv, -, hcipher, hes, hx⟩ := DirNode.cipherPath_coded hM.codes hM.root
      (hproper _ List.mem_cons_self)
    rw [hpath] at hcipher
    obtain rfl := Except.ok.inj hcipher
    obtain ⟨P', hrest, hend⟩ := ih (hes ▸ h.setContent ⟨iv, hx⟩ hcontent) hV
      fun e he => hproper e (List.mem_cons_of_mem _ he)
    exact ⟨P', .written hrest, hend⟩
  | nodes hnodes _ ih => exact ih h (htable _ _ hV hnodes) hproper

end Mount

end EncFS
