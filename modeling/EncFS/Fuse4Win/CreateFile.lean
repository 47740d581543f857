import EncFS.Fuse4Win.FileOps

set_option autoImplicit false

namespace EncFS.Fuse4Win

def CREATE_NEW : UInt32 := 1
def CREATE_ALWAYS : UInt32 := 2
def OPEN_ALWAYS : UInt32 := 4
def TRUNCATE_EXISTING : UInt32 := 5

def ERROR_FILE_EXISTS : ℕ := 80

inductive WinError
  | errno (res : ℤ)
  | windows (code : ℕ)
  deriving DecidableEq

def WinError.Failed : WinError → Prop
  | errno res => res < 0
  | windows _ => True

instance : DecidablePred WinError.Failed
  | .errno res => inferInstanceAs (Decidable (res < 0))
  | .windows _ => inferInstanceAs (Decidable True)

structure OpenReplies where
  getattr : ℤ
  readlink : ℤ
  open_ : ℤ

structure CreateReplies where
  getattr : ℤ
  readlink : ℤ
  getattrTarget : ℤ
  unlink : ℤ
  truncate : ℤ
  mknod : ℤ
  create : ℤ
  opendir : ℤ
  reopen : OpenReplies

structure CreateRequest where
  access_mode : UInt32
  share_mode : UInt32
  creation_disposition : UInt32
  isDirectory : Bool
  file : ℕ
  new : ℕ

structure OpenResult where
  res : ℤ
  locks : ImplFileLocks
  context : Option ℕ

structure CreateResult where
  res : WinError
  files : FileSystem
  locks : ImplFileLocks
  context : Option ℕ

def OpenResult.withFiles (r : OpenResult) (files : FileSystem) : CreateResult :=
  ⟨.errno r.res, files, r.locks, r.context⟩

def linkTarget (name target : Bytes) : Bytes :=
  if target.head? = some FILE_SLASH then target else extractDirName name ++ target

namespace FileSystem

variable (F : FileSystem) (ops : FuseOperations) (T : ImplFileLocks)

def resolveSymlink (name : Bytes) (answer : ℤ) : Except ℤ Bytes :=
  if ops.readlink = false then .error (-EINVAL)
  else match F.readlink name answer with
    | .error res => .error res
    | .ok target => .ok (linkTarget name target)

def checkAndResolve (name : Bytes) (a : OpenReplies) : Except ℤ Bytes :=
  if ops.getattr = false then .error (-EINVAL)
  else match F.getattr name a.getattr with
    | .error res => .error res
    | .ok (.symlink _) => F.resolveSymlink ops name a.readlink
    | .ok _ => .ok name

def doOpenFile (fname : Bytes) (r : CreateRequest) (a : OpenReplies) : OpenResult :=
  if ops.open_ = false then ⟨-EINVAL, T, none⟩
  else match F.checkAndResolve ops fname a with
    | .error res => ⟨res, T, none⟩
    | .ok fname =>
      match T.getFile fname false r.access_mode r.share_mode r.file r.new with
      | (res, T) =>
        if res < 0 then ⟨res, T, none⟩
        else if F.open_ fname a.open_ < 0 then ⟨F.open_ fname a.open_, T.destroyFile r.file, none⟩
        else ⟨0, T, some r.file⟩

def doOpenDir (fname : Bytes) (r : CreateRequest) (a : CreateReplies) : OpenResult :=
  if ops.opendir then
    match T.getFile fname true 0 (FILE_SHARE_READ ||| FILE_SHARE_WRITE ||| FILE_SHARE_DELETE)
      r.file r.new with
    | (res, T) =>
      if res < 0 then ⟨res, T, none⟩
      else if a.opendir < 0 then ⟨a.opendir, T.destroyFile r.file, none⟩
      else ⟨0, T, some r.file⟩
  else ⟨0, T, none⟩

def doCreateFile (fname : Bytes) (r : CreateRequest) (a : CreateReplies) : CreateResult :=
  if r.creation_disposition ≠ CREATE_NEW ∧ r.creation_disposition ≠ CREATE_ALWAYS ∧
      r.creation_disposition ≠ OPEN_ALWAYS then
    ⟨.errno (-ENOENT), F, T, none⟩
  else if ops.create = false then
    if ops.mknod = false ∨ ops.open_ = false then ⟨.errno (-EINVAL), F, T, none⟩
    else match F.mknod fname a.mknod with
      | (res, F) =>
        if res < 0 then ⟨.errno res, F, T, none⟩
        else (F.doOpenFile ops T fname r a.reopen).withFiles F
  else match T.getFile fname false r.access_mode r.share_mode r.file r.new with
    | (res, T) =>
      if res < 0 then ⟨.errno res, F, T, none⟩
      else match F.mknod fname a.create with
        | (res, F) =>
          if res < 0 then ⟨.errno res, F, T.destroyFile r.file, none⟩
          else ⟨.errno 0, F, T, some r.file⟩

def openExisting (fname target : Bytes) (r : CreateRequest) (a : CreateReplies) : CreateResult :=
  if r.creation_disposition = CREATE_ALWAYS then
    if ops.unlink = false then ⟨.errno (-EINVAL), F, T, none⟩
    else match F.unlink target a.unlink with
      | (res, F) =>
        if res < 0 then ⟨.errno res, F, T, none⟩
        else F.doCreateFile ops T fname r a
  else if r.creation_disposition = TRUNCATE_EXISTING then
    if ops.truncate = false then ⟨.errno (-EINVAL), F, T, none⟩
    else match F.truncate target a.truncate with
      | (res, F) =>
        if res < 0 then ⟨.errno res, F, T, none⟩
        else (F.doOpenFile ops T fname r a.reopen).withFiles F
  else if r.creation_disposition = CREATE_NEW then
    ⟨.windows ERROR_FILE_EXISTS, F, T, none⟩
  else (F.doOpenFile ops T fname r a.reopen).withFiles F

def followLink (fname : Bytes) (node : Node) (a : CreateReplies) : Except ℤ (Bytes × Node) :=
  match node with
  | .symlink _ =>
    match F.resolveSymlink ops fname a.readlink with
    | .error res => .error res
    | .ok target =>
      match F.getattr target a.getattrTarget with
      | .error res => .error res
      | .ok node => .ok (target, node)
  | node => .ok (fname, node)

def createFile (file_name : Bytes) (r : CreateRequest) (a : CreateReplies) : CreateResult :=
  let fname := unixify file_name
  if ops.getattr = false then ⟨.errno (-EINVAL), F, T, none⟩
  else match F.getattr fname a.getattr with
    | .error _ =>
      if r.isDirectory then ⟨.errno (-EINVAL), F, T, none⟩
      else F.doCreateFile ops T fname r a
    | .ok node =>
      match F.followLink ops fname node a with
      | .error res => ⟨.errno res, F, T, none⟩
      | .ok (target, node) =>
        if node.isDir then (doOpenDir ops T fname r a).withFiles F
        else F.openExisting ops T fname target r a

end FileSystem

/-- Some handle of the file does not share what the access needs. -/
def ImplFileLocks.Refuses (T : ImplFileLocks) (name : Bytes) (access_mode : UInt32) : Prop :=
  ∃ lock, T.file_locks name = some lock ∧
    ∃ i ∈ (T.object lock).first, ¬ Shares i.2.shared_mode_ (requiredShare access_mode)

lemma ImplFileLocks.getFile_failed (T : ImplFileLocks) (name : Bytes) (is_dir : Bool)
    (access_mode shared_mode : UInt32) (file new : ℕ) :
    (T.getFile name is_dir access_mode shared_mode file new).1 < 0 ↔ T.Refuses name access_mode := by
  rw [getFile, pickLock, Refuses]
  cases hlock : T.file_locks name with
  | none =>
    refine iff_of_false (Int.lt_irrefl 0) ?_
    rintro ⟨lock, h, -⟩
    cases h
  | some lock =>
    have hshares := shares_commonShare (T.object lock).first access_mode
    have hrefuses : (∃ lock', some lock = some lock' ∧ ∃ i ∈ (T.object lock').first,
        ¬ Shares i.2.shared_mode_ (requiredShare access_mode)) ↔
        ¬ Shares (commonShare (T.object lock).first) (requiredShare access_mode) := by
      rw [hshares]
      constructor
      · rintro ⟨lock', h, i, hi, hno⟩ hall
        cases h
        exact hno (hall i hi)
      · intro hno
        simp only [not_forall, exists_prop] at hno
        exact ⟨lock, rfl, hno⟩
    rw [hrefuses]
    change (ImplFileLocks.admitFile _ _ _ _ _).1 < 0 ↔ _
    rw [admitFile, Shares]
    by_cases h : requiredShare access_mode ||| commonShare (T.object lock).first =
        commonShare (T.object lock).first
    · rw [if_neg (not_not.mpr h)]
      exact iff_of_false (Int.lt_irrefl 0) (not_not.mpr h)
    · rw [if_pos h]
      exact iff_of_true (by decide : -EACCES < 0) h

namespace FileSystem

def Keeps (F G : FileSystem) : Prop :=
  ∀ e content, F.node e = some (.regular content) → G.node e = some (.regular content)

lemma Keeps.refl (F : FileSystem) : F.Keeps F := fun _ _ h => h

lemma Keeps.trans {F G H : FileSystem} (h : F.Keeps G) (h' : G.Keeps H) : F.Keeps H :=
  fun e content hnode => h' e content (h e content hnode)

lemma keeps_put {F : FileSystem} {path : Bytes} (node : Option Node)
    (h : ∀ content, F.nodeAt path ≠ some (.regular content)) : F.Keeps (F.put path node) := by
  intro e content hnode
  have hne : e ≠ F.entry path := by
    rintro rfl
    exact h content hnode
  rw [put_node_of_ne F hne]
  exact hnode

lemma mknod_keeps (F : FileSystem) (path : Bytes) (answer : ℤ) : F.Keeps (F.mknod path answer).2 := by
  rw [mknod]
  split
  · exact .refl F
  · cases hnode : F.nodeAt path with
    | some node => exact .refl F
    | none =>
      refine keeps_put _ fun content h => ?_
      cases hnode.symm.trans h

lemma doCreateFile_keeps (F : FileSystem) (ops : FuseOperations) (T : ImplFileLocks) (fname : Bytes)
    (r : CreateRequest) (a : CreateReplies) : F.Keeps (F.doCreateFile ops T fname r a).files := by
  have hmknod := mknod_keeps F fname a.mknod
  have hcreate := mknod_keeps F fname a.create
  rw [doCreateFile]
  split
  · exact .refl F
  split
  · split
    · exact .refl F
    · generalize F.mknod fname a.mknod = res at hmknod
      obtain ⟨res, G⟩ := res
      dsimp only
      split <;> exact hmknod
  · generalize T.getFile fname false r.access_mode r.share_mode r.file r.new = res
    obtain ⟨res, T⟩ := res
    dsimp only
    split
    · exact .refl F
    · generalize F.mknod fname a.create = res at hcreate
      obtain ⟨res, G⟩ := res
      dsimp only
      split <;> exact hcreate

section Open

variable {F : FileSystem} {ops : FuseOperations} {T : ImplFileLocks} {fname target : Bytes}
  {r : CreateRequest} {a : OpenReplies} {node : Node}

lemma open_failed (h : F.nodeAt fname = some node) (answer : ℤ) :
    F.open_ fname answer < 0 ↔ answer < 0 := by
  rw [open_, h]
  by_cases hlt : answer < 0
  · rw [if_pos hlt]
  · rw [if_neg hlt]
    exact iff_of_false (Int.lt_irrefl 0) hlt

lemma doOpenFile_resolved (hresolved : F.checkAndResolve ops fname a = .ok target)
    (hnode : F.nodeAt target = some node) :
    (F.doOpenFile ops T fname r a).res < 0 ↔
      ops.open_ = false ∨ T.Refuses target r.access_mode ∨ a.open_ < 0 := by
  have hrefuses := T.getFile_failed target false r.access_mode r.share_mode r.file r.new
  have hopen := open_failed hnode a.open_
  rw [doOpenFile]
  by_cases hset : ops.open_ = false
  · rw [if_pos hset]
    exact iff_of_true (by decide : -EINVAL < 0) (.inl hset)
  rw [if_neg hset, hresolved]
  dsimp only
  rw [← hrefuses, or_iff_right hset]
  generalize T.getFile target false r.access_mode r.share_mode r.file r.new = res
  obtain ⟨res, T⟩ := res
  dsimp only
  by_cases hlt : res < 0
  · rw [if_pos hlt]
    exact iff_of_true hlt (.inl hlt)
  rw [if_neg hlt, or_iff_right hlt, ← hopen]
  by_cases hfail : F.open_ target a.open_ < 0
  · rw [if_pos hfail]
  · rw [if_neg hfail]
    exact iff_of_false (Int.lt_irrefl 0) hfail

lemma doOpenFile_unresolved {res : ℤ} (hresolved : F.checkAndResolve ops fname a = .error res)
    (hres : res < 0) : (F.doOpenFile ops T fname r a).res < 0 := by
  rw [doOpenFile]
  split
  · exact (by decide : -EINVAL < 0)
  · rw [hresolved]
    exact hres

lemma doOpenFile_regular (hset : ops.getattr = true) {content : Bytes}
    (hnode : F.nodeAt fname = some (.regular content)) :
    (F.doOpenFile ops T fname r a).res < 0 ↔
      ops.open_ = false ∨ a.getattr < 0 ∨ T.Refuses fname r.access_mode ∨ a.open_ < 0 := by
  by_cases hlt : a.getattr < 0
  · refine iff_of_true (doOpenFile_unresolved ?_ hlt) (.inr (.inl hlt))
    rw [checkAndResolve, if_neg (by simp [hset]), getattr, if_pos hlt]
  · rw [or_iff_right hlt]
    refine doOpenFile_resolved ?_ hnode
    rw [checkAndResolve, if_neg (by simp [hset]), getattr, if_neg hlt, hnode]

lemma doOpenFile_link (hset : ops.getattr = true) (hreadlink : ops.readlink = true) {t : Bytes}
    (hlink : F.nodeAt fname = some (.symlink t))
    (hnode : F.nodeAt (linkTarget fname t) = some node) :
    (F.doOpenFile ops T fname r a).res < 0 ↔ ops.open_ = false ∨ a.getattr < 0 ∨
      a.readlink < 0 ∨ T.Refuses (linkTarget fname t) r.access_mode ∨ a.open_ < 0 := by
  by_cases hlt : a.getattr < 0
  · refine iff_of_true (doOpenFile_unresolved ?_ hlt) (.inr (.inl hlt))
    rw [checkAndResolve, if_neg (by simp [hset]), getattr, if_pos hlt]
  rw [or_iff_right hlt]
  by_cases hlt' : a.readlink < 0
  · refine iff_of_true (doOpenFile_unresolved ?_ hlt') (.inr (.inl hlt'))
    rw [checkAndResolve, if_neg (by simp [hset]), getattr, if_neg hlt, hlink]
    dsimp only
    rw [resolveSymlink, if_neg (by simp [hreadlink]), readlink, if_pos hlt']
  · rw [or_iff_right hlt']
    refine doOpenFile_resolved ?_ hnode
    rw [checkAndResolve, if_neg (by simp [hset]), getattr, if_neg hlt, hlink]
    dsimp only
    rw [resolveSymlink, if_neg (by simp [hreadlink]), readlink, if_neg hlt', hlink]

end Open

structure Reaches (F : FileSystem) (ops : FuseOperations) (fname target content : Bytes)
    (a : CreateReplies) : Prop where
  getattr_set : ops.getattr = true
  seen : 0 ≤ a.getattr
  named : target = fname ∨ ∃ t, F.nodeAt fname = some (.symlink t) ∧ ops.readlink = true ∧
    0 ≤ a.readlink ∧ 0 ≤ a.getattrTarget ∧ target = linkTarget fname t
  regular : F.nodeAt target = some (.regular content)

/-- The file that was truncated is not opened. -/
def OpenRefused (F : FileSystem) (ops : FuseOperations) (T : ImplFileLocks) (fname target : Bytes)
    (r : CreateRequest) (a : OpenReplies) : Prop :=
  ops.open_ = false ∨ a.getattr < 0 ∨
    ((∃ t, F.nodeAt fname = some (.symlink t)) ∧ a.readlink < 0) ∨
    T.Refuses target r.access_mode ∨ a.open_ < 0

/-- The file that was removed is not made again, or not with what was in it. -/
def CreateRefused (F : FileSystem) (ops : FuseOperations) (T : ImplFileLocks)
    (fname target content : Bytes) (r : CreateRequest) (a : CreateReplies) : Prop :=
  F.entry fname ≠ F.entry target ∨
    if ops.create then T.Refuses fname r.access_mode ∨ a.create < 0
    else ops.mknod = false ∨ ops.open_ = false ∨ a.mknod < 0 ∨
      content ≠ [] ∧ (a.reopen.getattr < 0 ∨ T.Refuses fname r.access_mode ∨ a.reopen.open_ < 0)

/-- The run removes or truncates a regular file, and then a later step refuses. -/
inductive Destroys (F : FileSystem) (ops : FuseOperations) (T : ImplFileLocks) (fname : Bytes)
    (r : CreateRequest) (a : CreateReplies) : Prop
  | truncated {target content : Bytes} : F.Reaches ops fname target content a →
      r.creation_disposition = TRUNCATE_EXISTING → ops.truncate = true → 0 ≤ a.truncate →
      content ≠ [] → F.OpenRefused ops T fname target r a.reopen → Destroys F ops T fname r a
  | removed {target content : Bytes} : F.Reaches ops fname target content a →
      r.creation_disposition = CREATE_ALWAYS → ops.unlink = true → 0 ≤ a.unlink →
      F.CreateRefused ops T fname target content r a → Destroys F ops T fname r a

section Existing

variable {F : FileSystem} {ops : FuseOperations} {T : ImplFileLocks} {fname target content : Bytes}
  {r : CreateRequest} {a : CreateReplies}

lemma Reaches.doOpenFile_failed (h : F.Reaches ops fname target content a) {content' : Bytes} :
    ((F.put target (some (.regular content'))).doOpenFile ops T fname r a.reopen).res < 0 ↔
      F.OpenRefused ops T fname target r a.reopen := by
  rcases h.named with rfl | ⟨t, hlink, hreadlink, -, -, rfl⟩
  · rw [doOpenFile_regular h.getattr_set (nodeAt_put F _ _), OpenRefused]
    have hno : ¬ ((∃ t, F.nodeAt target = some (.symlink t)) ∧ a.reopen.readlink < 0) := by
      rintro ⟨⟨t, ht⟩, -⟩
      cases h.regular.symm.trans ht
    rw [or_iff_right hno]
  · have hne : F.entry fname ≠ F.entry (linkTarget fname t) := by
      intro he
      have hregular := h.regular
      rw [nodeAt, ← he] at hregular
      cases hlink.symm.trans hregular
    have hkept := (nodeAt_put_of_ne F hne (some (.regular content'))).trans hlink
    rw [doOpenFile_link h.getattr_set hreadlink hkept (nodeAt_put F _ _), OpenRefused,
      and_iff_right ⟨t, hlink⟩]

lemma keeps_emptied (hnode : F.nodeAt target = some (.regular content)) :
    F.Keeps (F.put target (some (.regular []))) ↔ content = [] := by
  constructor
  · intro h
    have := h (F.entry target) content hnode
    rw [put_node_self] at this
    cases this
    rfl
  · rintro rfl e content he
    by_cases hsame : e = F.entry target
    · subst hsame
      rw [put_node_self]
      exact hnode.symm.trans he
    · rwa [put_node_of_ne F hsame]

lemma not_keeps_removed (hnode : F.nodeAt target = some (.regular content)) {G : FileSystem}
    (hG : G.node (F.entry target) = none) : ¬ F.Keeps G := by
  intro h
  cases (h (F.entry target) content hnode).symm.trans hG

lemma truncate_spec (h : F.Reaches ops fname target content a)
    (hdisposition : r.creation_disposition = TRUNCATE_EXISTING) :
    ((F.openExisting ops T fname target r a).res.Failed →
      F.Keeps (F.openExisting ops T fname target r a).files) ↔
      ¬ (ops.truncate = true ∧ 0 ≤ a.truncate ∧ content ≠ [] ∧
        F.OpenRefused ops T fname target r a.reopen) := by
  rw [openExisting, if_neg (by rw [hdisposition]; decide), if_pos hdisposition]
  by_cases hset : ops.truncate = false
  · rw [if_pos hset]
    exact iff_of_true (fun _ => .refl F) fun hno => Bool.false_ne_true (hset.symm.trans hno.1)
  rw [if_neg hset, truncate]
  by_cases hlt : a.truncate < 0
  · rw [if_pos hlt]
    dsimp only
    rw [if_pos hlt]
    exact iff_of_true (fun _ => .refl F) fun hno => absurd hno.2.1 (Int.not_le.mpr hlt)
  rw [if_neg hlt, h.regular]
  dsimp only
  rw [if_neg (Int.lt_irrefl 0)]
  change (((F.put target (some (.regular []))).doOpenFile ops T fname r a.reopen).res < 0 →
    F.Keeps (F.put target (some (.regular [])))) ↔ _
  rw [h.doOpenFile_failed, keeps_emptied h.regular]
  have hset' := Bool.eq_true_of_not_eq_false hset
  have hle := Int.not_lt.mp hlt
  tauto

lemma mknod_fails {G : FileSystem} {path : Bytes} {node : Node} (h : G.nodeAt path = some node)
    (answer : ℤ) : (G.mknod path answer).1 < 0 ∧ (G.mknod path answer).2 = G := by
  rw [mknod, h]
  by_cases hlt : answer < 0
  · rw [if_pos hlt]
    exact ⟨hlt, rfl⟩
  · rw [if_neg hlt]
    exact ⟨(by decide : -EEXIST < 0), rfl⟩

variable (ops T a) in
lemma doCreateFile_exists {G : FileSystem} {node : Node} (h : G.nodeAt fname = some node)
    (hdisposition : r.creation_disposition = CREATE_ALWAYS) :
    (G.doCreateFile ops T fname r a).res.Failed ∧ (G.doCreateFile ops T fname r a).files = G := by
  obtain ⟨hmknod, hsame⟩ := mknod_fails h a.mknod
  obtain ⟨hcreate, hsame'⟩ := mknod_fails h a.create
  rw [doCreateFile, if_neg fun hno => hno.2.1 hdisposition]
  split
  · split
    · exact ⟨(by decide : -EINVAL < 0), rfl⟩
    · generalize G.mknod fname a.mknod = res at hmknod hsame
      obtain ⟨res, G'⟩ := res
      dsimp only
      rw [if_pos hmknod]
      exact ⟨hmknod, hsame⟩
  · generalize T.getFile fname false r.access_mode r.share_mode r.file r.new = res
    obtain ⟨res, T⟩ := res
    dsimp only
    split
    case isTrue hlt => exact ⟨hlt, rfl⟩
    case isFalse => exact ⟨hcreate, hsame'⟩

lemma mknod_missing {G : FileSystem} {path : Bytes} (h : G.nodeAt path = none) {answer : ℤ}
    (hle : ¬ answer < 0) : G.mknod path answer = (0, G.put path (some (.regular []))) := by
  rw [mknod, if_neg hle, h]

lemma recreate_spec (h : F.Reaches ops fname target content a)
    (hdisposition : r.creation_disposition = CREATE_ALWAYS)
    (hentry : F.entry fname = F.entry target) :
    (((F.put target none).doCreateFile ops T fname r a).res.Failed →
      F.Keeps ((F.put target none).doCreateFile ops T fname r a).files) ↔
      ¬ F.CreateRefused ops T fname target content r a := by
  have hmissing : (F.put target none).nodeAt fname = none := by
    rw [nodeAt, put_entry, hentry, put_node_self]
  have hlost : ¬ F.Keeps (F.put target none) :=
    not_keeps_removed h.regular (F.put_node_self target none)
  have hmade : F.Keeps ((F.put target none).put fname (some (.regular []))) ↔ content = [] := by
    rw [← keeps_emptied h.regular]
    simp only [Keeps, put, hentry, Function.update_idem]
  rw [doCreateFile, if_neg fun hno => hno.2.1 hdisposition, CreateRefused,
    or_iff_right (not_not.mpr hentry)]
  by_cases hcreate : ops.create = false
  · have hcreate' : ¬ ops.create = true := by simp [hcreate]
    rw [if_pos hcreate, if_neg hcreate']
    by_cases hset : ops.mknod = false ∨ ops.open_ = false
    · rw [if_pos hset]
      refine iff_of_false (fun hkeeps => hlost (hkeeps (by decide : -EINVAL < 0))) ?_
      rw [not_not]
      exact hset.imp_right .inl
    rw [if_neg hset]
    by_cases hlt : a.mknod < 0
    · have hfails : (F.put target none).mknod fname a.mknod = (a.mknod, F.put target none) := by
        rw [mknod, if_pos hlt]
      rw [hfails]
      dsimp only
      rw [if_pos hlt]
      exact iff_of_false (fun hkeeps => hlost (hkeeps hlt))
        (not_not.mpr (.inr (.inr (.inl hlt))))
    rw [mknod_missing hmissing hlt]
    dsimp only
    rw [if_neg (Int.lt_irrefl 0)]
    change ((((F.put target none).put fname (some (.regular []))).doOpenFile ops T fname r
      a.reopen).res < 0 → F.Keeps ((F.put target none).put fname (some (.regular [])))) ↔ _
    rw [hmade, doOpenFile_regular h.getattr_set (nodeAt_put _ _ _)]
    tauto
  · rw [if_neg hcreate, if_pos (Bool.eq_true_of_not_eq_false hcreate)]
    have hrefuses := T.getFile_failed fname false r.access_mode r.share_mode r.file r.new
    rw [← hrefuses]
    generalize T.getFile fname false r.access_mode r.share_mode r.file r.new = res
    obtain ⟨res, T⟩ := res
    dsimp only
    by_cases hlt : res < 0
    · rw [if_pos hlt]
      exact iff_of_false (fun hkeeps => hlost (hkeeps hlt)) (not_not.mpr (.inl hlt))
    rw [if_neg hlt]
    by_cases hlt' : a.create < 0
    · have hfails : (F.put target none).mknod fname a.create = (a.create, F.put target none) := by
        rw [mknod, if_pos hlt']
      rw [hfails]
      dsimp only
      rw [if_pos hlt']
      exact iff_of_false (fun hkeeps => hlost (hkeeps hlt')) (not_not.mpr (.inr hlt'))
    · rw [mknod_missing hmissing hlt']
      dsimp only
      rw [if_neg (Int.lt_irrefl 0)]
      exact iff_of_true (fun hno => absurd hno (Int.lt_irrefl 0)) (not_or.mpr ⟨hlt, hlt'⟩)

lemma remove_spec (h : F.Reaches ops fname target content a)
    (hdisposition : r.creation_disposition = CREATE_ALWAYS) :
    ((F.openExisting ops T fname target r a).res.Failed →
      F.Keeps (F.openExisting ops T fname target r a).files) ↔
      ¬ (ops.unlink = true ∧ 0 ≤ a.unlink ∧ F.CreateRefused ops T fname target content r a) := by
  rw [openExisting, if_pos hdisposition]
  by_cases hset : ops.unlink = false
  · rw [if_pos hset]
    exact iff_of_true (fun _ => .refl F) fun hno => Bool.false_ne_true (hset.symm.trans hno.1)
  rw [if_neg hset, unlink]
  by_cases hlt : a.unlink < 0
  · rw [if_pos hlt]
    dsimp only
    rw [if_pos hlt]
    exact iff_of_true (fun _ => .refl F) fun hno => absurd hno.2.1 (Int.not_le.mpr hlt)
  rw [if_neg hlt, h.regular]
  dsimp only
  rw [if_neg (Int.lt_irrefl 0), and_iff_right (Bool.eq_true_of_not_eq_false hset),
    and_iff_right (Int.not_lt.mp hlt)]
  by_cases hentry : F.entry fname = F.entry target
  · exact recreate_spec h hdisposition hentry
  · -- the name is that of a link, which is still there
    have hlink : ∃ node, (F.put target none).nodeAt fname = some node := by
      rcases h.named with rfl | ⟨t, hlink, -⟩
      · exact absurd rfl hentry
      · exact ⟨_, (nodeAt_put_of_ne F hentry none).trans hlink⟩
    obtain ⟨node, hnode⟩ := hlink
    obtain ⟨hfailed, hsame⟩ := doCreateFile_exists ops T a hnode hdisposition
    refine iff_of_false (fun hkeeps => ?_) (not_not.mpr (.inl hentry))
    rw [hsame] at hkeeps
    exact not_keeps_removed h.regular (F.put_node_self target none) (hkeeps hfailed)

lemma openExisting_keeps (h : ∀ content, F.nodeAt target ≠ some (.regular content)) :
    F.Keeps (F.openExisting ops T fname target r a).files := by
  have hunlink : F.Keeps (F.unlink target a.unlink).2 := by
    rw [unlink]
    split
    · exact .refl F
    · split
      · exact .refl F
      · exact keeps_put none h
      · exact .refl F
  have htruncate : F.Keeps (F.truncate target a.truncate).2 := by
    rw [truncate]
    split
    · exact .refl F
    · split
      · rename_i content hnode
        exact absurd hnode (h content)
      all_goals exact .refl F
  rw [openExisting]
  split
  · split
    · exact .refl F
    · generalize F.unlink target a.unlink = res at hunlink
      obtain ⟨res, G⟩ := res
      dsimp only
      split
      · exact hunlink
      · exact hunlink.trans (doCreateFile_keeps G ops T fname r a)
  · split
    · split
      · exact .refl F
      · generalize F.truncate target a.truncate = res at htruncate
        obtain ⟨res, G⟩ := res
        dsimp only
        split <;> exact htruncate
    · split <;> exact .refl F

lemma Reaches.unique {target' content' : Bytes} (h : F.Reaches ops fname target content a)
    (h' : F.Reaches ops fname target' content' a) : target = target' ∧ content = content' := by
  have htarget : target = target' := by
    rcases h.named with rfl | ⟨t, hlink, -, -, -, rfl⟩
    · rcases h'.named with rfl | ⟨t, hlink, -⟩
      · rfl
      · cases h.regular.symm.trans hlink
    · rcases h'.named with rfl | ⟨t', hlink', -, -, -, rfl⟩
      · cases h'.regular.symm.trans hlink
      · cases hlink.symm.trans hlink'
        rfl
  subst htarget
  cases h.regular.symm.trans h'.regular
  exact ⟨rfl, rfl⟩

lemma openExisting_spec (h : F.Reaches ops fname target content a) :
    ((F.openExisting ops T fname target r a).res.Failed →
      F.Keeps (F.openExisting ops T fname target r a).files) ↔ ¬ F.Destroys ops T fname r a := by
  by_cases halways : r.creation_disposition = CREATE_ALWAYS
  · rw [remove_spec h halways, not_iff_not]
    constructor
    · rintro ⟨hset, hle, hrefused⟩
      exact .removed h halways hset hle hrefused
    · intro hdestroys
      cases hdestroys with
      | truncated _ htruncate => cases halways.symm.trans htruncate
      | removed h' _ hset hle hrefused =>
        obtain ⟨rfl, rfl⟩ := h.unique h'
        exact ⟨hset, hle, hrefused⟩
  by_cases htruncate : r.creation_disposition = TRUNCATE_EXISTING
  · rw [truncate_spec h htruncate, not_iff_not]
    constructor
    · rintro ⟨hset, hle, hne, hrefused⟩
      exact .truncated h htruncate hset hle hne hrefused
    · intro hdestroys
      cases hdestroys with
      | truncated h' _ hset hle hne hrefused =>
        obtain ⟨rfl, rfl⟩ := h.unique h'
        exact ⟨hset, hle, hne, hrefused⟩
      | removed _ halways' => exact absurd halways' halways
  · refine iff_of_true (fun _ => ?_) fun hdestroys => ?_
    · rw [openExisting, if_neg halways, if_neg htruncate]
      split <;> exact .refl F
    · cases hdestroys with
      | truncated _ htruncate' => exact htruncate htruncate'
      | removed _ halways' => exact halways halways'

lemma Destroys.reaches (h : F.Destroys ops T fname r a) :
    ∃ target content, F.Reaches ops fname target content a := by
  cases h with
  | truncated h => exact ⟨_, _, h⟩
  | removed h => exact ⟨_, _, h⟩

end Existing

section Follow

lemma getattr_eq_ok {F : FileSystem} {path : Bytes} {answer : ℤ} {node : Node} :
    F.getattr path answer = .ok node ↔ 0 ≤ answer ∧ F.nodeAt path = some node := by
  rw [getattr]
  by_cases hlt : answer < 0
  · simp [hlt]
  · rw [if_neg hlt]
    cases hnode : F.nodeAt path with
    | none => simp
    | some node' => simp [Int.not_lt.mp hlt]

variable {F : FileSystem} {ops : FuseOperations} {T : ImplFileLocks} {fname : Bytes}
  {r : CreateRequest} {a : CreateReplies} {node : Node}

lemma followLink_error {res : ℤ} (hnode : F.nodeAt fname = some node)
    (hfollow : F.followLink ops fname node a = .error res) (target content : Bytes) :
    ¬ F.Reaches ops fname target content a := by
  intro h
  rcases h.named with rfl | ⟨t, hlink, hreadlink, hanswer, hanswer', rfl⟩
  · cases hnode.symm.trans h.regular
    cases hfollow
  · cases hnode.symm.trans hlink
    have hresolved : F.resolveSymlink ops fname a.readlink = .ok (linkTarget fname t) := by
      rw [resolveSymlink, if_neg (by simp [hreadlink]), readlink, if_neg (Int.not_lt.mpr hanswer),
        hnode]
    rw [followLink, hresolved] at hfollow
    dsimp only at hfollow
    rw [getattr_eq_ok.mpr ⟨hanswer', h.regular⟩] at hfollow
    cases hfollow

lemma Reaches.getattr_ok {target content : Bytes} (h : F.Reaches ops fname target content a) :
    ∃ node, F.getattr fname a.getattr = .ok node := by
  rcases h.named with rfl | ⟨t, hlink, -⟩
  · exact ⟨_, getattr_eq_ok.mpr ⟨h.seen, h.regular⟩⟩
  · exact ⟨_, getattr_eq_ok.mpr ⟨h.seen, hlink⟩⟩

lemma followLink_ok (hset : ops.getattr = true) (hseen : 0 ≤ a.getattr)
    (hnode : F.nodeAt fname = some node) {target : Bytes} {found : Node}
    (hfollow : F.followLink ops fname node a = .ok (target, found)) :
    F.nodeAt target = some found ∧
      (∀ target' content, F.Reaches ops fname target' content a → target' = target) ∧
      ∀ content, found = .regular content → F.Reaches ops fname target content a := by
  have hself (target' content : Bytes) (hno : ∀ t, node ≠ .symlink t)
      (h : F.Reaches ops fname target' content a) : target' = fname := by
    rcases h.named with rfl | ⟨t, hlink, -⟩
    · rfl
    · cases hnode.symm.trans hlink
      exact absurd rfl (hno t)
  cases node with
  | regular content =>
    cases hfollow
    refine ⟨hnode, fun target' content' => hself target' content' (by simp), fun content' he => ?_⟩
    cases he
    exact ⟨hset, hseen, .inl rfl, hnode⟩
  | directory tree =>
    cases hfollow
    exact ⟨hnode, fun target' content' => hself target' content' (by simp), fun _ he => by cases he⟩
  | symlink t =>
    rw [followLink, resolveSymlink] at hfollow
    by_cases hreadlink : ops.readlink = false
    · rw [if_pos hreadlink] at hfollow
      cases hfollow
    rw [if_neg hreadlink, readlink] at hfollow
    by_cases hlt : a.readlink < 0
    · rw [if_pos hlt] at hfollow
      cases hfollow
    rw [if_neg hlt, hnode] at hfollow
    dsimp only at hfollow
    cases hget : F.getattr (linkTarget fname t) a.getattrTarget with
    | error res =>
      rw [hget] at hfollow
      cases hfollow
    | ok found' =>
      rw [hget] at hfollow
      cases hfollow
      obtain ⟨hseen', htarget⟩ := getattr_eq_ok.mp hget
      refine ⟨htarget, fun target' content' h => ?_, fun content' he => ?_⟩
      · rcases h.named with rfl | ⟨t', hlink, -, -, -, rfl⟩
        · cases hnode.symm.trans h.regular
        · cases hnode.symm.trans hlink
          rfl
      · subst he
        exact ⟨hset, hseen, .inr ⟨t, hnode, Bool.eq_true_of_not_eq_false hreadlink,
          Int.not_lt.mp hlt, hseen', rfl⟩, htarget⟩

lemma Destroys.regular {target : Bytes} {found : Node} (hset : ops.getattr = true)
    (hseen : 0 ≤ a.getattr) (hnode : F.nodeAt fname = some node)
    (hfollow : F.followLink ops fname node a = .ok (target, found))
    (h : F.Destroys ops T fname r a) : ∃ content, found = .regular content := by
  obtain ⟨target', content, hreaches⟩ := h.reaches
  obtain ⟨htarget, hunique, -⟩ := followLink_ok hset hseen hnode hfollow
  obtain rfl := hunique _ _ hreaches
  exact ⟨content, Option.some.inj (htarget.symm.trans hreaches.regular)⟩

end Follow

/-- Where a call fails, every regular file is still there with its content, unless the call removed
or truncated the file before it failed. -/
theorem createFile_keeps (F : FileSystem) (ops : FuseOperations) (T : ImplFileLocks)
    (file_name : Bytes) (r : CreateRequest) (a : CreateReplies) :
    ((F.createFile ops T file_name r a).res.Failed →
      F.Keeps (F.createFile ops T file_name r a).files) ↔
      ¬ F.Destroys ops T (unixify file_name) r a := by
  rw [createFile]
  generalize unixify file_name = fname
  by_cases hset : ops.getattr = false
  · rw [if_pos hset]
    refine iff_of_true (fun _ => .refl F) fun h => ?_
    obtain ⟨target, content, hreaches⟩ := h.reaches
    cases hset.symm.trans hreaches.getattr_set
  rw [if_neg hset]
  have hset' := Bool.eq_true_of_not_eq_false hset
  cases hget : F.getattr fname a.getattr with
  | error res =>
    refine iff_of_true (fun _ => ?_) fun h => ?_
    · dsimp only
      split
      · exact .refl F
      · exact doCreateFile_keeps F ops T fname r a
    · obtain ⟨target, content, hreaches⟩ := h.reaches
      obtain ⟨node, hnode⟩ := hreaches.getattr_ok
      cases hget.symm.trans hnode
  | ok node =>
    obtain ⟨hseen, hnode⟩ := getattr_eq_ok.mp hget
    dsimp only
    cases hfollow : F.followLink ops fname node a with
    | error res =>
      refine iff_of_true (fun _ => .refl F) fun h => ?_
      obtain ⟨target, content, hreaches⟩ := h.reaches
      exact followLink_error hnode hfollow target content hreaches
    | ok found =>
      obtain ⟨target, found⟩ := found
      obtain ⟨htarget, -, hreaches⟩ := followLink_ok hset' hseen hnode hfollow
      have hregular (h : F.Destroys ops T fname r a) : ∃ content, found = .regular content :=
        h.regular hset' hseen hnode hfollow
      dsimp only
      cases found with
      | regular content => exact openExisting_spec (hreaches content rfl)
      | directory tree =>
        refine iff_of_true (fun _ => .refl F) fun h => ?_
        obtain ⟨content, he⟩ := hregular h
        cases he
      | symlink t =>
        refine iff_of_true (fun _ => openExisting_keeps fun content h => ?_) fun h => ?_
        · cases htarget.symm.trans h
        · obtain ⟨content, he⟩ := hregular h
          cases he

theorem not_createFile_keeps : ¬ ∀ (F : FileSystem) (ops : FuseOperations) (T : ImplFileLocks)
    (file_name : Bytes) (r : CreateRequest) (a : CreateReplies),
    (F.createFile ops T file_name r a).res.Failed →
      F.Keeps (F.createFile ops T file_name r a).files := by
  intro h
  have hkeeps := h twoFiles encfsOperations
    (ImplFileLocks.empty.getFile [47, 97] false FILE_READ_DATA 0 1 10).2 [47, 97]
    ⟨FILE_WRITE_DATA, 0, CREATE_ALWAYS, false, 2, 20⟩ ⟨0, 0, 0, 0, 0, 0, 0, 0, ⟨0, 0, 0⟩⟩ (by decide)
  exact absurd (hkeeps 0 [1] rfl) (by decide)

end FileSystem

end EncFS.Fuse4Win
