import EncFS.DirNode.Undo
import EncFS.NameIO.CodedPaths
import Mathlib.Data.List.Nodup

set_option autoImplicit false

namespace EncFS

namespace RenameOp

variable {ε σ : Type} {renameNode : NodeRename ε σ} {A : UnixAnswers}

lemma apply_done {l done : List RenameEl} {V V₁ : Volume ε σ}
    (h : apply renameNode A l V = (true, done, V₁)) : done = l := by
  induction l generalizing V done with
  | nil =>
    cases h
    rfl
  | cons el l ih =>
    rw [apply] at h
    split at h
    · cases h
    · split at h
      · cases h
      · rename_i V₂ _
        obtain ⟨⟨ok, done', V₃⟩, htail⟩ : ∃ x, apply renameNode A l V₂ = x := ⟨_, rfl⟩
        simp only [htail] at h
        cases h
        rw [ih htail]

lemma undo_disk (hnode : ∀ fromP toP mode V, (renameNode fromP toP mode V).2.disk = V.disk)
    (hback : ∀ old new, A.moves old new = true → A.moves new old = true) {l done : List RenameEl}
    {ok : Bool} {V V₁ V₂ : Volume ε σ} (h : apply renameNode A l V = (ok, done, V₁))
    (hV : V₂.disk = V₁.disk) : (undo renameNode A done.reverse V₂).disk = V.disk := by
  induction l generalizing V done with
  | nil =>
    cases h
    exact hV
  | cons el l ih =>
    rw [apply] at h
    have hdisk := hnode el.oldPName el.newPName true V
    split at h
    · rename_i V' hforth
      rw [hforth] at hdisk
      cases h
      exact hV.trans hdisk
    · rename_i V' hforth
      rw [hforth] at hdisk
      split at h
      · cases h
        exact hV.trans ((hnode _ _ _ V').trans hdisk)
      · rename_i V'' hmoved
        obtain ⟨⟨ok', done', V₃⟩, htail⟩ : ∃ x, apply renameNode A l V'' = x := ⟨_, rfl⟩
        simp only [htail] at h
        cases h
        rw [List.reverse_cons, undo_append]
        have hdone := ih htail
        generalize undo renameNode A done'.reverse V₂ = W at hdone ⊢
        have hallowed : A.moves el.oldCName el.newCName = true := by
          by_contra hno
          rw [Volume.rename, if_neg hno] at hmoved
          cases hmoved
        have hrename := FileTree.rename_back (Volume.rename_cases hmoved).1
        have hW : W.rename A el.newCName el.oldCName = some { W with disk := V'.disk } := by
          rw [Volume.rename, if_pos (hback _ _ hallowed), hdone, hrename]
          rfl
        simp only [undo, hW, Option.getD_some]
        exact (hnode _ _ _ _).trans hdisk

end RenameOp

namespace DirTraverse

lemma nextNames_error {N : NameIO} {iv : UInt64} {d : Bytes} {error : RlogError}
    (h : N.decodePathIV d iv = .error error) (fuel : ℕ) (entries : List Bytes) :
    nextNames N iv fuel (d :: entries) = nextNames N iv fuel entries := by
  cases fuel with
  | zero => rfl
  | succ fuel => rw [nextNames, nextNames, nextPlaintextName, h]

lemma nextNames_eq {N : NameIO} {iv : UInt64} {entries : List Bytes}
    (h : ∀ e ∈ entries, ∀ name iv', N.decodePathIV e iv = .ok (name, iv') → name ≠ []) {fuel : ℕ}
    (hfuel : entries.length < fuel) :
    nextNames N iv fuel entries =
      entries.filterMap fun e => (N.decodePathIV e iv).toOption.map Prod.fst := by
  induction entries generalizing fuel with
  | nil =>
    cases fuel with
    | zero => cases hfuel
    | succ fuel => rfl
  | cons e entries ih =>
    have hrest : ∀ e ∈ entries, ∀ name iv', N.decodePathIV e iv = .ok (name, iv') → name ≠ [] :=
      fun e' he' => h e' (List.mem_cons_of_mem e he')
    cases hdec : N.decodePathIV e iv with
    | error error =>
      rw [nextNames_error hdec, ih hrest (Nat.lt_of_succ_lt hfuel), List.filterMap_cons, hdec]
      rfl
    | ok res =>
      obtain ⟨name, iv'⟩ := res
      cases fuel with
      | zero => cases hfuel
      | succ fuel =>
        have hne := h e List.mem_cons_self name iv' hdec
        rw [nextNames, nextPlaintextName, hdec]
        simp only [if_neg hne]
        rw [ih hrest (Nat.lt_of_succ_lt_succ hfuel), List.filterMap_cons, hdec]
        rfl

end DirTraverse

lemma components_below (p : Bytes) {x : List Bytes} (hx : ∀ n ∈ x, ValidName n) :
    components (below p x) = components p ++ x := by
  induction x generalizing p with
  | nil => rw [below_nil, List.append_nil]
  | cons n x ih =>
    have hn := hx n List.mem_cons_self
    rw [below_cons, ih _ fun m hm => hx m (List.mem_cons_of_mem n hm), components_append,
      components_name hn.ne_nil hn.no_slash, List.append_assoc]
    rfl

lemma null_not_mem_below {p : Bytes} {x : List Bytes} (hp : (0 : UInt8) ∉ p)
    (hx : ∀ n ∈ x, ValidName n) : (0 : UInt8) ∉ below p x := by
  induction x generalizing p with
  | nil => rwa [below_nil]
  | cons n x ih =>
    rw [below_cons]
    refine ih ?_ fun m hm => hx m (List.mem_cons_of_mem n hm)
    simp only [List.mem_append, List.mem_cons, not_or]
    exact ⟨hp, by decide, (hx n List.mem_cons_self).no_null⟩

lemma NameIO.PlainPath.below {path : Bytes} (h : PlainPath path) {x : List Bytes}
    (hx : ∀ n ∈ x, ValidName n) : PlainPath (below path x) := by
  refine ⟨null_not_mem_below h.no_null hx, fun n hn => ?_⟩
  rw [components_below path hx] at hn
  rcases List.mem_append.mp hn with hn | hn
  · exact h.valid n hn
  · exact hx n hn

namespace DirNode

open NameIO FileTree

variable {ε σ : Type} {D : DirNode} {R : ε → ε → Prop} {P T : FileTree Bytes ε}

/-- The backing tree has the files of a plain one under encoded names, and in its root else only
what cannot be decoded. -/
structure Shows (D : DirNode) (R : ε → ε → Prop) (P T : FileTree Bytes ε) : Prop where
  root : (([] : List Bytes), .dir) ∈ P.entries
  mirrors : Mirrors D.naming.pathCode R (components D.rootDir) D.naming.Undecodable P T

lemma Shows.root_mem (h : D.Shows R P T) : components D.rootDir ∈ T.paths := by
  have hmem := (h.mirrors.mem_iff (undecodable_apart D.naming) D.naming.pathCode.nil).mpr
    (P.mem_paths.mpr ⟨_, h.root⟩)
  rwa [List.append_nil] at hmem

section Forward

variable (hN : D.naming.Lawful) (hforward : D.naming.reverseEncryption = false)
  (hroot : D.rootDir.getLast? = some slash)
include hN hforward hroot

omit hroot in
lemma exists_codedTo {path q : Bytes} {b : UInt64} (h : PlainPath path)
    (hq : D.naming.encodePathIV path 0 = .ok (q, b)) {r : List Bytes} (hr : ∀ n ∈ r, ValidName n) :
    ∃ s c, D.naming.CodedTo b r s c := by
  obtain ⟨q', c, -, hcoded⟩ := (h.below hr).encode hN hforward
  rw [components_below path hr] at hcoded
  obtain ⟨es, s, b', -, hfirst, hrest⟩ := hcoded.split
  obtain ⟨q'', b'', henc, hcoded'⟩ := h.encode hN hforward
  rw [hq] at henc
  obtain ⟨rfl, rfl⟩ := Prod.mk.inj (Except.ok.inj henc)
  rw [(hfirst.functional hcoded').2] at hrest
  exact ⟨s, c, hrest⟩

lemma Shows.canonical (h : D.Shows R P T) : D.Canonical T := by
  intro d q iv e n iv' hnull hd hmem hdots hdec
  rw [components_of_slash_end hroot, List.append_assoc] at hmem
  obtain ⟨e', he'⟩ := T.mem_paths.mp hmem
  rcases h.mirrors.decoded he' with ⟨p, -, b, hcodes⟩ | ⟨j, r, heq, error, herror⟩
  · obtain ⟨x, z, b₁, rfl, hx, hz⟩ := hcodes.split_right
    obtain ⟨-, -, rfl⟩ := plainPath_of_encode hN hforward hnull hd hx
    cases hz with
    | cons valid _ encode decode rest =>
      cases rest
      rw [decode] at hdec
      obtain ⟨rfl, rfl⟩ := Prod.mk.inj (Except.ok.inj hdec)
      exact ⟨valid, encode⟩
  · exfalso
    have hwalk := encodePathIV_walk hN hforward hnull hd
    cases hq : components q with
    | nil =>
      rw [hq] at heq hwalk
      obtain ⟨rfl, -⟩ := List.cons.inj heq
      have hiv := hwalk.iv_eq
      have hzero : iv = 0 := by
        cases hchain : D.naming.chainedNameIV with
        | true => simpa [chained, hchain] using hiv
        | false => exact encodePathIV_unchained hN hforward hchain hnull hd
      rw [hzero, herror] at hdec
      cases hdec
    | cons c es =>
      have hc := mem_components (hq ▸ List.mem_cons_self : c ∈ components q)
      rw [hq] at heq hwalk
      obtain ⟨rfl, -⟩ := List.cons.inj heq
      obtain ⟨m, a', hdec'⟩ := hwalk.decode_first hforward hc.1 hc.2
      rw [herror] at hdec'
      cases hdec'

end Forward

variable {Good : Bytes → Prop} (hN : D.naming.CodesPaths Good)
  (hroot : D.rootDir.getLast? = some slash)
include hN hroot

lemma cipherPath_coded {path : Bytes} (h : Good path) :
    ∃ q es iv, D.naming.encodePathIV path 0 = .ok (q, iv) ∧ D.cipherPath path = .ok (D.rootDir ++ q) ∧
      components (D.rootDir ++ q) = components D.rootDir ++ es ∧
      D.naming.CodedTo 0 (components path) es iv := by
  obtain ⟨q, iv, henc, hcoded⟩ := hN.encode h
  refine ⟨q, components q, iv, henc, ?_, components_of_slash_end hroot q, hcoded⟩
  rw [cipherPath, encodePath, henc]
  rfl

section Listing

variable (h : D.Shows R P T) {x es : List Bytes} {iv : UInt64} (hx : D.naming.CodedTo 0 x es iv)
include h hx

omit hN hroot in
lemma Shows.decode_name {e : Bytes} (he : e ∈ T.names (components D.rootDir ++ es)) :
    (∃ n ∈ P.names x, ∃ iv', D.naming.decodePathIV e iv = .ok (n, iv') ∧
      D.naming.pathCode.Codes (x ++ [n]) (es ++ [e])) ∨
    x = [] ∧ ∃ error, D.naming.decodePathIV e iv = .error error := by
  rcases h.mirrors.name_decoded (undecodable_apart D.naming) ⟨iv, hx⟩ he with
    ⟨n, hn, c, hcoded⟩ | ⟨rfl, error, herror⟩
  · obtain ⟨es', s, iv', heq, hfirst, hrest⟩ := hcoded.split
    obtain ⟨rfl, rfl⟩ := hfirst.functional hx
    rw [← List.append_cancel_left heq] at hrest
    exact .inl ⟨n, hn, c, hrest.singleton.2, c, hcoded⟩
  · cases hx
    exact .inr ⟨rfl, error, herror⟩

omit hN hroot in
lemma Shows.names_perm :
    ((T.names (components D.rootDir ++ es)).filterMap fun e =>
      (D.naming.decodePathIV e iv).toOption.map Prod.fst).Perm (P.names x) := by
  have hname {e n : Bytes} (he : e ∈ T.names (components D.rootDir ++ es))
      (hn : (D.naming.decodePathIV e iv).toOption.map Prod.fst = some n) :
      n ∈ P.names x ∧ D.naming.pathCode.Codes (x ++ [n]) (es ++ [e]) := by
    rcases h.decode_name hx he with ⟨n', hn', iv', hdec, hcodes⟩ | ⟨-, error, herror⟩
    · rw [hdec] at hn
      obtain rfl := Option.some.inj hn
      exact ⟨hn', hcodes⟩
    · rw [herror] at hn
      cases hn
  refine (List.perm_ext_iff_of_nodup ?_ (names_nodup P x)).mpr fun n => ?_
  · refine List.pairwise_filterMap.mpr ((names_nodup T _).imp_of_mem ?_)
    intro e e' he he' hne n hn n' hn' heq
    subst heq
    have hcodes := D.naming.pathCode.functional (hname he hn).2 (hname he' hn').2
    exact hne (List.cons.inj (List.append_cancel_left hcodes)).1
  · rw [List.mem_filterMap]
    constructor
    · rintro ⟨e, he, hn⟩
      exact (hname he hn).1
    · intro hn
      obtain ⟨e, he⟩ := P.mem_paths.mp (FileTree.mem_names.mp hn)
      obtain ⟨q, e', hcodes, hmem, -⟩ := h.mirrors.coded he
      obtain ⟨q, d, rfl, hinit⟩ := D.naming.pathCode.init_left hcodes
      obtain rfl := D.naming.pathCode.functional hinit ⟨iv, hx⟩
      rw [← List.append_assoc] at hmem
      have hd : d ∈ T.names (components D.rootDir ++ q) :=
        FileTree.mem_names.mpr (T.mem_paths.mpr ⟨e', hmem⟩)
      refine ⟨d, hd, ?_⟩
      obtain ⟨c, hcoded⟩ := hcodes
      obtain ⟨es', s, iv', heq, hfirst, hrest⟩ := hcoded.split
      obtain ⟨rfl, rfl⟩ := hfirst.functional hx
      rw [← List.append_cancel_left heq] at hrest
      rw [hrest.singleton.2]
      rfl

end Listing

lemma Shows.openDir (A : UnixAnswers) {V : Volume ε σ} {path : Bytes} (h : D.Shows R P V.disk)
    (hpath : Good path) :
    (D.openDir (V.opendir A) path = .ok none ∧
      (P.isDirectory (components path) ≠ true ∨ ∃ name, A.opens name ≠ true)) ∨
    ∃ t, D.openDir (V.opendir A) path = .ok (some t) ∧ P.isDirectory (components path) = true ∧
      t.plaintextNames.Perm ([dot] :: [dot, dot] :: P.names (components path)) := by
  obtain ⟨q, es, iv, hq, hcipher, hes, hx⟩ := cipherPath_coded hN hroot hpath
  have hdir : V.isDirectory (D.rootDir ++ q) = P.isDirectory (components path) := by
    rw [Volume.isDirectory, hes, h.mirrors.isDirectory_eq (undecodable_apart D.naming) ⟨iv, hx⟩]
  by_cases hopen : A.opens (D.rootDir ++ q) = true ∧ P.isDirectory (components path) = true
  · right
    have hiv : (if D.naming.chainedNameIV then iv else 0) = iv := by
      split
      · rfl
      · rename_i hchain
        exact (hN.unchained (by simpa using hchain) hpath hq).symm
    refine ⟨⟨[dot] :: [dot, dot] :: V.disk.names (components D.rootDir ++ es), iv, D.naming⟩, ?_,
      hopen.2, ?_⟩
    · rw [DirNode.openDir, hcipher]
      dsimp only [bind, Except.bind]
      rw [Volume.opendir, hdir, if_pos hopen, hes, hq]
      dsimp only
      rw [hiv]
      rfl
    · obtain ⟨iv₁, hone⟩ := hN.dots [dot] iv (by decide)
      obtain ⟨iv₂, htwo⟩ := hN.dots [dot, dot] iv (by decide)
      rw [DirTraverse.plaintextNames, DirTraverse.nextNames_eq ?_ (Nat.lt_succ_self _)]
      · simp only [List.filterMap_cons, hone, htwo, Except.toOption, Option.map_some]
        exact ((h.names_perm hx).cons _).cons _
      · intro e he name iv' hdec
        rcases List.mem_cons.mp he with rfl | he
        · rw [hone] at hdec
          obtain ⟨rfl, -⟩ := Prod.mk.inj (Except.ok.inj hdec)
          exact List.cons_ne_nil _ _
        · rcases List.mem_cons.mp he with rfl | he
          · rw [htwo] at hdec
            obtain ⟨rfl, -⟩ := Prod.mk.inj (Except.ok.inj hdec)
            exact List.cons_ne_nil _ _
          · rcases h.decode_name hx he with ⟨n, -, iv₃, hdec', ⟨c, hcoded⟩⟩ |
                ⟨-, error, herror⟩
            · rw [hdec'] at hdec
              obtain ⟨rfl, -⟩ := Prod.mk.inj (Except.ok.inj hdec)
              exact (hcoded.valid_names n (List.mem_append_right _ List.mem_cons_self)).ne_nil
            · rw [herror] at hdec
              cases hdec
  · refine .inl ⟨?_, ?_⟩
    · rw [DirNode.openDir, hcipher]
      dsimp only [bind, Except.bind]
      rw [Volume.opendir, hdir, if_neg hopen]
      rfl
    · by_cases hplain : P.isDirectory (components path) = true
      · exact .inr ⟨_, fun hopens => hopen ⟨hopens, hplain⟩⟩
      · exact .inl hplain

section Rename

variable {renameNode : NodeRename ε σ} {A : UnixAnswers} {fuel : ℕ} {fromP toP : Bytes}
  {V V' : Volume ε σ} (hnode : ∀ fromP toP mode V, (renameNode fromP toP mode V).2.disk = V.disk)
  (h : D.Shows R P V.disk) (hfrom : Good fromP) (hto : Good toP)
include hnode h hfrom hto

lemma Shows.rename_moved (hmoved : D.rename renameNode A fuel fromP toP V = (.moved, V')) :
    ∃ P', P.rename (components fromP) (components toP) = some P' ∧ D.Shows R P' V'.disk := by
  obtain ⟨fromC, toC, l, done, V₁, V₂, hfromC, htoC, hlist, happly, hnodes, htop⟩ :=
    DirNode.rename_moved hmoved
  obtain ⟨q, es, a, hq, hpath, hes, hx⟩ := cipherPath_coded hN hroot hfrom
  obtain ⟨q', fs, b, hq', hpath', hfs, hy⟩ := cipherPath_coded hN hroot hto
  rw [hpath] at hfromC
  rw [hpath'] at htoC
  obtain rfl := Except.ok.inj hfromC
  obtain rfl := Except.ok.inj htoC
  have hdisk : V₂.disk = V₁.disk := by
    have := hnode fromP toP true V₁
    rwa [hnodes] at this
  have htree := (Volume.rename_cases htop).1
  rw [hes, hfs, hdisk] at htree
  have hx' : D.naming.pathCode.Codes (components fromP) es := ⟨a, hx⟩
  have hy' : D.naming.pathCode.Codes (components toP) fs := ⟨b, hy⟩
  have happart := undecodable_apart D.naming
  -- the codes of what is below, before and after
  have hsplit {r s : List Bytes} (hrs : D.naming.pathCode.Codes (components fromP ++ r) (es ++ s)) :
      ∃ c, D.naming.CodedTo a r s c := by
    obtain ⟨c, hc⟩ := hrs
    obtain ⟨es', s', a', heq, hfirst, hrest⟩ := hc.split
    obtain ⟨rfl, rfl⟩ := hfirst.functional hx
    rw [List.append_cancel_left heq]
    exact ⟨c, hrest⟩
  obtain ⟨k, hk, hsame, hcodes⟩ : ∃ k : List Bytes → List Bytes,
      Relocated (underPath (components D.rootDir ++ es) k) V.disk V₁.disk ∧
      (components fromP = components toP → ∀ s, k s = s) ∧
      ∀ {r s}, components fromP ++ r ∈ P.paths →
        D.naming.pathCode.Codes (components fromP ++ r) (es ++ s) →
        D.naming.pathCode.Codes (components toP ++ r) (fs ++ k s) := by
    by_cases hrec : D.hasDirectoryNameDependency ∧ V.isDirectory (D.rootDir ++ q)
    · rw [if_pos hrec] at hlist
      obtain ⟨hlawful, hforward, hplain⟩ := hN.chained hrec.1
      refine ⟨D.recode a b, ?_, fun heq s => ?_, fun {r s} _ hrs => ?_⟩
      · have hmove := relocated_list (V := V) hlawful hforward hroot
          (h.canonical hlawful hforward hroot) hnode hlist ((hplain _).mp hfrom).no_null
          ((hplain _).mp hto).no_null hq hq' (fun _ _ => Iff.rfl) happly
        rwa [hes] at hmove
      · rw [heq] at hx
        rw [(hx.functional hy).2, recode_self]
      · obtain ⟨c, hc⟩ := hsplit hrs
        obtain ⟨s', c', hc'⟩ := exists_codedTo hlawful hforward ((hplain _).mp hto) hq' hc.valid_names
        rw [recode_coded hc.coded hc'.coded]
        exact ⟨c', hy.append hc'⟩
    · rw [if_neg hrec] at hlist
      cases hlist
      obtain ⟨-, -, rfl⟩ := happly
      refine ⟨id, Relocated.of_id fun t _ => underPath_id (fun _ => rfl) t, fun _ _ => rfl,
        fun {r s} hr hrs => ?_⟩
      obtain ⟨c, hc⟩ := hsplit hrs
      by_cases hchain : D.naming.chainedNameIV = true
      · -- a file has nothing below it
        have hfile : V.isDirectory (D.rootDir ++ q) ≠ true := fun hdir => hrec ⟨hchain, hdir⟩
        have hnil : r = [] := by
          by_contra hr'
          apply hfile
          rw [Volume.isDirectory, hes, h.mirrors.isDirectory_eq happart hx']
          exact isDirectory_iff.mpr (dir_of_append hr hr')
        subst hnil
        cases hc
        exact ⟨b, by simpa using hy⟩
      · have hchain' : D.naming.chainedNameIV = false := by simpa using hchain
        rw [hN.unchained hchain' hfrom hq] at hc
        rw [hN.unchained hchain' hto hq'] at hy
        exact ⟨c, hy.append hc⟩
  obtain ⟨P', hP', hmirrors⟩ :=
    h.mirrors.rename happart hx' hy' h.root_mem hk hsame hcodes htree
  refine ⟨P', hP', ?_, hmirrors⟩
  rcases FileTree.rename_cases hP' with ⟨-, -, rfl⟩ | ⟨hmove, hentries⟩
  · exact h.root
  · rw [hentries]
    refine List.mem_map.mpr ⟨_, h.root, ?_⟩
    rw [movedPath_outside]
    intro hnil
    exact hmove.not_within (List.prefix_nil.mp hnil ▸ List.nil_prefix)

end Rename

/-- Where `renameNode` leaves the disk alone, keeps what holds of the nodes, and gives every node
its new name. -/
structure RenamesNodes (renameNode : NodeRename ε σ) (Good : Bytes → Prop) (I : σ → Prop) : Prop where
  disk (fromP toP : Bytes) (mode : Bool) (V : Volume ε σ) : (renameNode fromP toP mode V).2.disk = V.disk
  nodes (fromP toP : Bytes) (mode : Bool) (V : Volume ε σ) : I V.nodes →
    I (renameNode fromP toP mode V).2.nodes
  named {fromP toP : Bytes} (mode : Bool) {V : Volume ε σ} : I V.nodes → Good fromP →
    Good toP → (renameNode fromP toP mode V).1 = true

namespace RenamesNodes

variable {renameNode : NodeRename ε σ} {I : σ → Prop} {A : UnixAnswers} {V : Volume ε σ}
  (hnode : RenamesNodes renameNode Good I)
include hnode

omit hN hroot

lemma apply (l : List RenameEl) (hV : I V.nodes) :
    I (RenameOp.apply renameNode A l V).2.2.nodes := by
  induction l generalizing V with
  | nil => exact hV
  | cons el l ih =>
    rw [RenameOp.apply]
    have hforth := hnode.nodes el.oldPName el.newPName true V hV
    split
    · rename_i V' heq
      rwa [heq] at hforth
    · rename_i V' heq
      rw [heq] at hforth
      split
      · exact hnode.nodes _ _ _ _ hforth
      · rename_i V'' hmoved
        apply ih
        rwa [(Volume.rename_cases hmoved).2]

lemma undo (l : List RenameEl) (hV : I V.nodes) : I (RenameOp.undo renameNode A l V).nodes := by
  induction l generalizing V with
  | nil => exact hV
  | cons el l ih =>
    apply ih
    apply hnode.nodes
    cases hmoved : V.rename A el.newCName el.oldCName with
    | none => exact hV
    | some V' =>
      rw [Option.getD_some, (Volume.rename_cases hmoved).2]
      exact hV

lemma renameTop (fromP toP fromC toC : Bytes) (l : List RenameEl) (hV : I V.nodes) :
    I (DirNode.renameTop renameNode A fromP toP fromC toC l V).2.nodes := by
  rw [DirNode.renameTop]
  have hforth := hnode.nodes fromP toP true V hV
  split
  · rename_i V' heq
    rwa [heq] at hforth
  · rename_i V' heq
    rw [heq] at hforth
    split
    · rename_i V'' hmoved
      rwa [(Volume.rename_cases hmoved).2]
    · have hback := hnode.nodes toP fromP false V' hforth
      split
      · rename_i V'' heq'
        rwa [heq'] at hback
      · rename_i V'' heq'
        rw [heq'] at hback
        exact hnode.undo _ hback

lemma rename (D : DirNode) (fuel : ℕ) (fromP toP : Bytes) (hV : I V.nodes) :
    I (D.rename renameNode A fuel fromP toP V).2.nodes := by
  rw [DirNode.rename]
  split
  · split
    · split
      · exact hV
      · rename_i l _
        have happly := hnode.apply (A := A) l hV
        split
        · rename_i done V' heq
          rw [heq] at happly
          exact hnode.undo _ happly
        · rename_i done V' heq
          rw [heq] at happly
          exact hnode.renameTop _ _ _ _ _ happly
    · exact hnode.renameTop _ _ _ _ _ hV
  · exact hV

variable {fromP toP : Bytes} (hfrom : Good fromP) (hto : Good toP)
include hfrom hto

lemma renameTop_done {fromC toC : Bytes} {l : List RenameEl} (hV : I V.nodes)
    (hmoves : ∀ old new, A.moves old new = true)
    (htree : (V.disk.rename (components fromC) (components toC)).isSome) :
    (DirNode.renameTop renameNode A fromP toP fromC toC l V).1 = .moved := by
  rw [DirNode.renameTop]
  have hnamed := hnode.named true hV hfrom hto
  have hdisk := hnode.disk fromP toP true V
  split
  · rename_i V' heq
    rw [heq] at hnamed
    cases hnamed
  · rename_i V' heq
    rw [heq] at hdisk
    have hmoved : (V'.rename A fromC toC).isSome := by
      rw [Volume.rename, if_pos (hmoves _ _), hdisk, Option.isSome_map]
      exact htree
    split
    · rfl
    · rename_i hnone
      rw [hnone] at hmoved
      cases hmoved

include hN hroot in
lemma rename_done {fuel : ℕ} {P' : FileTree Bytes ε} (hV : I V.nodes) (h : D.Shows R P V.disk)
    (hmoves : ∀ old new, A.moves old new = true)
    (hplain : ¬ (D.naming.chainedNameIV = true ∧ P.isDirectory (components fromP) = true))
    (hP : P.rename (components fromP) (components toP) = some P') :
    (D.rename renameNode A fuel fromP toP V).1 = .moved := by
  obtain ⟨q, es, a, -, hpath, hes, hx⟩ := cipherPath_coded hN hroot hfrom
  obtain ⟨q', fs, b, -, hpath', hfs, hy⟩ := cipherPath_coded hN hroot hto
  have hx' : D.naming.pathCode.Codes (components fromP) es := ⟨a, hx⟩
  have hy' : D.naming.pathCode.Codes (components toP) fs := ⟨b, hy⟩
  have happart := undecodable_apart D.naming
  have htree : (V.disk.rename (components D.rootDir ++ es) (components D.rootDir ++ fs)).isSome := by
    rcases FileTree.rename_cases hP with ⟨heq, hmem, -⟩ | ⟨hmove, -⟩
    · rw [heq] at hx'
      rw [D.naming.pathCode.functional hx' hy', FileTree.rename_self]
      · rfl
      · exact (h.mirrors.mem_iff happart hy').mpr (heq ▸ hmem)
    · obtain ⟨T', hT', -⟩ := ((h.mirrors.canMove_iff happart hx' hy' h.root_mem).mpr hmove).rename
      rw [hT']
      rfl
  have hdir : ¬ (D.hasDirectoryNameDependency ∧ V.isDirectory (D.rootDir ++ q)) := by
    rwa [Volume.isDirectory, hes, h.mirrors.isDirectory_eq happart hx', hasDirectoryNameDependency]
  rw [DirNode.rename, hpath, hpath']
  dsimp only
  rw [if_neg hdir]
  exact hnode.renameTop_done hfrom hto hV hmoves (by rwa [hes, hfs])

lemma renameTop_unmoved {fromC toC : Bytes} {l : List RenameEl} {V₀ V' : Volume ε σ}
    {o : RenameOutcome} (hV : I V.nodes) (hundo : ∀ V₁ : Volume ε σ, V₁.disk = V.disk →
      (RenameOp.undo renameNode A l.reverse V₁).disk = V₀.disk)
    (h : DirNode.renameTop renameNode A fromP toP fromC toC l V = (o, V')) (ho : o ≠ .moved) :
    V'.disk = V₀.disk := by
  rw [DirNode.renameTop] at h
  have hforth := hnode.nodes fromP toP true V hV
  have hnamed := hnode.named true hV hfrom hto
  have hdisk := hnode.disk fromP toP true V
  split at h
  · rename_i V₁ heq
    rw [heq] at hnamed
    cases hnamed
  · rename_i V₁ heq
    rw [heq] at hforth hdisk
    split at h
    · cases h
      exact absurd rfl ho
    · have hnamed' := hnode.named false hforth hto hfrom
      have hdisk' := hnode.disk toP fromP false V₁
      split at h
      · rename_i V₂ heq'
        rw [heq'] at hnamed'
        cases hnamed'
      · rename_i V₂ heq'
        rw [heq'] at hdisk'
        cases h
        exact hundo V₂ (hdisk'.trans hdisk)

lemma rename_unmoved {D : DirNode} {fuel : ℕ} {V' : Volume ε σ} {o : RenameOutcome}
    (hback : ∀ old new, A.moves old new = true → A.moves new old = true)
    (hV : I V.nodes) (h : D.rename renameNode A fuel fromP toP V = (o, V')) (ho : o ≠ .moved) :
    V'.disk = V.disk := by
  rw [DirNode.rename] at h
  split at h
  · split at h
    · split at h
      · cases h
        rfl
      · rename_i l _
        have happly := hnode.apply (A := A) l hV
        split at h
        · rename_i done V₁ heq
          cases h
          exact RenameOp.undo_disk hnode.disk hback heq rfl
        · rename_i done V₁ heq
          rw [heq] at happly
          have hdone := RenameOp.apply_done heq
          refine hnode.renameTop_unmoved hfrom hto happly (fun V₂ hV₂ => ?_) h ho
          rw [← hdone]
          exact RenameOp.undo_disk hnode.disk hback heq hV₂
    · exact hnode.renameTop_unmoved (l := []) hfrom hto hV (fun _ hV₁ => hV₁) h ho
  · cases h
    rfl

end RenamesNodes

end DirNode

end EncFS
