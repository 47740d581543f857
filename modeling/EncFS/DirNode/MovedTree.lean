import EncFS.DirNode.MovedFile
import EncFS.DirNode.PlainTree

/-! A recursive rename that succeeds: what is at the new place after it, and at the old one. -/

set_option autoImplicit false

namespace EncFS

open FileTree NameIO

namespace DiskChain

lemma Outcome.relocatedWith {K : DiskChain} {T T' : FileTree Bytes Bytes} {name : Bytes}
    {v v' : UInt64} (h : K.Outcome T name v v' true T') :
    RelocatedWith (contentAtPath (components name) fun e e' => e.Alike (K.NewContent v v') e') id
      T T' := by
  cases h with
  | plain hK => exact .find_file fun _ _ => .kept fun h => absurd h hK
  | told hv => exact .find_file fun _ _ => .kept fun _ => .inr (.inl hv)
  | other hshort => exact .find_file fun c hc => .kept fun _ => .inr (.inr (hshort c hc))
  | rewritten hK hv hfile hlen _ _ => exact .setContent hfile (.rekeyed hK hv hlen)
  | created hK _ hfile hlen => exact .setContent hfile (.created hK hlen)

end DiskChain

namespace DirNode

variable {D : DirNode}

lemma recodeIVs_coded {a b v v' : UInt64} {x es es' : List Bytes} (h : D.naming.CodedTo a x es v)
    (h' : D.naming.CodedTo b x es' v') (hne : es ≠ []) :
    D.recodeIVs a b es = none ∧ v = v' ∨ D.recodeIVs a b es = some (v, v') := by
  induction h generalizing b es' with
  | nil _ => exact absurd rfl hne
  | @cons a a' v n e x es name entry encode decode rest ih =>
    by_cases hab : a = b
    · subst hab
      exact .inl ⟨recodeIVs_self _, ((CodedTo.cons name entry encode decode rest).functional h').2⟩
    · cases h' with
      | cons _ _ encode' _ rest' =>
        rw [recodeIVs_cons hab entry.not_dots decode encode']
        by_cases hes : es = []
        · subst hes
          cases rest
          cases rest'
          exact .inr (if_pos rfl)
        · rw [if_neg hes]
          exact ih rest' hes

section Rename

variable {ε σ : Type} {C : UInt64 → UInt64 → TreeEntry ε → TreeEntry ε → Prop}
  {renameNode : NodeRename ε σ} {A : UnixAnswers} {fuel : ℕ} {fromP toP q r : Bytes} {a b : UInt64}
  {V V' : Volume ε σ} (hD : D.naming.Lawful) (hforward : D.naming.reverseEncryption = false)
  (hroot : D.rootDir.getLast? = some slash) (hcanon : D.Canonical V.disk)
  (hnode : D.RewritesEntry C renameNode) (hfrom : (0 : UInt8) ∉ fromP) (hto : (0 : UInt8) ∉ toP)
  (hq : D.naming.encodePathIV fromP 0 = .ok (q, a)) (hr : D.naming.encodePathIV toP 0 = .ok (r, b))
include hD hforward hroot hcanon hnode hfrom hto hq hr

lemma relocatedWith_below {l done : List RenameEl} {V₁ : Volume ε σ}
    (hlist : (if D.hasDirectoryNameDependency ∧ V.isDirectory (D.rootDir ++ q) then
      D.genRenameList (V.opendir A) V.isDirectory fuel fromP toP else some []) = some l)
    (happly : RenameOp.apply renameNode A l V = (true, done, V₁)) :
    RelocatedWith (contentUnder (components (D.rootDir ++ q)) (D.Recoded C a b))
      (underPath (components (D.rootDir ++ q)) (D.recode a b)) V.disk V₁.disk := by
  split at hlist
  · exact relocatedWith_list hD hforward hroot hcanon hnode hlist hfrom hto hq hr
      (fun _ _ => Iff.rfl) happly
  · rename_i hnot
    cases hlist
    obtain ⟨-, -, rfl⟩ := happly
    cases hchain : D.naming.chainedNameIV with
    | true => exact relocatedWith_file recode_nil (fun _ => rfl) fun hdir => hnot ⟨hchain, hdir⟩
    | false =>
      -- without chaining the names do not change
      rw [encodePathIV_unchained hD hforward hchain hfrom hq,
        encodePathIV_unchained hD hforward hchain hto hr]
      have hid : Relocated id V.disk V.disk := Relocated.of_id fun _ _ => rfl
      refine (RelocatedWith.of_relocated hid).imp
        (fun p _ => (underPath_id recode_self p).symm) fun p _ e e' he => ?_
      rw [he, contentUnder, Recoded, recodeIVs_self, ite_self]

lemma relocatedWith_moved (hne : components (D.rootDir ++ q) ≠ components (D.rootDir ++ r))
    (h : D.rename renameNode A fuel fromP toP V = (.moved, V')) :
    ∃ T₂, RelocatedWith (contentUnder (components (D.rootDir ++ q)) (D.MovedContent C a b))
        (underPath (components (D.rootDir ++ q)) (D.recode a b)) V.disk T₂ ∧
      T₂.CanMove (components (D.rootDir ++ q)) (components (D.rootDir ++ r)) ∧
      Relocated (movedPath (components (D.rootDir ++ q)) (components (D.rootDir ++ r))) T₂
        V'.disk := by
  obtain ⟨fromC, toC, l, done, V₁, V₂, hfromC, htoC, hlist, happly, htop, hmoved⟩ := rename_moved h
  obtain rfl : fromC = D.rootDir ++ q := Except.ok.inj (hfromC.symm.trans (cipherPath_eq hq))
  obtain rfl : toC = D.rootDir ++ r := Except.ok.inj (htoC.symm.trans (cipherPath_eq hr))
  have hbelow := relocatedWith_below hD hforward hroot hcanon hnode hfrom hto hq hr hlist happly
  have hdisk := (Volume.rename_cases hmoved).1
  have hall := hbelow.trans_at (fun _ => recode_eq_nil_iff) (fun _ _ h => h) (hnode hq hr htop)
  have hmove := ((rename_cases hdisk).resolve_left fun hsame => hne hsame.1).1
  exact ⟨V₂.disk, hall, hmove, relocated_rename hdisk⟩

end Rename

variable (D) in
/-- The file IV is the same by both headers, and no read tells the two files apart. -/
def SameFile (K : DiskChain) (T T' : FileTree Bytes Bytes) (path path' : Bytes) (v v' : UInt64)
    (c c' : Bytes) : Prop :=
  K.fileIV v' c' = K.fileIV v c ∧ ∀ flags draws draws' macDraws macDraws' reads,
    D.readAt K T path flags draws macDraws reads =
      D.readAt K T' path' flags draws' macDraws' reads

variable (D) in
/-- All that was below `fromP` is below `toP`, nothing is left there, and the rest is untouched. -/
structure MovesAll (K : DiskChain) (T T' : FileTree Bytes Bytes) (fromP toP : Bytes) : Prop where
  moved {x : List Bytes} {q : Bytes} {v : UInt64} {e : TreeEntry Bytes}
    (valid : ∀ n ∈ x, ValidName n) (path : D.naming.encodePathIV (below fromP x) 0 = .ok (q, v))
    (reachable : T.find (components (D.rootDir ++ q)) = some e) :
    ∃ r v' e', D.naming.encodePathIV (below toP x) 0 = .ok (r, v') ∧
      T'.find (components (D.rootDir ++ r)) = some e' ∧
      e.Alike (D.SameFile K T T' (below fromP x) (below toP x) v v') e'
  left {q : Bytes} {v : UInt64} {p : List Bytes} (path : D.naming.encodePathIV fromP 0 = .ok (q, v))
    (inside : components (D.rootDir ++ q) <+: p) : T'.find p = none
  outside {q r : Bytes} {v v' : UInt64} {p : List Bytes}
    (path : D.naming.encodePathIV fromP 0 = .ok (q, v))
    (newPath : D.naming.encodePathIV toP 0 = .ok (r, v'))
    (notFrom : ¬ components (D.rootDir ++ q) <+: p) (notTo : ¬ components (D.rootDir ++ r) <+: p) :
    T'.find p = T.find p

variable (D) in
/-- A file whose path had the IV 0 has a header that gives the same file IV under the new one. -/
def HeadersFollow (K : DiskChain) (T : FileTree Bytes Bytes) (fromP toP : Bytes) : Prop :=
  ∀ x q v r v' c, (∀ n ∈ x, ValidName n) → D.naming.encodePathIV (below fromP x) 0 = .ok (q, v) →
    D.naming.encodePathIV (below toP x) 0 = .ok (r, v') →
    T.find (components (D.rootDir ++ q)) = some (.file c) → v = 0 → K.fileIV v' c = K.fileIV v c

lemma rewritesEntry_renameNodeOn {K : DiskChain} {bs : ℕ} (hC : K.cipherIO.cipher.Lawful bs) :
    D.RewritesEntry (fun v v' e e' => e.Alike (K.NewContent v v') e') (D.renameNodeOn K) := by
  intro fromP toP q r v v' V V' hq hr h
  have hout := renameNodeOn_forth (V := V) hC hq hr
  rw [h] at hout
  exact hout.relocatedWith

lemma codedTo_below (hD : D.naming.Lawful) (hforward : D.naming.reverseEncryption = false)
    (hroot : D.rootDir.getLast? = some slash) {path q : Bytes} {a : UInt64} (hpath : PlainPath path)
    (hq : D.naming.encodePathIV path 0 = .ok (q, a)) {x : List Bytes} (hx : ∀ n ∈ x, ValidName n) :
    ∃ q' v es, D.naming.encodePathIV (below path x) 0 = .ok (q', v) ∧
      components (D.rootDir ++ q') = components (D.rootDir ++ q) ++ es ∧
      D.naming.CodedTo a x es v := by
  obtain ⟨q₁, a₁, hq₁, hcoded₁⟩ := hpath.encode hD hforward
  rw [hq] at hq₁
  obtain ⟨rfl, rfl⟩ := Prod.mk.inj (Except.ok.inj hq₁)
  obtain ⟨q', v, hq', hcoded⟩ := (hpath.below hx).encode hD hforward
  rw [components_below path hx] at hcoded
  obtain ⟨fs, es, a₁, heq, hfirst, hrest⟩ := hcoded.split
  obtain ⟨rfl, rfl⟩ := hfirst.functional hcoded₁
  refine ⟨q', v, es, hq', ?_, hrest⟩
  rw [components_root hroot, components_root hroot, heq, List.append_assoc]

section Moved

variable {K : DiskChain} {a b v v' : UInt64}

lemma moved_entry {T T₂ T' : FileTree Bytes Bytes} {x gs gs' p p' : List Bytes}
    {e : TreeEntry Bytes}
    (hT₂ : RelocatedWith
      (contentUnder p (D.MovedContent (fun v v' e e' => e.Alike (K.NewContent v v') e') a b))
      (underPath p (D.recode a b)) T T₂)
    (hT' : Relocated (movedPath p p') T₂ T') (hx : D.naming.CodedTo a x gs v)
    (hx' : D.naming.CodedTo b x gs' v') (he : T.find (p ++ gs) = some e) :
    ∃ e', T'.find (p' ++ gs') = some e' ∧ e.Alike (K.NewContent v v') e' := by
  obtain ⟨e', he', hcontent⟩ := hT₂.mem (find_eq_some.mp he)
  rw [underPath_append, recode_coded hx.coded hx'.coded] at he'
  rw [contentUnder_append, MovedContent] at hcontent
  refine ⟨e', find_eq_some.mpr (hT'.mem_iff.mpr ⟨_, he', movedPath_append gs'⟩), ?_⟩
  split at hcontent
  · rename_i hgs
    subst hgs
    cases hx
    cases hx'
    exact hcontent
  · rename_i hgs
    rw [Recoded] at hcontent
    rcases recodeIVs_coded hx hx' hgs with ⟨hnone, rfl⟩ | hsome
    · rw [hnone] at hcontent
      obtain rfl : e' = e := hcontent
      exact .refl (fun c => .kept fun _ => .inl rfl) e'
    · rw [hsome] at hcontent
      exact hcontent

lemma sameFile_of_newContent {bs : ℕ} (hC : K.cipherIO.cipher.Lawful bs) (hK : K.Stacked)
    (hopens : ∀ name, K.opens name = true) {T T' : FileTree Bytes Bytes}
    {path path' q q' c c' : Bytes} (hpath : D.naming.encodePathIV path 0 = .ok (q, v))
    (hpath' : D.naming.encodePathIV path' 0 = .ok (q', v'))
    (hfile : T.find (components (D.rootDir ++ q)) = some (.file c))
    (hfile' : T'.find (components (D.rootDir ++ q')) = some (.file c'))
    (hnew : K.NewContent v v' c c') (hiv : v = 0 → K.fileIV v' c = K.fileIV v c) :
    D.SameFile K T T' path path' v v' c c' := by
  have hsameIV := (hnew.fileIV_iff hC).mpr hiv
  exact ⟨hsameIV, readAt_same hK hopens hpath hpath' hfile hfile' (hnew.sameBody hC hsameIV)⟩

variable (D K) in
/-- The tree after a rename that succeeded: what was below `p` is below `p'`, recoded. -/
structure MovedTo (a b : UInt64) (p p' : List Bytes) (T T' : FileTree Bytes Bytes) : Prop where
  recoded {x gs gs' : List Bytes} {v v' : UInt64} {e : TreeEntry Bytes}
    (names : D.naming.CodedTo a x gs v) (newNames : D.naming.CodedTo b x gs' v')
    (reachable : T.find (p ++ gs) = some e) :
    ∃ e', T'.find (p' ++ gs') = some e' ∧ e.Alike (K.NewContent v v') e'
  left {q : List Bytes} (inside : p <+: q) : T'.find q = none
  outside {q : List Bytes} (notFrom : ¬ p <+: q) (notTo : ¬ p' <+: q) : T'.find q = T.find q

variable {A : UnixAnswers} {fuel : ℕ} {fromP toP : Bytes} {V V' : Volume Bytes ℕ} {bs : ℕ}
  (hD : D.naming.Lawful) (hforward : D.naming.reverseEncryption = false)
  (hroot : D.rootDir.getLast? = some slash) (hC : K.cipherIO.cipher.Lawful bs)
  (hcanon : D.Canonical V.disk) (hfrom : PlainPath fromP) (hto : PlainPath toP)
include hD hforward hroot hC hcanon hfrom hto

lemma movedTo_rename {q r : Bytes} (hq : D.naming.encodePathIV fromP 0 = .ok (q, a))
    (hr : D.naming.encodePathIV toP 0 = .ok (r, b)) (hne : components fromP ≠ components toP)
    (h : D.rename (D.renameNodeOn K) A fuel fromP toP V = (.moved, V')) :
    D.MovedTo K a b (components (D.rootDir ++ q)) (components (D.rootDir ++ r)) V.disk V'.disk := by
  obtain ⟨q₁, a₁, hq₁, hcoded⟩ := hfrom.encode hD hforward
  obtain ⟨r₁, b₁, hr₁, hcoded'⟩ := hto.encode hD hforward
  rw [hq] at hq₁
  rw [hr] at hr₁
  obtain ⟨rfl, rfl⟩ := Prod.mk.inj (Except.ok.inj hq₁)
  obtain ⟨rfl, rfl⟩ := Prod.mk.inj (Except.ok.inj hr₁)
  have hapart : components (D.rootDir ++ q) ≠ components (D.rootDir ++ r) := by
    rw [components_root hroot, components_root hroot]
    intro heq
    rw [← List.append_cancel_left heq] at hcoded'
    exact hne (hcoded.injective hcoded')
  obtain ⟨T₂, hT₂, hmove, hT'⟩ := relocatedWith_moved hD hforward hroot hcanon
    (rewritesEntry_renameNodeOn hC) hfrom.no_null hto.no_null hq hr hapart h
  refine ⟨moved_entry hT₂ hT', fun hin => find_eq_none.mpr (hmove.left_behind hT' hin), ?_⟩
  intro p hout hout'
  apply Option.ext
  intro e
  rw [find_eq_some, find_eq_some, hT'.mem_outside hout hout', hT₂.mem_outside hout]

omit hC hcanon in
lemma MovedTo.moved {q r : Bytes} {T T' : FileTree Bytes Bytes}
    (h : D.MovedTo K a b (components (D.rootDir ++ q)) (components (D.rootDir ++ r)) T T')
    (hq : D.naming.encodePathIV fromP 0 = .ok (q, a))
    (hr : D.naming.encodePathIV toP 0 = .ok (r, b)) {x : List Bytes} {q' : Bytes}
    {e : TreeEntry Bytes} (hx : ∀ n ∈ x, ValidName n)
    (hq' : D.naming.encodePathIV (below fromP x) 0 = .ok (q', v))
    (he : T.find (components (D.rootDir ++ q')) = some e) :
    ∃ r' v' e', D.naming.encodePathIV (below toP x) 0 = .ok (r', v') ∧
      T'.find (components (D.rootDir ++ r')) = some e' ∧ e.Alike (K.NewContent v v') e' := by
  obtain ⟨q₁, v₁, es, hq₁, hes, hxs⟩ := codedTo_below hD hforward hroot hfrom hq hx
  obtain ⟨r', v', es', hr', hes', hxs'⟩ := codedTo_below hD hforward hroot hto hr hx
  rw [hq'] at hq₁
  obtain ⟨rfl, rfl⟩ := Prod.mk.inj (Except.ok.inj hq₁)
  rw [hes] at he
  obtain ⟨e', he', halike⟩ := h.recoded hxs hxs' he
  exact ⟨r', v', e', hr', by rwa [hes'], halike⟩

/-- A rename that succeeds moves everything, except for a header that was not rewritten, since the
path had the IV 0, and says something else under the IV of the new path. -/
theorem rename_moves_all (hK : K.Stacked) (hopens : ∀ name, K.opens name = true)
    (hne : components fromP ≠ components toP)
    (h : D.rename (D.renameNodeOn K) A fuel fromP toP V = (.moved, V')) :
    D.MovesAll K V.disk V'.disk fromP toP ↔ D.HeadersFollow K V.disk fromP toP := by
  obtain ⟨q, a, hq, -⟩ := hfrom.encode hD hforward
  obtain ⟨r, b, hr, -⟩ := hto.encode hD hforward
  have hmoved := movedTo_rename hD hforward hroot hC hcanon hfrom hto hq hr hne h
  constructor
  · intro hall x q' v r' v' c hx hq' hr' hfile hv
    obtain ⟨r₁, v₁, e₁, hr₁, he₁, hsame⟩ := hall.moved hx hq' hfile
    obtain ⟨r₂, v₂, e₂, hr₂, he₂, hnew⟩ :=
      hmoved.moved hD hforward hroot hfrom hto hq hr hx hq' hfile
    rw [hr'] at hr₁ hr₂
    obtain ⟨rfl, rfl⟩ := Prod.mk.inj (Except.ok.inj hr₁)
    obtain ⟨rfl, rfl⟩ := Prod.mk.inj (Except.ok.inj hr₂)
    rw [he₁] at he₂
    obtain rfl := Option.some.inj he₂
    cases hsame with
    | file hsame =>
      cases hnew with
      | file hnew => exact (hnew.fileIV_iff hC).mp hsame.1 hv
  · intro hfollow
    refine ⟨fun {x q' v e} hx hq' he => ?_, fun {q' v p} hq' hin => ?_,
      fun {q' r' v v' p} hq' hr' hout hout' => ?_⟩
    · obtain ⟨r', v', e', hr', he', hnew⟩ :=
        hmoved.moved hD hforward hroot hfrom hto hq hr hx hq' he
      refine ⟨r', v', e', hr', he', ?_⟩
      cases hnew with
      | dir => exact .dir
      | file hnew =>
        have hiv := hfollow x q' v r' v' _ hx hq' hr' he
        exact .file (sameFile_of_newContent hC hK hopens hq' hr' he he' hnew hiv)
    · rw [hq] at hq'
      obtain ⟨rfl, rfl⟩ := Prod.mk.inj (Except.ok.inj hq')
      exact hmoved.left hin
    · rw [hq] at hq'
      rw [hr] at hr'
      obtain ⟨rfl, rfl⟩ := Prod.mk.inj (Except.ok.inj hq')
      obtain ⟨rfl, rfl⟩ := Prod.mk.inj (Except.ok.inj hr')
      exact hmoved.outside hout hout'

end Moved

lemma maskDisk_stacked (externalIVChaining : Bool) : (maskDisk externalIVChaining).Stacked := by
  refine ⟨fun h => ?_⟩
  cases h

lemma maskName_y : MaskName [98, 73, 102, 122] [121] 317 10165 where
  valid := ⟨by decide, by decide, by decide, by decide⟩
  decode := by decide +kernel
  encode := by decide +kernel

lemma twoFiles_canonical : OpenRun.maskVolume.Canonical twoFiles := by
  intro d q iv e n iv' hnull hd hmem hdots hdec
  have hroot : components OpenRun.maskVolume.rootDir = [[114]] := by decide
  rw [components_root (by rfl), hroot] at hmem
  have hpaths : components q ++ [e] = [] ++ [[45, 111, 88, 74]] ∨
      components q ++ [e] = [[45, 111, 88, 74]] ++ [[98, 69, 102, 122]] ∨
      components q ++ [e] = [[45, 111, 88, 74]] ++ [[98, 73, 102, 122]] := by
    simpa [twoFiles, FileTree.ofEntries, FileTree.paths] using hmem
  rcases hpaths with h | h | h
  · exact canonical_top hnull hd hdec maskName_d h
  · exact canonical_child hnull hd hdec maskName_x maskCode_d h
  · exact canonical_child hnull hd hdec maskName_y maskCode_d h

lemma maskCodedTo {e e₁ n n₁ : Bytes} {iv iv₁ : UInt64} (hname : MaskName e n 0 iv)
    (hname₁ : MaskName e₁ n₁ iv iv₁) (he : ValidName e) (he₁ : ValidName e₁) :
    OpenRun.maskVolume.naming.CodedTo 0 [n, n₁] [e, e₁] iv₁ :=
  .cons hname.valid he hname.encode hname.decode
    (.cons hname₁.valid he₁ hname₁.encode hname₁.decode (.nil iv₁))

lemma twoFiles_headersFollow :
    OpenRun.maskVolume.HeadersFollow (maskDisk true) twoFiles [47, 100] [47, 101] := by
  rintro x q v r v' c hx hq - hfile rfl
  exfalso
  have hroot : components OpenRun.maskVolume.rootDir = [[114]] := by decide
  have hmem := find_eq_some.mp hfile
  rw [components_root (by rfl), hroot] at hmem
  have hfiles : components q = [[45, 111, 88, 74], [98, 69, 102, 122]] ∧
        c = [1, 2, 3, 4, 5, 6, 7, 8, 9] ∨
      components q = [[45, 111, 88, 74], [98, 73, 102, 122]] ∧ c = [8, 7, 6, 5, 4, 3, 2, 1] := by
    simpa [twoFiles, FileTree.ofEntries] using hmem
  have hnull : (0 : UInt8) ∉ below [47, 100] x := null_not_mem_below (by decide) hx
  have hnonzero {es y : List Bytes} {w : UInt64} (hes : components q = es)
      (hy : OpenRun.maskVolume.naming.CodedTo 0 y es w) : w = 0 := by
    rw [← hes] at hy
    exact (plainPath_of_encode maskVolume_supported.lawful maskVolume_supported.forward hnull hq
      hy).2.2
  rcases hfiles with ⟨h, -⟩ | ⟨h, -⟩
  · have hzero := hnonzero h (maskCodedTo maskName_d maskName_x (by decide) (by decide))
    exact absurd hzero (by decide)
  · have hzero := hnonzero h (maskCodedTo maskName_d maskName_y (by decide) (by decide))
    exact absurd hzero (by decide)

theorem rename_moves_all_twoFiles :
    ∃ V', OpenRun.maskVolume.rename (OpenRun.maskVolume.renameNodeOn (maskDisk true)) allAllowed 2
        [47, 100] [47, 101] ⟨twoFiles, 0⟩ = (.moved, V') ∧
      OpenRun.maskVolume.MovesAll (maskDisk true) twoFiles V'.disk [47, 100] [47, 101] := by
  have hmoved : OpenRun.maskVolume.rename (OpenRun.maskVolume.renameNodeOn (maskDisk true)) allAllowed
      2 [47, 100] [47, 101] ⟨twoFiles, 0⟩ = (.moved, _) := Prod.ext (by decide +kernel) rfl
  refine ⟨_, hmoved, (rename_moves_all maskVolume_supported.lawful maskVolume_supported.forward
    (by rfl) (maskCipher_lawful 4) twoFiles_canonical (by decide) (by decide) (maskDisk_stacked true)
    (fun _ => rfl) (by decide) hmoved).mpr twoFiles_headersFollow⟩

/-- A name whose IV is 0 in the directory it is in. -/
def nullName : Bytes := [101, 120, 116, 101, 110, 102, 122, 101, 103, 122, 116, 118, 114, 114]

def nullCode : Bytes :=
  [44, 44, 107, 74, 56, 78, 111, 74, 81, 70, 51, 71, 76, 74, 51, 71, 52, 70, 50, 69, 44, 45]

lemma maskName_null : MaskName nullCode nullName 317 0 where
  valid := ⟨by decide, by decide, by decide, by decide⟩
  decode := by decide +kernel
  encode := by decide +kernel

def nullFile : FileTree Bytes Bytes :=
  .ofEntries [([], .dir), ([[114]], .dir), ([[114], [45, 111, 88, 74]], .dir),
    ([[114], [45, 111, 88, 74], nullCode], .file [1, 2, 3, 4, 5, 6, 7, 8, 9])]
    (by simp [List.nodup_cons]) (by simp)

lemma nullFile_canonical : OpenRun.maskVolume.Canonical nullFile := by
  intro d q iv e n iv' hnull hd hmem hdots hdec
  have hroot : components OpenRun.maskVolume.rootDir = [[114]] := by decide
  rw [components_root (by rfl), hroot] at hmem
  have hpaths : components q ++ [e] = [] ++ [[45, 111, 88, 74]] ∨
      components q ++ [e] = [[45, 111, 88, 74]] ++ [nullCode] := by
    simpa [nullFile, FileTree.ofEntries, FileTree.paths] using hmem
  rcases hpaths with h | h
  · exact canonical_top hnull hd hdec maskName_d h
  · exact canonical_child hnull hd hdec maskName_null maskCode_d h

lemma maskPath_null : OpenRun.maskVolume.naming.encodePathIV ([47, 100] ++ slash :: nullName) 0 =
    .ok ([45, 111, 88, 74, 47] ++ nullCode, 0) := by
  decide +kernel

theorem not_rename_moves_all :
    ∃ V', OpenRun.maskVolume.Canonical nullFile ∧
      OpenRun.maskVolume.rename (OpenRun.maskVolume.renameNodeOn (maskDisk true)) allAllowed 2
        [47, 100] [47, 101] ⟨nullFile, 0⟩ = (.moved, V') ∧
      OpenRun.maskVolume.readAt (maskDisk true) nullFile ([47, 100] ++ slash :: nullName) 0 0 0
        [(0, 1)] = some (1, [.bytes (some [1])]) ∧
      OpenRun.maskVolume.readAt (maskDisk true) V'.disk ([47, 101] ++ slash :: nullName) 0 0 0
        [(0, 1)] = some (1, [.bytes (some [64])]) ∧
      ¬ OpenRun.maskVolume.MovesAll (maskDisk true) nullFile V'.disk [47, 100] [47, 101] := by
  have hbefore : OpenRun.maskVolume.readAt (maskDisk true) nullFile ([47, 100] ++ slash :: nullName) 0
      0 0 [(0, 1)] = some (1, [.bytes (some [1])]) := by
    decide +kernel
  have hafter : OpenRun.maskVolume.readAt (maskDisk true)
      (OpenRun.maskVolume.rename (OpenRun.maskVolume.renameNodeOn (maskDisk true)) allAllowed 2
        [47, 100] [47, 101] ⟨nullFile, 0⟩).2.disk ([47, 101] ++ slash :: nullName) 0 0 0 [(0, 1)] =
        some (1, [.bytes (some [64])]) := by
    decide +kernel
  refine ⟨_, nullFile_canonical, Prod.ext (by decide +kernel) rfl, hbefore, hafter, fun hall => ?_⟩
  obtain ⟨r, v', e', -, -, hsame⟩ := hall.moved (x := [nullName])
    (q := [45, 111, 88, 74, 47] ++ nullCode) (v := 0) (e := .file [1, 2, 3, 4, 5, 6, 7, 8, 9])
    (fun n hn => List.mem_singleton.mp hn ▸ maskName_null.valid)
    (by rw [below_singleton, maskPath_null]) (by decide +kernel)
  cases hsame with
  | file hsame =>
    have hreads := hsame.2 0 0 0 0 0 [(0, 1)]
    rw [below_singleton, below_singleton, hbefore, hafter] at hreads
    exact absurd hreads (by decide)

end DirNode

end EncFS
