import EncFS.Mount.PlainVolume

set_option autoImplicit false

namespace EncFS

open Function Context NameIO

variable {D : DirNode} {S S' : Context} {new : ℕ}

/-- The nodes in the table have the names that their paths are encoded to, and none of them is at
the address for the nodes that go away after a call. -/
structure NodesNamed (D : DirNode) (new : ℕ) (S : Context) : Prop where
  filing : Filing S
  unused : S.Unused new
  cipherName {path : Bytes} {pl : ℕ} : S.Filed path pl →
    D.cipherPath path = .ok (S.node (S.placeholder pl))._cname

inductive OpensFile (D : DirNode) (new : ℕ) (S : Context) : Context → Prop
  | opened {path : Bytes} {n pl node : ℕ} {S₁ : Context} (hn : S.Unused n) (hne : n ≠ new)
      (hpl : ∀ path, ¬ S.Filed path pl) (h : D.openNode S path n true = (some node, S₁)) :
      OpensFile D new S (S₁.putNode path node pl)
  | not_opened {path : Bytes} {n : ℕ} {opened : Bool} {S₁ : Context} (hn : S.Unused n)
      (h : D.openNode S path n opened = (none, S₁)) : OpensFile D new S S₁
  | released {path : Bytes} {pl : ℕ} {S₁ : Context} (h : S.eraseNode path pl = some S₁) :
      OpensFile D new S S₁

namespace NodesNamed

variable (hS : NodesNamed D new S)
include hS

lemma findOrCreate_cases (path : Bytes) (n : ℕ) :
    (∃ e, D.cipherPath path = .error e ∧ D.findOrCreate S path n = .error e) ∨
    (∃ pl, S.Filed path pl ∧ D.findOrCreate S path n = .ok (S.placeholder pl, S)) ∨
    S.openFiles path = none ∧ ∃ c, D.cipherPath path = .ok c ∧
      D.findOrCreate S path n = .ok (n, { S with node := update S.node n ⟨path, c, c⟩ }) := by
  rcases hS.filing.lookupNode_cases path with ⟨hopen, hnone⟩ | ⟨pl, hpl, hsome⟩
  · cases hpath : D.cipherPath path with
    | error e =>
      refine .inl ⟨e, rfl, ?_⟩
      rw [DirNode.findOrCreate, hnone, hpath]
      rfl
    | ok c =>
      refine .inr (.inr ⟨hopen, c, rfl, ?_⟩)
      rw [DirNode.findOrCreate, hnone, hpath]
      rfl
  · refine .inr (.inl ⟨pl, hpl, ?_⟩)
    rw [DirNode.findOrCreate, hsome]

lemma setNode {n : ℕ} (hn : S.Unused n) (N : FileNode) :
    NodesNamed D new { S with node := update S.node n N } where
  filing := ⟨hS.filing.nonempty, hS.filing.shared, fun {path pl} hpl => by
    have hne : S.placeholder pl ≠ n := hn hpl
    dsimp only
    rw [update_of_ne hne]
    exact hS.filing.named hpl⟩
  unused := hS.unused
  cipherName {path pl} hpl := by
    have hne : S.placeholder pl ≠ n := hn hpl
    dsimp only
    rw [update_of_ne hne]
    exact hS.cipherName hpl

lemma cipherName_eq {ε : Type} {iv : Bytes → Bytes → Bool → SetIV} (path : Bytes) :
    (D.nodeTable ε new iv).cipherName S path = D.cipherPath path := by
  rw [DirNode.nodeTable]
  dsimp only
  rcases hS.findOrCreate_cases path new with ⟨e, hpath, herror⟩ | ⟨pl, hpl, hfound⟩ |
    ⟨-, c, hpath, hmade⟩
  · rw [herror, hpath]
    rfl
  · rw [hfound, hS.cipherName hpl]
    rfl
  · rw [hmade, hpath]
    change Except.ok (update S.node new ⟨path, c, c⟩ new)._cname = _
    rw [update_self]

lemma putNode {path : Bytes} {n pl : ℕ} (hn : n ≠ new) (hpl : ∀ path, ¬ S.Filed path pl)
    (hnode : ∀ pl', S.Filed path pl' → S.placeholder pl' = n) (hname : (S.node n)._pname = path)
    (hcname : D.cipherPath path = .ok (S.node n)._cname) :
    NodesNamed D new (S.putNode path n pl) := by
  have hself : (S.putNode path n pl).placeholder pl = n := update_self _ _ _
  have hother {path' : Bytes} {pl' : ℕ} (h : S.Filed path' pl') :
      (S.putNode path n pl).placeholder pl' = S.placeholder pl' := by
    apply update_of_ne
    rintro rfl
    exact hpl path' h
  refine ⟨⟨fun {path' set} h => ?_, fun {path' a b} ha hb => ?_, fun {path' a} ha => ?_⟩,
    fun {path' a} ha => ?_, fun {path' a} ha => ?_⟩
  · by_cases hpath : path' = path
    · subst hpath
      have hset : insert pl ((S.openFiles path').getD ∅) = set := by simpa [Context.putNode] using h
      rw [← hset]
      exact Finset.insert_nonempty _ _
    · exact hS.filing.nonempty (by simpa [Context.putNode, hpath] using h)
  · rcases Sound.putNode_filed.mp ha with ⟨rfl, rfl⟩ | ha'
    · rcases Sound.putNode_filed.mp hb with ⟨-, rfl⟩ | hb'
      · rfl
      · rw [hself, hother hb', hnode b hb']
    · rcases Sound.putNode_filed.mp hb with ⟨rfl, rfl⟩ | hb'
      · rw [hself, hother ha', hnode a ha']
      · rw [hother ha', hother hb', hS.filing.shared ha' hb']
  · rcases Sound.putNode_filed.mp ha with ⟨rfl, rfl⟩ | ha'
    · rw [hself]
      exact hname
    · rw [hother ha']
      exact hS.filing.named ha'
  · rcases Sound.putNode_filed.mp ha with ⟨rfl, rfl⟩ | ha'
    · rwa [hself]
    · rw [hother ha']
      exact hS.unused ha'
  · rcases Sound.putNode_filed.mp ha with ⟨rfl, rfl⟩ | ha'
    · rw [hself]
      exact hcname
    · rw [hother ha']
      exact hS.cipherName ha'

lemma eraseNode {path : Bytes} {pl : ℕ} (h : S.eraseNode path pl = some S') :
    NodesNamed D new S' := by
  rw [Context.eraseNode] at h
  split at h
  · cases h
  rename_i set hset
  split at h
  case isFalse => cases h
  rename_i hmem
  cases h
  have hentry {path' : Bytes} {set' : Finset ℕ} (h : update S.openFiles path
      (if set.erase pl = ∅ then none else some (set.erase pl)) path' = some set') :
      set'.Nonempty ∧ ∃ old, S.openFiles path' = some old ∧ set' ⊆ old := by
    by_cases hpath : path' = path
    · subst hpath
      rw [update_self] at h
      split at h
      · cases h
      · rename_i hne
        cases h
        exact ⟨Finset.nonempty_iff_ne_empty.mpr hne, set, hset, Finset.erase_subset _ _⟩
    · rw [update_of_ne hpath] at h
      exact ⟨hS.filing.nonempty h, set', h, Finset.Subset.refl _⟩
  have hfiled {path' : Bytes} {pl' : ℕ} (h : ∃ set', update S.openFiles path
      (if set.erase pl = ∅ then none else some (set.erase pl)) path' = some set' ∧ pl' ∈ set') :
      S.Filed path' pl' := by
    obtain ⟨set', hset', hpl'⟩ := h
    obtain ⟨-, old, hold, hsub⟩ := hentry hset'
    exact ⟨old, hold, hsub hpl'⟩
  exact ⟨⟨fun h => (hentry h).1, fun ha hb => hS.filing.shared (hfiled ha) (hfiled hb),
    fun ha => hS.filing.named (hfiled ha)⟩, fun ha => hS.unused (hfiled ha),
    fun ha => hS.cipherName (hfiled ha)⟩

lemma opensFile (h : OpensFile D new S S') : NodesNamed D new S' := by
  cases h with
  | @opened path n pl node S₁ hn hne hpl h =>
    rw [DirNode.openNode] at h
    rcases hS.findOrCreate_cases path n with ⟨e, -, herror⟩ | ⟨pl', hpl', hfound⟩ |
      ⟨hopen, c, hpath, hmade⟩
    · rw [herror] at h
      cases h
    · rw [hfound] at h
      cases h
      exact hS.putNode (hS.unused hpl') hpl (fun pl'' h'' => hS.filing.shared h'' hpl')
        (hS.filing.named hpl') (hS.cipherName hpl')
    · rw [hmade] at h
      cases h
      refine (hS.setNode hn _).putNode hne hpl (fun pl' hpl' => ?_) ?_ ?_
      · exact absurd hpl' (not_filed hopen)
      · dsimp only
        rw [update_self]
      · dsimp only
        rw [update_self, hpath]
  | @not_opened path n opened S₁ hn h =>
    rw [DirNode.openNode] at h
    rcases hS.findOrCreate_cases path n with ⟨e, -, herror⟩ | ⟨pl', hpl', hfound⟩ |
      ⟨hopen, c, hpath, hmade⟩
    · rw [herror] at h
      cases h
      exact hS
    · rw [hfound] at h
      obtain ⟨-, rfl⟩ := Prod.mk.inj h
      exact hS
    · rw [hmade] at h
      obtain ⟨-, rfl⟩ := Prod.mk.inj h
      exact hS.setNode hn _
  | released h => exact hS.eraseNode h

lemma renameNode (fromP toP : Bytes) (mode : Bool) :
    NodesNamed D new (D.renameNode S fromP toP new .done mode).2 := by
  obtain ⟨⟨ok, S₁⟩, hrename⟩ : ∃ x, D.renameNode S fromP toP new .done mode = x := ⟨_, rfl⟩
  rw [hrename]
  cases ok with
  | true =>
    obtain ⟨hfiling, hunused⟩ := DirNode.renameNode_filing hS.filing hrename hS.unused
    refine ⟨hfiling, hunused, fun {path pl} hpl => ?_⟩
    obtain ⟨hplaceholder, hcases⟩ := DirNode.renameNode_cases hS.filing hrename
    rw [hplaceholder]
    rcases hcases with ⟨-, hopen, hnode⟩ | ⟨pl₀, c, hpl₀, hc, hopen, hnode⟩
    · have hold := (Filed.congr hopen).mp hpl
      rw [hnode _ (hS.unused hold)]
      exact hS.cipherName hold
    · rcases (renameNode_filed hpl₀).mp ((Filed.congr hopen).mp hpl) with ⟨rfl, hold⟩ |
        ⟨-, hne, hold⟩
      · rw [hnode, hS.filing.shared hold hpl₀, update_self]
        exact hc
      · rw [hnode, update_of_ne]
        · exact hS.cipherName hold
        · intro heq
          apply hne
          rw [← hS.filing.named hold, heq, hS.filing.named hpl₀]
  | false =>
    rw [DirNode.renameNode] at hrename
    have hset (N : FileNode) (c : Bytes) : N.setName toP c .done mode = (true, ⟨toP, c, c⟩) := by
      cases mode <;> rfl
    rcases hS.findOrCreate_cases fromP new with ⟨e, -, herror⟩ | ⟨pl, hpl, hfound⟩ |
      ⟨hopen, c, hpath, hmade⟩
    · rw [herror] at hrename
      cases hrename
      exact hS
    · rw [hfound] at hrename
      cases hto : D.cipherPath toP with
      | error e =>
        rw [hto] at hrename
        cases hrename
        exact hS
      | ok c =>
        simp only [hto, hset] at hrename
        cases hrename
    · rw [hmade] at hrename
      cases hto : D.cipherPath toP with
      | error e =>
        rw [hto] at hrename
        cases hrename
        exact hS.setNode hS.unused _
      | ok c' =>
        simp only [hto, hset] at hrename
        cases hrename

omit hS in
lemma renames (D : DirNode) {Good : Bytes → Prop} (hN : D.naming.CodesPaths Good)
    (hroot : D.rootDir.getLast? = some slash) (ε : Type) (new : ℕ) :
    DirNode.RenamesNodes (D.nodeTable ε new fun _ _ _ => .done).renameNode Good
      (NodesNamed D new) where
  disk _ _ _ _ := rfl
  nodes fromP toP mode V hV := hV.renameNode fromP toP mode
  named {fromP toP} mode {V} hV hfrom hto := by
    obtain ⟨q, -, -, -, hfromC, -⟩ := DirNode.cipherPath_coded hN hroot hfrom
    obtain ⟨q', -, -, -, htoC, -⟩ := DirNode.cipherPath_coded hN hroot hto
    have hset (N : FileNode) (c : Bytes) : N.setName toP c .done mode = (true, ⟨toP, c, c⟩) := by
      cases mode <;> rfl
    change (D.renameNode V.nodes fromP toP new .done mode).1 = true
    rcases hV.findOrCreate_cases fromP new with ⟨e, herror, -⟩ | ⟨pl, -, hfound⟩ | ⟨-, c, -, hmade⟩
    · rw [hfromC] at herror
      cases herror
    · simp only [DirNode.renameNode, hfound, htoC, hset]
    · simp only [DirNode.renameNode, hmade, htoC, hset]

end NodesNamed

namespace DirNode

variable {ε : Type} (publicFilesystem : Bool)

/-- The volume of a directory without external IVs, where `setName` has no `setIV` to call. -/
def mounted (D : DirNode) (contents : FileContents ε) (new : ℕ) : Mount ε Context :=
  ⟨D, D.nodeTable ε new fun _ _ _ => .done, contents, publicFilesystem, false⟩

def plain (D : DirNode) (contents : FileContents ε) : PlainVolume ε :=
  ⟨contents, publicFilesystem, false, D.naming.Clash⟩

def configOnly : FileTree Bytes Bytes :=
  .ofEntries [([], .dir), ([[114]], .dir),
    ([[114], [46, 101, 110, 99, 102, 115, 54, 46, 120, 109, 108]], .file [1])]
    (by simp [List.nodup_cons]) (by simp)

def nothing : FileTree Bytes Bytes := .ofEntries [([], .dir)] (by simp) (by simp)

lemma configOnly_shows (R : Bytes → Bytes → Prop) :
    OpenRun.maskVolume.Shows R nothing configOnly := by
  have hroot : components OpenRun.maskVolume.rootDir = [[114]] := by decide
  refine ⟨List.mem_cons_self, fun h => ?_, fun {q e'} h => ?_⟩
  · obtain ⟨rfl, rfl⟩ := Prod.mk.inj (List.mem_singleton.mp h)
    refine ⟨[], .dir, OpenRun.maskVolume.naming.pathCode.nil, ?_, .dir⟩
    rw [hroot]
    exact List.mem_cons_of_mem _ List.mem_cons_self
  · rw [hroot] at h
    rcases List.mem_cons.mp h with h | h
    · cases (Prod.mk.inj h).1
    · rcases List.mem_cons.mp h with h | h
      · obtain ⟨hq, -⟩ := Prod.mk.inj h
        refine .inl ⟨[], List.mem_singleton.mpr rfl, ?_⟩
        have hsame : [[114]] ++ q = [[114]] ++ [] := hq
        rw [List.append_cancel_left hsame]
        exact OpenRun.maskVolume.naming.pathCode.nil
      · obtain ⟨hq, -⟩ := Prod.mk.inj (List.mem_singleton.mp h)
        refine .inr ⟨_, [], (List.cons.inj hq).2, ?_⟩
        have herror : (OpenRun.maskVolume.naming.decodePathIV
            [46, 101, 110, 99, 102, 115, 54, 46, 120, 109, 108] 0).toOption = none := by
          decide +kernel
        cases hdec : OpenRun.maskVolume.naming.decodePathIV
            [46, 101, 110, 99, 102, 115, 54, 46, 120, 109, 108] 0 with
        | error error => exact ⟨error, hdec⟩
        | ok res =>
          rw [hdec] at herror
          cases herror

def byLength : FileContents Bytes := ⟨[], fun c => some c.length⟩

def willing : Refusals := ⟨none, fun _ => none, allAllowed⟩

lemma proper_willing {r : MountRequest} {reply : MountReply}
    (hpaths : ∀ path ∈ r.paths, PlainPath path) (hr : ∀ path, r ≠ .rmdir path) :
    (MountEvent.request (ε := Bytes) r willing reply).Proper PlainPath :=
  ⟨hpaths, fun path h => absurd h (hr path), fun _ _ _ => rfl⟩

def directoryRenamed : List (MountEvent Bytes) :=
  [.request (.mkdir [47, 100]) willing (.code 0),
    .request (.mknod [47, 100, 47, 120] true) willing (.code 0),
    .request (.rename [47, 100] [47, 101]) willing (.renamed .moved),
    .request (.getdir [47, 101]) willing (.names [[46], [46, 46], [120]])]

end DirNode

end EncFS
