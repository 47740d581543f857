import EncFS.DirNode.Descendants

set_option autoImplicit false

namespace EncFS

namespace RenameOp

variable {ε σ : Type} {renameNode : NodeRename ε σ} {A : UnixAnswers} {el : RenameEl}
  {l l₁ l₂ done : List RenameEl} {V V' : Volume ε σ}

lemma apply_cons (h : apply renameNode A (el :: l) V = (true, done, V')) :
    ∃ V₁ V₂ done', renameNode el.oldPName el.newPName true V = (true, V₁) ∧
      V₁.rename A el.oldCName el.newCName = some V₂ ∧
      apply renameNode A l V₂ = (true, done', V') := by
  rw [apply] at h
  split at h
  · cases h
  · rename_i V₁ hnode
    split at h
    · cases h
    · rename_i V₂ hmoved
      obtain ⟨hok, -, rfl⟩ : (apply renameNode A l V₂).1 = true ∧ _ ∧
          (apply renameNode A l V₂).2.2 = V' := by
        simpa [Prod.ext_iff] using h
      exact ⟨V₁, V₂, (apply renameNode A l V₂).2.1, hnode, hmoved, Prod.ext hok rfl⟩

lemma apply_append (h : apply renameNode A (l₁ ++ l₂) V = (true, done, V')) :
    ∃ V₁ done₁ done₂, apply renameNode A l₁ V = (true, done₁, V₁) ∧
      apply renameNode A l₂ V₁ = (true, done₂, V') := by
  induction l₁ generalizing V done with
  | nil => exact ⟨V, [], done, rfl, h⟩
  | cons el l₁ ih =>
    obtain ⟨V₁, V₂, done', hnode, hmoved, hrest⟩ := apply_cons h
    obtain ⟨V₃, done₁, done₂, hfirst, hlast⟩ := ih hrest
    refine ⟨V₃, el :: done₁, done₂, ?_, hlast⟩
    simp only [apply, hnode, hmoved, hfirst]

lemma apply_invariant {P : σ → Prop} (h : apply renameNode A l V = (true, done, V'))
    (hstep : ∀ el ∈ l, ∀ V V₁, renameNode el.oldPName el.newPName true V = (true, V₁) → P V.nodes →
      P V₁.nodes) (hP : P V.nodes) : P V'.nodes := by
  induction l generalizing V done with
  | nil =>
    obtain ⟨-, -, rfl⟩ := h
    exact hP
  | cons el l ih =>
    obtain ⟨V₁, V₂, done', hnode, hmoved, hrest⟩ := apply_cons h
    have hP₁ := hstep el List.mem_cons_self V V₁ hnode hP
    have hnodes : V₂.nodes = V₁.nodes := (Volume.rename_cases hmoved).2
    refine ih hrest (fun el hel => hstep el (List.mem_cons_of_mem _ hel)) ?_
    rw [hnodes]
    exact hP₁

end RenameOp

namespace DirNode

open NameIO

variable {D : DirNode} {isDirectory : Bytes → Bool} {opendir : Bytes → Option (List Bytes)}

lemma renameEntries_dots {recurse : (fromP toP : Bytes) → Option (List RenameEl)}
    {sourcePath fromP toP : Bytes} {a b : UInt64} (dir : List Bytes) :
    D.renameEntries isDirectory recurse sourcePath fromP toP a b ([dot] :: [dot, dot] :: dir) =
      D.renameEntries isDirectory recurse sourcePath fromP toP a b dir := by
  rw [renameEntries, if_pos (.inl rfl), renameEntries, if_pos (.inr rfl)]

section Entries

variable {recurse : (fromP toP : Bytes) → Option (List RenameEl)}
  {sourcePath fromP toP d_name : Bytes} {fromIV toIV : UInt64} {dir : List Bytes}
  {l : List RenameEl}

lemma renameEntries_cons
    (h : D.renameEntries isDirectory recurse sourcePath fromP toP fromIV toIV (d_name :: dir) =
      some l) :
    ((isDots d_name = true ∨ ∃ e, D.naming.decodePathIV d_name fromIV = .error e) ∧
      D.renameEntries isDirectory recurse sourcePath fromP toP fromIV toIV dir = some l) ∨
    ∃ n iv newName iv' els rest, isDots d_name = false ∧
      D.naming.decodePathIV d_name fromIV = .ok (n, iv) ∧
      D.naming.encodePathIV n toIV = .ok (newName, iv') ∧
      (if isDirectory (sourcePath ++ slash :: d_name) then
        recurse (fromP ++ slash :: n) (toP ++ slash :: n) else some []) = some els ∧
      D.renameEntries isDirectory recurse sourcePath fromP toP fromIV toIV dir = some rest ∧
      l = els ++ ⟨sourcePath ++ slash :: d_name, sourcePath ++ slash :: newName,
        fromP ++ slash :: n, toP ++ slash :: n,
        isDirectory (sourcePath ++ slash :: d_name)⟩ :: rest := by
  rw [renameEntries] at h
  split at h
  · rename_i hdots
    exact .inl ⟨.inl (isDots_iff.mpr hdots), h⟩
  · rename_i hdots
    have hdots' : isDots d_name = false := by
      rw [← isDots_iff] at hdots
      exact Bool.eq_false_iff.mpr hdots
    split at h
    · rename_i e hdec
      exact .inl ⟨.inr ⟨e, hdec⟩, h⟩
    · rename_i n iv hdec
      split at h
      · cases h
      · rename_i newName iv' henc
        have hbind : ((if isDirectory (sourcePath ++ slash :: d_name) then
            recurse (fromP ++ slash :: n) (toP ++ slash :: n) else some []).bind fun els =>
            (D.renameEntries isDirectory recurse sourcePath fromP toP fromIV toIV dir).bind
              fun rest => some (els ++ ⟨sourcePath ++ slash :: d_name,
                sourcePath ++ slash :: newName, fromP ++ slash :: n, toP ++ slash :: n,
                isDirectory (sourcePath ++ slash :: d_name)⟩ :: rest)) = some l := by
          cases hisdir : isDirectory (sourcePath ++ slash :: d_name) with
          | true =>
            simp only [hisdir, if_true] at h ⊢
            exact h
          | false =>
            simp only [hisdir, Bool.false_eq_true, if_false] at h ⊢
            exact h
        obtain ⟨els, hels, hbind⟩ := Option.bind_eq_some_iff.mp hbind
        obtain ⟨rest, hrest, hl⟩ := Option.bind_eq_some_iff.mp hbind
        exact .inr ⟨n, iv, newName, iv', els, rest, hdots', hdec, henc, hels, hrest,
          (Option.some.inj hl).symm⟩

end Entries

lemma genRenameList_succ {fuel : ℕ} {fromP toP : Bytes} {l : List RenameEl}
    (h : D.genRenameList opendir isDirectory (fuel + 1) fromP toP = some l) :
    ∃ q a r b, D.naming.encodePathIV fromP 0 = .ok (q, a) ∧
      D.naming.encodePathIV toP 0 = .ok (r, b) ∧ (a = b ∧ l = [] ∨
      a ≠ b ∧ ∃ dir, opendir (D.rootDir ++ q) = some dir ∧
        D.renameEntries isDirectory (D.genRenameList opendir isDirectory fuel) (D.rootDir ++ q)
          fromP toP a b dir = some l) := by
  rw [genRenameList] at h
  split at h
  · rename_i q a r b hfrom hto
    refine ⟨q, a, r, b, hfrom, hto, ?_⟩
    split at h
    · rename_i hiv
      exact .inl ⟨hiv, (Option.some.inj h).symm⟩
    · rename_i hiv
      split at h
      · cases h
      · rename_i dir hdir
        exact .inr ⟨hiv, dir, hdir, h⟩
  · cases h

lemma rename_moved {ε σ : Type} {renameNode : NodeRename ε σ} {A : UnixAnswers} {fuel : ℕ}
    {fromP toP : Bytes} {V V' : Volume ε σ}
    (h : D.rename renameNode A fuel fromP toP V = (.moved, V')) :
    ∃ fromC toC l done V₁ V₂, D.cipherPath fromP = .ok fromC ∧ D.cipherPath toP = .ok toC ∧
      (if D.hasDirectoryNameDependency ∧ V.isDirectory fromC then
        D.genRenameList (V.opendir A) V.isDirectory fuel fromP toP else some []) = some l ∧
      RenameOp.apply renameNode A l V = (true, done, V₁) ∧
      renameNode fromP toP true V₁ = (true, V₂) ∧ V₂.rename A fromC toC = some V' := by
  have htop {fromC toC : Bytes} {l : List RenameEl} {V₁ : Volume ε σ}
      (h : renameTop renameNode A fromP toP fromC toC l V₁ = (.moved, V')) :
      ∃ V₂, renameNode fromP toP true V₁ = (true, V₂) ∧ V₂.rename A fromC toC = some V' := by
    rw [renameTop] at h
    split at h
    · cases h
    · rename_i V₂ hnode
      refine ⟨V₂, hnode, ?_⟩
      split at h
      · rename_i V₃ hmoved
        obtain ⟨-, rfl⟩ := Prod.mk.inj h
        exact hmoved
      · split at h
        · cases h
        · cases h
  rw [rename] at h
  split at h
  · rename_i fromC toC hfrom hto
    split at h
    · rename_i hdir
      split at h
      · cases h
      · rename_i l hlist
        split at h
        · cases h
        · rename_i done V₁ happly
          obtain ⟨V₂, hnode, hmoved⟩ := htop h
          exact ⟨fromC, toC, l, done, V₁, V₂, hfrom, hto, by rw [if_pos hdir, hlist], happly, hnode,
            hmoved⟩
    · rename_i hdir
      obtain ⟨V₂, hnode, hmoved⟩ := htop h
      exact ⟨fromC, toC, [], [], V, V₂, hfrom, hto, by rw [if_neg hdir], rfl, hnode, hmoved⟩
  · cases h

def pathIV (D : DirNode) (path : Bytes) : Option UInt64 :=
  (D.naming.encodePathIV path 0).toOption.map Prod.snd

/-- In every directory on the way to a descendant the names have another IV after the rename. -/
def Rekeyed (D : DirNode) : (fromP toP : Bytes) → List Bytes → Prop
  | _, _, [] => True
  | fromP, toP, n :: x =>
    D.pathIV fromP ≠ D.pathIV toP ∧ Rekeyed D (fromP ++ slash :: n) (toP ++ slash :: n) x

instance : (fromP toP : Bytes) → (x : List Bytes) → Decidable (Rekeyed D fromP toP x)
  | _, _, [] => .isTrue trivial
  | fromP, toP, n :: x =>
    have := instDecidableRekeyed (fromP ++ slash :: n) (toP ++ slash :: n) x
    inferInstanceAs (Decidable (_ ∧ _))

lemma pathIV_eq {path q : Bytes} {iv : UInt64} (h : D.naming.encodePathIV path 0 = .ok (q, iv)) :
    D.pathIV path = some iv := by
  rw [pathIV, h]
  rfl

section Entries

variable {recurse : (fromP toP : Bytes) → Option (List RenameEl)}
  {sourcePath fromP toP : Bytes} {a b : UInt64} {dir : List Bytes} {l : List RenameEl}

lemma renameEntries_mem
    (h : D.renameEntries isDirectory recurse sourcePath fromP toP a b dir = some l)
    {el : RenameEl} (hel : el ∈ l) :
    ∃ d_name ∈ dir, ∃ n iv, isDots d_name = false ∧
      D.naming.decodePathIV d_name a = .ok (n, iv) ∧
      (el.oldPName = fromP ++ slash :: n ∧ el.newPName = toP ++ slash :: n ∨
        ∃ els, recurse (fromP ++ slash :: n) (toP ++ slash :: n) = some els ∧ el ∈ els) := by
  induction dir generalizing l with
  | nil =>
    cases h
    cases hel
  | cons d_name dir ih =>
    rcases renameEntries_cons h with ⟨-, htail⟩ |
      ⟨n, iv, newName, iv', els, rest, hdots, hdec, -, hels, htail, rfl⟩
    · obtain ⟨d, hd, hspec⟩ := ih htail hel
      exact ⟨d, List.mem_cons_of_mem d_name hd, hspec⟩
    · rcases List.mem_append.mp hel with hin | hin
      · refine ⟨d_name, List.mem_cons_self, n, iv, hdots, hdec, .inr ⟨els, ?_, hin⟩⟩
        split at hels
        · exact hels
        · cases hels
          cases hin
      · rcases List.mem_cons.mp hin with rfl | hin
        · exact ⟨d_name, List.mem_cons_self, n, iv, hdots, hdec, .inl ⟨rfl, rfl⟩⟩
        · obtain ⟨d, hd, hspec⟩ := ih htail hin
          exact ⟨d, List.mem_cons_of_mem d_name hd, hspec⟩

lemma mem_renameEntries
    (h : D.renameEntries isDirectory recurse sourcePath fromP toP a b dir = some l)
    {d_name n : Bytes} {iv : UInt64} (hd : d_name ∈ dir) (hdots : isDots d_name = false)
    (hdec : D.naming.decodePathIV d_name a = .ok (n, iv)) :
    (∃ el ∈ l, el.oldPName = fromP ++ slash :: n ∧ el.newPName = toP ++ slash :: n) ∧
      ∃ els, els ⊆ l ∧ (if isDirectory (sourcePath ++ slash :: d_name) then
        recurse (fromP ++ slash :: n) (toP ++ slash :: n) else some []) = some els := by
  induction dir generalizing l with
  | nil => cases hd
  | cons d dir ih =>
    rcases renameEntries_cons h with ⟨hskip, htail⟩ |
      ⟨n', iv₁, newName, iv', els, rest, -, hdec', -, hels, htail, rfl⟩
    · have hne : d_name ≠ d := by
        rintro rfl
        rcases hskip with hskip | ⟨e, hskip⟩
        · rw [hdots] at hskip
          cases hskip
        · rw [hdec] at hskip
          cases hskip
      exact ih htail ((List.mem_cons.mp hd).resolve_left hne)
    · rcases List.mem_cons.mp hd with rfl | hd
      · rw [hdec] at hdec'
        obtain ⟨rfl, rfl⟩ := Prod.mk.inj (Except.ok.inj hdec')
        exact ⟨⟨_, List.mem_append_right _ List.mem_cons_self, rfl, rfl⟩, els,
          List.subset_append_left _ _, hels⟩
      · obtain ⟨⟨el, hel, hnames⟩, els', hsub, hels'⟩ := ih htail hd
        have hmem (e : RenameEl) : rest ⊆ els ++ e :: rest := fun x hx =>
          List.mem_append_right els (List.mem_cons_of_mem e hx)
        exact ⟨⟨el, hmem _ hel, hnames⟩, els', List.Subset.trans hsub (hmem _), hels'⟩

end Entries

section Tree

variable {ε σ : Type} {V : Volume ε σ} {A : UnixAnswers} (hD : D.naming.Lawful)
  (hforward : D.naming.reverseEncryption = false) (hroot : D.rootDir.getLast? = some slash)
include hD hforward hroot

omit hD hforward in
lemma components_root (q : Bytes) :
    components (D.rootDir ++ q) = components D.rootDir ++ components q :=
  components_of_slash_end hroot q

lemma mem_genRenameList {fuel : ℕ} {fromP toP q : Bytes} {iv : UInt64} {l : List RenameEl}
    (h : D.genRenameList (V.opendir A) V.isDirectory fuel fromP toP = some l)
    (hnull : (0 : UInt8) ∉ fromP) (hfrom : D.naming.encodePathIV fromP 0 = .ok (q, iv))
    {x es : List Bytes} (hne : x ≠ []) (hx : ∀ n ∈ x, ValidName n) (hcoded : D.naming.Coded iv x es)
    (hmem : components (D.rootDir ++ q) ++ es ∈ V.disk.paths) (hrekeyed : Rekeyed D fromP toP x) :
    ∃ el ∈ l, el.oldPName = below fromP x ∧ el.newPName = below toP x := by
  induction x generalizing fuel fromP toP q iv l es with
  | nil => exact absurd rfl hne
  | cons n x ih =>
    cases fuel with
    | zero => cases h
    | succ fuel =>
      obtain ⟨q', a, r, b, hfrom', hto, hcases⟩ := genRenameList_succ h
      rw [hfrom] at hfrom'
      obtain ⟨rfl, rfl⟩ := Prod.mk.inj (Except.ok.inj hfrom')
      obtain ⟨hne_iv, dir, hdir, hentries⟩ := hcases.resolve_left fun heq => by
        apply hrekeyed.1
        rw [pathIV_eq hfrom, pathIV_eq hto, heq.1]
      obtain ⟨-, rfl⟩ := Volume.opendir_cases hdir
      cases hcoded with
      | @cons _ iv₁ _ e _ es hne_e hslash hdots henc hdec hrest =>
        have hn := hx n List.mem_cons_self
        obtain ⟨e', iv', -, -, -, -, henc', -, hchild⟩ :=
          encodePathIV_child hD hforward hnull hfrom hn
        rw [henc] at henc'
        obtain ⟨rfl, rfl⟩ := Prod.mk.inj (Except.ok.inj henc')
        have hcons : components (D.rootDir ++ q) ++ e :: es =
            components (D.rootDir ++ q) ++ [e] ++ es := List.append_cons _ e es
        rw [hcons] at hmem
        have hname : e ∈ V.disk.names (components (D.rootDir ++ q)) :=
          FileTree.mem_names.mpr (FileTree.mem_of_above hmem (List.prefix_append _ _))
        obtain ⟨hel, els, hsub, hels⟩ := mem_renameEntries hentries
          (List.mem_cons_of_mem _ (List.mem_cons_of_mem _ hname)) hdots hdec
        by_cases hnil : x = []
        · subst hnil
          simp only [below_singleton]
          exact hel
        · have hes : es ≠ [] := by
            rintro rfl
            cases hrest
            exact hnil rfl
          have hisdir : V.isDirectory (D.rootDir ++ q ++ slash :: e) = true := by
            rw [Volume.isDirectory, components_append, components_name hne_e hslash]
            exact FileTree.isDirectory_iff.mpr (FileTree.dir_of_append hmem hes)
          rw [hisdir, if_pos rfl] at hels
          have hnull' : (0 : UInt8) ∉ fromP ++ slash :: n := by
            simp only [List.mem_append, List.mem_cons, not_or]
            exact ⟨hnull, by decide, hn.no_null⟩
          have hmem' : components (D.rootDir ++ childPath q e) ++ es ∈ V.disk.paths := by
            rwa [components_root hroot, components_childPath q hne_e hslash, ← List.append_assoc,
              ← components_root hroot]
          obtain ⟨el, hel, hold, hnew⟩ := ih hels hnull' hchild hnil
            (fun m hm => hx m (List.mem_cons_of_mem n hm)) hrest hmem' hrekeyed.2
          refine ⟨el, hsub hel, ?_, ?_⟩
          · rw [hold, below_cons]
          · rw [hnew, below_cons]

/-- Every entry that decodes is the encoding of its name. -/
def Canonical (D : DirNode) (T : FileTree Bytes ε) : Prop :=
  ∀ d q iv e n iv', (0 : UInt8) ∉ d → D.naming.encodePathIV d 0 = .ok (q, iv) →
    components (D.rootDir ++ q) ++ [e] ∈ T.paths → isDots e = false →
    D.naming.decodePathIV e iv = .ok (n, iv') → ValidName n ∧ D.naming.encodePathIV n iv = .ok (e, iv')

omit hD hforward hroot in
lemma genRenameList_below {fuel : ℕ} {fromP toP : Bytes} {l : List RenameEl}
    (h : D.genRenameList (V.opendir A) V.isDirectory fuel fromP toP = some l) {el : RenameEl}
    (hel : el ∈ l) :
    ∃ x, x ≠ [] ∧ Rekeyed D fromP toP x ∧ el.oldPName = below fromP x ∧ el.newPName = below toP x ∧
      (D.Canonical V.disk → (0 : UInt8) ∉ fromP → ∀ n ∈ x, ValidName n) := by
  induction fuel generalizing fromP toP l with
  | zero => cases h
  | succ fuel ih =>
    obtain ⟨q, a, r, b, hfrom, hto, ⟨-, rfl⟩ | ⟨hiv, dir, hdir, hentries⟩⟩ := genRenameList_succ h
    · cases hel
    · have hne : D.pathIV fromP ≠ D.pathIV toP := by
        rw [pathIV_eq hfrom, pathIV_eq hto]
        exact fun heq => hiv (Option.some.inj heq)
      obtain ⟨-, rfl⟩ := Volume.opendir_cases hdir
      obtain ⟨e, he, n, iv, hdots, hdec, hcases⟩ := renameEntries_mem hentries hel
      have hname : e ∈ V.disk.names (components (D.rootDir ++ q)) := by
        rw [← Bool.not_eq_true, isDots_iff] at hdots
        rcases List.mem_cons.mp he with rfl | he
        · exact absurd (.inl rfl) hdots
        · exact (List.mem_cons.mp he).resolve_left fun h => hdots (.inr h)
      have hvalid (hcanon : D.Canonical V.disk) (hnull : (0 : UInt8) ∉ fromP) : ValidName n :=
        (hcanon fromP q a e n iv hnull hfrom (FileTree.mem_names.mp hname) hdots hdec).1
      rcases hcases with ⟨hold, hnew⟩ | ⟨els, hels, hin⟩
      · refine ⟨[n], List.cons_ne_nil n [], ⟨hne, trivial⟩, ?_, ?_, fun hcanon hnull m hm => ?_⟩
        · rw [hold, below_singleton]
        · rw [hnew, below_singleton]
        · rw [List.mem_singleton.mp hm]
          exact hvalid hcanon hnull
      · obtain ⟨x, -, hrekeyed, hold, hnew, hx⟩ := ih hels hin
        refine ⟨n :: x, List.cons_ne_nil n x, ⟨hne, hrekeyed⟩, ?_, ?_, fun hcanon hnull m hm => ?_⟩
        · rw [hold, below_cons]
        · rw [hnew, below_cons]
        · have hn := hvalid hcanon hnull
          have hnull' : (0 : UInt8) ∉ fromP ++ slash :: n := by
            simp only [List.mem_append, List.mem_cons, not_or]
            exact ⟨hnull, by decide, hn.no_null⟩
          rcases List.mem_cons.mp hm with rfl | hm
          · exact hn
          · exact hx hcanon hnull' m hm

end Tree

end DirNode

end EncFS
