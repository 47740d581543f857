import EncFS.DirNode.PlainTree

set_option autoImplicit false

namespace EncFS

lemma NameIO.PlainPath.concat {path n : Bytes} (h : NameIO.PlainPath path)
    (hn : ValidName n) : NameIO.PlainPath (path ++ slash :: n) where
  no_null := by
    simp only [List.mem_append, List.mem_cons, not_or]
    exact ⟨h.no_null, by decide, hn.no_null⟩
  valid m hm := by
    rw [components_append, components_name hn.ne_nil hn.no_slash, List.mem_append] at hm
    exact hm.elim (h.valid m) fun hm => List.mem_singleton.mp hm ▸ hn

namespace NameIO

variable {ε : Type} (N : NameIO) (P : FileTree Bytes ε)

/-- The code that a name below gets by the rename is that of another name of its directory before. -/
structure ClashAt (fromP toP : Bytes) (x : List Bytes) (n m : Bytes) : Prop where
  ne : n ≠ m
  mem : components fromP ++ x ++ [n] ∈ P.paths
  other : components fromP ++ x ++ [m] ∈ P.paths
  same : ∃ q r a b e iv iv', N.encodePathIV (below fromP x) 0 = .ok (q, a) ∧
    N.encodePathIV (below toP x) 0 = .ok (r, b) ∧
    N.encodePathIV n b = .ok (e, iv) ∧ N.encodePathIV m a = .ok (e, iv')

/-- The rename of a directory has to go through what is below it, and meets a clash there. -/
def Clash (fromP toP : Bytes) : Prop :=
  N.chainedNameIV = true ∧ P.isDirectory (components fromP) = true ∧
    ∃ x n m, N.ClashAt P fromP toP x n m

end NameIO

namespace RenameOp

variable {ε σ : Type} {renameNode : NodeRename ε σ} {A : UnixAnswers} {V V₁ V₂ V' : Volume ε σ}

lemma apply_of_cons {el : RenameEl} {l done : List RenameEl}
    (hnode : renameNode el.oldPName el.newPName true V = (true, V₁))
    (hmoved : V₁.rename A el.oldCName el.newCName = some V₂)
    (hrest : apply renameNode A l V₂ = (true, done, V')) :
    apply renameNode A (el :: l) V = (true, el :: done, V') := by
  simp only [apply, hnode, hmoved, hrest]

lemma apply_of_append {l₁ l₂ done₁ done₂ : List RenameEl}
    (h₁ : apply renameNode A l₁ V = (true, done₁, V₁))
    (h₂ : apply renameNode A l₂ V₁ = (true, done₂, V₂)) :
    apply renameNode A (l₁ ++ l₂) V = (true, done₁ ++ done₂, V₂) := by
  induction l₁ generalizing V done₁ with
  | nil =>
    cases h₁
    exact h₂
  | cons el l₁ ih =>
    obtain rfl := apply_done h₁
    obtain ⟨V₃, V₄, done, hnode, hmoved, hrest⟩ := apply_cons h₁
    obtain rfl := apply_done hrest
    exact apply_of_cons hnode hmoved (ih hrest)

end RenameOp

namespace DirNode

open NameIO FileTree

variable {ε σ : Type} {D : DirNode}

def Clear (D : DirNode) (T : FileTree Bytes ε) (fromP toP : Bytes) : Prop :=
  ∀ {x q r a b d n iv d' iv'}, (∀ n ∈ x, ValidName n) →
    D.naming.encodePathIV (below fromP x) 0 = .ok (q, a) →
    D.naming.encodePathIV (below toP x) 0 = .ok (r, b) → isDots d = false →
    D.naming.decodePathIV d a = .ok (n, iv) → D.naming.encodePathIV n b = .ok (d', iv') →
    components (D.rootDir ++ q) ++ [d] ∈ T.paths → d' ≠ d →
    components (D.rootDir ++ q) ++ [d'] ∉ T.paths

lemma Clear.concat {T : FileTree Bytes ε} {fromP toP n : Bytes} (h : D.Clear T fromP toP)
    (hn : ValidName n) : D.Clear T (fromP ++ slash :: n) (toP ++ slash :: n) := by
  intro x q r a b d m iv d' iv' hx hq hr
  rw [← below_cons] at hq hr
  refine h (fun k hk => ?_) hq hr
  rcases List.mem_cons.mp hk with rfl | hk
  · exact hn
  · exact hx k hk

lemma renameEntries_isSome {isDirectory : Bytes → Bool}
    {recurse : (fromP toP : Bytes) → Option (List RenameEl)} {sourcePath fromP toP : Bytes}
    {a b : UInt64} {dir : List Bytes}
    (h : ∀ d ∈ dir, isDots d = false → ∀ n iv, D.naming.decodePathIV d a = .ok (n, iv) →
      (∃ d' iv', D.naming.encodePathIV n b = .ok (d', iv')) ∧
      (isDirectory (sourcePath ++ slash :: d) = true →
        (recurse (fromP ++ slash :: n) (toP ++ slash :: n)).isSome)) :
    (D.renameEntries isDirectory recurse sourcePath fromP toP a b dir).isSome := by
  induction dir with
  | nil => rfl
  | cons d dir ih =>
    have hrest := ih fun d' hd' => h d' (List.mem_cons_of_mem d hd')
    obtain ⟨rest, hrest⟩ := Option.isSome_iff_exists.mp hrest
    rw [renameEntries]
    by_cases hdots : d = [dot] ∨ d = [dot, dot]
    · rw [if_pos hdots, hrest]
      rfl
    · have hdots' : isDots d = false := Bool.eq_false_iff.mpr fun hd => hdots (isDots_iff.mp hd)
      rw [if_neg hdots]
      cases hdec : D.naming.decodePathIV d a with
      | error error =>
        dsimp only
        rw [hrest]
        rfl
      | ok res =>
        obtain ⟨n, iv⟩ := res
        obtain ⟨⟨d', iv', henc⟩, hbelow⟩ := h d List.mem_cons_self hdots' n iv hdec
        simp only [henc, hrest]
        cases hisdir : isDirectory (sourcePath ++ slash :: d) with
        | true =>
          obtain ⟨els, hels⟩ := Option.isSome_iff_exists.mp (hbelow hisdir)
          simp only [if_true, hels]
          rfl
        | false => rfl

section Forward

variable {V₀ : Volume ε σ} {A : UnixAnswers} (hD : D.naming.Lawful)
  (hforward : D.naming.reverseEncryption = false) (hroot : D.rootDir.getLast? = some slash)
  (hcanon : D.Canonical V₀.disk)
include hD hforward hroot hcanon

lemma genRenameList_isSome (hopens : ∀ name, A.opens name = true) {fuel : ℕ}
    {fromP toP q r : Bytes} {a b : UInt64} (hfrom : PlainPath fromP) (hto : PlainPath toP)
    (hq : D.naming.encodePathIV fromP 0 = .ok (q, a)) (hr : D.naming.encodePathIV toP 0 = .ok (r, b))
    (hdir : V₀.isDirectory (D.rootDir ++ q) = true)
    (hfuel : V₀.disk.entries.length ≤ fuel + (components (D.rootDir ++ q)).length) :
    (D.genRenameList (V₀.opendir A) V₀.isDirectory fuel fromP toP).isSome := by
  induction fuel generalizing fromP toP q r a b with
  | zero =>
    have hlength := length_lt (V₀.disk.mem_paths.mpr ⟨_, isDirectory_iff.mp hdir⟩)
    omega
  | succ fuel ih =>
    rw [genRenameList, hq, hr]
    dsimp only
    split
    · rfl
    · rename_i hab
      rw [Volume.opendir, if_pos ⟨hopens _, hdir⟩]
      dsimp only
      rw [renameEntries_dots]
      refine renameEntries_isSome fun d hd hdots n iv hdec => ?_
      have hmem := mem_names.mp hd
      obtain ⟨hn, -⟩ := hcanon fromP q a d n iv hfrom.no_null hq hmem hdots hdec
      obtain ⟨d', b', -, -, -, -, henc, -, -⟩ := encodePathIV_child hD hforward hto.no_null hr hn
      have hnames := entryNames hD hforward hroot hcanon hfrom.no_null hto.no_null hq hr hmem hdots
        hdec henc
      refine ⟨⟨d', b', henc⟩, fun hisdir => ?_⟩
      refine ih (hfrom.concat hn) (hto.concat hn) hnames.oldPath hnames.newPath ?_ ?_
      · rw [Volume.isDirectory, hnames.oldCName] at hisdir
        rwa [Volume.isDirectory, hnames.child]
      · rw [hnames.child, List.length_append, List.length_singleton]
        omega

omit hroot in
lemma free_of_clear {fromP toP q r d n d' : Bytes} {a b a' b' : UInt64} {P : List Bytes}
    {T T' : FileTree Bytes ε} (hfrom : (0 : UInt8) ∉ fromP) (hto : (0 : UInt8) ∉ toP)
    (hq : D.naming.encodePathIV fromP 0 = .ok (q, a)) (hr : D.naming.encodePathIV toP 0 = .ok (r, b))
    (hagree : AgreeUnder (components (D.rootDir ++ q)) V₀.disk T)
    (hT : Relocated (underPath (components (D.rootDir ++ q)) (D.recodeIn P a b)) T T')
    (hd : components (D.rootDir ++ q) ++ [d] ∈ T.paths) (hP : d ∉ P) (hdots : isDots d = false)
    (hdec : D.naming.decodePathIV d a = .ok (n, a')) (henc : D.naming.encodePathIV n b = .ok (d', b'))
    (hfree : components (D.rootDir ++ q) ++ [d'] ∉ T.paths) :
    components (D.rootDir ++ q) ++ [d'] ∉ T'.paths := by
  intro hin
  obtain ⟨e, he⟩ := T'.mem_paths.mp hin
  obtain ⟨p, hp, heq⟩ := hT.mem_iff.mp he
  have hpath := T.mem_paths.mpr ⟨e, hp⟩
  by_cases hdir : components (D.rootDir ++ q) <+: p
  · obtain ⟨s, rfl⟩ := hdir
    rw [underPath_append] at heq
    have heq := List.append_cancel_left heq
    cases s with
    | nil => cases heq
    | cons c s =>
      have hc : components (D.rootDir ++ q) ++ [c] ∈ T.paths :=
        mem_of_above hpath ⟨s, by rw [List.append_assoc]; rfl⟩
      have hhead {g : List Bytes} (hg : c :: g = [d']) : False :=
        hfree ((List.cons.inj hg).1 ▸ hc)
      rw [recodeIn] at heq
      split at heq
      · rename_i hcP
        rcases D.recode_cases a b c with hsame | ⟨m, iv, c', iv', hdots', hdec', henc', hhead'⟩
        · exact hhead ((hsame s).symm.trans heq)
        · rw [hhead'] at heq
          obtain ⟨rfl, -⟩ := List.cons.inj heq
          obtain ⟨hn, hback⟩ := hcanon fromP q a d n a' hfrom hq (hagree.mem_paths.mp hd) hdots hdec
          obtain ⟨hm, hback'⟩ :=
            hcanon fromP q a c m iv hfrom hq (hagree.mem_paths.mp hc) hdots' hdec'
          obtain ⟨e₁, iv₁, -, -, -, -, henc₁, hdec₁, -⟩ := encodePathIV_child hD hforward hto hr hn
          obtain ⟨e₂, iv₂, -, -, -, -, henc₂, hdec₂, -⟩ := encodePathIV_child hD hforward hto hr hm
          rw [henc] at henc₁
          rw [henc'] at henc₂
          cases henc₁
          cases henc₂
          rw [hdec₁] at hdec₂
          cases hdec₂
          rw [hback] at hback'
          cases hback'
          exact hP hcP
      · exact hhead heq
  · rw [underPath_outside hdir] at heq
    exact hfree (heq ▸ hpath)

end Forward

section Applies

variable {renameNode : NodeRename ε σ} {I : σ → Prop} {A : UnixAnswers} {V₀ : Volume ε σ}
  {a b : UInt64} (hD : D.naming.Lawful) (hforward : D.naming.reverseEncryption = false)
  (hroot : D.rootDir.getLast? = some slash) (hcanon : D.Canonical V₀.disk)
  (hnode : RenamesNodes renameNode PlainPath I)
  (hmoves : ∀ oldName newName, A.moves oldName newName = true)
include hnode hmoves

lemma applies_element {fromP toP q r n d d' : Bytes} {a' b' : UInt64} {V : Volume ε σ}
    (hnames : D.EntryNames fromP toP q r n d d' a' b') (hfrom : PlainPath fromP)
    (hto : PlainPath toP) (hd : components (D.rootDir ++ q) ++ [d] ∈ V.disk.paths)
    (hfree : d' ≠ d → components (D.rootDir ++ q) ++ [d'] ∉ V.disk.paths) (hV : I V.nodes) :
    ∃ V₁ V₂, renameNode (fromP ++ slash :: n) (toP ++ slash :: n) true V = (true, V₁) ∧
      V₁.rename A (D.rootDir ++ q ++ slash :: d) (D.rootDir ++ q ++ slash :: d') = some V₂ ∧
      I V₂.nodes := by
  have hnamed := hnode.named true hV (hfrom.concat hnames.valid) (hto.concat hnames.valid)
  have hdisk := hnode.disk (fromP ++ slash :: n) (toP ++ slash :: n) true V
  have hnodes := hnode.nodes (fromP ++ slash :: n) (toP ++ slash :: n) true V hV
  generalize renameNode (fromP ++ slash :: n) (toP ++ slash :: n) true V = res
    at hnamed hdisk hnodes
  obtain ⟨ok, V₁⟩ := res
  obtain rfl : ok = true := hnamed
  obtain ⟨T, hT⟩ := Option.isSome_iff_exists.mp (rename_name hd hfree)
  refine ⟨V₁, { V₁ with disk := T }, rfl, ?_, hnodes⟩
  rw [Volume.rename, if_pos (hmoves _ _), hnames.oldCName, hnames.newCName]
  rw [← hdisk] at hT
  rw [hT]
  rfl

include hD hforward hroot hcanon

lemma applies_entries {recurse : (fromP toP : Bytes) → Option (List RenameEl)}
    {fromP toP q r : Bytes} (hfrom : PlainPath fromP) (hto : PlainPath toP)
    (hq : D.naming.encodePathIV fromP 0 = .ok (q, a)) (hr : D.naming.encodePathIV toP 0 = .ok (r, b))
    (hab : a ≠ b)
    (hfree : ∀ {d n iv d' iv'}, isDots d = false → D.naming.decodePathIV d a = .ok (n, iv) →
      D.naming.encodePathIV n b = .ok (d', iv') →
      components (D.rootDir ++ q) ++ [d] ∈ V₀.disk.paths → d' ≠ d →
      components (D.rootDir ++ q) ++ [d'] ∉ V₀.disk.paths)
    (hrec : ∀ {n d d' : Bytes} {a' b' : UInt64} {els : List RenameEl} {V : Volume ε σ},
      D.EntryNames fromP toP q r n d d' a' b' →
      recurse (fromP ++ slash :: n) (toP ++ slash :: n) = some els →
      AgreeUnder (components (D.rootDir ++ q) ++ [d]) V₀.disk V.disk → I V.nodes →
      ∃ done V', RenameOp.apply renameNode A els V = (true, done, V') ∧
        Relocated (underPath (components (D.rootDir ++ q) ++ [d]) (D.recode a' b')) V.disk V'.disk)
    {dir P : List Bytes} {l : List RenameEl} {T : FileTree Bytes ε} {V : Volume ε σ}
    (hnodup : dir.Nodup) (hmem : ∀ d ∈ dir, components (D.rootDir ++ q) ++ [d] ∈ V₀.disk.paths)
    (hP : ∀ d ∈ dir, d ∉ P) (hagree : AgreeUnder (components (D.rootDir ++ q)) V₀.disk T)
    (hT : Relocated (underPath (components (D.rootDir ++ q)) (D.recodeIn P a b)) T V.disk)
    (hlist : D.renameEntries V₀.isDirectory recurse (D.rootDir ++ q) fromP toP a b dir = some l)
    (hV : I V.nodes) : ∃ done V', RenameOp.apply renameNode A l V = (true, done, V') := by
  induction dir generalizing P l V with
  | nil =>
    cases hlist
    exact ⟨[], V, rfl⟩
  | cons d dir ih =>
    have hnodup' := List.nodup_cons.mp hnodup
    have hmem' : ∀ d' ∈ dir, components (D.rootDir ++ q) ++ [d'] ∈ V₀.disk.paths :=
      fun d' hd' => hmem d' (List.mem_cons_of_mem d hd')
    have hP' : ∀ d' ∈ dir, d' ∉ P ++ [d] := by
      intro d' hd' hin
      rcases List.mem_append.mp hin with hin | hin
      · exact hP d' (List.mem_cons_of_mem d hd') hin
      · exact hnodup'.1 (List.mem_singleton.mp hin ▸ hd')
    have hdP := hP d List.mem_cons_self
    have hd₀ := hmem d List.mem_cons_self
    have hd := hagree.mem_paths.mpr hd₀
    rcases renameEntries_cons hlist with ⟨hskip, htail⟩ |
      ⟨n, a', d', b', els, rest, hdots, hdec, henc, hels, htail, rfl⟩
    · rw [recodeIn_skip hskip] at hT
      exact ih hnodup'.2 hmem' hP' hT htail hV
    · have hnames := entryNames hD hforward hroot hcanon hfrom.no_null hto.no_null hq hr hd₀ hdots
        hdec henc
      have hentry :=
        agreeUnder_entry ((relocatedWith_unchanged fun _ _ _ => recodedIn_unchanged).mpr hT) hd hdP
      obtain ⟨done₁, V₁, hfirst, hinner⟩ : ∃ done V₁,
          RenameOp.apply renameNode A els V = (true, done, V₁) ∧
          Relocated (underPath (components (D.rootDir ++ q) ++ [d]) (D.recode a' b')) V.disk
            V₁.disk := by
        have hagree' := (hagree.under [d]).trans hentry
        split at hels
        · exact hrec hnames hels hagree' hV
        · rename_i hfile
          cases hels
          rw [Volume.isDirectory, hnames.oldCName] at hfile
          exact ⟨[], V, rfl, relocated_file recode_nil fun hdir => hfile (hagree'.isDirectory ▸ hdir)⟩
      have hnodes : I V₁.nodes := by
        have happly := hnode.apply (A := A) els hV
        rwa [hfirst] at happly
      have hd₁ := mem_of_underPath hinner recode_nil (hentry.mem_iff.mpr hd)
      have hfree₁ : d' ≠ d → components (D.rootDir ++ q) ++ [d'] ∉ V₁.disk.paths := by
        intro hne
        have hout : ¬ components (D.rootDir ++ q) ++ [d] <+: components (D.rootDir ++ q) ++ [d'] := by
          rw [List.prefix_append_right_inj, List.cons_prefix_cons]
          exact fun h => hne h.1.symm
        rw [mem_paths_underPath hinner hout]
        exact free_of_clear hD hforward hcanon hfrom.no_null hto.no_null hq hr hagree hT hd hdP hdots
          hdec henc (mt hagree.mem_paths.mp (hfree hdots hdec henc hd₀ hne))
      obtain ⟨V₂, V₃, hforth, hmoved, hnodes'⟩ :=
        applies_element hnode hmoves hnames hfrom hto hd₁ hfree₁ hnodes
      obtain ⟨done₂, V', hrest⟩ := ih hnodup'.2 hmem' hP'
        (relocated_element hnode.disk hnames hab hdots hdec henc hT hd hdP hinner hforth hmoved)
        htail hnodes'
      exact ⟨_, V', RenameOp.apply_of_append hfirst (RenameOp.apply_of_cons hforth hmoved hrest)⟩

lemma applies_list {fuel : ℕ} {fromP toP q r : Bytes} {l : List RenameEl} {V : Volume ε σ}
    (hlist : D.genRenameList (V₀.opendir A) V₀.isDirectory fuel fromP toP = some l)
    (hfrom : PlainPath fromP) (hto : PlainPath toP)
    (hq : D.naming.encodePathIV fromP 0 = .ok (q, a)) (hr : D.naming.encodePathIV toP 0 = .ok (r, b))
    (hagree : AgreeUnder (components (D.rootDir ++ q)) V₀.disk V.disk)
    (hclear : D.Clear V₀.disk fromP toP) (hV : I V.nodes) :
    ∃ done V', RenameOp.apply renameNode A l V = (true, done, V') := by
  induction fuel generalizing fromP toP q r a b l V with
  | zero => cases hlist
  | succ fuel ih =>
    obtain ⟨q', a', r', b', hq', hr', hcases⟩ := genRenameList_succ hlist
    rw [hq] at hq'
    rw [hr] at hr'
    obtain ⟨rfl, rfl⟩ := Prod.mk.inj (Except.ok.inj hq')
    obtain ⟨rfl, rfl⟩ := Prod.mk.inj (Except.ok.inj hr')
    rcases hcases with ⟨rfl, rfl⟩ | ⟨hab, dir, hdir, hentries⟩
    · exact ⟨[], V, rfl⟩
    · obtain ⟨-, rfl⟩ := Volume.opendir_cases hdir
      rw [renameEntries_dots] at hentries
      have hstart : Relocated (underPath (components (D.rootDir ++ q)) (D.recodeIn [] a b)) V.disk
          V.disk := by
        refine Relocated.of_id fun p _ => underPath_id (fun s => ?_) p
        cases s <;> rfl
      refine applies_entries hD hforward hroot hcanon hnode hmoves hfrom hto hq hr hab
        (hclear (x := []) (fun n hn => absurd hn List.not_mem_nil) (by rwa [below_nil])
          (by rwa [below_nil])) ?_
        (names_nodup V₀.disk _) (fun d hd => mem_names.mp hd) (fun d _ => List.not_mem_nil) hagree
        hstart hentries hV
      intro n d d' a' b' els V hnames hels hagree' hV
      have hfrom' := hfrom.concat hnames.valid
      have hto' := hto.concat hnames.valid
      rw [← hnames.child] at hagree' ⊢
      obtain ⟨done, V', happly⟩ := ih hels hfrom' hto' hnames.oldPath hnames.newPath hagree'
        (hclear.concat hnames.valid) hV
      exact ⟨done, V', happly, relocated_list hD hforward hroot hcanon hnode.disk hels hfrom'.no_null
        hto'.no_null hnames.oldPath hnames.newPath hagree' happly⟩

end Applies

section Done

variable {R : ε → ε → Prop} {P : FileTree Bytes ε}

lemma Shows.clear {T : FileTree Bytes ε} (h : D.Shows R P T) (hD : D.naming.Lawful)
    (hforward : D.naming.reverseEncryption = false) (hroot : D.rootDir.getLast? = some slash)
    {fromP toP : Bytes} (hfrom : PlainPath fromP) (hto : PlainPath toP)
    (hne : components fromP = [] → components toP = [])
    (hclash : ∀ x n m, ¬ D.naming.ClashAt P fromP toP x n m) : D.Clear T fromP toP := by
  intro x q r a b d n iv d' iv' hx hq hr hdots hdec henc hd hd'ne hd'
  have hcanon := h.canonical hD hforward hroot
  have hnull := (hfrom.below hx).no_null
  obtain ⟨hn, hback⟩ := hcanon _ q a d n iv hnull hq hd hdots hdec
  obtain ⟨q', a', hq', hcoded⟩ := (hfrom.below hx).encode hD hforward
  obtain ⟨r', b', hr', hcoded'⟩ := (hto.below hx).encode hD hforward
  rw [hq] at hq'
  rw [hr] at hr'
  cases hq'
  cases hr'
  rw [components_below _ hx] at hcoded hcoded'
  have hab : components fromP ≠ components toP := by
    intro hsame
    rw [hsame] at hcoded
    rw [(hcoded.functional hcoded').2, henc] at hback
    cases hback
    exact hd'ne rfl
  obtain ⟨e, iv₁, -, -, -, hdots', henc', -⟩ :=
    encodePathIV_child hD hforward (hto.below hx).no_null hr hn
  rw [henc] at henc'
  cases henc'
  have hname {c : Bytes} (hc : components (D.rootDir ++ q) ++ [c] ∈ T.paths) :
      c ∈ T.names (components D.rootDir ++ components q) := by
    rw [components_root hroot] at hc
    exact FileTree.mem_names.mpr hc
  rcases h.decode_name hcoded (hname hd) with ⟨n', hn', iv₂, hdec', -⟩ | ⟨-, error, herror⟩
  · rw [hdec] at hdec'
    cases hdec'
    rcases h.decode_name hcoded (hname hd') with ⟨m, hm, iv₂, hdecm, -⟩ | ⟨hnil, -⟩
    · obtain ⟨-, hbackm⟩ := hcanon _ q a d' m iv₂ hnull hq hd' hdots' hdecm
      refine hclash x n m ⟨?_, mem_names.mp hn', mem_names.mp hm, q, r, a, b, d', iv', iv₂, hq,
        hr, henc, hbackm⟩
      rintro rfl
      rw [hbackm] at hback
      cases hback
      exact hd'ne rfl
    · have hfromnil := (List.append_eq_nil_iff.mp hnil).1
      exact hab (hfromnil.trans (hne hfromnil).symm)
  · rw [hdec] at herror
    cases herror

variable {Good : Bytes → Prop} (hN : D.naming.CodesPaths Good)
  (hroot : D.rootDir.getLast? = some slash) {renameNode : NodeRename ε σ} {I : σ → Prop}
  {A : UnixAnswers} {V : Volume ε σ} (hnode : RenamesNodes renameNode Good I)
include hN hroot hnode

lemma RenamesNodes.rename_directory_done {fromP toP : Bytes} {P' : FileTree Bytes ε}
    (hfrom : Good fromP) (hto : Good toP) (hV : I V.nodes) (h : D.Shows R P V.disk)
    (hopens : ∀ name, A.opens name = true) (hmoves : ∀ old new, A.moves old new = true)
    (hclash : ¬ D.naming.Clash P fromP toP)
    (hP : P.rename (components fromP) (components toP) = some P') :
    (D.rename renameNode A (V.disk.entries.length + 1) fromP toP V).1 = .moved := by
  by_cases hchain : D.naming.chainedNameIV = true ∧ P.isDirectory (components fromP) = true
  · obtain ⟨hD, hforward, hplain⟩ := hN.chained hchain.1
    obtain rfl : Good = PlainPath := funext fun path => propext (hplain path)
    obtain ⟨q, es, a, hq, hpath, hes, hx⟩ := cipherPath_coded hN hroot hfrom
    obtain ⟨q', fs, b, hq', hpath', hfs, hy⟩ := cipherPath_coded hN hroot hto
    have hx' : D.naming.pathCode.Codes (components fromP) es := ⟨a, hx⟩
    have hy' : D.naming.pathCode.Codes (components toP) fs := ⟨b, hy⟩
    have happart := undecodable_apart D.naming
    have hcanon := h.canonical hD hforward hroot
    have hdir : V.isDirectory (D.rootDir ++ q) = true := by
      rw [Volume.isDirectory, hes, h.mirrors.isDirectory_eq happart hx']
      exact hchain.2
    have hclear : D.Clear V.disk fromP toP := by
      refine h.clear hD hforward hroot hfrom hto (fun hnil => ?_) fun x n m hat =>
        hclash ⟨hchain.1, hchain.2, x, n, m, hat⟩
      rcases FileTree.rename_cases hP with ⟨heq, -⟩ | ⟨hmove, -⟩
      · exact heq ▸ hnil
      · exact absurd (hnil ▸ List.nil_prefix) hmove.not_within
    obtain ⟨l, hlist⟩ := Option.isSome_iff_exists.mp
      (genRenameList_isSome hD hforward hroot hcanon hopens hfrom hto hq hq' hdir
        (Nat.le_add_right_of_le (Nat.le_succ V.disk.entries.length)))
    have hagree : AgreeUnder (components (D.rootDir ++ q)) V.disk V.disk := fun r e => Iff.rfl
    obtain ⟨done, V₁, happly⟩ := applies_list hD hforward hroot hcanon hnode hmoves hlist hfrom hto
      hq hq' hagree hclear hV
    have hrelocated := relocated_list hD hforward hroot hcanon hnode.disk hlist hfrom.no_null
      hto.no_null hq hq' hagree happly
    rw [hes] at hrelocated
    have htree : (V₁.disk.rename (components D.rootDir ++ es) (components D.rootDir ++ fs)).isSome := by
      rcases FileTree.rename_cases hP with ⟨heq, hmem, -⟩ | ⟨hmove, -⟩
      · rw [heq] at hx' hmem
        rw [← D.naming.pathCode.functional hx' hy', FileTree.rename_self]
        · rfl
        · exact mem_of_underPath hrelocated recode_nil ((h.mirrors.mem_iff happart hx').mpr hmem)
      · have hmove' := (h.mirrors.canMove_iff happart hx' hy' h.root_mem).mpr hmove
        obtain ⟨T', hT', -⟩ := (hmove'.of_relocated hrelocated recode_nil).rename
        rw [hT']
        rfl
    have hnodes : I V₁.nodes := by
      have hall := hnode.apply (A := A) l hV
      rwa [happly] at hall
    rw [DirNode.rename, hpath, hpath']
    dsimp only
    rw [if_pos ⟨hchain.1, hdir⟩, hlist]
    dsimp only
    rw [happly]
    exact hnode.renameTop_done hfrom hto hnodes hmoves (by rwa [hes, hfs])
  · exact hnode.rename_done hN hroot hfrom hto hV h hmoves hchain hP

end Done

end DirNode

end EncFS
