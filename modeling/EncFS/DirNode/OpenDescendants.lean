import EncFS.Context.OpenFiles
import EncFS.DirNode.Relocation

set_option autoImplicit false

namespace EncFS

open Function

namespace Context

variable {S S' : Context} {new : ℕ}

lemma renameNode_setNode (S : Context) (fromP toP : Bytes) (node : ℕ → FileNode) :
    ({ S with node } : Context).renameNode fromP toP = { S.renameNode fromP toP with node } := by
  simp only [Context.renameNode]
  cases S.openFiles fromP <;> rfl

@[simp] lemma renameNode_placeholder (S : Context) (fromP toP : Bytes) :
    (S.renameNode fromP toP).placeholder = S.placeholder := by
  rw [Context.renameNode]
  cases S.openFiles fromP <;> rfl

def Unused (S : Context) (n : ℕ) : Prop :=
  ∀ {path pl}, S.Filed path pl → S.placeholder pl ≠ n

lemma Filing.filed_unique (hS : Filing S) {path path' : Bytes} {pl : ℕ} (h : S.Filed path pl)
    (h' : S.Filed path' pl) : path = path' :=
  (hS.named h).symm.trans (hS.named h')

end Context

namespace DirNode

open Context NameIO

variable {D : DirNode} {S S' : Context} {new : ℕ}

section Call

variable {fromP toP : Bytes} {iv : SetIV} {mode : Bool} (hS : Filing S)
  (h : D.renameNode S fromP toP new iv mode = (true, S'))
include hS h

lemma renameNode_cases :
    S'.placeholder = S.placeholder ∧
      (S.openFiles fromP = none ∧ S'.openFiles = S.openFiles ∧ (∀ n, n ≠ new → S'.node n = S.node n) ∨
      ∃ pl c, S.Filed fromP pl ∧ D.cipherPath toP = .ok c ∧
        S'.openFiles = (S.renameNode fromP toP).openFiles ∧
        S'.node = update S.node (S.placeholder pl) ⟨toP, c, c⟩) := by
  rcases D.findOrCreate_cases hS fromP new with ⟨e, herror⟩ | ⟨pl, hpl, hfound⟩ |
    ⟨hopen, cname, hmade⟩
  · simp only [renameNode, herror] at h
    cases h
  · simp only [renameNode, hfound] at h
    cases hpath : D.cipherPath toP with
    | error e =>
      simp only [hpath] at h
      cases h
    | ok c =>
      simp only [hpath] at h
      rcases setName_cases (S.node (S.placeholder pl)) toP c iv mode with
        ⟨hset, -⟩ | ⟨N, hset, -⟩
      · simp only [hset] at h
        obtain ⟨-, rfl⟩ := Prod.mk.inj h
        rw [renameNode_setNode]
        exact ⟨renameNode_placeholder S fromP toP, .inr ⟨pl, c, hpl, rfl, rfl, rfl⟩⟩
      · simp only [hset] at h
        cases h
  · simp only [renameNode, hmade] at h
    cases hpath : D.cipherPath toP with
    | error e =>
      simp only [hpath] at h
      cases h
    | ok c =>
      simp only [hpath] at h
      rcases setName_cases (update S.node new ⟨fromP, cname, cname⟩ new) toP c iv mode with
        ⟨hset, -⟩ | ⟨N, hset, -⟩
      · simp only [hset] at h
        obtain ⟨-, rfl⟩ := Prod.mk.inj h
        rw [renameNode_setNode, renameNode_setNode, renameNode_absent hopen]
        refine ⟨rfl, .inl ⟨hopen, rfl, fun n hn => ?_⟩⟩
        simp only [update_of_ne hn]
      · simp only [hset] at h
        cases h

lemma renameNode_frame (hnew : S.Unused new) {path : Bytes} {pl : ℕ} (hpl : S.Filed path pl)
    (hfrom : path ≠ fromP) (hto : path ≠ toP) :
    S'.Filed path pl ∧ S'.placeholder pl = S.placeholder pl ∧
      S'.node (S.placeholder pl) = S.node (S.placeholder pl) := by
  obtain ⟨hplaceholder, hcases⟩ := renameNode_cases hS h
  rcases hcases with ⟨-, hopen, hnode⟩ | ⟨pl', c, hpl', -, hopen, hnode⟩
  · exact ⟨(Filed.congr hopen).mpr hpl, congrFun hplaceholder pl, hnode _ (hnew hpl)⟩
  · refine ⟨(Filed.congr hopen).mpr ?_, congrFun hplaceholder pl, ?_⟩
    · exact (renameNode_filed hpl').mpr (.inr ⟨hto, hfrom, hpl⟩)
    · rw [hnode, update_of_ne]
      intro heq
      apply hfrom
      rw [← hS.named hpl, heq, hS.named hpl']

lemma renameNode_moves {pl : ℕ} (hpl : S.Filed fromP pl) :
    S'.Filed toP pl ∧ S'.placeholder pl = S.placeholder pl ∧
      (∃ c, D.cipherPath toP = .ok c ∧ S'.node (S.placeholder pl) = ⟨toP, c, c⟩) ∧
      (fromP ≠ toP → S'.openFiles fromP = none) := by
  obtain ⟨hplaceholder, hcases⟩ := renameNode_cases hS h
  rcases hcases with ⟨hnone, -, -⟩ | ⟨pl', c, hpl', hc, hopen, hnode⟩
  · exact absurd hpl (not_filed hnone)
  · refine ⟨(Filed.congr hopen).mpr ?_, congrFun hplaceholder pl, ⟨c, hc, ?_⟩, fun hne => ?_⟩
    · exact (renameNode_filed hpl').mpr (.inl ⟨rfl, hpl⟩)
    · rw [hnode, hS.shared hpl hpl', update_self]
    · have hne' : S.openFiles fromP ≠ none := fun hnone => not_filed hnone hpl
      rw [hopen, renameNode_openFiles, if_neg hne', if_neg hne, if_pos rfl]

lemma renameNode_closed {path : Bytes} (hclosed : S.openFiles path = none) (hto : path ≠ toP) :
    S'.openFiles path = none := by
  obtain ⟨-, hcases⟩ := renameNode_cases hS h
  rcases hcases with ⟨-, hopen, -⟩ | ⟨-, -, -, -, hopen, -⟩
  · rw [hopen, hclosed]
  · rw [hopen, renameNode_openFiles, if_neg hto, hclosed]
    split
    · rfl
    · split <;> rfl

lemma renameNode_filing (hnew : S.Unused new) : Filing S' ∧ S'.Unused new := by
  obtain ⟨hplaceholder, hcases⟩ := renameNode_cases hS h
  rcases hcases with ⟨-, hopen, hnode⟩ | ⟨pl₀, c, hpl₀, -, hopen, hnode⟩
  · have hfiled {path : Bytes} {pl : ℕ} : S'.Filed path pl ↔ S.Filed path pl := Filed.congr hopen
    refine ⟨⟨fun {path set} hset => hS.nonempty (hopen ▸ hset), fun ha hb => ?_, fun ha => ?_⟩,
      fun ha => ?_⟩
    · rw [hplaceholder]
      exact hS.shared (hfiled.mp ha) (hfiled.mp hb)
    · rw [hplaceholder, hnode _ (hnew (hfiled.mp ha))]
      exact hS.named (hfiled.mp ha)
    · rw [hplaceholder]
      exact hnew (hfiled.mp ha)
  · have hfiled {path : Bytes} {pl : ℕ} : S'.Filed path pl ↔
        path = toP ∧ S.Filed fromP pl ∨ path ≠ toP ∧ path ≠ fromP ∧ S.Filed path pl :=
      (Filed.congr hopen).trans (renameNode_filed hpl₀)
    refine ⟨⟨fun {path set} hset => ?_, fun {path a b} ha hb => ?_, fun {path a} ha => ?_⟩,
      fun {path a} ha => ?_⟩
    · have hne : S.openFiles fromP ≠ none := fun hnone => not_filed hnone hpl₀
      rw [hopen, renameNode_openFiles, if_neg hne] at hset
      split at hset
      · exact hS.nonempty hset
      · split at hset
        · cases hset
        · exact hS.nonempty hset
    · rw [hplaceholder]
      rcases hfiled.mp ha with ⟨rfl, ha⟩ | ⟨hne, -, ha⟩
      · rcases hfiled.mp hb with ⟨-, hb⟩ | ⟨hne, -, -⟩
        · exact hS.shared ha hb
        · exact absurd rfl hne
      · rcases hfiled.mp hb with ⟨heq, -⟩ | ⟨-, -, hb⟩
        · exact absurd heq hne
        · exact hS.shared ha hb
    · rw [hplaceholder, hnode]
      rcases hfiled.mp ha with ⟨rfl, ha⟩ | ⟨-, hfrom, ha⟩
      · rw [hS.shared ha hpl₀, update_self]
      · rw [update_of_ne]
        · exact hS.named ha
        · intro heq
          apply hfrom
          rw [← hS.named ha, heq, hS.named hpl₀]
    · rw [hplaceholder]
      rcases hfiled.mp ha with ⟨-, ha⟩ | ⟨-, -, ha⟩
      · exact hnew ha
      · exact hnew ha

lemma renameNode_stays {path : Bytes} {pl : ℕ} (honly : ∀ p, S.Filed p pl → p = path)
    (hne : fromP ≠ path) : ∀ p, S'.Filed p pl → p = path := by
  intro p hp
  obtain ⟨-, ⟨-, hopen, -⟩ | ⟨pl', -, hpl', -, hopen, -⟩⟩ := renameNode_cases hS h
  · exact honly p ((Filed.congr hopen).mp hp)
  · rcases (renameNode_filed hpl').mp ((Filed.congr hopen).mp hp) with ⟨-, hold⟩ | ⟨-, -, hsame⟩
    · exact absurd (honly fromP hold) hne
    · exact honly p hsame

end Call

lemma renameNodeIn_ok {ε : Type} {iv : Bytes → Bytes → Bool → SetIV} {fromP toP : Bytes}
    {mode : Bool} {V V₁ : Volume ε Context}
    (h : D.renameNodeIn new iv fromP toP mode V = (true, V₁)) :
    D.renameNode V.nodes fromP toP new (iv fromP toP mode) mode = (true, V₁.nodes) := by
  obtain ⟨hok, rfl⟩ := Prod.mk.inj h
  exact Prod.ext hok rfl

structure Holds (S : Context) (new : ℕ) (path : Bytes) (pl n : ℕ) (N : FileNode) : Prop where
  filing : Filing S
  unused : S.Unused new
  filed : S.Filed path pl
  placeholder : S.placeholder pl = n
  node : S.node n = N

def Arrived (D : DirNode) (S : Context) (new : ℕ) (old path : Bytes) (pl n : ℕ) : Prop :=
  S.openFiles old = none ∧ ∃ c, D.cipherPath path = .ok c ∧ Holds S new path pl n ⟨path, c, c⟩

section Track

variable {fromP toP s s₀ : Bytes} {pl n : ℕ} {N : FileNode} {iv : SetIV} {mode : Bool}
  (hdisj : ∀ {s s'}, Boundary s → Boundary s' → fromP ++ s ≠ toP ++ s') (hs₀ : Boundary s₀)
include hdisj hs₀

omit hdisj hs₀ in
lemma Holds.frame {path : Bytes} (hpl : Holds S new path pl n N)
    (h : D.renameNode S fromP toP new iv mode = (true, S')) (hfrom : path ≠ fromP)
    (hto : path ≠ toP) : Holds S' new path pl n N := by
  obtain ⟨hfiling, hunused⟩ := renameNode_filing hpl.filing h hpl.unused
  obtain ⟨hfiled, hplaceholder, hnode⟩ :=
    renameNode_frame hpl.filing h hpl.unused hpl.filed hfrom hto
  rw [hpl.placeholder] at hplaceholder hnode
  exact ⟨hfiling, hunused, hfiled, hplaceholder, hnode.trans hpl.node⟩

lemma Holds.other (hpl : Holds S new (fromP ++ s₀) pl n N) (hs : Boundary s) (hne : s ≠ s₀)
    (h : D.renameNode S (fromP ++ s) (toP ++ s) new iv mode = (true, S')) :
    Holds S' new (fromP ++ s₀) pl n N :=
  hpl.frame h (fun heq => hne (List.append_cancel_left heq).symm) (hdisj hs₀ hs)

lemma Holds.arrives (hpl : Holds S new (fromP ++ s₀) pl n N)
    (h : D.renameNode S (fromP ++ s₀) (toP ++ s₀) new iv mode = (true, S')) :
    Arrived D S' new (fromP ++ s₀) (toP ++ s₀) pl n := by
  obtain ⟨hfiling, hunused⟩ := renameNode_filing hpl.filing h hpl.unused
  obtain ⟨hfiled, hplaceholder, ⟨c, hc, hnode⟩, hnone⟩ := renameNode_moves hpl.filing h hpl.filed
  rw [hpl.placeholder] at hplaceholder hnode
  exact ⟨hnone (hdisj hs₀ hs₀), c, hc, hfiling, hunused, hfiled, hplaceholder, hnode⟩

lemma Arrived.step (hpl : Arrived D S new (fromP ++ s₀) (toP ++ s₀) pl n) (hs : Boundary s)
    (h : D.renameNode S (fromP ++ s) (toP ++ s) new iv mode = (true, S')) :
    Arrived D S' new (fromP ++ s₀) (toP ++ s₀) pl n := by
  obtain ⟨hnone, c, hc, hpl⟩ := hpl
  refine ⟨renameNode_closed hpl.filing h hnone (hdisj hs₀ hs), c, hc, ?_⟩
  by_cases hsame : s = s₀
  · subst hsame
    obtain ⟨hplaceholder, ⟨-, hopen, hnode⟩ | ⟨pl', -, hpl', -⟩⟩ := renameNode_cases hpl.filing h
    · obtain ⟨hfiling, hunused⟩ := renameNode_filing hpl.filing h hpl.unused
      have hn : n ≠ new := hpl.placeholder ▸ hpl.unused hpl.filed
      exact ⟨hfiling, hunused, (Filed.congr hopen).mpr hpl.filed,
        (congrFun hplaceholder pl).trans hpl.placeholder, (hnode n hn).trans hpl.node⟩
    · exact absurd hpl' (not_filed hnone)
  · exact hpl.frame h (fun heq => hdisj hs hs₀ heq.symm)
      fun heq => hsame (List.append_cancel_left heq).symm

lemma apply_arrives {ε : Type} {A : UnixAnswers} {iv : Bytes → Bytes → Bool → SetIV}
    {l done : List RenameEl} {V V' : Volume ε Context}
    (happly : RenameOp.apply (D.renameNodeIn new iv) A l V = (true, done, V'))
    (hall : ∀ el ∈ l, ∃ s, Boundary s ∧ el.oldPName = fromP ++ s ∧ el.newPName = toP ++ s)
    (hex : ∃ el ∈ l, el.oldPName = fromP ++ s₀ ∧ el.newPName = toP ++ s₀)
    (hpl : Holds V.nodes new (fromP ++ s₀) pl n N) :
    Arrived D V'.nodes new (fromP ++ s₀) (toP ++ s₀) pl n := by
  obtain ⟨el, hel, hold, hnew⟩ := hex
  obtain ⟨l₁, l₂, rfl⟩ := List.append_of_mem hel
  obtain ⟨V₁, done₁, done₂, hfirst, hlast⟩ := RenameOp.apply_append happly
  obtain ⟨V₂, V₃, done₃, hnode, hmoved, hrest⟩ := RenameOp.apply_cons hlast
  have harrived {S S' : Context} {iv : SetIV} {mode : Bool}
      (hP : Holds S new (fromP ++ s₀) pl n N ∨ Arrived D S new (fromP ++ s₀) (toP ++ s₀) pl n)
      (h : D.renameNode S (fromP ++ s₀) (toP ++ s₀) new iv mode = (true, S')) :
      Arrived D S' new (fromP ++ s₀) (toP ++ s₀) pl n := by
    rcases hP with hP | hP
    · exact hP.arrives hdisj hs₀ h
    · exact hP.step hdisj hs₀ hs₀ h
  -- the placeholder arrives with this element at the latest
  have hbefore : Holds V₁.nodes new (fromP ++ s₀) pl n N ∨
      Arrived D V₁.nodes new (fromP ++ s₀) (toP ++ s₀) pl n := by
    refine RenameOp.apply_invariant (P := fun S => Holds S new (fromP ++ s₀) pl n N ∨
      Arrived D S new (fromP ++ s₀) (toP ++ s₀) pl n) hfirst (fun el hel V V₁ hstep hP => ?_) (.inl hpl)
    obtain ⟨s, hs, hold, hnew⟩ := hall el (List.mem_append_left _ hel)
    rw [hold, hnew] at hstep
    have hstep := renameNodeIn_ok hstep
    by_cases hsame : s = s₀
    · subst hsame
      exact .inr (harrived hP hstep)
    · exact hP.imp (fun hP => hP.other hdisj hs₀ hs hsame hstep)
        fun hP => hP.step hdisj hs₀ hs hstep
  rw [hold, hnew] at hnode
  have hafter := harrived hbefore (renameNodeIn_ok hnode)
  rw [← (Volume.rename_cases hmoved).2] at hafter
  refine RenameOp.apply_invariant (P := fun S => Arrived D S new (fromP ++ s₀) (toP ++ s₀) pl n) hrest
    (fun el hel V V₁ hstep hP => ?_) hafter
  obtain ⟨s, hs, hold, hnew⟩ := hall el (List.mem_append_right _ (List.mem_cons_of_mem _ hel))
  rw [hold, hnew] at hstep
  exact hP.step hdisj hs₀ hs (renameNodeIn_ok hstep)

end Track

/-- The placeholder is filed under the path, and the node that is found there and that it points to
has the names of a file with this path. -/
structure OpenAt (D : DirNode) (S : Context) (path : Bytes) (pl : ℕ) : Prop where
  filed : S.Filed path pl
  found : S.lookupNode path = some (S.placeholder pl)
  names : ∃ c, D.cipherPath path = .ok c ∧ S.node (S.placeholder pl) = ⟨path, c, c⟩

def FileAt {ε : Type} (D : DirNode) (T : FileTree Bytes ε) (path : Bytes) (content : ε) : Prop :=
  ∃ c, D.cipherPath path = .ok c ∧ (components c, .file content) ∈ T.entries

def Follows (D : DirNode) (fromP toP : Bytes) (x : List Bytes) : Prop :=
  fromP = toP ∨ Rekeyed D fromP toP x

lemma Holds.openAt {path c : Bytes} {pl n : ℕ} (hc : D.cipherPath path = .ok c)
    (h : Holds S new path pl n ⟨path, c, c⟩) : D.OpenAt S path pl ∧ S.placeholder pl = n := by
  refine ⟨⟨h.filed, h.filing.lookupNode_filed h.filed, c, hc, ?_⟩, h.placeholder⟩
  rw [h.placeholder]
  exact h.node

lemma Rekeyed.iv_ne {fromP toP q r : Bytes} {a b : UInt64} {x : List Bytes} (hx : x ≠ [])
    (h : Rekeyed D fromP toP x) (hq : D.naming.encodePathIV fromP 0 = .ok (q, a))
    (hr : D.naming.encodePathIV toP 0 = .ok (r, b)) : a ≠ b := by
  cases x with
  | nil => exact absurd rfl hx
  | cons n x =>
    intro heq
    apply h.1
    rw [pathIV_eq hq, pathIV_eq hr, heq]

section Rename

variable {ε : Type} {fromP toP : Bytes} {x : List Bytes} {V V' : Volume ε Context} {pl fuel : ℕ}
  {iv : Bytes → Bytes → Bool → SetIV} {A : UnixAnswers} {content : ε}
  (hD : D.naming.Lawful) (hforward : D.naming.reverseEncryption = false)
  (hroot : D.rootDir.getLast? = some slash) (hfrom : (0 : UInt8) ∉ fromP) (hto : (0 : UInt8) ∉ toP)
  (hne : x ≠ []) (hx : ∀ n ∈ x, ValidName n)
  (hmoved : D.rename (D.renameNodeIn new iv) A fuel fromP toP V = (.moved, V'))
include hD hforward hroot hfrom hto

omit hne hx hmoved in
lemma rename_unnested {q r : Bytes} {a b : UInt64} {T T' : FileTree Bytes ε}
    (hq : D.naming.encodePathIV fromP 0 = .ok (q, a)) (hr : D.naming.encodePathIV toP 0 = .ok (r, b))
    (hab : a ≠ b)
    (h : T.rename (components (D.rootDir ++ q)) (components (D.rootDir ++ r)) = some T')
    {s s' : Bytes} (hs : Boundary s) (hs' : Boundary s') : fromP ++ s ≠ toP ++ s' := by
  have hbelow {d d' p p' u : Bytes} {iv iv' : UInt64} (hd : (0 : UInt8) ∉ d') (hne : iv ≠ iv')
      (hp : D.naming.encodePathIV d 0 = .ok (p, iv)) (hp' : D.naming.encodePathIV d' 0 = .ok (p', iv'))
      (hu : Boundary u) (heq : d' = d ++ u) :
      components (D.rootDir ++ p) <+: components (D.rootDir ++ p') ∧
        components (D.rootDir ++ p) ≠ components (D.rootDir ++ p') := by
    cases u with
    | nil =>
      rw [List.append_nil] at heq
      rw [heq, hp] at hp'
      exact absurd (Prod.mk.inj (Except.ok.inj hp')).2 hne
    | cons c u =>
      obtain rfl : c = slash := hu c rfl
      subst heq
      simp only [List.mem_append, List.mem_cons, not_or] at hd
      obtain ⟨rest, hcomp, hiv⟩ := encodePathIV_append hD hforward hd.1 hd.2.2 hp hp'
      rw [components_root hroot, components_root hroot, hcomp, ← List.append_assoc]
      refine ⟨List.prefix_append _ rest, fun hsame => ?_⟩
      exact hne (hiv (List.self_eq_append_right.mp hsame)).symm
  intro heq
  rcases List.append_eq_append_iff.mp heq with ⟨u, hto', rfl⟩ | ⟨u, hfrom', rfl⟩
  · obtain ⟨habove, hdiff⟩ := hbelow hto hab hq hr hs.left hto'
    rcases FileTree.rename_cases h with ⟨hsame, -⟩ | ⟨hcan, -⟩
    · exact hdiff hsame
    · exact hcan.not_within habove
  · obtain ⟨habove, hdiff⟩ := hbelow hfrom hab.symm hr hq hs'.left hfrom'
    rcases FileTree.rename_cases h with ⟨hsame, -⟩ | ⟨hcan, -⟩
    · exact hdiff hsame.symm
    · exact hcan.not_beyond hcan.mem habove

omit hD hforward hroot hfrom hto in
lemma cipherPath_eq {path q : Bytes} {iv : UInt64} (hq : D.naming.encodePathIV path 0 = .ok (q, iv)) :
    D.cipherPath path = .ok (D.rootDir ++ q) := by
  rw [cipherPath, encodePath, hq]
  rfl

omit hD hforward hroot hfrom hto in
lemma rename_moved_encoded {q r : Bytes} {a b : UInt64}
    (hq : D.naming.encodePathIV fromP 0 = .ok (q, a)) (hr : D.naming.encodePathIV toP 0 = .ok (r, b))
    (hmoved : D.rename (D.renameNodeIn new iv) A fuel fromP toP V = (.moved, V')) :
    ∃ l done V₁ V₂,
      (if D.hasDirectoryNameDependency ∧ V.isDirectory (D.rootDir ++ q) then
        D.genRenameList (V.opendir A) V.isDirectory fuel fromP toP else some []) = some l ∧
      RenameOp.apply (D.renameNodeIn new iv) A l V = (true, done, V₁) ∧
      D.renameNodeIn new iv fromP toP true V₁ = (true, V₂) ∧
      V₂.rename A (D.rootDir ++ q) (D.rootDir ++ r) = some V' := by
  obtain ⟨fromC, toC, l, done, V₁, V₂, hfromC, htoC, hlist, happly, hnode, hlast⟩ :=
    rename_moved hmoved
  obtain rfl : fromC = D.rootDir ++ q := Except.ok.inj (hfromC.symm.trans (cipherPath_eq hq))
  obtain rfl : toC = D.rootDir ++ r := Except.ok.inj (htoC.symm.trans (cipherPath_eq hr))
  exact ⟨l, done, V₁, V₂, hlist, happly, hnode, hlast⟩

variable (hS : Filing V.nodes) (hnew : V.nodes.Unused new)
  (hfile : D.FileAt V.disk (below fromP x) content)
include hne hx hmoved

omit hto hne hmoved in
lemma FileAt.entry {q : Bytes} {a : UInt64} (hfile : D.FileAt V.disk (below fromP x) content)
    (hq : D.naming.encodePathIV fromP 0 = .ok (q, a)) :
    ∃ es, D.naming.Coded a x es ∧ (components (D.rootDir ++ q) ++ es, .file content) ∈ V.disk.entries := by
  obtain ⟨es, q', iv', hcoded, hbelow, hcomp⟩ := encodePathIV_below hD hforward hfrom hq hx
  obtain ⟨c, hc, hmem⟩ := hfile
  refine ⟨es, hcoded, ?_⟩
  obtain rfl : c = D.rootDir ++ q' := Except.ok.inj (hc.symm.trans (cipherPath_eq hbelow))
  rwa [components_root hroot, hcomp, ← List.append_assoc, ← components_root hroot] at hmem

include hS hnew hfile

lemma openAt_of_follows (hopen : D.OpenAt V.nodes (below fromP x) pl) (hfollows : Follows D fromP toP x) :
    D.OpenAt V'.nodes (below toP x) pl ∧ V'.nodes.placeholder pl = V.nodes.placeholder pl := by
  obtain ⟨q, a, hq, -⟩ := encodePathIV_ok hD hforward hfrom 0
  obtain ⟨r, b, hr, -⟩ := encodePathIV_ok hD hforward hto 0
  obtain ⟨es, hcoded, hentry⟩ := hfile.entry hD hforward hroot hfrom hx hq
  obtain ⟨l, done, V₁, V₂, hlist, happly, hnode, hlast⟩ := rename_moved_encoded hq hr hmoved
  obtain ⟨hfiled, -, c, hc, hnames⟩ := hopen
  have hpl : Holds V.nodes new (below fromP x) pl (V.nodes.placeholder pl) ⟨below fromP x, c, c⟩ :=
    ⟨hS, hnew, hfiled, rfl, hnames⟩
  rcases hfollows with rfl | hrekeyed
  · have hnil : l = [] := by
      split at hlist
      · cases fuel with
        | zero => cases hlist
        | succ fuel =>
          obtain ⟨q', a', r', b', hq', hr', ⟨-, hl⟩ | ⟨hab, -⟩⟩ := genRenameList_succ hlist
          · exact hl
          · rw [hq'] at hr'
            exact absurd (Prod.mk.inj (Except.ok.inj hr')).2 hab
      · exact (Option.some.inj hlist).symm
    subst hnil
    obtain ⟨-, -, rfl⟩ := happly
    have hpl' := hpl.frame (renameNodeIn_ok hnode) (below_ne hne) (below_ne hne)
    rw [← (Volume.rename_cases hlast).2] at hpl'
    exact hpl'.openAt hc
  · have hab := hrekeyed.iv_ne hne hq hr
    have hchained : D.hasDirectoryNameDependency = true := by
      by_contra hchain
      rw [hasDirectoryNameDependency, Bool.not_eq_true] at hchain
      apply hab
      rw [encodePathIV_unchained hD hforward hchain hfrom hq,
        encodePathIV_unchained hD hforward hchain hto hr]
    have hes : es ≠ [] := by
      rintro rfl
      cases hcoded
      exact hne rfl
    have hmem : components (D.rootDir ++ q) ++ es ∈ V.disk.paths :=
      V.disk.mem_paths.mpr ⟨_, hentry⟩
    have hdir : V.isDirectory (D.rootDir ++ q) = true :=
      FileTree.isDirectory_iff.mpr (FileTree.dir_of_append hmem hes)
    rw [if_pos ⟨hchained, hdir⟩] at hlist
    obtain ⟨hdisk, hnodes⟩ := Volume.rename_cases hlast
    have hdisj {s s' : Bytes} (hs : Boundary s) (hs' : Boundary s') : fromP ++ s ≠ toP ++ s' :=
      rename_unnested hD hforward hroot hfrom hto hq hr hab hdisk hs hs'
    have hex := mem_genRenameList hD hforward hroot hlist hfrom hq hne hx hcoded hmem hrekeyed
    have hall : ∀ el ∈ l, ∃ s, Boundary s ∧ el.oldPName = fromP ++ s ∧ el.newPName = toP ++ s := by
      intro el hel
      obtain ⟨y, -, -, hold, hnew, -⟩ := genRenameList_below hlist hel
      exact ⟨_, boundary_flatMap y, hold, hnew⟩
    have harrived := apply_arrives hdisj (boundary_flatMap x) happly hall hex hpl
    have hnode' := renameNodeIn_ok hnode
    rw [← List.append_nil fromP, ← List.append_nil toP] at hnode'
    obtain ⟨-, c', hc', hpl'⟩ := harrived.step hdisj (boundary_flatMap x) boundary_nil hnode'
    rw [← hnodes] at hpl'
    exact hpl'.openAt hc'

omit hD hforward hroot hto hfile in
lemma follows_of_openAt (hcanon : D.Canonical V.disk) (hopen : D.OpenAt V.nodes (below fromP x) pl)
    (hopen' : D.OpenAt V'.nodes (below toP x) pl) : Follows D fromP toP x := by
  by_contra hfollows
  obtain ⟨hsame, hrekeyed⟩ := not_or.mp hfollows
  obtain ⟨fromC, toC, l, done, V₁, V₂, -, -, hlist, happly, hnode, hlast⟩ := rename_moved hmoved
  have hold : ∀ el ∈ l, el.oldPName ≠ below fromP x := by
    intro el hel heq
    split at hlist
    · obtain ⟨y, -, hyr, hely, -, hy⟩ := genRenameList_below hlist hel
      rw [heq] at hely
      have hxy := below_injective (fun n hn => (hx n hn).no_slash)
        (fun n hn => (hy hcanon hfrom n hn).no_slash) hely
      rw [hxy] at hrekeyed
      exact hrekeyed hyr
    · rw [← Option.some.inj hlist] at hel
      cases hel
  have hstay : Filing V₁.nodes ∧ V₁.nodes.Unused new ∧
      ∀ p, V₁.nodes.Filed p pl → p = below fromP x := by
    refine RenameOp.apply_invariant (P := fun S => Filing S ∧ S.Unused new ∧
      ∀ p, S.Filed p pl → p = below fromP x) happly (fun el hel V V₁ hstep hP => ?_)
      ⟨hS, hnew, fun p hp => hS.filed_unique hp hopen.filed⟩
    obtain ⟨hfiling, hunused, honly⟩ := hP
    have hstep := renameNodeIn_ok hstep
    obtain ⟨hfiling', hunused'⟩ := renameNode_filing hfiling hstep hunused
    exact ⟨hfiling', hunused', renameNode_stays hfiling hstep honly (hold el hel)⟩
  obtain ⟨hfiling, -, honly⟩ := hstay
  have honly' := renameNode_stays hfiling (renameNodeIn_ok hnode) honly (below_ne hne).symm
  rw [← (Volume.rename_cases hlast).2] at honly'
  exact hsame (below_inj_left.mp (honly' _ hopen'.filed)).symm

omit hS hnew in
lemma fileAt_of_moved (hcanon : D.Canonical V.disk) : D.FileAt V'.disk (below toP x) content := by
  obtain ⟨q, a, hq, -⟩ := encodePathIV_ok hD hforward hfrom 0
  obtain ⟨r, b, hr, -⟩ := encodePathIV_ok hD hforward hto 0
  obtain ⟨es, hcoded, hentry⟩ := hfile.entry hD hforward hroot hfrom hx hq
  obtain ⟨es', r', iv, hcoded', hbelow, hcomp⟩ := encodePathIV_below hD hforward hto hr hx
  obtain ⟨l, done, V₁, V₂, hlist, happly, hnode, hlast⟩ := rename_moved_encoded hq hr hmoved
  have hes : es ≠ [] := by
    rintro rfl
    cases hcoded
    exact hne rfl
  have hdir : V.isDirectory (D.rootDir ++ q) = true :=
    FileTree.isDirectory_iff.mpr (FileTree.dir_of_append (V.disk.mem_paths.mpr ⟨_, hentry⟩) hes)
  have hrecoded : FileTree.Relocated (underPath (components (D.rootDir ++ q)) (D.recode a b)) V.disk
      V₁.disk := by
    cases hchain : D.hasDirectoryNameDependency with
    | true =>
      rw [if_pos ⟨hchain, hdir⟩] at hlist
      exact relocated_list hD hforward hroot hcanon (fun _ _ _ _ => rfl) hlist hfrom hto hq hr
        (fun _ _ => Iff.rfl) happly
    | false =>
      rw [if_neg (by simp [hchain])] at hlist
      obtain rfl := Option.some.inj hlist
      obtain ⟨-, -, rfl⟩ := happly
      rw [encodePathIV_unchained hD hforward hchain hfrom hq,
        encodePathIV_unchained hD hforward hchain hto hr]
      exact FileTree.Relocated.of_id fun p _ => underPath_id recode_self p
  have hdisk : V₂.disk = V₁.disk := by
    rw [← (Prod.mk.inj hnode).2]
  have hlast' := FileTree.relocated_rename (Volume.rename_cases hlast).1
  rw [hdisk] at hlast'
  refine ⟨D.rootDir ++ r', cipherPath_eq hbelow, (hrecoded.trans hlast').mem_iff.mpr ⟨_, hentry, ?_⟩⟩
  rw [Function.comp, underPath_append, movedPath_append, recode_coded hcoded hcoded',
    components_root hroot, components_root hroot, hcomp, List.append_assoc]

end Rename

/-- What was open below a directory is open below its new name just when the directories on the way
have other IVs there, or the name is the same; the backing file is there in any case. -/
theorem open_descendants (D : DirNode) (hD : D.naming.Supported)
    (hroot : D.rootDir.getLast? = some slash) {ε : Type} {fromP toP : Bytes} {x : List Bytes}
    (hfrom : (0 : UInt8) ∉ fromP) (hto : (0 : UInt8) ∉ toP) (hne : x ≠ [])
    (hx : ∀ n ∈ x, ValidName n) {V V' : Volume ε Context} {new pl fuel : ℕ}
    {iv : Bytes → Bytes → Bool → SetIV} {A : UnixAnswers} {content : ε} (hS : Filing V.nodes)
    (hnew : V.nodes.Unused new) (hfile : D.FileAt V.disk (below fromP x) content)
    (hopen : D.OpenAt V.nodes (below fromP x) pl)
    (hmoved : D.rename (D.renameNodeIn new iv) A fuel fromP toP V = (.moved, V')) :
    (Follows D fromP toP x → D.OpenAt V'.nodes (below toP x) pl ∧
      V'.nodes.placeholder pl = V.nodes.placeholder pl) ∧
    (D.Canonical V.disk → D.FileAt V'.disk (below toP x) content ∧
      (D.OpenAt V'.nodes (below toP x) pl → Follows D fromP toP x)) := by
  have hlawful := hD.lawful
  have hforward := hD.forward
  refine ⟨fun hfollows => ?_, fun hcanon => ⟨?_, fun hopen' => ?_⟩⟩
  · exact openAt_of_follows hlawful hforward hroot hfrom hto hne hx hmoved hS hnew hfile hopen hfollows
  · exact fileAt_of_moved hlawful hforward hroot hfrom hto hne hx hmoved hfile hcanon
  · exact follows_of_openAt hfrom hne hx hmoved hS hnew hcanon hopen hopen'

def oneFile (d x : Bytes) : FileTree Bytes Unit :=
  .ofEntries [([], .dir), ([[114]], .dir), ([[114], d], .dir), ([[114], d, x], .file ())]
    (by simp [List.nodup_cons]) (by simp)

def oneOpen (cname : Bytes) : Context where
  openFiles path := if path = [47, 100, 47, 120] then some {10} else none
  live pl := pl = 10
  placeholder _ := 1
  node _ := ⟨[47, 100, 47, 120], cname, cname⟩

lemma oneOpen_filed {cname path : Bytes} {pl : ℕ} :
    (oneOpen cname).Filed path pl ↔ path = [47, 100, 47, 120] ∧ pl = 10 := by
  simp only [Filed, oneOpen]
  split
  · rename_i h
    simp [h]
  · rename_i h
    simp [h]

lemma oneOpen_filing (cname : Bytes) : Filing (oneOpen cname) where
  nonempty {path set} h := by
    simp only [oneOpen] at h
    split at h
    · obtain rfl := Option.some.inj h
      exact Finset.singleton_nonempty 10
    · cases h
  shared _ _ := rfl
  named h := (oneOpen_filed.mp h).1.symm

lemma oneOpen_openAt {D : DirNode} {cname : Bytes} (h : D.cipherPath [47, 100, 47, 120] = .ok cname) :
    D.OpenAt (oneOpen cname) [47, 100, 47, 120] 10 where
  filed := oneOpen_filed.mpr ⟨rfl, rfl⟩
  found := (oneOpen_filing cname).lookupNode_filed (oneOpen_filed.mpr ⟨rfl, rfl⟩)
  names := ⟨cname, h, rfl⟩

def allAllowed : UnixAnswers := ⟨fun _ => true, fun _ _ => true⟩

structure MaskName (e n : Bytes) (iv iv' : UInt64) : Prop where
  valid : ValidName n
  decode : OpenRun.maskVolume.naming.decodePathIV e iv = .ok (n, iv')
  encode : OpenRun.maskVolume.naming.encodePathIV n iv = .ok (e, iv')

lemma MaskName.unique {e n n₁ : Bytes} {iv iv' iv₁ : UInt64} (hname : MaskName e n₁ iv iv₁)
    (hdec : OpenRun.maskVolume.naming.decodePathIV e iv = .ok (n, iv')) :
    ValidName n ∧ OpenRun.maskVolume.naming.encodePathIV n iv = .ok (e, iv') := by
  rw [hname.decode] at hdec
  obtain ⟨rfl, rfl⟩ := Prod.mk.inj (Except.ok.inj hdec)
  exact ⟨hname.valid, hname.encode⟩

lemma maskVolume_supported : OpenRun.maskVolume.naming.Supported :=
  .stream maskStreamNames 16 (maskCipher_namesLawful 16) (by decide) true

section MaskNames

variable {d q e n c e₁ n₀ n₁ : Bytes} {iv iv' iv₁ iv₂ : UInt64} (hnull : (0 : UInt8) ∉ d)
  (hd : OpenRun.maskVolume.naming.encodePathIV d 0 = .ok (q, iv))
  (hdec : OpenRun.maskVolume.naming.decodePathIV e iv = .ok (n, iv'))
include hnull hd hdec

omit hdec in
lemma parent_walk {y : List Bytes} (hpath : components q ++ [e] = y ++ [e₁]) :
    e = e₁ ∧ OpenRun.maskVolume.naming.Walk (OpenRun.maskVolume.naming.chained 0) (components d) y
      (OpenRun.maskVolume.naming.chained iv) := by
  have hwalk := encodePathIV_walk maskVolume_supported.lawful maskVolume_supported.forward hnull hd
  obtain ⟨hq, he⟩ := List.append_inj' hpath rfl
  rw [hq] at hwalk
  exact ⟨List.singleton_inj.mp he, hwalk⟩

lemma canonical_top (hname : MaskName e₁ n₁ 0 iv₁) (hpath : components q ++ [e] = [] ++ [e₁]) :
    ValidName n ∧ OpenRun.maskVolume.naming.encodePathIV n iv = .ok (e, iv') := by
  obtain ⟨rfl, hwalk⟩ := parent_walk hnull hd hpath
  obtain rfl : iv = 0 := Option.some.inj hwalk.iv_eq
  exact hname.unique hdec

lemma canonical_child (hname : MaskName e₁ n₁ iv₂ iv₁)
    (hcode : codeComponent OpenRun.maskVolume.naming.maxDecodedNameLen
      OpenRun.maskVolume.naming.decodeName c (OpenRun.maskVolume.naming.chained 0) =
        .ok (n₀, some iv₂))
    (hpath : components q ++ [e] = [c] ++ [e₁]) :
    ValidName n ∧ OpenRun.maskVolume.naming.encodePathIV n iv = .ok (e, iv') := by
  obtain ⟨rfl, hwalk⟩ := parent_walk hnull hd hpath
  generalize components d = y at hwalk
  cases hwalk with
  | cons encode decode rest =>
    rw [hcode] at decode
    obtain ⟨-, rfl⟩ := Prod.mk.inj (Except.ok.inj decode)
    obtain rfl : iv = iv₂ := Option.some.inj rest.iv_eq
    exact hname.unique hdec

end MaskNames

lemma maskName_d : MaskName [45, 111, 88, 74] [100] 0 317 where
  valid := ⟨by decide, by decide, by decide, by decide⟩
  decode := by decide +kernel
  encode := by decide +kernel

lemma maskName_x : MaskName [98, 69, 102, 122] [120] 317 10164 where
  valid := ⟨by decide, by decide, by decide, by decide⟩
  decode := by decide +kernel
  encode := by decide +kernel

lemma maskCode_d : codeComponent OpenRun.maskVolume.naming.maxDecodedNameLen
    OpenRun.maskVolume.naming.decodeName [45, 111, 88, 74] (OpenRun.maskVolume.naming.chained 0) =
      .ok ([100], some 317) := by
  decide +kernel

lemma oneFile_canonical :
    OpenRun.maskVolume.Canonical (oneFile [45, 111, 88, 74] [98, 69, 102, 122]) := by
  intro d q iv e n iv' hnull hd hmem hdots hdec
  have hroot : components OpenRun.maskVolume.rootDir = [[114]] := by decide
  rw [components_root (by rfl), hroot] at hmem
  have hpaths : components q ++ [e] = [] ++ [[45, 111, 88, 74]] ∨
      components q ++ [e] = [[45, 111, 88, 74]] ++ [[98, 69, 102, 122]] := by
    simpa [oneFile, FileTree.ofEntries, FileTree.paths] using hmem
  rcases hpaths with h | h
  · exact canonical_top hnull hd hdec maskName_d h
  · exact canonical_child hnull hd hdec maskName_x maskCode_d h

theorem open_descendants_below :
    ∃ V' : Volume Unit Context, OpenRun.maskVolume.OpenAt V'.nodes [47, 101, 47, 120] 10 ∧
      OpenRun.maskVolume.FileAt V'.disk [47, 101, 47, 120] () := by
  have hD : OpenRun.maskVolume.naming.Supported :=
    .stream maskStreamNames 16 (maskCipher_namesLawful 16) (by decide) true
  have hc : OpenRun.maskVolume.cipherPath [47, 100, 47, 120] =
      .ok [47, 114, 47, 45, 111, 88, 74, 47, 98, 69, 102, 122] := by
    decide +kernel
  let V : Volume Unit Context := ⟨oneFile [45, 111, 88, 74] [98, 69, 102, 122],
    oneOpen [47, 114, 47, 45, 111, 88, 74, 47, 98, 69, 102, 122]⟩
  have hmoved : OpenRun.maskVolume.rename (OpenRun.maskVolume.renameNodeIn 3 fun _ _ _ => .done)
      allAllowed 3 [47, 100] [47, 101] V = (.moved, _) :=
    Prod.ext (by decide +kernel) rfl
  have hfile : OpenRun.maskVolume.FileAt V.disk (below [47, 100] [[120]]) () :=
    ⟨_, hc, by decide +kernel⟩
  have hopen : OpenRun.maskVolume.OpenAt V.nodes (below [47, 100] [[120]]) 10 := oneOpen_openAt hc
  have hx : ∀ n ∈ [[(120 : UInt8)]], ValidName n := by
    intro n hn
    rw [List.mem_singleton.mp hn]
    exact ⟨by decide, by decide, by decide, by decide⟩
  have hunused : V.nodes.Unused 3 := fun _ => (by decide : (1 : ℕ) ≠ 3)
  have hmain := open_descendants OpenRun.maskVolume hD (by rfl) (by decide) (by decide) (by decide) hx
    (oneOpen_filing _) hunused hfile hopen hmoved
  have hrekeyed : Rekeyed OpenRun.maskVolume [47, 100] [47, 101] [[120]] := by
    decide +kernel
  exact ⟨_, (hmain.1 (.inr hrekeyed)).1, (hmain.2 oneFile_canonical).1⟩

def unchainedVolume : DirNode := ⟨[47, 114, 47], maskStreamNames.nameIO false false⟩

theorem not_open_descendants :
    ∃ V V' : Volume Unit Context, Filing V.nodes ∧
      unchainedVolume.OpenAt V.nodes [47, 100, 47, 120] 10 ∧
      unchainedVolume.rename (unchainedVolume.renameNodeIn 3 fun _ _ _ => .done) allAllowed 3
        [47, 100] [47, 101] V = (.moved, V') ∧
      unchainedVolume.FileAt V'.disk [47, 101, 47, 120] () ∧
      ¬ unchainedVolume.OpenAt V'.nodes [47, 101, 47, 120] 10 ∧
      V'.nodes.Filed [47, 100, 47, 120] 10 := by
  have hc : unchainedVolume.cipherPath [47, 100, 47, 120] =
      .ok [47, 114, 47, 45, 111, 88, 74, 47, 45, 50, 90, 55] := by
    decide +kernel
  have hc' : unchainedVolume.cipherPath [47, 101, 47, 120] =
      .ok [47, 114, 47, 45, 115, 49, 74, 47, 45, 50, 90, 55] := by
    decide +kernel
  let V : Volume Unit Context := ⟨oneFile [45, 111, 88, 74] [45, 50, 90, 55],
    oneOpen [47, 114, 47, 45, 111, 88, 74, 47, 45, 50, 90, 55]⟩
  have hmoved : unchainedVolume.rename (unchainedVolume.renameNodeIn 3 fun _ _ _ => .done)
      allAllowed 3 [47, 100] [47, 101] V = (.moved, _) :=
    Prod.ext (by decide +kernel) rfl
  refine ⟨V, _, oneOpen_filing _, oneOpen_openAt hc, hmoved, ⟨_, hc', by decide +kernel⟩, ?_, ?_⟩
  · intro hopen
    exact not_filed (by decide +kernel) hopen.filed
  · exact ⟨{10}, by decide +kernel, Finset.mem_singleton_self 10⟩

end DirNode

end EncFS
