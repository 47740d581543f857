import EncFS.DirNode.DiskFile
import EncFS.DirNode.OpenDescendants

/-! A recursive rename that stops, and what is left of it when it is undone. -/

set_option autoImplicit false

namespace EncFS

open CipherFile DiskChain

namespace DiskChain

variable (K : DiskChain)

def ownIV (iv : UInt64) : Action (NodeState OnDisk) PUnit :=
  if K.externalIVChaining then do
    let _ ← K.setName none none iv true
    pure ⟨⟩
  else pure ⟨⟩

variable {K} {T : FileTree Bytes Bytes} {N : NodeState OnDisk} {name : Bytes} {iv : UInt64}
  {flags draws : ℕ}

def Told (K : DiskChain) (T : FileTree Bytes Bytes) (name : Bytes) (iv : UInt64) (flags draws : ℕ)
    (f : CipherFile (Named OnDisk)) : Prop :=
  f = unopened T name (if T.find (components name) = some .dir then 0 else iv) flags draws ∧
    (K.cipherIO.haveHeader = true → ¬ OnDisk.Short T (components name))

lemma ownIV_new (hN : N.io = unopened T name 0 flags draws) :
    Yields (K.ownIV iv) N
      (fun _ N' => N'.io.base.file.disk = T ∧
        (K.externalIVChaining = true → K.Told T name iv flags draws N'.io))
      fun _ N' => N'.io.base.file.disk = T ∧ K.cipherIO.haveHeader = true ∧
        OnDisk.Short T (components name) := by
  rw [ownIV]
  by_cases hchain : K.externalIVChaining = true
  · rw [if_pos hchain]
    have hset : Yields (K.setIV iv) N.io (fun _ => K.Told T name iv flags draws)
        fun _ f' => f' = unopened T name 0 flags draws ∧ K.cipherIO.haveHeader = true ∧
          OnDisk.Short T (components name) := by
      rw [hN]
      exact setIV_new
    have hchainIV : Yields (K.chainIV iv) N (fun _ N' => K.Told T name iv flags draws N'.io)
        fun _ N' => N'.io.base.file.disk = T ∧ K.cipherIO.haveHeader = true ∧
          OnDisk.Short T (components name) := by
      rw [NodeChain.chainIV, if_pos hchain]
      refine (NodeState.onLayers_yields hset).mono (fun _ _ h => h.2) ?_
      rintro e N' ⟨-, hsame, hshort⟩
      rw [hsame]
      exact ⟨rfl, hshort⟩
    refine .bind (.get (.bind (hchainIV.mono ?_ fun _ _ h => h)))
    intro r N' htold
    have hdisk : N'.io.base.file.disk = T := by
      rw [htold.1]
      rfl
    cases r with
    | false => exact .pure (.pure ⟨hdisk, fun _ => htold⟩)
    | true => exact .modify (.pure (.pure ⟨hdisk, fun _ => htold⟩))
  · rw [if_neg hchain]
    refine .pure ⟨?_, fun h => absurd h hchain⟩
    rw [hN]
    rfl

end DiskChain

namespace DirNode

variable (D : DirNode) (K : DiskChain)

def renameNew (toP : Bytes) (iv : UInt64) (forwardMode : Bool) : Action (NodeState OnDisk) Bool := do
  K.ownIV iv
  match D.naming.encodePathIV toP 0 with
  | .error e => throw e
  | .ok (cname, newIV) => K.setName (some toP) (some (D.rootDir ++ cname)) newIV forwardMode

def renameNodeOn : NodeRename Bytes ℕ := fun fromP toP forwardMode V =>
  match D.naming.encodePathIV fromP 0 with
  | .error _ => (false, V)
  | .ok (cipherName, iv) =>
    match D.renameNew K toP iv forwardMode
        (NodeChain.newNode fromP (D.rootDir ++ cipherName) ⟨V.disk, none, false⟩ V.nodes) with
    | .ok r N => (r, ⟨N.io.base.file.disk, N.io.draws⟩)
    | .error _ N => (false, ⟨N.io.base.file.disk, N.io.draws⟩)

/-- What a new node for the path does not get the external IV of. -/
def Blocked (T : FileTree Bytes Bytes) (p : List Bytes) : Prop :=
  T.find p = some .dir ∨ OnDisk.Short T p

variable {D K} {fromP toP q q' : Bytes} {v v' : UInt64} {V : Volume Bytes ℕ} {bs : ℕ}

lemma not_long_of_short {T : FileTree Bytes Bytes} {p : List Bytes} (h : OnDisk.Short T p) {c : Bytes}
    (hc : T.find p = some (.file c)) : c.length < HEADER_SIZE := by
  obtain ⟨c', hfile, -, hlt⟩ := h
  rw [hfile] at hc
  cases hc
  exact hlt

lemma renameNodeOn_yields {forwardMode : Bool} {P : Bool → FileTree Bytes Bytes → Prop}
    (hfrom : D.naming.encodePathIV fromP 0 = .ok (q, v))
    (h : Yields (D.renameNew K toP v forwardMode)
      (NodeChain.newNode fromP (D.rootDir ++ q) ⟨V.disk, none, false⟩ V.nodes)
      (fun r N => P r N.io.base.file.disk) fun _ N => P false N.io.base.file.disk) :
    P (D.renameNodeOn K fromP toP forwardMode V).1
      (D.renameNodeOn K fromP toP forwardMode V).2.disk := by
  rw [renameNodeOn, hfrom]
  dsimp only
  cases hrun : D.renameNew K toP v forwardMode
      (NodeChain.newNode fromP (D.rootDir ++ q) ⟨V.disk, none, false⟩ V.nodes) with
  | ok r N => exact h.ok hrun
  | error e N => exact h.error hrun

variable (K) in
def BackOutcome (T : FileTree Bytes Bytes) (name name' : Bytes) (v v' : UInt64) (r : Bool)
    (T' : FileTree Bytes Bytes) : Prop :=
  ((K.Rekeys → ¬ OnDisk.Short T (components name)) ∧
    K.Outcome T name' (if T.find (components name) = some .dir then 0 else v) v' r T') ∨
  OnDisk.Short T (components name) ∧ T' = T

section Back

variable {U U' : FileTree Bytes Bytes} {name name' c : Bytes} {r : Bool}
  (hback : BackOutcome K U name' name v' v r U')
include hback

lemma BackOutcome.of_plain (hK : ¬ K.Rekeys) : U' = U := by
  rcases hback with ⟨-, hout⟩ | ⟨-, hsame⟩
  · exact hout.of_plain hK
  · exact hsame

lemma BackOutcome.of_blocked (hK : K.Rekeys) (hblocked : Blocked U (components name')) : U' = U := by
  rcases hback with ⟨hlong, hout⟩ | ⟨-, hsame⟩
  · rw [if_pos (hblocked.resolve_right (hlong hK))] at hout
    exact hout.of_zero
  · exact hsame

lemma BackOutcome.of_free (hfree : ¬ Blocked U (components name')) : K.Outcome U name v' v r U' := by
  rcases hback with ⟨-, hout⟩ | ⟨hshort, -⟩
  · rwa [if_neg fun h => hfree (.inl h)] at hout
  · exact absurd (.inr hshort) hfree

lemma BackOutcome.of_zero (hv : v' = 0) : U' = U := by
  rcases hback with ⟨-, hout⟩ | ⟨-, hsame⟩
  · rw [hv, ite_self] at hout
    exact hout.of_zero
  · exact hsame

lemma BackOutcome.of_same (hv : v' = v) (hC : K.cipherIO.cipher.Lawful bs)
    (hfile : U.find (components name) = some (.file c)) (hlen : HEADER_SIZE ≤ c.length) : U' = U := by
  rcases hback with ⟨-, hout⟩ | ⟨-, hsame⟩
  · rw [hv] at hout
    split at hout
    · exact hout.of_zero
    · exact hout.of_same hC hfile hlen
  · exact hsame

end Back

section Node

variable (hC : K.cipherIO.cipher.Lawful bs) (hfrom : D.naming.encodePathIV fromP 0 = .ok (q, v))
  (hto : D.naming.encodePathIV toP 0 = .ok (q', v'))
include hC hfrom hto

lemma renameNodeOn_forth :
    K.Outcome V.disk (D.rootDir ++ q) v v' (D.renameNodeOn K fromP toP true V).1
      (D.renameNodeOn K fromP toP true V).2.disk := by
  refine renameNodeOn_yields hfrom (.bind ((ownIV_new rfl).mono ?_ ?_))
  · rintro - N ⟨hdisk, htold⟩
    rw [hto]
    by_cases hdir : V.disk.find (components (D.rootDir ++ q)) = some .dir
    · have hzero : K.externalIVChaining = true →
          N.io = unopened V.disk (D.rootDir ++ q) 0 0 V.nodes := by
        intro hchain
        have hio := (htold hchain).1
        rwa [if_pos hdir] at hio
      have hother (r : Bool) : K.Outcome V.disk (D.rootDir ++ q) v v' r V.disk := by
        refine .other fun c hc => ?_
        rw [hdir] at hc
        cases hc
      refine setName_disk ((chainIV_outcome hC hdisk hzero).mono ?_ ?_)
      · intro r N' hout
        rw [hout.of_zero]
        exact hother r
      · intro e N' hout
        rw [hout.of_zero]
        exact hother false
    · have htold' : K.externalIVChaining = true →
          N.io = unopened V.disk (D.rootDir ++ q) v 0 V.nodes := by
        intro hchain
        have hio := (htold hchain).1
        rwa [if_neg hdir] at hio
      exact setName_disk (chainIV_outcome hC hdisk htold')
  · rintro e N ⟨hdisk, -, hshort⟩
    rw [hdisk]
    exact .other fun c => not_long_of_short hshort

omit hC hfrom hto in
lemma beforeIV_io {N : NodeState OnDisk} {T : FileTree Bytes Bytes} {name c : Bytes} {n k : ℕ}
    (pname : Option Bytes) (hN : N.io = unopened T name v k n) :
    (NodeChain.beforeIV pname (some c) false N).io = unopened T c v k n := by
  have hio : (NodeChain.beforeIV pname (some c) false N).io =
      { N.io with base := RawCalls.setFileName c N.io.base } := rfl
  rw [hio, hN]
  rfl

lemma renameNodeOn_back :
    BackOutcome K V.disk (D.rootDir ++ q) (D.rootDir ++ q') v v'
      (D.renameNodeOn K fromP toP false V).1 (D.renameNodeOn K fromP toP false V).2.disk := by
  refine renameNodeOn_yields (P := BackOutcome K V.disk (D.rootDir ++ q) (D.rootDir ++ q') v v') hfrom
    (.bind ((ownIV_new rfl).mono ?_ ?_))
  · rintro - N ⟨hdisk, htold⟩
    rw [hto]
    have hsame : (NodeChain.beforeIV (some toP) (some (D.rootDir ++ q')) false N).io.base.file.disk =
        V.disk := hdisk
    have hnamed := fun hchain => beforeIV_io (c := D.rootDir ++ q') (some toP) (htold hchain).1
    have hlong : K.Rekeys → ¬ OnDisk.Short V.disk (components (D.rootDir ++ q)) :=
      fun hK => (htold hK.1).2 hK.2
    refine setName_disk (P := BackOutcome K V.disk (D.rootDir ++ q) (D.rootDir ++ q') v v')
      ((chainIV_outcome hC hsame hnamed).mono ?_ ?_)
    · exact fun r N' hout => .inl ⟨hlong, hout⟩
    · exact fun e N' hout => .inl ⟨hlong, hout⟩
  · rintro e N ⟨hdisk, -, hshort⟩
    exact .inr ⟨hshort, hdisk⟩

end Node

def Grown (c c' : Bytes) : Prop := c' = c ∨ c = [] ∧ HEADER_SIZE ≤ c'.length

lemma Grown.refl (c : Bytes) : Grown c c := .inl rfl

lemma Grown.trans {c c' c'' : Bytes} (h : Grown c c') (h' : Grown c' c'') : Grown c c'' := by
  rcases h with rfl | ⟨rfl, hlen⟩
  · exact h'
  · rcases h' with rfl | ⟨rfl, -⟩
    · exact .inr ⟨rfl, hlen⟩
    · exact absurd hlen (by decide)

lemma Grown.of_long {c c' : Bytes} (h : Grown c c') (hlen : HEADER_SIZE ≤ c.length) : c' = c := by
  rcases h with h | ⟨rfl, -⟩
  · exact h
  · exact absurd hlen (by decide)

section Alike

variable {T U U' : FileTree Bytes Bytes} {p : List Bytes} {R : Bytes → Bytes → Prop}

lemma blocked_iff (hR : ∀ c c', R c c' →
      (0 < c.length ∧ c.length < HEADER_SIZE ↔ 0 < c'.length ∧ c'.length < HEADER_SIZE))
    (h : T.Alike R U) : Blocked T p ↔ Blocked U p := by
  cases hfind : T.find p with
  | none => simp [Blocked, OnDisk.Short, hfind, h.find_none hfind]
  | some entry =>
    cases entry with
    | dir => simp [Blocked, hfind, h.find_dir hfind]
    | file c =>
      obtain ⟨c', hc', hrel⟩ := h.find_file hfind
      simp [Blocked, OnDisk.Short, hfind, hc', hR c c' hrel]

lemma Grown.short_iff {c c' : Bytes} (h : Grown c c') :
    0 < c.length ∧ c.length < HEADER_SIZE ↔ 0 < c'.length ∧ c'.length < HEADER_SIZE := by
  rcases h with rfl | ⟨rfl, hlen⟩
  · rfl
  · exact iff_of_false (fun h => absurd h.1 (by decide)) fun h => absurd h.2 (Nat.not_lt.mpr hlen)

variable {name : Bytes} (hC : K.cipherIO.cipher.Lawful bs) (h : T.Alike Grown U)
include hC h

lemma alike_of_outcome {r : Bool}
    (hshort : ∀ c, T.find (components name) = some (.file c) → c.length < HEADER_SIZE)
    (hout : K.Outcome U name v v' r U') : T.Alike Grown U' := by
  have hsource {c : Bytes} (hc : U.find (components name) = some (.file c)) :
      ∃ c₀, T.find (components name) = some (.file c₀) ∧ Grown c₀ c := by
    cases hfind : T.find (components name) with
    | none =>
      rw [h.find_none hfind] at hc
      cases hc
    | some entry =>
      cases entry with
      | dir =>
        rw [h.find_dir hfind] at hc
        cases hc
      | file c₀ =>
        obtain ⟨c', hc', hgrown⟩ := h.find_file hfind
        rw [hc'] at hc
        cases hc
        exact ⟨c₀, rfl, hgrown⟩
  cases hout with
  | plain _ => exact h
  | told _ => exact h
  | other _ => exact h
  | refused _ _ => exact h
  | rewritten _ _ hfile hlen _ _ =>
    obtain ⟨c₀, hc₀, hgrown⟩ := hsource hfile
    rcases hgrown with rfl | ⟨rfl, -⟩
    · exact absurd (hshort _ hc₀) (Nat.not_lt.mpr hlen)
    · refine h.setContent hc₀ (.inr ⟨rfl, ?_⟩)
      rwa [Cipher.rekey_length hC]
  | created _ _ hfile hlen =>
    obtain ⟨c₀, hc₀, hgrown⟩ := hsource hfile
    rcases hgrown with rfl | ⟨rfl, -⟩
    · exact h.setContent hc₀ (.inr ⟨rfl, hlen.ge⟩)
    · exact h.setContent hc₀ (.inr ⟨rfl, hlen.ge⟩)

lemma alike_of_backOutcome {name' : Bytes} {r : Bool}
    (hshort : ∀ c, T.find (components name) = some (.file c) → c.length < HEADER_SIZE)
    (hout : BackOutcome K U name' name v v' r U') : T.Alike Grown U' := by
  rcases hout with ⟨-, hout⟩ | ⟨-, rfl⟩
  · exact alike_of_outcome hC h hshort hout
  · exact h

end Alike

lemma renameNodeOn_named {V₁ : Volume Bytes ℕ} {forwardMode : Bool}
    (h : D.renameNodeOn K fromP toP forwardMode V = (true, V₁)) :
    ∃ q v q' v', D.naming.encodePathIV fromP 0 = .ok (q, v) ∧
      D.naming.encodePathIV toP 0 = .ok (q', v') := by
  cases hfrom : D.naming.encodePathIV fromP 0 with
  | error e =>
    rw [renameNodeOn, hfrom] at h
    cases h
  | ok res =>
    obtain ⟨q, v⟩ := res
    cases hto : D.naming.encodePathIV toP 0 with
    | ok res' => exact ⟨q, v, res'.1, res'.2, rfl, rfl⟩
    | error e =>
      have hfailed : (D.renameNodeOn K fromP toP forwardMode V).1 = false := by
        refine renameNodeOn_yields (P := fun r _ => r = false) hfrom
          (.bind ((ownIV_new rfl).mono ?_ fun _ _ _ => rfl))
        intro _ N _
        rw [hto]
        exact .of_error rfl rfl
      rw [h] at hfailed
      cases hfailed

lemma renameNodeOn_failed (hC : K.cipherIO.cipher.Lawful bs) {V₁ : Volume Bytes ℕ}
    (h : D.renameNodeOn K fromP toP true V = (false, V₁)) : V₁.disk = V.disk := by
  cases hfrom : D.naming.encodePathIV fromP 0 with
  | error e =>
    rw [renameNodeOn, hfrom] at h
    obtain ⟨-, rfl⟩ := Prod.mk.inj h
    rfl
  | ok res =>
    obtain ⟨q, v⟩ := res
    cases hto : D.naming.encodePathIV toP 0 with
    | ok res' =>
      have hout := renameNodeOn_forth (V := V) hC hfrom hto
      rw [h] at hout
      exact hout.of_false
    | error e =>
      have hsame : (D.renameNodeOn K fromP toP true V).2.disk = V.disk := by
        refine renameNodeOn_yields (P := fun _ T => T = V.disk) hfrom
          (.bind ((ownIV_new rfl).mono ?_ fun _ _ h => h.1))
        rintro - N ⟨hdisk, -⟩
        rw [hto]
        exact .of_error rfl hdisk
      rw [h] at hsame
      exact hsame

variable (D K) in
/-- For a file with a header the way back rewrites the header just if the way forth does, or the IVs
are the same. -/
def HeaderReturns (el : RenameEl) (V : Volume Bytes ℕ) : Prop :=
  K.Rekeys → ∀ q v q' v' c, D.naming.encodePathIV el.oldPName 0 = .ok (q, v) →
    D.naming.encodePathIV el.newPName 0 = .ok (q', v') →
    V.disk.find (components (D.rootDir ++ q)) = some (.file c) → HEADER_SIZE ≤ c.length →
    v = v' ∨ (v ≠ 0 ↔ v' ≠ 0 ∧ ¬ Blocked V.disk (components (D.rootDir ++ q')))

section Trees

variable {T T₁ U U' : FileTree Bytes Bytes} {name name' c : Bytes} {r : Bool}
  (hC : K.cipherIO.cipher.Lawful bs) (hback : BackOutcome K U name' name v' v r U')
include hC hback

lemma alike_of_told (hU : T.Alike Grown U)
    (hreturns : K.Rekeys → ∀ c, T.find (components name) = some (.file c) → HEADER_SIZE ≤ c.length →
      v' = 0 ∨ Blocked T (components name')) : T.Alike Grown U' := by
  by_cases hK : K.Rekeys
  · by_cases hlong : ∃ c, T.find (components name) = some (.file c) ∧ HEADER_SIZE ≤ c.length
    · obtain ⟨c, hfile, hlen⟩ := hlong
      rcases hreturns hK c hfile hlen with hzero | hblocked
      · rw [hback.of_zero hzero]
        exact hU
      · rw [blocked_iff (fun _ _ h => h.short_iff) hU] at hblocked
        rw [hback.of_blocked hK hblocked]
        exact hU
    · refine alike_of_backOutcome hC hU (fun c hc => ?_) hback
      exact Nat.not_le.mp fun hlen => hlong ⟨c, hc, hlen⟩
  · rw [hback.of_plain hK]
    exact hU

section Rewritten

variable (hfile : T.find (components name) = some (.file c)) (hlen : HEADER_SIZE ≤ c.length)
  (hU : (T.setContent (components name) (K.cipherIO.cipher.rekey v v' c)).Alike Grown U)
include hfile hlen hU

omit hback in
lemma find_rewritten : U.find (components name) = some (.file (K.cipherIO.cipher.rekey v v' c)) := by
  obtain ⟨c', hfileU, hgrown⟩ := hU.find_file (FileTree.find_setContent hfile)
  have hlen' : HEADER_SIZE ≤ (K.cipherIO.cipher.rekey v v' c).length := by
    rwa [Cipher.rekey_length hC]
  rw [hfileU, hgrown.of_long hlen']

lemma alike_of_same (hv : v' = v) : T.Alike Grown U' := by
  have hfileU := find_rewritten hC hfile hlen hU
  rw [hv, Cipher.rekey_self hC] at hfileU
  rw [hv, Cipher.rekey_self hC, FileTree.setContent_self hfile] at hU
  rw [hback.of_same hv hC hfileU hlen]
  exact hU

omit hback hlen in
lemma blocked_rewritten {p : List Bytes} : Blocked T p ↔ Blocked U p := by
  have hlengths : T.Alike (fun c c' => c'.length = c.length)
      (T.setContent (components name) (K.cipherIO.cipher.rekey v v' c)) := by
    apply FileTree.Alike.setContent _ hfile (Cipher.rekey_length hC)
    exact FileTree.Alike.refl (fun c => (rfl : c.length = c.length)) T
  calc Blocked T p
    _ ↔ Blocked (T.setContent (components name) (K.cipherIO.cipher.rekey v v' c)) p :=
      blocked_iff (fun _ _ h => by rw [h]) hlengths
    _ ↔ Blocked U p := blocked_iff (fun _ _ h => h.short_iff) hU

lemma alike_of_rewritten (hK : K.Rekeys) (hopens : K.opens name = true)
    (hiv : K.cipherIO.cipher.headerIV v c ≠ 0) (hv' : v' ≠ 0)
    (hfree : ¬ Blocked T (components name')) : T.Alike Grown U' := by
  have hfileU := find_rewritten hC hfile hlen hU
  have hlen' : HEADER_SIZE ≤ (K.cipherIO.cipher.rekey v v' c).length := by
    rwa [Cipher.rekey_length hC]
  have hrestored : T.Alike Grown (U.setContent (components name) c) := by
    have hboth := hU.setContent_both (p := components name) (Grown.refl c)
    rwa [FileTree.setContent_setContent, FileTree.setContent_self hfile] at hboth
  have hout := hback.of_free (mt (blocked_rewritten hC hfile hU).mpr hfree)
  cases hout with
  | plain hK' => exact absurd hK hK'
  | told hzero => exact absurd hzero hv'
  | other hshort => exact absurd (hshort _ hfileU) (Nat.not_lt.mpr hlen')
  | refused hfile' hno =>
    rw [hfileU] at hfile'
    cases hfile'
    rcases hno with hno | hno
    · rw [hopens] at hno
      cases hno
    · rw [Cipher.headerIV_rekey hC hlen] at hno
      exact absurd hno hiv
  | rewritten _ _ hfile' _ _ _ =>
    rw [hfileU] at hfile'
    cases hfile'
    rwa [Cipher.rekey_rekey hC hlen]
  | created _ _ hfile' _ =>
    rw [hfileU] at hfile'
    rw [TreeEntry.file.inj (Option.some.inj hfile')] at hlen'
    exact absurd hlen' (by decide)

end Rewritten

end Trees

section Element

variable (hC : K.cipherIO.cipher.Lawful bs) {el : RenameEl} {V₁ U : Volume Bytes ℕ}
  (hforth : D.renameNodeOn K el.oldPName el.newPName true V = (true, V₁))
  (hreturns : HeaderReturns D K el V) (hU : V₁.disk.Alike Grown U.disk)
include hC hforth hreturns hU

lemma alike_renameNodeOn_back : V.disk.Alike Grown
    (D.renameNodeOn K el.newPName el.oldPName false U).2.disk := by
  obtain ⟨q, v, q', v', hold, hnew⟩ := renameNodeOn_named hforth
  have hback := renameNodeOn_back (V := U) hC hnew hold
  have hout := renameNodeOn_forth (V := V) hC hold hnew
  rw [hforth] at hout
  dsimp only at hout
  generalize V₁.disk = T₁ at hout hU
  have hreturns' := fun hK c => hreturns hK q v q' v' c hold hnew
  cases hout with
  | plain hK =>
    rw [hback.of_plain hK]
    exact hU
  | other hshort => exact alike_of_backOutcome hC hU hshort hback
  | told hv =>
    refine alike_of_told hC hback hU fun hK c hfile hlen => ?_
    rcases hreturns' hK c hfile hlen with hsame | hiff
    · exact .inl (hsame ▸ hv)
    · by_contra hneither
      rw [not_or] at hneither
      exact hiff.mpr hneither hv
  | @created c hK hv hfile hlen =>
    have hgrown : V.disk.Alike Grown (V.disk.setContent (components (D.rootDir ++ q)) c) :=
      (FileTree.Alike.refl Grown.refl V.disk).setContent hfile (.inr ⟨rfl, hlen.ge⟩)
    have hV : V.disk.Alike Grown U.disk := hgrown.trans (fun _ _ _ h h' => h.trans h') hU
    refine alike_of_backOutcome hC hV (fun c hc => ?_) hback
    rw [hfile] at hc
    cases hc
    decide
  | @rewritten c hK hv hfile hlen hopens hiv =>
    rcases hreturns' hK c hfile hlen with hsame | hiff
    · exact alike_of_same hC hback hfile hlen hU hsame.symm
    · obtain ⟨hv', hfree⟩ := hiff.mp hv
      exact alike_of_rewritten hC hback hfile hlen hU hK hopens hiv hv' hfree

end Element

variable (D K) in
def EachReturns (A : UnixAnswers) : List RenameEl → Volume Bytes ℕ → Prop
  | [], _ => True
  | el :: renameList, V =>
    match D.renameNodeOn K el.oldPName el.newPName true V with
    | (false, _) => True
    | (true, V₁) =>
      HeaderReturns D K el V ∧
        match V₁.rename A el.oldCName el.newCName with
        | none => True
        | some V₂ => EachReturns A renameList V₂

end DirNode

namespace RenameOp

variable {ε σ : Type} {renameNode : NodeRename ε σ} {A : UnixAnswers}

lemma undo_append (l₁ l₂ : List RenameEl) (V : Volume ε σ) :
    undo renameNode A (l₁ ++ l₂) V = undo renameNode A l₂ (undo renameNode A l₁ V) := by
  induction l₁ generalizing V with
  | nil => rfl
  | cons el l₁ ih => exact ih _

end RenameOp

namespace DirNode

variable {D : DirNode} {K : DiskChain} {bs : ℕ} {A : UnixAnswers} {el : RenameEl} {V V₂ U : Volume Bytes ℕ}

lemma alike_undo (hC : K.cipherIO.cipher.Lawful bs) {V₁ : Volume Bytes ℕ}
    (hforth : D.renameNodeOn K el.oldPName el.newPName true V = (true, V₁))
    (hmoved : V₁.rename A el.oldCName el.newCName = some V₂)
    (hback : A.moves el.newCName el.oldCName = true) (hreturns : HeaderReturns D K el V)
    (hU : V₂.disk.Alike Grown U.disk) :
    V.disk.Alike Grown (RenameOp.undo (D.renameNodeOn K) A [el] U).disk := by
  have hdisk := FileTree.rename_back (Volume.rename_cases hmoved).1
  obtain ⟨T, hT, halike⟩ := hU.rename hdisk
  have hmovedBack : U.rename A el.newCName el.oldCName = some ⟨T, U.nodes⟩ := by
    rw [Volume.rename, if_pos hback, hT]
    rfl
  simp only [RenameOp.undo, hmovedBack, Option.getD_some]
  exact alike_renameNodeOn_back hC hforth hreturns halike

lemma alike_undo_apply (hC : K.cipherIO.cipher.Lawful bs) {l done : List RenameEl} {ok : Bool}
    {V' : Volume Bytes ℕ} (happly : RenameOp.apply (D.renameNodeOn K) A l V = (ok, done, V'))
    (hback : ∀ el ∈ l, A.moves el.newCName el.oldCName = true) (heach : EachReturns D K A l V)
    (hU : V'.disk.Alike Grown U.disk) :
    V.disk.Alike Grown (RenameOp.undo (D.renameNodeOn K) A done.reverse U).disk := by
  induction l generalizing V done with
  | nil =>
    cases happly
    exact hU
  | cons el l ih =>
    cases hforth : D.renameNodeOn K el.oldPName el.newPName true V with
    | mk r V₁ =>
      cases r with
      | false =>
        rw [RenameOp.apply, hforth] at happly
        cases happly
        rw [← renameNodeOn_failed hC hforth]
        exact hU
      | true =>
        rw [EachReturns, hforth] at heach
        obtain ⟨hreturns, hrest⟩ := heach
        cases hmoved : V₁.rename A el.oldCName el.newCName with
        | none =>
          -- the element itself is half done, and `apply` takes it back
          simp only [RenameOp.apply, hforth, hmoved] at happly
          cases happly
          have hhalf := alike_renameNodeOn_back hC hforth hreturns (.refl Grown.refl V₁.disk)
          exact hhalf.trans (fun _ _ _ h h' => h.trans h') hU
        | some V₂ =>
          rw [hmoved] at hrest
          obtain ⟨⟨ok', done', V₃⟩, htail⟩ : ∃ x, RenameOp.apply (D.renameNodeOn K) A l V₂ = x :=
            ⟨_, rfl⟩
          simp only [RenameOp.apply, hforth, hmoved, htail] at happly
          cases happly
          rw [List.reverse_cons, RenameOp.undo_append]
          apply alike_undo hC hforth hmoved (hback el List.mem_cons_self) hreturns
          exact ih htail (fun el hel => hback el (List.mem_cons_of_mem _ hel)) hrest

variable (D K) in
/-- The names are what they were, and the file IVs that the headers give under the external IVs of
the names. -/
structure Restored (T T' : FileTree Bytes Bytes) : Prop where
  paths : T'.paths = T.paths
  isDirectory (p : List Bytes) : T'.isDirectory p = T.isDirectory p
  headers (h : K.cipherIO.haveHeader = true) {path q c : Bytes} {v : UInt64}
    (hpath : D.naming.encodePathIV path 0 = .ok (q, v))
    (hfile : T.find (components (D.rootDir ++ q)) = some (.file c)) (hlen : HEADER_SIZE ≤ c.length) :
    ∃ c', T'.find (components (D.rootDir ++ q)) = some (.file c') ∧ HEADER_SIZE ≤ c'.length ∧
      K.cipherIO.cipher.headerIV (if K.externalIVChaining then v else 0) c' =
        K.cipherIO.cipher.headerIV (if K.externalIVChaining then v else 0) c

lemma restored_of_alike {T T' : FileTree Bytes Bytes} (h : T.Alike Grown T') : Restored D K T T' where
  paths := h.paths
  isDirectory p := by
    apply Bool.eq_iff_iff.mpr
    refine ⟨fun hdir => ?_, h.isDirectory⟩
    rw [FileTree.isDirectory_iff] at hdir ⊢
    obtain ⟨e, he⟩ := T.mem_paths.mp (h.paths ▸ T'.mem_paths.mpr ⟨.dir, hdir⟩)
    obtain ⟨e', he', halike⟩ := h.mem he
    obtain rfl := FileTree.entry_unique hdir he'
    cases halike
    exact he
  headers _ _ q c _ _ hfile hlen := by
    obtain ⟨c', hc', hgrown⟩ := h.find_file hfile
    obtain rfl := hgrown.of_long hlen
    exact ⟨c', hc', hlen, rfl⟩

theorem undo_restores (hC : K.cipherIO.cipher.Lawful bs) {l done : List RenameEl} {ok : Bool}
    {V' : Volume Bytes ℕ} (happly : RenameOp.apply (D.renameNodeOn K) A l V = (ok, done, V'))
    (hback : ∀ el ∈ l, A.moves el.newCName el.oldCName = true) (heach : EachReturns D K A l V) :
    Restored D K V.disk (RenameOp.undo (D.renameNodeOn K) A done.reverse V').disk := by
  apply restored_of_alike
  exact alike_undo_apply hC happly hback heach (.refl Grown.refl V'.disk)

lemma EachReturns.cons {l : List RenameEl} (hreturns : HeaderReturns D K el V)
    (hrest : ∀ V₂, (D.renameNodeOn K el.oldPName el.newPName true V).2.rename A el.oldCName
      el.newCName = some V₂ → EachReturns D K A l V₂) : EachReturns D K A (el :: l) V := by
  rw [EachReturns]
  split
  · trivial
  · rename_i V₁ hforth
    rw [hforth] at hrest
    refine ⟨hreturns, ?_⟩
    split
    · trivial
    · rename_i V₂ hmoved
      exact hrest V₂ hmoved

lemma HeaderReturns.of_free {q q' : Bytes} {v v' : UInt64}
    (hold : D.naming.encodePathIV el.oldPName 0 = .ok (q, v))
    (hnew : D.naming.encodePathIV el.newPName 0 = .ok (q', v')) (hv : v ≠ 0) (hv' : v' ≠ 0)
    (hfree : V.disk.find (components (D.rootDir ++ q')) = none) : HeaderReturns D K el V := by
  rintro - q₁ v₁ q₁' v₁' c hold₁ hnew₁ - -
  rw [hold] at hold₁
  rw [hnew] at hnew₁
  cases hold₁
  cases hnew₁
  refine .inr (iff_of_true hv ⟨hv', ?_⟩)
  rintro (hdir | ⟨c', hfile, -⟩)
  · rw [hfree] at hdir
    cases hdir
  · rw [hfree] at hfile
    cases hfile

def maskDisk (externalIVChaining : Bool) : DiskChain where
  rawIO := OnDisk.rawCalls fun _ => true
  cipherIO :=
    { base := RawCalls.fileIO (OnDisk.rawCalls fun _ => true)
      cipher := maskCipher
      random := onesSource
      blockSize := 4
      blockSize_gt := smallBlock_gt
      allowHoles := false
      haveHeader := true
      reverseEncryption := false }
  cipherIO_base := rfl
  macIO := none
  externalIVChaining := externalIVChaining
  opens := fun _ => true
  rawIO_eq := rfl

def twoFiles : FileTree Bytes Bytes :=
  .ofEntries [([], .dir), ([[114]], .dir), ([[114], [45, 111, 88, 74]], .dir),
    ([[114], [45, 111, 88, 74], [98, 69, 102, 122]], .file [1, 2, 3, 4, 5, 6, 7, 8, 9]),
    ([[114], [45, 111, 88, 74], [98, 73, 102, 122]], .file [8, 7, 6, 5, 4, 3, 2, 1])]
    (by simp [List.nodup_cons]) (by simp)

def allBut (name : Bytes) : UnixAnswers := ⟨fun _ => true, fun oldName _ => oldName ≠ name⟩

deriving instance DecidableEq for RenameEl

def elementX : RenameEl where
  oldCName := [47, 114, 47, 45, 111, 88, 74, 47, 98, 69, 102, 122]
  newCName := [47, 114, 47, 45, 111, 88, 74, 47, 98, 65, 104, 97]
  oldPName := [47, 100, 47, 120]
  newPName := [47, 101, 47, 120]
  isDirectory := false

def elementY : RenameEl where
  oldCName := [47, 114, 47, 45, 111, 88, 74, 47, 98, 73, 102, 122]
  newCName := [47, 114, 47, 45, 111, 88, 74, 47, 98, 69, 66, 98]
  oldPName := [47, 100, 47, 121]
  newPName := [47, 101, 47, 121]
  isDirectory := false

lemma maskPath_dx : OpenRun.maskVolume.naming.encodePathIV [47, 100, 47, 120] 0 =
    .ok ([45, 111, 88, 74, 47, 98, 69, 102, 122], 10164) := by
  decide +kernel

lemma maskPath_ex : OpenRun.maskVolume.naming.encodePathIV [47, 101, 47, 120] 0 =
    .ok ([45, 115, 49, 74, 47, 98, 65, 104, 97], 10195) := by
  decide +kernel

lemma maskPath_dy : OpenRun.maskVolume.naming.encodePathIV [47, 100, 47, 121] 0 =
    .ok ([45, 111, 88, 74, 47, 98, 73, 102, 122], 10165) := by
  decide +kernel

lemma maskPath_ey : OpenRun.maskVolume.naming.encodePathIV [47, 101, 47, 121] 0 =
    .ok ([45, 115, 49, 74, 47, 98, 69, 66, 98], 10196) := by
  decide +kernel

theorem undo_restores_both :
    OpenRun.maskVolume.genRenameList
        (Volume.opendir ⟨twoFiles, 0⟩ (allBut elementY.oldCName))
        (Volume.isDirectory ⟨twoFiles, 0⟩) 2 [47, 100] [47, 101] = some [elementX, elementY] ∧
      ∃ V', RenameOp.apply (OpenRun.maskVolume.renameNodeOn (maskDisk true))
          (allBut elementY.oldCName) [elementX, elementY] ⟨twoFiles, 0⟩ = (false, [elementX], V') ∧
        Restored OpenRun.maskVolume (maskDisk true) twoFiles
          (RenameOp.undo (OpenRun.maskVolume.renameNodeOn (maskDisk true))
            (allBut elementY.oldCName) [elementX].reverse V').disk := by
  have happly : RenameOp.apply (OpenRun.maskVolume.renameNodeOn (maskDisk true))
      (allBut elementY.oldCName) [elementX, elementY] ⟨twoFiles, 0⟩ = (false, [elementX], _) :=
    Prod.ext (by decide +kernel) (Prod.ext (by decide +kernel) rfl)
  refine ⟨by decide +kernel, _, happly, undo_restores (maskCipher_lawful 4) happly ?_ ?_⟩
  · decide +kernel
  · have hx : HeaderReturns OpenRun.maskVolume (maskDisk true) elementX ⟨twoFiles, 0⟩ :=
      .of_free maskPath_dx maskPath_ex (by decide) (by decide) (by decide +kernel)
    refine .cons hx fun V₂ hmoved => .cons ?_ fun _ _ => trivial
    have hfree : ((OpenRun.maskVolume.renameNodeOn (maskDisk true) elementX.oldPName
        elementX.newPName true ⟨twoFiles, 0⟩).2.rename (allBut elementY.oldCName) elementX.oldCName
          elementX.newCName).bind (fun V => V.disk.find (components [47, 114, 47, 45, 115, 49, 74, 47,
            98, 69, 66, 98])) = none := by
      decide +kernel
    rw [hmoved] at hfree
    exact .of_free maskPath_dy maskPath_ey (by decide) (by decide) hfree

def fileAndDirectory : FileTree Bytes Bytes :=
  .ofEntries [([], .dir), ([[114]], .dir), ([[114], [45, 111, 88, 74]], .dir),
    ([[114], [45, 111, 88, 74], [98, 69, 102, 122]], .file [1, 2, 3, 4, 5, 6, 7, 8, 9]),
    ([[114], [45, 115, 49, 74]], .dir), ([[114], [45, 115, 49, 74], [98, 65, 104, 97]], .dir)]
    (by simp [List.nodup_cons]) (by simp)

lemma maskName_e : MaskName [45, 115, 49, 74] [101] 0 318 where
  valid := ⟨by decide, by decide, by decide, by decide⟩
  decode := by decide +kernel
  encode := by decide +kernel

lemma maskName_ex : MaskName [98, 65, 104, 97] [120] 318 10195 where
  valid := ⟨by decide, by decide, by decide, by decide⟩
  decode := by decide +kernel
  encode := by decide +kernel

lemma maskCode_e : NameIO.codeComponent OpenRun.maskVolume.naming.maxDecodedNameLen
    OpenRun.maskVolume.naming.decodeName [45, 115, 49, 74] (OpenRun.maskVolume.naming.chained 0) =
      .ok ([101], some 318) := by
  decide +kernel

lemma fileAndDirectory_canonical : OpenRun.maskVolume.Canonical fileAndDirectory := by
  intro d q iv e n iv' hnull hd hmem hdots hdec
  have hroot : components OpenRun.maskVolume.rootDir = [[114]] := by decide
  rw [components_root (by rfl), hroot] at hmem
  have hpaths : components q ++ [e] = [] ++ [[45, 111, 88, 74]] ∨
      components q ++ [e] = [[45, 111, 88, 74]] ++ [[98, 69, 102, 122]] ∨
      components q ++ [e] = [] ++ [[45, 115, 49, 74]] ∨
      components q ++ [e] = [[45, 115, 49, 74]] ++ [[98, 65, 104, 97]] := by
    simpa [fileAndDirectory, FileTree.ofEntries, FileTree.paths] using hmem
  rcases hpaths with h | h | h | h
  · exact canonical_top hnull hd hdec maskName_d h
  · exact canonical_child hnull hd hdec maskName_x maskCode_d h
  · exact canonical_top hnull hd hdec maskName_e h
  · exact canonical_child hnull hd hdec maskName_ex maskCode_e h

theorem not_undo_restores :
    ∃ V', OpenRun.maskVolume.Canonical fileAndDirectory ∧
      OpenRun.maskVolume.genRenameList
        (Volume.opendir ⟨fileAndDirectory, 0⟩ (allBut elementX.oldCName))
        (Volume.isDirectory ⟨fileAndDirectory, 0⟩) 2 [47, 100] [47, 101] = some [elementX] ∧
      RenameOp.apply (OpenRun.maskVolume.renameNodeOn (maskDisk true)) (allBut elementX.oldCName)
        [elementX] ⟨fileAndDirectory, 0⟩ = (false, [], V') ∧
      (allBut elementX.oldCName).moves elementX.newCName elementX.oldCName = true ∧
      ¬ Restored OpenRun.maskVolume (maskDisk true) fileAndDirectory
          (RenameOp.undo (OpenRun.maskVolume.renameNodeOn (maskDisk true))
            (allBut elementX.oldCName) [].reverse V').disk := by
  have happly : RenameOp.apply (OpenRun.maskVolume.renameNodeOn (maskDisk true))
      (allBut elementX.oldCName) [elementX] ⟨fileAndDirectory, 0⟩ = (false, [], _) :=
    Prod.ext (by decide +kernel) (Prod.ext (by decide +kernel) rfl)
  refine ⟨_, fileAndDirectory_canonical, by decide +kernel, happly, by decide, fun hrestored => ?_⟩
  obtain ⟨c', hfile, -, hiv⟩ := hrestored.headers rfl maskPath_dx
    (c := [1, 2, 3, 4, 5, 6, 7, 8, 9]) (by decide +kernel) (by decide)
  have hleft : (RenameOp.apply (OpenRun.maskVolume.renameNodeOn (maskDisk true))
      (allBut elementX.oldCName) [elementX] ⟨fileAndDirectory, 0⟩).2.2.disk.find
        (components [47, 114, 47, 45, 111, 88, 74, 47, 98, 69, 102, 122]) =
          some (.file [102, 101, 100, 99, 98, 97, 96, 111, 9]) := by
    decide +kernel
  have hsame : c' = [102, 101, 100, 99, 98, 97, 96, 111, 9] :=
    TreeEntry.file.inj (Option.some.inj (hfile.symm.trans hleft))
  rw [hsame] at hiv
  exact absurd hiv (by decide +kernel)

end DirNode

end EncFS
