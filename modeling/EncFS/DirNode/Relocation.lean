import EncFS.DirNode.RenameList
import EncFS.FileTree.Contents

set_option autoImplicit false

namespace EncFS

namespace DirNode

open NameIO FileTree

variable (D : DirNode)

def recode : (a b : UInt64) → List Bytes → List Bytes
  | _, _, [] => []
  | a, b, e :: r =>
    if a = b ∨ isDots e = true then e :: r
    else
      match D.naming.decodePathIV e a with
      | .error _ => e :: r
      | .ok (n, a') =>
        match D.naming.encodePathIV n b with
        | .error _ => e :: r
        | .ok (e', b') => e' :: recode a' b' r

/-- The same, where only the entries in `done` are worked off. -/
def recodeIn (done : List Bytes) (a b : UInt64) : List Bytes → List Bytes
  | [] => []
  | e :: r => if e ∈ done then D.recode a b (e :: r) else e :: r

/-- The IVs of an entry below a directory before and after it is recoded, if it is. -/
def recodeIVs : (a b : UInt64) → List Bytes → Option (UInt64 × UInt64)
  | _, _, [] => none
  | a, b, e :: r =>
    if a = b ∨ isDots e = true then none
    else
      match D.naming.decodePathIV e a with
      | .error _ => none
      | .ok (n, a') =>
        match D.naming.encodePathIV n b with
        | .error _ => none
        | .ok (_, b') => if r = [] then some (a', b') else recodeIVs a' b' r

section

variable {ε : Type} (C : UInt64 → UInt64 → TreeEntry ε → TreeEntry ε → Prop)

/-- What is in an entry before and after it is recoded: `C` says what becomes of it under its IVs. -/
def Recoded (a b : UInt64) (s : List Bytes) (e e' : TreeEntry ε) : Prop :=
  match D.recodeIVs a b s with
  | none => e' = e
  | some (v, v') => C v v' e e'

/-- The same, with the entry itself that everything else is below. -/
def MovedContent (a b : UInt64) (s : List Bytes) (e e' : TreeEntry ε) : Prop :=
  if s = [] then C a b e e' else D.Recoded C a b s e e'

def RecodedIn (done : List Bytes) (a b : UInt64) (s : List Bytes) (e e' : TreeEntry ε) : Prop :=
  match s with
  | [] => e' = e
  | d :: r => if d ∈ done then D.Recoded C a b (d :: r) e e' else e' = e

end

variable {D} {a b : UInt64}

@[simp] lemma recode_nil : D.recode a b [] = [] := rfl

@[simp] lemma recode_self (r : List Bytes) : D.recode a a r = r := by
  cases r with
  | nil => rfl
  | cons e r => rw [recode, if_pos (.inl rfl)]

lemma recode_cons {e n e' : Bytes} {a' b' : UInt64} (hab : a ≠ b) (hdots : isDots e = false)
    (hdec : D.naming.decodePathIV e a = .ok (n, a')) (henc : D.naming.encodePathIV n b = .ok (e', b'))
    (r : List Bytes) : D.recode a b (e :: r) = e' :: D.recode a' b' r := by
  rw [recode, if_neg (by simp [hab, hdots])]
  simp only [hdec, henc]

lemma recodeIVs_cons {e n e' : Bytes} {a' b' : UInt64} (hab : a ≠ b) (hdots : isDots e = false)
    (hdec : D.naming.decodePathIV e a = .ok (n, a')) (henc : D.naming.encodePathIV n b = .ok (e', b'))
    (r : List Bytes) :
    D.recodeIVs a b (e :: r) = if r = [] then some (a', b') else D.recodeIVs a' b' r := by
  rw [recodeIVs, if_neg (by simp [hab, hdots])]
  simp only [hdec, henc]

lemma recodeIVs_skip {e : Bytes}
    (h : isDots e = true ∨ ∃ error, D.naming.decodePathIV e a = .error error) (r : List Bytes) :
    D.recodeIVs a b (e :: r) = none := by
  rw [recodeIVs]
  split
  · rfl
  · rename_i hcond
    rcases h with h | ⟨error, h⟩
    · exact absurd (.inr h) hcond
    · simp only [h]

lemma recodeIVs_self (r : List Bytes) : D.recodeIVs a a r = none := by
  cases r with
  | nil => rfl
  | cons e r => rw [recodeIVs, if_pos (.inl rfl)]

lemma recode_skip {e : Bytes}
    (h : isDots e = true ∨ ∃ error, D.naming.decodePathIV e a = .error error) (r : List Bytes) :
    D.recode a b (e :: r) = e :: r := by
  rw [recode]
  split
  · rfl
  · rename_i hcond
    rcases h with h | ⟨error, h⟩
    · exact absurd (.inr h) hcond
    · simp only [h]

lemma recode_cases (a b : UInt64) (e : Bytes) : (∀ r, D.recode a b (e :: r) = e :: r) ∨
    ∃ n a' e' b', isDots e = false ∧ D.naming.decodePathIV e a = .ok (n, a') ∧
      D.naming.encodePathIV n b = .ok (e', b') ∧
      ∀ r, D.recode a b (e :: r) = e' :: D.recode a' b' r := by
  by_cases hcond : a = b ∨ isDots e = true
  · exact .inl fun r => by rw [recode, if_pos hcond]
  · have hdots : isDots e = false := Bool.eq_false_iff.mpr fun h => hcond (.inr h)
    cases hdec : D.naming.decodePathIV e a with
    | error error => exact .inl fun r => recode_skip (.inr ⟨error, hdec⟩) r
    | ok res =>
      obtain ⟨n, a'⟩ := res
      cases henc : D.naming.encodePathIV n b with
      | error error =>
        refine .inl fun r => ?_
        rw [recode, if_neg hcond]
        simp only [hdec, henc]
      | ok res' =>
        obtain ⟨e', b'⟩ := res'
        exact .inr ⟨n, a', e', b', hdots, rfl, henc,
          recode_cons (fun h => hcond (.inl h)) hdots hdec henc⟩

lemma recode_head (a b : UInt64) (e : Bytes) :
    ∃ (e' : Bytes) (g : List Bytes → List Bytes), g [] = [] ∧
      ∀ r, D.recode a b (e :: r) = e' :: g r := by
  rcases D.recode_cases a b e with hsame | ⟨n, a', e', b', -, -, -, hhead⟩
  · exact ⟨e, id, rfl, hsame⟩
  · exact ⟨e', D.recode a' b', rfl, hhead⟩

lemma recode_coded {x es es' : List Bytes} (h : D.naming.Coded a x es)
    (h' : D.naming.Coded b x es') : D.recode a b es = es' := by
  induction h generalizing b es' with
  | nil =>
    cases h'
    rfl
  | @cons a a' n e x es ne_nil no_slash not_dots encode decode rest ih =>
    by_cases hab : a = b
    · subst hab
      rw [recode_self]
      exact (Coded.cons ne_nil no_slash not_dots encode decode rest).unique h'
    · cases h' with
      | cons _ _ _ encode' _ rest' =>
        rw [recode_cons hab not_dots decode encode', ih rest']

lemma recode_eq_nil_iff {r : List Bytes} : D.recode a b r = [] ↔ r = [] := by
  cases r with
  | nil => simp
  | cons e r =>
    obtain ⟨e', g, -, hhead⟩ := D.recode_head a b e
    simp [hhead]

section Step

variable {ε : Type} {C : UInt64 → UInt64 → TreeEntry ε → TreeEntry ε → Prop}
  {T T' : FileTree Bytes ε} {dir : List Bytes} {P : List Bytes} {d : Bytes}
  (hT : RelocatedWith (contentUnder dir (D.RecodedIn C P a b)) (underPath dir (D.recodeIn P a b)) T T')
  (hd : dir ++ [d] ∈ T.paths) (hP : d ∉ P)
include hT hd hP

omit hT hd in
lemma underPath_recodeIn_self (r : List Bytes) :
    underPath dir (D.recodeIn P a b) (dir ++ d :: r) = dir ++ d :: r := by
  rw [underPath_append, recodeIn, if_neg hP]

omit hT hd in
variable (C) in
lemma contentUnder_recodedIn_self {r : List Bytes} {e e' : TreeEntry ε} :
    contentUnder dir (D.RecodedIn C P a b) (dir ++ d :: r) e e' ↔ e' = e := by
  rw [contentUnder_append, RecodedIn, if_neg hP]

lemma not_recoded_to {p : List Bytes} (hp : p ∈ T.paths)
    (h : dir ++ [d] <+: underPath dir (D.recodeIn P a b) p) : dir ++ [d] <+: p := by
  by_cases hdir : dir <+: p
  · obtain ⟨s, rfl⟩ := hdir
    rw [underPath_append] at h
    have h := (List.prefix_append_right_inj dir).mp h
    cases s with
    | nil => exact absurd (List.prefix_nil.mp h) (List.cons_ne_nil _ _)
    | cons e r =>
      rw [recodeIn] at h
      split at h
      · rename_i he
        obtain ⟨e', g, hnil, hhead⟩ := D.recode_head a b e
        rw [hhead] at h
        obtain ⟨rfl, -⟩ := List.cons_prefix_cons.mp h
        have hmem : dir ++ [e] ∈ T.paths :=
          mem_of_above hp ⟨r, by rw [List.append_assoc]; rfl⟩
        have hsame : underPath dir (D.recodeIn P a b) (dir ++ [e]) =
            underPath dir (D.recodeIn P a b) (dir ++ [d]) := by
          rw [underPath_recodeIn_self hP, underPath_append, recodeIn, if_pos he, hhead, hnil]
        have heq := List.append_cancel_left (hT.injOn hmem hd hsame)
        obtain ⟨rfl, -⟩ := List.cons.inj heq
        exact absurd he hP
      · exact (List.prefix_append_right_inj dir).mpr h
  · rwa [underPath_outside hdir] at h

lemma agreeUnder_entry : AgreeUnder (dir ++ [d]) T T' := by
  intro r e
  constructor
  · intro hmem
    obtain ⟨p, e₀, hp, heq, hC⟩ := hT.of_mem hmem
    have hpath : p ∈ T.paths := T.mem_paths.mpr ⟨e₀, hp⟩
    have habove : dir ++ [d] <+: underPath dir (D.recodeIn P a b) p := by
      rw [heq]
      exact List.prefix_append _ r
    obtain ⟨s, rfl⟩ := not_recoded_to hT hd hP hpath habove
    rw [List.append_assoc, List.singleton_append] at heq hC
    rw [underPath_recodeIn_self hP] at heq
    rw [contentUnder_recodedIn_self C hP] at hC
    rw [hC, ← heq, ← List.singleton_append, ← List.append_assoc]
    exact hp
  · intro hmem
    obtain ⟨e', hmem', hC⟩ := hT.mem hmem
    rw [List.append_assoc, List.singleton_append] at hmem' hC ⊢
    rw [underPath_recodeIn_self hP] at hmem'
    rw [contentUnder_recodedIn_self C hP] at hC
    rwa [← hC]

omit hT hd hP in
lemma recoded_cons {n d' : Bytes} {a' b' : UInt64} {r : List Bytes} {e e' : TreeEntry ε}
    (hab : a ≠ b) (hdots : isDots d = false) (hdec : D.naming.decodePathIV d a = .ok (n, a'))
    (henc : D.naming.encodePathIV n b = .ok (d', b')) :
    D.Recoded C a b (d :: r) e e' ↔ D.MovedContent C a' b' r e e' := by
  rw [Recoded, recodeIVs_cons hab hdots hdec henc, MovedContent]
  by_cases hr : r = []
  · rw [if_pos hr, if_pos hr]
  · rw [if_neg hr, if_neg hr, Recoded]

omit hT hd hP in
lemma recodeIn_other {s : List Bytes} (h : ¬ [d] <+: s) :
    D.recodeIn (P ++ [d]) a b s = D.recodeIn P a b s := by
  cases s with
  | nil => rfl
  | cons c s =>
    have hne : c ≠ d := fun heq => h ⟨s, by rw [heq]; rfl⟩
    simp [recodeIn, hne]

omit hT hd hP in
lemma recodedIn_other {s : List Bytes} {e e' : TreeEntry ε} (h : ¬ [d] <+: s) :
    D.RecodedIn C (P ++ [d]) a b s e e' ↔ D.RecodedIn C P a b s e e' := by
  cases s with
  | nil => rfl
  | cons c s =>
    have hne : c ≠ d := fun heq => h ⟨s, by rw [heq]; rfl⟩
    simp [RecodedIn, hne]

lemma relocatedWith_entry {n d' : Bytes} {a' b' : UInt64} {T₁ T₂ T₃ : FileTree Bytes ε} (hab : a ≠ b)
    (hdots : isDots d = false) (hdec : D.naming.decodePathIV d a = .ok (n, a'))
    (henc : D.naming.encodePathIV n b = .ok (d', b'))
    (hinner : RelocatedWith (contentUnder (dir ++ [d]) (D.Recoded C a' b'))
      (underPath (dir ++ [d]) (D.recode a' b')) T' T₁)
    (hnode : RelocatedWith (contentAtPath (dir ++ [d]) (C a' b')) id T₁ T₂)
    (hmoved : Relocated (movedPath (dir ++ [d]) (dir ++ [d'])) T₂ T₃) :
    RelocatedWith (contentUnder dir (D.RecodedIn C (P ++ [d]) a b))
      (underPath dir (D.recodeIn (P ++ [d]) a b)) T T₃ := by
  have hbelow : RelocatedWith (contentUnder (dir ++ [d]) (D.MovedContent C a' b'))
      (underPath (dir ++ [d]) (D.recode a' b')) T' T₂ :=
    hinner.trans_at (fun _ => recode_eq_nil_iff) (fun _ _ h => h) hnode
  have hdone : d ∈ P ++ [d] := List.mem_append_right P List.mem_cons_self
  have hself {r : List Bytes} :
      underPath dir (D.recodeIn P a b) (dir ++ [d] ++ r) = dir ++ [d] ++ r := by
    rw [List.append_assoc, List.singleton_append, underPath_recodeIn_self hP]
  have hother {s : List Bytes} (hin : ¬ dir ++ [d] <+: dir ++ s) : ¬ [d] <+: s :=
    mt (List.prefix_append_right_inj dir).mpr hin
  refine ((hT.trans hbelow).trans (.of_relocated hmoved)).imp (fun p hp => ?_) fun p hp e e₃ hC => ?_
  · dsimp only [Function.comp]
    by_cases hin : dir ++ [d] <+: p
    · obtain ⟨r, rfl⟩ := hin
      rw [hself, underPath_append, movedPath_append, List.append_assoc, List.append_assoc,
        underPath_append, List.singleton_append, List.singleton_append, recodeIn, if_pos hdone,
        recode_cons hab hdots hdec henc]
    · have hout := mt (not_recoded_to hT hd hP hp) hin
      rw [underPath_outside hout, movedPath_outside hout]
      by_cases hdir : dir <+: p
      · obtain ⟨s, rfl⟩ := hdir
        rw [underPath_append, underPath_append, recodeIn_other (hother hin)]
      · rw [underPath_outside hdir, underPath_outside hdir]
  · obtain ⟨e₂, ⟨e₁, hC₁, hC₂⟩, rfl⟩ := hC
    by_cases hin : dir ++ [d] <+: p
    · obtain ⟨r, rfl⟩ := hin
      rw [hself, contentUnder_append] at hC₂
      rw [List.append_assoc, List.singleton_append] at hC₁ ⊢
      rw [contentUnder_recodedIn_self C hP] at hC₁
      rw [contentUnder_append, RecodedIn, if_pos hdone, recoded_cons hab hdots hdec henc, ← hC₁]
      exact hC₂
    · have hout := mt (not_recoded_to hT hd hP hp) hin
      rw [contentUnder_outside hout] at hC₂
      rw [hC₂]
      by_cases hdir : dir <+: p
      · obtain ⟨s, rfl⟩ := hdir
        rw [contentUnder_append] at hC₁ ⊢
        exact (recodedIn_other (hother hin)).mpr hC₁
      · rw [contentUnder_outside hdir] at hC₁ ⊢
        exact hC₁

end Step

section Unchanged

variable {ε : Type} {T T' : FileTree Bytes ε} {dir : List Bytes} {P : List Bytes}

lemma recoded_unchanged {s : List Bytes} {e e' : TreeEntry ε} :
    D.Recoded (fun _ _ e e' => e' = e) a b s e e' ↔ e' = e := by
  rw [Recoded]
  cases D.recodeIVs a b s <;> rfl

lemma recodedIn_unchanged {s : List Bytes} {e e' : TreeEntry ε} :
    D.RecodedIn (fun _ _ e e' => e' = e) P a b s e e' ↔ e' = e := by
  cases s with
  | nil => rfl
  | cons d r => rw [RecodedIn, recoded_unchanged, ite_self]

lemma relocatedWith_unchanged {K : List Bytes → TreeEntry ε → TreeEntry ε → Prop}
    {f : List Bytes → List Bytes} (hK : ∀ s e e', K s e e' ↔ e' = e) :
    RelocatedWith (contentUnder dir K) f T T' ↔ Relocated f T T' := by
  have hC (p : List Bytes) (e e' : TreeEntry ε) : contentUnder dir K p e e' ↔ e' = e := by
    rw [contentUnder, hK, ite_self]
  constructor
  · exact fun h => (h.imp (fun _ _ => rfl) fun p _ e e' => (hC p e e').mp).relocated
  · exact fun h => (RelocatedWith.of_relocated h).imp (fun _ _ => rfl) fun p _ e e' => (hC p e e').mpr

end Unchanged

lemma relocatedWith_file {ε : Type} {T : FileTree Bytes ε} {p : List Bytes}
    {k : List Bytes → List Bytes} {K : List Bytes → TreeEntry ε → TreeEntry ε → Prop}
    (hk : k [] = []) (hK : ∀ e, K [] e e) (hfile : T.isDirectory p ≠ true) :
    RelocatedWith (contentUnder p K) (underPath p k) T T := by
  have hnil {s : List Bytes} (ht : p ++ s ∈ T.paths) : s = [] := by
    by_contra hs
    exact hfile (isDirectory_iff.mpr (dir_of_append ht hs))
  have hid : Relocated id T T := Relocated.of_id fun _ _ => rfl
  refine (RelocatedWith.of_relocated hid).imp (fun t ht => ?_) fun t ht e e' he => ?_
  · by_cases hin : p <+: t
    · obtain ⟨s, rfl⟩ := hin
      rw [underPath_append, hnil ht, hk]
      rfl
    · exact (underPath_outside hin).symm
  · rw [he]
    by_cases hin : p <+: t
    · obtain ⟨s, rfl⟩ := hin
      rw [contentUnder_append, hnil ht]
      exact hK e
    · rw [contentUnder_outside hin]

lemma relocated_file {ε : Type} {T : FileTree Bytes ε} {p : List Bytes}
    {k : List Bytes → List Bytes} (hk : k [] = []) (hfile : T.isDirectory p ≠ true) :
    Relocated (underPath p k) T T :=
  (relocatedWith_unchanged fun _ _ _ => Iff.rfl).mp (relocatedWith_file hk (fun _ => rfl) hfile)

variable (D) in
structure EntryNames (fromP toP q r n d d' : Bytes) (a' b' : UInt64) : Prop where
  valid : ValidName n
  oldPath : D.naming.encodePathIV (fromP ++ slash :: n) 0 = .ok (childPath q d, a')
  newPath : D.naming.encodePathIV (toP ++ slash :: n) 0 = .ok (childPath r d', b')
  child : components (D.rootDir ++ childPath q d) = components (D.rootDir ++ q) ++ [d]
  oldCName : components (D.rootDir ++ q ++ slash :: d) = components (D.rootDir ++ q) ++ [d]
  newCName : components (D.rootDir ++ q ++ slash :: d') = components (D.rootDir ++ q) ++ [d']

variable (D) in
/-- A node that gets its new name leaves the disk as it was but for the entry of the old one, of
which `C` holds with the IVs of both. -/
def RewritesEntry {ε σ : Type} (C : UInt64 → UInt64 → TreeEntry ε → TreeEntry ε → Prop)
    (renameNode : NodeRename ε σ) : Prop :=
  ∀ {fromP toP q r : Bytes} {v v' : UInt64} {V V' : Volume ε σ},
    D.naming.encodePathIV fromP 0 = .ok (q, v) → D.naming.encodePathIV toP 0 = .ok (r, v') →
    renameNode fromP toP true V = (true, V') →
    RelocatedWith (contentAtPath (components (D.rootDir ++ q)) (C v v')) id V.disk V'.disk

lemma rewritesEntry_unchanged {ε σ : Type} {renameNode : NodeRename ε σ}
    (hnode : ∀ fromP toP mode V, (renameNode fromP toP mode V).2.disk = V.disk) :
    D.RewritesEntry (fun _ _ e e' => e' = e) renameNode := by
  intro fromP toP q r v v' V V' _ _ h
  have hdisk := hnode fromP toP true V
  rw [h] at hdisk
  rw [hdisk]
  refine (RelocatedWith.of_relocated (Relocated.of_id fun _ _ => rfl)).imp (fun _ _ => rfl) ?_
  intro p _ e e' he
  rwa [contentAtPath, ite_self]

section List

variable {ε σ : Type} {C : UInt64 → UInt64 → TreeEntry ε → TreeEntry ε → Prop}
  {renameNode : NodeRename ε σ} {A : UnixAnswers} {V₀ : Volume ε σ}
  (hD : D.naming.Lawful) (hforward : D.naming.reverseEncryption = false)
  (hroot : D.rootDir.getLast? = some slash) (hcanon : D.Canonical V₀.disk)
include hD hforward hroot hcanon

lemma entryNames {fromP toP q r d n d' : Bytes} {a' b' : UInt64} (hfrom : (0 : UInt8) ∉ fromP)
    (hto : (0 : UInt8) ∉ toP) (hq : D.naming.encodePathIV fromP 0 = .ok (q, a))
    (hr : D.naming.encodePathIV toP 0 = .ok (r, b))
    (hmem : components (D.rootDir ++ q) ++ [d] ∈ V₀.disk.paths) (hdots : isDots d = false)
    (hdec : D.naming.decodePathIV d a = .ok (n, a'))
    (henc : D.naming.encodePathIV n b = .ok (d', b')) : D.EntryNames fromP toP q r n d d' a' b' := by
  obtain ⟨hn, henc'⟩ := hcanon fromP q a d n a' hfrom hq hmem hdots hdec
  obtain ⟨e, a'', -, hne, hslash, -, hencFrom, -, hchildFrom⟩ :=
    encodePathIV_child hD hforward hfrom hq hn
  rw [henc'] at hencFrom
  obtain ⟨rfl, rfl⟩ := Prod.mk.inj (Except.ok.inj hencFrom)
  obtain ⟨e, b'', -, hne', hslash', -, hencTo, -, hchildTo⟩ :=
    encodePathIV_child hD hforward hto hr hn
  rw [henc] at hencTo
  obtain ⟨rfl, rfl⟩ := Prod.mk.inj (Except.ok.inj hencTo)
  have hchild : components (D.rootDir ++ childPath q d) = components (D.rootDir ++ q) ++ [d] := by
    rw [components_root hroot, components_childPath q hne hslash, components_root hroot,
      List.append_assoc]
  exact ⟨hn, hchildFrom, hchildTo, hchild, by rw [components_append, components_name hne hslash],
    by rw [components_append, components_name hne' hslash']⟩

omit hD hforward hroot hcanon in
lemma relocatedWith_element (hnode : D.RewritesEntry C renameNode) {fromP toP q r n d d' : Bytes}
    {a' b' : UInt64} {P : List Bytes} {T : FileTree Bytes ε} {V V₁ V₂ V₃ : Volume ε σ}
    (hnames : D.EntryNames fromP toP q r n d d' a' b')
    (hab : a ≠ b) (hdots : isDots d = false) (hdec : D.naming.decodePathIV d a = .ok (n, a'))
    (henc : D.naming.encodePathIV n b = .ok (d', b'))
    (hT : RelocatedWith (contentUnder (components (D.rootDir ++ q)) (D.RecodedIn C P a b))
      (underPath (components (D.rootDir ++ q)) (D.recodeIn P a b)) T V.disk)
    (hd : components (D.rootDir ++ q) ++ [d] ∈ T.paths) (hP : d ∉ P)
    (hinner : RelocatedWith (contentUnder (components (D.rootDir ++ q) ++ [d]) (D.Recoded C a' b'))
      (underPath (components (D.rootDir ++ q) ++ [d]) (D.recode a' b')) V.disk V₁.disk)
    (hnodes : renameNode (fromP ++ slash :: n) (toP ++ slash :: n) true V₁ = (true, V₂))
    (hmoved : V₂.rename A (D.rootDir ++ q ++ slash :: d) (D.rootDir ++ q ++ slash :: d') = some V₃) :
    RelocatedWith (contentUnder (components (D.rootDir ++ q)) (D.RecodedIn C (P ++ [d]) a b))
      (underPath (components (D.rootDir ++ q)) (D.recodeIn (P ++ [d]) a b)) T V₃.disk := by
  have hrewritten := hnode hnames.oldPath hnames.newPath hnodes
  rw [hnames.child] at hrewritten
  have hmoved' := relocated_rename (Volume.rename_cases hmoved).1
  rw [hnames.oldCName, hnames.newCName] at hmoved'
  exact relocatedWith_entry hT hd hP hab hdots hdec henc hinner hrewritten hmoved'

omit hD hforward hroot hcanon in
lemma recodeIn_skip {P : List Bytes} {d : Bytes}
    (h : isDots d = true ∨ ∃ error, D.naming.decodePathIV d a = .error error) :
    D.recodeIn P a b = D.recodeIn (P ++ [d]) a b := by
  funext s
  cases s with
  | nil => rfl
  | cons e s =>
    by_cases he : e = d
    · rw [recodeIn, recodeIn, he, recode_skip h, ite_self, ite_self]
    · simp [recodeIn, he]

omit hD hforward hroot hcanon in
variable (C) in
lemma recodedIn_skip {P : List Bytes} {d : Bytes}
    (h : isDots d = true ∨ ∃ error, D.naming.decodePathIV d a = .error error) :
    D.RecodedIn C P a b = D.RecodedIn C (P ++ [d]) a b := by
  funext s e e'
  cases s with
  | nil => rfl
  | cons c s =>
    by_cases hc : c = d
    · rw [RecodedIn, RecodedIn, hc, Recoded, recodeIVs_skip h]
      simp only [ite_self]
    · simp [RecodedIn, hc]

variable (hnode : D.RewritesEntry C renameNode)
include hnode

lemma relocatedWith_entries {recurse : (fromP toP : Bytes) → Option (List RenameEl)}
    {fromP toP q r : Bytes} (hfrom : (0 : UInt8) ∉ fromP) (hto : (0 : UInt8) ∉ toP)
    (hq : D.naming.encodePathIV fromP 0 = .ok (q, a)) (hr : D.naming.encodePathIV toP 0 = .ok (r, b))
    (hab : a ≠ b)
    (hrec : ∀ {n d d' : Bytes} {a' b' : UInt64} {els done : List RenameEl} {V V' : Volume ε σ},
      D.EntryNames fromP toP q r n d d' a' b' →
      recurse (fromP ++ slash :: n) (toP ++ slash :: n) = some els →
      AgreeUnder (components (D.rootDir ++ q) ++ [d]) V₀.disk V.disk →
      RenameOp.apply renameNode A els V = (true, done, V') →
      RelocatedWith (contentUnder (components (D.rootDir ++ q) ++ [d]) (D.Recoded C a' b'))
        (underPath (components (D.rootDir ++ q) ++ [d]) (D.recode a' b')) V.disk V'.disk)
    {dir P : List Bytes} {l done : List RenameEl} {T : FileTree Bytes ε} {V V' : Volume ε σ}
    (hnodup : dir.Nodup) (hmem : ∀ d ∈ dir, components (D.rootDir ++ q) ++ [d] ∈ V₀.disk.paths)
    (hP : ∀ d ∈ dir, d ∉ P) (hagree : AgreeUnder (components (D.rootDir ++ q)) V₀.disk T)
    (hT : RelocatedWith (contentUnder (components (D.rootDir ++ q)) (D.RecodedIn C P a b))
      (underPath (components (D.rootDir ++ q)) (D.recodeIn P a b)) T V.disk)
    (hlist : D.renameEntries V₀.isDirectory recurse (D.rootDir ++ q) fromP toP a b dir = some l)
    (happly : RenameOp.apply renameNode A l V = (true, done, V')) :
    RelocatedWith (contentUnder (components (D.rootDir ++ q)) (D.RecodedIn C (P ++ dir) a b))
      (underPath (components (D.rootDir ++ q)) (D.recodeIn (P ++ dir) a b)) T V'.disk := by
  induction dir generalizing P l done V with
  | nil =>
    cases hlist
    obtain ⟨-, -, rfl⟩ := happly
    rwa [List.append_nil]
  | cons d dir ih =>
    have hnodup' := List.nodup_cons.mp hnodup
    have hmem' : ∀ d' ∈ dir, components (D.rootDir ++ q) ++ [d'] ∈ V₀.disk.paths :=
      fun d' hd' => hmem d' (List.mem_cons_of_mem d hd')
    have hP' : ∀ d' ∈ dir, d' ∉ P ++ [d] := by
      intro d' hd' hin
      rcases List.mem_append.mp hin with hin | hin
      · exact hP d' (List.mem_cons_of_mem d hd') hin
      · exact hnodup'.1 (List.mem_singleton.mp hin ▸ hd')
    have hdP := hP d List.mem_cons_self
    have hd := hagree.mem_paths.mpr (hmem d List.mem_cons_self)
    rw [List.append_cons]
    rcases renameEntries_cons hlist with ⟨hskip, htail⟩ |
      ⟨n, a', d', b', els, rest, hdots, hdec, henc, hels, htail, rfl⟩
    · rw [recodeIn_skip hskip, recodedIn_skip C hskip] at hT
      exact ih hnodup'.2 hmem' hP' hT htail happly
    · have hnames := entryNames hD hforward hroot hcanon hfrom hto hq hr
        (hmem d List.mem_cons_self) hdots hdec henc
      have hagree' : AgreeUnder (components (D.rootDir ++ q) ++ [d]) V₀.disk V.disk :=
        (hagree.under [d]).trans (agreeUnder_entry hT hd hdP)
      obtain ⟨V₁, done₁, done₂, hfirst, hlast⟩ := RenameOp.apply_append happly
      obtain ⟨V₂, V₃, done₃, hnodes, hmoved, hrest⟩ := RenameOp.apply_cons hlast
      have hinner : RelocatedWith (contentUnder (components (D.rootDir ++ q) ++ [d])
          (D.Recoded C a' b')) (underPath (components (D.rootDir ++ q) ++ [d]) (D.recode a' b'))
            V.disk V₁.disk := by
        split at hels
        · exact hrec hnames hels hagree' hfirst
        · rename_i hfile
          cases hels
          obtain ⟨-, -, rfl⟩ := hfirst
          rw [Volume.isDirectory, hnames.oldCName] at hfile
          exact relocatedWith_file recode_nil (fun _ => rfl)
            fun hdir => hfile (hagree'.isDirectory ▸ hdir)
      exact ih hnodup'.2 hmem' hP' (relocatedWith_element hnode hnames hab hdots hdec henc hT hd hdP
        hinner hnodes hmoved) htail hrest

lemma relocatedWith_list {fuel : ℕ} {fromP toP q r : Bytes} {l done : List RenameEl}
    {V V' : Volume ε σ}
    (hlist : D.genRenameList (V₀.opendir A) V₀.isDirectory fuel fromP toP = some l)
    (hfrom : (0 : UInt8) ∉ fromP) (hto : (0 : UInt8) ∉ toP)
    (hq : D.naming.encodePathIV fromP 0 = .ok (q, a)) (hr : D.naming.encodePathIV toP 0 = .ok (r, b))
    (hagree : AgreeUnder (components (D.rootDir ++ q)) V₀.disk V.disk)
    (happly : RenameOp.apply renameNode A l V = (true, done, V')) :
    RelocatedWith (contentUnder (components (D.rootDir ++ q)) (D.Recoded C a b))
      (underPath (components (D.rootDir ++ q)) (D.recode a b)) V.disk V'.disk := by
  induction fuel generalizing fromP toP q r a b l done V V' with
  | zero => cases hlist
  | succ fuel ih =>
    obtain ⟨q', a', r', b', hq', hr', hcases⟩ := genRenameList_succ hlist
    rw [hq] at hq'
    rw [hr] at hr'
    obtain ⟨rfl, rfl⟩ := Prod.mk.inj (Except.ok.inj hq')
    obtain ⟨rfl, rfl⟩ := Prod.mk.inj (Except.ok.inj hr')
    have hid : Relocated id V.disk V.disk := Relocated.of_id fun _ _ => rfl
    rcases hcases with ⟨rfl, rfl⟩ | ⟨hab, dir, hdir, hentries⟩
    · obtain ⟨-, -, rfl⟩ := happly
      refine (RelocatedWith.of_relocated hid).imp
        (fun p _ => (underPath_id recode_self p).symm) fun p _ e e' he => ?_
      rw [he, contentUnder, Recoded, recodeIVs_self, ite_self]
    · obtain ⟨-, rfl⟩ := Volume.opendir_cases hdir
      rw [renameEntries_dots] at hentries
      have hstart : RelocatedWith (contentUnder (components (D.rootDir ++ q)) (D.RecodedIn C [] a b))
          (underPath (components (D.rootDir ++ q)) (D.recodeIn [] a b)) V.disk V.disk := by
        refine (RelocatedWith.of_relocated hid).imp
          (fun p _ => (underPath_id (fun s => ?_) p).symm) fun p _ e e' he => ?_
        · cases s <;> rfl
        · have hnone (s : List Bytes) : D.RecodedIn C [] a b s e e' := by
            cases s with
            | nil => exact he
            | cons d s => rwa [RecodedIn, if_neg List.not_mem_nil]
          rw [contentUnder]
          split
          · exact hnone _
          · exact he
      have hnull {p n : Bytes} (hp : (0 : UInt8) ∉ p) (hn : ValidName n) :
          (0 : UInt8) ∉ p ++ slash :: n := by
        simp only [List.mem_append, List.mem_cons, not_or]
        exact ⟨hp, by decide, hn.no_null⟩
      have hall := relocatedWith_entries hD hforward hroot hcanon hnode hfrom hto hq hr hab
        (fun hnames hels hagree' happly' => by
          have hsub := ih hels (hnull hfrom hnames.valid) (hnull hto hnames.valid) hnames.oldPath
            hnames.newPath (by rwa [hnames.child]) happly'
          rwa [hnames.child] at hsub)
        (names_nodup V₀.disk _) (fun d hd => mem_names.mp hd) (fun d _ => List.not_mem_nil) hagree
        hstart hentries happly
      -- every entry of the directory has been worked off
      have hdone {e : Bytes} {s : List Bytes} (hp : components (D.rootDir ++ q) ++ e :: s ∈ V.disk.paths) :
          e ∈ [] ++ V₀.disk.names (components (D.rootDir ++ q)) := by
        have habove : components (D.rootDir ++ q) ++ [e] ∈ V₀.disk.paths :=
          mem_of_above (hagree.mem_paths.mp hp) ⟨s, by rw [List.append_assoc]; rfl⟩
        exact mem_names.mpr habove
      refine hall.imp (fun p hp => ?_) fun p hp e e' hC => ?_
      · by_cases hin : components (D.rootDir ++ q) <+: p
        · obtain ⟨s, rfl⟩ := hin
          rw [underPath_append, underPath_append]
          cases s with
          | nil => rfl
          | cons e s => rw [recodeIn, if_pos (hdone hp)]
        · rw [underPath_outside hin, underPath_outside hin]
      · by_cases hin : components (D.rootDir ++ q) <+: p
        · obtain ⟨s, rfl⟩ := hin
          rw [contentUnder_append] at hC ⊢
          cases s with
          | nil => exact hC
          | cons d s => rwa [RecodedIn, if_pos (hdone hp)] at hC
        · rw [contentUnder_outside hin] at hC ⊢
          exact hC

end List

section Disk

variable {ε σ : Type} {renameNode : NodeRename ε σ} {A : UnixAnswers} {V₀ : Volume ε σ}

lemma relocated_element (hnode : ∀ fromP toP mode V, (renameNode fromP toP mode V).2.disk = V.disk)
    {fromP toP q r n d d' : Bytes} {a' b' : UInt64} {P : List Bytes}
    {T : FileTree Bytes ε} {V V₁ V₂ V₃ : Volume ε σ} (hnames : D.EntryNames fromP toP q r n d d' a' b')
    (hab : a ≠ b) (hdots : isDots d = false) (hdec : D.naming.decodePathIV d a = .ok (n, a'))
    (henc : D.naming.encodePathIV n b = .ok (d', b'))
    (hT : Relocated (underPath (components (D.rootDir ++ q)) (D.recodeIn P a b)) T V.disk)
    (hd : components (D.rootDir ++ q) ++ [d] ∈ T.paths) (hP : d ∉ P)
    (hinner : Relocated (underPath (components (D.rootDir ++ q) ++ [d]) (D.recode a' b')) V.disk
      V₁.disk)
    (hnodes : renameNode (fromP ++ slash :: n) (toP ++ slash :: n) true V₁ = (true, V₂))
    (hmoved : V₂.rename A (D.rootDir ++ q ++ slash :: d) (D.rootDir ++ q ++ slash :: d') = some V₃) :
    Relocated (underPath (components (D.rootDir ++ q)) (D.recodeIn (P ++ [d]) a b)) T V₃.disk := by
  rw [← relocatedWith_unchanged fun _ _ _ => recodedIn_unchanged] at hT ⊢
  rw [← relocatedWith_unchanged fun _ _ _ => recoded_unchanged] at hinner
  exact relocatedWith_element (rewritesEntry_unchanged hnode) hnames hab hdots hdec henc hT hd hP
    hinner hnodes hmoved

lemma relocated_list (hD : D.naming.Lawful) (hforward : D.naming.reverseEncryption = false)
    (hroot : D.rootDir.getLast? = some slash) (hcanon : D.Canonical V₀.disk)
    (hnode : ∀ fromP toP mode V, (renameNode fromP toP mode V).2.disk = V.disk) {fuel : ℕ}
    {fromP toP q r : Bytes} {l done : List RenameEl} {V V' : Volume ε σ}
    (hlist : D.genRenameList (V₀.opendir A) V₀.isDirectory fuel fromP toP = some l)
    (hfrom : (0 : UInt8) ∉ fromP) (hto : (0 : UInt8) ∉ toP)
    (hq : D.naming.encodePathIV fromP 0 = .ok (q, a)) (hr : D.naming.encodePathIV toP 0 = .ok (r, b))
    (hagree : AgreeUnder (components (D.rootDir ++ q)) V₀.disk V.disk)
    (happly : RenameOp.apply renameNode A l V = (true, done, V')) :
    Relocated (underPath (components (D.rootDir ++ q)) (D.recode a b)) V.disk V'.disk := by
  rw [← relocatedWith_unchanged fun _ _ _ => recoded_unchanged]
  exact relocatedWith_list hD hforward hroot hcanon (rewritesEntry_unchanged hnode) hlist hfrom hto hq
    hr hagree happly

end Disk

end DirNode

end EncFS
