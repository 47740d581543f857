import EncFS.FileTree
import Mathlib.Data.List.Forall2

set_option autoImplicit false

namespace EncFS

namespace TreeEntry

variable {ε : Type}

def setContent (c : ε) : TreeEntry ε → TreeEntry ε
  | .dir => .dir
  | .file _ => .file c

inductive Alike (R : ε → ε → Prop) : TreeEntry ε → TreeEntry ε → Prop
  | dir : Alike R .dir .dir
  | file {c c' : ε} (h : R c c') : Alike R (.file c) (.file c')

variable {R : ε → ε → Prop}

lemma Alike.refl (hR : ∀ c, R c c) (e : TreeEntry ε) : e.Alike R e := by
  cases e with
  | dir => exact .dir
  | file c => exact .file (hR c)

lemma Alike.setContent {e e' : TreeEntry ε} (h : e.Alike R e') {c : ε} (hc : R c c) :
    (e.setContent c).Alike R (e'.setContent c) := by
  cases h with
  | dir => exact .dir
  | file h => exact .file hc

lemma Alike.trans (hR : ∀ c c' c'', R c c' → R c' c'' → R c c'') {e e' e'' : TreeEntry ε}
    (h : e.Alike R e') (h' : e'.Alike R e'') : e.Alike R e'' := by
  cases h with
  | dir => exact h'
  | file h =>
    cases h' with
    | file h' => exact .file (hR _ _ _ h h')

end TreeEntry

namespace FileTree

variable {κ ε : Type}

def Alike (R : ε → ε → Prop) (T U : FileTree κ ε) : Prop :=
  List.Forall₂ (fun x y => x.1 = y.1 ∧ x.2.Alike R y.2) T.entries U.entries

lemma ext_entries {T U : FileTree κ ε} (h : T.entries = U.entries) : T = U := by
  cases T
  cases U
  cases h
  rfl

variable {R : ε → ε → Prop} {T U : FileTree κ ε}

lemma Alike.refl (hR : ∀ c, R c c) (T : FileTree κ ε) : T.Alike R T :=
  List.forall₂_same.mpr fun x _ => ⟨rfl, .refl hR x.2⟩

lemma Alike.paths (h : T.Alike R U) : U.paths = T.paths := by
  have hpaths : List.Forall₂ (· = ·) T.paths U.paths := by
    rw [FileTree.paths, FileTree.paths, List.forall₂_map_left_iff, List.forall₂_map_right_iff]
    exact h.imp fun _ _ hxy => hxy.1
  rw [List.forall₂_eq_eq_eq] at hpaths
  exact hpaths.symm

lemma Alike.mem (h : T.Alike R U) {p : List κ} {e : TreeEntry ε} (he : (p, e) ∈ T.entries) :
    ∃ e', (p, e') ∈ U.entries ∧ e.Alike R e' := by
  have hentries : List.Forall₂ (fun x y => x.1 = y.1 ∧ x.2.Alike R y.2) T.entries U.entries := h
  generalize T.entries = l at hentries he
  generalize U.entries = l' at hentries
  induction hentries with
  | nil => cases he
  | @cons x y _ _ hxy _ ih =>
    rcases List.mem_cons.mp he with rfl | he
    · obtain ⟨rfl, halike⟩ := hxy
      exact ⟨y.2, List.mem_cons_self, halike⟩
    · obtain ⟨e', he', halike⟩ := ih he
      exact ⟨e', List.mem_cons_of_mem y he', halike⟩

lemma Alike.trans (hR : ∀ c c' c'', R c c' → R c' c'' → R c c'') {W : FileTree κ ε}
    (h : T.Alike R U) (h' : U.Alike R W) : T.Alike R W := by
  rw [Alike] at *
  generalize T.entries = l at h
  generalize U.entries = l' at h h'
  generalize W.entries = l'' at h'
  induction h generalizing l'' with
  | nil => exact h'
  | cons hxy _ ih =>
    cases h' with
    | cons hyz hrest => exact .cons ⟨hxy.1.trans hyz.1, hxy.2.trans hR hyz.2⟩ (ih _ hrest)

variable [DecidableEq κ] {p : List κ}

def setContent (T : FileTree κ ε) (p : List κ) (c : ε) : FileTree κ ε where
  entries := T.entries.map fun x => (x.1, if x.1 = p then x.2.setContent c else x.2)
  nodup := by
    rw [List.map_map]
    exact T.nodup
  closed {q n e} h := by
    obtain ⟨⟨p', e'⟩, hmem, heq⟩ := List.mem_map.mp h
    obtain ⟨rfl, -⟩ := Prod.mk.inj heq
    refine List.mem_map.mpr ⟨(q, .dir), T.closed hmem, ?_⟩
    dsimp only
    split <;> rfl

lemma find_eq_none : T.find p = none ↔ p ∉ T.paths := by
  rw [mem_paths, ← not_iff_not, ← Option.ne_none_iff_exists'.trans (exists_congr fun _ => find_eq_some),
    not_not]

lemma Alike.find_none (h : T.Alike R U) (hnone : T.find p = none) : U.find p = none := by
  rw [find_eq_none, h.paths, ← find_eq_none]
  exact hnone

lemma Alike.find_dir (h : T.Alike R U) (hdir : T.find p = some .dir) : U.find p = some .dir := by
  obtain ⟨e, he, halike⟩ := h.mem (find_eq_some.mp hdir)
  cases halike
  exact find_eq_some.mpr he

lemma Alike.find_file (h : T.Alike R U) {c : ε} (hfile : T.find p = some (.file c)) :
    ∃ c', U.find p = some (.file c') ∧ R c c' := by
  obtain ⟨e, he, halike⟩ := h.mem (find_eq_some.mp hfile)
  cases halike with
  | file hc => exact ⟨_, find_eq_some.mpr he, hc⟩

@[simp] lemma setContent_paths (c : ε) : (T.setContent p c).paths = T.paths := by
  simp [FileTree.paths, setContent]

lemma find_setContent {c c' : ε} (h : T.find p = some (.file c)) :
    (T.setContent p c').find p = some (.file c') := by
  refine find_eq_some.mpr (List.mem_map.mpr ⟨(p, .file c), find_eq_some.mp h, ?_⟩)
  rw [if_pos rfl]
  rfl

lemma setContent_self {c : ε} (h : T.find p = some (.file c)) : T.setContent p c = T := by
  apply ext_entries
  refine (List.map_congr_left fun x hx => ?_).trans (List.map_id T.entries)
  obtain ⟨q, e⟩ := x
  by_cases hq : q = p
  · subst hq
    obtain rfl := entry_unique hx (find_eq_some.mp h)
    simp [TreeEntry.setContent]
  · simp [hq]

lemma setContent_setContent (T : FileTree κ ε) (p : List κ) (c c' : ε) :
    (T.setContent p c').setContent p c = T.setContent p c := by
  apply ext_entries
  simp only [setContent, List.map_map]
  refine List.map_congr_left fun x _ => ?_
  simp only [Function.comp]
  by_cases hp : x.1 = p
  · rw [if_pos hp, if_pos hp, if_pos hp]
    cases x.2 <;> rfl
  · rw [if_neg hp, if_neg hp, if_neg hp]

lemma Alike.setContent_both (h : T.Alike R U) {c : ε} (hc : R c c) :
    (T.setContent p c).Alike R (U.setContent p c) := by
  refine List.forall₂_map_left_iff.mpr (List.forall₂_map_right_iff.mpr (h.imp fun x y hxy => ?_))
  obtain ⟨hpath, halike⟩ := hxy
  refine ⟨hpath, ?_⟩
  rw [← hpath]
  by_cases hp : x.1 = p
  · rw [if_pos hp, if_pos hp]
    exact halike.setContent hc
  · rw [if_neg hp, if_neg hp]
    exact halike

lemma Alike.setContent (h : T.Alike R U) {c c' : ε} (hfile : T.find p = some (.file c))
    (hc : R c c') : T.Alike R (U.setContent p c') := by
  refine List.forall₂_map_right_iff.mpr
    (List.forall₂_iff_zip.mpr ⟨h.length_eq, fun {x y} hxy => ?_⟩)
  obtain ⟨hpath, halike⟩ := List.forall₂_zip h hxy
  refine ⟨hpath, ?_⟩
  rw [← hpath]
  by_cases hp : x.1 = p
  · have hx : x.2 = .file c := entry_unique (List.of_mem_zip hxy).1 (by
      rw [hp]
      exact find_eq_some.mp hfile)
    rw [if_pos hp]
    rw [hx] at halike ⊢
    generalize y.2 = e at halike ⊢
    cases halike with
    | file _ => exact .file hc
  · rw [if_neg hp]
    exact halike

variable {old new : List κ} {T' : FileTree κ ε}

lemma Alike.isDirectory (h : T.Alike R U) {q : List κ} (hdir : T.isDirectory q = true) :
    U.isDirectory q = true :=
  isDirectory_iff.mpr (find_eq_some.mp (h.find_dir (find_eq_some.mpr (isDirectory_iff.mp hdir))))

lemma Alike.rename (h : T.Alike R U) (hrename : T.rename old new = some T') :
    ∃ U', U.rename old new = some U' ∧ T'.Alike R U' := by
  rcases rename_cases hrename with ⟨rfl, hmem, rfl⟩ | ⟨hmove, hentries⟩
  · refine ⟨U, ?_, h⟩
    rw [FileTree.rename, if_pos ⟨rfl, h.paths ▸ hmem⟩]
  · have hmove' : U.CanMove old new :=
      ⟨h.paths ▸ hmove.mem, h.paths ▸ hmove.free, hmove.ne_nil, h.isDirectory hmove.parent,
        hmove.not_within⟩
    have hne : ¬ (old = new ∧ old ∈ U.paths) := fun hsame =>
      hmove'.free (hsame.1 ▸ hmove'.mem)
    refine ⟨_, by rw [FileTree.rename, if_neg hne, dif_pos hmove'], ?_⟩
    rw [Alike, hentries]
    refine List.forall₂_map_left_iff.mpr (List.forall₂_map_right_iff.mpr (h.imp fun x y hxy => ?_))
    exact ⟨by rw [hxy.1], hxy.2⟩

lemma rename_back (h : T.rename old new = some T') : T'.rename new old = some T := by
  rcases rename_cases h with ⟨rfl, hmem, rfl⟩ | ⟨hmove, hentries⟩
  · rw [FileTree.rename, if_pos ⟨rfl, hmem⟩]
  · have hrelocated : Relocated (movedPath old new) T T' := hentries
    have hout : ¬ new <+: old := hmove.not_beyond hmove.mem
    have hself : movedPath old new (old ++ []) = new ++ [] := movedPath_append []
    rw [List.append_nil, List.append_nil] at hself
    have hmem : new ∈ T'.paths := (mem_paths_rename h).mpr ⟨old, hmove.mem, hself⟩
    have hfree : old ∉ T'.paths := by
      intro hin
      obtain ⟨q, hq, heq⟩ := (mem_paths_rename h).mp hin
      by_cases hold : old <+: q
      · obtain ⟨r, rfl⟩ := hold
        rw [movedPath_append] at heq
        exact hout ⟨r, heq⟩
      · rw [movedPath_outside hold] at heq
        exact hold (heq ▸ List.prefix_rfl)
    have hne : old ≠ [] := by
      rintro rfl
      exact hmove.not_within List.nil_prefix
    obtain ⟨r, n, rfl⟩ := (List.eq_nil_or_concat old).resolve_left hne
    rw [List.concat_eq_append] at *
    have hparent : T'.isDirectory (r ++ [n]).dropLast = true := by
      rw [List.dropLast_concat, isDirectory_iff, hrelocated.mem_iff]
      obtain ⟨e, he⟩ := T.mem_paths.mp hmove.mem
      refine ⟨r, T.closed he, movedPath_outside fun hin => ?_⟩
      have hlen := hin.length_le
      rw [List.length_append, List.length_singleton] at hlen
      omega
    have hback : T'.CanMove new (r ++ [n]) := ⟨hmem, hfree, hne, hparent, hout⟩
    have hne' : ¬ (new = r ++ [n] ∧ new ∈ T'.paths) := fun hsame => hfree (hsame.1 ▸ hsame.2)
    rw [FileTree.rename, if_neg hne', dif_pos hback]
    refine congrArg some (ext_entries ?_)
    dsimp only
    rw [hentries, List.map_map]
    refine (List.map_congr_left fun x hx => ?_).trans (List.map_id T.entries)
    have hx' : ¬ new <+: x.1 := hmove.not_beyond (T.mem_paths.mpr ⟨x.2, hx⟩)
    simp only [Function.comp, movedPath_movedPath hx', id]

/-- At `p` what `R` says of the entry, and elsewhere the entry is as it was. -/
def contentAtPath (p : List κ) (R : TreeEntry ε → TreeEntry ε → Prop) (q : List κ)
    (e e' : TreeEntry ε) : Prop :=
  if q = p then R e e' else e' = e

/-- The same for all that is below `p`, by the way to it. -/
def contentUnder (p : List κ) (K : List κ → TreeEntry ε → TreeEntry ε → Prop) (q : List κ)
    (e e' : TreeEntry ε) : Prop :=
  if p <+: q then K (q.drop p.length) e e' else e' = e

section

variable {K : List κ → TreeEntry ε → TreeEntry ε → Prop} {e e' : TreeEntry ε}

@[simp] lemma contentUnder_append {r : List κ} : contentUnder p K (p ++ r) e e' ↔ K r e e' := by
  simp [contentUnder]

lemma contentUnder_outside {q : List κ} (h : ¬ p <+: q) : contentUnder p K q e e' ↔ e' = e := by
  rw [contentUnder, if_neg h]

end

/-- The entries in their order, each at its new path, with what `C` says of it. -/
def RelocatedWith (C : List κ → TreeEntry ε → TreeEntry ε → Prop) (f : List κ → List κ)
    (T T' : FileTree κ ε) : Prop :=
  List.Forall₂ (fun x y => y.1 = f x.1 ∧ C x.1 x.2 y.2) T.entries T'.entries

namespace RelocatedWith

variable {C C' : List κ → TreeEntry ε → TreeEntry ε → Prop} {f g : List κ → List κ}
  {T₁ T₂ T₃ : FileTree κ ε}

omit [DecidableEq κ]

lemma paths (h : RelocatedWith C f T₁ T₂) : T₂.paths = T₁.paths.map f := by
  have hpaths : List.Forall₂ (· = ·) (T₁.paths.map f) T₂.paths := by
    rw [FileTree.paths, FileTree.paths, List.map_map, List.forall₂_map_left_iff,
      List.forall₂_map_right_iff]
    exact h.imp fun _ _ hxy => hxy.1.symm
  rw [List.forall₂_eq_eq_eq] at hpaths
  exact hpaths.symm

lemma injOn (h : RelocatedWith C f T₁ T₂) {p q : List κ} (hp : p ∈ T₁.paths) (hq : q ∈ T₁.paths)
    (heq : f p = f q) : p = q := by
  have hnodup : T₂.paths.Nodup := T₂.nodup
  rw [h.paths] at hnodup
  exact List.inj_on_of_nodup_map hnodup hp hq heq

lemma mem (h : RelocatedWith C f T₁ T₂) {p : List κ} {e : TreeEntry ε} (he : (p, e) ∈ T₁.entries) :
    ∃ e', (f p, e') ∈ T₂.entries ∧ C p e e' := by
  rw [RelocatedWith] at h
  generalize T₁.entries = l at h he
  generalize T₂.entries = l' at h
  induction h with
  | nil => cases he
  | @cons x y _ _ hxy _ ih =>
    rcases List.mem_cons.mp he with rfl | he
    · obtain ⟨hpath, hC⟩ := hxy
      exact ⟨y.2, by rw [← hpath]; exact List.mem_cons_self, hC⟩
    · obtain ⟨e', he', hC⟩ := ih he
      exact ⟨e', List.mem_cons_of_mem y he', hC⟩

lemma of_mem (h : RelocatedWith C f T₁ T₂) {q : List κ} {e' : TreeEntry ε}
    (he : (q, e') ∈ T₂.entries) : ∃ p e, (p, e) ∈ T₁.entries ∧ f p = q ∧ C p e e' := by
  have hq : q ∈ T₂.paths := T₂.mem_paths.mpr ⟨e', he⟩
  rw [h.paths] at hq
  obtain ⟨p, hp, rfl⟩ := List.mem_map.mp hq
  obtain ⟨e, hmem⟩ := T₁.mem_paths.mp hp
  obtain ⟨e'', he'', hC⟩ := h.mem hmem
  obtain rfl := entry_unique he he''
  exact ⟨p, e, hmem, rfl, hC⟩

lemma imp_entries (h : RelocatedWith C f T₁ T₂) (hf : ∀ p ∈ T₁.paths, f p = g p)
    (hC : ∀ p e e', (p, e) ∈ T₁.entries → C p e e' → C' p e e') : RelocatedWith C' g T₁ T₂ := by
  refine List.forall₂_iff_zip.mpr ⟨h.length_eq, fun {x y} hxy => ?_⟩
  obtain ⟨hpath, hx⟩ := List.forall₂_zip h hxy
  have hentry : x ∈ T₁.entries := (List.of_mem_zip hxy).1
  exact ⟨hpath.trans (hf _ (T₁.mem_paths.mpr ⟨x.2, hentry⟩)), hC _ _ _ hentry hx⟩

lemma imp (h : RelocatedWith C f T₁ T₂) (hf : ∀ p ∈ T₁.paths, f p = g p)
    (hC : ∀ p ∈ T₁.paths, ∀ e e', C p e e' → C' p e e') : RelocatedWith C' g T₁ T₂ :=
  h.imp_entries hf fun p e e' he => hC p (T₁.mem_paths.mpr ⟨e, he⟩) e e'

lemma trans (h : RelocatedWith C f T₁ T₂) (h' : RelocatedWith C' g T₂ T₃) :
    RelocatedWith (fun p e e'' => ∃ e', C p e e' ∧ C' (f p) e' e'') (g ∘ f) T₁ T₃ := by
  rw [RelocatedWith] at *
  generalize T₁.entries = l at h
  generalize T₂.entries = l' at h h'
  generalize T₃.entries = l'' at h'
  induction h generalizing l'' with
  | nil =>
    cases h'
    exact .nil
  | @cons x y _ _ hxy _ ih =>
    cases h' with
    | cons hyz hrest =>
      refine .cons ⟨?_, y.2, hxy.2, ?_⟩ (ih _ hrest)
      · rw [hyz.1, hxy.1]
        rfl
      · rw [← hxy.1]
        exact hyz.2

lemma of_relocated (h : Relocated f T₁ T₂) : RelocatedWith (fun _ e e' => e' = e) f T₁ T₂ := by
  rw [RelocatedWith, h]
  exact List.forall₂_map_right_iff.mpr (List.forall₂_same.mpr fun x _ => ⟨rfl, rfl⟩)

lemma relocated (h : RelocatedWith (fun _ e e' => e' = e) f T₁ T₂) : Relocated f T₁ T₂ := by
  have heq : List.Forall₂ (· = ·) T₂.entries (T₁.entries.map fun x => (f x.1, x.2)) :=
    List.forall₂_map_right_iff.mpr (h.flip.imp fun _ _ hxy => Prod.ext hxy.1 hxy.2)
  rw [List.forall₂_eq_eq_eq] at heq
  exact heq

lemma trans_at [DecidableEq κ] {k : List κ → List κ} {K : List κ → TreeEntry ε → TreeEntry ε → Prop}
    {R : TreeEntry ε → TreeEntry ε → Prop} (hk : ∀ r, k r = [] ↔ r = [])
    (hK : ∀ e e', K [] e e' → e' = e)
    (h : RelocatedWith (contentUnder p K) (underPath p k) T₁ T₂)
    (h' : RelocatedWith (contentAtPath p R) id T₂ T₃) :
    RelocatedWith (contentUnder p fun s e e' => if s = [] then R e e' else K s e e') (underPath p k)
      T₁ T₃ := by
  refine (h.trans h').imp (fun _ _ => rfl) ?_
  rintro q - e e₂ ⟨e₁, h₁, h₂⟩
  by_cases hin : p <+: q
  · obtain ⟨s, rfl⟩ := hin
    have hat : p ++ k s = p ↔ s = [] := by
      rw [List.append_right_eq_self, hk]
    rw [contentUnder_append] at h₁ ⊢
    rw [underPath_append, contentAtPath] at h₂
    by_cases hs : s = []
    · subst hs
      rw [if_pos (hat.mpr rfl), hK _ _ h₁] at h₂
      rwa [if_pos rfl]
    · rw [if_neg (mt hat.mp hs)] at h₂
      rwa [if_neg hs, h₂]
  · rw [contentUnder_outside hin] at h₁ ⊢
    rw [underPath_outside hin, contentAtPath, if_neg fun heq => hin (by rw [heq])] at h₂
    rw [h₂, h₁]

lemma find_file [DecidableEq κ] {R : ε → ε → Prop}
    (hfile : ∀ c, T.find p = some (.file c) → R c c) :
    RelocatedWith (contentAtPath p fun e e' => e.Alike R e') id T T := by
  refine (of_relocated (Relocated.of_id fun _ _ => rfl)).imp_entries (fun _ _ => rfl) ?_
  rintro q e e' hmem rfl
  rw [contentAtPath]
  split
  · rename_i hq
    cases e' with
    | dir => exact .dir
    | file c => exact .file (hfile c (find_eq_some.mpr (hq ▸ hmem)))
  · rfl

lemma setContent [DecidableEq κ] {R : ε → ε → Prop} {c c' : ε} (hfile : T.find p = some (.file c))
    (hR : R c c') :
    RelocatedWith (contentAtPath p fun e e' => e.Alike R e') id T (T.setContent p c') := by
  refine List.forall₂_map_right_iff.mpr (List.forall₂_same.mpr fun x hx => ⟨rfl, ?_⟩)
  rw [contentAtPath]
  by_cases hp : x.1 = p
  · rw [if_pos hp, if_pos hp]
    have hentry : x.2 = .file c := entry_unique (hp ▸ hx) (find_eq_some.mp hfile)
    rw [hentry]
    exact .file hR
  · rw [if_neg hp, if_neg hp]

end RelocatedWith

section Outside

variable {q : List κ} {e : TreeEntry ε} (hout : ¬ p <+: q)
include hout

lemma RelocatedWith.mem_outside {K : List κ → TreeEntry ε → TreeEntry ε → Prop}
    {k : List κ → List κ} (hT : RelocatedWith (contentUnder p K) (underPath p k) T T') :
    (q, e) ∈ T'.entries ↔ (q, e) ∈ T.entries := by
  constructor
  · intro hmem
    obtain ⟨t, e₀, ht, heq, hcontent⟩ := hT.of_mem hmem
    have hin : ¬ p <+: t := by
      rintro ⟨r, rfl⟩
      rw [underPath_append] at heq
      exact hout (heq ▸ List.prefix_append p (k r))
    rw [underPath_outside hin] at heq
    rw [contentUnder_outside hin] at hcontent
    rwa [hcontent, ← heq]
  · intro hmem
    obtain ⟨e', he', hcontent⟩ := hT.mem hmem
    rw [underPath_outside hout] at he'
    rw [contentUnder_outside hout] at hcontent
    rwa [← hcontent]

lemma Relocated.mem_outside (hT : Relocated (movedPath p new) T T') (hout' : ¬ new <+: q) :
    (q, e) ∈ T'.entries ↔ (q, e) ∈ T.entries := by
  rw [hT.mem_iff]
  constructor
  · rintro ⟨t, ht, heq⟩
    by_cases hin : p <+: t
    · obtain ⟨r, rfl⟩ := hin
      rw [movedPath_append] at heq
      exact absurd (heq ▸ List.prefix_append new r) hout'
    · rw [movedPath_outside hin] at heq
      rwa [← heq]
  · exact fun hmem => ⟨q, hmem, movedPath_outside hout⟩

end Outside

lemma CanMove.left_behind (h : T.CanMove old new) (hT : Relocated (movedPath old new) T T')
    (hp : old <+: p) : p ∉ T'.paths := by
  intro hmem
  obtain ⟨e, he⟩ := T'.mem_paths.mp hmem
  obtain ⟨q, hq, heq⟩ := hT.mem_iff.mp he
  by_cases hin : old <+: q
  · obtain ⟨r, rfl⟩ := hin
    rw [movedPath_append] at heq
    rcases List.prefix_or_prefix_of_prefix hp (heq ▸ List.prefix_append new r) with hwithin | habove
    · exact h.not_within hwithin
    · exact h.free (mem_of_above h.mem habove)
  · rw [movedPath_outside hin] at heq
    exact hin (heq ▸ hp)

end FileTree

end EncFS
