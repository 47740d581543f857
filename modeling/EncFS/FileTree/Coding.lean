import EncFS.FileTree.Operations
import Mathlib.Data.Option.Defs

set_option autoImplicit false

namespace EncFS

/-- Every path has one code at most, and a code is of one path, with those of the directories that
the path leads through in front. -/
structure PathCode (κ κ' : Type) where
  Codes : List κ → List κ' → Prop
  nil : Codes [] []
  functional {p : List κ} {q q' : List κ'} : Codes p q → Codes p q' → q = q'
  injective {p p' : List κ} {q : List κ'} : Codes p q → Codes p' q → p = p'
  init_left {p : List κ} {n : κ} {q : List κ'} : Codes (p ++ [n]) q →
    ∃ q' e, q = q' ++ [e] ∧ Codes p q'
  init_right {p : List κ} {q : List κ'} {e : κ'} : Codes p (q ++ [e]) →
    ∃ p' n, p = p' ++ [n] ∧ Codes p' q

namespace PathCode

variable {κ κ' : Type} (C : PathCode κ κ') {p p' : List κ} {q q' : List κ'}

def symm : PathCode κ' κ where
  Codes q p := C.Codes p q
  nil := C.nil
  functional h h' := C.injective h h'
  injective h h' := C.functional h h'
  init_left h := C.init_right h
  init_right h := C.init_left h

variable {C}

lemma eq_nil_iff (h : C.Codes p q) : p = [] ↔ q = [] := by
  constructor
  · rintro rfl
    exact C.functional h C.nil
  · rintro rfl
    exact C.injective h C.nil

lemma init {n : κ} {e : κ'} (h : C.Codes (p ++ [n]) (q ++ [e])) : C.Codes p q := by
  obtain ⟨q₁, e₁, heq, hcodes⟩ := C.init_left h
  obtain ⟨rfl, -⟩ := List.append_inj' heq rfl
  exact hcodes

lemma dropLast (h : C.Codes p q) : C.Codes p.dropLast q.dropLast := by
  rcases List.eq_nil_or_concat p with rfl | ⟨p, n, rfl⟩
  · rw [(eq_nil_iff h).mp rfl]
    exact C.nil
  · rw [List.concat_eq_append] at h ⊢
    obtain ⟨q, e, rfl, hcodes⟩ := C.init_left h
    rwa [List.dropLast_concat, List.dropLast_concat]

lemma split_left {r : List κ} (h : C.Codes (p ++ r) q) : ∃ q₁ q₂, q = q₁ ++ q₂ ∧ C.Codes p q₁ := by
  induction r using List.reverseRecOn generalizing q with
  | nil => exact ⟨q, [], (List.append_nil q).symm, by rwa [List.append_nil] at h⟩
  | append_singleton r n ih =>
    rw [← List.append_assoc] at h
    obtain ⟨q, e, rfl, hcodes⟩ := C.init_left h
    obtain ⟨q₁, q₂, rfl, hfirst⟩ := ih hcodes
    exact ⟨q₁, q₂ ++ [e], List.append_assoc q₁ q₂ [e], hfirst⟩

lemma prefix_iff (h : C.Codes p q) (h' : C.Codes p' q') : p <+: p' ↔ q <+: q' := by
  constructor
  · rintro ⟨r, rfl⟩
    obtain ⟨q₁, q₂, rfl, hfirst⟩ := split_left h'
    rw [C.functional h hfirst]
    exact List.prefix_append q₁ q₂
  · rintro ⟨r, rfl⟩
    obtain ⟨p₁, p₂, rfl, hfirst⟩ := split_left (C := C.symm) h'
    rw [C.injective h hfirst]
    exact List.prefix_append p₁ p₂

end PathCode

inductive Matched {δ α β : Type} (Q : α → β → Prop) : Except δ α → Except δ β → Prop
  | error (e : δ) : Matched Q (.error e) (.error e)
  | ok {a : α} {b : β} (h : Q a b) : Matched Q (.ok a) (.ok b)

namespace FileTree

/-- Below `root` the tree `T` has the files of `P` under their codes, with related contents, and
else only what is under hidden names. -/
structure Mirrors {κ κ' ε : Type} (C : PathCode κ κ') (R : ε → ε → Prop) (root : List κ')
    (Hidden : κ' → Prop) (P : FileTree κ ε) (T : FileTree κ' ε) : Prop where
  coded {p : List κ} {e : TreeEntry ε} : (p, e) ∈ P.entries →
    ∃ q e', C.Codes p q ∧ (root ++ q, e') ∈ T.entries ∧ e.Alike R e'
  decoded {q : List κ'} {e' : TreeEntry ε} : (root ++ q, e') ∈ T.entries →
    (∃ p ∈ P.paths, C.Codes p q) ∨ ∃ j r, q = j :: r ∧ Hidden j

variable {κ κ' ε : Type} [DecidableEq κ] [DecidableEq κ'] {C : PathCode κ κ'} {R : ε → ε → Prop}
  {root : List κ'} {Hidden : κ' → Prop} {P P' : FileTree κ ε} {T T' : FileTree κ' ε}

def Apart (C : PathCode κ κ') (Hidden : κ' → Prop) : Prop :=
  ∀ p j r, C.Codes p (j :: r) → ¬ Hidden j

namespace Mirrors

variable (h : Mirrors C R root Hidden P T) {p : List κ} {q : List κ'}
include h

omit [DecidableEq κ] [DecidableEq κ'] in
lemma entry (hq : C.Codes p q) {e : TreeEntry ε} (he : (p, e) ∈ P.entries) :
    ∃ e', (root ++ q, e') ∈ T.entries ∧ e.Alike R e' := by
  obtain ⟨q', e', hcodes, hmem, halike⟩ := h.coded he
  obtain rfl := C.functional hq hcodes
  exact ⟨e', hmem, halike⟩

variable (hapart : Apart C Hidden) (hq : C.Codes p q)
include hapart hq

omit [DecidableEq κ] [DecidableEq κ'] in
lemma mem_iff : root ++ q ∈ T.paths ↔ p ∈ P.paths := by
  constructor
  · intro hmem
    obtain ⟨e', he'⟩ := T.mem_paths.mp hmem
    rcases h.decoded he' with ⟨p', hp', hcodes⟩ | ⟨j, r, rfl, hj⟩
    · rwa [C.injective hq hcodes]
    · exact absurd hj (hapart _ _ _ hq)
  · intro hmem
    obtain ⟨e, he⟩ := P.mem_paths.mp hmem
    obtain ⟨e', he', -⟩ := h.entry hq he
    exact T.mem_paths.mpr ⟨e', he'⟩

lemma find_rel : Option.Rel (TreeEntry.Alike R) (P.find p) (T.find (root ++ q)) := by
  cases hfind : P.find p with
  | none =>
    rw [find_eq_none.mpr (mt (h.mem_iff hapart hq).mp (find_eq_none.mp hfind))]
    exact .none
  | some e =>
    obtain ⟨e', he', halike⟩ := h.entry hq (find_eq_some.mp hfind)
    rw [find_eq_some.mpr he']
    exact .some halike

lemma isDirectory_eq : T.isDirectory (root ++ q) = P.isDirectory p := by
  have hrel := h.find_rel hapart hq
  rw [isDirectory, isDirectory]
  generalize P.find p = o at hrel
  generalize T.find (root ++ q) = o' at hrel
  cases hrel with
  | none => rfl
  | some halike => cases halike <;> rfl

lemma parent_eq (hne : p ≠ []) :
    T.isDirectory (root ++ q).dropLast = P.isDirectory p.dropLast := by
  rw [List.dropLast_append_of_ne_nil (mt (PathCode.eq_nil_iff hq).mpr hne)]
  exact h.isDirectory_eq hapart (PathCode.dropLast hq)

lemma name_decoded {e : κ'} (he : e ∈ T.names (root ++ q)) :
    (∃ n ∈ P.names p, C.Codes (p ++ [n]) (q ++ [e])) ∨ p = [] ∧ Hidden e := by
  rw [mem_names, List.append_assoc] at he
  obtain ⟨e', he'⟩ := T.mem_paths.mp he
  rcases h.decoded he' with ⟨p₁, hp₁, hcodes⟩ | ⟨j, r, heq, hj⟩
  · obtain ⟨p₂, n, rfl, hinit⟩ := C.init_right hcodes
    obtain rfl := C.injective hq hinit
    exact .inl ⟨n, mem_names.mpr hp₁, hcodes⟩
  · cases q with
    | nil => exact .inr ⟨C.injective hq C.nil, by rwa [(List.cons.inj heq).1]⟩
    | cons d q => exact absurd ((List.cons.inj heq).1 ▸ hj) (hapart _ _ _ hq)

lemma names_eq_nil_iff (hne : p ≠ []) : T.names (root ++ q) = [] ↔ P.names p = [] := by
  constructor
  · intro hnil
    refine List.eq_nil_iff_forall_not_mem.mpr fun n hn => ?_
    obtain ⟨e, he⟩ := P.mem_paths.mp (mem_names.mp hn)
    obtain ⟨q', e', hcodes, hmem, -⟩ := h.coded he
    obtain ⟨q₁, d, rfl, hinit⟩ := C.init_left hcodes
    obtain rfl := C.functional hq hinit
    rw [← List.append_assoc] at hmem
    have hd : d ∈ T.names (root ++ q) := mem_names.mpr (T.mem_paths.mpr ⟨e', hmem⟩)
    rw [hnil] at hd
    cases hd
  · intro hnil
    refine List.eq_nil_iff_forall_not_mem.mpr fun e he => ?_
    rcases h.name_decoded hapart hq he with ⟨n, hn, -⟩ | ⟨hp, -⟩
    · rw [hnil] at hn
      cases hn
    · exact hne hp

omit [DecidableEq κ] [DecidableEq κ'] hapart in
lemma added {e e' : TreeEntry ε} (he : e.Alike R e') (hP : P'.entries = P.entries ++ [(p, e)])
    (hT : T'.entries = T.entries ++ [(root ++ q, e')]) : Mirrors C R root Hidden P' T' where
  coded := by
    intro p₁ e₁ hmem
    rw [hP] at hmem
    rcases List.mem_append.mp hmem with hmem | hmem
    · obtain ⟨q₁, e₁', hcodes, hmem', halike⟩ := h.coded hmem
      exact ⟨q₁, e₁', hcodes, by rw [hT]; exact List.mem_append_left _ hmem', halike⟩
    · obtain ⟨rfl, rfl⟩ := Prod.mk.inj (List.mem_singleton.mp hmem)
      exact ⟨q, e', hq, by rw [hT]; exact List.mem_append_right _ List.mem_cons_self, he⟩
  decoded := by
    intro q₁ e₁' hmem
    have hpaths {p₁ : List κ} (hp₁ : p₁ ∈ P.paths) : p₁ ∈ P'.paths := by
      rw [FileTree.paths, hP, List.map_append]
      exact List.mem_append_left _ hp₁
    rw [hT] at hmem
    rcases List.mem_append.mp hmem with hmem | hmem
    · rcases h.decoded hmem with ⟨p₁, hp₁, hcodes⟩ | hhidden
      · exact .inl ⟨p₁, hpaths hp₁, hcodes⟩
      · exact .inr hhidden
    · obtain ⟨hpath, -⟩ := Prod.mk.inj (List.mem_singleton.mp hmem)
      rw [List.append_cancel_left hpath]
      refine .inl ⟨p, ?_, hq⟩
      rw [FileTree.paths, hP, List.map_append]
      exact List.mem_append_right _ List.mem_cons_self

omit hapart in
lemma removed (hP : P'.entries = P.entries.filter (·.1 ≠ p))
    (hT : T'.entries = T.entries.filter (·.1 ≠ root ++ q)) : Mirrors C R root Hidden P' T' where
  coded := by
    intro p₁ e₁ hmem
    obtain ⟨hmem, hne⟩ := (mem_without hP).mp hmem
    obtain ⟨q₁, e₁', hcodes, hmem', halike⟩ := h.coded hmem
    refine ⟨q₁, e₁', hcodes, (mem_without hT).mpr ⟨hmem', fun heq => hne ?_⟩, halike⟩
    rw [List.append_cancel_left heq] at hcodes
    exact C.injective hcodes hq
  decoded := by
    intro q₁ e₁' hmem
    obtain ⟨hmem, hne⟩ := (mem_without hT).mp hmem
    rcases h.decoded hmem with ⟨p₁, hp₁, hcodes⟩ | hhidden
    · obtain ⟨e₁, he₁⟩ := P.mem_paths.mp hp₁
      refine .inl ⟨p₁, P'.mem_paths.mpr ⟨e₁, (mem_without hP).mpr ⟨he₁, ?_⟩⟩, hcodes⟩
      rintro rfl
      exact hne (congrArg (root ++ ·) (C.functional hcodes hq))
    · exact .inr hhidden

lemma add {e e' : TreeEntry ε} (hroot : root ∈ T.paths) (he : e.Alike R e') :
    Matched (Mirrors C R root Hidden) (P.add p e) (T.add (root ++ q) e') := by
  have hmem := h.mem_iff hapart hq
  by_cases hp : p ∈ P.paths
  · rw [add_exists hp, add_exists (hmem.mpr hp)]
    exact .error _
  · have hfree := mt hmem.mp hp
    by_cases hparent : p ≠ [] ∧ P.isDirectory p.dropLast = true
    · have hparent' := h.parent_eq hapart hq hparent.1
      have hne : root ++ q ≠ [] := fun hnil =>
        hparent.1 ((PathCode.eq_nil_iff hq).mpr (List.append_eq_nil_iff.mp hnil).2)
      obtain ⟨P', hP'⟩ := add_ok hp hparent.1 hparent.2 e
      obtain ⟨T', hT'⟩ := add_ok hfree hne (hparent'.trans hparent.2) e'
      rw [hP', hT']
      exact .ok (h.added hq he (add_cases hP').2.2.2 (add_cases hT').2.2.2)
    · have hne : p ≠ [] := by
        rintro rfl
        rw [(PathCode.eq_nil_iff hq).mp rfl, List.append_nil] at hfree
        exact hfree hroot
      rw [add_notFound hp hparent, add_notFound hfree]
      · exact .error _
      · rw [h.parent_eq hapart hq hne]
        exact fun hT => hparent ⟨hne, hT.2⟩

lemma deleteFile : Matched (Mirrors C R root Hidden) (P.deleteFile p) (T.deleteFile (root ++ q)) := by
  have hrel := h.find_rel hapart hq
  cases hP : P.find p with
  | none =>
    rw [hP] at hrel
    cases hT : T.find (root ++ q) with
    | none =>
      rw [deleteFile_none hP, deleteFile_none hT]
      exact .error _
    | some e' =>
      rw [hT] at hrel
      cases hrel
  | some e =>
    obtain ⟨e', he', halike⟩ := h.entry hq (find_eq_some.mp hP)
    have hT := find_eq_some.mpr he'
    cases halike with
    | dir =>
      rw [deleteFile_dir hP, deleteFile_dir hT]
      exact .error _
    | file _ =>
      obtain ⟨P', hP'⟩ := deleteFile_file hP
      obtain ⟨T', hT'⟩ := deleteFile_file hT
      rw [hP', hT']
      exact .ok (h.removed hq (deleteFile_cases hP').2 (deleteFile_cases hT').2)

lemma removeDirectory (hne : p ≠ []) :
    Matched (Mirrors C R root Hidden) (P.removeDirectory p) (T.removeDirectory (root ++ q)) := by
  have hrel := h.find_rel hapart hq
  cases hP : P.find p with
  | none =>
    rw [hP] at hrel
    cases hT : T.find (root ++ q) with
    | none =>
      rw [removeDirectory_none hP, removeDirectory_none hT]
      exact .error _
    | some e' =>
      rw [hT] at hrel
      cases hrel
  | some e =>
    obtain ⟨e', he', halike⟩ := h.entry hq (find_eq_some.mp hP)
    have hT := find_eq_some.mpr he'
    cases halike with
    | dir =>
      have hnames := h.names_eq_nil_iff hapart hq hne
      by_cases hempty : P.names p = []
      · obtain ⟨P', hP'⟩ := removeDirectory_empty hP hempty
        obtain ⟨T', hT'⟩ := removeDirectory_empty hT (hnames.mpr hempty)
        rw [hP', hT']
        exact .ok (h.removed hq (removeDirectory_cases hP').2.2 (removeDirectory_cases hT').2.2)
      · rw [removeDirectory_notEmpty hP hempty, removeDirectory_notEmpty hT (mt hnames.mp hempty)]
        exact .error _
    | file _ =>
      rw [removeDirectory_file hP, removeDirectory_file hT]
      exact .error _

omit hapart in
lemma setContent {c c' : ε} (hc : R c c') :
    Mirrors C R root Hidden (P.setContent p c) (T.setContent (root ++ q) c') where
  coded := by
    intro p₁ e₁ hmem
    obtain ⟨⟨p₂, e₂⟩, hmem₂, heq⟩ := List.mem_map.mp hmem
    obtain ⟨rfl, rfl⟩ := Prod.mk.inj heq
    obtain ⟨q₂, e', hcodes, hmem', halike⟩ := h.coded hmem₂
    refine ⟨q₂, _, hcodes, List.mem_map.mpr ⟨(root ++ q₂, e'), hmem', rfl⟩, ?_⟩
    dsimp only
    by_cases hp : p₂ = p
    · subst hp
      rw [if_pos rfl, if_pos (by rw [C.functional hcodes hq])]
      cases halike with
      | dir => exact .dir
      | file _ => exact .file hc
    · rw [if_neg hp, if_neg fun heq' => hp ?_]
      · exact halike
      · rw [List.append_cancel_left heq'] at hcodes
        exact C.injective hcodes hq
  decoded := by
    intro q₁ e₁' hmem
    obtain ⟨⟨t, e'⟩, hmem', heq⟩ := List.mem_map.mp hmem
    obtain ⟨rfl, -⟩ := Prod.mk.inj heq
    rw [setContent_paths]
    exact h.decoded hmem'

end Mirrors

section Moves

variable {p new : List κ} {k : List κ → List κ} {T T₁ : FileTree κ ε}

lemma underPath_eq_self {t : List κ} (h : underPath p k t = p) : p <+: t := by
  by_contra hout
  rw [underPath_outside hout] at h
  exact hout (h ▸ List.prefix_rfl)

lemma mem_paths_underPath (hT : Relocated (underPath p k) T T₁) (hout : ¬ p <+: new) :
    new ∈ T₁.paths ↔ new ∈ T.paths := by
  rw [T₁.mem_paths, T.mem_paths]
  refine exists_congr fun e => ?_
  rw [hT.mem_iff]
  constructor
  · rintro ⟨t, ht, heq⟩
    by_cases hin : p <+: t
    · obtain ⟨r, rfl⟩ := hin
      rw [underPath_append] at heq
      exact absurd (heq ▸ List.prefix_append p (k r)) hout
    · rw [underPath_outside hin] at heq
      rwa [← heq]
  · intro he
    exact ⟨new, he, underPath_outside hout⟩

lemma mem_of_underPath (hT : Relocated (underPath p k) T T₁) (hk : k [] = []) (hmem : p ∈ T.paths) :
    p ∈ T₁.paths := by
  obtain ⟨e, he⟩ := T.mem_paths.mp hmem
  refine T₁.mem_paths.mpr ⟨e, hT.mem_iff.mpr ⟨p, he, ?_⟩⟩
  have hself := underPath_append (p := p) k []
  rwa [hk, List.append_nil] at hself

lemma CanMove.of_relocated (h : T.CanMove p new) (hT : Relocated (underPath p k) T T₁)
    (hk : k [] = []) : T₁.CanMove p new where
  mem := mem_of_underPath hT hk h.mem
  free := mt (mem_paths_underPath hT h.not_within).mp h.free
  ne_nil := h.ne_nil
  parent := by
    refine isDirectory_iff.mpr (hT.mem_iff.mpr ⟨_, isDirectory_iff.mp h.parent, ?_⟩)
    exact underPath_outside fun hin => h.not_within (hin.trans (List.dropLast_prefix new))
  not_within := h.not_within

lemma CanMove.of_underPath (h : T₁.CanMove p new) (hT : Relocated (underPath p k) T T₁) :
    T.CanMove p new where
  mem := by
    obtain ⟨e, he⟩ := T₁.mem_paths.mp h.mem
    obtain ⟨t, ht, heq⟩ := hT.mem_iff.mp he
    exact mem_of_above (T.mem_paths.mpr ⟨e, ht⟩) (underPath_eq_self heq)
  free := by
    intro hnew
    obtain ⟨e, he⟩ := T.mem_paths.mp hnew
    exact h.free (T₁.mem_paths.mpr ⟨e, hT.mem_iff.mpr ⟨new, he, underPath_outside h.not_within⟩⟩)
  ne_nil := h.ne_nil
  parent := by
    obtain ⟨t, ht, heq⟩ := hT.mem_iff.mp (isDirectory_iff.mp h.parent)
    by_cases hin : p <+: t
    · obtain ⟨r, rfl⟩ := hin
      rw [underPath_append] at heq
      exact absurd (heq ▸ List.prefix_append p (k r) |>.trans (List.dropLast_prefix new)) h.not_within
    · rw [underPath_outside hin] at heq
      rw [← heq]
      exact isDirectory_iff.mpr ht
  not_within := h.not_within

lemma rename_self (hmem : p ∈ T.paths) : T.rename p p = some T := by
  rw [rename, if_pos ⟨rfl, hmem⟩]

lemma CanMove.rename (h : T.CanMove p new) :
    ∃ T', T.rename p new = some T' ∧ Relocated (movedPath p new) T T' := by
  have hne : ¬ (p = new ∧ p ∈ T.paths) := fun hsame => h.free (hsame.1 ▸ hsame.2)
  rw [FileTree.rename, if_neg hne, dif_pos h]
  exact ⟨_, rfl, rfl⟩

lemma rename_name {d d' : κ} (hd : p ++ [d] ∈ T.paths) (hfree : d' ≠ d → p ++ [d'] ∉ T.paths) :
    (T.rename (p ++ [d]) (p ++ [d'])).isSome := by
  by_cases hsame : d' = d
  · rw [hsame, rename, if_pos ⟨rfl, hd⟩]
    rfl
  · obtain ⟨e, he⟩ := T.mem_paths.mp hd
    have hmove : T.CanMove (p ++ [d]) (p ++ [d']) :=
      { mem := hd
        free := hfree hsame
        ne_nil := List.append_ne_nil_of_right_ne_nil p (List.cons_ne_nil d' [])
        parent := by
          rw [List.dropLast_concat]
          exact isDirectory_iff.mpr (T.closed he)
        not_within := by
          rw [List.prefix_append_right_inj, List.cons_prefix_cons]
          exact fun h => hsame h.1.symm }
    obtain ⟨T', hT', -⟩ := hmove.rename
    rw [hT']
    rfl

end Moves

namespace Mirrors

variable (h : Mirrors C R root Hidden P T)
include h

omit [DecidableEq κ] [DecidableEq κ'] in
lemma relocated {f : List κ → List κ} {g : List κ' → List κ'} (hP : Relocated f P P')
    (hT : Relocated g T T')
    (hg : ∀ {p q}, p ∈ P.paths → C.Codes p q → ∃ q', C.Codes (f p) q' ∧ g (root ++ q) = root ++ q')
    (hout : ∀ {t}, t ∈ T.paths → root <+: g t → root <+: t)
    (hhidden : ∀ {j r}, Hidden j → g (root ++ j :: r) = root ++ j :: r) :
    Mirrors C R root Hidden P' T' where
  coded := by
    intro p' e hmem
    obtain ⟨p, hp, rfl⟩ := hP.mem_iff.mp hmem
    obtain ⟨q, e', hcodes, hmem', halike⟩ := h.coded hp
    obtain ⟨q', hcodes', heq⟩ := hg (P.mem_paths.mpr ⟨e, hp⟩) hcodes
    exact ⟨q', e', hcodes', hT.mem_iff.mpr ⟨_, hmem', heq⟩, halike⟩
  decoded := by
    intro q' e' hmem
    obtain ⟨t, ht, heq⟩ := hT.mem_iff.mp hmem
    obtain ⟨q, rfl⟩ := hout (T.mem_paths.mpr ⟨e', ht⟩) (heq ▸ List.prefix_append root q')
    rcases h.decoded ht with ⟨p, hp, hcodes⟩ | ⟨j, r, rfl, hj⟩
    · obtain ⟨q'', hcodes', heq'⟩ := hg hp hcodes
      rw [heq] at heq'
      rw [List.append_cancel_left heq']
      obtain ⟨e, he⟩ := P.mem_paths.mp hp
      exact .inl ⟨f p, P'.mem_paths.mpr ⟨e, hP.mem_iff.mpr ⟨p, he, rfl⟩⟩, hcodes'⟩
    · rw [hhidden hj] at heq
      exact .inr ⟨j, r, (List.append_cancel_left heq).symm, hj⟩

variable (hapart : Apart C Hidden) {x y : List κ} {es fs : List κ'} (hx : C.Codes x es)
  (hy : C.Codes y fs)
include hapart hx hy

lemma canMove_iff (hroot : root ∈ T.paths) :
    T.CanMove (root ++ es) (root ++ fs) ↔ P.CanMove x y := by
  have hprefix : root ++ es <+: root ++ fs ↔ x <+: y := by
    rw [List.prefix_append_right_inj, PathCode.prefix_iff hx hy]
  constructor
  · intro hmove
    have hne : y ≠ [] := by
      rintro rfl
      apply hmove.free
      rwa [(PathCode.eq_nil_iff hy).mp rfl, List.append_nil]
    exact ⟨(h.mem_iff hapart hx).mp hmove.mem, mt (h.mem_iff hapart hy).mpr hmove.free, hne,
      (h.parent_eq hapart hy hne).symm.trans hmove.parent, mt hprefix.mpr hmove.not_within⟩
  · intro hmove
    have hne : root ++ fs ≠ [] := fun hnil =>
      hmove.ne_nil ((PathCode.eq_nil_iff hy).mpr (List.append_eq_nil_iff.mp hnil).2)
    exact ⟨(h.mem_iff hapart hx).mpr hmove.mem, mt (h.mem_iff hapart hy).mp hmove.free, hne,
      (h.parent_eq hapart hy hmove.ne_nil).trans hmove.parent, mt hprefix.mp hmove.not_within⟩

lemma rename {k : List κ' → List κ'} {T₁ : FileTree κ' ε} (hroot : root ∈ T.paths)
    (hT : Relocated (underPath (root ++ es) k) T T₁)
    (hsame : x = y → ∀ s, k s = s)
    (hcodes : ∀ {r s}, x ++ r ∈ P.paths → C.Codes (x ++ r) (es ++ s) → C.Codes (y ++ r) (fs ++ k s))
    (hmoved : T₁.rename (root ++ es) (root ++ fs) = some T') :
    ∃ P', P.rename x y = some P' ∧ Mirrors C R root Hidden P' T' := by
  rcases rename_cases hmoved with ⟨heq, hmem, rfl⟩ | ⟨hmove, hentries⟩
  · obtain rfl := C.injective hx (by rwa [List.append_cancel_left heq])
    have hid : Relocated id T T' := hT.congr fun t _ => underPath_id (hsame rfl) t
    have hT' : T' = T := ext_entries (by rw [hid]; exact List.map_id T.entries)
    rw [hT'] at hmem ⊢
    exact ⟨P, rename_self ((h.mem_iff hapart hx).mp hmem), h⟩
  · have hmove₀ := hmove.of_underPath hT
    obtain ⟨P', hP', hrelocated⟩ := ((h.canMove_iff hapart hx hy hroot).mp hmove₀).rename
    have hT' : Relocated (movedPath (root ++ es) (root ++ fs)) T₁ T' := hentries
    have hfixed {t : List κ'} (ht : ¬ root ++ es <+: t) :
        (movedPath (root ++ es) (root ++ fs) ∘ underPath (root ++ es) k) t = t := by
      rw [Function.comp, underPath_outside ht, movedPath_outside ht]
    refine ⟨P', hP', h.relocated hrelocated (hT.trans hT') ?_ ?_ ?_⟩
    · intro p q hp hq
      by_cases hin : x <+: p
      · obtain ⟨r, rfl⟩ := hin
        obtain ⟨s, rfl⟩ := (PathCode.prefix_iff hx hq).mp (List.prefix_append x r)
        refine ⟨fs ++ k s, ?_, ?_⟩
        · rw [movedPath_append]
          exact hcodes hp hq
        · rw [Function.comp, ← List.append_assoc, underPath_append, movedPath_append,
            List.append_assoc]
      · rw [movedPath_outside hin]
        refine ⟨q, hq, hfixed ?_⟩
        rw [List.prefix_append_right_inj]
        exact mt (PathCode.prefix_iff hx hq).mpr hin
    · intro t ht habove
      by_contra hout
      rw [hfixed fun hin => hout ((List.prefix_append root es).trans hin)] at habove
      exact hout habove
    · intro j r hj
      refine hfixed fun hin => ?_
      rw [List.prefix_append_right_inj] at hin
      cases es with
      | nil => exact hmove₀.not_within (by rw [List.append_nil]; exact List.prefix_append root fs)
      | cons d es =>
        obtain ⟨rfl, -⟩ := List.cons_prefix_cons.mp hin
        exact hapart _ _ _ hx hj

end Mirrors

end FileTree

end EncFS
