import Mathlib.Data.List.Infix
import Mathlib.Data.List.Nodup

/-! Trees of files, as the list of their paths, and the renames of a part of a tree. -/

set_option autoImplicit false

namespace EncFS

inductive TreeEntry (ε : Type) where
  | dir
  | file (content : ε)
  deriving DecidableEq

structure FileTree (κ ε : Type) where
  entries : List (List κ × TreeEntry ε)
  nodup : (entries.map Prod.fst).Nodup
  closed : ∀ {p : List κ} {n : κ} {e : TreeEntry ε}, (p ++ [n], e) ∈ entries → (p, .dir) ∈ entries

def movedPath {κ : Type} [DecidableEq κ] (old new p : List κ) : List κ :=
  if old <+: p then new ++ p.drop old.length else p

section

variable {κ : Type} [DecidableEq κ] {old new p : List κ}

@[simp] lemma movedPath_append (r : List κ) : movedPath old new (old ++ r) = new ++ r := by
  simp [movedPath]

lemma movedPath_outside (h : ¬ old <+: p) : movedPath old new p = p :=
  if_neg h

@[simp] lemma movedPath_self : movedPath old old p = p := by
  by_cases h : old <+: p
  · obtain ⟨r, rfl⟩ := h
    exact movedPath_append r
  · exact movedPath_outside h

lemma movedPath_movedPath (h : ¬ new <+: p) : movedPath new old (movedPath old new p) = p := by
  by_cases hold : old <+: p
  · obtain ⟨r, rfl⟩ := hold
    rw [movedPath_append, movedPath_append]
  · rw [movedPath_outside hold, movedPath_outside h]

def underPath {κ : Type} [DecidableEq κ] (p : List κ) (g : List κ → List κ) (q : List κ) : List κ :=
  if p <+: q then p ++ g (q.drop p.length) else q

@[simp] lemma underPath_append (g : List κ → List κ) (r : List κ) :
    underPath p g (p ++ r) = p ++ g r := by
  simp [underPath]

lemma underPath_id {g : List κ → List κ} (hg : ∀ r, g r = r) (q : List κ) : underPath p g q = q := by
  by_cases h : p <+: q
  · obtain ⟨r, rfl⟩ := h
    rw [underPath_append, hg]
  · exact if_neg h

lemma underPath_outside {g : List κ → List κ} {q : List κ} (h : ¬ p <+: q) :
    underPath p g q = q :=
  if_neg h

end

namespace FileTree

variable {κ ε : Type} (T : FileTree κ ε)

def ofEntries [DecidableEq κ] [DecidableEq ε] (entries : List (List κ × TreeEntry ε))
    (nodup : (entries.map Prod.fst).Nodup)
    (closed : ∀ x ∈ entries, x.1 = [] ∨ (x.1.dropLast, .dir) ∈ entries) : FileTree κ ε where
  entries := entries
  nodup := nodup
  closed {p n e} h := by
    rcases closed _ h with hnil | hdir
    · exact absurd hnil (List.append_ne_nil_of_right_ne_nil p (List.cons_ne_nil n []))
    · rwa [List.dropLast_concat] at hdir

def paths : List (List κ) := T.entries.map Prod.fst

lemma mem_paths {p : List κ} : p ∈ T.paths ↔ ∃ e, (p, e) ∈ T.entries := by
  simp [paths]

variable {T} in
lemma entry_unique {p : List κ} {e e' : TreeEntry ε} (h : (p, e) ∈ T.entries)
    (h' : (p, e') ∈ T.entries) : e = e' :=
  congrArg Prod.snd (List.inj_on_of_nodup_map T.nodup h h' rfl)

variable {T} in
lemma dir_of_append {p r : List κ} (h : p ++ r ∈ T.paths) (hr : r ≠ []) : (p, .dir) ∈ T.entries := by
  induction r using List.reverseRecOn with
  | nil => exact absurd rfl hr
  | append_singleton r n ih =>
    obtain ⟨e, he⟩ := T.mem_paths.mp h
    rw [← List.append_assoc] at he
    have hdir := T.closed he
    by_cases hnil : r = []
    · rwa [hnil, List.append_nil] at hdir
    · exact ih (T.mem_paths.mpr ⟨_, hdir⟩) hnil

variable {T} in
lemma mem_of_above {p q : List κ} (h : q ∈ T.paths) (habove : p <+: q) : p ∈ T.paths := by
  obtain ⟨r, rfl⟩ := habove
  by_cases hr : r = []
  · rwa [hr, List.append_nil] at h
  · exact T.mem_paths.mpr ⟨_, dir_of_append h hr⟩

variable [DecidableEq κ]

def find (p : List κ) : Option (TreeEntry ε) := (T.entries.find? (·.1 = p)).map Prod.snd

def isDirectory (p : List κ) : Bool :=
  match T.find p with
  | some .dir => true
  | _ => false

def names (p : List κ) : List κ :=
  T.entries.filterMap fun x => if x.1.dropLast = p then x.1.getLast? else none

variable {T} {p : List κ}

lemma find_eq_some {e : TreeEntry ε} : T.find p = some e ↔ (p, e) ∈ T.entries := by
  rw [find, Option.map_eq_some_iff]
  constructor
  · rintro ⟨⟨q, e'⟩, hfind, rfl⟩
    have hq : q = p := by simpa using List.find?_some hfind
    have hmem := List.mem_of_find?_eq_some hfind
    rwa [hq] at hmem
  · intro h
    cases hfind : T.entries.find? (·.1 = p) with
    | none =>
      have hne := List.find?_eq_none.mp hfind (p, e) h
      simp at hne
    | some x =>
      have hx : x.1 = p := by simpa using List.find?_some hfind
      have hmem : (p, x.2) ∈ T.entries := by
        rw [← hx]
        exact List.mem_of_find?_eq_some hfind
      exact ⟨x, rfl, entry_unique hmem h⟩

lemma isDirectory_iff : T.isDirectory p = true ↔ (p, .dir) ∈ T.entries := by
  rw [← find_eq_some, isDirectory]
  cases h : T.find p with
  | none => simp
  | some e => cases e <;> simp

lemma mem_names {n : κ} : n ∈ T.names p ↔ p ++ [n] ∈ T.paths := by
  rw [names, List.mem_filterMap, mem_paths]
  constructor
  · rintro ⟨⟨q, e⟩, hmem, hname⟩
    dsimp only at hname
    split at hname
    · rename_i hp
      obtain ⟨r, rfl⟩ := List.getLast?_eq_some_iff.mp hname
      rw [List.dropLast_concat] at hp
      rw [hp] at hmem
      exact ⟨e, hmem⟩
    · cases hname
  · rintro ⟨e, hmem⟩
    exact ⟨(p ++ [n], e), hmem, by simp⟩

omit [DecidableEq κ] in
lemma length_lt (h : p ∈ T.paths) : p.length < T.entries.length := by
  have hnodup : ((List.range (p.length + 1)).map (p.take ·)).Nodup := by
    refine List.nodup_range.map_on fun i hi j hj heq => ?_
    have hlength := congrArg List.length heq
    rw [List.length_take, List.length_take] at hlength
    rw [List.mem_range] at hi hj
    omega
  have hsub : (List.range (p.length + 1)).map (p.take ·) ⊆ T.paths := by
    intro q hq
    obtain ⟨i, -, rfl⟩ := List.mem_map.mp hq
    exact mem_of_above h (List.take_prefix i p)
  have hlength := hnodup.length_le_of_subset hsub
  simpa [paths, Nat.succ_le_iff] using hlength

variable (T)

/-- What makes a rename possible: the new name is free, in a directory, and not in the old one. -/
structure CanMove (old new : List κ) : Prop where
  mem : old ∈ T.paths
  free : new ∉ T.paths
  ne_nil : new ≠ []
  parent : T.isDirectory new.dropLast = true
  not_within : ¬ old <+: new

instance (old new : List κ) : Decidable (T.CanMove old new) :=
  decidable_of_iff (old ∈ T.paths ∧ new ∉ T.paths ∧ new ≠ [] ∧ T.isDirectory new.dropLast = true ∧
    ¬ old <+: new)
    ⟨fun ⟨h₁, h₂, h₃, h₄, h₅⟩ => ⟨h₁, h₂, h₃, h₄, h₅⟩,
      fun ⟨h₁, h₂, h₃, h₄, h₅⟩ => ⟨h₁, h₂, h₃, h₄, h₅⟩⟩

variable {T} {old new : List κ}

namespace CanMove

variable (h : T.CanMove old new)
include h

lemma not_beyond {q : List κ} (hq : q ∈ T.paths) : ¬ new <+: q :=
  fun habove => h.free (mem_of_above hq habove)

lemma movedPath_injOn {q q' : List κ} (hq : q ∈ T.paths) (hq' : q' ∈ T.paths)
    (heq : movedPath old new q = movedPath old new q') : q = q' := by
  rw [← movedPath_movedPath (h.not_beyond hq), heq, movedPath_movedPath (h.not_beyond hq')]

lemma nodup : ((T.entries.map fun x => (movedPath old new x.1, x.2)).map Prod.fst).Nodup := by
  rw [List.map_map]
  change (T.entries.map (movedPath old new ∘ Prod.fst)).Nodup
  rw [← List.map_map]
  exact T.nodup.map_on fun q hq q' hq' heq => h.movedPath_injOn hq hq' heq

lemma closed {q : List κ} {n : κ} {e : TreeEntry ε}
    (hmem : (q ++ [n], e) ∈ T.entries.map fun x => (movedPath old new x.1, x.2)) :
    (q, .dir) ∈ T.entries.map fun x => (movedPath old new x.1, x.2) := by
  obtain ⟨⟨p, e'⟩, hp, heq⟩ := List.mem_map.mp hmem
  obtain ⟨hpath, rfl⟩ := Prod.mk.inj heq
  dsimp only at hpath
  have hpaths : p ∈ T.paths := T.mem_paths.mpr ⟨_, hp⟩
  by_cases hold : old <+: p
  · obtain ⟨r, rfl⟩ := hold
    rw [movedPath_append] at hpath
    rcases List.eq_nil_or_concat r with rfl | ⟨r, m, rfl⟩
    · rw [List.append_nil] at hpath
      have hparent := isDirectory_iff.mp h.parent
      rw [hpath, List.dropLast_concat] at hparent
      have hout : ¬ old <+: q := by
        intro hin
        apply h.not_within
        rw [hpath]
        exact hin.trans (List.prefix_append q [n])
      exact List.mem_map.mpr ⟨(q, .dir), hparent, by rw [movedPath_outside hout]⟩
    · rw [List.concat_eq_append, ← List.append_assoc] at hpath hp
      obtain ⟨hq, -⟩ := List.append_inj' hpath rfl
      have hdir := T.closed hp
      exact List.mem_map.mpr ⟨(old ++ r, .dir), hdir, by rw [movedPath_append, hq]⟩
  · rw [movedPath_outside hold] at hpath
    subst hpath
    have hout : ¬ old <+: q := fun hin => hold (hin.trans (List.prefix_append q [n]))
    exact List.mem_map.mpr ⟨(q, .dir), T.closed hp, by rw [movedPath_outside hout]⟩

end CanMove

def rename (T : FileTree κ ε) (old new : List κ) : Option (FileTree κ ε) :=
  if old = new ∧ old ∈ T.paths then some T
  else if h : T.CanMove old new then
    some ⟨T.entries.map fun x => (movedPath old new x.1, x.2), h.nodup, h.closed⟩
  else none

variable {T' : FileTree κ ε}

lemma rename_cases (h : T.rename old new = some T') :
    old = new ∧ old ∈ T.paths ∧ T' = T ∨
      T.CanMove old new ∧ T'.entries = T.entries.map fun x => (movedPath old new x.1, x.2) := by
  rw [rename] at h
  split at h
  · rename_i hsame
    exact Or.inl ⟨hsame.1, hsame.2, (Option.some.inj h).symm⟩
  · split at h
    · rename_i hmove
      obtain rfl := Option.some.inj h
      exact Or.inr ⟨hmove, rfl⟩
    · cases h

lemma entries_rename (h : T.rename old new = some T') :
    T'.entries = T.entries.map fun x => (movedPath old new x.1, x.2) := by
  rcases rename_cases h with ⟨rfl, -, rfl⟩ | ⟨-, h⟩
  · simp
  · exact h

lemma mem_paths_rename (h : T.rename old new = some T') {q : List κ} :
    q ∈ T'.paths ↔ ∃ p ∈ T.paths, movedPath old new p = q := by
  rw [paths, entries_rename h]
  simp [paths]

def unlink (T : FileTree κ ε) (p : List κ) : Option (FileTree κ ε) :=
  match h : T.find p with
  | some (.file _) => some
    { entries := T.entries.filter (·.1 ≠ p)
      nodup := T.nodup.sublist (List.filter_sublist.map Prod.fst)
      closed := by
        intro q n e hmem
        have hdir := T.closed (List.mem_filter.mp hmem).1
        refine List.mem_filter.mpr ⟨hdir, ?_⟩
        have hne : q ≠ p := by
          rintro rfl
          have := entry_unique (find_eq_some.mp h) hdir
          cases this
        simpa using hne }
  | _ => none

lemma entries_unlink (h : T.unlink p = some T') {x : List κ × TreeEntry ε} (hx : x ∈ T'.entries) :
    x ∈ T.entries := by
  rw [unlink] at h
  split at h
  · obtain rfl := Option.some.inj h
    exact (List.mem_filter.mp hx).1
  · cases h

lemma names_nodup (T : FileTree κ ε) (p : List κ) : (T.names p).Nodup := by
  have hnames : T.names p = T.paths.filterMap fun q => if q.dropLast = p then q.getLast? else none := by
    rw [paths, List.filterMap_map]
    rfl
  rw [hnames]
  refine T.nodup.filterMap fun q q' n hq hq' => ?_
  have hlast {q : List κ} (h : n ∈ if q.dropLast = p then q.getLast? else none) : q = p ++ [n] := by
    split at h
    · rename_i hp
      obtain ⟨r, rfl⟩ := List.getLast?_eq_some_iff.mp h
      rw [List.dropLast_concat] at hp
      rw [hp]
    · cases h
  rw [hlast hq, hlast hq']

def Relocated (f : List κ → List κ) (T T' : FileTree κ ε) : Prop :=
  T'.entries = T.entries.map fun x => (f x.1, x.2)

namespace Relocated

variable {f g : List κ → List κ} {T₁ T₂ T₃ : FileTree κ ε}

omit [DecidableEq κ]

lemma mem_iff (h : Relocated f T₁ T₂) {q : List κ} {e : TreeEntry ε} :
    (q, e) ∈ T₂.entries ↔ ∃ p, (p, e) ∈ T₁.entries ∧ f p = q := by
  rw [h, List.mem_map]
  constructor
  · rintro ⟨⟨p, e'⟩, hmem, heq⟩
    obtain ⟨rfl, rfl⟩ := Prod.mk.inj heq
    exact ⟨p, hmem, rfl⟩
  · rintro ⟨p, hmem, rfl⟩
    exact ⟨(p, e), hmem, rfl⟩

lemma congr (h : Relocated f T₁ T₂) (heq : ∀ p ∈ T₁.paths, f p = g p) : Relocated g T₁ T₂ := by
  rw [Relocated, h]
  apply List.map_congr_left
  rintro ⟨p, e⟩ hmem
  rw [heq p (T₁.mem_paths.mpr ⟨e, hmem⟩)]

lemma trans (h : Relocated f T₁ T₂) (h' : Relocated g T₂ T₃) : Relocated (g ∘ f) T₁ T₃ := by
  rw [Relocated, h', h, List.map_map]
  rfl

lemma of_id (heq : ∀ p ∈ T₁.paths, f p = p) : Relocated f T₁ T₁ := by
  have hid : Relocated id T₁ T₁ := (List.map_id T₁.entries).symm
  exact hid.congr fun p hp => (heq p hp).symm

lemma injOn (h : Relocated f T₁ T₂) {p q : List κ} (hp : p ∈ T₁.paths) (hq : q ∈ T₁.paths)
    (heq : f p = f q) : p = q := by
  have hnodup := T₂.nodup
  rw [h, List.map_map] at hnodup
  change (T₁.entries.map (f ∘ Prod.fst)).Nodup at hnodup
  rw [← List.map_map] at hnodup
  exact List.inj_on_of_nodup_map hnodup hp hq heq

end Relocated

def AgreeUnder (p : List κ) (T T' : FileTree κ ε) : Prop :=
  ∀ r e, (p ++ r, e) ∈ T'.entries ↔ (p ++ r, e) ∈ T.entries

namespace AgreeUnder

omit [DecidableEq κ]

lemma mem_paths (h : AgreeUnder p T T') {r : List κ} : p ++ r ∈ T'.paths ↔ p ++ r ∈ T.paths := by
  rw [FileTree.mem_paths, FileTree.mem_paths]
  exact exists_congr (h r)

lemma mem_iff (h : AgreeUnder p T T') : p ∈ T'.paths ↔ p ∈ T.paths := by
  have hmem := h.mem_paths (r := [])
  rwa [List.append_nil] at hmem

lemma isDirectory [DecidableEq κ] (h : AgreeUnder p T T') : T'.isDirectory p = T.isDirectory p := by
  have hdir := h [] .dir
  rw [List.append_nil] at hdir
  apply Bool.eq_iff_iff.mpr
  rw [isDirectory_iff, isDirectory_iff, hdir]

lemma under (h : AgreeUnder p T T') (q : List κ) : AgreeUnder (p ++ q) T T' := by
  intro r e
  rw [List.append_assoc]
  exact h (q ++ r) e

lemma trans {T'' : FileTree κ ε} (h : AgreeUnder p T T') (h' : AgreeUnder p T' T'') :
    AgreeUnder p T T'' :=
  fun r e => (h' r e).trans (h r e)

end AgreeUnder

lemma relocated_rename (h : T.rename old new = some T') : Relocated (movedPath old new) T T' :=
  entries_rename h

end FileTree

end EncFS
