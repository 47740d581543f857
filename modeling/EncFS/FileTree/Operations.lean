import EncFS.FileTree.Contents

set_option autoImplicit false

namespace EncFS

inductive TreeError
  | notFound
  | alreadyExists
  | isDirectory
  | notDirectory
  | notEmpty
  deriving DecidableEq

namespace FileTree

variable {κ ε : Type} [DecidableEq κ]

lemma find_isSome {T : FileTree κ ε} {p : List κ} : (T.find p).isSome ↔ p ∈ T.paths := by
  rw [Option.isSome_iff_ne_none, Ne, find_eq_none, not_not]

def add (T : FileTree κ ε) (p : List κ) (e : TreeEntry ε) : Except TreeError (FileTree κ ε) :=
  if hmem : (T.find p).isSome then .error .alreadyExists
  else if hparent : p ≠ [] ∧ T.isDirectory p.dropLast = true then .ok
    { entries := T.entries ++ [(p, e)]
      nodup := by
        rw [List.map_append]
        refine T.nodup.append (List.nodup_singleton p) fun q hq hp => hmem ?_
        obtain rfl : q = p := List.mem_singleton.mp hp
        exact find_isSome.mpr hq
      closed := by
        intro q n e' h
        rcases List.mem_append.mp h with h | h
        · exact List.mem_append_left _ (T.closed h)
        · obtain ⟨rfl, -⟩ := Prod.mk.inj (List.mem_singleton.mp h)
          have hdir := isDirectory_iff.mp hparent.2
          rw [List.dropLast_concat] at hdir
          exact List.mem_append_left _ hdir }
  else .error .notFound

def deleteFile (T : FileTree κ ε) (p : List κ) : Except TreeError (FileTree κ ε) :=
  match T.unlink p with
  | some T' => .ok T'
  | none => .error (if (T.find p).isSome then .isDirectory else .notFound)

lemma filter_nodup (T : FileTree κ ε) (p : List κ) :
    ((T.entries.filter (·.1 ≠ p)).map Prod.fst).Nodup :=
  T.nodup.sublist (List.filter_sublist.map Prod.fst)

def removeDirectory (T : FileTree κ ε) (p : List κ) : Except TreeError (FileTree κ ε) :=
  match T.find p with
  | none => .error .notFound
  | some (.file _) => .error .notDirectory
  | some .dir =>
    if hempty : T.names p = [] then .ok
      { entries := T.entries.filter (·.1 ≠ p)
        nodup := T.filter_nodup p
        closed := by
          intro q n e h
          have hmem := (List.mem_filter.mp h).1
          refine List.mem_filter.mpr ⟨T.closed hmem, ?_⟩
          have hne : q ≠ p := by
            rintro rfl
            have hname : n ∈ T.names q := mem_names.mpr (T.mem_paths.mpr ⟨e, hmem⟩)
            rw [hempty] at hname
            cases hname
          simpa using hne }
    else .error .notEmpty

variable {T T' : FileTree κ ε} {p : List κ} {e : TreeEntry ε}

lemma add_cases (h : T.add p e = .ok T') :
    p ∉ T.paths ∧ p ≠ [] ∧ T.isDirectory p.dropLast = true ∧ T'.entries = T.entries ++ [(p, e)] := by
  rw [add] at h
  split at h
  · cases h
  · rename_i hmem
    split at h
    · rename_i hparent
      obtain rfl := Except.ok.inj h
      exact ⟨fun h => hmem (find_isSome.mpr h), hparent.1, hparent.2, rfl⟩
    · cases h

lemma add_ok (hfree : p ∉ T.paths) (hne : p ≠ []) (hparent : T.isDirectory p.dropLast = true)
    (e : TreeEntry ε) : ∃ T', T.add p e = .ok T' := by
  rw [add, dif_neg fun h => hfree (find_isSome.mp h), dif_pos ⟨hne, hparent⟩]
  exact ⟨_, rfl⟩

lemma add_exists (hmem : p ∈ T.paths) (e : TreeEntry ε) : T.add p e = .error .alreadyExists := by
  rw [add, dif_pos (find_isSome.mpr hmem)]

lemma add_notFound (hfree : p ∉ T.paths) (hparent : ¬ (p ≠ [] ∧ T.isDirectory p.dropLast = true))
    (e : TreeEntry ε) : T.add p e = .error .notFound := by
  rw [add, dif_neg fun h => hfree (find_isSome.mp h), dif_neg hparent]

lemma unlink_cases (h : T.unlink p = some T') :
    (∃ c, T.find p = some (.file c)) ∧ T'.entries = T.entries.filter (·.1 ≠ p) := by
  rw [unlink] at h
  split at h
  · rename_i c hfile
    obtain rfl := Option.some.inj h
    exact ⟨⟨c, hfile⟩, rfl⟩
  · cases h

lemma unlink_file {c : ε} (h : T.find p = some (.file c)) : ∃ T', T.unlink p = some T' := by
  rw [unlink]
  split
  · exact ⟨_, rfl⟩
  · rename_i hno
    exact absurd h (hno c)

lemma unlink_none (h : ∀ c, T.find p ≠ some (.file c)) : T.unlink p = none := by
  rw [unlink]
  split
  · rename_i c hfile
    exact absurd hfile (h c)
  · rfl

lemma deleteFile_cases (h : T.deleteFile p = .ok T') :
    (∃ c, T.find p = some (.file c)) ∧ T'.entries = T.entries.filter (·.1 ≠ p) := by
  rw [deleteFile] at h
  split at h
  · rename_i T₁ hunlink
    obtain rfl := Except.ok.inj h
    exact unlink_cases hunlink
  · cases h

lemma deleteFile_file {c : ε} (h : T.find p = some (.file c)) : ∃ T', T.deleteFile p = .ok T' := by
  obtain ⟨T', hunlink⟩ := unlink_file h
  exact ⟨T', by rw [deleteFile, hunlink]⟩

lemma deleteFile_dir (h : T.find p = some .dir) : T.deleteFile p = .error .isDirectory := by
  have hunlink : T.unlink p = none := unlink_none fun c => by simp [h]
  rw [deleteFile, hunlink, h]
  rfl

lemma deleteFile_none (h : T.find p = none) : T.deleteFile p = .error .notFound := by
  have hunlink : T.unlink p = none := unlink_none fun c => by simp [h]
  rw [deleteFile, hunlink, h]
  rfl

lemma removeDirectory_cases (h : T.removeDirectory p = .ok T') :
    T.find p = some .dir ∧ T.names p = [] ∧ T'.entries = T.entries.filter (·.1 ≠ p) := by
  rw [removeDirectory] at h
  split at h
  · cases h
  · cases h
  · rename_i hdir
    split at h
    · rename_i hempty
      obtain rfl := Except.ok.inj h
      exact ⟨hdir, hempty, rfl⟩
    · cases h

lemma removeDirectory_none (h : T.find p = none) : T.removeDirectory p = .error .notFound := by
  rw [removeDirectory, h]

lemma removeDirectory_file {c : ε} (h : T.find p = some (.file c)) :
    T.removeDirectory p = .error .notDirectory := by
  rw [removeDirectory, h]

lemma removeDirectory_empty (h : T.find p = some .dir) (hempty : T.names p = []) :
    ∃ T', T.removeDirectory p = .ok T' := by
  rw [removeDirectory, h]
  simp only [dif_pos hempty]
  exact ⟨_, rfl⟩

lemma removeDirectory_notEmpty (h : T.find p = some .dir) (hnames : T.names p ≠ []) :
    T.removeDirectory p = .error .notEmpty := by
  rw [removeDirectory, h]
  simp only [dif_neg hnames]

lemma mem_without {q : List κ} (h : T'.entries = T.entries.filter (·.1 ≠ p)) :
    (q, e) ∈ T'.entries ↔ (q, e) ∈ T.entries ∧ q ≠ p := by
  rw [h, List.mem_filter]
  simp

end FileTree

end EncFS
