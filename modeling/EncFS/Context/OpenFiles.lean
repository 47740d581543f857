import EncFS.Context
import EncFS.NameIO.PathCoding

set_option autoImplicit false

namespace EncFS

open Function

namespace Context

variable {S : Context}

def Filed (S : Context) (path : Bytes) (pl : ℕ) : Prop :=
  ∃ set, S.openFiles path = some set ∧ pl ∈ set

structure Sound (S : Context) : Prop where
  live_iff : ∀ pl, S.live pl = true ↔ ∃ path, S.Filed path pl
  nonempty : ∀ {path set}, S.openFiles path = some set → set.Nonempty
  shared : ∀ {path pl pl'}, S.Filed path pl → S.Filed path pl' →
    S.placeholder pl = S.placeholder pl'
  named : ∀ {path pl}, S.Filed path pl → (S.node (S.placeholder pl))._pname = path

structure Filing (S : Context) : Prop where
  nonempty : ∀ {path set}, S.openFiles path = some set → set.Nonempty
  shared : ∀ {path pl pl'}, S.Filed path pl → S.Filed path pl' →
    S.placeholder pl = S.placeholder pl'
  named : ∀ {path pl}, S.Filed path pl → (S.node (S.placeholder pl))._pname = path

lemma Sound.filing (hS : Sound S) : Filing S where
  nonempty := hS.nonempty
  shared := hS.shared
  named := hS.named

def Fresh (S : Context) (new : ℕ) : Prop :=
  ∀ pl, S.live pl = true → S.placeholder pl ≠ new

lemma Fresh.putNode (path : Bytes) (n pl : ℕ) {new : ℕ} (h : S.Fresh new) (hne : n ≠ new) :
    (S.putNode path n pl).Fresh new := by
  intro pl' hlive
  by_cases heq : pl' = pl
  · subst heq
    have hself : (S.putNode path n pl').placeholder pl' = n := update_self _ _ _
    rw [hself]
    exact hne
  · have hother : (S.putNode path n pl).placeholder pl' = S.placeholder pl' :=
      update_of_ne heq _ _
    rw [hother]
    exact h pl' ((update_of_ne heq _ _).symm.trans hlive)

lemma Filed.congr {S' : Context} (h : S'.openFiles = S.openFiles) {path : Bytes} {pl : ℕ} :
    S'.Filed path pl ↔ S.Filed path pl := by
  rw [Filed, Filed, h]

lemma renameNode_openFiles (S : Context) (fromP toP path : Bytes) :
    (S.renameNode fromP toP).openFiles path =
      if S.openFiles fromP = none then S.openFiles path
      else if path = toP then S.openFiles fromP
      else if path = fromP then none else S.openFiles path := by
  rw [Context.renameNode]
  cases hval : S.openFiles fromP with
  | none => rfl
  | some val =>
    dsimp only
    rw [if_neg (by simp)]
    by_cases hpath : path = toP
    · rw [hpath, update_self, if_pos rfl]
    · rw [update_of_ne hpath, if_neg hpath]
      by_cases hpath' : path = fromP
      · rw [hpath', update_self, if_pos rfl]
      · rw [update_of_ne hpath', if_neg hpath']

lemma not_filed {path : Bytes} {pl : ℕ} (h : S.openFiles path = none) : ¬ S.Filed path pl := by
  rintro ⟨set, hset, -⟩
  rw [h] at hset
  cases hset

lemma renameNode_filed {fromP toP path : Bytes} {pl pl' : ℕ} (h : S.Filed fromP pl') :
    (S.renameNode fromP toP).Filed path pl ↔
      path = toP ∧ S.Filed fromP pl ∨ path ≠ toP ∧ path ≠ fromP ∧ S.Filed path pl := by
  have hne : S.openFiles fromP ≠ none := fun hnone => not_filed hnone h
  simp only [Filed, renameNode_openFiles, if_neg hne]
  by_cases hto : path = toP
  · simp [hto]
  · by_cases hfrom : path = fromP
    · subst hfrom
      simp [hto]
    · simp [hto, hfrom]

lemma Sound.empty : Sound empty where
  live_iff pl := by simp [Context.empty, Filed]
  nonempty h := by cases h
  shared h := by simp [Context.empty, Filed] at h
  named h := by simp [Context.empty, Filed] at h

namespace Filing

variable (hS : Filing S)
include hS

lemma lookupNode_filed {path : Bytes} {pl : ℕ} (h : S.Filed path pl) :
    S.lookupNode path = some (S.placeholder pl) := by
  obtain ⟨set, hset, hpl⟩ := h
  have hne : set.Nonempty := ⟨pl, hpl⟩
  simp only [lookupNode, hset, dif_pos hne]
  exact congrArg some (hS.shared ⟨set, hset, set.min'_mem hne⟩ ⟨set, hset, hpl⟩)

omit hS in
lemma lookupNode_none {path : Bytes} (h : S.openFiles path = none) : S.lookupNode path = none := by
  simp only [lookupNode, h]

lemma lookupNode_cases (path : Bytes) :
    S.openFiles path = none ∧ S.lookupNode path = none ∨
      ∃ pl, S.Filed path pl ∧ S.lookupNode path = some (S.placeholder pl) := by
  cases hset : S.openFiles path with
  | none => exact .inl ⟨rfl, lookupNode_none hset⟩
  | some set =>
    obtain ⟨pl, hpl⟩ := hS.nonempty hset
    exact .inr ⟨pl, ⟨set, hset, hpl⟩, hS.lookupNode_filed ⟨set, hset, hpl⟩⟩

end Filing

namespace Sound

variable (hS : Sound S)
include hS

lemma live {path : Bytes} {pl : ℕ} (h : S.Filed path pl) : S.live pl = true :=
  (hS.live_iff pl).mpr ⟨path, h⟩

lemma filed_unique {path path' : Bytes} {pl : ℕ} (h : S.Filed path pl) (h' : S.Filed path' pl) :
    path = path' :=
  (hS.named h).symm.trans (hS.named h')

lemma setNode {n : ℕ} {N : FileNode} (hn : S.Fresh n ∨ N._pname = (S.node n)._pname) :
    Sound { S with node := update S.node n N } where
  live_iff := hS.live_iff
  nonempty := hS.nonempty
  shared := hS.shared
  named {path pl} h := by
    dsimp only
    by_cases heq : S.placeholder pl = n
    · rw [heq, update_self, hn.resolve_left fun hfresh => hfresh pl (hS.live h) heq, ← heq]
      exact hS.named h
    · rw [update_of_ne heq]
      exact hS.named h

omit hS in
lemma putNode_filed {path path' : Bytes} {n pl pl' : ℕ} : (S.putNode path n pl).Filed path' pl' ↔
    path' = path ∧ pl' = pl ∨ S.Filed path' pl' := by
  by_cases hpath : path' = path
  · subst hpath
    cases hset : S.openFiles path' with
    | none => simp [Filed, Context.putNode, hset]
    | some set => simp [Filed, Context.putNode, hset]
  · simp [Filed, Context.putNode, hpath]

lemma putNode {path : Bytes} {n pl : ℕ} (hpl : S.live pl = false)
    (hnode : ∀ pl', S.Filed path pl' → S.placeholder pl' = n) (hname : (S.node n)._pname = path) :
    Sound (S.putNode path n pl) := by
  have hnew {path' : Bytes} : ¬S.Filed path' pl := by
    intro h
    rw [hS.live h] at hpl
    cases hpl
  have hplaceholder {path' : Bytes} {pl' : ℕ} (h : S.Filed path' pl') :
      (S.putNode path n pl).placeholder pl' = S.placeholder pl' := by
    apply update_of_ne
    rintro rfl
    exact hnew h
  refine ⟨fun pl' => ?_, fun {path' set} h => ?_, fun {path' a b} ha hb => ?_, fun {path' a} ha => ?_⟩
  · simp only [putNode_filed]
    by_cases heq : pl' = pl
    · subst heq
      simp [Context.putNode]
    · have hlive : (S.putNode path n pl).live pl' = S.live pl' := update_of_ne heq _ _
      rw [hlive, hS.live_iff]
      simp [heq]
  · by_cases hpath : path' = path
    · subst hpath
      have hset : insert pl ((S.openFiles path').getD ∅) = set := by
        simpa [Context.putNode] using h
      rw [← hset]
      exact Finset.insert_nonempty _ _
    · have hset : S.openFiles path' = some set := by
        simpa [Context.putNode, hpath] using h
      exact hS.nonempty hset
  · have hself : (S.putNode path n pl).placeholder pl = n := update_self _ _ _
    rcases putNode_filed.mp ha with ⟨rfl, rfl⟩ | ha'
    · rcases putNode_filed.mp hb with ⟨-, rfl⟩ | hb'
      · rfl
      · rw [hself, hplaceholder hb', hnode b hb']
    · rcases putNode_filed.mp hb with ⟨rfl, rfl⟩ | hb'
      · rw [hself, hplaceholder ha', hnode a ha']
      · rw [hplaceholder ha', hplaceholder hb', hS.shared ha' hb']
  · rcases putNode_filed.mp ha with ⟨rfl, rfl⟩ | ha'
    · have hself : (S.putNode path' n a).placeholder a = n := update_self _ _ _
      rw [hself]
      exact hname
    · rw [hplaceholder ha']
      exact hS.named ha'

lemma eraseNode_filed {path path' : Bytes} {pl pl' : ℕ} {S' : Context}
    (h : S.eraseNode path pl = some S') : S'.Filed path' pl' ↔ S.Filed path' pl' ∧ pl' ≠ pl := by
  rw [Context.eraseNode] at h
  split at h
  · cases h
  next set hset =>
  split at h
  case isFalse => cases h
  case isTrue hpl =>
    cases h
    rw [Filed, Filed]
    dsimp only
    by_cases hpath : path' = path
    · subst hpath
      rw [update_self, hset]
      split
      case isTrue hempty =>
        constructor
        · rintro ⟨_, ⟨⟩, -⟩
        · rintro ⟨⟨_, ⟨⟩, hmem⟩, hne⟩
          have := Finset.mem_erase.mpr ⟨hne, hmem⟩
          rw [hempty] at this
          cases this
      case isFalse => simp [and_comm]
    · rw [update_of_ne hpath]
      constructor
      · intro hf
        refine ⟨hf, ?_⟩
        rintro rfl
        exact hpath (hS.filed_unique hf ⟨set, hset, hpl⟩)
      · exact And.left

lemma eraseNode {path : Bytes} {pl : ℕ} {S' : Context} (h : S.eraseNode path pl = some S') :
    Sound S' := by
  have hfiled {path' : Bytes} {pl' : ℕ} : S'.Filed path' pl' ↔ S.Filed path' pl' ∧ pl' ≠ pl :=
    hS.eraseNode_filed h
  rw [Context.eraseNode] at h
  split at h
  · cases h
  next set hset =>
  split at h
  case isFalse => cases h
  case isTrue hpl =>
    cases h
    refine ⟨fun pl' => ?_, fun {path' set'} h => ?_, fun ha hb => ?_, fun ha => ?_⟩
    · simp only [hfiled]
      by_cases heq : pl' = pl
      · subst heq
        simp
      · rw [update_of_ne heq, hS.live_iff]
        simp [heq]
    · dsimp only at h
      by_cases hpath : path' = path
      · subst hpath
        rw [update_self] at h
        split at h
        · cases h
        next hne =>
          cases h
          exact Finset.nonempty_iff_ne_empty.mpr hne
      · rw [update_of_ne hpath] at h
        exact hS.nonempty h
    · exact hS.shared (hfiled.mp ha).1 (hfiled.mp hb).1
    · exact hS.named (hfiled.mp ha).1

omit hS in
lemma eraseNode_isSome {path : Bytes} {pl : ℕ} (h : S.Filed path pl) :
    (S.eraseNode path pl).isSome = true := by
  obtain ⟨set, hset, hpl⟩ := h
  simp only [Context.eraseNode, hset, if_pos hpl, Option.isSome_some]

lemma renameNode {fromP toP : Bytes} {pl : ℕ} (hpl : S.Filed fromP pl)
    (hto : fromP = toP ∨ S.openFiles toP = none) {N : FileNode} (hN : N._pname = toP) :
    Sound (({ S with node := update S.node (S.placeholder pl) N } : Context).renameNode
      fromP toP) := by
  have hfiled {path : Bytes} {pl' : ℕ} :
      (({ S with node := update S.node (S.placeholder pl) N } : Context).renameNode fromP
        toP).Filed path pl' ↔
      path = toP ∧ S.Filed fromP pl' ∨ path ≠ toP ∧ path ≠ fromP ∧ S.Filed path pl' :=
    renameNode_filed hpl
  obtain ⟨val, hval, hmem⟩ := hpl
  have hrename : ({ S with node := update S.node (S.placeholder pl) N } : Context).renameNode
      fromP toP = { S with
        node := update S.node (S.placeholder pl) N
        openFiles := update (update S.openFiles fromP none) toP (some val) } := by
    simp only [Context.renameNode, hval]
  simp only [hrename] at hfiled ⊢
  -- What is filed elsewhere is not filed under the target now, and has another node.
  have hother {path : Bytes} {pl' : ℕ} (hfrom : path ≠ fromP) (h : S.Filed path pl') :
      S.placeholder pl' ≠ S.placeholder pl := by
    intro heq
    have hname := hS.named h
    rw [heq, hS.named ⟨val, hval, hmem⟩] at hname
    exact hfrom hname.symm
  have hto' {pl' : ℕ} (h : S.Filed toP pl') : toP = fromP := by
    rcases hto with rfl | hnone
    · rfl
    · obtain ⟨set, hset, -⟩ := h
      rw [hnone] at hset
      cases hset
  refine ⟨fun pl' => ?_, fun {path set} h => ?_, fun {path a b} ha hb => ?_, fun {path a} ha => ?_⟩
  · simp only [hfiled]
    constructor
    · intro hlive
      obtain ⟨path, hpath⟩ := (hS.live_iff pl').mp hlive
      by_cases hfrom : path = fromP
      · subst hfrom
        exact ⟨toP, .inl ⟨rfl, hpath⟩⟩
      · refine ⟨path, .inr ⟨?_, hfrom, hpath⟩⟩
        rintro rfl
        exact hfrom (hto' hpath)
    · rintro ⟨path, ⟨-, h⟩ | ⟨-, -, h⟩⟩
      · exact hS.live h
      · exact hS.live h
  · dsimp only at h
    by_cases hpath : path = toP
    · subst hpath
      rw [update_self] at h
      cases h
      exact ⟨pl, hmem⟩
    · rw [update_of_ne hpath] at h
      by_cases hpath' : path = fromP
      · subst hpath'
        rw [update_self] at h
        cases h
      · rw [update_of_ne hpath'] at h
        exact hS.nonempty h
  · rcases hfiled.mp ha with ⟨rfl, ha'⟩ | ⟨hne, -, ha'⟩
    · rcases hfiled.mp hb with ⟨-, hb'⟩ | ⟨hne, -, -⟩
      · exact hS.shared ha' hb'
      · exact absurd rfl hne
    · rcases hfiled.mp hb with ⟨rfl, -⟩ | ⟨-, -, hb'⟩
      · exact absurd rfl hne
      · exact hS.shared ha' hb'
  · dsimp only
    rcases hfiled.mp ha with ⟨rfl, ha'⟩ | ⟨-, hfrom, ha'⟩
    · rw [hS.shared ha' ⟨val, hval, hmem⟩, update_self]
      exact hN
    · rw [update_of_ne (hother hfrom ha')]
      exact hS.named ha'

end Sound

end Context

namespace DirNode

open Context

variable (D : DirNode) {S : Context}

lemma findOrCreate_cases (hS : Filing S) (path : Bytes) (new : ℕ) :
    (∃ e, D.findOrCreate S path new = .error e) ∨
      (∃ pl, S.Filed path pl ∧ D.findOrCreate S path new = .ok (S.placeholder pl, S)) ∨
      S.openFiles path = none ∧ ∃ cname, D.findOrCreate S path new =
        .ok (new, { S with node := update S.node new ⟨path, cname, cname⟩ }) := by
  rcases hS.lookupNode_cases path with ⟨hopen, hnone⟩ | ⟨pl, hpl, hsome⟩
  · cases hpath : D.cipherPath path with
    | error e =>
      left
      refine ⟨e, ?_⟩
      simp only [findOrCreate, hnone, hpath]
      rfl
    | ok cname =>
      right; right
      refine ⟨hopen, cname, ?_⟩
      simp only [findOrCreate, hnone, hpath]
      rfl
  · right; left
    refine ⟨pl, hpl, ?_⟩
    simp only [findOrCreate, hsome]

structure Renamed (S : Context) (fromP toP : Bytes) (new : ℕ) (ok : Bool) (S' : Context) : Prop where
  sound : Sound S'
  live : S'.live = S.live
  placeholder : S'.placeholder = S.placeholder
  openFiles : S'.openFiles = if ok then (S.renameNode fromP toP).openFiles else S.openFiles
  _pname : ∀ n, n ≠ new → (S'.node n)._pname = (S.node n)._pname ∨
    ok = true ∧ ∃ pl, S.Filed fromP pl ∧ S.placeholder pl = n

lemma Renamed.fresh {fromP toP : Bytes} {n : ℕ} {ok : Bool} {S' : Context}
    (h : Renamed S fromP toP n ok S') {new : ℕ} (hnew : S.Fresh new) : S'.Fresh new := by
  intro pl hlive
  rw [h.placeholder]
  rw [h.live] at hlive
  exact hnew pl hlive

lemma renameNode_absent {fromP toP : Bytes} (h : S.openFiles fromP = none) :
    S.renameNode fromP toP = S := by
  simp only [Context.renameNode, h]

lemma setName_cases (N : FileNode) (pname cname : Bytes) (iv : SetIV) (setIVFirst : Bool) :
    N.setName pname cname iv setIVFirst = (true, ⟨pname, cname, cname⟩) ∧ iv = .done ∨
      ∃ N' : FileNode, N.setName pname cname iv setIVFirst = (false, N') ∧ iv ≠ .done ∧
        (N'._pname = N._pname ∨ iv = .raised ∧ setIVFirst = false ∧ N'._pname = pname) := by
  cases iv with
  | done => exact .inl ⟨rfl, rfl⟩
  | refused =>
    cases setIVFirst with
    | true => exact .inr ⟨N, rfl, by decide, .inl rfl⟩
    | false => exact .inr ⟨{ N with rawName := cname }, rfl, by decide, .inl rfl⟩
  | raised =>
    cases setIVFirst with
    | true => exact .inr ⟨N, rfl, by decide, .inl rfl⟩
    | false => exact .inr ⟨⟨pname, cname, cname⟩, rfl, by decide, .inr ⟨rfl, rfl, rfl⟩⟩

lemma renameNode_renamed (hS : Sound S) {new : ℕ} (hnew : S.Fresh new) (fromP toP : Bytes)
    (iv : SetIV) (mode : Bool) (hto : iv = .done →
      fromP = toP ∨ S.openFiles fromP = none ∨ S.openFiles toP = none)
    (hraised : iv = .raised → mode = false → fromP = toP ∨ S.openFiles fromP = none) :
    Renamed S fromP toP new (D.renameNode S fromP toP new iv mode).1
      (D.renameNode S fromP toP new iv mode).2 := by
  rcases D.findOrCreate_cases hS.filing fromP new with ⟨e, herror⟩ | ⟨pl, hpl, hfound⟩ |
    ⟨hopen, cname, hmade⟩
  · simp only [renameNode, herror]
    exact ⟨hS, rfl, rfl, rfl, fun n _ => .inl rfl⟩
  · have hopen : S.openFiles fromP ≠ none := fun hnone => not_filed hnone hpl
    simp only [renameNode, hfound]
    cases hpath : D.cipherPath toP with
    | error e => exact ⟨hS, rfl, rfl, rfl, fun n _ => .inl rfl⟩
    | ok cname =>
      rcases setName_cases (S.node (S.placeholder pl)) toP cname iv mode with
        ⟨hset, hiv⟩ | ⟨N, hset, -, hname⟩
      · simp only [hset]
        refine ⟨hS.renameNode hpl ((hto hiv).imp_right fun h => h.resolve_left hopen) rfl, ?_, ?_, ?_,
          fun n _ => ?_⟩
        any_goals
          simp only [Context.renameNode]
          cases S.openFiles fromP <;> rfl
        by_cases heq : n = S.placeholder pl
        · exact .inr ⟨rfl, pl, hpl, heq.symm⟩
        · left
          simp only [Context.renameNode]
          cases S.openFiles fromP <;> simp only [update_of_ne heq]
      · have hsame : N._pname = (S.node (S.placeholder pl))._pname := by
          rcases hname with hname | ⟨hiv, hmode, hname⟩
          · exact hname
          · have heq := (hraised hiv hmode).resolve_right hopen
            rw [hname, ← heq, hS.named hpl]
        simp only [hset]
        refine ⟨hS.setNode (.inr hsame), rfl, rfl, rfl, fun n _ => .inl ?_⟩
        by_cases heq : n = S.placeholder pl
        · simp only [heq, update_self, hsame]
        · simp only [update_of_ne heq]
  · have hmade' := hS.setNode (n := new) (N := ⟨fromP, cname, cname⟩) (.inl hnew)
    simp only [renameNode, hmade]
    cases hpath : D.cipherPath toP with
    | error e =>
      exact ⟨hmade', rfl, rfl, rfl, fun n hn => .inl (congrArg _ (update_of_ne hn _ _))⟩
    | ok cname' =>
      have hfresh : Context.Fresh { S with node := update S.node new ⟨fromP, cname, cname⟩ } new :=
        hnew
      have hset' (N : FileNode) := hmade'.setNode (n := new) (N := N) (.inl hfresh)
      have hother (N : FileNode) (n : ℕ) (hn : n ≠ new) :
          (update (update S.node new ⟨fromP, cname, cname⟩) new N n)._pname = (S.node n)._pname := by
        rw [update_of_ne hn, update_of_ne hn]
      rcases setName_cases (update S.node new ⟨fromP, cname, cname⟩ new) toP cname' iv mode with
        ⟨hset, -⟩ | ⟨N, hset, -⟩
      · have habsent (nodes : ℕ → FileNode) :
            ({ S with node := nodes } : Context).renameNode fromP toP = { S with node := nodes } :=
          renameNode_absent hopen
        simp only [hset]
        rw [habsent]
        refine ⟨hset' _, rfl, rfl, ?_, fun n hn => .inl (hother _ n hn)⟩
        rw [renameNode_absent hopen]
        rfl
      · simp only [hset]
        exact ⟨hset' _, rfl, rfl, rfl, fun n hn => .inl (hother _ n hn)⟩

def Goes (fromP toP : Bytes) (answers : RenameAnswers) : Prop :=
  answers.iv = .done ∧ (∃ c, D.cipherPath fromP = .ok c) ∧ ∃ c, D.cipherPath toP = .ok c

lemma renameNode_ok (hS : Sound S) (fromP toP : Bytes) (new : ℕ) (iv : SetIV) (mode : Bool)
    (hfrom : ∃ c, D.cipherPath fromP = .ok c) (hto : ∃ c, D.cipherPath toP = .ok c) :
    (D.renameNode S fromP toP new iv mode).1 = decide (iv = .done) := by
  obtain ⟨cto, hto⟩ := hto
  rcases D.findOrCreate_cases hS.filing fromP new with ⟨e, herror⟩ | ⟨pl, -, hfound⟩ | ⟨-, cname, hmade⟩
  · obtain ⟨cfrom, hfrom⟩ := hfrom
    rw [findOrCreate] at herror
    split at herror
    · cases herror
    · rw [hfrom] at herror
      cases herror
  · simp only [renameNode, hfound, hto]
    rcases setName_cases (S.node (S.placeholder pl)) toP cto iv mode with
      ⟨hset, hiv⟩ | ⟨N, hset, hiv, -⟩
    · simp only [hset]
      exact (decide_eq_true hiv).symm
    · simp only [hset]
      exact (decide_eq_false hiv).symm
  · simp only [renameNode, hmade, hto]
    rcases setName_cases (update S.node new ⟨fromP, cname, cname⟩ new) toP cto iv mode with
      ⟨hset, hiv⟩ | ⟨N, hset, hiv, -⟩
    · simp only [hset]
      exact (decide_eq_true hiv).symm
    · simp only [hset]
      exact (decide_eq_false hiv).symm

lemma renameNode_back (S' : Context) {fromP toP : Bytes} (hto : fromP = toP ∨ S.openFiles toP = none)
    (h : S'.openFiles = (S.renameNode fromP toP).openFiles) :
    (S'.renameNode toP fromP).openFiles = S.openFiles := by
  funext path
  rw [renameNode_openFiles, h, renameNode_openFiles, renameNode_openFiles]
  rcases hto with rfl | hnone
  · grind
  · grind

structure FileRenamed (S : Context) (fromP toP : Bytes) (answers : RenameAnswers) (goes : Prop)
    (result : Bool × Context) : Prop where
  sound : Sound result.2
  live : result.2.live = S.live
  moved : result.1 = true → goes ∧ answers.moved = true ∧
    result.2.openFiles = (S.renameNode fromP toP).openFiles
  stays : result.1 = false → ¬goes ∧ result.2.openFiles = S.openFiles ∨
    goes ∧ answers.moved = false ∧ ∃ S₁ : Context,
      S₁.openFiles = (S.renameNode fromP toP).openFiles ∧ result.2.openFiles =
        if answers.ivBack = .done then (S₁.renameNode toP fromP).openFiles else S₁.openFiles

lemma renameFile_renamed (hS : Sound S) {new : ℕ} (hnew : S.Fresh new) {fromP toP : Bytes}
    {answers : RenameAnswers} (hcareful : D.Goes fromP toP answers →
      fromP = toP ∨ S.openFiles fromP = none ∨ S.openFiles toP = none)
    (hback : D.Goes fromP toP answers → answers.moved = false → answers.ivBack = .raised →
      fromP = toP ∨ S.openFiles fromP = none ∧ S.openFiles toP = none) :
    FileRenamed S fromP toP answers (D.Goes fromP toP answers)
      (D.renameFile S fromP toP new answers) := by
  rw [renameFile]
  cases hfrom : D.cipherPath fromP with
  | error e =>
    refine ⟨hS, rfl, fun h => (by cases h), fun _ => .inl ⟨?_, rfl⟩⟩
    rintro ⟨-, ⟨c, hc⟩, -⟩
    rw [hfrom] at hc
    cases hc
  | ok cfrom =>
  cases hto : D.cipherPath toP with
  | error e =>
    refine ⟨hS, rfl, fun h => (by cases h), fun _ => .inl ⟨?_, rfl⟩⟩
    rintro ⟨-, -, c, hc⟩
    rw [hto] at hc
    cases hc
  | ok cto =>
  have hforth := D.renameNode_renamed hS hnew fromP toP answers.iv true
    (fun hiv => hcareful ⟨hiv, ⟨cfrom, hfrom⟩, ⟨cto, hto⟩⟩) (fun _ h => absurd h (by decide))
  have hok := D.renameNode_ok hS fromP toP new answers.iv true
    ⟨cfrom, hfrom⟩ ⟨cto, hto⟩
  rcases hrun : D.renameNode S fromP toP new answers.iv true with ⟨ok, S₁⟩
  rw [hrun] at hforth hok
  dsimp only at hforth hok ⊢
  subst hok
  by_cases hiv : answers.iv = .done
  case neg =>
    rw [decide_eq_false hiv] at hforth ⊢
    exact ⟨hforth.sound, hforth.live, fun h => (by cases h),
      fun _ => .inl ⟨fun hgoes => hiv hgoes.1, hforth.openFiles⟩⟩
  case pos =>
    rw [decide_eq_true hiv] at hforth ⊢
    have hgoes : D.Goes fromP toP answers := ⟨hiv, ⟨cfrom, hfrom⟩, ⟨cto, hto⟩⟩
    cases hmoved : answers.moved with
    | true => exact ⟨hforth.sound, hforth.live, fun _ => ⟨hgoes, hmoved, hforth.openFiles⟩, fun h => (by cases h)⟩
    | false =>
      have hsource : fromP ≠ toP → S₁.openFiles fromP = none := by
        intro hne
        rw [hforth.openFiles, if_pos rfl, renameNode_openFiles, if_neg hne, if_pos rfl]
        by_cases h : S.openFiles fromP = none
        · rw [if_pos h, h]
        · rw [if_neg h]
      have hback := D.renameNode_renamed hforth.sound (hforth.fresh hnew) toP fromP
        answers.ivBack false
        (fun _ => by
          by_cases hne : fromP = toP
          · exact .inl hne.symm
          · exact .inr (.inr (hsource hne)))
        (fun hraised _ => by
          refine (hback hgoes hmoved hraised).imp Eq.symm fun ⟨hnone, hnone'⟩ => ?_
          rw [hforth.openFiles, if_pos rfl, renameNode_openFiles, if_pos hnone, hnone'])
      have hok' := D.renameNode_ok hforth.sound toP fromP new answers.ivBack
        false ⟨cto, hto⟩ ⟨cfrom, hfrom⟩
      refine ⟨hback.sound, hback.live.trans hforth.live, fun h => (by cases h), fun _ => .inr
        ⟨hgoes, hmoved, S₁, hforth.openFiles, ?_⟩⟩
      have hopen := hback.openFiles
      rw [hok'] at hopen
      simp only [decide_eq_true_eq] at hopen
      exact hopen

lemma renameNode_done (S : Context) (fromP toP : Bytes) (new : ℕ) (iv : SetIV) (mode : Bool)
    (h : (D.renameNode S fromP toP new iv mode).1 = true) : iv = .done := by
  rw [renameNode] at h
  split at h
  · cases h
  · split at h
    · cases h
    · rename_i node S' _ _ cname _
      rcases setName_cases (S'.node node) toP cname iv mode with ⟨-, hiv⟩ | ⟨N, hset, -⟩
      · exact hiv
      · simp only [hset, Bool.false_eq_true] at h

lemma openNode_frame (S : Context) (path : Bytes) (new : ℕ) (opened : Bool) :
    (∀ n, n ≠ new → (D.openNode S path new opened).2.node n = S.node n) ∧
      (D.openNode S path new opened).2.placeholder = S.placeholder ∧
      ∀ {n}, (D.openNode S path new opened).1 = some n → opened = true := by
  have hopened {n n' : ℕ} (h : (if opened then some n else none) = some n') : opened = true := by
    cases opened with
    | true => rfl
    | false => cases h
  rw [openNode, findOrCreate]
  cases S.lookupNode path with
  | some n => exact ⟨fun _ _ => rfl, rfl, hopened⟩
  | none =>
    cases D.cipherPath path with
    | error e => exact ⟨fun _ _ => rfl, rfl, fun h => by cases h⟩
    | ok c => exact ⟨fun n hn => update_of_ne hn _ _, rfl, hopened⟩

lemma openNode_spec (hS : Sound S) {new : ℕ} (hnew : S.Fresh new) (path : Bytes) (opened : Bool) :
    Sound (D.openNode S path new opened).2 ∧
      (D.openNode S path new opened).2.openFiles = S.openFiles ∧
      (D.openNode S path new opened).2.live = S.live ∧
      ∀ n, (D.openNode S path new opened).1 = some n →
        ((D.openNode S path new opened).2.node n)._pname = path ∧
          ∀ pl, S.Filed path pl → (D.openNode S path new opened).2.placeholder pl = n := by
  rcases D.findOrCreate_cases hS.filing path new with ⟨e, herror⟩ | ⟨pl, hpl, hfound⟩ |
    ⟨hopen, cname, hmade⟩
  · have hrun : D.openNode S path new opened = (none, S) := by
      simp only [openNode, herror]
    rw [hrun]
    exact ⟨hS, rfl, rfl, fun n h => (by cases h)⟩
  · have hrun : D.openNode S path new opened =
        (if opened then some (S.placeholder pl) else none, S) := by
      simp only [openNode, hfound]
    rw [hrun]
    refine ⟨hS, rfl, rfl, fun n h => ?_⟩
    cases opened with
    | false => cases h
    | true =>
      cases h
      exact ⟨hS.named hpl, fun pl' hpl' => hS.shared hpl' hpl⟩
  · have hrun : D.openNode S path new opened = (if opened then some new else none,
        { S with node := update S.node new ⟨path, cname, cname⟩ }) := by
      simp only [openNode, hmade]
    rw [hrun]
    refine ⟨hS.setNode (.inl hnew), rfl, rfl, fun n h => ?_⟩
    cases opened with
    | false => cases h
    | true =>
      cases h
      refine ⟨by dsimp only; rw [update_self], fun pl hpl => ?_⟩
      obtain ⟨set, hset, -⟩ := hpl
      rw [hopen] at hset
      cases hset

end DirNode

/-- The table, and the path to which the file of each placeholder was moved. -/
structure OpenRun where
  context : Context
  path : ℕ → Bytes

inductive OpenEvent
  | openFile (path : Bytes) (new pl : ℕ) (opened : Bool)
  | release (path : Bytes) (pl : ℕ)
  | rename (fromP toP : Bytes) (new : ℕ) (answers : DirNode.RenameAnswers)

namespace OpenRun

open DirNode Context NameIO

variable (D : DirNode) (R : OpenRun)

def Enabled : OpenEvent → Prop
  | .openFile _ new pl _ => R.context.Fresh new ∧ R.context.live pl = false
  | .release _ pl => R.context.live pl = true
  | .rename _ _ new _ => R.context.Fresh new

def next : OpenEvent → OpenRun
  | .openFile path new pl opened =>
    match D.openNode R.context path new opened with
    | (some node, S) => ⟨S.putNode path node pl, update R.path pl path⟩
    | (none, S) => ⟨S, R.path⟩
  | .release path pl => { R with context := (R.context.eraseNode path pl).getD R.context }
  | .rename fromP toP new answers =>
    match D.renameFile R.context fromP toP new answers with
    | (true, S) => ⟨S, fun pl => if R.path pl = fromP then toP else R.path pl⟩
    | (false, S) => ⟨S, R.path⟩

/-- No file that is open is renamed to another one that is, and no error is raised when the names of
one that is open are to be put back. -/
def Careful : OpenEvent → Prop
  | .rename fromP toP _ answers => D.Goes fromP toP answers →
    fromP = toP ∨ (R.context.openFiles fromP = none ∨ R.context.openFiles toP = none) ∧
      (answers.moved = false → answers.ivBack = .raised →
        R.context.openFiles fromP = none ∧ R.context.openFiles toP = none)
  | _ => True

/-- A file is not renamed to another one that is open, unless it is closed and moved; and the names of
one that is open can be put back. -/
def Strict : OpenEvent → Prop
  | .rename fromP toP _ answers => D.Goes fromP toP answers → fromP = toP ∨
    if answers.moved then R.context.openFiles fromP = none ∨ R.context.openFiles toP = none
    else R.context.openFiles toP = none ∧ (R.context.openFiles fromP = none ∨ answers.ivBack = .done)
  | _ => True

inductive Reached (P : OpenRun → OpenEvent → Prop) : OpenRun → Prop
  | empty : Reached P ⟨.empty, fun _ => []⟩
  | step {R : OpenRun} (e : OpenEvent) : Reached P R → R.Enabled e → P R e → Reached P (R.next D e)

variable {D R}

lemma Careful.of_strict {e : OpenEvent} (h : R.Strict D e) : R.Careful D e := by
  cases e with
  | openFile => trivial
  | release => trivial
  | rename fromP toP new answers =>
    intro hgoes
    refine (h hgoes).imp_right fun hto => ?_
    cases hmoved : answers.moved with
    | true =>
      rw [hmoved, if_pos rfl] at hto
      exact ⟨hto, fun hnot => absurd hnot (by decide)⟩
    | false =>
      rw [hmoved, if_neg (by decide)] at hto
      refine ⟨.inr hto.1, fun _ hraised => ⟨hto.2.resolve_right ?_, hto.1⟩⟩
      rw [hraised]
      decide

lemma Careful.renamed (hS : Sound R.context) {fromP toP : Bytes} {new : ℕ} {answers : RenameAnswers}
    (hnew : R.context.Fresh new) (h : R.Careful D (.rename fromP toP new answers)) :
    FileRenamed R.context fromP toP answers (D.Goes fromP toP answers)
      (D.renameFile R.context fromP toP new answers) :=
  D.renameFile_renamed hS hnew (fun hgoes => (h hgoes).imp_right And.left)
    fun hgoes hmoved hraised => (h hgoes).imp_right fun hto => hto.2 hmoved hraised

lemma sound_next (hS : Sound R.context) {e : OpenEvent} (hen : R.Enabled e)
    (hcareful : R.Careful D e) : Sound (R.next D e).context := by
  cases e with
  | openFile path new pl opened =>
    obtain ⟨hnew, hpl⟩ := hen
    obtain ⟨hopened, hfiles, hlive, hnode⟩ := D.openNode_spec hS hnew path opened
    rw [next]
    rcases hrun : D.openNode R.context path new opened with ⟨node, S⟩
    rw [hrun] at hopened hfiles hlive hnode
    cases node with
    | none => exact hopened
    | some n =>
      obtain ⟨hname, hshared⟩ := hnode n rfl
      apply hopened.putNode
      · rw [hlive]
        exact hpl
      · exact fun pl' h => hshared pl' ((Filed.congr hfiles).mp h)
      · exact hname
  | release path pl =>
    rw [next]
    cases herase : R.context.eraseNode path pl with
    | none => exact hS
    | some S => exact hS.eraseNode herase
  | rename fromP toP new answers =>
    have hrenamed := Careful.renamed hS hen hcareful
    rw [next]
    rcases hrun : D.renameFile R.context fromP toP new answers with ⟨moved, S⟩
    rw [hrun] at hrenamed
    cases moved with
    | true => exact hrenamed.sound
    | false => exact hrenamed.sound

lemma Reached.sound (h : Reached D (Careful D) R) : Sound R.context := by
  induction h with
  | empty => exact .empty
  | step e _ hen hcareful ih => exact sound_next ih hen hcareful

def OnPath (R : OpenRun) : Prop :=
  ∀ pl, R.context.live pl = true → R.context.Filed (R.path pl) pl

lemma onPath_openFile (hS : Sound R.context) (hpath : R.OnPath) {path : Bytes} {new pl : ℕ}
    {opened : Bool} (hnew : R.context.Fresh new) :
    (R.next D (.openFile path new pl opened)).OnPath := by
  obtain ⟨-, hfiles, hlive, -⟩ := D.openNode_spec hS hnew path opened
  rw [next]
  rcases hrun : D.openNode R.context path new opened with ⟨node, S⟩
  rw [hrun] at hfiles hlive
  dsimp only at hfiles hlive ⊢
  cases node with
  | none =>
    intro pl' h
    rw [hlive] at h
    exact (Filed.congr hfiles).mpr (hpath pl' h)
  | some n =>
    intro pl' h
    by_cases heq : pl' = pl
    · subst heq
      rw [Sound.putNode_filed]
      exact .inl ⟨update_self _ _ _, rfl⟩
    · have hlive' : S.live pl' = true := (update_of_ne heq _ _).symm.trans h
      rw [hlive] at hlive'
      have hkeep : update R.path pl path pl' = R.path pl' := update_of_ne heq _ _
      apply Sound.putNode_filed.mpr
      right
      show S.Filed (update R.path pl path pl') pl'
      rw [hkeep]
      exact (Filed.congr hfiles).mpr (hpath pl' hlive')

lemma onPath_release (hS : Sound R.context) (hpath : R.OnPath) (path : Bytes) (pl : ℕ) :
    (R.next D (.release path pl)).OnPath := by
  rw [next]
  cases herase : R.context.eraseNode path pl with
  | none => exact hpath
  | some S =>
    intro pl' h
    obtain ⟨path', hfiled⟩ := ((hS.eraseNode herase).live_iff pl').mp h
    obtain ⟨hold, hne⟩ := (hS.eraseNode_filed herase).mp hfiled
    exact (hS.eraseNode_filed herase).mpr ⟨hpath pl' (hS.live hold), hne⟩

lemma filed_renameNode {fromP toP path : Bytes} {pl : ℕ} (h : R.context.Filed path pl)
    (hto : fromP = toP ∨ R.context.openFiles fromP = none ∨ R.context.openFiles toP = none) :
    (R.context.renameNode fromP toP).Filed (if path = fromP then toP else path) pl := by
  obtain ⟨set, hset, hmem⟩ := h
  refine ⟨set, ?_, hmem⟩
  rw [renameNode_openFiles]
  grind

lemma openFiles_unmoved {fromP toP : Bytes} {answers : RenameAnswers} {new : ℕ} {S : Context}
    (hgoes : D.Goes fromP toP answers) (hmoved : answers.moved = false)
    (hstrict : R.Strict D (.rename fromP toP new answers)) {S₁ : Context}
    (hfirst : S₁.openFiles = (R.context.renameNode fromP toP).openFiles)
    (hfiles : S.openFiles = if answers.ivBack = .done then (S₁.renameNode toP fromP).openFiles
      else S₁.openFiles) : S.openFiles = R.context.openFiles := by
  have hto := hstrict hgoes
  rw [hmoved, if_neg (by decide)] at hto
  by_cases hset : answers.ivBack = .done
  · rw [if_pos hset] at hfiles
    exact hfiles.trans (renameNode_back S₁ (hto.imp_right And.left) hfirst)
  · rw [if_neg hset, hfirst] at hfiles
    rw [hfiles]
    rcases hto with rfl | ⟨-, hset'⟩
    · funext path
      rw [renameNode_openFiles]
      grind
    · rw [renameNode_absent (hset'.resolve_right hset)]

lemma onPath_rename (hS : Sound R.context) (hpath : R.OnPath) {fromP toP : Bytes} {new : ℕ}
    {answers : RenameAnswers} (hnew : R.context.Fresh new)
    (hstrict : R.Strict D (.rename fromP toP new answers)) :
    (R.next D (.rename fromP toP new answers)).OnPath := by
  have hrenamed := Careful.renamed hS hnew (Careful.of_strict hstrict)
  rw [next]
  rcases hrun : D.renameFile R.context fromP toP new answers with ⟨moved, S⟩
  rw [hrun] at hrenamed
  obtain ⟨-, hlive, hmoved, hstays⟩ := hrenamed
  dsimp only at hlive hmoved hstays ⊢
  cases moved with
  | true =>
    obtain ⟨hgoes, hmoves, hfiles⟩ := hmoved rfl
    have hto := hstrict hgoes
    rw [hmoves, if_pos rfl] at hto
    intro pl h
    rw [hlive] at h
    exact (Filed.congr hfiles).mpr (filed_renameNode (hpath pl h) hto)
  | false =>
    have hfiles : S.openFiles = R.context.openFiles := by
      rcases hstays rfl with ⟨-, hfiles⟩ | ⟨hgoes, hnot, S₁, hfirst, hfiles⟩
      · exact hfiles
      · exact openFiles_unmoved hgoes hnot hstrict hfirst hfiles
    intro pl h
    rw [hlive] at h
    exact (Filed.congr hfiles).mpr (hpath pl h)

lemma onPath_next (hS : Sound R.context) (hpath : R.OnPath) {e : OpenEvent} (hen : R.Enabled e)
    (hstrict : R.Strict D e) : (R.next D e).OnPath := by
  cases e with
  | openFile path new pl opened => exact onPath_openFile hS hpath hen.1
  | release path pl => exact onPath_release hS hpath path pl
  | rename fromP toP new answers => exact onPath_rename hS hpath hen hstrict

lemma Reached.onPath (h : Reached D (Strict D) R) : Sound R.context ∧ R.OnPath := by
  induction h with
  | empty => exact ⟨.empty, fun pl h => by cases h⟩
  | step e _ hen hstrict ih =>
    exact ⟨sound_next ih.1 hen (.of_strict hstrict), onPath_next ih.1 ih.2 hen hstrict⟩

/-- The sets of the table partition the placeholders in use, and all those under one path have the
node of that name, so that the name of its node is enough to erase a placeholder. Where renames are
strict the path to which its file was moved is, too. -/
theorem open_files (D : DirNode) :
    (∀ R, Reached D (Careful D) R →
      (∀ pl, R.context.live pl = true ↔ ∃ path, R.context.Filed path pl) ∧
      (∀ path path' pl, R.context.Filed path pl → R.context.Filed path' pl → path = path') ∧
      (∀ path pl pl', R.context.Filed path pl → R.context.Filed path pl' →
        R.context.placeholder pl = R.context.placeholder pl') ∧
      (∀ path pl, R.context.Filed path pl →
        (R.context.node (R.context.placeholder pl))._pname = path ∧
          (R.context.eraseNode path pl).isSome = true)) ∧
    ∀ R, Reached D (Strict D) R → ∀ pl, R.context.live pl = true →
      (R.context.eraseNode (R.path pl) pl).isSome = true := by
  constructor
  · intro R hR
    have hS := hR.sound
    exact ⟨hS.live_iff, fun path path' pl h h' => hS.filed_unique h h',
      fun path pl pl' h h' => hS.shared h h',
      fun path pl h => ⟨hS.named h, Sound.eraseNode_isSome h⟩⟩
  · intro R hR pl hlive
    exact Sound.eraseNode_isSome (hR.onPath.2 pl hlive)

lemma next_openFile_new {path c : Bytes} (hc : D.cipherPath path = .ok c)
    (hnone : R.context.openFiles path = none) (new pl : ℕ) :
    R.next D (.openFile path new pl true) =
      ⟨({ R.context with node := update R.context.node new ⟨path, c, c⟩ } : Context).putNode path
        new pl, update R.path pl path⟩ := by
  have hlookup : R.context.lookupNode path = none := Filing.lookupNode_none hnone
  simp only [next, openNode, findOrCreate, hlookup, hc]
  rfl

def maskVolume : DirNode := ⟨[47, 114, 47], maskStreamNames.nameIO true false⟩

lemma maskVolume_cipherPath {p : Bytes} (hnull : (0 : UInt8) ∉ p) :
    ∃ c, maskVolume.cipherPath p = .ok c := by
  have hnames : (maskStreamNames.nameIO true false).Supported :=
    .stream maskStreamNames 16 (maskCipher_namesLawful 16) (by decide) true
  obtain ⟨q, hq, -⟩ := (path_coding hnames).1 p hnull
  have hq' : maskVolume.naming.encodePath p = .ok q := hq
  refine ⟨maskVolume.rootDir ++ q, ?_⟩
  rw [cipherPath, hq']
  rfl

theorem not_open_files :
    ∃ R, Reached maskVolume (fun _ _ => True) R ∧ R.context.live 11 = true ∧
      (∀ path, ¬R.context.Filed path 11) ∧ R.context.eraseNode [47, 98] 11 = none := by
  obtain ⟨ca, ha⟩ := maskVolume_cipherPath (p := [47, 97]) (by decide)
  obtain ⟨cb, hb⟩ := maskVolume_cipherPath (p := [47, 98]) (by decide)
  have hone := Reached.step (D := maskVolume) (P := fun _ _ => True)
    (.openFile [47, 97] 1 10 true) .empty ⟨fun pl h => (by cases h), rfl⟩ trivial
  rw [next_openFile_new ha rfl] at hone
  have hfresh (new : ℕ) (hne : 1 ≠ new) := Fresh.putNode [47, 97] 1 10
    (S := { Context.empty with node := update Context.empty.node 1 ⟨[47, 97], ca, ca⟩ })
    (fun pl h => (by cases h)) hne
  have htwo := hone.step (.openFile [47, 98] 2 11 true) ⟨hfresh 2 (by decide), rfl⟩ trivial
  rw [next_openFile_new hb rfl] at htwo
  have hthree := htwo.step (.rename [47, 97] [47, 98] 3 ⟨.done, false, .done⟩)
    (Fresh.putNode _ _ _ (hfresh 3 (by decide)) (by decide)) trivial
  refine ⟨_, hthree, ?_, ?_, ?_⟩
  · simp [next, findOrCreate, lookupNode, ha, hb, Context.putNode, Context.empty, renameFile,
      DirNode.renameNode, Context.renameNode, FileNode.setName]
  · rintro path ⟨set, hset, hmem⟩
    simp [next, findOrCreate, lookupNode, ha, hb, Context.putNode, Context.empty, renameFile,
      DirNode.renameNode, Context.renameNode, FileNode.setName, update_apply] at hset
    grind
  · simp [next, findOrCreate, lookupNode, ha, hb, Context.putNode, Context.empty, renameFile,
      DirNode.renameNode, Context.renameNode, FileNode.setName, Context.eraseNode]

theorem open_files_moved :
    ∃ R, Reached maskVolume (Careful maskVolume) R ∧
      (∀ pl, R.context.live pl = true ↔ ∃ path, R.context.Filed path pl) ∧
      Reached maskVolume (Strict maskVolume) R ∧ R.context.live 10 = true ∧
      R.path 10 = [47, 98] ∧ (R.context.eraseNode (R.path 10) 10).isSome = true := by
  obtain ⟨ca, ha⟩ := maskVolume_cipherPath (p := [47, 97]) (by decide)
  obtain ⟨cb, hb⟩ := maskVolume_cipherPath (p := [47, 98]) (by decide)
  have hrun (P : OpenRun → OpenEvent → Prop) (hP : ∀ R e, R.Strict maskVolume e → P R e) :
      ∃ R, R = OpenRun.next maskVolume ⟨({ Context.empty with
          node := update Context.empty.node 1 ⟨[47, 97], ca, ca⟩ } : Context).putNode [47, 97] 1 10,
          update (fun _ => []) 10 [47, 97]⟩ (.rename [47, 97] [47, 98] 3 ⟨.done, true, .done⟩) ∧
        Reached maskVolume P R := by
    have hone := Reached.step (D := maskVolume) (P := P) (.openFile [47, 97] 1 10 true) .empty
      ⟨fun pl h => (by cases h), rfl⟩ (hP _ _ trivial)
    rw [next_openFile_new ha rfl] at hone
    refine ⟨_, rfl, hone.step _ (Fresh.putNode _ _ _ (fun pl h => (by cases h)) (by decide)) (hP _ _ ?_)⟩
    exact fun _ => .inr (.inr rfl)
  obtain ⟨R, hR, hstrict⟩ := hrun (Strict maskVolume) fun _ _ h => h
  obtain ⟨R', hR', hcareful⟩ := hrun (Careful maskVolume) fun _ _ h => .of_strict h
  obtain rfl : R' = R := hR'.trans hR.symm
  have hlive : R'.context.live 10 = true := by
    rw [hR]
    simp [next, findOrCreate, lookupNode, ha, hb, Context.putNode, Context.empty, renameFile,
      DirNode.renameNode, Context.renameNode, FileNode.setName]
  have hpath : R'.path 10 = [47, 98] := by
    rw [hR]
    simp [next, findOrCreate, lookupNode, ha, hb, Context.putNode, Context.empty, renameFile,
      DirNode.renameNode, Context.renameNode, FileNode.setName]
  exact ⟨R', hcareful, ((open_files maskVolume).1 R' hcareful).1, hstrict, hlive, hpath,
    (open_files maskVolume).2 R' hstrict 10 hlive⟩

end OpenRun

end EncFS
