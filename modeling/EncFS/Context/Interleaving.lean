import EncFS.Context.OpenFiles

/-! Threads that open, release and rename files: every interleaving of their critical sections. -/

set_option autoImplicit false

namespace EncFS

open Function

namespace DirNode

structure RenameCall where
  fromP : Bytes
  toP : Bytes
  new : ℕ
  iv : SetIV
  forwardMode : Bool

/-- A call of `rename` is some calls of `renameNode`: that for the file, those for the files below a
directory, and those that take them back. -/
def renameNodes (D : DirNode) (S : Context) : List RenameCall → Context
  | [] => S
  | c :: calls => renameNodes D (D.renameNode S c.fromP c.toP c.new c.iv c.forwardMode).2 calls

end DirNode

/-- A thread in `encfs_open` has a node between `openNode` and `putNode`. -/
structure OpenThreads where
  context : Context
  opened : ℕ → Option (Bytes × ℕ)

inductive ThreadEvent
  | openNode (t : ℕ) (path : Bytes) (new : ℕ) (opened : Bool)
  | putNode (t : ℕ) (path : Bytes) (node pl : ℕ)
  | eraseNode (t : ℕ) (path : Bytes) (pl : ℕ)
  | rename (t : ℕ) (calls : List DirNode.RenameCall)

namespace OpenThreads

open DirNode Context

variable (D : DirNode) (T : OpenThreads)

def initial : OpenThreads := ⟨.empty, fun _ => none⟩

def Fresh (new : ℕ) : Prop :=
  T.context.Fresh new ∧ ∀ t path, T.opened t ≠ some (path, new)

def Enabled : ThreadEvent → Prop
  | .openNode t _ new _ => T.opened t = none ∧ T.Fresh new
  | .putNode t path node pl => T.opened t = some (path, node) ∧ T.context.live pl = false
  | .eraseNode t _ pl => T.opened t = none ∧ T.context.live pl = true
  | .rename t calls => T.opened t = none ∧ ∀ c ∈ calls, T.Fresh c.new

def next : ThreadEvent → OpenThreads
  | .openNode t path new opened =>
    match D.openNode T.context path new opened with
    | (some node, S) => ⟨S, update T.opened t (some (path, node))⟩
    | (none, S) => ⟨S, T.opened⟩
  | .putNode t path node pl => ⟨T.context.putNode path node pl, update T.opened t none⟩
  | .eraseNode _ path pl => { T with context := (T.context.eraseNode path pl).getD T.context }
  | .rename _ calls => { T with context := D.renameNodes T.context calls }

def Opening (path : Bytes) : Prop :=
  ∃ t node, T.opened t = some (path, node)

/-- A file that is open gets the name of no other one that is, and no thread is opening either; and
when its names are to be put back no error is raised. -/
def CarefulCalls (opening : Bytes → Prop) : Context → List RenameCall → Prop
  | _, [] => True
  | S, c :: calls =>
    (c.fromP = c.toP ∨ S.openFiles c.fromP = none ∨
      (c.iv = .done → S.openFiles c.toP = none ∧ ¬opening c.fromP ∧ ¬opening c.toP) ∧
        (c.iv = .raised → c.forwardMode = true)) ∧
      CarefulCalls opening (D.renameNode S c.fromP c.toP c.new c.iv c.forwardMode).2 calls

/-- A file that is not open is opened by one thread at a time. -/
def Careful : ThreadEvent → Prop
  | .openNode _ path _ opened =>
    opened = true → T.context.openFiles path = none → ¬T.Opening path
  | .rename _ calls => CarefulCalls D T.Opening T.context calls
  | _ => True

inductive Reached (P : OpenThreads → ThreadEvent → Prop) : OpenThreads → Prop
  | initial : Reached P initial
  | step {T : OpenThreads} (e : ThreadEvent) : Reached P T → T.Enabled e → P T e →
    Reached P (T.next D e)

variable {D T}

structure Agreed (T : OpenThreads) : Prop where
  sound : Sound T.context
  named : ∀ {t path node}, T.opened t = some (path, node) → (T.context.node node)._pname = path
  filed : ∀ {t path node pl}, T.opened t = some (path, node) → T.context.Filed path pl →
    T.context.placeholder pl = node
  same : ∀ {t t' path node node'}, T.opened t = some (path, node) →
    T.opened t' = some (path, node') → node = node'

lemma Agreed.initial : Agreed initial where
  sound := .empty
  named h := by cases h
  filed h := by cases h
  same h := by cases h

namespace Agreed

variable (hT : Agreed T)
include hT

lemma renameCall {c : RenameCall} (hnew : T.Fresh c.new) (hcareful : c.fromP = c.toP ∨
      T.context.openFiles c.fromP = none ∨
      (c.iv = .done → T.context.openFiles c.toP = none ∧ ¬T.Opening c.fromP ∧ ¬T.Opening c.toP) ∧
        (c.iv = .raised → c.forwardMode = true)) :
    Agreed { T with context :=
        (D.renameNode T.context c.fromP c.toP c.new c.iv c.forwardMode).2 } ∧
      ∀ new, T.context.Fresh new →
        (D.renameNode T.context c.fromP c.toP c.new c.iv c.forwardMode).2.Fresh new := by
  have hrenamed := D.renameNode_renamed hT.sound hnew.1 c.fromP c.toP c.iv c.forwardMode
    (fun hiv => hcareful.imp_right fun h => h.imp_right fun h => (h.1 hiv).1)
    (fun hraised hback => hcareful.imp_right fun h => h.resolve_right fun h =>
      absurd (hback.symm.trans (h.2 hraised)) (by decide))
  have hdone : (D.renameNode T.context c.fromP c.toP c.new c.iv c.forwardMode).1 = true →
      c.iv = .done := D.renameNode_done _ _ _ _ _ _
  generalize D.renameNode T.context c.fromP c.toP c.new c.iv c.forwardMode = result at *
  obtain ⟨ok, S⟩ := result
  have hmoves {path : Bytes} (hopening : T.Opening path)
      (hmoved : ok = true ∧ T.context.openFiles c.fromP ≠ none) :
      c.fromP = c.toP ∨ path ≠ c.fromP ∧ path ≠ c.toP := by
    rcases hcareful with h | h | h
    · exact .inl h
    · exact absurd h hmoved.2
    · obtain ⟨-, hfrom, hto⟩ := h.1 (hdone hmoved.1)
      refine .inr ⟨?_, ?_⟩
      · rintro rfl
        exact hfrom hopening
      · rintro rfl
        exact hto hopening
  have hentry {path : Bytes} (hopening : T.Opening path) :
      S.openFiles path = T.context.openFiles path := by
    rw [hrenamed.openFiles]
    split
    · rename_i hok
      rw [renameNode_openFiles]
      by_cases hnone : T.context.openFiles c.fromP = none
      · rw [if_pos hnone]
      · have := hmoves hopening ⟨hok, hnone⟩
        grind
    · rfl
  refine ⟨⟨hrenamed.sound, fun {t path node} h => ?_, fun {t path node pl} h hpl => ?_, hT.same⟩,
    fun new hfresh => hrenamed.fresh hfresh⟩
  · rcases hrenamed._pname node fun heq => hnew.2 t path (heq ▸ h) with hname | ⟨hok, pl, hpl, hnode⟩
    · exact hname.trans (hT.named h)
    · -- the node in the table has the name of the path that is renamed
      have hpath : path = c.fromP := by
        rw [← hT.named h, ← hnode, hT.sound.named hpl]
      have hopen : T.context.openFiles c.fromP ≠ none := fun hnone => not_filed hnone hpl
      have hsame := (hmoves ⟨t, node, h⟩ ⟨hok, hopen⟩).resolve_right fun hne => hne.1 hpath
      have hkept : S.Filed path pl := by
        rw [Filed, hentry ⟨t, node, h⟩, hpath]
        exact hpl
      have hname := hrenamed.sound.named hkept
      rwa [hrenamed.placeholder, hnode] at hname
  · rw [hrenamed.placeholder]
    apply hT.filed h
    rw [Filed, ← hentry ⟨t, node, h⟩]
    exact hpl

lemma renameNodes {calls : List RenameCall} (hnew : ∀ c ∈ calls, T.Fresh c.new)
    (hcareful : CarefulCalls D T.Opening T.context calls) :
    Agreed { T with context := D.renameNodes T.context calls } := by
  induction calls generalizing T with
  | nil => exact hT
  | cons c calls ih =>
    obtain ⟨hcall, hcalls⟩ := hcareful
    obtain ⟨hnext, hfresh⟩ := hT.renameCall (hnew c List.mem_cons_self) hcall
    refine ih hnext (fun c' hc' => ?_) hcalls
    obtain ⟨hcontext, hopened⟩ := hnew c' (List.mem_cons_of_mem c hc')
    exact ⟨hfresh _ hcontext, hopened⟩

lemma openNode {path : Bytes} {new : ℕ} {opened : Bool} (t : ℕ) (hnew : T.Fresh new)
    (hcareful : opened = true → T.context.openFiles path = none → ¬T.Opening path) :
    Agreed (T.next D (.openNode t path new opened)) := by
  obtain ⟨hsound, hfiles, -, hnode⟩ := D.openNode_spec hT.sound hnew.1 path opened
  obtain ⟨hother, hplaceholder, hopened⟩ := D.openNode_frame T.context path new opened
  rw [next]
  rcases hrun : D.openNode T.context path new opened with ⟨result, S⟩
  rw [hrun] at hsound hfiles hnode hother hplaceholder hopened
  dsimp only at hsound hfiles hnode hother hplaceholder hopened ⊢
  have hnamed {t path node} (h : T.opened t = some (path, node)) : (S.node node)._pname = path := by
    rw [hother node fun heq => hnew.2 t path (heq ▸ h)]
    exact hT.named h
  have hfiled {t path node pl} (h : T.opened t = some (path, node)) (hpl : S.Filed path pl) :
      S.placeholder pl = node := by
    rw [hplaceholder]
    exact hT.filed h ((Filed.congr hfiles).mp hpl)
  cases result with
  | none => exact ⟨hsound, hnamed, hfiled, hT.same⟩
  | some n =>
    obtain ⟨hname, hshared⟩ := hnode n rfl
    have hagrees {t' node} (h : T.opened t' = some (path, node)) : node = n := by
      cases hentry : T.context.openFiles path with
      | none => exact absurd ⟨t', node, h⟩ (hcareful (hopened rfl) hentry)
      | some set =>
        obtain ⟨pl, hpl⟩ := hT.sound.nonempty hentry
        have hset : T.context.Filed path pl := ⟨set, hentry, hpl⟩
        rw [← hT.filed h hset, ← hplaceholder]
        exact hshared pl hset
    have hcases {t' path' node'} (h : update T.opened t (some (path, n)) t' = some (path', node')) :
        path' = path ∧ node' = n ∨ T.opened t' = some (path', node') := by
      by_cases ht : t' = t
      · subst ht
        rw [update_self] at h
        cases h
        exact .inl ⟨rfl, rfl⟩
      · rw [update_of_ne ht] at h
        exact .inr h
    refine ⟨hsound, fun h => ?_, fun h hpl => ?_, fun h h' => ?_⟩
    · rcases hcases h with ⟨rfl, rfl⟩ | hold
      · exact hname
      · exact hnamed hold
    · rcases hcases h with ⟨rfl, rfl⟩ | hold
      · exact hshared _ ((Filed.congr hfiles).mp hpl)
      · exact hfiled hold hpl
    · rcases hcases h with ⟨rfl, rfl⟩ | hold
      · rcases hcases h' with ⟨-, rfl⟩ | hold'
        · rfl
        · exact (hagrees hold').symm
      · rcases hcases h' with ⟨rfl, rfl⟩ | hold'
        · exact hagrees hold
        · exact hT.same hold hold'

lemma putNode {t : ℕ} {path : Bytes} {node pl : ℕ} (h : T.opened t = some (path, node))
    (hpl : T.context.live pl = false) : Agreed (T.next D (.putNode t path node pl)) := by
  have hsound := hT.sound.putNode hpl (fun pl' hpl' => hT.filed h hpl') (hT.named h)
  have hrest {t' path' node'} (h' : update T.opened t none t' = some (path', node')) :
      T.opened t' = some (path', node') := by
    by_cases ht : t' = t
    · subst ht
      rw [update_self] at h'
      cases h'
    · rwa [update_of_ne ht] at h'
  refine ⟨hsound, fun h' => hT.named (hrest h'), fun {t' path' node' pl'} h' hpl' => ?_,
    fun h' h'' => hT.same (hrest h') (hrest h'')⟩
  rcases Sound.putNode_filed.mp hpl' with ⟨rfl, rfl⟩ | hold
  · exact (update_self _ _ _).trans (hT.same h (hrest h'))
  · have hne : pl' ≠ pl := by
      rintro rfl
      exact absurd ((hT.sound.live hold).symm.trans hpl) (by decide)
    exact (update_of_ne hne _ _).trans (hT.filed (hrest h') hold)

lemma eraseNode (t : ℕ) (path : Bytes) (pl : ℕ) : Agreed (T.next D (.eraseNode t path pl)) := by
  rw [next]
  cases herase : T.context.eraseNode path pl with
  | none => exact hT
  | some S =>
    have hsame : S.node = T.context.node ∧ S.placeholder = T.context.placeholder := by
      rw [Context.eraseNode] at herase
      split at herase
      · cases herase
      · split at herase
        · cases herase
          exact ⟨rfl, rfl⟩
        · cases herase
    refine ⟨hT.sound.eraseNode herase, fun h => ?_, fun h hpl => ?_, hT.same⟩
    · exact (congrArg FileNode._pname (congrFun hsame.1 _)).trans (hT.named h)
    · exact (congrFun hsame.2 _).trans
        (hT.filed h ((hT.sound.eraseNode_filed herase).mp hpl).1)

lemma next {e : ThreadEvent} (hen : T.Enabled e) (hcareful : T.Careful D e) :
    Agreed (T.next D e) := by
  cases e with
  | openNode t path new opened => exact hT.openNode t hen.2 hcareful
  | putNode t path node pl => exact hT.putNode hen.1 hen.2
  | eraseNode t path pl => exact hT.eraseNode t path pl
  | rename t calls => exact hT.renameNodes hen.2 hcareful

end Agreed

lemma Reached.agreed (h : Reached D (Careful D) T) : Agreed T := by
  induction h with
  | initial => exact .initial
  | step e _ hen hcareful ih => exact ih.next hen hcareful

/-- The placeholders under one path have one node, which has the name of the path, and two handles
whose nodes have one name have the same node. -/
theorem one_node (h : Reached D (Careful D) T) :
    (∀ path pl pl', T.context.Filed path pl → T.context.Filed path pl' →
      T.context.placeholder pl = T.context.placeholder pl' ∧
        (T.context.node (T.context.placeholder pl))._pname = path) ∧
    ∀ pl pl', T.context.live pl = true → T.context.live pl' = true →
      (T.context.node (T.context.placeholder pl))._pname =
        (T.context.node (T.context.placeholder pl'))._pname →
      T.context.placeholder pl = T.context.placeholder pl' := by
  have hS := h.agreed.sound
  constructor
  · intro path pl pl' hpl hpl'
    exact ⟨hS.shared hpl hpl', hS.named hpl⟩
  · intro pl pl' hlive hlive' hname
    obtain ⟨path, hpl⟩ := (hS.live_iff pl).mp hlive
    obtain ⟨path', hpl'⟩ := (hS.live_iff pl').mp hlive'
    rw [hS.named hpl, hS.named hpl'] at hname
    subst hname
    exact hS.shared hpl hpl'

lemma next_openNode_new {path c : Bytes} (hc : D.cipherPath path = .ok c)
    (hnone : T.context.openFiles path = none) (t new : ℕ) :
    T.next D (.openNode t path new true) =
      ⟨{ T.context with node := update T.context.node new ⟨path, c, c⟩ },
        update T.opened t (some (path, new))⟩ := by
  have hlookup : T.context.lookupNode path = none := Filing.lookupNode_none hnone
  simp only [next, openNode, findOrCreate, hlookup, hc]
  rfl

lemma next_openNode_found (hS : Sound T.context) {path : Bytes} {pl : ℕ}
    (hpl : T.context.Filed path pl) (t new : ℕ) :
    T.next D (.openNode t path new true) =
      ⟨T.context, update T.opened t (some (path, T.context.placeholder pl))⟩ := by
  simp only [next, openNode, findOrCreate, hS.filing.lookupNode_filed hpl]
  rfl

lemma opened_update {opened : ℕ → Option (Bytes × ℕ)} {t new : ℕ} {path : Bytes} {node : ℕ}
    (h : ∀ t path, opened t ≠ some (path, new)) (hne : node ≠ new) :
    ∀ t' path', update opened t (some (path, node)) t' ≠ some (path', new) := by
  intro t' path' heq
  by_cases ht : t' = t
  · subst ht
    rw [update_self] at heq
    cases heq
    exact hne rfl
  · rw [update_of_ne ht] at heq
    exact h t' path' heq

theorem not_one_node :
    ∃ T, Reached OpenRun.maskVolume (fun _ _ => True) T ∧ T.context.Filed [47, 97] 10 ∧
      T.context.Filed [47, 97] 11 ∧ T.context.placeholder 10 ≠ T.context.placeholder 11 := by
  obtain ⟨c, hc⟩ := OpenRun.maskVolume_cipherPath (p := [47, 97]) (by decide)
  have hone := Reached.step (D := OpenRun.maskVolume) (P := fun _ _ => True)
    (.openNode 1 [47, 97] 1 true) .initial
    ⟨rfl, fun pl h => (by cases h), fun t path h => (by cases h)⟩ trivial
  rw [next_openNode_new hc rfl] at hone
  have htwo := hone.step (.openNode 2 [47, 97] 2 true)
    ⟨rfl, fun pl h => (by cases h),
      opened_update (fun t path h => (by cases h)) (by decide)⟩ trivial
  rw [next_openNode_new hc rfl] at htwo
  have hput := htwo.step (.putNode 1 [47, 97] 1 10) ⟨rfl, rfl⟩ trivial
  refine ⟨_, hput.step (.putNode 2 [47, 97] 2 11) ⟨rfl, rfl⟩ trivial, ?_, ?_, ?_⟩
  · exact Sound.putNode_filed.mpr (.inr (Sound.putNode_filed.mpr (.inl ⟨rfl, rfl⟩)))
  · exact Sound.putNode_filed.mpr (.inl ⟨rfl, rfl⟩)
  · show (1 : ℕ) ≠ 2
    decide

theorem one_node_second :
    ∃ T : OpenThreads, T.context.Filed [47, 97] 10 ∧ T.context.Filed [47, 97] 11 ∧
      T.context.placeholder 10 = T.context.placeholder 11 ∧
      (T.context.node (T.context.placeholder 10))._pname = [47, 97] := by
  obtain ⟨c, hc⟩ := OpenRun.maskVolume_cipherPath (p := [47, 97]) (by decide)
  have hone := Reached.step (D := OpenRun.maskVolume) (P := Careful OpenRun.maskVolume)
    (.openNode 1 [47, 97] 1 true) .initial
    ⟨rfl, fun pl h => (by cases h), fun t path h => (by cases h)⟩
    fun _ _ ⟨t, node, h⟩ => by cases h
  rw [next_openNode_new hc rfl] at hone
  have hput := hone.step (.putNode 1 [47, 97] 1 10) ⟨rfl, rfl⟩ trivial
  have hfiled : (Context.putNode { Context.empty with
      node := update Context.empty.node 1 ⟨[47, 97], c, c⟩ } [47, 97] 1 10).Filed [47, 97] 10 :=
    Sound.putNode_filed.mpr (.inl ⟨rfl, rfl⟩)
  have htwo := hput.step (.openNode 2 [47, 97] 2 true)
    ⟨rfl, Fresh.putNode _ _ _ (fun pl h => (by cases h)) (by decide), ?_⟩
    fun _ hnone => absurd hfiled (not_filed hnone)
  · rw [next_openNode_found hput.agreed.sound hfiled] at htwo
    have hlast := htwo.step (.putNode 2 [47, 97] 1 11) ⟨rfl, rfl⟩ trivial
    refine ⟨_, ?_, ?_, (one_node hlast).1 [47, 97] 10 11 ?_ ?_⟩
    · exact Sound.putNode_filed.mpr (.inr hfiled)
    · exact Sound.putNode_filed.mpr (.inl ⟨rfl, rfl⟩)
    · exact Sound.putNode_filed.mpr (.inr hfiled)
    · exact Sound.putNode_filed.mpr (.inl ⟨rfl, rfl⟩)
  · intro t path h
    change update (update initial.opened 1 (some ([47, 97], 1))) 1 none t = some (path, 2) at h
    rw [update_idem] at h
    by_cases ht : t = 1
    · subst ht
      rw [update_self] at h
      cases h
    · rw [update_of_ne ht] at h
      cases h

end OpenThreads

end EncFS
