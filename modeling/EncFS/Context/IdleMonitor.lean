import EncFS.DirNode
import Mathlib.Data.Finset.Card
import Mathlib.Logic.Function.Basic

/-! The thread that unmounts an idle file system, and the requests that mount it again: every
interleaving of their sections. -/

set_option autoImplicit false

namespace EncFS

open Function

def ActivityCheckInterval : ℕ := 10

def timeoutCycles (idleTimeout : ℕ) : ℕ := 60 * idleTimeout / ActivityCheckInterval

/-- Where `idleMonitor` is. It has `wakeupMutex` from `looping` on, but not where it waits. -/
inductive MonitorPhase
  | starting
  | looping
  -- `ctx->running` was true
  | counting
  -- the usage counter was reset, and `isMounted` not asked
  | polled (usage : ℕ)
  -- there were idle cycles enough, and the open files were not counted
  | timedOut
  -- there were no open files
  | unmounting
  | timedWaiting
  | waiting
  | exited
  deriving DecidableEq

namespace MonitorPhase

def HoldsMutex : MonitorPhase → Prop
  | looping | counting | polled _ | timedOut | unmounting => True
  | starting | timedWaiting | waiting | exited => False

def Waits (phase : MonitorPhase) : Prop := phase = .timedWaiting ∨ phase = .waiting

instance (phase : MonitorPhase) : Decidable phase.Waits :=
  inferInstanceAs (Decidable (_ ∨ _))

def wake : MonitorPhase → MonitorPhase
  | timedWaiting => looping
  | waiting => exited
  | phase => phase

end MonitorPhase

inductive RequestPhase
  | outside
  | remounting
  -- it has mounted the file system, and takes the root again
  | remounted
  | serving (root : ℕ)
  deriving DecidableEq

structure MonitoredContext where
  root : Option ℕ
  usageCount : ℕ
  -- with the placeholders of each path
  openFiles : Finset (Bytes × ℕ)
  request : ℕ → RequestPhase
  running : Bool
  -- `encfs_destroy` has signalled `wakeupCond`
  signalled : Bool
  -- the signal has come while the monitor waited, and it was not woken yet
  released : Bool
  monitor : MonitorPhase
  idleCycles : ℕ

inductive MonitorEvent
  | getRoot (t : ℕ)
  | remount (t : ℕ) (root : Option ℕ)
  | putNode (t : ℕ) (path : Bytes) (pl : ℕ)
  | renameNode (t : ℕ) (fromP toP : Bytes)
  | finish (t : ℕ)
  | eraseNode (path : Bytes) (pl : ℕ)
  | lock
  | run
  | poll
  | isMounted
  | openFileCount
  | unmountFS
  -- the end of a wait without the signal
  | timeout
  | wake
  | exit
  | stop
  | signal
  deriving DecidableEq

namespace MonitoredContext

def initial (root : ℕ) : MonitoredContext where
  root := some root
  usageCount := 0
  openFiles := ∅
  request _ := .outside
  running := true
  signalled := false
  released := false
  monitor := .starting
  idleCycles := 0

variable (s : MonitoredContext)

def openFileCount : ℕ := (s.openFiles.image Prod.fst).card

def Enabled : MonitorEvent → Prop
  | .getRoot t => s.request t = .outside ∨ s.request t = .remounted
  | .remount t _ => s.request t = .remounting
  | .putNode t _ pl => (∃ root, s.request t = .serving root) ∧ ∀ path, (path, pl) ∉ s.openFiles
  | .renameNode t _ _ => ∃ root, s.request t = .serving root
  | .finish t => ∃ root, s.request t = .serving root
  | .eraseNode path pl => (path, pl) ∈ s.openFiles
  | .lock => s.monitor = .starting
  | .run => s.monitor = .looping ∧ s.running = true
  | .poll => s.monitor = .counting
  | .isMounted => ∃ usage, s.monitor = .polled usage
  | .openFileCount => s.monitor = .timedOut
  | .unmountFS => s.monitor = .unmounting
  | .timeout => s.monitor.Waits
  | .wake => s.monitor.Waits ∧ s.released = true
  | .exit => s.monitor = .looping ∧ s.running = false
  | .stop => s.running = true
  -- `encfs_destroy` locks `wakeupMutex`
  | .signal => s.running = false ∧ s.signalled = false ∧ ¬ s.monitor.HoldsMutex

def renamed (fromP toP : Bytes) (openFiles : Finset (Bytes × ℕ)) : Finset (Bytes × ℕ) :=
  if fromP ∈ openFiles.image Prod.fst then
    openFiles.filter (fun e => e.1 ≠ fromP ∧ e.1 ≠ toP) ∪
      (openFiles.filter (·.1 = fromP)).image fun e => (toP, e.2)
  else openFiles

variable (idleTimeout : ℕ) (mountOnDemand : Bool)

def counted (usage : ℕ) : MonitoredContext :=
  let idleCycles := if usage = 0 ∧ s.root.isSome then s.idleCycles + 1 else 0
  { s with
    idleCycles
    monitor := if timeoutCycles idleTimeout ≤ idleCycles then .timedOut else .timedWaiting }

def next : MonitorEvent → MonitoredContext
  | .getRoot t =>
    { s with
      usageCount := s.usageCount + 1
      request := update s.request t (match s.root with
        | none => .remounting
        | some root => .serving root) }
  | .remount t none => { s with request := update s.request t .outside }
  | .remount t (some root) =>
    { s with root := some root, request := update s.request t .remounted }
  | .putNode _ path pl => { s with openFiles := insert (path, pl) s.openFiles }
  | .renameNode _ fromP toP => { s with openFiles := renamed fromP toP s.openFiles }
  | .finish t => { s with request := update s.request t .outside }
  | .eraseNode path pl => { s with openFiles := s.openFiles.erase (path, pl) }
  | .lock => { s with monitor := .looping }
  | .run => { s with monitor := .counting }
  | .poll => { s with monitor := .polled s.usageCount, usageCount := 0 }
  | .isMounted =>
    match s.monitor with
    | .polled usage => s.counted idleTimeout usage
    | _ => s
  | .openFileCount =>
    { s with monitor := if s.openFileCount = 0 then .unmounting else .timedWaiting }
  | .unmountFS =>
    if mountOnDemand then { s with root := none, monitor := .timedWaiting }
    else { s with monitor := .waiting }
  | .timeout | .wake => { s with monitor := s.monitor.wake, released := false }
  | .exit => { s with monitor := .exited }
  | .stop => { s with running := false }
  | .signal => { s with signalled := true, released := decide s.monitor.Waits }

inductive Run (s₀ : MonitoredContext) : List MonitorEvent → MonitoredContext → Prop
  | nil : Run s₀ [] s₀
  | step {l : List MonitorEvent} {s : MonitoredContext} (e : MonitorEvent) : Run s₀ l s →
    s.Enabled e → Run s₀ (l ++ [e]) (s.next idleTimeout mountOnDemand e)

section Idle

def getRoots (l : List MonitorEvent) : ℕ :=
  l.countP fun e => e matches .getRoot _

@[simp] lemma getRoots_append (l l' : List MonitorEvent) :
    getRoots (l ++ l') = getRoots l + getRoots l' :=
  List.countP_append

def AtPoll (l : List MonitorEvent) : Prop :=
  l = [] ∨ ∃ l', l = l' ++ [.poll]

def IdleFor (n : ℕ) (l after : List MonitorEvent) : Prop :=
  ∃ before idle, l = before ++ idle ++ after ∧ AtPoll before ∧ AtPoll idle ∧
    idle.count .poll = n ∧ getRoots idle = 0

namespace IdleFor

variable {n : ℕ} {l mid after : List MonitorEvent}

lemma snoc (h : IdleFor n l after) (e : MonitorEvent) : IdleFor n (l ++ [e]) (after ++ [e]) := by
  obtain ⟨before, idle, rfl, hrest⟩ := h
  exact ⟨before, idle, List.append_assoc _ _ _, hrest⟩

lemma busy (l after : List MonitorEvent) : IdleFor 0 (l ++ .poll :: after) after :=
  ⟨l ++ [.poll], [], by simp, .inr ⟨l, rfl⟩, .inl rfl, rfl, rfl⟩

lemma poll (h : IdleFor n l (mid ++ .poll :: after)) (hpoll : .poll ∉ mid) (hmid : getRoots mid = 0) :
    IdleFor (n + 1) l after := by
  obtain ⟨before, idle, rfl, hbefore, hidle, hpolls, hquiet⟩ := h
  refine ⟨before, idle ++ mid ++ [.poll], by simp, hbefore, .inr ⟨_, rfl⟩, ?_, ?_⟩
  · rw [List.count_append, List.count_append, hpolls, List.count_eq_zero_of_not_mem hpoll]
    rfl
  · rw [getRoots_append, getRoots_append, hquiet, hmid]
    rfl

end IdleFor

def Counted (usageCount idleCycles : ℕ) (l : List MonitorEvent) : Option ℕ → Prop
  | none => ∃ after, IdleFor idleCycles l after ∧ .poll ∉ after ∧ getRoots after = usageCount
  | some usage => ∃ mid after, IdleFor idleCycles l (mid ++ .poll :: after) ∧ .poll ∉ mid ∧
      getRoots mid = usage ∧ .poll ∉ after ∧ getRoots after = usageCount

def usage : MonitorPhase → Option ℕ
  | .polled usage => some usage
  | _ => none

lemma usage_wake {phase : MonitorPhase} (h : phase.Waits) : usage phase.wake = usage phase := by
  rcases h with rfl | rfl <;> rfl

lemma Counted.snoc {usageCount idleCycles : ℕ} {l : List MonitorEvent} {u : Option ℕ}
    (h : Counted usageCount idleCycles l u) {e : MonitorEvent} (he : e ≠ .poll) :
    Counted (usageCount + getRoots [e]) idleCycles (l ++ [e]) u := by
  have hpoll {after : List MonitorEvent} (hafter : .poll ∉ after) : .poll ∉ after ++ [e] := by
    simp [hafter, he.symm]
  cases u with
  | none =>
    obtain ⟨after, hidle, hafter, rfl⟩ := h
    exact ⟨after ++ [e], hidle.snoc e, hpoll hafter, getRoots_append _ _⟩
  | some usage =>
    obtain ⟨mid, after, hidle, hmid, husage, hafter, rfl⟩ := h
    refine ⟨mid, after ++ [e], ?_, hmid, husage, hpoll hafter, getRoots_append _ _⟩
    have hsnoc := hidle.snoc e
    rwa [List.append_assoc] at hsnoc

variable {s idleTimeout mountOnDemand} {l : List MonitorEvent}

lemma counted_next (h : Counted s.usageCount s.idleCycles l (usage s.monitor)) {e : MonitorEvent}
    (hen : s.Enabled e) :
    Counted (s.next idleTimeout mountOnDemand e).usageCount
      (s.next idleTimeout mountOnDemand e).idleCycles (l ++ [e])
      (usage (s.next idleTimeout mountOnDemand e).monitor) := by
  have hsnoc (he : e ≠ .poll) := h.snoc he
  cases e with
  | poll =>
    have hphase : s.monitor = .counting := hen
    rw [hphase] at h
    obtain ⟨after, hidle, hafter, husage⟩ := h
    exact ⟨after, [], hidle.snoc _, hafter, husage, List.not_mem_nil, rfl⟩
  | isMounted =>
    obtain ⟨n, hn⟩ := hen
    have hmoved := hsnoc nofun
    rw [hn] at hmoved
    obtain ⟨mid, after, hidle, hmid, husage, hafter, hcount⟩ := hmoved
    simp only [next, hn, counted]
    by_cases hquiet : n = 0 ∧ s.root.isSome
    · rw [if_pos hquiet]
      have hlonger := hidle.poll hmid (husage.trans hquiet.1)
      split <;> exact ⟨after, hlonger, hafter, hcount⟩
    · rw [if_neg hquiet]
      have hzero : IdleFor 0 (l ++ [.isMounted]) after := by
        obtain ⟨before, idle, heq, -⟩ := hidle
        rw [heq, ← List.append_assoc]
        exact .busy _ after
      split <;> exact ⟨after, hzero, hafter, hcount⟩
  | getRoot t => exact hsnoc nofun
  | remount t root => cases root <;> exact hsnoc nofun
  | putNode t path pl => exact hsnoc nofun
  | renameNode t fromP toP => exact hsnoc nofun
  | finish t => exact hsnoc nofun
  | eraseNode path pl => exact hsnoc nofun
  | stop => exact hsnoc nofun
  | signal => exact hsnoc nofun
  | lock =>
    have hmoved := hsnoc nofun
    rw [hen] at hmoved
    exact hmoved
  | run =>
    have hmoved := hsnoc nofun
    rw [hen.1] at hmoved
    exact hmoved
  | openFileCount =>
    have hmoved := hsnoc nofun
    rw [hen] at hmoved
    simp only [next]
    split <;> exact hmoved
  | unmountFS =>
    have hmoved := hsnoc nofun
    rw [hen] at hmoved
    simp only [next]
    split <;> exact hmoved
  | timeout =>
    have hmoved := hsnoc nofun
    rwa [← usage_wake hen] at hmoved
  | wake =>
    have hmoved := hsnoc nofun
    rwa [← usage_wake hen.1] at hmoved
  | exit =>
    have hmoved := hsnoc nofun
    rw [hen.1] at hmoved
    exact hmoved

/-- The files in `openFiles` were all opened after the open files were counted, if under other
names. -/
def OpenedSince (openFiles : Finset (Bytes × ℕ)) (l : List MonitorEvent) : Prop :=
  ∃ before after, l = before ++ .openFileCount :: after ∧ .poll ∉ after ∧
    ∀ path pl, (path, pl) ∈ openFiles → ∃ t opened, .putNode t opened pl ∈ after

lemma OpenedSince.snoc {F F' : Finset (Bytes × ℕ)} (h : OpenedSince F l) {e : MonitorEvent}
    (he : e ≠ .poll)
    (hF : ∀ path pl, (path, pl) ∈ F' → (∃ path, (path, pl) ∈ F) ∨ ∃ t, e = .putNode t path pl) :
    OpenedSince F' (l ++ [e]) := by
  obtain ⟨before, after, rfl, hpoll, hopened⟩ := h
  refine ⟨before, after ++ [e], by simp, by simp [hpoll, he.symm], fun path pl hmem => ?_⟩
  rcases hF path pl hmem with ⟨path, hmem⟩ | ⟨t, rfl⟩
  · obtain ⟨t, opened, ht⟩ := hopened path pl hmem
    exact ⟨t, opened, List.mem_append_left _ ht⟩
  · exact ⟨t, path, List.mem_append_right _ List.mem_cons_self⟩

lemma exists_of_mem_renamed {fromP toP path : Bytes} {pl : ℕ} {F : Finset (Bytes × ℕ)}
    (h : (path, pl) ∈ renamed fromP toP F) : ∃ path, (path, pl) ∈ F := by
  rw [renamed] at h
  split at h
  · rcases Finset.mem_union.mp h with h | h
    · exact ⟨path, (Finset.mem_filter.mp h).1⟩
    · obtain ⟨e, he, heq⟩ := Finset.mem_image.mp h
      obtain ⟨-, rfl⟩ := Prod.mk.inj heq
      exact ⟨e.1, (Finset.mem_filter.mp he).1⟩
  · exact ⟨path, h⟩

structure Ready (idleTimeout : ℕ) (s : MonitoredContext) (l : List MonitorEvent) : Prop where
  timedOut : s.monitor = .timedOut ∨ s.monitor = .unmounting →
    timeoutCycles idleTimeout ≤ s.idleCycles
  opened : s.monitor = .unmounting → OpenedSince s.openFiles l

lemma Ready.frame (h : Ready idleTimeout s l) {s' : MonitoredContext} {e : MonitorEvent}
    (he : e ≠ .poll) (hmonitor : s'.monitor = s.monitor) (hidle : s'.idleCycles = s.idleCycles)
    (hF : ∀ path pl, (path, pl) ∈ s'.openFiles → (∃ path, (path, pl) ∈ s.openFiles) ∨
      ∃ t, e = .putNode t path pl) : Ready idleTimeout s' (l ++ [e]) where
  timedOut := by
    rw [hmonitor, hidle]
    exact h.timedOut
  opened := by
    rw [hmonitor]
    exact fun hphase => (h.opened hphase).snoc he hF

lemma Ready.elsewhere {s' : MonitoredContext} (h : s'.monitor ≠ .timedOut)
    (h' : s'.monitor ≠ .unmounting) : Ready idleTimeout s' l :=
  ⟨fun hphase => (hphase.elim h h').elim, fun hphase => (h' hphase).elim⟩

lemma ready_wake {s' : MonitoredContext} (hphase : s.monitor.Waits)
    (h : s'.monitor = s.monitor.wake) : Ready idleTimeout s' l := by
  rcases hphase with hphase | hphase <;> rw [hphase] at h <;>
    exact .elsewhere (by rw [h]; exact nofun) (by rw [h]; exact nofun)

lemma ready_next (h : Ready idleTimeout s l) {e : MonitorEvent} (hen : s.Enabled e) :
    Ready idleTimeout (s.next idleTimeout mountOnDemand e) (l ++ [e]) := by
  have hframe (he : e ≠ .poll) {s' : MonitoredContext} (hmonitor : s'.monitor = s.monitor)
      (hidle : s'.idleCycles = s.idleCycles) (hF : s'.openFiles = s.openFiles) :
      Ready idleTimeout s' (l ++ [e]) :=
    h.frame he hmonitor hidle fun path pl hmem => .inl ⟨path, hF ▸ hmem⟩
  cases e with
  | getRoot t => exact hframe nofun rfl rfl rfl
  | remount t root => cases root <;> exact hframe nofun rfl rfl rfl
  | finish t => exact hframe nofun rfl rfl rfl
  | stop => exact hframe nofun rfl rfl rfl
  | signal => exact hframe nofun rfl rfl rfl
  | putNode t path pl =>
    refine h.frame nofun rfl rfl fun path' pl' hmem => ?_
    rcases Finset.mem_insert.mp hmem with heq | hmem
    · obtain ⟨rfl, rfl⟩ := Prod.mk.inj heq
      exact .inr ⟨t, rfl⟩
    · exact .inl ⟨path', hmem⟩
  | renameNode t fromP toP =>
    exact h.frame nofun rfl rfl fun _ _ hmem => .inl (exists_of_mem_renamed hmem)
  | eraseNode path pl =>
    exact h.frame nofun rfl rfl fun path' _ hmem => .inl ⟨path', Finset.mem_of_mem_erase hmem⟩
  | lock => exact .elsewhere nofun nofun
  | run => exact .elsewhere nofun nofun
  | poll => exact .elsewhere nofun nofun
  | exit => exact .elsewhere nofun nofun
  | isMounted =>
    obtain ⟨n, hn⟩ := hen
    simp only [next, hn, counted]
    generalize (if n = 0 ∧ s.root.isSome then s.idleCycles + 1 else 0) = k
    by_cases hk : timeoutCycles idleTimeout ≤ k
    · rw [if_pos hk]
      exact ⟨fun _ => hk, nofun⟩
    · rw [if_neg hk]
      exact .elsewhere nofun nofun
  | openFileCount =>
    simp only [next]
    by_cases hnone : s.openFileCount = 0
    · rw [if_pos hnone]
      refine ⟨fun _ => h.timedOut (.inl hen), fun _ => ⟨l, [], rfl, List.not_mem_nil, ?_⟩⟩
      have hempty := Finset.image_eq_empty.mp (Finset.card_eq_zero.mp hnone)
      intro path pl hmem
      dsimp only at hmem
      rw [hempty] at hmem
      cases hmem
    · rw [if_neg hnone]
      exact .elsewhere nofun nofun
  | unmountFS =>
    simp only [next]
    split <;> exact .elsewhere nofun nofun
  | timeout => exact ready_wake hen rfl
  | wake => exact ready_wake hen.1 rfl

lemma run_counted {root : ℕ} (h : Run idleTimeout mountOnDemand (initial root) l s) :
    Counted s.usageCount s.idleCycles l (usage s.monitor) ∧ Ready idleTimeout s l := by
  induction h with
  | nil =>
    exact ⟨⟨[], ⟨[], [], rfl, .inl rfl, .inl rfl, rfl, rfl⟩, List.not_mem_nil, rfl⟩,
      .elsewhere nofun nofun⟩
  | step e _ hen ih => exact ⟨counted_next ih.1 hen, ready_next ih.2 hen⟩

/-- The file system is unmounted, or detached, only after idle cycles enough: a last part of the run
has as many polls as the timeout says, each after an interval without a request. The files that are
open then were all opened after the open files were counted. -/
theorem unmountFS_idle {root : ℕ} (h : Run idleTimeout mountOnDemand (initial root) l s)
    (hen : s.Enabled .unmountFS) :
    (∃ before idle after, l = before ++ idle ++ after ∧ AtPoll before ∧ AtPoll idle ∧
      timeoutCycles idleTimeout ≤ idle.count .poll ∧ getRoots idle = 0 ∧ .poll ∉ after) ∧
    OpenedSince s.openFiles l := by
  obtain ⟨hcounted, hready⟩ := run_counted h
  refine ⟨?_, hready.opened hen⟩
  rw [hen] at hcounted
  obtain ⟨after, ⟨before, idle, heq, hbefore, hidle, hpolls, hquiet⟩, hpoll, -⟩ := hcounted
  exact ⟨before, idle, after, heq, hbefore, hidle, hpolls ▸ hready.timedOut (.inr hen), hquiet, hpoll⟩

def idleTurn : List MonitorEvent := [.run, .poll, .isMounted, .timeout]

lemma idleTurn_run {s₀ : MonitoredContext} (h : Run idleTimeout mountOnDemand s₀ l s)
    (hphase : s.monitor = .looping) (hrunning : s.running = true) (husage : s.usageCount = 0)
    (hroot : s.root.isSome) (hcycles : s.idleCycles + 1 < timeoutCycles idleTimeout) :
    Run idleTimeout mountOnDemand s₀ (l ++ idleTurn)
      { s with idleCycles := s.idleCycles + 1, released := false } := by
  have hturn := h.step .run ⟨hphase, hrunning⟩ |>.step .poll rfl |>.step .isMounted ⟨_, rfl⟩
  simp only [next, counted, husage, hroot, and_self, if_true, if_neg (Nat.not_le.mpr hcycles)]
    at hturn
  have hend := hturn.step .timeout (.inl rfl)
  simp only [List.append_assoc, List.cons_append, List.nil_append] at hend
  simpa only [next, MonitorPhase.wake, ← hphase, ← husage, idleTurn] using hend

theorem unmountFS_idle_minute :
    let l : List MonitorEvent := [.getRoot 0, .putNode 0 [97] 1, .renameNode 0 [97] [98], .finish 0,
      .eraseNode [98] 1, .lock] ++ (List.replicate 6 idleTurn).flatten ++
        [.run, .poll, .isMounted, .openFileCount]
    ∃ before idle after, l = before ++ idle ++ after ∧ AtPoll before ∧ AtPoll idle ∧
      6 ≤ idle.count .poll ∧ getRoots idle = 0 ∧ .poll ∉ after := by
  have hused := (Run.nil : Run 1 true (initial 7) [] (initial 7))
    |>.step (.getRoot 0) (.inl rfl)
    |>.step (.putNode 0 [97] 1) ⟨⟨7, rfl⟩, fun _ => Finset.notMem_empty _⟩
    |>.step (.renameNode 0 [97] [98]) ⟨7, rfl⟩ |>.step (.finish 0) ⟨7, rfl⟩
    |>.step (.eraseNode [98] 1) (show ([98], 1) ∈ renamed [97] [98] {([97], 1)} by decide)
    |>.step .lock rfl |>.step .run ⟨rfl, rfl⟩ |>.step .poll rfl |>.step .isMounted ⟨_, rfl⟩
    |>.step .timeout (.inl rfl)
  have hidle := idleTurn_run hused rfl rfl rfl rfl (by decide)
    |> (idleTurn_run · rfl rfl rfl rfl (by decide)) |> (idleTurn_run · rfl rfl rfl rfl (by decide))
    |> (idleTurn_run · rfl rfl rfl rfl (by decide)) |> (idleTurn_run · rfl rfl rfl rfl (by decide))
  have hrun := hidle |>.step .run ⟨rfl, rfl⟩ |>.step .poll rfl |>.step .isMounted ⟨_, rfl⟩
    |>.step .openFileCount rfl
  exact (unmountFS_idle hrun rfl).1

end Idle

section Destroy

def remaining : MonitorPhase → ℕ
  | .counting => 6
  | .polled _ => 5
  | .timedOut => 4
  | .unmounting => 3
  | .timedWaiting => 2
  | .starting => 2
  | .waiting => 1
  | .looping => 1
  | .exited => 0

def distance (s : MonitoredContext) : ℕ :=
  remaining s.monitor + if s.signalled then 0 else 1

def OfMonitor : MonitorEvent → Bool
  | .lock | .run | .poll | .isMounted | .openFileCount | .unmountFS | .timeout | .wake | .exit => true
  | _ => false

/-- After the signal the monitor waits no more than until it is woken. -/
def Signalled (s : MonitoredContext) : Prop :=
  s.signalled = true → s.running = false ∧
    (s.monitor = .starting ∨ s.monitor = .looping ∨ s.monitor = .exited ∨
      s.monitor.Waits ∧ s.released = true)

variable {s idleTimeout mountOnDemand} {l : List MonitorEvent}

lemma remaining_wake {phase : MonitorPhase} (h : phase.Waits) :
    1 + remaining phase.wake = remaining phase := by
  rcases h with rfl | rfl <;> rfl

lemma Signalled.frame (h : s.Signalled) {s' : MonitoredContext} (hsignalled : s'.signalled = s.signalled)
    (hrunning : s.running = false → s'.running = false) (hmonitor : s'.monitor = s.monitor)
    (hreleased : s'.released = s.released) : s'.Signalled := by
  rw [Signalled, hsignalled, hmonitor, hreleased]
  exact fun hs => ⟨hrunning (h hs).1, (h hs).2⟩

lemma Signalled.elsewhere (h : s.Signalled) {s' : MonitoredContext}
    (hsignalled : s'.signalled = s.signalled) (hmutex : s.monitor.HoldsMutex)
    (hphase : s.monitor ≠ .looping) : s'.Signalled := by
  intro hs
  rw [hsignalled] at hs
  rcases (h hs).2 with hmonitor | hmonitor | hmonitor | ⟨hmonitor | hmonitor, -⟩
  · exact (hmonitor ▸ hmutex : MonitorPhase.starting.HoldsMutex).elim
  · exact absurd hmonitor hphase
  · exact (hmonitor ▸ hmutex : MonitorPhase.exited.HoldsMutex).elim
  · exact (hmonitor ▸ hmutex : MonitorPhase.timedWaiting.HoldsMutex).elim
  · exact (hmonitor ▸ hmutex : MonitorPhase.waiting.HoldsMutex).elim

lemma signalled_wake (h : s.Signalled) (hphase : s.monitor.Waits) :
    ({ s with monitor := s.monitor.wake, released := false } : MonitoredContext).Signalled := by
  intro hs
  refine ⟨(h hs).1, ?_⟩
  rcases hphase with hphase | hphase <;> simp [hphase, MonitorPhase.wake]

lemma signalled_next (h : s.Signalled) {e : MonitorEvent} (hen : s.Enabled e) :
    (s.next idleTimeout mountOnDemand e).Signalled := by
  cases e with
  | remount t root => cases root <;> exact h.frame rfl id rfl rfl
  | getRoot t => exact h.frame rfl id rfl rfl
  | putNode t path pl => exact h.frame rfl id rfl rfl
  | renameNode t fromP toP => exact h.frame rfl id rfl rfl
  | finish t => exact h.frame rfl id rfl rfl
  | eraseNode path pl => exact h.frame rfl id rfl rfl
  | stop => exact h.frame rfl (fun _ => rfl) rfl rfl
  | lock => exact fun hs => ⟨(h hs).1, .inr (.inl rfl)⟩
  | exit => exact fun hs => ⟨(h hs).1, .inr (.inr (.inl rfl))⟩
  | run =>
    intro hs
    have hstopped := (h hs).1
    rw [hen.2] at hstopped
    cases hstopped
  | poll =>
    have hphase : s.monitor = .counting := hen
    exact h.elsewhere rfl (hphase ▸ trivial) (by rw [hphase]; exact nofun)
  | isMounted =>
    obtain ⟨n, hn⟩ := hen
    refine h.elsewhere ?_ (hn ▸ trivial) (by rw [hn]; exact nofun)
    simp only [next, hn, counted]
  | openFileCount =>
    have hphase : s.monitor = .timedOut := hen
    exact h.elsewhere rfl (hphase ▸ trivial) (by rw [hphase]; exact nofun)
  | unmountFS =>
    have hphase : s.monitor = .unmounting := hen
    refine h.elsewhere ?_ (hphase ▸ trivial) (by rw [hphase]; exact nofun)
    simp only [next]
    split <;> rfl
  | timeout => exact signalled_wake h hen
  | wake => exact signalled_wake h hen.1
  | signal =>
    intro _
    refine ⟨hen.1, ?_⟩
    have hphase := hen.2.2
    simp only [next]
    cases hmonitor : s.monitor <;> rw [hmonitor] at hphase <;>
      simp_all [MonitorPhase.Waits, MonitorPhase.HoldsMutex]

variable (idleTimeout mountOnDemand) in
lemma remaining_next (hstopped : s.running = false) {e : MonitorEvent} (hen : s.Enabled e) :
    (s.next idleTimeout mountOnDemand e).running = false ∧
      (if OfMonitor e then 1 else 0) + remaining (s.next idleTimeout mountOnDemand e).monitor ≤
        remaining s.monitor := by
  cases e with
  | run =>
    have hrunning := hen.2
    rw [hstopped] at hrunning
    cases hrunning
  | stop =>
    have hrunning : s.running = true := hen
    rw [hstopped] at hrunning
    cases hrunning
  | poll =>
    have hphase : s.monitor = .counting := hen
    exact ⟨hstopped, by simp [next, remaining, OfMonitor, hphase]⟩
  | isMounted =>
    obtain ⟨n, hn⟩ := hen
    simp only [next, hn, counted]
    refine ⟨hstopped, ?_⟩
    generalize (if n = 0 ∧ s.root.isSome then s.idleCycles + 1 else 0) = k
    by_cases hk : timeoutCycles idleTimeout ≤ k
    · rw [if_pos hk]
      simp [remaining, OfMonitor]
    · rw [if_neg hk]
      simp [remaining, OfMonitor]
  | openFileCount =>
    have hphase : s.monitor = .timedOut := hen
    simp only [next, hphase]
    refine ⟨hstopped, ?_⟩
    by_cases hnone : s.openFileCount = 0
    · rw [if_pos hnone]
      simp [remaining, OfMonitor]
    · rw [if_neg hnone]
      simp [remaining, OfMonitor]
  | unmountFS =>
    have hphase : s.monitor = .unmounting := hen
    simp only [next, hphase]
    split <;> exact ⟨hstopped, by simp [remaining, OfMonitor]⟩
  | timeout => exact ⟨hstopped, (remaining_wake hen).le⟩
  | wake => exact ⟨hstopped, (remaining_wake hen.1).le⟩
  | exit => exact ⟨hstopped, by simp [next, remaining, OfMonitor, hen.1]⟩
  | lock =>
    have hphase : s.monitor = .starting := hen
    exact ⟨hstopped, by simp [next, remaining, OfMonitor, hphase]⟩
  | remount t root => cases root <;> exact ⟨hstopped, (Nat.zero_add _).le⟩
  | _ => exact ⟨hstopped, (Nat.zero_add _).le⟩

lemma run_signalled {root : ℕ} (h : Run idleTimeout mountOnDemand (initial root) l s) :
    s.Signalled := by
  induction h with
  | nil => exact nofun
  | step e _ hen ih => exact signalled_next ih hen

lemma remaining_run {s' : MonitoredContext} {es : List MonitorEvent} (hstopped : s.running = false)
    (h : Run idleTimeout mountOnDemand s es s') :
    s'.running = false ∧ es.countP OfMonitor + remaining s'.monitor ≤ remaining s.monitor := by
  induction h with
  | nil => exact ⟨hstopped, (Nat.zero_add _).le⟩
  | @step l s₁ e _ hen ih =>
    obtain ⟨hrunning, hnext⟩ := remaining_next idleTimeout mountOnDemand ih.1 hen
    refine ⟨hrunning, ?_⟩
    rw [List.countP_append, List.countP_singleton]
    omega

lemma signalled_next_le (e : MonitorEvent) :
    (if (s.next idleTimeout mountOnDemand e).signalled then 0 else 1) ≤
      if s.signalled then 0 else 1 := by
  cases e with
  | remount t root => cases root <;> exact le_rfl
  | isMounted => cases hphase : s.monitor <;> simp only [next, hphase] <;> exact le_rfl
  | unmountFS =>
    simp only [next]
    split <;> exact le_rfl
  | signal => exact Nat.zero_le _
  | _ => exact le_rfl

lemma progress (h : s.Signalled) (hstopped : s.running = false) (hexit : s.monitor ≠ .exited) :
    ∃ e, e ≠ .timeout ∧ s.Enabled e ∧
      distance (s.next idleTimeout mountOnDemand e) < distance s := by
  have hown {e : MonitorEvent} (he : e ≠ .timeout) (hof : OfMonitor e = true) (hen : s.Enabled e) :
      ∃ e, e ≠ .timeout ∧ s.Enabled e ∧
        distance (s.next idleTimeout mountOnDemand e) < distance s := by
    have hnext := (remaining_next idleTimeout mountOnDemand hstopped hen).2
    rw [if_pos hof] at hnext
    refine ⟨e, he, hen, ?_⟩
    have hsignalled : (if (s.next idleTimeout mountOnDemand e).signalled then 0 else 1) ≤
        if s.signalled then 0 else 1 := signalled_next_le e
    rw [distance, distance]
    omega
  have hwait (hwaits : s.monitor.Waits) : ∃ e, e ≠ .timeout ∧ s.Enabled e ∧
      distance (s.next idleTimeout mountOnDemand e) < distance s := by
    cases hs : s.signalled with
    | true =>
      refine hown (e := .wake) nofun rfl ⟨hwaits, ?_⟩
      rcases (h hs).2 with hphase | hphase | hphase | hphase
      · exact absurd (hphase ▸ hwaits) (by decide)
      · exact absurd (hphase ▸ hwaits) (by decide)
      · exact absurd hphase hexit
      · exact hphase.2
    | false =>
      refine ⟨.signal, nofun, ⟨hstopped, hs, ?_⟩, ?_⟩
      · rcases hwaits with hwaits | hwaits <;> rw [hwaits] <;> exact id
      · simp [distance, next, hs]
  cases hphase : s.monitor with
  | starting => exact hown (e := .lock) nofun rfl hphase
  | looping => exact hown (e := .exit) nofun rfl ⟨hphase, hstopped⟩
  | counting => exact hown (e := .poll) nofun rfl hphase
  | polled n => exact hown (e := .isMounted) nofun rfl ⟨n, hphase⟩
  | timedOut => exact hown (e := .openFileCount) nofun rfl hphase
  | unmounting => exact hown (e := .unmountFS) nofun rfl hphase
  | timedWaiting => exact hwait (.inl hphase)
  | waiting => exact hwait (.inr hphase)
  | exited => exact absurd hphase hexit

/-- `encfs_destroy` does not wait for ever: once it has stopped the monitor, that does six things at
most, whatever else goes on, and until it has exited there is always something to bring it there,
even if no wait ends by itself. After the signal it waits no more than until it is woken. -/
theorem destroy_joins {root : ℕ} (h : Run idleTimeout mountOnDemand (initial root) l s)
    (hstopped : s.running = false) :
    (∀ es s', Run idleTimeout mountOnDemand s es s' →
      es.countP OfMonitor + remaining s'.monitor ≤ remaining s.monitor) ∧
    (s.monitor ≠ .exited → ∃ e, e ≠ .timeout ∧ s.Enabled e ∧
      distance (s.next idleTimeout mountOnDemand e) < distance s) ∧
    (s.signalled = true → s.monitor.Waits → s.Enabled .wake) := by
  have hsignalled := run_signalled h
  refine ⟨fun es s' hrun => (remaining_run hstopped hrun).2, progress hsignalled hstopped,
    fun hs hwaits => ⟨hwaits, ?_⟩⟩
  rcases (hsignalled hs).2 with hphase | hphase | hphase | hphase
  · exact absurd (hphase ▸ hwaits) (by decide)
  · exact absurd (hphase ▸ hwaits) (by decide)
  · exact absurd (hphase ▸ hwaits) (by decide)
  · exact hphase.2

theorem destroy_joins_waiting :
    ∃ s, Run 1 false (initial 7) [.lock, .run, .poll, .isMounted, .stop, .signal] s ∧
      (∀ es s', Run 1 false s es s' → es.countP OfMonitor + remaining s'.monitor ≤ 2) ∧
      s.Enabled .wake := by
  have hrun := (Run.nil : Run 1 false (initial 7) [] (initial 7))
    |>.step .lock rfl |>.step .run ⟨rfl, rfl⟩ |>.step .poll rfl |>.step .isMounted ⟨_, rfl⟩
    |>.step .stop rfl |>.step .signal ⟨rfl, rfl, id⟩
  have hjoins := destroy_joins hrun rfl
  exact ⟨_, hrun, hjoins.1, hjoins.2.2 rfl (.inl rfl)⟩

end Destroy

end MonitoredContext

end EncFS
