import Silo.Harness.KinshipRuns

namespace Silo.Harness

open Silo.Core Silo.Lib Silo.Lib.TaskTree

namespace Session

variable {ctx : SessionCtx} {s t : Session} {a : AgentId}

theorem kept_returnStep {result : Except HarnessError TurnOutcome} (h : Kept s)
    (hphase : (s.agents a).phase = .returned result) : Kept (s.returnStep ctx a result) := by
  have hlife : (s.agents a).phase.life = .returned := by
    rw [hphase]
    rfl
  have hclosed : (s.agents a).phase.closed a = true := by
    rw [hphase]
    rfl
  unfold returnStep
  split
  · exact kept_completeStep h hphase
  · rename_i htop
    exact kept_follow h (same_setSignal s _) hlife hclosed htop _
  · rename_i htop _
    exact kept_follow h ((Local.refl s a).same rfl) hlife hclosed htop _

theorem kept_step {choice : Choice} (h : Kept s)
    (hlock : (s.agents a).phase.movesHandles = true → (s.agents a).aborted = false)
    (haborts : ∀ c, (s.agents a).phase.aborts choice.pick = some c →
      (s.agents c).phase.released = true)
    (hstep : s.step ctx a choice = some t) : Kept t := by
  have hrefl : Same s s := (Local.refl s a).same rfl
  rw [step] at hstep
  cases hphase : (s.agents a).phase with
  | head =>
      rw [hphase] at hstep
      cases hstep
      exact kept_follow h (same_setSignal s _) (by rw [hphase]; rfl) (by rw [hphase]; rfl)
        (h.top a (by rw [hphase]; rfl)) _
  | input =>
      rw [hphase] at hstep
      cases hstep
      have hfollow : ∀ {u}, Same s u → ∀ step, Kept (u.follow a step) := fun hu step =>
        kept_follow h hu (by rw [hphase]; rfl) (by rw [hphase]; rfl) (h.top a (by rw [hphase]; rfl)) step
      refine kept_orAbort fun s' hs => ⟨fun reason => ?_, ?_⟩
      · cases reason with
        | shutdown message => exact hfollow hs _
        | interrupted => exact kept_pend h hs
      · have hfreed := hs.trans (same_dropWait s' a)
        rw [inputReady]
        simp only
        split
        · exact hfollow (hfreed.trans (same_setSignal _ _)) _
        · exact hfollow hfreed _
        · exact kept_pend h hs
  | interrupting =>
      simp only [hphase] at hstep
      split at hstep <;> cases hstep
      · exact kept_follow h hrefl (by rw [hphase]; rfl) (by rw [hphase]; rfl)
          (h.top a (by rw [hphase]; rfl)) _
      · exact kept_pend h hrefl
  | driving stage tool =>
      rw [hphase] at hstep hlock
      exact kept_driveStep h hphase hlock hstep
  | cancelling result walk =>
      rw [hphase] at hstep hlock
      exact kept_cancelStep h hphase hlock haborts hstep
  | returned result =>
      rw [hphase] at hstep
      cases hstep
      exact kept_returnStep h hphase
  | finishing result =>
      rw [hphase] at hstep
      cases hstep
      exact kept_finish h hphase
  | unborn | «over» | completed | dropped =>
      rw [hphase] at hstep
      cases hstep

theorem kept_next {act : Act} (h : Kept s) (hd : s.disciplined act = true)
    (hnext : next ctx s act = some t) : Kept t := by
  cases act with
  | send command =>
      simp only [next] at hnext
      split at hnext <;> cases hnext
      exact (same_signal s _).kept h
  | hangUp | request =>
      cases hnext
      exact (same_signal s _).kept h
  | step a choice =>
      simp only [next] at hnext
      simp only [disciplined, Bool.and_eq_true, Bool.not_eq_true', Bool.and_eq_false_iff] at hd
      obtain ⟨hlock, haborts⟩ := hd
      split at hnext
      · cases hnext
      · refine kept_step h ?_ ?_ hnext
        · intro hmoves
          exact hlock.resolve_right (by simp [hmoves])
        · intro c hc
          rw [hc] at haborts
          simpa using haborts
  | drop a =>
      simp only [next] at hnext
      split at hnext
      · rename_i hcond
        cases hnext
        simp only [Bool.and_eq_true] at hcond
        exact kept_dropTask h hcond.1.1 hcond.2
      · cases hnext

theorem start_agents (a : AgentId) :
    (start.agents a = { unbornAgent with turn := TopLevel.turn 0, phase := .head } ∧ a < start.counter) ∨
      start.agents a = unbornAgent := by
  by_cases ha : a = topLevelAgentId
  · subst ha
    exact .inl ⟨rfl, Nat.one_pos⟩
  · exact .inr (by simp [start, ha])

theorem sound_start : start.tree.Sound := by
  have hlife : ∀ a, start.tree.life a = .returned ∨ start.tree.life a = .unborn := by
    intro a
    rw [life_eq]
    rcases start_agents a with ⟨heq, -⟩ | heq <;> rw [heq]
    · exact .inl rfl
    · exact .inr rfl
  have hnone : ∀ a, (start.tree.life a).held = none ∧ (start.tree.life a).frames = [] ∧
      (start.tree.life a).entering = none := by
    intro a
    rcases hlife a with heq | heq <;> rw [heq] <;> exact ⟨rfl, rfl, rfl⟩
  have hself : ∀ a, start.tree.parent a = none ∧ start.tree.aborted a = false := by
    intro a
    simp only [tree]
    rcases start_agents a with ⟨heq, -⟩ | heq <;> rw [heq] <;> exact ⟨rfl, rfl⟩
  constructor
  case owned =>
    intro b p _ hp
    rw [(hself b).1] at hp
    cases hp
  case kin =>
    rintro b p (hp | hh | ⟨t, f, hf, -⟩)
    · cases hp
    · rw [(hnone p).1] at hh
      cases hh
    · rw [(hnone t).2.1] at hf
      cases hf
  case chain =>
    intro t
    rw [(hnone t).2.1]
    exact trivial
  case entering_chain =>
    intro t e he
    rw [(hnone t).2.2] at he
    cases he
  case pool_open =>
    exact fun p hp => absurd rfl hp
  case pool_walked =>
    exact fun p hp => absurd rfl hp
  case frame_owner =>
    intro t f hf
    rw [(hnone t).2.1] at hf
    cases hf
  case aborted_released =>
    intro p _
    exact ⟨(hnone p).1, (hnone p).2.1⟩

theorem kept_start : Kept start := by
  have hspawning : ∀ a, (start.agents a).phase.spawning = none := by
    intro a
    rcases start_agents a with ⟨heq, -⟩ | heq <;> rw [heq] <;> rfl
  refine ⟨sound_start, ?_, ?_, ?_, ?_, ?_, fun a _ => rfl, ?_, ?_⟩
  · intro a
    rcases start_agents a with ⟨heq, -⟩ | heq <;> rw [heq] <;> rfl
  · intro a ha
    rcases start_agents a with ⟨-, hlt⟩ | heq
    · exact absurd hlt (Nat.not_lt.mpr ha)
    · rw [heq]
      rfl
  · intro a c hc
    rw [hspawning] at hc
    cases hc
  · intro a b c hc
    rw [hspawning] at hc
    cases hc
  · intro a stage tool pool _ _ hreg
    cases hreg
  · intro a _
    rcases start_agents a with ⟨heq, -⟩ | heq <;> rw [heq] <;> rfl
  · intro a ha
    rcases start_agents a with ⟨heq, -⟩ | heq <;> rw [heq] at ha <;> cases ha

theorem kept_of_reachable (h : (machine ctx).ReachableUnder (fun s act => s.disciplined act = true) s) :
    Kept s := by
  refine h.invariant ?_ fun hk hd hnext => kept_next hk hd hnext
  rintro _ rfl
  exact kept_start

/-- `b` is a descendant of `a`: a child, or a child of a descendant. -/
inductive Descendant (s : Session) : AgentId → AgentId → Prop
  | child {b a : AgentId} (h : (s.agents b).parent = some a) : Descendant s b a
  | further {b c a : AgentId} (h : (s.agents b).parent = some c) (hc : Descendant s c a) :
      Descendant s b a

/-- The handle of `b` is in the child registry, or in the hands of a task that
has not been dropped. -/
def Attached (s : Session) (b : AgentId) : Prop :=
  ∃ p, ∃ child : ChildHandle, child.id = b ∧ (child ∈ s.children p ∨ child ∈ (s.agents p).phase.held)

theorem Descendant.descends {b : AgentId} (h : Descendant s b a) : s.tree.Descends b a := by
  induction h with
  | child hp => exact .child hp
  | further hp _ ih => exact .further hp ih

theorem held_of_life {phase : Phase} {b : AgentId} (h : phase.life.held = some b) :
    ∃ child ∈ phase.held, child.id = b := by
  cases phase with
  | driving stage tool =>
      cases tool <;> simp_all [Phase.life, Life.held, ToolPc.held, Phase.held]
  | _ => cases h

theorem held_of_frames {phase : Phase} {b : AgentId} {f : TaskTree.Frame AgentId}
    (hf : f ∈ phase.life.frames) (hb : b ∈ f.handles) : ∃ child ∈ phase.held, child.id = b := by
  cases phase with
  | cancelling result walk =>
      obtain ⟨g, hg, rfl⟩ := List.mem_map.mp hf
      have hmem : b ∈ (g.rest ++ g.current.toList).map ChildHandle.id := by
        rw [List.map_append]
        simpa [TaskTree.Frame.handles, Frame.toTree] using hb
      obtain ⟨child, hc, hid⟩ := List.mem_map.mp hmem
      exact ⟨child, List.mem_flatMap.mpr ⟨g, hg, hc⟩, hid⟩
  | _ => cases hf

theorem attached_of_owned {b p : AgentId} (h : s.tree.Owned b p) : Attached s b := by
  rcases h with hpool | hheld | ⟨t, f, hf, -, hmem⟩
  · obtain ⟨child, hc, hid⟩ := List.mem_map.mp hpool
    exact ⟨p, child, hid, .inl hc⟩
  · rw [life_eq] at hheld
    obtain ⟨child, hc, hid⟩ := held_of_life hheld
    exact ⟨p, child, hid, .inr hc⟩
  · rw [life_eq] at hf
    obtain ⟨child, hc, hid⟩ := held_of_frames hf hmem
    exact ⟨t, child, hid, .inr hc⟩

theorem running_life (x : Agent) : x.phase.life.running = x.running := by
  rw [Agent.running]
  cases x.phase <;> rfl

theorem Kept.attached {b : AgentId} (h : Kept s) (hrun : (s.agents b).running = true)
    (hp : (s.agents b).parent ≠ none) : Attached s b := by
  obtain ⟨p, hparent⟩ := Option.ne_none_iff_exists'.mp hp
  exact attached_of_owned (h.sound.owned b p (by rw [life_eq, running_life]; exact hrun) hparent)

/-- In every run where no child is aborted with a child handle in its hands and
no aborted task moves one: when `drive` returns, no descendant is running, none
is left in the child registry, and every running subagent has its handle. -/
theorem no_subagent_outlives
    (h : (machine ctx).ReachableUnder (fun s act => s.disciplined act = true) s) :
    (∀ a result b, (s.agents a).phase = .returned result → Descendant s b a →
      (s.agents b).running = false ∧ ∀ p, ∀ child ∈ s.children p, child.id ≠ b) ∧
      ∀ b, (s.agents b).running = true → (s.agents b).parent ≠ none → Attached s b := by
  have hk := kept_of_reachable h
  constructor
  · intro a result b hphase hdesc
    have hquiet := hk.sound.quiet_of_returned (a := a) (by rw [life_eq, hphase]; rfl)
    have hgone := hk.sound.descendants_gone hquiet hdesc.descends
    refine ⟨?_, ?_⟩
    · rw [← running_life]
      exact hgone.1
    · rintro p child hc rfl
      have hmem : child.id ∈ s.tree.pool p := List.mem_map_of_mem hc
      have hparent : (s.agents child.id).parent = some p := (hk.sound.kin child.id p (.inl hmem)).1
      have hempty : s.tree.pool p = [] := by
        cases hdesc with
        | child hp =>
            rw [hparent] at hp
            cases hp
            exact hquiet.pool
        | further hp hc =>
            rw [hparent] at hp
            cases hp
            exact (hk.sound.descendants_gone hquiet hc.descends).2.pool
      rw [hempty] at hmem
      cases hmem
  · intro b hrun hp
    exact hk.attached hrun hp

def familyCtx : SessionCtx where
  backend := "mock"
  frontendKind := "headless"
  registry := ["Agent", "AwaitAgent"].map fun name => ⟨⟨name, "", .null, .both⟩, .harness⟩
  system := ""
  maxTokens := 100
  b64 := id

def goes (a : AgentId) : Act := .step a ⟨.pending, false, 0⟩

def hears (a : AgentId) (answer : Answer) : Act := .step a ⟨answer, false, 0⟩

def cancels (a child : AgentId) : Act := .step a ⟨.pending, false, child⟩

/-- `a` asks the model, which answers with a call of one of the agent tools. -/
def calls (a : AgentId) (name key value : String) : List Act :=
  [goes a, hears a (.completion (.ok ⟨[.toolUse "t" name (.object [(key, .string value)])], .toolUse, ⟨1, 1⟩⟩)),
   goes a]

def spawns (a : AgentId) : List Act := calls a "Agent" "prompt" "help" ++ [goes a, goes a, goes a]

def ends (a : AgentId) : List Act :=
  [goes a, hears a (.completion (.ok ⟨[.text "done"], .endTurn, ⟨1, 1⟩⟩))]

def prompted : List Act := [goes 0, hears 0 (.input (.ok "start"))]

def isReturned : Phase → Bool
  | .returned _ => true
  | _ => false

theorem exists_returned {phase : Phase} (h : isReturned phase = true) :
    ∃ result, phase = .returned result := by
  cases phase with
  | returned result => exact ⟨result, rfl⟩
  | _ => cases h

def oneChild : List Act :=
  prompted ++ spawns 0 ++ ends 0 ++ [goes 0, cancels 0 1, goes 0, .drop 1, goes 0, goes 0, goes 0]

theorem no_subagent_outlives_oneChild :
    ∃ s, (machine familyCtx).ReachableUnder (fun s act => s.disciplined act = true) s ∧
      (∃ result, (s.agents 0).phase = .returned result) ∧ (s.agents 1).parent = some 0 ∧
      (s.agents 1).running = false := by
  obtain ⟨s, hr, hp⟩ := Machine.exists_of_runChecked (M := machine familyCtx) disciplined oneChild
    (fun s => isReturned (s.agents 0).phase && decide ((s.agents 1).parent = some 0)) rfl
    rfl
  rw [Bool.and_eq_true, decide_eq_true_eq] at hp
  obtain ⟨result, hphase⟩ := exists_returned hp.1
  exact ⟨s, hr, ⟨result, hphase⟩, hp.2, ((no_subagent_outlives hr).1 0 result 1 hphase (.child hp.2)).1⟩

def awaitedGrandchild : List Act :=
  prompted ++ spawns 0 ++ spawns 1 ++ calls 1 "AwaitAgent" "agent" "agent-2" ++ [goes 1, goes 1, goes 1] ++
    ends 0 ++ [goes 0, cancels 0 1, goes 0, goes 0, .drop 1, goes 0, goes 0, goes 0]

theorem awaited_grandchild_outlives :
    ∃ s, (machine familyCtx).Reachable s ∧ ∃ result, (s.agents 0).phase = .returned result ∧
      Descendant s 2 0 ∧ (s.agents 2).running = true := by
  obtain ⟨s, hr, hp⟩ := Machine.exists_of_run (M := machine familyCtx) awaitedGrandchild
    (fun s => isReturned (s.agents 0).phase && decide ((s.agents 1).parent = some 0) &&
      decide ((s.agents 2).parent = some 1) && (s.agents 2).running) rfl rfl
  simp only [Bool.and_eq_true, decide_eq_true_eq] at hp
  obtain ⟨⟨⟨hret, h1⟩, h2⟩, hrun⟩ := hp
  obtain ⟨result, hphase⟩ := exists_returned hret
  exact ⟨s, hr, result, hphase, .further h2 (.child h1), hrun⟩

end Session

end Silo.Harness
