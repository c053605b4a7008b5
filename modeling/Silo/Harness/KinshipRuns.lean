import Silo.Harness.KinshipChildren

namespace Silo.Harness

open Silo.Core Silo.Lib Silo.Lib.TaskTree

namespace Session

variable {ctx : SessionCtx} {s t : Session} {a : AgentId} {stage : Stage} {tool : ToolPc}

theorem kept_spawnEntry {child : ChildHandle} {prompt : String} {generation : Nat} (h : Kept s)
    (hphase : (s.agents a).phase = .driving stage tool) (hrun : ∃ r rs, stage = .running r rs)
    (hheld : tool.held = none) (hrx : tool.usesRx = false) (hl : Local { s with counter := s.counter + 1 } t a)
    (hphase' : (t.agents a).phase = .driving stage (.spawnEntry child prompt generation))
    (hchild : child.id = s.counter) : Kept t := by
  have hcase : ∀ b, b = a ∨ (b ≠ a ∧ t.agents b = s.agents b) := by
    intro b
    by_cases hb : b = a
    · exact .inl hb
    · exact .inr ⟨hb, hl.others b hb⟩
  have hcounter : t.counter = s.counter + 1 := hl.counter
  have hreg : t.registry = s.registry := hl.registry
  have hborn : (s.agents a).phase ≠ .unborn := by simp [hphase]
  have hcounterPhase : (t.agents s.counter).phase = .unborn := by
    rcases hcase s.counter with heq | ⟨-, heq⟩
    · exact absurd (h.fresh _ (Nat.le_refl _)) (by rw [heq]; exact hborn)
    · rw [heq]
      exact h.fresh _ (Nat.le_refl _)
  have hspawn : ∀ b c, (t.agents b).phase.spawning = some c →
      (b = a ∧ c = s.counter) ∨ (b ≠ a ∧ (s.agents b).phase.spawning = some c) := by
    intro b c hc
    rcases hcase b with rfl | ⟨hb, heq⟩
    · rw [hphase'] at hc
      cases hc
      exact .inl ⟨rfl, hchild⟩
    · rw [heq] at hc
      exact .inr ⟨hb, hc⟩
  constructor
  case sound =>
    have htree : t.tree = s.tree :=
      hl.tree_same (by rw [hphase', hphase, Phase.life, Phase.life, hheld]; rfl)
    rw [htree]
    exact h.sound
  case tools =>
    intro b
    rcases hcase b with rfl | ⟨-, heq⟩
    · obtain ⟨r, rs, rfl⟩ := hrun
      rw [hphase']
      rfl
    · rw [heq]
      exact h.tools b
  case fresh =>
    intro b hb
    rw [hcounter] at hb
    rcases hcase b with rfl | ⟨-, heq⟩
    · exact absurd (h.fresh b (by omega)) hborn
    · rw [heq]
      exact h.fresh b (by omega)
  case spawning =>
    intro b c hc
    rw [hcounter]
    rcases hspawn b c hc with ⟨-, rfl⟩ | ⟨-, hc'⟩
    · exact ⟨hcounterPhase, Nat.lt_succ_self _⟩
    · obtain ⟨hu, hlt⟩ := h.spawning b c hc'
      refine ⟨?_, Nat.lt_succ_of_lt hlt⟩
      rcases hcase c with rfl | ⟨-, heq⟩
      · exact absurd hu hborn
      · rw [heq]
        exact hu
  case spawnOnce =>
    intro b b' c hb hb'
    rcases hspawn b c hb with ⟨rfl, rfl⟩ | ⟨-, hc⟩ <;> rcases hspawn b' _ hb' with ⟨rfl, hc'⟩ | ⟨-, hc'⟩
    · rfl
    · exact absurd (h.spawning b' _ hc').2 (Nat.lt_irrefl _)
    · exact absurd (h.spawning b _ hc).2 (by rw [hc']; exact Nat.lt_irrefl _)
    · exact h.spawnOnce b b' c hc hc'
  case doneRx =>
    intro b st tl pool hp huses hpool
    rw [hreg] at hpool
    rcases hcase b with rfl | ⟨-, heq⟩
    · exact h.doneRx b stage tool pool hphase hrx hpool
    · rw [heq] at hp
      exact h.doneRx b st tl pool hp huses hpool
  case closed =>
    intro b hclosed
    rw [hreg]
    rcases hcase b with rfl | ⟨-, heq⟩
    · rw [hphase'] at hclosed
      cases hclosed
    · rw [heq] at hclosed
      exact h.closed b hclosed
  case top =>
    intro b htop
    rcases hcase b with rfl | ⟨-, heq⟩
    · rw [hphase'] at htop
      cases htop
    · rw [heq] at htop ⊢
      exact h.top b htop
  case child =>
    intro b hab
    rcases hcase b with rfl | ⟨-, heq⟩
    · rw [hl.aborted] at hab
      rw [hl.parent]
      exact h.child b hab
    · rw [heq] at hab ⊢
      exact h.child b hab

theorem kept_runAgentTool {call : ToolCall} (h : Kept s)
    (hphase : (s.agents a).phase = .driving stage tool) (hrun : ∃ r rs, stage = .running r rs)
    (hheld : tool.held = none) (hrx : tool.usesRx = false) : Kept (s.runAgentTool a stage call) := by
  have hrefl : Same s s := (Local.refl s a).same rfl
  have hends := kept_toolEnds h hphase hrun hheld hrx hrefl
  rw [runAgentTool]
  simp only
  split
  · exact hends _
  · split
    · exact hends _
    · split
      · exact hends _
      · refine kept_spawnEntry h hphase hrun hheld hrx ⟨?_, ?_, ?_, rfl, rfl⟩ (toTool_phase _ _ _ _) rfl
        · intro b hb
          simp [toTool, goto, setAgent, record, hb]
        · simp [toTool, goto, setAgent, record]
        · simp [toTool, goto, setAgent, record]

theorem kept_startTool {call : ToolCall} (h : Kept s)
    (hphase : (s.agents a).phase = .driving stage tool) (hrun : ∃ r rs, stage = .running r rs)
    (hheld : tool.held = none) (hrx : tool.usesRx = false) : Kept (s.startTool ctx a stage call) := by
  have hrefl : Same s s := (Local.refl s a).same rfl
  have hplace : ∀ {tool'}, tool'.held = none → tool'.spawning = none → Kept (s.toTool a stage tool') :=
    fun hheld' hspawn => kept_place h hrefl hphase hrun hheld hrx hheld' hspawn
  rw [startTool]
  split
  · exact hplace rfl rfl
  · split
    · exact hplace rfl rfl
    · exact hplace rfl rfl
  · split
    · split
      · exact hplace rfl rfl
      · exact hplace rfl rfl
    · exact kept_runAgentTool h hphase hrun hheld hrx
  · exact kept_toolEnds h hphase hrun hheld hrx hrefl _

theorem kept_checkpointStep (h : Kept s) (hphase : (s.agents a).phase = .driving stage tool)
    (hheld : tool.held = none) (hrx : tool.usesRx = false)
    (hstep : s.checkpointStep ctx a stage = some t) : Kept t := by
  rw [checkpointStep] at hstep
  simp only at hstep
  obtain ⟨step, -, rfl⟩ := Option.map_eq_some_iff.mp hstep
  have hsame := same_setSignal s (s.signal.checkpoint (s.turn a).generation).1
  have hadv := kept_advance (hsame.kept h) (hsame.phase_eq hphase) hheld hrx step
  split
  · rename_i r rs call hstage _
    have hidle := advance_phase (s.setSignal (s.signal.checkpoint (s.turn a).generation).1) a step
    rw [hstage] at hidle ⊢
    exact kept_startTool hadv hidle ⟨r, rs, rfl⟩ rfl rfl
  · exact hadv

theorem kept_driveStep {choice : Choice} (h : Kept s) (hphase : (s.agents a).phase = .driving stage tool)
    (hlock : tool.movesHandles = true → (s.agents a).aborted = false)
    (hstep : s.driveStep ctx a stage choice tool = some t) : Kept t := by
  have hidle : (∀ r rs, stage ≠ .running r rs) → tool = .idle := by
    intro hrun
    have hok := h.tools a
    rw [hphase] at hok
    cases stage with
    | running r rs => exact absurd rfl (hrun r rs)
    | top | asking | calling | ended => cases tool <;> first | rfl | cases hok
  cases stage with
  | top =>
      cases hidle (by simp)
      exact kept_checkpointStep h hphase rfl rfl hstep
  | calling response results =>
      cases hidle (by simp)
      exact kept_checkpointStep h hphase rfl rfl hstep
  | asking =>
      cases hidle (by simp)
      simp only [driveStep, Option.some.injEq] at hstep
      subst hstep
      refine kept_orAbort fun s' hs => ⟨fun reason => ?_, ?_⟩
      · exact kept_advance (hs.kept h) (hs.phase_eq hphase) rfl rfl _
      · rw [completionReady]
        split
        · have hs' := hs.trans (same_dropWait s' a)
          exact kept_advance (hs'.kept h) (hs'.phase_eq hphase) rfl rfl _
        · exact kept_pend h hs
  | running response results =>
      simp only [driveStep] at hstep
      obtain ⟨call, -, hcall⟩ := Option.bind_eq_some_iff.mp hstep
      split at hcall
      · cases hcall
        exact kept_advance h hphase rfl rfl _
      · rcases Option.or_eq_some_iff.mp hcall with hout | ⟨-, hchild⟩
        · exact kept_outsideStep h hphase ⟨_, _, rfl⟩ hout
        · exact kept_childStep h hphase ⟨_, _, rfl⟩ hlock hchild
  | ended result => cases hstep

theorem gone_of_finished {c : AgentId} (hfin : (s.agents c).finished = true) :
    (s.agents c).phase.life = .gone := by
  rw [Agent.finished] at hfin
  split at hfin
  · rename_i heq
    rw [heq]
    rfl
  · rename_i heq
    rw [heq]
    rfl
  · cases hfin

theorem released_of (phase : Phase) (h : phase.released = true) : phase.life.Released := by
  cases phase with
  | driving stage tool => exact ⟨Option.isNone_iff_eq_none.mp h, rfl⟩
  | cancelling result walk =>
      refine ⟨rfl, ?_⟩
      rw [Phase.released, List.isEmpty_iff] at h
      simp [Phase.life, Life.frames, h]
  | _ => exact ⟨rfl, rfl⟩

theorem tree_abortTask (s : Session) (c : AgentId) : (s.abortTask c).tree = s.tree.abort c := by
  have hagents : ∀ b, ((s.abortTask c).agents b).parent = (s.agents b).parent ∧
      ((s.abortTask c).agents b).phase = (s.agents b).phase ∧
      ((s.abortTask c).agents b).aborted = Function.update s.tree.aborted c true b := by
    intro b
    by_cases hb : b = c
    · subst hb
      simp [abortTask, setAgent]
    · simp [abortTask, setAgent, hb, tree]
  simp only [tree, Tree.abort, Tree.mk.injEq]
  refine ⟨?_, ?_, ?_, rfl⟩
  · funext b
    exact (hagents b).1
  · funext b
    rw [(hagents b).2.1]
  · funext b
    exact (hagents b).2.2

theorem tree_takePool (s : Session) (e : AgentId) : (s.setPool e none).tree = s.tree.setPool e [] := by
  simp only [tree, Tree.setPool, Tree.mk.injEq, setPool_children, Option.map_none, Option.getD_none]
  refine ⟨rfl, rfl, rfl, ?_⟩
  funext b
  by_cases hb : b = e
  · subst hb
    simp
  · simp [hb]

section Walk

variable {result : Except HarnessError TurnOutcome} {walk walk' : Walk}

/-- The walk goes on, having perhaps taken a pool away or aborted a child. -/
theorem kept_walk (h : Kept s) (hphase : (s.agents a).phase = .cancelling result walk)
    (hphase' : (t.agents a).phase = .cancelling result walk') (hm : Moved s t a)
    (hpool : t.registry a = s.registry a ∨ t.registry a = none)
    (hown : walk.entering = some a → walk'.entering ≠ some a → t.registry a = none)
    (hmoves : s.tree.Step t.tree) : Kept t := by
  refine kept_moved h hm ⟨by simp [hphase], by rw [hphase']; rfl, by rw [hphase']; rfl, ?_, ?_, ?_,
    .inr hmoves⟩
  · simp [hphase']
  · intro hclosed
    rw [hphase', Phase.closed, decide_eq_true_eq] at hclosed
    by_cases hw : walk.entering = some a
    · exact hown hw hclosed
    · rcases hpool with heq | hnone
      · rw [heq]
        exact h.closed a (by rw [hphase, Phase.closed, decide_eq_true_eq]; exact hw)
      · exact hnone
  · simp [hphase', Phase.topLevel]

theorem kept_enter {e : AgentId} {frames : List Frame} {pool : ChildPool} (h : Kept s)
    (hphase : (s.agents a).phase = .cancelling result ⟨some e, frames⟩)
    (hn : (s.agents a).aborted = false) (hreg : s.registry e = some pool) :
    Kept ((s.setPool e none).goto a
      (.cancelling result ⟨none, ⟨e, pool.children, none, 0, pool.chan⟩ :: frames⟩)) := by
  set walk' : Walk := ⟨none, ⟨e, pool.children, none, 0, pool.chan⟩ :: frames⟩ with hw
  have hl := local_goto (s.setPool e none) a (.cancelling result walk')
  have hregistry : ∀ b, ((s.setPool e none).goto a (.cancelling result walk')).registry b = s.registry b ∨
      ((s.setPool e none).goto a (.cancelling result walk')).registry b = none := by
    intro b
    by_cases hb : b = e
    · exact .inr (by simp [goto, setAgent, setPool, hb])
    · exact .inl (by simp [goto, setAgent, setPool, hb])
  have hm : Moved s ((s.setPool e none).goto a (.cancelling result walk')) a :=
    { hl.near.moved with pools := fun b _ => hregistry b }
  apply kept_walk h hphase (goto_phase _ _ _) hm (hregistry a)
  · intro hea _
    cases hea
    simp [goto, setAgent, setPool]
  · rw [hl.tree_eq, tree_takePool, goto_phase]
    have hpool := tree_pool_eq hreg
    have hstep := Tree.Step.enter (s := s.tree) (t := a) (e := e) (by rw [life_eq, hphase]; rfl) hn
    rw [hpool] at hstep
    exact hstep

theorem kept_pick {o : AgentId} {rest : List ChildHandle} {cancelled chan : Nat} {frames : List Frame}
    {child : ChildHandle} (h : Kept s)
    (hphase : (s.agents a).phase = .cancelling result ⟨none, ⟨o, rest, none, cancelled, chan⟩ :: frames⟩)
    (hmem : child ∈ rest) (hr : (s.agents child.id).phase.released = true) :
    Kept ((s.abortTask child.id).goto a (.cancelling result
      ⟨some child.id, ⟨o, rest.filter fun c => c.id ≠ child.id, some child, cancelled, chan⟩ :: frames⟩)) := by
  set walk' : Walk :=
    ⟨some child.id, ⟨o, rest.filter fun c => c.id ≠ child.id, some child, cancelled, chan⟩ :: frames⟩
  have hlife : s.tree.life a =
      .walking none (⟨o, rest.map ChildHandle.id, none⟩ :: frames.map Frame.toTree) := by
    rw [life_eq, hphase]
    rfl
  have hl := local_goto (s.abortTask child.id) a (.cancelling result walk')
  have hparent : (s.agents child.id).parent = some o := by
    refine (h.sound.kin child.id o (.inr (.inr ⟨a, ⟨o, rest.map ChildHandle.id, none⟩, ?_, rfl, ?_⟩))).1
    · rw [hlife]
      exact List.mem_cons_self ..
    · exact List.mem_append_left _ (List.mem_map_of_mem hmem)
  have hm : Moved s ((s.abortTask child.id).goto a (.cancelling result walk')) a := by
    refine ⟨?_, ?_, ?_, fun b _ => .inl rfl, rfl⟩
    · intro b hb
      by_cases hc : b = child.id
      · subst hc
        simp [goto, abortTask, setAgent, hb]
      · simp [goto, abortTask, setAgent, hb, hc]
    · intro b
      have hb : ((s.abortTask child.id).agents b).parent = (s.agents b).parent := by
        by_cases hc : b = child.id
        · subst hc
          simp [abortTask, setAgent]
        · simp [abortTask, setAgent, hc]
      exact (hl.near.moved.parent b).trans hb
    · intro b hab
      by_cases hc : b = child.id
      · right
        rw [hc, hparent]
        simp
      · left
        by_cases hb : b = a
        · subst hb
          simpa [goto, abortTask, setAgent, hc] using hab
        · simpa [goto, abortTask, setAgent, hb, hc] using hab
  apply kept_walk h hphase (goto_phase _ _ _) hm (.inl rfl) (by simp)
  rw [hl.tree_eq, tree_abortTask, goto_phase]
  apply Tree.Step.pick hlife (List.mem_map_of_mem hmem)
  · intro b hb
    obtain ⟨c, hc, rfl⟩ := List.mem_map.mp hb
    by_cases heq : c.id = child.id
    · exact .inl heq
    · exact .inr (List.mem_map_of_mem (List.mem_filter.mpr ⟨hc, by simpa using heq⟩))
  · intro b hb
    obtain ⟨c, hc, rfl⟩ := List.mem_map.mp hb
    exact List.mem_map_of_mem (List.mem_of_mem_filter hc)
  · exact released_of _ hr

theorem kept_turn (h : Kept s) (hs : Same s t) (hphase : (s.agents a).phase = .cancelling result walk)
    (hown : walk.entering = some a → walk'.entering ≠ some a → s.registry a = none)
    (hmoves : s.tree.Step (s.tree.setLife a (Phase.cancelling result walk').life)) :
    Kept (t.goto a (.cancelling result walk')) := by
  have hl := local_goto t a (.cancelling result walk')
  refine kept_walk (hs.kept h) (hs.phase_eq hphase) (goto_phase _ _ _) hl.near.moved
    (.inl (by rw [hl.registry])) ?_ ?_
  · intro hw hw'
    rw [hl.registry, hs.registry]
    exact hown hw hw'
  · rw [hl.tree_eq, goto_phase, hs.tree_eq]
    exact hmoves

theorem same_reaped (s : Session) (c : AgentId) (records : List Record) (permits : Nat) :
    Same s (({ s with permits := permits }.record records).setAgent c { s.agents c with emitted := true }) := by
  refine ⟨?_, ?_, ?_, rfl, rfl⟩
  all_goals
    intro b
    by_cases hb : b = c
    · subst hb
      simp [record, setAgent]
    · simp [record, setAgent, hb]

theorem kept_cancelStep {choice : Choice} (h : Kept s)
    (hphase : (s.agents a).phase = .cancelling result walk)
    (hlock : walk.entering.isSome = true → (s.agents a).aborted = false)
    (haborts : ∀ c, (s.agents a).phase.aborts choice.pick = some c →
      (s.agents c).phase.released = true)
    (hstep : s.cancelStep a choice result walk = some t) : Kept t := by
  have hrefl : Same s s := (Local.refl s a).same rfl
  have hlife : s.tree.life a = .walking walk.entering (walk.frames.map Frame.toTree) := by
    rw [life_eq, hphase]
    rfl
  obtain ⟨entering, frames⟩ := walk
  cases entering with
  | some e =>
      simp only [cancelStep] at hstep
      cases hreg : s.registry e with
      | none =>
          rw [hreg] at hstep
          cases hstep
          refine kept_turn h hrefl hphase ?_ (.enterNone hlife (hlock rfl) (by simp [tree, children, hreg]))
          rintro heq -
          cases heq
          exact hreg
      | some pool =>
          rw [hreg] at hstep
          cases hstep
          exact kept_enter h hphase (hlock rfl) hreg
  | none =>
      cases frames with
      | nil =>
          simp only [cancelStep, Option.some.injEq] at hstep
          subst hstep
          have hl := local_goto s a (.returned result)
          have hclosed : s.registry a = none := h.closed a (by rw [hphase]; rfl)
          refine kept_near h hl.near ⟨by simp [hphase], by simp [Phase.toolOk], by simp [Phase.spawning],
            by simp, fun _ => hclosed, by simp [Phase.topLevel], .inr ?_⟩
          rw [hl.tree_eq, goto_phase]
          exact .finish hlife
      | cons f frames =>
          obtain ⟨o, rest, current, cancelled, chan⟩ := f
          cases current with
          | some child =>
              simp only [cancelStep] at hstep
              split at hstep <;> cases hstep
              · rename_i hfin
                apply kept_turn h (same_reaped s child.id _ _) hphase (by simp)
                exact .reap hlife (by rw [life_eq]; exact gone_of_finished hfin)
              · exact kept_pend h hrefl
          | none =>
              simp only [cancelStep] at hstep
              split at hstep
              · rename_i hempty
                cases hstep
                rw [List.isEmpty_iff.mp hempty] at hlife
                exact kept_turn h (same_record s _) hphase (by simp) (.pop hlife)
              · obtain ⟨child, hfind, rfl⟩ := Option.map_eq_some_iff.mp hstep
                refine kept_pick h hphase (List.mem_of_find?_eq_some hfind) (haborts child.id ?_)
                rw [hphase]
                simp [Phase.aborts, hfind]

end Walk

theorem kept_completeStep {result : Except HarnessError TurnOutcome} (h : Kept s)
    (hphase : (s.agents a).phase = .returned result) : Kept (s.completeStep a result) := by
  have hl : Local s (s.completeStep a result) a := by
    refine ⟨fun b hb => ?_, ?_, ?_, rfl, rfl⟩ <;> simp [completeStep, record, setAgent, *]
  have hphase' : ((s.completeStep a result).agents a).phase = .finishing (childResultOf result) := by
    simp [completeStep, record, setAgent]
  have hclosed : (s.agents a).phase.closed a = true := by
    rw [hphase]
    rfl
  refine kept_near h hl.near ⟨by simp [hphase], by rw [hphase']; rfl, by rw [hphase']; rfl,
    by simp [hphase'], ?_, by simp [hphase', Phase.topLevel], .inl ?_⟩
  · intro _
    rw [hl.registry]
    exact h.closed a hclosed
  · apply hl.tree_same
    rw [hphase', hphase]
    rfl

theorem kept_finish {result : ChildResult} (h : Kept s)
    (hphase : (s.agents a).phase = .finishing result) : Kept (s.goto a (.completed result)) := by
  have hl := local_goto s a (.completed result)
  have hphase' := goto_phase s a (.completed result)
  refine kept_near h hl.near ⟨by simp [hphase], by rw [hphase']; rfl, by rw [hphase']; rfl,
    by simp, by simp [Phase.closed, Phase.topLevel], by simp [Phase.topLevel], .inr ?_⟩
  rw [hl.tree_eq, hphase']
  refine .complete ?_
  rw [life_eq, hphase]
  rfl

theorem kept_follow (h : Kept s) (hs : Same s t) (hlife : (s.agents a).phase.life = .returned)
    (hclosed : (s.agents a).phase.closed a = true) (htop : (s.agents a).parent = none)
    (step : TopLevel × List Record) : Kept (t.follow a step) := by
  have ht := hs.kept h
  have hl := local_follow t a step
  have hlife' : t.tree.life a = .returned := by rw [life_eq, hs.phase, hlife]
  have hreg : (t.follow a step).registry a = none := by
    rw [hl.registry, hs.registry]
    exact h.closed a hclosed
  have haborted : t.tree.aborted a = false := by
    by_contra hab
    rw [Bool.not_eq_false] at hab
    exact ht.child a hab (by rw [hs.parent, htop])
  have hborn : (t.agents a).phase ≠ .unborn := by
    intro hu
    rw [life_eq, hu] at hlife'
    cases hlife'
  have hphase : ((t.follow a step).agents a).phase.topLevel = true ∨
      ∃ stage, ((t.follow a step).agents a).phase = .driving stage .idle := by
    simp only [follow, record, setAgent, Function.update_self]
    split
    · exact .inl rfl
    · exact .inl rfl
    · exact .inr ⟨_, rfl⟩
    · exact .inl rfl
    · exact .inl rfl
  have hnone : ∀ stage tool pool, ((t.follow a step).agents a).phase = .driving stage tool →
      tool.usesRx = false → (t.follow a step).registry a = some pool → pool.doneRx.isSome = true := by
    intro stage tool pool _ _ hpool
    rw [hreg] at hpool
    cases hpool
  have htop' : ((t.follow a step).agents a).phase.topLevel = true → (t.agents a).parent = none :=
    fun _ => by rw [hs.parent, htop]
  rcases hphase with htl | ⟨stage, hdriving⟩
  · refine kept_near ht hl.near ⟨hborn, ?_, ?_, hnone, fun _ => hreg, htop', .inl ?_⟩
    · cases hp : ((t.follow a step).agents a).phase <;> rw [hp] at htl <;> first | rfl | cases htl
    · cases hp : ((t.follow a step).agents a).phase <;> rw [hp] at htl <;> first | rfl | cases htl
    · apply hl.tree_same
      rw [hs.phase, hlife]
      cases hp : ((t.follow a step).agents a).phase <;> rw [hp] at htl <;> first | rfl | cases htl
  · refine kept_near ht hl.near ⟨hborn, ?_, ?_, hnone, fun _ => hreg, htop', .inr ?_⟩
    · rw [hdriving]
      cases stage <;> rfl
    · rw [hdriving]
      rfl
    · rw [hl.tree_eq, hdriving]
      exact .begin hlife' haborted

theorem kept_dropTask (h : Kept s) (haborted : (s.agents a).aborted = true)
    (hrunning : (s.agents a).running = true) : Kept (s.dropTask a) := by
  have hl : Local s (s.dropTask a) a := by
    refine ⟨fun b hb => ?_, ?_, ?_, rfl, rfl⟩ <;> simp [dropTask, setAgent, *]
  have hphase' : ((s.dropTask a).agents a).phase = .dropped := by simp [dropTask, setAgent]
  have hlife : (s.tree.life a).running = true := by
    rw [life_eq]
    rw [Agent.running] at hrunning
    cases hp : (s.agents a).phase <;> rw [hp] at hrunning <;> first | rfl | cases hrunning
  have hborn : (s.agents a).phase ≠ .unborn := by
    intro hu
    rw [life_eq, hu] at hlife
    cases hlife
  refine kept_near h hl.near ⟨hborn, by rw [hphase']; rfl, by rw [hphase']; rfl,
    by simp [hphase'], by simp [hphase', Phase.closed, Phase.topLevel],
    by simp [hphase', Phase.topLevel], .inr ?_⟩
  rw [hl.tree_eq, hphase']
  exact .drop haborted hlife

end Session

end Silo.Harness
