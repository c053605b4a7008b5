import Silo.Harness.Discipline

namespace Silo.Harness

open Silo.Core Silo.Lib Silo.Lib.TaskTree

namespace Session

variable {ctx : SessionCtx} {s t : Session} {a : AgentId} {stage : Stage} {tool : ToolPc}

theorem orAbort_cases (s : Session) (a : AgentId) (kind : WaitKind) (choice : Choice)
    (onAbort : Session → AbortReason → Session) (other : Session → Session) :
    ∃ s', Same s s' ∧
      ((∃ reason, s.orAbort a kind choice onAbort other = onAbort s' reason) ∨
        s.orAbort a kind choice onAbort other = other s') := by
  refine ⟨_, same_pollWait s a kind choice.command, ?_⟩
  rw [orAbort]
  split
  · rename_i s' reason heq
    rw [heq]
    exact .inl ⟨reason, rfl⟩
  · rename_i s' heq
    rw [heq]
    exact .inr rfl

theorem Same.phase_eq (h : Same s t) {phase : Phase} (hp : (s.agents a).phase = phase) :
    (t.agents a).phase = phase := (h.phase a).trans hp

/-- A tool call without a child handle ends, or goes on to such a place. -/
theorem kept_place {tool' : ToolPc} (h : Kept s) (hs : Same s t)
    (hphase : (s.agents a).phase = .driving stage tool) (hrun : ∃ r rs, stage = .running r rs)
    (hheld : tool.held = none) (hrx : tool.usesRx = false) (hheld' : tool'.held = none)
    (hspawn : tool'.spawning = none) : Kept (t.toTool a stage tool') := by
  obtain ⟨r, rs, rfl⟩ := hrun
  exact kept_toTool (hs.kept h) (hs.phase_eq hphase) (hheld'.trans hheld.symm) rfl hspawn fun _ => hrx

section Outside

variable {call : ToolCall} {choice : Choice}
variable (h : Kept s) (hphase : (s.agents a).phase = .driving stage tool)
  (hrun : ∃ r rs, stage = .running r rs) (hheld : tool.held = none) (hrx : tool.usesRx = false)

include h hphase hrun hheld hrx

theorem kept_toolEnds (hs : Same s t) (result : Except HarnessError ToolDisposition) :
    Kept (t.toolEnds a stage result) :=
  kept_place h hs hphase hrun hheld hrx rfl rfl

theorem kept_afterSandbox (hs : Same s t) (result : Except SandboxError ToolOutput) :
    Kept (t.afterSandbox a stage call result) := by
  have hends : ∀ {u}, Same s u → ∀ result, Kept (u.toolEnds a stage result) :=
    kept_toolEnds h hphase hrun hheld hrx
  cases result with
  | ok output => exact hends hs _
  | error error => cases error <;> exact hends (hs.trans (same_record t _)) _

theorem kept_afterRead (hs : Same s t) (path : String) (result : Except SandboxError ToolOutput) :
    Kept (t.afterRead ctx a stage call path result) := by
  have hends : ∀ {u}, Same s u → ∀ result, Kept (u.toolEnds a stage result) :=
    kept_toolEnds h hphase hrun hheld hrx
  cases result with
  | ok output =>
      simp only [afterRead]
      split
      · exact hends (hs.trans (same_record t _)) _
      · exact kept_place h (hs.trans (same_record t _)) hphase hrun hheld hrx rfl rfl
  | error error => cases error <;> exact hends (hs.trans (same_record t _)) _

theorem kept_afterFrontend (hs : Same s t) (result : Except FrontendError ToolOutput) :
    Kept (t.afterFrontend a stage call result) := by
  have hends : ∀ {u}, Same s u → ∀ result, Kept (u.toolEnds a stage result) :=
    kept_toolEnds h hphase hrun hheld hrx
  cases result with
  | ok output => exact hends hs _
  | error error =>
      simp only [afterFrontend]
      split
      · exact hends (hs.trans (same_setSignal t _)) _
      · exact hends ((hs.trans (same_setSignal t _)).trans (same_record _ _)) _

theorem kept_sandboxAborted (hs : Same s t) (reason : AbortReason) :
    Kept (sandboxAborted a stage t reason) := by
  cases reason with
  | shutdown message => exact kept_toolEnds h hphase hrun hheld hrx hs _
  | interrupted => exact kept_place h hs hphase hrun hheld hrx rfl rfl

theorem kept_frontendAborted (hs : Same s t) (forwarded : ToolCall) (reason : AbortReason) :
    Kept (frontendAborted a stage forwarded t reason) := by
  cases reason with
  | shutdown message => exact kept_toolEnds h hphase hrun hheld hrx hs _
  | interrupted => exact kept_place h hs hphase hrun hheld hrx rfl rfl

end Outside

theorem kept_orAbort {kind : WaitKind} {choice : Choice} {onAbort : Session → AbortReason → Session}
    {other : Session → Session} (hs : ∀ s', Same s s' → (∀ reason, Kept (onAbort s' reason)) ∧ Kept (other s')) :
    Kept (s.orAbort a kind choice onAbort other) := by
  obtain ⟨s', hsame, ⟨reason, heq⟩ | heq⟩ := orAbort_cases s a kind choice onAbort other
  · rw [heq]
    exact (hs s' hsame).1 reason
  · rw [heq]
    exact (hs s' hsame).2

theorem kept_pend (h : Kept s) (hs : Same s t) : Kept (t.pend a) :=
  (hs.trans (same_pend t a)).kept h

theorem kept_outsideStep {call : ToolCall} {choice : Choice} (h : Kept s)
    (hphase : (s.agents a).phase = .driving stage tool) (hrun : ∃ r rs, stage = .running r rs)
    (hstep : s.outsideStep ctx a stage call choice tool = some t) : Kept t := by
  have hrefl : Same s s := (Local.refl s a).same rfl
  have hdrop := same_dropWait s a
  cases tool with
  | sandbox =>
      simp only [outsideStep] at hstep
      split at hstep <;> cases hstep
      · exact kept_afterSandbox h hphase hrun rfl rfl hdrop _
      · exact kept_orAbort fun s' hs =>
          ⟨kept_sandboxAborted h hphase hrun rfl rfl hs, kept_pend h hs⟩
  | sandboxInterrupt =>
      simp only [outsideStep] at hstep
      split at hstep <;> cases hstep
      · exact kept_place h (same_record s _) hphase hrun rfl rfl rfl rfl
      · exact kept_pend h hrefl
  | sandboxDrain =>
      simp only [outsideStep] at hstep
      split at hstep <;> cases hstep
      · exact kept_afterSandbox h hphase hrun rfl rfl hrefl _
      · exact kept_pend h hrefl
  | read path =>
      simp only [outsideStep] at hstep
      split at hstep <;> cases hstep
      · exact kept_afterRead h hphase hrun rfl rfl hrefl _ _
      · exact kept_pend h hrefl
  | frontend forwarded =>
      simp only [outsideStep] at hstep
      split at hstep <;> cases hstep
      · exact kept_afterFrontend h hphase hrun rfl rfl hdrop _
      · exact kept_orAbort fun s' hs =>
          ⟨kept_frontendAborted h hphase hrun rfl rfl hs forwarded, kept_pend h hs⟩
  | frontendInterrupt forwarded =>
      simp only [outsideStep] at hstep
      split at hstep <;> cases hstep
      · exact kept_place h (same_record s _) hphase hrun rfl rfl rfl rfl
      · exact kept_pend h hrefl
  | frontendDrain forwarded =>
      simp only [outsideStep] at hstep
      split at hstep <;> cases hstep
      · exact kept_afterFrontend h hphase hrun rfl rfl hrefl _
      · exact kept_pend h hrefl
  | _ => cases hstep

end Session

namespace Session

variable {ctx : SessionCtx} {s t : Session} {a : AgentId} {stage : Stage} {tool : ToolPc}

theorem poolEntry_spec (s : Session) (a : AgentId) :
    ∃ pool, s.poolEntry a = ((s.poolEntry a).1, pool) ∧
      (s.poolEntry a).1.agents = s.agents ∧ (s.poolEntry a).1.counter = s.counter ∧
      (s.poolEntry a).1.registry = Function.update s.registry a (some pool) ∧
      pool.children = s.children a ∧
      (∀ old, s.registry a = some old → pool = old) ∧ (s.registry a = none → pool.doneRx.isSome = true) := by
  rcases poolEntry_cases s a with ⟨pool, hreg, heq⟩ | ⟨hreg, heq⟩
  · have hsame : s.registry = Function.update s.registry a (some pool) := by
      rw [← hreg, Function.update_eq_self]
    rw [heq]
    exact ⟨pool, rfl, rfl, rfl, hsame, by simp [children, hreg], by simp [hreg], by simp [hreg]⟩
  · rw [heq]
    exact ⟨_, rfl, rfl, rfl, rfl, by simp [children, hreg], by simp [hreg], by simp⟩

theorem setPool_children (s : Session) (a : AgentId) (pool : Option ChildPool) :
    (s.setPool a pool).children = Function.update s.children a ((pool.map ChildPool.children).getD []) := by
  funext b
  by_cases hb : b = a
  · subst hb
    simp [children, setPool]
  · simp [children, setPool, hb]

/-- The tree after a step of `a` that moves handles between `a` and its pool. -/
theorem Near.tree_eq (h : Near s t a) :
    t.tree = (s.tree.setLife a (t.agents a).phase.life).setPool a
      ((t.children a).map ChildHandle.id) := by
  simp only [tree, Tree.setLife, Tree.setPool, Tree.mk.injEq]
  refine ⟨?_, ?_, ?_, ?_⟩
  all_goals
    funext b
    by_cases hb : b = a
    · subst hb
      simp [h.parent, h.aborted]
    · simp [h.others b hb, children, h.pools b hb, hb]

theorem insertChild_near (s : Session) (a : AgentId) (child : ChildHandle) (phase : Phase) :
    Near s ((s.insertChild a child).goto a phase) a ∧
      ((s.insertChild a child).goto a phase).children a = s.children a ++ [child] ∧
      ∀ pool, ((s.insertChild a child).goto a phase).registry a = some pool →
        (∀ old, s.registry a = some old → old.doneRx.isSome = true) → pool.doneRx.isSome = true := by
  obtain ⟨pool, hentry, hagents, hcounter, hreg, hchildren, hold, hnew⟩ := poolEntry_spec s a
  have hins : s.insertChild a child =
      (s.poolEntry a).1.setPool a (some { pool with children := pool.children ++ [child] }) := by
    rw [insertChild]
    rw [hentry]
  rw [hins]
  refine ⟨⟨?_, ?_, ?_, ?_, ?_⟩, ?_, ?_⟩
  · intro b hb
    simp [goto, setAgent, setPool, hagents, hb]
  · intro b hb
    simp [goto, setAgent, setPool, hreg, hb]
  · simp [goto, setAgent, setPool, hagents]
  · simp [goto, setAgent, setPool, hagents]
  · simpa [goto, setAgent, setPool] using hcounter
  · simp [children, goto, setAgent, setPool] at hchildren ⊢
    exact hchildren
  · intro pool' hpool' hall
    simp only [goto, setAgent, setPool, Function.update_self, Option.some.injEq] at hpool'
    subst hpool'
    cases hs : s.registry a with
    | none => exact hnew hs
    | some old =>
        rw [hold old hs]
        exact hall old hs

theorem kept_insertChild {child : ChildHandle} (h : Kept s)
    (hphase : (s.agents a).phase = .driving stage tool) (hrun : ∃ r rs, stage = .running r rs)
    (hheld : tool.held = some child.id) (hrx : tool.usesRx = false)
    (hn : (s.agents a).aborted = false) (result : Except HarnessError ToolDisposition) :
    Kept ((s.insertChild a child).toolEnds a stage result) := by
  obtain ⟨r, rs, rfl⟩ := hrun
  obtain ⟨hnear, hchildren, hdone⟩ :=
    insertChild_near s a child (.driving (.running r rs) (.done result))
  refine kept_near h hnear ⟨by simp [hphase], by simp [Phase.toolOk], by simp [Phase.spawning, ToolPc.spawning],
    ?_, ?_, ?_, .inr ?_⟩
  · intro st tl pool _ _ hreg
    exact hdone pool hreg fun old hold => h.doneRx a _ tool old hphase hrx hold
  · simp [Phase.closed, Phase.topLevel]
  · simp [Phase.topLevel]
  · rw [toolEnds, toTool, hnear.tree_eq, hchildren]
    simp only [goto_phase, Phase.life, ToolPc.held, List.map_append, List.map_cons, List.map_nil]
    exact .insert (by rw [life_eq, hphase, Phase.life, hheld]) hn

theorem near_setPool (s : Session) (a : AgentId) (pool : Option ChildPool) (phase : Phase) :
    Near s ((s.setPool a pool).goto a phase) a := by
  refine ⟨?_, ?_, ?_, ?_, rfl⟩
  · intro b hb
    simp [goto, setAgent, setPool, hb]
  · intro b hb
    simp [goto, setAgent, setPool, hb]
  · simp [goto, setAgent, setPool]
  · simp [goto, setAgent, setPool]

theorem kept_setPool {tool' : ToolPc} {pool : Option ChildPool} (h : Kept s)
    (hphase : (s.agents a).phase = .driving stage tool) (hrun : ∃ r rs, stage = .running r rs)
    (hspawn : tool'.spawning = none)
    (hdone : tool'.usesRx = false → ∀ p, pool = some p → p.doneRx.isSome = true)
    {u : TaskTree.Tree AgentId} (hu : u = (s.tree.setLife a (.accepting tool'.held)).setPool a
      (((pool.map ChildPool.children).getD []).map ChildHandle.id))
    (hmoves : u = s.tree ∨ s.tree.Step u) :
    Kept ((s.setPool a pool).toTool a stage tool') := by
  obtain ⟨r, rs, rfl⟩ := hrun
  have hnear := near_setPool s a pool (.driving (.running r rs) tool')
  have hreg : ((s.setPool a pool).goto a (.driving (.running r rs) tool')).registry a = pool := by
    simp [goto, setAgent, setPool]
  refine kept_near h hnear ⟨by simp [hphase], by simp [Phase.toolOk], by simpa [Phase.spawning] using hspawn,
    ?_, ?_, ?_, ?_⟩
  · intro st tl p hp huses hpool
    rw [toTool_phase] at hp
    cases hp
    exact hdone huses p (hreg.symm.trans hpool)
  · simp [Phase.closed, Phase.topLevel]
  · simp [Phase.topLevel]
  · rw [toTool, hnear.tree_eq, children, hreg, goto_phase, Phase.life, ← hu]
    exact hmoves

theorem tree_pool_eq {pool : ChildPool} (hreg : s.registry a = some pool) :
    s.tree.pool a = pool.children.map ChildHandle.id := by
  simp [tree, children, hreg]

theorem kept_collect {pool : ChildPool} {child : ChildHandle} (h : Kept s)
    (hphase : (s.agents a).phase = .driving stage tool) (hrun : ∃ r rs, stage = .running r rs)
    (hheld : tool.held = none) (hrx : tool.usesRx = false) (hn : (s.agents a).aborted = false)
    (hreg : s.registry a = some pool) (hchild : child ∈ pool.children) :
    Kept ((s.setPool a (some { pool with
      children := pool.children.filter fun c => c.id ≠ child.id })).toTool a stage (.join child)) := by
  refine kept_setPool h hphase hrun rfl ?_ rfl (.inr ?_)
  · rintro - p hp
    cases hp
    exact h.doneRx a stage tool pool hphase hrx hreg
  · refine .collect (by rw [life_eq, hphase, Phase.life, hheld]) hn ?_ ?_ ?_
    · rw [tree_pool_eq hreg]
      exact List.mem_map_of_mem hchild
    · intro b hb
      rw [tree_pool_eq hreg] at hb
      obtain ⟨c, hc, rfl⟩ := List.mem_map.mp hb
      by_cases heq : c.id = child.id
      · exact .inl heq
      · exact .inr (List.mem_map_of_mem (List.mem_filter.mpr ⟨hc, by simpa using heq⟩))
    · intro b hb
      obtain ⟨c, hc, rfl⟩ := List.mem_map.mp hb
      rw [tree_pool_eq hreg]
      exact List.mem_map_of_mem (List.mem_of_mem_filter hc)

theorem kept_samePool {tool' : ToolPc} {pool : Option ChildPool} (h : Kept s)
    (hphase : (s.agents a).phase = .driving stage tool) (hrun : ∃ r rs, stage = .running r rs)
    (hheld : tool'.held = tool.held) (hspawn : tool'.spawning = none)
    (hdone : tool'.usesRx = false → ∀ p, pool = some p → p.doneRx.isSome = true)
    (hsame : (pool.map ChildPool.children).getD [] = s.children a) :
    Kept ((s.setPool a pool).toTool a stage tool') := by
  refine kept_setPool h hphase hrun hspawn hdone rfl (.inl ?_)
  have hlife : Life.accepting tool'.held = s.tree.life a := by
    rw [life_eq, hphase, Phase.life, hheld]
  have hpool : (s.children a).map ChildHandle.id = s.tree.pool a := rfl
  rw [hsame, hlife, hpool]
  simp [Tree.setLife, Tree.setPool]

theorem kept_putDoneRx {tool' : ToolPc} (h : Kept s)
    (hphase : (s.agents a).phase = .driving stage tool) (hrun : ∃ r rs, stage = .running r rs)
    (hheld : tool'.held = tool.held) (hspawn : tool'.spawning = none) (chan : Nat) :
    Kept ((s.putDoneRx a chan).toTool a stage tool') := by
  apply kept_samePool h hphase hrun hheld hspawn
  · rintro - p hp
    obtain ⟨old, -, rfl⟩ := Option.map_eq_some_iff.mp hp
    rfl
  · rw [Option.map_map]
    rfl

/-- What the birth of `c`, a child of `a`, changes. -/
structure Birth (s t : Session) (a c : AgentId) : Prop where
  others : ∀ b, b ≠ a → b ≠ c → t.agents b = s.agents b
  parent : (t.agents a).parent = (s.agents a).parent
  aborted : (t.agents a).aborted = (s.agents a).aborted
  child : (t.agents c).phase = .driving .top .idle ∧ (t.agents c).parent = some a ∧
    (t.agents c).aborted = false
  pools : ∀ b, b ≠ a → t.registry b = s.registry b
  pool : t.children a = s.children a
  doneRx : ∀ p, t.registry a = some p → (∀ old, s.registry a = some old → old.doneRx.isSome = true) →
    p.doneRx.isSome = true
  counter : t.counter = s.counter

theorem spawnChild_birth (s : Session) {a : AgentId} {child : ChildHandle} (hne : child.id ≠ a)
    (prompt : String) (generation : Nat) (phase : Phase) :
    Birth s ((s.spawnChild a child prompt generation).goto a phase) a child.id := by
  obtain ⟨pool, hentry, hagents, hcounter, hreg, hchildren, hold, hnew⟩ := poolEntry_spec s a
  have hspawn : s.spawnChild a child prompt generation = (s.poolEntry a).1.setAgent child.id
      ⟨some a, ⟨child.id, .subagent, (s.agents a).turn.depth + 1, generation⟩, [.userText prompt], 0,
        .driving .top .idle, none, true, false, false, pool.chan⟩ := by
    rw [spawnChild]
    rw [hentry]
  rw [hspawn]
  constructor
  case others =>
    intro b hb hc
    simp [goto, setAgent, hagents, hb, hc]
  case parent =>
    simp [goto, setAgent, hagents, hne.symm]
  case aborted =>
    simp [goto, setAgent, hagents, hne.symm]
  case child =>
    simp [goto, setAgent, hne]
  case pools =>
    intro b hb
    simp [goto, setAgent, hreg, hb]
  case pool =>
    simp [children, goto, setAgent, hreg] at hchildren ⊢
    exact hchildren
  case doneRx =>
    intro p hp hall
    simp only [goto, setAgent, hreg, Function.update_self, Option.some.injEq] at hp
    subst hp
    cases hs : s.registry a with
    | none => exact hnew hs
    | some old =>
        rw [hold old hs]
        exact hall old hs
  case counter =>
    simpa [goto, setAgent] using hcounter

theorem Birth.tree_eq {c : AgentId} (h : Birth s t a c) (hne : c ≠ a)
    (hlife : (t.agents a).phase.life = .accepting (some c)) :
    t.tree = { (s.tree.setLife a (.accepting (some c))).setLife c (.accepting none) with
      parent := Function.update s.tree.parent c (some a)
      aborted := Function.update s.tree.aborted c false } := by
  have hpools : ∀ b, t.children b = s.children b := by
    intro b
    by_cases hb : b = a
    · rw [hb, h.pool]
    · rw [children, children, h.pools b hb]
  obtain ⟨hphase, hparent, haborted⟩ := h.child
  simp only [tree, Tree.setLife, Tree.mk.injEq, hpools, and_true]
  refine ⟨?_, ?_, ?_⟩
  all_goals
    funext b
    by_cases hc : b = c
    · subst hc
      simp [hphase, hparent, haborted, Phase.life, ToolPc.held]
    · by_cases hb : b = a
      · subst hb
        simp [h.parent, h.aborted, hlife, hne.symm]
      · simp [h.others b hb hc, hb, hc]

theorem kept_birth {c : AgentId} (h : Kept s) (hb : Birth s t a c)
    (hphase : (s.agents a).phase = .driving stage tool) (hspawning : tool.spawning = some c)
    (hheld : tool.held = none) (hrx : tool.usesRx = false) (hn : (s.agents a).aborted = false)
    {child : ChildHandle} (hphase' : (t.agents a).phase = .driving stage (.spawnInsert child))
    (hchild : child.id = c) : Kept t := by
  obtain ⟨hunborn, hlt⟩ := h.spawning a c (by rw [hphase]; exact hspawning)
  have hne : c ≠ a := by
    rintro rfl
    rw [hphase] at hunborn
    cases hunborn
  have hcase : ∀ b, b = a ∨ b = c ∨ (b ≠ a ∧ b ≠ c ∧ t.agents b = s.agents b) := by
    intro b
    by_cases hba : b = a
    · exact .inl hba
    · by_cases hbc : b = c
      · exact .inr (.inl hbc)
      · exact .inr (.inr ⟨hba, hbc, hb.others b hba hbc⟩)
  have hspawn : ∀ b d, (t.agents b).phase.spawning = some d →
      b ≠ a ∧ b ≠ c ∧ (s.agents b).phase.spawning = some d := by
    intro b d hd
    rcases hcase b with rfl | rfl | ⟨hba, hbc, heq⟩
    · rw [hphase'] at hd
      cases hd
    · rw [hb.child.1] at hd
      cases hd
    · rw [heq] at hd
      exact ⟨hba, hbc, hd⟩
  constructor
  case sound =>
    rw [hb.tree_eq hne (by rw [hphase', ← hchild]; rfl)]
    refine h.sound.step (.birth ?_ hn ?_)
    · rw [life_eq, hphase, Phase.life, hheld]
    · rw [life_eq, hunborn, Phase.life]
  case tools =>
    intro b
    rcases hcase b with rfl | rfl | ⟨-, -, heq⟩
    · have hok := h.tools b
      rw [hphase] at hok
      rw [hphase']
      cases stage with
      | running => rfl
      | top | asking | calling | ended =>
          cases tool <;> simp [Phase.toolOk, ToolPc.spawning] at hok hspawning
    · rw [hb.child.1]
      rfl
    · rw [heq]
      exact h.tools b
  case fresh =>
    intro b hbc
    rw [hb.counter] at hbc
    rcases hcase b with rfl | rfl | ⟨-, -, heq⟩
    · have := h.fresh b hbc
      rw [hphase] at this
      cases this
    · exact absurd hlt (Nat.not_lt.mpr hbc)
    · rw [heq]
      exact h.fresh b hbc
  case spawning =>
    intro b d hd
    obtain ⟨hba, hbc, hd'⟩ := hspawn b d hd
    obtain ⟨hud, hld⟩ := h.spawning b d hd'
    have hda : d ≠ a := by
      rintro rfl
      rw [hphase] at hud
      cases hud
    have hdc : d ≠ c := by
      rintro rfl
      exact hba (h.spawnOnce b a d hd' (by rw [hphase]; exact hspawning))
    rw [hb.others d hda hdc, hb.counter]
    exact ⟨hud, hld⟩
  case spawnOnce =>
    intro b b' d hd hd'
    exact h.spawnOnce b b' d (hspawn b d hd).2.2 (hspawn b' d hd').2.2
  case doneRx =>
    intro b st tl pool hp huses hreg
    rcases hcase b with rfl | rfl | ⟨hba, -, heq⟩
    · exact hb.doneRx pool hreg fun old hold => h.doneRx b stage tool old hphase hrx hold
    · rw [hb.pools b hne, h.closed b (by rw [hunborn]; rfl)] at hreg
      cases hreg
    · rw [heq] at hp
      rw [hb.pools b hba] at hreg
      exact h.doneRx b st tl pool hp huses hreg
  case closed =>
    intro b hclosed
    rcases hcase b with rfl | rfl | ⟨hba, -, heq⟩
    · rw [hphase'] at hclosed
      cases hclosed
    · rw [hb.child.1] at hclosed
      cases hclosed
    · rw [heq] at hclosed
      rw [hb.pools b hba]
      exact h.closed b hclosed
  case top =>
    intro b htop
    rcases hcase b with rfl | rfl | ⟨-, -, heq⟩
    · rw [hphase'] at htop
      cases htop
    · rw [hb.child.1] at htop
      cases htop
    · rw [heq] at htop ⊢
      exact h.top b htop
  case child =>
    intro b hab
    rcases hcase b with rfl | rfl | ⟨-, -, heq⟩
    · rw [hb.aborted, hn] at hab
      cases hab
    · rw [hb.child.2.1]
      simp
    · rw [heq] at hab ⊢
      exact h.child b hab

theorem kept_joined {c : AgentId} (h : Kept s) (hs : Same s t)
    (hphase : (s.agents a).phase = .driving stage tool) (hrun : ∃ r rs, stage = .running r rs)
    (hheld : tool.held = some c) (hrx : tool.usesRx = false) (hgone : (s.agents c).phase.life = .gone)
    (result : Except HarnessError ToolDisposition) : Kept (t.toolEnds a stage result) := by
  obtain ⟨r, rs, rfl⟩ := hrun
  have ht := hs.kept h
  have hphase' := hs.phase_eq hphase
  have hl := local_goto t a (.driving (.running r rs) (.done result))
  refine kept_near ht hl.near ⟨by simp [hphase'], by simp [Phase.toolOk],
    by simp [Phase.spawning, ToolPc.spawning], ?_, ?_, ?_, .inr ?_⟩
  · intro st tl pool _ _ hreg
    exact ht.doneRx a _ tool pool hphase' hrx hreg
  · simp [Phase.closed, Phase.topLevel]
  · simp [Phase.topLevel]
  · rw [toolEnds, toTool, hl.tree_eq, goto_phase]
    refine .joined (c := c) ?_ ?_
    · rw [life_eq, hphase', Phase.life, hheld]
    · rw [life_eq, hs.phase c, hgone]

theorem kept_joinReady {child : ChildHandle} {choice : Choice} (h : Kept s) (hs : Same s t)
    (hphase : (s.agents a).phase = .driving stage (.join child)) (hrun : ∃ r rs, stage = .running r rs) :
    Kept (joinReady a stage child choice t) := by
  have hfreed : Same s { t.dropWait a with permits := t.permits + 1 } :=
    (hs.trans (same_dropWait t a)).trans (same_permits _ _)
  rw [joinReady]
  simp only
  split
  · rename_i result hc
    rw [hs.phase] at hc
    exact kept_joined h hfreed hphase hrun rfl rfl (by rw [hc]; rfl) _
  · rename_i display hc _
    rw [hs.phase] at hc
    exact kept_joined h hfreed hphase hrun rfl rfl (by rw [hc]; rfl) _
  · exact kept_pend h hs

theorem kept_doneReady {chan : Nat} (h : Kept s) (hs : Same s t)
    (hphase : (s.agents a).phase = .driving stage (.anyWait chan))
    (hrun : ∃ r rs, stage = .running r rs) : Kept (doneReady a stage chan t) := by
  obtain ⟨r, rs, rfl⟩ := hrun
  have hdrop := hs.trans (same_dropWait t a)
  have hput : ∀ {u}, Same s u → ∀ signalled,
      Kept (u.toTool a (.running r rs) (.anyPut chan signalled)) := fun hu signalled =>
    kept_toTool (hu.kept h) (hu.phase_eq hphase) rfl rfl rfl fun hf => by cases hf
  rw [doneReady]
  split
  · exact hput (hdrop.trans (same_chans _ _)) _
  · split
    · exact hput hdrop _
    · exact kept_pend h hs

theorem kept_childStep {choice : Choice} (h : Kept s)
    (hphase : (s.agents a).phase = .driving stage tool) (hrun : ∃ r rs, stage = .running r rs)
    (hlock : tool.movesHandles = true → (s.agents a).aborted = false)
    (hstep : s.childStep a stage choice tool = some t) : Kept t := by
  have hrefl : Same s s := (Local.refl s a).same rfl
  cases tool with
  | spawnEntry child prompt generation =>
      simp only [childStep, Option.some.injEq] at hstep
      subst hstep
      have hne : child.id ≠ a := by
        intro heq
        have hu := (h.spawning a child.id (by rw [hphase]; rfl)).1
        rw [heq, hphase] at hu
        cases hu
      exact kept_birth h (spawnChild_birth s hne prompt generation _) hphase rfl rfl rfl (hlock rfl)
        (toTool_phase _ _ _ _) rfl
  | spawnInsert child =>
      simp only [childStep, Option.some.injEq] at hstep
      subst hstep
      exact kept_insertChild h hphase hrun rfl rfl (hlock rfl) _
  | awaitKnown requested =>
      simp only [childStep] at hstep
      split at hstep <;> cases hstep
      · exact kept_place h hrefl hphase hrun rfl rfl rfl rfl
      · exact kept_toolEnds h hphase hrun rfl rfl hrefl _
  | awaitHas =>
      simp only [childStep] at hstep
      split at hstep <;> cases hstep
      · exact kept_toolEnds h hphase hrun rfl rfl hrefl _
      · exact kept_place h hrefl hphase hrun rfl rfl rfl rfl
  | anyFinished =>
      simp only [childStep] at hstep
      split at hstep
      · cases hstep
        exact kept_place h hrefl hphase hrun rfl rfl rfl rfl
      · split at hstep <;> cases hstep
        exact kept_place h hrefl hphase hrun rfl rfl rfl rfl
  | anyTakeRx =>
      simp only [childStep] at hstep
      split at hstep
      · cases hstep
        exact kept_toolEnds h hphase hrun rfl rfl hrefl _
      · rename_i pool hreg
        split at hstep <;> cases hstep
        · exact kept_samePool h hphase hrun rfl rfl (fun hf => by cases hf) (by simp [children, hreg])
        · -- the receiver is in the pool whenever no `await_any_child` has it
          rename_i hnone
          have hsome := h.doneRx a stage .anyTakeRx pool hphase rfl hreg
          rw [hnone] at hsome
          cases hsome
  | anyWait chan =>
      simp only [childStep, Option.some.injEq] at hstep
      subst hstep
      refine kept_orAbort fun s' hs => ⟨fun reason => ?_, kept_doneReady h hs hphase hrun⟩
      obtain ⟨r, rs, rfl⟩ := hrun
      exact kept_toTool (hs.kept h) (hs.phase_eq hphase) rfl rfl rfl fun hf => by cases hf
  | anyPut chan signalled =>
      cases signalled <;>
      · simp only [childStep, Option.some.injEq] at hstep
        subst hstep
        refine kept_putDoneRx h hphase hrun ?_ ?_ chan <;> rfl
  | anyAbort chan reason =>
      simp only [childStep, Option.some.injEq] at hstep
      subst hstep
      refine kept_putDoneRx h hphase hrun ?_ ?_ chan <;> rfl
  | anyStill child =>
      simp only [childStep] at hstep
      split at hstep <;> cases hstep <;> exact kept_place h hrefl hphase hrun rfl rfl rfl rfl
  | collect child =>
      simp only [childStep] at hstep
      split at hstep <;> cases hstep
      · rename_i pool handle hreg hfind
        have hid : handle.id = child := by simpa using List.find?_some hfind
        have hmem := List.mem_of_find?_eq_some hfind
        rw [children, hreg] at hmem
        subst hid
        exact kept_collect h hphase hrun rfl rfl (hlock rfl) hreg hmem
      · exact kept_toolEnds h hphase hrun rfl rfl hrefl _
  | join child =>
      simp only [childStep, Option.some.injEq] at hstep
      subst hstep
      refine kept_orAbort fun s' hs => ⟨fun reason => ?_, kept_joinReady h hs hphase hrun⟩
      obtain ⟨r, rs, rfl⟩ := hrun
      exact kept_toTool (hs.kept h) (hs.phase_eq hphase) rfl rfl rfl fun _ => rfl
  | reinsert child reason =>
      simp only [childStep, Option.some.injEq] at hstep
      subst hstep
      exact kept_insertChild h hphase hrun rfl rfl (hlock rfl) _
  | _ => cases hstep

end Session

end Silo.Harness
