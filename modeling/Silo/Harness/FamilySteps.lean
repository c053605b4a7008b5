import Silo.Harness.SessionFamily

namespace Silo.Harness

open Silo.Core Silo.Lib

namespace Session

variable {ctx : SessionCtx} {s t u : Session} {a : AgentId} {stage : Stage} {tool : ToolPc}
variable {call : ToolCall} {choice : Choice}

/-- The session has noted something, and `a` has not moved. -/
structure Noted (s u : Session) (a : AgentId) : Prop where
  sameFamily : SameFamily s u
  phase : (u.agents a).phase = (s.agents a).phase

theorem Noted.refl (h : ∀ b, (s.agents b).Tidy) (a : AgentId) : Noted s s a := ⟨sameFamily_refl h, rfl⟩

theorem noted_dropWait (h : Noted s u a) : Noted s (u.dropWait a) a :=
  ⟨h.sameFamily.trans (sameFamily_dropWait h.sameFamily.tidy), (dropWait_phase u a).trans h.phase⟩

theorem noted_record (h : Noted s u a) {records : List Record} (hr : Unmarked records) :
    Noted s (u.record records) a :=
  ⟨h.sameFamily.trans (sameFamily_record h.sameFamily.tidy hr), h.phase⟩

theorem noted_setSignal (h : Noted s u a) (sig : Signal AgentId) : Noted s (u.setSignal sig) a :=
  ⟨h.sameFamily.trans (sameFamily_setSignal h.sameFamily.tidy sig), h.phase⟩

theorem familyStep_orAbort {kind : WaitKind} {onAbort : Session → AbortReason → Session}
    {other : Session → Session} (h : ∀ b, (s.agents b).Tidy)
    (habort : ∀ u reason, Noted s u a → FamilyStep s (onAbort u reason))
    (hother : ∀ u, Noted s u a → FamilyStep s (other u)) :
    FamilyStep s (s.orAbort a kind choice onAbort other) := by
  have hpoll : Noted s (s.pollWait a kind choice.command).1 a :=
    ⟨sameFamily_pollWait h kind choice.command, pollWait_phase s a kind choice.command⟩
  rw [orAbort]
  split
  · rename_i u reason heq
    rw [heq] at hpoll
    exact habort u reason hpoll
  · rename_i u heq
    rw [heq] at hpoll
    exact hother u hpoll

section Plain

variable (hrun : ∃ r rs, stage = .running r rs) (hfrom : (s.agents a).phase.post = .plain)

include hrun hfrom

theorem familyStep_afterSandbox (hu : Noted s u a) (result : Except SandboxError ToolOutput) :
    FamilyStep s (u.afterSandbox a stage call result) := by
  cases result with
  | ok output => exact familyStep_toolEnds hu.sameFamily hrun hfrom _
  | error error => cases error <;> exact familyStep_toolEnds (noted_record hu (by rfl)).sameFamily hrun hfrom _

theorem familyStep_afterRead (hu : Noted s u a) (path : String) (result : Except SandboxError ToolOutput) :
    FamilyStep s (u.afterRead ctx a stage call path result) := by
  cases result with
  | ok output =>
      simp only [afterRead]
      split
      · exact familyStep_toolEnds (noted_record hu (by rfl)).sameFamily hrun hfrom _
      · exact familyStep_toTool (noted_record hu (by rfl)).sameFamily hrun hfrom (.inl rfl)
  | error error => cases error <;> exact familyStep_toolEnds (noted_record hu (by rfl)).sameFamily hrun hfrom _

theorem familyStep_afterFrontend (hu : Noted s u a) (result : Except FrontendError ToolOutput) :
    FamilyStep s (u.afterFrontend a stage call result) := by
  cases result with
  | ok output => exact familyStep_toolEnds hu.sameFamily hrun hfrom _
  | error error =>
      simp only [afterFrontend]
      split
      · exact familyStep_toolEnds (noted_setSignal hu _).sameFamily hrun hfrom _
      · exact familyStep_toolEnds (noted_record (noted_setSignal hu _) (by rfl)).sameFamily hrun hfrom _

end Plain

theorem familyStep_outsideStep (h : ∀ b, (s.agents b).Tidy) (hphase : (s.agents a).phase = .driving stage tool)
    (hrun : ∃ r rs, stage = .running r rs) (hstep : s.outsideStep ctx a stage call choice tool = some t) :
    FamilyStep s t := by
  have hrefl := Noted.refl h a
  have hdrop := noted_dropWait hrefl
  have hpend : ∀ u, Noted s u a → (Phase.driving stage tool).swift = false → FamilyStep s (u.pend a) :=
    fun u hu hswift => familyStep_pend hu.sameFamily (by rw [hu.phase, hphase]; exact hswift)
  cases tool with
  | sandbox =>
      have hfrom : (s.agents a).phase.post = .plain := by rw [hphase]; rfl
      simp only [outsideStep] at hstep
      split at hstep <;> cases hstep
      · exact familyStep_afterSandbox hrun hfrom hdrop _
      · refine familyStep_orAbort h ?_ fun u hu => hpend u hu rfl
        intro u reason hu
        cases reason with
        | shutdown message => exact familyStep_toolEnds hu.sameFamily hrun hfrom _
        | interrupted => exact familyStep_toTool hu.sameFamily hrun hfrom (.inl rfl)
  | sandboxInterrupt =>
      have hfrom : (s.agents a).phase.post = .plain := by rw [hphase]; rfl
      simp only [outsideStep] at hstep
      split at hstep <;> cases hstep
      · rename_i error _
        exact familyStep_toTool (noted_record hrefl (by cases error <;> rfl)).sameFamily hrun hfrom (.inl rfl)
      · exact hpend s hrefl rfl
  | sandboxDrain =>
      have hfrom : (s.agents a).phase.post = .plain := by rw [hphase]; rfl
      simp only [outsideStep] at hstep
      split at hstep <;> cases hstep
      · exact familyStep_afterSandbox hrun hfrom hrefl _
      · exact hpend s hrefl rfl
  | read path =>
      have hfrom : (s.agents a).phase.post = .plain := by rw [hphase]; rfl
      simp only [outsideStep] at hstep
      split at hstep <;> cases hstep
      · exact familyStep_afterRead hrun hfrom hrefl _ _
      · exact hpend s hrefl rfl
  | frontend forwarded =>
      have hfrom : (s.agents a).phase.post = .plain := by rw [hphase]; rfl
      simp only [outsideStep] at hstep
      split at hstep <;> cases hstep
      · exact familyStep_afterFrontend hrun hfrom hdrop _
      · refine familyStep_orAbort h ?_ fun u hu => hpend u hu rfl
        intro u reason hu
        cases reason with
        | shutdown message => exact familyStep_toolEnds hu.sameFamily hrun hfrom _
        | interrupted => exact familyStep_toTool hu.sameFamily hrun hfrom (.inl rfl)
  | frontendInterrupt forwarded =>
      have hfrom : (s.agents a).phase.post = .plain := by rw [hphase]; rfl
      simp only [outsideStep] at hstep
      split at hstep <;> cases hstep
      · rename_i error _
        exact familyStep_toTool (noted_record hrefl (by cases error <;> rfl)).sameFamily hrun hfrom (.inl rfl)
      · exact hpend s hrefl rfl
  | frontendDrain forwarded =>
      have hfrom : (s.agents a).phase.post = .plain := by rw [hphase]; rfl
      simp only [outsideStep] at hstep
      split at hstep <;> cases hstep
      · exact familyStep_afterFrontend hrun hfrom hrefl _
      · exact hpend s hrefl rfl
  | _ => cases hstep

/-- A step of the family, seen in the session where `a` goes to its new place. -/
theorem familyStep_step {phase : Phase} (hu : ∀ b, (u.agents b).Tidy) (htools : phase.toolOk = true)
    (htop : phase.topLevel = false)
    (hstep : Family.Step maxSubagentDepth s.family (u.family.setPost a phase.post)) :
    FamilyStep s (u.goto a phase) := by
  refine ⟨.inr ?_, tidy_goto hu htools ?_⟩
  · rw [family_goto]
    exact hstep
  · rw [htop]
    exact nofun

theorem tidy_setPool (h : ∀ b, (s.agents b).Tidy) (e : AgentId) (pool : Option ChildPool) :
    ∀ b, ((s.setPool e pool).agents b).Tidy := h

theorem tidy_poolEntry (h : ∀ b, (s.agents b).Tidy) (a : AgentId) :
    ∀ b, ((s.poolEntry a).1.agents b).Tidy := by
  rcases poolEntry_cases s a with ⟨pool, -, heq⟩ | ⟨-, heq⟩ <;> rw [heq] <;> exact h

theorem tidy_spawnChild (h : ∀ b, (s.agents b).Tidy) (child : ChildHandle) (prompt : String)
    (generation : Nat) : ∀ b, ((s.spawnChild a child prompt generation).agents b).Tidy :=
  tidy_setAgent (tidy_poolEntry h a) ⟨rfl, nofun, nofun, nofun⟩

theorem familyStep_joinReady {r : CompletionResponse} {rs : List ContentBlock} {child : ChildHandle}
    (hphase : (s.agents a).phase = .driving (.running r rs) (.join child))
    (hu : Noted s u a) : FamilyStep s (joinReady a (.running r rs) child choice u) := by
  have hpost : s.family.post a = .joining child.id := by
    rw [post_eq, hphase]
    rfl
  have hfreed : ∀ result, (u.agents child.id).phase.post.finished = true →
      FamilyStep s ({ u.dropWait a with permits := u.permits + 1 }.toolEnds a (.running r rs) result) := by
    intro result hdone
    have hdrop := (noted_dropWait hu).sameFamily
    refine familyStep_step hdrop.tidy rfl rfl ?_
    have hfam : Session.family { u.dropWait a with permits := u.permits + 1 } =
        { s.family with permits := s.family.permits + 1 } := by
      rw [← hdrop.family]
      rfl
    rw [hfam]
    refine .joined hpost ?_ (post_done result)
    rw [post_eq, ← hu.sameFamily.phase_post]
    exact hdone
  rw [joinReady]
  simp only
  split
  · rename_i result hc
    exact hfreed _ (by rw [hc]; rfl)
  · rename_i display hc _
    exact hfreed _ (by rw [hc]; rfl)
  · exact familyStep_pend hu.sameFamily (by rw [hu.phase, hphase]; rfl)

theorem familyStep_doneReady {r : CompletionResponse} {rs : List ContentBlock} {chan : Nat}
    (hphase : (s.agents a).phase = .driving (.running r rs) (.anyWait chan))
    (hu : Noted s u a) : FamilyStep s (doneReady a (.running r rs) chan u) := by
  have hpost : s.family.post a = .receiving chan none := by
    rw [post_eq, hphase]
    rfl
  have hdrop := (noted_dropWait hu).sameFamily
  have hchans : u.chans = s.family.chans := congrArg Family.chans hu.sameFamily.family
  unfold doneReady
  split
  · rename_i child rest hchan
    refine familyStep_step hdrop.tidy rfl rfl ?_
    have hfam : Session.family { u.dropWait a with chans := Function.update u.chans chan rest } =
        { s.family with chans := Function.update s.family.chans chan rest } := by
      rw [← hdrop.family]
      rfl
    rw [hfam]
    exact .hear hpost (by rw [← hchans]; exact hchan)
  · split
    · refine familyStep_goes hdrop (.inl ?_) rfl nofun
      rw [hphase]
      rfl
    · exact familyStep_pend hu.sameFamily (by rw [hu.phase, hphase]; rfl)

section Running

variable (h : ∀ b, (s.agents b).Tidy) {r : CompletionResponse} {rs : List ContentBlock}

include h

theorem familyStep_insertChild {child : ChildHandle} {result : Except HarnessError ToolDisposition}
    (hpost : (s.agents a).phase.post = .inserting child.id ∧ (ToolPc.done result).post = .plain ∨
      (s.agents a).phase.post = .returning child.id ∧ (ToolPc.done result).post = .leaving) :
    FamilyStep s ((s.insertChild a child).toolEnds a (.running r rs) result) := by
  refine familyStep_step (tidy_poolEntry h a) rfl rfl ?_
  rw [family_insertChild]
  exact .insert hpost

theorem familyStep_putDoneRx {chan : Nat} {signalled : Option AgentId} {tool' : ToolPc}
    (hpost : (s.agents a).phase.post = .receiving chan signalled)
    (hto : tool'.post = signalled.elim .leaving .hearing) :
    FamilyStep s ((s.putDoneRx a chan).toTool a (.running r rs) tool') := by
  refine familyStep_step (tidy_setPool h a _) rfl rfl ?_
  have hpool : ((s.registry a).map fun pool => { pool with doneRx := some chan }).map ChildPool.ids =
      (s.family.pool a).map fun pool => { pool with rx := some chan } := by
    simp only [family, Option.map_map]
    rfl
  rw [putDoneRx, family_setPool, hpool, Phase.post, hto]
  exact .put hpost

theorem familyStep_choose {child : AgentId} (hpost : (s.agents a).phase.post = .plain ∨
    (s.agents a).phase.post = .hearing child) (hmem : child ∈ (s.children a).map ChildHandle.id) :
    FamilyStep s (s.toTool a (.running r rs) (.collect child)) := by
  refine familyStep_step h rfl rfl (.choose hpost ?_)
  rw [family_kids]
  exact hmem

theorem familyStep_childStep (hphase : (s.agents a).phase = .driving (.running r rs) tool)
    (hstep : s.childStep a (.running r rs) choice tool = some t) : FamilyStep s t := by
  have hrun : ∃ r' rs', Stage.running r rs = .running r' rs' := ⟨r, rs, rfl⟩
  have hrefl := Noted.refl h a
  have hpost : (s.agents a).phase.post = tool.post := by
    rw [hphase]
    rfl
  cases tool with
  | spawnEntry child prompt generation =>
      simp only [childStep, Option.some.injEq] at hstep
      subst hstep
      apply familyStep_step (tidy_spawnChild h child prompt generation) rfl rfl
      rw [family_spawnChild]
      exact .birth hpost
  | spawnInsert child =>
      simp only [childStep, Option.some.injEq] at hstep
      subst hstep
      exact familyStep_insertChild h (.inl ⟨hpost, rfl⟩)
  | awaitKnown requested =>
      simp only [childStep] at hstep
      split at hstep <;> cases hstep
      · rename_i child hfind
        exact familyStep_choose h (.inl hpost) (List.mem_map_of_mem (List.mem_of_find?_eq_some hfind))
      · exact familyStep_toolEnds hrefl.sameFamily hrun hpost _
  | awaitHas =>
      simp only [childStep] at hstep
      split at hstep <;> cases hstep
      · exact familyStep_toolEnds hrefl.sameFamily hrun hpost _
      · exact familyStep_toTool hrefl.sameFamily hrun hpost (.inl rfl)
  | anyFinished =>
      simp only [childStep] at hstep
      split at hstep
      · cases hstep
        exact familyStep_toTool hrefl.sameFamily hrun hpost (.inl rfl)
      · split at hstep <;> cases hstep
        rename_i hany
        obtain ⟨child, hmem, hid⟩ := List.any_eq_true.mp hany
        rw [decide_eq_true_eq] at hid
        apply familyStep_choose h (.inl hpost)
        rw [← hid]
        exact List.mem_map_of_mem (List.mem_of_mem_filter hmem)
  | anyTakeRx =>
      simp only [childStep] at hstep
      split at hstep
      · cases hstep
        exact familyStep_toolEnds hrefl.sameFamily hrun hpost _
      · rename_i pool hreg
        have hhas : s.family.pool a = some pool.ids := by
          simp [family, hreg]
        split at hstep <;> cases hstep
        · rename_i chan hrx
          apply familyStep_step (tidy_setPool h a _) rfl rfl
          rw [family_setPool]
          have hparked : pool.ids.rx = some chan := hrx
          exact .take hpost hhas hparked
        · rename_i hrx
          exact familyStep_step h rfl rfl (.missing hpost hhas hrx)
  | anyWait chan =>
      simp only [childStep, Option.some.injEq] at hstep
      subst hstep
      refine familyStep_orAbort h ?_ fun u hu => familyStep_doneReady hphase hu
      intro u reason hu
      refine familyStep_goes hu.sameFamily (.inl ?_) rfl (by rintro ⟨⟩)
      rw [hpost]
      rfl
  | anyPut chan signalled =>
      cases signalled <;>
      · simp only [childStep, Option.some.injEq] at hstep
        subst hstep
        exact familyStep_putDoneRx h hpost rfl
  | anyAbort chan reason =>
      simp only [childStep, Option.some.injEq] at hstep
      subst hstep
      have hreceiving : (s.agents a).phase.post = .receiving chan none := hpost
      apply familyStep_putDoneRx h hreceiving
      cases reason <;> rfl
  | anyStill child =>
      simp only [childStep] at hstep
      split at hstep <;> cases hstep
      · rename_i hany
        obtain ⟨c, hmem, hid⟩ := List.any_eq_true.mp hany
        rw [decide_eq_true_eq] at hid
        apply familyStep_choose h (.inr hpost)
        rw [← hid]
        exact List.mem_map_of_mem hmem
      · rename_i hnone
        refine familyStep_step h rfl rfl (.skip (.inl hpost) ?_)
        rw [family_kids]
        intro hmem
        obtain ⟨c, hc, hid⟩ := List.mem_map.mp hmem
        exact hnone (List.any_eq_true.mpr ⟨c, hc, by simpa using hid⟩)
  | collect child =>
      simp only [childStep] at hstep
      split at hstep <;> cases hstep
      · rename_i pool handle hreg hfind
        have hid : handle.id = child := by simpa using List.find?_some hfind
        have hmem := List.mem_of_find?_eq_some hfind
        rw [children, hreg] at hmem
        have hhas : s.family.pool a = some pool.ids := by
          simp [family, hreg]
        apply familyStep_step (tidy_setPool h a _) rfl rfl
        have hids : (some { pool with children := pool.children.filter fun c => c.id ≠ child }).map ChildPool.ids =
            some { pool.ids with children := pool.ids.children.filter (· ≠ child) } := by
          simp only [Option.map_some, ChildPool.ids, List.filter_map]
          rfl
        rw [family_setPool, hids]
        subst hid
        exact .collect hpost hhas (List.mem_map_of_mem hmem)
      · rename_i hnone
        refine familyStep_step h rfl rfl (.skip (.inr hpost) ?_)
        rw [family_kids]
        intro hmem
        obtain ⟨c, hc, hid⟩ := List.mem_map.mp hmem
        cases hreg : s.registry a with
        | none =>
            rw [children, hreg] at hc
            cases hc
        | some pool =>
            have hfind : ((s.children a).find? fun d => d.id = child).isSome = true :=
              List.find?_isSome.mpr ⟨c, hc, by simpa using hid⟩
            obtain ⟨handle, hhandle⟩ := Option.isSome_iff_exists.mp hfind
            exact hnone pool handle hreg hhandle
  | join child =>
      simp only [childStep, Option.some.injEq] at hstep
      subst hstep
      refine familyStep_orAbort h ?_ fun u hu => familyStep_joinReady hphase hu
      intro u reason hu
      refine familyStep_goes hu.sameFamily (.inr ?_) rfl (by rintro ⟨⟩)
      rw [hpost]
      exact .giveUp
  | reinsert child reason =>
      simp only [childStep, Option.some.injEq] at hstep
      subst hstep
      refine familyStep_insertChild h (.inr ⟨hpost, ?_⟩)
      cases reason <;> rfl
  | _ => cases hstep

end Running

theorem familyStep_runAgentTool (h : ∀ b, (s.agents b).Tidy) (hrun : ∃ r rs, stage = .running r rs)
    (hfrom : (s.agents a).phase.post = .plain) : FamilyStep s (s.runAgentTool a stage call) := by
  have hends := familyStep_toolEnds (sameFamily_refl h) hrun hfrom
  rw [runAgentTool]
  simp only
  split
  · exact hends _
  · split
    · exact hends _
    · split
      · exact hends _
      · rename_i prompt _ hshallow hfree
        obtain ⟨r, rs, rfl⟩ := hrun
        refine familyStep_step h rfl rfl ?_
        have hfam : Session.family ({ s with counter := s.counter + 1, permits := s.permits - 1 }.record
            [.event (.agentSpawned a s.counter
              (((call.input.get "name").bind Json.asStr).filter (· ≠ "")) prompt)]) = s.family.charge := by
          simp only [family, record, List.filterMap_append, Family.charge]
          rfl
        rw [hfam]
        exact .spawn hfrom (Nat.not_le.mp hshallow) (Nat.pos_of_ne_zero hfree)

theorem familyStep_startTool (h : ∀ b, (s.agents b).Tidy) (hrun : ∃ r rs, stage = .running r rs)
    (hfrom : (s.agents a).phase.post = .plain) : FamilyStep s (s.startTool ctx a stage call) := by
  have hplace : ∀ {tool'}, ToolPc.post tool' = .plain → FamilyStep s (s.toTool a stage tool') :=
    fun hto => familyStep_toTool (sameFamily_refl h) hrun hfrom (.inl hto)
  rw [startTool]
  split
  · exact hplace rfl
  · split
    · exact hplace rfl
    · exact hplace rfl
  · split
    · split
      · exact hplace rfl
      · exact hplace rfl
    · exact familyStep_runAgentTool h hrun hfrom
  · exact familyStep_toolEnds (sameFamily_refl h) hrun hfrom _

theorem familyStep_checkpointStep (h : ∀ b, (s.agents b).Tidy) (hfrom : (s.agents a).phase.post = .plain)
    (hstep : s.checkpointStep ctx a stage = some t) : FamilyStep s t := by
  rw [checkpointStep] at hstep
  simp only at hstep
  obtain ⟨step, hadv, rfl⟩ := Option.map_eq_some_iff.mp hstep
  have hsig := sameFamily_setSignal h (s.signal.checkpoint (s.turn a).generation).1
  have hfamilyStep := familyStep_advance hsig (Drive.unmarked_advance _ hadv) (.inl hfrom)
  split
  · rename_i r rs call hstage _
    -- the place after the advance is that of a new tool call, so that the family is the same
    set u := (s.setSignal (s.signal.checkpoint (s.turn a).generation).1).advance a step with hu
    have hidle : (u.agents a).phase = .driving (.running r rs) .idle := by
      rw [hu, advance_phase, hstage]
      rfl
    have hsameFamily : SameFamily s u := by
      refine ⟨?_, hfamilyStep.tidy⟩
      have hrec := hsig.trans (sameFamily_record hsig.tidy (Drive.unmarked_advance _ hadv))
      have hfam : u.family = ((s.setSignal (s.signal.checkpoint (s.turn a).generation).1).record
          step.2).family.setPost a (phaseOf a step.1.stage).post :=
        family_setAgent ⟨rfl, rfl, rfl, rfl, rfl⟩
      rw [hfam, hstage, hrec.family]
      exact setPost_same (by rw [post_eq, hfrom]; rfl)
    rw [hstage]
    exact hsameFamily.then (familyStep_startTool hsameFamily.tidy ⟨r, rs, rfl⟩ (by rw [hidle]; rfl))
  · exact hfamilyStep

theorem toolDone_leaving {turn : Turn} {d : Drive} {response : CompletionResponse}
    {results : List ContentBlock} {result : Except HarnessError ToolDisposition}
    (h : (ToolPc.done result).post = .leaving) :
    ∃ outcome, (d.toolDone turn response results call result).1.stage = .ended outcome := by
  cases result with
  | error error => cases h
  | ok disposition =>
      cases disposition with
      | output | scriptFailed => cases h
      | shutdown | interrupted => exact ⟨_, rfl⟩

theorem familyStep_driveStep (h : ∀ b, (s.agents b).Tidy) (hphase : (s.agents a).phase = .driving stage tool)
    (hstep : s.driveStep ctx a stage choice tool = some t) : FamilyStep s t := by
  have hidle : (∀ r rs, stage ≠ .running r rs) → (s.agents a).phase.post = .plain := by
    intro hrun
    have hok := (h a).tools
    rw [hphase] at hok ⊢
    cases stage with
    | running r rs => exact absurd rfl (hrun r rs)
    | top | asking | calling | ended => cases tool <;> first | rfl | cases hok
  cases stage with
  | top =>
      have hcheck : s.checkpointStep ctx a .top = some t := hstep
      exact familyStep_checkpointStep h (hidle nofun) hcheck
  | calling response results =>
      have hcheck : s.checkpointStep ctx a (.calling response results) = some t := hstep
      exact familyStep_checkpointStep h (hidle nofun) hcheck
  | asking =>
      have hfrom := hidle nofun
      simp only [driveStep, Option.some.injEq] at hstep
      subst hstep
      apply familyStep_orAbort h
      · intro u reason hu
        refine familyStep_advance hu.sameFamily ?_ (.inl hfrom)
        cases reason <;> rfl
      · intro u hu
        rw [completionReady]
        split
        · exact familyStep_advance (noted_dropWait hu).sameFamily (Drive.unmarked_completed _ _) (.inl hfrom)
        · apply familyStep_pend hu.sameFamily
          have hok := (h a).tools
          rw [hu.phase, hphase]
          rw [hphase] at hok
          cases tool <;> first | rfl | cases hok
  | running response results =>
      simp only [driveStep] at hstep
      obtain ⟨call, -, hcall⟩ := Option.bind_eq_some_iff.mp hstep
      split at hcall
      · rename_i result
        cases hcall
        apply familyStep_advance (sameFamily_refl h) (Drive.unmarked_toolDone _ _ _ _ _)
        rw [hphase]
        rcases post_done result with hpost | hpost
        · exact .inl hpost
        · exact .inr ⟨hpost, toolDone_leaving hpost⟩
      · rcases Option.or_eq_some_iff.mp hcall with hout | ⟨-, hchild⟩
        · exact familyStep_outsideStep h hphase ⟨_, _, rfl⟩ hout
        · exact familyStep_childStep h hphase hchild
  | ended result => cases hstep

end Session

end Silo.Harness
