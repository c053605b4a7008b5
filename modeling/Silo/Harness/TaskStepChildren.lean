import Silo.Harness.TaskStepTools

namespace Silo.Harness

open Silo.Core Silo.Lib

namespace Session

variable {s t u : Session} {a : AgentId} {r : CompletionResponse} {rs : List ContentBlock}
  {tool tool' : ToolPc} {answer : Answer}

theorem onlyLooks_nextChan (s : Session) (a : AgentId) (n : Nat) : OnlyLooks s { s with nextChan := n } a :=
  ⟨fun _ _ => rfl, rfl, rfl, rfl, .refl _, .refl s⟩

/-- A handle goes into the pool of `a`, which is made when there is none. -/
theorem insertChild_eq (s : Session) (a : AgentId) (child : ChildHandle) :
    ∃ n pool, s.insertChild a child = { s with nextChan := n }.setPool a (some pool) ∧
      poolCost (some pool) < poolCost (s.registry a) + 20 ∧
      (∀ c ∈ pool.children, c = child ∨ ∃ old, s.registry a = some old ∧ c ∈ old.children) ∧
      ((∃ old, s.registry a = some old ∧ pool.chan = old.chan ∧ pool.doneRx = old.doneRx) ∨
        pool.doneRx = some pool.chan) := by
  rcases poolEntry_cases s a with ⟨pool, hreg, heq⟩ | ⟨hreg, heq⟩
  · refine ⟨s.nextChan, { pool with children := pool.children ++ [child] }, ?_, ?_, ?_, .inl ⟨pool, hreg, rfl, rfl⟩⟩
    · simp only [insertChild, heq]
    · simp only [hreg, poolCost, List.length_append, List.length_singleton]
      omega
    · intro c hc
      rcases List.mem_append.mp hc with hold | hnew
      · exact .inr ⟨pool, hreg, hold⟩
      · exact .inl (List.mem_singleton.mp hnew)
  · refine ⟨s.nextChan + 1, ⟨[child], s.nextChan, some s.nextChan⟩, ?_, ?_, ?_, .inr rfl⟩
    · simp [insertChild, heq, setPool]
    · simp [poolCost]
    · intro c hc
      exact .inl (List.mem_singleton.mp hc)

theorem taskStep_insertChild {child : ChildHandle} (hact : Acting s a)
    (hphase : (s.agents a).phase = .driving (.running r rs) tool)
    (hwait : (s.agents a).wait = none) (hkin : s.Kin a child.id)
    {result : Except HarnessError ToolDisposition} (hj : s.Justified a result)
    (hrx : (Phase.driving (.running r rs) tool).usesRx = false) (hrank : 1 < tool.rank) :
    TaskStep s ((s.insertChild a child).toolEnds a (.running r rs) result) a answer := by
  obtain ⟨n, pool, heq, hcost, hchildren, hdone⟩ := insertChild_eq s a child
  rw [heq]
  refine taskStep_toTool hact hphase (onlyLooks_nextChan s a n) hwait ?_ ?_ (.inl ⟨hrank, hcost⟩)
  · exact toolOk_done (s := s) (by rfl) (generation_toTool _ a _ _) hj
  · intro p hp
    cases hp
    refine ⟨?_, ?_, ?_⟩
    · intro c hc
      rcases hchildren c hc with rfl | ⟨old, hreg, hold⟩
      · exact hkin
      · exact (hact.ok.pool old hreg).children c hold
    · intro chan hchan
      rcases hdone with ⟨old, hreg, hc, hd⟩ | hd
      · rw [hc]
        exact (hact.ok.pool old hreg).chan chan (hd ▸ hchan)
      · rw [hd] at hchan
        exact (Option.some.inj hchan).symm
    · intro hnone
      rcases hdone with ⟨old, hreg, -, hd⟩ | hd
      · have := (hact.ok.pool old hreg).doneRx hact.aborted (hd ▸ hnone)
        rw [hphase, hrx] at this
        cases this
      · rw [hd] at hnone
        cases hnone

theorem taskStep_putDoneRx {chan : Nat} (hact : Acting s a)
    (hphase : (s.agents a).phase = .driving (.running r rs) tool)
    (hwait : (s.agents a).wait = none) (hchan : s.HasChan a chan)
    (hok : ((s.putDoneRx a chan).toTool a (.running r rs) tool').ToolOk a tool')
    (hrank : tool'.rank < tool.rank) :
    TaskStep s ((s.putDoneRx a chan).toTool a (.running r rs) tool') a answer := by
  obtain ⟨pool, hreg, hc⟩ := hchan hact.aborted
  have hput : s.putDoneRx a chan = s.setPool a (some { pool with doneRx := some chan }) := by
    rw [putDoneRx, hreg]
    rfl
  rw [hput] at hok ⊢
  refine taskStep_toTool hact hphase (.refl s a) hwait hok ?_ (.inl ⟨hrank, ?_⟩)
  · intro p hp
    cases hp
    refine ⟨(hact.ok.pool pool hreg).children, ?_, by simp⟩
    intro chan' hchan'
    cases hchan'
    exact hc.symm
  · simp only [hreg, poolCost]
    omega

theorem hasPool_toTool (h : s.HasPool a) (stage : Stage) (tool : ToolPc) :
    (s.toTool a stage tool).HasPool a := by
  simpa [HasPool, toTool, goto, setAgent] using h

theorem not_chanClosed {chan : Nat} (pool : ChildPool) (hlt : a < s.counter)
    (hreg : s.registry a = some pool) (hchan : pool.chan = chan) : s.chanClosed chan = false := by
  rw [chanClosed, List.all_eq_false]
  refine ⟨a, List.mem_range.mpr hlt, ?_⟩
  simp [hreg, hchan]

theorem taskStep_doneReady {chan : Nat} (hact : Acting s a) (hlt : a < s.counter)
    (hphase : (s.agents a).phase = .driving (.running r rs) (.anyWait chan)) (hc : OnlyLooks s u a)
    (hdue : ¬ u.Due a)
    (hwait : Parked s u a) :
    TaskStep s (doneReady a (.running r rs) chan u) a answer := by
  have htool : s.HasChan a chan := hact.toolOk hphase
  obtain ⟨pool, hreg, hchan⟩ := htool hact.aborted
  have hlen := hact.length hphase
  rw [doneReady]
  split
  · refine taskStep_place hact hphase ((hc.trans (onlyLooks_dropWait u a)).trans (onlyLooks_chans _ a _))
      (dropWait_wait u a) ⟨?_, rfl⟩ (fun _ => rfl) (.inr ?_)
    · intro _
      refine ⟨pool, ?_, hchan⟩
      rw [← hreg, ← hc.registry]
      rfl
    · refine fun hd => hdue ((due_congr ?_ ?_ ?_).mp hd)
      · simp [toTool, goto, setAgent, dropWait]
      · simp [toTool, goto, setAgent, dropWait]
      · simp [generation, toTool, goto, setAgent, dropWait]
  · split
    · rename_i hclosed
      rw [not_chanClosed pool (by rw [hc.counter]; exact hlt) (by rw [hc.registry]; exact hreg) hchan] at hclosed
      cases hclosed
    · refine taskStep_pend hact hc ?_ hwait (fun _ => .inl hdue)
      rw [hphase]
      refine ⟨hlen, fun _ => ⟨pool, ?_, hchan⟩⟩
      rw [← hreg, ← hc.registry]
      rfl

theorem justified_collected {child : ChildHandle} {result : ChildResult}
    (h : result.shutdown = true → u.signal.state.isSome = true) :
    u.Justified a (.ok (collected child result)) := by
  rw [collected]
  split
  · rename_i hs
    exact h hs
  · split
    · trivial
    · trivial

theorem taskStep_joinReady {child : ChildHandle} {choice : Choice} (hact : Acting s a)
    (hphase : (s.agents a).phase = .driving (.running r rs) (.join child)) (hc : OnlyLooks s u a)
    (hchild : s.AgentOk child.id) (hdue : ¬ u.Due a)
    (hwait : Parked s u a) :
    TaskStep s (joinReady a (.running r rs) child choice u) a answer := by
  have hkin : s.Kin a child.id := hact.toolOk hphase
  have hother : u.agents child.id = s.agents child.id := hc.others _ (Nat.ne_of_gt hkin.younger)
  have honlyLooks := (hc.trans (onlyLooks_dropWait u a)).trans (onlyLooks_permits (u.dropWait a) a (u.permits + 1))
  have hlen := hact.length hphase
  rw [joinReady]
  simp only
  split
  · rename_i result hcompleted
    rw [hother] at hcompleted
    refine taskStep_toolEnds hact hphase honlyLooks (dropWait_wait u a) (justified_collected ?_) rfl (by simp [ToolPc.rank])
    intro hs
    have hok := hchild.phase
    rw [hcompleted] at hok
    simpa [dropWait, setAgent] using isSome_of_grows hc.feeds.grows (hok hs)
  · exact taskStep_toolEnds hact hphase honlyLooks (dropWait_wait u a) trivial rfl (by simp [ToolPc.rank])
  · refine taskStep_pend hact hc ?_ hwait (fun _ => .inl hdue)
    rw [hphase]
    exact ⟨hlen, hkin.alone (alone_pend hc)⟩

def newborn (s : Session) (a : AgentId) (child : ChildHandle) (prompt : String) (generation chan : Nat) :
    Agent :=
  ⟨some a, ⟨child.id, .subagent, (s.agents a).turn.depth + 1, generation⟩, [.userText prompt], 0,
    .driving .top .idle, none, true, false, false, chan⟩

theorem spawnChild_eq (s : Session) (a : AgentId) (child : ChildHandle) (prompt : String)
    (generation : Nat) :
    ∃ n pool, s.spawnChild a child prompt generation =
        ({ s with nextChan := n }.setPool a (some pool)).setAgent child.id
          (newborn s a child prompt generation pool.chan) ∧
      (s.registry a = some pool ∨ (pool.children = [] ∧ pool.doneRx = some pool.chan)) := by
  rcases poolEntry_cases s a with ⟨pool, hreg, heq⟩ | ⟨hreg, heq⟩
  · refine ⟨s.nextChan, pool, ?_, .inl hreg⟩
    have hself : s.setPool a (some pool) = s := by
      rw [← hreg]
      exact setPool_self s a
    simp only [spawnChild, heq]
    rw [hself]
    rfl
  · refine ⟨s.nextChan + 1, ⟨[], s.nextChan, some s.nextChan⟩, ?_, .inr ⟨rfl, rfl⟩⟩
    simp only [spawnChild, heq]
    rfl

theorem taskStep_spawn {child : ChildHandle} {prompt : String} {generation : Nat} (hact : Acting s a)
    (hphase : (s.agents a).phase = .driving (.running r rs) (.spawnEntry child prompt generation))
    (hnone : s.registry child.id = none) :
    TaskStep s ((s.spawnChild a child prompt generation).toTool a (.running r rs) (.spawnInsert child)) a
      answer := by
  obtain ⟨n, pool, hspawn, hpool⟩ := spawnChild_eq s a child prompt generation
  have hwaiting := hact.unwaiting hphase rfl
  obtain ⟨hsusp, hstate, hgen, hgeneration, hunborn, hyounger, hlt⟩ := hact.toolOk hphase
  have hne : child.id ≠ a := Nat.ne_of_gt hyounger
  set t := (s.spawnChild a child prompt generation).toTool a (.running r rs) (.spawnInsert child) with ht
  have hother : ∀ b, b ≠ a → b ≠ child.id → t.agents b = s.agents b := by
    intro b hb hc
    simp [ht, hspawn, toTool, goto, setAgent, setPool, hb, hc]
  have ha : t.agents a = { s.agents a with
      phase := .driving (.running r rs) (.spawnInsert child), suspended := false } := by
    simp [ht, hspawn, toTool, goto, setAgent, setPool, hne.symm]
  have hc : t.agents child.id = newborn s a child prompt generation pool.chan := by
    simp [ht, hspawn, toTool, goto, setAgent, hne]
  have hreg : t.registry = Function.update s.registry a (some pool) := by
    simp [ht, hspawn, toTool, goto, setAgent, setPool]
  have hsig : t.signal = s.signal := by simp [ht, hspawn, toTool, goto, setAgent, setPool]
  have hlog : t.log = s.log := by simp [ht, hspawn, toTool, goto, setAgent, setPool]
  have hcounter : t.counter = s.counter := by simp [ht, hspawn, toTool, goto, setAgent, setPool]
  have hgena : t.generation a = s.generation a := by rw [Session.generation, ha, Session.generation]
  have hgenc : t.generation child.id = s.signal.interrupts := by
    rw [Session.generation, hc, newborn]
    exact hgeneration
  have hundue : ∀ b, t.generation b = s.signal.interrupts → ¬ t.Due b := by
    rintro b hb (hs | hi)
    · rw [hsig, hstate] at hs
      cases hs
    · rw [hsig, hb] at hi
      exact Nat.lt_irrefl _ hi
  have hstaysPut : ∀ b, b ≠ a → b ≠ child.id → StaysPut s t b := by
    intro b hb hbc
    exact staysPut_of_eq (hother b hb hbc) (by simp [hreg, hb])
  have hkin : ∀ c, s.Kin a c → t.Kin a c := by
    intro c hk
    have hca : c ≠ a := Nat.ne_of_gt hk.younger
    have hcc : c ≠ child.id := by
      rintro rfl
      exact hk.born hunborn
    refine ⟨hk.younger, ?_, ?_⟩
    · rw [hother c hca hcc]
      exact hk.born
    · rw [(hstaysPut c hca hcc).generation, hgena]
      exact hk.generation
  have hnotes : Notes s t := notes_same hlog (by rw [hsig])
  have hborn : ∀ b, b ≠ a → (s.agents b).phase ≠ .unborn → StaysPut s t b := by
    intro b hb hborn
    apply hstaysPut b hb
    rintro rfl
    exact hborn hunborn
  have hfeeds : s.signal.Feeds t.signal := by
    rw [hsig]
    exact .refl _
  refine ⟨⟨?_, hfeeds.grows, ⟨[], by simp [hlog]⟩, Nat.le_of_eq hcounter.symm⟩, hfeeds, hborn,
    ⟨?_, ?_, ?_, ?_, ?_, ?_, ?_⟩, ?_, Nat.le_of_eq hgena.symm, fun _ => hgena, hnotes.words (by rw [ha]), .free (hundue a (hgena.trans hgen))⟩
  · intro c hc
    by_cases hca : c = a
    · subst hca
      refine ⟨by simp [ha], fun _ => hgena, by rw [ha]; exact id, ?_⟩
      rw [hact.unfinished]
      intro hf
      cases hf
    · exact (hborn c hca hc).lasts hc
  · rw [ha]
    refine ⟨hact.length hphase, hyounger, by simp [hc, newborn], ?_⟩
    exact Nat.le_of_eq (hgenc.trans (hgena.trans hgen).symm)
  · intro w hw
    rw [ha] at hw
    simp only [hwaiting] at hw
    cases hw
  · intro p hp
    rw [hreg, Function.update_self] at hp
    cases hp
    rcases hpool with hold | ⟨hnil, hdone⟩
    · obtain ⟨hk, hchan, hrx⟩ := hact.ok.pool pool hold
      refine ⟨fun c hcm => hkin c.id (hk c hcm), hchan, fun _ hn => ?_⟩
      have := hrx hact.aborted hn
      rw [hphase] at this
      cases this
    · refine ⟨by simp [hnil], ?_, by simp [hdone]⟩
      intro chan hchan
      rw [hdone] at hchan
      exact (Option.some.inj hchan).symm
  · rw [ha]
    simp [hact.aborted]
  · rw [hgena, hsig]
    exact hact.ok.snapshot
  · intro _ hp
    rw [ha] at hp
    exact hact.ok.root hact.born hp
  · intro _
    rw [ha]
    exact hact.ok.own hact.born
  · intro b hb hub
    by_cases hbc : b = child.id
    · subst hbc
      refine .inr ⟨⟨⟨?_, ?_, ?_, ?_, ?_, ?_, ?_⟩, by simp [hc, newborn, Agent.polling], hundue _ hgenc⟩,
        by rw [hcounter]; exact hlt⟩
      · rw [hc]
        exact rfl
      · simp [hc, newborn]
      · intro p hp
        rw [hreg, Function.update_of_ne hb, hnone] at hp
        cases hp
      · simp [hc, newborn]
      · exact Nat.le_of_eq (hgenc.trans (by rw [hsig]))
      · simp [hc, newborn]
      · simp [hc, newborn]
    · exact .inl (hstaysPut b hb hbc)

theorem taskStep_childStep {choice : Choice} (hact : Acting s a) (hlt : a < s.counter)
    (hall : ∀ b, s.AgentOk b) (hphase : (s.agents a).phase = .driving (.running r rs) tool)
    (hstep : s.childStep a (.running r rs) choice tool = some t) : TaskStep s t a choice.answer := by
  have hrefl := OnlyLooks.refl s a
  have htool := hact.toolOk hphase
  cases tool with
  | spawnEntry child prompt generation =>
      simp only [childStep, Option.some.injEq] at hstep
      subst hstep
      have hunborn := (hall child.id).phase
      rw [htool.2.2.2.2.1] at hunborn
      exact taskStep_spawn hact hphase hunborn
  | spawnInsert child =>
      simp only [childStep, Option.some.injEq] at hstep
      subst hstep
      exact taskStep_insertChild hact hphase (hact.unwaiting hphase rfl) htool trivial rfl (by simp [ToolPc.rank])
  | awaitKnown requested =>
      have hnone := hact.unwaiting hphase rfl
      simp only [childStep] at hstep
      split at hstep <;> cases hstep
      · exact taskStep_place hact hphase hrefl hnone trivial id (.inl (by simp [ToolPc.rank]))
      · exact taskStep_toolEnds hact hphase hrefl hnone trivial rfl (by simp [ToolPc.rank])
  | awaitHas =>
      have hnone := hact.unwaiting hphase rfl
      simp only [childStep] at hstep
      split at hstep <;> cases hstep
      · exact taskStep_toolEnds hact hphase hrefl hnone trivial rfl (by simp [ToolPc.rank])
      · rename_i hsome
        refine taskStep_place hact hphase hrefl hnone (hasPool_toTool ?_ _ _) id (.inl (by simp [ToolPc.rank]))
        intro _
        cases hreg : s.registry a with
        | none => simp [children, hreg] at hsome
        | some pool => rfl
  | anyFinished =>
      have hnone := hact.unwaiting hphase rfl
      simp only [childStep] at hstep
      split at hstep
      · cases hstep
        exact taskStep_place hact hphase hrefl hnone (hasPool_toTool htool _ _) id
          (.inl (by simp [ToolPc.rank]))
      · split at hstep <;> cases hstep
        exact taskStep_place hact hphase hrefl hnone trivial id (.inl (by simp [ToolPc.rank]))
  | anyTakeRx =>
      have hnone := hact.unwaiting hphase rfl
      simp only [childStep] at hstep
      split at hstep
      · rename_i hreg
        have hsome := htool hact.aborted
        rw [hreg] at hsome
        cases hsome
      · rename_i pool hreg
        obtain ⟨hkin, hchan, hrx⟩ := hact.ok.pool pool hreg
        split at hstep <;> cases hstep
        · rename_i chan hdone
          refine taskStep_toTool hact hphase hrefl hnone (fun _ => ⟨{ pool with doneRx := none }, ?_, (hchan chan hdone).symm⟩) ?_
            (.inl ⟨by simp [ToolPc.rank], by simp [hreg, poolCost]⟩)
          · simp [toTool, goto, setAgent, setPool]
          · rintro p hp
            cases hp
            exact ⟨hkin, by simp, fun _ => rfl⟩
        · rename_i hdone
          have := hrx hact.aborted hdone
          rw [hphase] at this
          cases this
  | anyWait chan =>
      simp only [childStep, Option.some.injEq] at hstep
      subst hstep
      refine taskStep_orAbort hact (by rw [hphase]; rfl) (fun u reason hu hw hm => ?_)
        (fun u hu hdue hw => taskStep_doneReady hact hlt hphase hu hdue hw)
      refine taskStep_place hact hphase hu hw ⟨?_, ?_⟩ (fun _ => rfl) (.inl (by simp [ToolPc.rank]))
      · obtain ⟨pool, hreg, hchan⟩ := htool hact.aborted
        intro _
        refine ⟨pool, ?_, hchan⟩
        rw [← hreg, ← hu.registry]
        rfl
      · exact Meant.grows (s := u) (by exact .refl _) (generation_toTool u a _ _) hm
  | anyPut chan signalled =>
      have hnone := hact.unwaiting hphase rfl
      cases signalled with
      | none => cases htool.2
      | some child =>
          simp only [childStep, Option.some.injEq] at hstep
          subst hstep
          refine taskStep_putDoneRx hact hphase hnone htool.1 ?_ (by simp [ToolPc.rank])
          obtain ⟨pool, hreg, -⟩ := htool.1 hact.aborted
          intro _
          simp [toTool, goto, setAgent, putDoneRx, setPool, hreg]
  | anyAbort chan reason =>
      have hnone := hact.unwaiting hphase rfl
      simp only [childStep, Option.some.injEq] at hstep
      subst hstep
      refine taskStep_putDoneRx hact hphase hnone htool.1 ?_ (by simp [ToolPc.rank])
      apply toolOk_done (s := s) (by rfl)
      · simp [generation, toTool, goto, setAgent, putDoneRx, setPool]
      · cases reason <;> exact htool.2
  | anyStill child =>
      have hnone := hact.unwaiting hphase rfl
      simp only [childStep] at hstep
      split at hstep <;> cases hstep
      · exact taskStep_place hact hphase hrefl hnone trivial id (.inl (by simp [ToolPc.rank]))
      · exact taskStep_place hact hphase hrefl hnone (hasPool_toTool htool _ _) id
          (.inl (by simp [ToolPc.rank]))
  | collect child =>
      have hnone := hact.unwaiting hphase rfl
      simp only [childStep] at hstep
      split at hstep <;> cases hstep
      · rename_i pool handle hreg hfind
        obtain ⟨hkin, hchan, hrx⟩ := hact.ok.pool pool hreg
        have hmem := List.mem_of_find?_eq_some hfind
        rw [children, hreg] at hmem
        refine taskStep_toTool hact hphase hrefl hnone ((hkin handle hmem).alone (alone_goto hrefl _ _)) ?_
          (.inl ⟨by simp [ToolPc.rank], ?_⟩)
        · rintro p hp
          cases hp
          refine ⟨fun c hc => hkin c (List.mem_of_mem_filter hc), hchan, fun hdone => ?_⟩
          have := hrx hact.aborted hdone
          rw [hphase] at this
          cases this
        · have := List.length_filter_le (fun c : ChildHandle => decide (c.id ≠ child)) pool.children
          simp only [hreg, poolCost]
          omega
      · exact taskStep_toolEnds hact hphase hrefl hnone trivial rfl (by simp [ToolPc.rank])
  | join child =>
      simp only [childStep, Option.some.injEq] at hstep
      subst hstep
      refine taskStep_orAbort hact (by rw [hphase]; rfl) (fun u reason hu hw hm => ?_)
        (fun u hu hdue hw => taskStep_joinReady hact hphase hu (hall child.id) hdue hw)
      refine taskStep_place hact hphase hu hw ⟨?_, ?_⟩ (fun h => by cases h) (.inl (by simp [ToolPc.rank]))
      · have hal := alone_goto hu (u.registry a) (.driving (.running r rs) (.reinsert child reason))
        rw [setPool_self] at hal
        exact htool.alone hal
      · exact Meant.grows (s := u) (by exact .refl _) (generation_toTool u a _ _) hm
  | reinsert child reason =>
      simp only [childStep, Option.some.injEq] at hstep
      subst hstep
      refine taskStep_insertChild hact hphase (hact.unwaiting hphase rfl) htool.1 ?_ rfl (by simp [ToolPc.rank])
      cases reason <;> exact htool.2
  | _ => cases hstep

end Session

end Silo.Harness
