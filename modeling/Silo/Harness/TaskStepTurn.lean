import Silo.Harness.TaskStepDrive

namespace Silo.Harness

open Silo.Core Silo.Lib

namespace Session

variable {ctx : SessionCtx} {s t u : Session} {a : AgentId} {answer : Answer}

theorem FrameOk.alone {f : Frame} (h : s.FrameOk a f) (hal : Alone s t a) : t.FrameOk a f := by
  refine ⟨fun c hc => (h.rest c hc).alone hal, ?_⟩
  intro c hc
  obtain ⟨hkin, hend⟩ := h.current c hc
  have hb := hal.staysPut c.id (Nat.ne_of_gt hkin.younger)
  refine ⟨hkin.alone hal, hend.imp hb.aborted ?_⟩
  rw [Agent.finished, Agent.finished, hb.phase]
  exact id

section Walk

variable {result : Except HarnessError TurnOutcome} {walk walk' : Walk}

theorem taskStep_walk (hact : Acting s a) (hphase : (s.agents a).phase = .cancelling result walk)
    (hal : Alone s t a) (hnotes : Notes s t)
    (hself : t.agents a = { s.agents a with phase := .cancelling result walk', suspended := false })
    (hwalk : t.WalkOk a walk') (hpool : t.registry a = s.registry a ∨ t.registry a = none)
    (heffort : Effort s t a answer) : TaskStep s t a answer := by
  have hok := hact.ok.phase
  rw [hphase] at hok
  refine taskStep_alone hact hal (hnotes.words (by rw [hself])) (by simp [hself]) ?_ ?_ ?_ heffort
  · rw [hself]
    exact ⟨hok.1.grows hal.feeds.grows hal.generation, hwalk⟩
  · intro w hw
    rw [hself] at hw
    have hk := (hact.ok.wait w hw).kind
    rw [hphase] at hk
    cases hk
  · intro p hp
    rcases hpool with heq | hnone
    · rw [heq] at hp
      obtain ⟨hkin, hchan, hrx⟩ := hact.ok.pool p hp
      refine ⟨fun c hc => (hkin c hc).alone hal, hchan, fun _ hdone => ?_⟩
      have := hrx hact.aborted hdone
      rw [hphase] at this
      cases this
    · rw [hnone] at hp
      cases hp

theorem Kin.trans {b c : AgentId} (h : s.Kin a b) (h' : s.Kin b c) : s.Kin a c :=
  ⟨Nat.lt_trans h.younger h'.younger, h'.born, Nat.le_trans h'.generation h.generation⟩

theorem taskStep_enter {e : AgentId} {frames : List Frame} {pool : ChildPool} (hact : Acting s a)
    (hall : ∀ b, s.AgentOk b) (hphase : (s.agents a).phase = .cancelling result ⟨some e, frames⟩)
    (hreg : s.registry e = some pool) :
    TaskStep s ((s.setPool e none).goto a
      (.cancelling result ⟨none, ⟨e, pool.children, none, 0, pool.chan⟩ :: frames⟩)) a answer := by
  set walk' : Walk := ⟨none, ⟨e, pool.children, none, 0, pool.chan⟩ :: frames⟩ with hw
  set t := (s.setPool e none).goto a (.cancelling result walk') with ht
  have hok := hact.ok.phase
  rw [hphase] at hok
  have hself : t.agents a = { s.agents a with phase := .cancelling result walk', suspended := false } := by
    simp [ht, goto, setAgent, setPool]
  have hentering := hok.2.entering e rfl
  have hregistry : t.registry = Function.update s.registry e none := by simp [ht, goto, setAgent, setPool]
  have hal : Alone s t a := by
    refine ⟨?_, by rw [hself], by rw [hself], by rw [hself], Nat.le_refl _, .refl _⟩
    intro b hb
    have heq : t.agents b = s.agents b := by simp [ht, goto, setAgent, setPool, hb]
    by_cases hbe : b = e
    · subst hbe
      obtain ⟨-, hab⟩ := hentering.resolve_left hb
      exact ⟨by rw [heq], by rw [heq], by rw [heq], by rw [heq], by rw [heq], by rw [heq], by rw [heq]; exact id,
        .inr ⟨by simp [hregistry], by rw [heq]; exact hab⟩⟩
    · exact staysPut_of_eq heq (by simp [hregistry, hbe])
  have hrest : ∀ c ∈ pool.children, s.Kin a c.id := by
    intro c hc
    have hkin := ((hall e).pool pool hreg).children c hc
    rcases hentering with rfl | ⟨hae, -⟩
    · exact hkin
    · exact hae.trans hkin
  have hcost : (Phase.cancelling result walk').cost + 3 + pool.children.length =
      (Phase.cancelling result ⟨some e, frames⟩).cost + 2 + 6 * pool.children.length := by
    simp only [hw, Phase.cost, Frame.cost, List.map_cons, List.sum_cons, Option.toList, List.length_nil,
      List.length_cons]
    omega
  refine taskStep_walk hact hphase hal (notes_same rfl rfl) hself ⟨by simp [hw], ?_⟩ ?_ ?_
  · intro f hf
    rcases List.mem_cons.mp hf with rfl | hf
    · exact ⟨fun c hc => (hrest c hc).alone hal, by simp⟩
    · exact (hok.2.frames f hf).alone hal
  · by_cases hae : a = e
    · exact .inr (by simp [hregistry, hae])
    · exact .inl (by simp [hregistry, hae])
  · by_cases hae : a = e
    · refine .lighter ?_
      have hs : s.weight a = (Phase.cancelling result ⟨some e, frames⟩).cost + (3 + 6 * pool.children.length) := by
        rw [weight, hphase, hae, hreg, poolCost]
      have ht' : t.weight a = (Phase.cancelling result walk').cost := by
        rw [weight, hself, hregistry, hae, Function.update_self, poolCost, Nat.add_zero]
      omega
    · have hea : e ≠ a := fun h => hae h.symm
      obtain ⟨hkin, -⟩ := hentering.resolve_left hea
      refine .entered hkin ?_
      have he : t.weight e + (3 + 6 * pool.children.length) = s.weight e := by
        have heq : t.agents e = s.agents e := by simp [ht, goto, setAgent, setPool, hea]
        simp [weight, heq, hregistry, hreg, poolCost]
      have ha : t.weight a + 3 + pool.children.length = s.weight a + 2 + 6 * pool.children.length := by
        simp only [weight, hself, hphase, hregistry, Function.update_of_ne hae]
        omega
      omega

theorem taskStep_turn (hact : Acting s a) (hphase : (s.agents a).phase = .cancelling result walk)
    (hc : OnlyLooks s u a) (hwait : (u.agents a).wait = (s.agents a).wait)
    (hwalk : ∀ t, Alone s t a → t.WalkOk a walk')
    (hcost : (Phase.cancelling result walk').cost < (Phase.cancelling result walk).cost) :
    TaskStep s (u.goto a (.cancelling result walk')) a answer := by
  have hal := alone_goto hc (u.registry a) (.cancelling result walk')
  rw [setPool_self] at hal
  have hself : (u.goto a (.cancelling result walk')).agents a =
      { s.agents a with phase := .cancelling result walk', suspended := false } := by
    simp only [goto, setAgent, Function.update_self]
    rw [hc.agent, hwait]
  have hreg : (u.goto a (.cancelling result walk')).registry a = s.registry a := by
    rw [← hc.registry]
    rfl
  refine taskStep_walk hact hphase hal hc.notes hself (hwalk _ hal) (.inl hreg) (.lighter ?_)
  simp only [weight, hself, hphase, hreg]
  omega

theorem taskStep_pick {o : AgentId} {rest : List ChildHandle} {cancelled chan : Nat} {frames : List Frame}
    {child : ChildHandle} (hact : Acting s a)
    (hphase : (s.agents a).phase = .cancelling result ⟨none, ⟨o, rest, none, cancelled, chan⟩ :: frames⟩)
    (hmem : child ∈ rest) :
    TaskStep s ((s.abortTask child.id).goto a (.cancelling result
      ⟨some child.id, ⟨o, rest.filter fun c => c.id ≠ child.id, some child, cancelled, chan⟩ :: frames⟩)) a
      answer := by
  set walk' : Walk :=
    ⟨some child.id, ⟨o, rest.filter fun c => c.id ≠ child.id, some child, cancelled, chan⟩ :: frames⟩ with hw
  set t := (s.abortTask child.id).goto a (.cancelling result walk') with ht
  have hok := hact.ok.phase
  rw [hphase] at hok
  have hhead := hok.2.frames _ (List.mem_cons_self ..)
  have hkin := hhead.rest child hmem
  have hne : child.id ≠ a := Nat.ne_of_gt hkin.younger
  have hself : t.agents a = { s.agents a with phase := .cancelling result walk', suspended := false } := by
    simp [ht, goto, abortTask, setAgent, hne.symm]
  have hchild : t.agents child.id = { s.agents child.id with aborted := true } := by
    simp [ht, goto, abortTask, setAgent, hne]
  have hal : Alone s t a := by
    refine ⟨?_, by rw [hself], by rw [hself], by rw [hself], Nat.le_refl _, .refl _⟩
    intro b hb
    by_cases hbc : b = child.id
    · subst hbc
      exact ⟨by rw [hchild], by rw [hchild], by rw [hchild], by rw [hchild], by rw [hchild], by rw [hchild],
        by rw [hchild]; exact fun _ => rfl, .inl rfl⟩
    · exact staysPut_of_eq (by simp [ht, goto, abortTask, setAgent, hb, hbc]) rfl
  have habort : (t.agents child.id).aborted = true := by rw [hchild]
  refine taskStep_walk hact hphase hal (notes_same rfl rfl) hself ⟨?_, ?_⟩ (.inl rfl) (.lighter ?_)
  · intro e he
    cases he
    exact .inr ⟨hkin.alone hal, habort⟩
  · intro f hf
    rcases List.mem_cons.mp hf with rfl | hf
    · refine ⟨fun c hc => (hhead.rest c (List.mem_of_mem_filter hc)).alone hal, ?_⟩
      intro c hc
      cases hc
      exact ⟨hkin.alone hal, .inl habort⟩
    · exact (hok.2.frames f (List.mem_cons_of_mem _ hf)).alone hal
  · have hlt : (rest.filter fun c => c.id ≠ child.id).length < rest.length :=
      List.length_filter_lt_length_iff_exists.mpr ⟨child, hmem, by simp⟩
    have hreg : t.registry a = s.registry a := rfl
    rw [weight, weight, hself, hphase, hreg]
    simp only [hw, Phase.cost, Frame.cost, List.map_cons, List.sum_cons, Option.toList, List.length_nil,
      List.length_cons]
    omega

theorem alone_reaped (s : Session) (a : AgentId) {c : AgentId} (hne : c ≠ a) (records : List Record)
    (permits : Nat) (phase : Phase) :
    Alone s ((({ s with permits := permits }.record records).setAgent c
      { s.agents c with emitted := true }).goto a phase) a := by
  refine ⟨?_, ?_, ?_, ?_, Nat.le_refl _, .refl _⟩
  · intro b hb
    by_cases hbc : b = c
    · subst hbc
      refine ⟨?_, ?_, ?_, ?_, ?_, ?_, ?_, .inl rfl⟩ <;> simp [goto, setAgent, record, hb]
    · exact staysPut_of_eq (by simp [goto, setAgent, record, hb, hbc]) rfl
  · simp [goto, setAgent, record, hne.symm]
  · simp [goto, setAgent, record, hne.symm]
  · simp [goto, setAgent, record, hne.symm]

theorem taskStep_reap {o : AgentId} {rest : List ChildHandle} {cancelled chan : Nat} {frames : List Frame}
    {child : ChildHandle} (hact : Acting s a)
    (hphase : (s.agents a).phase =
      .cancelling result ⟨none, ⟨o, rest, some child, cancelled, chan⟩ :: frames⟩) :
    TaskStep s (s.reap a result child ⟨o, rest, some child, cancelled, chan⟩ frames) a answer := by
  have hok := hact.ok.phase
  rw [hphase] at hok
  have hhead := hok.2.frames _ (List.mem_cons_self ..)
  have hne : child.id ≠ a := Nat.ne_of_gt (hhead.current child rfl).1.younger
  set walk' : Walk := ⟨none, ⟨o, rest, none,
    if (s.agents child.id).emitted then cancelled else cancelled + 1, chan⟩ :: frames⟩ with hw
  set t := s.reap a result child ⟨o, rest, some child, cancelled, chan⟩ frames
  have hal : Alone s t a := alone_reaped s a hne _ _ _
  have hself : t.agents a = { s.agents a with phase := .cancelling result walk', suspended := false } := by
    simp [t, hw, reap, goto, setAgent, record, hne.symm]
  refine taskStep_walk hact hphase hal ?_ hself ⟨by simp [hw], ?_⟩ (.inl rfl) (.lighter ?_)
  · refine notes_records rfl rfl ?_
    split
    · exact silent_nil
    · simp [Silent, Record.command, Record.speaker]
  · intro f hf
    rcases List.mem_cons.mp hf with rfl | hf
    · exact ⟨fun c hc => (hhead.rest c hc).alone hal, by simp⟩
    · exact (hok.2.frames f (List.mem_cons_of_mem _ hf)).alone hal
  · have hreg : t.registry a = s.registry a := rfl
    simp only [weight, hself, hphase, hreg, hw, Phase.cost, Frame.cost, List.map_cons, List.sum_cons,
      Option.toList, List.length_nil, List.length_cons]
    omega

theorem taskStep_cancelStep {choice : Choice} (hact : Acting s a) (hall : ∀ b, s.AgentOk b)
    (hphase : (s.agents a).phase = .cancelling result walk)
    (hstep : s.cancelStep a choice result walk = some t) : TaskStep s t a choice.answer := by
  have hok := hact.ok.phase
  rw [hphase] at hok
  obtain ⟨entering, frames⟩ := walk
  cases entering with
  | some e =>
      simp only [cancelStep] at hstep
      cases hreg : s.registry e with
      | none =>
          rw [hreg] at hstep
          cases hstep
          exact taskStep_turn hact hphase (.refl s a) rfl
            (fun t hal => ⟨by simp, fun f hf => (hok.2.frames f hf).alone hal⟩) (by simp [Phase.cost])
      | some pool =>
          rw [hreg] at hstep
          cases hstep
          exact taskStep_enter hact hall hphase hreg
  | none =>
      cases frames with
      | nil =>
          simp only [cancelStep, Option.some.injEq] at hstep
          subst hstep
          have hal := alone_goto (.refl s a) (s.registry a) (.returned result)
          rw [setPool_self] at hal
          have hself : (s.goto a (.returned result)).agents a =
              { s.agents a with phase := .returned result, suspended := false } := by
            simp [goto, setAgent]
          have hnotes : Notes s (s.goto a (.returned result)) := notes_same rfl rfl
          refine taskStep_alone hact hal (hnotes.words (by rw [hself])) (by simp [hself]) ?_ ?_ ?_ (.lighter ?_)
          · rw [hself]
            exact hok.1.grows hal.feeds.grows hal.generation
          · intro w hw
            rw [hself] at hw
            have hk := (hact.ok.wait w hw).kind
            rw [hphase] at hk
            cases hk
          · intro p hp
            obtain ⟨hkin, hchan, hrx⟩ := hact.ok.pool p hp
            refine ⟨fun c hc => (hkin c hc).alone hal, hchan, fun _ hdone => ?_⟩
            have := hrx hact.aborted hdone
            rw [hphase] at this
            cases this
          · have hreg : (s.goto a (.returned result)).registry a = s.registry a := rfl
            simp only [weight, hself, hphase, hreg, Phase.cost]
            omega
      | cons f frames =>
          obtain ⟨o, rest, current, cancelled, chan⟩ := f
          cases current with
          | some child =>
              simp only [cancelStep] at hstep
              split at hstep <;> cases hstep
              · exact taskStep_reap hact hphase
              · rename_i hfin
                refine taskStep_pend hact (.refl s a) ?_ ?_ (fun _ => .inr (.inr ⟨child.id, by rw [hphase]; rfl, ?_⟩))
                · rw [hphase]
                  have hal := alone_pend (.refl s a)
                  exact ⟨hok.1.grows hal.feeds.grows hal.generation, by simp,
                    fun f hf => (hok.2.frames f hf).alone hal⟩
                · intro w hw
                  obtain ⟨hk, hs, hi⟩ := hact.ok.wait w hw
                  exact ⟨hk, hs, hi⟩
                · simpa using hfin
          | none =>
              simp only [cancelStep] at hstep
              split at hstep
              · rename_i hempty
                cases hstep
                refine taskStep_turn hact hphase (onlyLooks_record ?_ a) rfl
                  (fun t hal => ⟨by simp, fun f hf => (hok.2.frames f (List.mem_cons_of_mem _ hf)).alone hal⟩) ?_
                · split
                  · exact silent_lifecycle _
                  · exact silent_nil
                · simp only [Phase.cost, Frame.cost, List.map_cons, List.sum_cons]
                  omega
              · obtain ⟨child, hfind, rfl⟩ := Option.map_eq_some_iff.mp hstep
                exact taskStep_pick hact hphase (List.mem_of_find?_eq_some hfind)

end Walk

end Session

end Silo.Harness
