import Silo.Lib.Family
import Silo.Harness.Discipline

namespace Silo.Harness

open Silo.Core Silo.Lib

abbrev Report := String × Bool

def ChildResult.report (result : ChildResult) : Report := (result.output, result.isError)

def ToolPc.post : ToolPc → Post Report
  | .spawnEntry child _ _ => .spawning child.id
  | .spawnInsert child => .inserting child.id
  | .reinsert child _ => .returning child.id
  | .join child => .joining child.id
  | .anyWait chan => .receiving chan none
  | .anyPut chan signalled => .receiving chan signalled
  | .anyAbort chan _ => .receiving chan none
  | .anyStill child => .hearing child
  | .collect child => .chosen child
  | .done (.ok .shutdown) | .done (.ok .interrupted) => .leaving
  | _ => .plain

def Frame.ids (f : Frame) : List Nat × Option Nat :=
  (f.rest.map ChildHandle.id, f.current.map ChildHandle.id)

namespace Phase

def post : Phase → Post Report
  | .unborn => .unborn
  | .head | .input | .interrupting | .over _ => .plain
  | .driving _ tool => tool.post
  | .cancelling _ walk => .walking walk.entering (walk.frames.map Frame.ids)
  | .returned _ => .returned
  | .finishing result => .finishing result.report
  | .completed result => .completed result.report
  | .dropped => .dropped

def swift : Phase → Bool
  | .driving _ (.spawnEntry _ _ _) | .finishing _ => true
  | _ => false

end Phase

def Record.mark : Record → Option (Mark Report)
  | .event (.agentSpawned _ child _ _) => some (.spawned child)
  | .event (.agentCompleted child result isError) => some (.completed child (result, isError))
  | _ => none

def ChildPool.ids (pool : ChildPool) : Pool :=
  ⟨pool.children.map ChildHandle.id, pool.chan, pool.doneRx⟩

/-- Only a running tool call has a place of its own, and only the top level has
no parent. -/
structure Agent.Tidy (x : Agent) : Prop where
  tools : x.phase.toolOk = true
  swift : x.phase.swift = true → x.suspended = false
  top : x.phase.topLevel = true → x.parent = none
  root : x.parent = none → x.turn.depth = 0

namespace Session

variable {ctx : SessionCtx} {s t u : Session} {a : AgentId} {stage : Stage} {tool : ToolPc}

def family (s : Session) : Family Report where
  post a := (s.agents a).phase.post
  parent a := (s.agents a).parent
  depth a := (s.agents a).turn.depth
  aborted a := (s.agents a).aborted
  emitted a := (s.agents a).emitted
  signal a := (s.agents a).doneTx
  pool a := (s.registry a).map ChildPool.ids
  chans := s.chans
  nextChan := s.nextChan
  counter := s.counter
  permits := s.permits
  marks := s.log.filterMap Record.mark

structure FamilyStep (s t : Session) : Prop where
  family : t.family = s.family ∨ Family.Step maxSubagentDepth s.family t.family
  tidy : ∀ b, (t.agents b).Tidy

structure SameFamily (s t : Session) : Prop where
  family : t.family = s.family
  tidy : ∀ b, (t.agents b).Tidy

theorem SameFamily.familyStep (h : SameFamily s t) : FamilyStep s t := ⟨.inl h.family, h.tidy⟩

theorem SameFamily.trans (h : SameFamily s t) (h' : SameFamily t u) : SameFamily s u := ⟨h'.family.trans h.family, h'.tidy⟩

theorem SameFamily.then (h : SameFamily s t) (h' : FamilyStep t u) : FamilyStep s u := ⟨h.family ▸ h'.family, h'.tidy⟩

theorem sameFamily_refl (h : ∀ b, (s.agents b).Tidy) : SameFamily s s := ⟨rfl, h⟩

def Unmarked (records : List Record) : Prop := records.filterMap Record.mark = []

theorem unmarked_cons {r : Record} {records : List Record} (hr : r.mark = none) (h : Unmarked records) :
    Unmarked (r :: records) := by
  rw [Unmarked, List.filterMap_cons_none hr]
  exact h

theorem unmarked_append {l l' : List Record} (h : Unmarked l) (h' : Unmarked l') : Unmarked (l ++ l') := by
  rw [Unmarked, List.filterMap_append, h, h']
  rfl

theorem unmarked_of_forall {records : List Record} (h : ∀ r ∈ records, r.mark = none) :
    Unmarked records :=
  List.filterMap_eq_nil_iff.mpr h

theorem sameFamily_record (h : ∀ b, (s.agents b).Tidy) {records : List Record} (hr : Unmarked records) :
    SameFamily s (s.record records) := by
  refine ⟨?_, h⟩
  rw [family, record]
  simp only [List.filterMap_append]
  rw [hr, List.append_nil]
  rfl

theorem sameFamily_setSignal (h : ∀ b, (s.agents b).Tidy) (sig : Signal AgentId) : SameFamily s (s.setSignal sig) := by
  refine ⟨?_, h⟩
  have hnone : Unmarked ((sig.applied.drop s.signal.applied.length).map
      fun command => Record.journal (.frontendCommand command)) := by
    apply unmarked_of_forall
    intro r hr
    obtain ⟨command, -, rfl⟩ := List.mem_map.mp hr
    rfl
  rw [family, setSignal]
  simp only [List.filterMap_append]
  rw [hnone, List.append_nil]
  rfl

structure SameKin (x y : Agent) : Prop where
  parent : y.parent = x.parent
  depth : y.turn.depth = x.turn.depth
  aborted : y.aborted = x.aborted
  emitted : y.emitted = x.emitted
  doneTx : y.doneTx = x.doneTx

theorem family_update (s : Session) (a : AgentId) (x : Agent) :
    (s.setAgent a x).family = { s.family with
      post := Function.update s.family.post a x.phase.post
      parent := Function.update s.family.parent a x.parent
      depth := Function.update s.family.depth a x.turn.depth
      aborted := Function.update s.family.aborted a x.aborted
      emitted := Function.update s.family.emitted a x.emitted
      signal := Function.update s.family.signal a x.doneTx } := by
  simp only [family, Family.mk.injEq]
  refine ⟨?_, ?_, ?_, ?_, ?_, ?_, rfl, rfl, rfl, rfl, rfl, rfl⟩
  all_goals
    funext b
    by_cases hb : b = a
    · subst hb
      simp [setAgent]
    · simp [setAgent, hb]

theorem family_setAgent {x : Agent} (hx : SameKin (s.agents a) x) :
    (s.setAgent a x).family = s.family.setPost a x.phase.post := by
  have hparent : Function.update s.family.parent a x.parent = s.family.parent := by
    rw [hx.parent]
    exact Function.update_eq_self ..
  have hdepth : Function.update s.family.depth a x.turn.depth = s.family.depth := by
    rw [hx.depth]
    exact Function.update_eq_self ..
  have haborted : Function.update s.family.aborted a x.aborted = s.family.aborted := by
    rw [hx.aborted]
    exact Function.update_eq_self ..
  have hemitted : Function.update s.family.emitted a x.emitted = s.family.emitted := by
    rw [hx.emitted]
    exact Function.update_eq_self ..
  have hsignal : Function.update s.family.signal a x.doneTx = s.family.signal := by
    rw [hx.doneTx]
    exact Function.update_eq_self ..
  rw [family_update, hparent, hdepth, haborted, hemitted, hsignal]
  rfl

theorem family_setPool (s : Session) (a : AgentId) (pool : Option ChildPool) :
    (s.setPool a pool).family = s.family.setPool a (pool.map ChildPool.ids) := by
  simp only [family, Family.setPool, Family.mk.injEq]
  refine ⟨rfl, rfl, rfl, rfl, rfl, rfl, ?_, rfl, rfl, rfl, rfl, rfl⟩
  funext b
  by_cases hb : b = a
  · subst hb
    simp [setPool]
  · simp [setPool, hb]

theorem family_kids (s : Session) (a : AgentId) :
    s.family.kids a = (s.children a).map ChildHandle.id := by
  simp only [Family.kids, family, children, Option.map_map]
  cases s.registry a <;> rfl

theorem family_poolEntry (s : Session) (a : AgentId) :
    (s.poolEntry a).1.family = (s.family.entry a).1 ∧ (s.poolEntry a).2.ids = (s.family.entry a).2 := by
  have hpool : s.family.pool a = (s.registry a).map ChildPool.ids := rfl
  rcases poolEntry_cases s a with ⟨pool, hreg, heq⟩ | ⟨hreg, heq⟩
  · rw [heq, Family.entry, hpool, hreg]
    exact ⟨rfl, rfl⟩
  · rw [heq, Family.entry, hpool, hreg]
    refine ⟨?_, rfl⟩
    rw [family_setPool]
    rfl

theorem family_insertChild (s : Session) (a : AgentId) (child : ChildHandle) :
    (s.insertChild a child).family = s.family.insert a child.id := by
  obtain ⟨hfam, hids⟩ := family_poolEntry s a
  simp only [insertChild]
  rw [family_setPool, hfam, Family.insert, ← hids]
  simp [ChildPool.ids]

theorem family_spawnChild (s : Session) (a : AgentId) (child : ChildHandle) (prompt : String)
    (generation : Nat) : (s.spawnChild a child prompt generation).family = s.family.bear a child.id := by
  obtain ⟨hfam, hids⟩ := family_poolEntry s a
  have hagents : (s.poolEntry a).1.agents = s.agents := by
    rcases poolEntry_cases s a with ⟨pool, -, heq⟩ | ⟨-, heq⟩
    · rw [heq]
    · rw [heq]
      rfl
  simp only [spawnChild]
  rw [family_update, Family.bear, ← hids, ← hfam]
  simp only [family, hagents]
  rfl

theorem tidy_setAgent {x : Agent} (h : ∀ b, (s.agents b).Tidy) (hx : x.Tidy) :
    ∀ b, ((s.setAgent a x).agents b).Tidy := by
  intro b
  by_cases hb : b = a
  · subst hb
    simpa [setAgent] using hx
  · simpa [setAgent, hb] using h b

theorem sameFamily_setAgent {x : Agent} (h : ∀ b, (s.agents b).Tidy) (hx : SameKin (s.agents a) x)
    (hphase : x.phase = (s.agents a).phase) (htidy : x.Tidy) : SameFamily s (s.setAgent a x) := by
  refine ⟨?_, tidy_setAgent h htidy⟩
  rw [family_setAgent hx, hphase]
  exact congrArg (fun post => ({ s.family with post := post } : Family Report))
    (Function.update_eq_self a s.family.post)

theorem sameFamily_pend (h : ∀ b, (s.agents b).Tidy) (hswift : (s.agents a).phase.swift = false) :
    SameFamily s (s.pend a) := by
  refine sameFamily_setAgent h ⟨rfl, rfl, rfl, rfl, rfl⟩ rfl ⟨(h a).tools, ?_, (h a).top, (h a).root⟩
  intro hs
  rw [hswift] at hs
  cases hs

theorem sameFamily_setWait (h : ∀ b, (s.agents b).Tidy) (w : Option Wait) :
    SameFamily s (s.setAgent a { s.agents a with wait := w }) :=
  sameFamily_setAgent h ⟨rfl, rfl, rfl, rfl, rfl⟩ rfl ⟨(h a).tools, (h a).swift, (h a).top, (h a).root⟩

theorem sameFamily_dropWait (h : ∀ b, (s.agents b).Tidy) : SameFamily s (s.dropWait a) := by
  have hsig : SameFamily s { s with signal := s.signal.dropWait a } := ⟨rfl, h⟩
  exact hsig.trans (sameFamily_setWait hsig.tidy none)

theorem sameFamily_pollWait (h : ∀ b, (s.agents b).Tidy) (kind : WaitKind) (command : Bool) :
    SameFamily s (s.pollWait a kind command).1 := by
  rw [pollWait]
  simp only
  split
  · exact (sameFamily_setSignal h _).trans (sameFamily_setWait (s := s.setSignal _) h none)
  · exact (sameFamily_setSignal h _).trans (sameFamily_setWait (s := s.setSignal _) h _)

theorem tidy_goto (h : ∀ b, (s.agents b).Tidy) {phase : Phase} (htools : phase.toolOk = true)
    (htop : phase.topLevel = true → (s.agents a).parent = none) :
    ∀ b, ((s.goto a phase).agents b).Tidy :=
  tidy_setAgent h ⟨htools, fun _ => rfl, htop, (h a).root⟩

theorem family_goto (s : Session) (a : AgentId) (phase : Phase) :
    (s.goto a phase).family = s.family.setPost a phase.post :=
  family_setAgent ⟨rfl, rfl, rfl, rfl, rfl⟩

theorem setPost_same {v : Family Report} {p : Post Report} (h : v.post a = p) : v.setPost a p = v := by
  rw [← h]
  exact congrArg (fun post => ({ v with post := post } : Family Report)) (Function.update_eq_self a v.post)

theorem post_eq (s : Session) (a : AgentId) : s.family.post a = (s.agents a).phase.post := rfl

theorem SameFamily.phase_post (h : SameFamily s t) : (t.agents a).phase.post = (s.agents a).phase.post :=
  congrFun (congrArg Family.post h.family) a

theorem familyStep_goes {phase : Phase} (hu : SameFamily s u)
    (hg : phase.post = (s.agents a).phase.post ∨ Post.Goes a (s.agents a).phase.post phase.post)
    (htools : phase.toolOk = true) (htop : phase.topLevel = true → (u.agents a).parent = none) :
    FamilyStep s (u.goto a phase) := by
  refine hu.then ⟨?_, tidy_goto hu.tidy htools htop⟩
  rw [family_goto]
  rw [← hu.phase_post] at hg
  rcases hg with heq | hg
  · exact .inl (setPost_same (by rw [post_eq, heq]))
  · exact .inr (.goes (by rw [post_eq]; exact hg))

theorem familyStep_toTool {tool' : ToolPc} (hu : SameFamily s u) (hrun : ∃ r rs, stage = .running r rs)
    (hfrom : (s.agents a).phase.post = .plain) (hto : tool'.post = .plain ∨ tool'.post = .leaving) :
    FamilyStep s (u.toTool a stage tool') := by
  obtain ⟨r, rs, rfl⟩ := hrun
  refine familyStep_goes hu ?_ rfl nofun
  rw [hfrom]
  rcases hto with hto | hto
  · exact .inl hto
  · refine .inr ?_
    rw [Phase.post, hto]
    exact .leave

theorem post_done (result : Except HarnessError ToolDisposition) :
    (ToolPc.done result).post = .plain ∨ (ToolPc.done result).post = .leaving := by
  cases result with
  | error error => exact .inl rfl
  | ok disposition =>
      cases disposition with
      | output | scriptFailed => exact .inl rfl
      | shutdown | interrupted => exact .inr rfl

theorem familyStep_toolEnds (hu : SameFamily s u) (hrun : ∃ r rs, stage = .running r rs)
    (hfrom : (s.agents a).phase.post = .plain) (result : Except HarnessError ToolDisposition) :
    FamilyStep s (u.toolEnds a stage result) :=
  familyStep_toTool hu hrun hfrom (post_done result)

theorem familyStep_pend (hu : SameFamily s u) (hswift : (u.agents a).phase.swift = false) : FamilyStep s (u.pend a) :=
  (hu.trans (sameFamily_pend hu.tidy hswift)).familyStep

theorem familyStep_advance {step : Advance} (hu : SameFamily s u) (hr : Unmarked step.2)
    (hfrom : (s.agents a).phase.post = .plain ∨
      ((s.agents a).phase.post = .leaving ∧ ∃ result, step.1.stage = .ended result)) :
    FamilyStep s (u.advance a step) := by
  have hrec := hu.trans (sameFamily_record hu.tidy hr)
  have hkin : SameKin ((u.record step.2).agents a) { u.agents a with
      messages := step.1.messages, phase := phaseOf a step.1.stage, suspended := false } :=
    ⟨rfl, rfl, rfl, rfl, rfl⟩
  refine hrec.then ⟨?_, tidy_setAgent hrec.tidy ⟨?_, fun _ => rfl, ?_, (hu.tidy a).root⟩⟩
  · have hpost : (u.record step.2).family.post a = (s.agents a).phase.post := by
      rw [post_eq]
      exact hrec.phase_post
    rw [advance, family_setAgent hkin]
    simp only
    rcases hfrom with hplain | ⟨hleaving, result, hended⟩
    · cases hstage : step.1.stage with
      | ended result => exact .inr (.goes (by rw [hpost, hplain]; exact .quit))
      | top | asking | calling | running => exact .inl (setPost_same (by rw [hpost, hplain]; rfl))
    · rw [hended]
      exact .inr (.goes (by rw [hpost, hleaving]; exact .left))
  · cases hstage : step.1.stage <;> rfl
  · intro htop
    cases hstage : step.1.stage <;> simp [phaseOf, hstage, Phase.topLevel] at htop

end Session

namespace Drive

open Session

variable {ctx : SessionCtx} {turn : Turn} (d : Drive)

theorem unmarked_endOfTurn (response : CompletionResponse) : Unmarked (d.endOfTurn turn response).2 := by
  apply unmarked_append
  · split
    · rfl
    · rfl
  · split
    · rfl
    · rfl

theorem unmarked_completed (result : Except LlmError CompletionResponse) :
    Unmarked (d.completed ctx turn result).2 := by
  cases result with
  | error error => cases error <;> rfl
  | ok response =>
      simp only [completed, responded]
      refine unmarked_append (unmarked_cons rfl (unmarked_append (unmarked_of_forall ?_) rfl)) ?_
      · intro r hr
        obtain ⟨text, -, rfl⟩ := List.mem_map.mp hr
        rfl
      · split
        · exact unmarked_endOfTurn _ response
        · rfl

theorem unmarked_nextCall (response : CompletionResponse) (results : List ContentBlock) :
    Unmarked (d.nextCall turn response results).2 := by
  rw [nextCall]
  split
  · rfl
  · split
    · rfl
    · exact unmarked_endOfTurn _ response

theorem unmarked_toolDone (response : CompletionResponse) (results : List ContentBlock) (call : ToolCall)
    (result : Except HarnessError ToolDisposition) :
    Unmarked (d.toolDone turn response results call result).2 := by
  cases result with
  | error error => rfl
  | ok disposition =>
      cases disposition with
      | output owner output => exact unmarked_cons rfl (unmarked_cons rfl (unmarked_nextCall d _ _))
      | shutdown | interrupted | scriptFailed => rfl

theorem unmarked_advance {step : Advance} {reply : Reply} (h : d.advance ctx turn reply = some step) :
    Unmarked step.2 := by
  unfold advance at h
  split at h
  · rename_i found _
    cases h
    cases found <;> rfl
  · rename_i reason _
    cases h
    cases reason <;> rfl
  · cases h
    exact unmarked_completed d _
  · rename_i found _
    obtain ⟨call, -, rfl⟩ := Option.map_eq_some_iff.mp h
    cases found <;> rfl
  · obtain ⟨call, -, rfl⟩ := Option.map_eq_some_iff.mp h
    exact unmarked_toolDone d _ _ _ _
  · cases h

end Drive

end Silo.Harness
