import Silo.Core.Conversation
import Silo.Harness.FamilyRuns
import Silo.Harness.Outlive
import Silo.Harness.Responses

namespace Silo.Harness

open Silo.Core Silo.Lib

/-- A schema of an object. The keys of a JSON object are in alphabetical order. -/
def objectSchema (properties : List (String × Json)) (required : List String) : Json :=
  .object [("properties", .object properties), ("required", .array (required.map .string)),
    ("type", .string "object")]

def property (type description : String) : Json :=
  .object [("description", .string description), ("type", .string type)]

def askUserQuestionDef : ToolDef where
  name := "AskUserQuestion"
  description := "Ask the user a question and wait for the answer. The question is " ++
    "shown on every connected client; the first answer received is returned."
  inputSchema := objectSchema
    [("allow_free_text", property "boolean"
        "Whether the user may answer with free text instead of picking an option."),
     ("multi_select", property "boolean" "Whether the user may pick more than one option."),
     ("options", .object
        [("description", .string "Suggested answers the user can pick from."),
         ("items", .object
            [("properties", .object
                [("description", .object [("type", .string "string")]),
                 ("label", .object [("type", .string "string")])]),
             ("required", .array [.string "label"]),
             ("type", .string "object")]),
         ("type", .string "array")]),
     ("question", property "string" "The question to show the user.")]
    ["question"]
  availability := .topLevelOnly

def sendUserFileDef : ToolDef where
  name := "SendUserFile"
  description := "Send a file from the workspace to the user. The file is shown on " ++
    "every connected client."
  inputSchema := objectSchema
    [("caption", property "string" "Optional short caption shown with the file."),
     ("path", property "string" "Workspace path of the file to send.")]
    ["path"]
  availability := .topLevelOnly

def exitDef : ToolDef where
  name := "Exit"
  description := "End the session. Call this when the task is complete, with a final " ++
    "report message for the user."
  inputSchema := objectSchema [("message", property "string" "Final report shown to the user.")] ["message"]
  availability := .topLevelOnly

inductive FrontendKind
  | interactive
  | headless
  | mock
  deriving DecidableEq, Repr

def FrontendKind.toolDefs : FrontendKind → List ToolDef
  | .interactive => [askUserQuestionDef, sendUserFileDef]
  | .headless => [exitDef]
  | .mock => [askUserQuestionDef, sendUserFileDef, exitDef]

def agentToolDef : ToolDef where
  name := "Agent"
  description := "Launch a subagent to handle a self-contained task. The subagent runs " ++
    "in the same sandbox and workspace, receives the prompt as its task " ++
    "description, and works autonomously (it cannot ask the user questions). " ++
    "This call returns immediately with the subagent's id; the subagent runs " ++
    "in the background. Collect its final report with AwaitAgent. Launch " ++
    "several subagents, then await them, to run work in parallel."
  inputSchema := objectSchema
    [("name", property "string" "Optional short display name for the subagent."),
     ("prompt", property "string" "Complete, self-contained task description for the subagent.")]
    ["prompt"]
  availability := .both

def awaitAgentToolDef : ToolDef where
  name := "AwaitAgent"
  description := "Wait for a subagent launched with Agent to finish and collect its final " ++
    "report. With no input, waits for the first of your still-running " ++
    "subagents to finish. With an 'agent' id, waits for that specific " ++
    "subagent. Returns the subagent's id, display name, and final report (or " ++
    "its error output if it failed). Each subagent is collected once."
  inputSchema := .object
    [("properties", .object [("agent", property "string"
        ("Optional id of a specific subagent to wait for, as returned " ++
         "by the Agent tool. Omit to wait for the first of your " ++
         "running subagents to finish."))]),
     ("type", .string "object")]
  availability := .both

/-- The registry of a session. `sandboxTools` are the definitions of the sandbox,
which are all for both kinds of agents. -/
def sessionRegistry (sandboxTools : List ToolDef) (frontend : FrontendKind) : ToolRegistry :=
  sandboxTools.map (fun tool => ⟨tool, .sandbox⟩) ++ frontend.toolDefs.map (fun tool => ⟨tool, .frontend⟩) ++
    [⟨agentToolDef, .harness⟩, ⟨awaitAgentToolDef, .harness⟩]

theorem toolDefs_topLevelOnly (frontend : FrontendKind) :
    ∀ tool ∈ frontend.toolDefs, tool.availability = .topLevelOnly := by
  cases frontend <;> decide

theorem sessionRegistry_frontend (sandboxTools : List ToolDef) (frontend : FrontendKind) :
    ∀ e ∈ sessionRegistry sandboxTools frontend, e.owner = .frontend →
      e.tool.availability = .topLevelOnly := by
  intro e he howner
  simp only [sessionRegistry, List.mem_append, List.mem_map, List.mem_cons, List.not_mem_nil, or_false] at he
  rcases he with (⟨tool, -, rfl⟩ | ⟨tool, htool, rfl⟩) | rfl | rfl
  · cases howner
  · exact toolDefs_topLevelOnly frontend tool htool
  · cases howner
  · cases howner

def entryOf (registry : ToolRegistry) (name : String) : Option RegisteredTool :=
  registry.find? fun e => e.tool.name = name

def suits (registry : ToolRegistry) (kind : AgentKind) (call : ToolCall) : Bool :=
  (entryOf registry call.name).all fun e => e.tool.availability.availableTo kind

namespace Session

variable {ctx : SessionCtx} {s t : Session} {a : AgentId} {x y : Agent}

/-- The model's response calls only tools that are unknown or for agents of the
kind that gets it. -/
def offered (ctx : SessionCtx) (s : Session) : Act → Bool
  | .step a ⟨.completion (.ok response), _, _⟩ =>
    response.toolCalls.all (suits ctx.registry (s.agents a).turn.kind)
  | _ => true

structure Served (ctx : SessionCtx) (x : Agent) : Prop where
  calls : ∀ r, x.phase.response = some r → ∀ call ∈ r.toolCalls, suits ctx.registry x.turn.kind call = true
  frontend : ∀ stage tool, x.phase = .driving stage tool → tool.atFrontend = true →
    ∃ call, currentCall stage = some call ∧ ctx.registry.ownerOf call.name = some .frontend

theorem Served.heeds {answer : Answer} (h : Served ctx x) (hy : Heeds ctx x answer y)
    (hanswer : ∀ r, answer = .completion (.ok r) → ∀ call ∈ r.toolCalls, suits ctx.registry x.turn.kind call = true) :
    Served ctx y := by
  refine ⟨?_, ?_⟩
  · intro r hr
    obtain ⟨hturn, hold | hnew⟩ := hy.response r hr
    · rw [hturn]
      exact h.calls r hold
    · rw [hturn]
      exact hanswer r hnew
  · intro stage tool hp hat
    rcases hy.frontend stage tool hp hat with ⟨old, hx, hold⟩ | hcall
    · exact h.frontend stage old hx hold
    · exact hcall

theorem Served.alongside (h : Served ctx x) (hy : Alongside x y) : Served ctx y := by
  refine ⟨?_, ?_⟩
  · rw [hy.phase, hy.turn]
    exact h.calls
  · rw [hy.phase]
    exact h.frontend

theorem served_silent (hr : x.phase.response = none) (hf : x.phase.atFrontend = false) : Served ctx x := by
  refine ⟨?_, ?_⟩
  · intro r hsome
    rw [hr] at hsome
    cases hsome
  · intro stage tool hp hat
    rw [hp, Phase.atFrontend, hat] at hf
    cases hf

theorem JustBorn.served {child : ChildHandle} (h : JustBorn a child x) : Served ctx x := by
  refine served_silent ?_ ?_ <;> rw [h.phase] <;> rfl

theorem served_next {act : Act} (hh : FamilyInv s) (h : ∀ b, Served ctx (s.agents b))
    (hoff : offered ctx s act = true) (hnext : next ctx s act = some t) : ∀ b, Served ctx (t.agents b) := by
  cases act with
  | send command =>
      simp only [next] at hnext
      split at hnext <;> cases hnext
      exact h
  | hangUp | request =>
      cases hnext
      exact h
  | drop a =>
      simp only [next] at hnext
      split at hnext <;> cases hnext
      intro b
      by_cases hb : b = a
      · subst hb
        refine served_silent ?_ ?_ <;> simp [dropTask, setAgent, Phase.response, Phase.atFrontend]
      · simpa [dropTask, setAgent, hb] using h b
  | step a choice =>
      simp only [next] at hnext
      split at hnext
      · cases hnext
      · have hself : ∀ stage child prompt generation,
            (s.agents a).phase = .driving stage (.spawnEntry child prompt generation) → child.id ≠ a := by
          rintro stage child prompt generation hphase rfl
          have hpost : s.family.post child.id = .spawning child.id := by
            rw [post_eq, hphase]
            rfl
          have hunborn := hh.ledger.spawning _ _ hpost
          rw [hpost] at hunborn
          cases hunborn
        have hacting : Served ctx (t.agents a) := by
          refine (h a).heeds (heeds_step hself hnext) ?_
          intro r hanswer call hcall
          obtain ⟨answer, command, pick⟩ := choice
          cases hanswer
          exact List.all_eq_true.mp hoff call hcall
        intro b
        by_cases hb : b = a
        · rw [hb]
          exact hacting
        · cases leaves_step hnext with
          | othersStand hothersStand => exact (h b).alongside (hothersStand b hb)
          | spawn stage child prompt generation hphase hborn hrest =>
              by_cases hbc : b = child.id
              · rw [hbc]
                exact (hborn (hself stage child prompt generation hphase)).served
              · exact (h b).alongside (hrest b hb hbc)

theorem served_of_reachable (h : (machine ctx).ReachableUnder (fun s act => offered ctx s act = true) s) :
    ∀ b, Served ctx (s.agents b) := by
  have hboth : FamilyInv s ∧ ∀ b, Served ctx (s.agents b) := by
    refine h.invariant (I := fun s => FamilyInv s ∧ ∀ b, Served ctx (s.agents b)) ?_ ?_
    · rintro _ rfl
      refine ⟨familyInv_start, ?_⟩
      intro b
      rcases start_agents b with ⟨heq, -⟩ | heq
      · rw [heq]
        exact served_silent rfl rfl
      · rw [heq]
        exact served_silent rfl rfl
    · intro s u act hs hoff hnext
      exact ⟨familyInv_next hs.1 hnext, served_next hs.1 hs.2 hoff hnext⟩
  exact hboth.2

/-- The call of `a` is with the owner of the tool it names. -/
structure Executes (ctx : SessionCtx) (s : Session) (a : AgentId) (call : ToolCall) (entry : RegisteredTool) :
    Prop where
  running : ∃ response results tool, (s.agents a).phase = .driving (.running response results) tool ∧
    response.toolCalls[results.length]? = some call
  registered : entryOf ctx.registry call.name = some entry

/-- In every run where each response of the model calls only tools that are
unknown or for agents of the kind that gets it: a tool runs only for agents of
a kind it is for, and so no subagent is ever at the frontend with one. -/
theorem tools_run_for_audience
    (h : (machine ctx).ReachableUnder (fun s act => offered ctx s act = true) s) (a : AgentId) :
    (∀ call entry, Executes ctx s a call entry →
      entry.tool.availability.availableTo (s.agents a).turn.kind = true) ∧
      ∀ sandboxTools frontend, ctx.registry = sessionRegistry sandboxTools frontend →
        (s.agents a).turn.kind = .subagent →
        (s.agents a).phase.atFrontend = false ∧
          ∀ call entry, Executes ctx s a call entry → entry.owner ≠ .frontend := by
  have hserved := served_of_reachable h a
  have haudience : ∀ call entry, Executes ctx s a call entry →
      entry.tool.availability.availableTo (s.agents a).turn.kind = true := by
    intro call entry hexec
    obtain ⟨response, results, tool, hphase, hcall⟩ := hexec.running
    have hsuits := hserved.calls response (by rw [hphase]; rfl) call (List.mem_of_getElem? hcall)
    rw [suits, hexec.registered] at hsuits
    exact hsuits
  refine ⟨haudience, ?_⟩
  intro sandboxTools frontend hreg hkind
  have howner : ∀ call entry, Executes ctx s a call entry → entry.owner ≠ .frontend := by
    intro call entry hexec hfrontend
    have hmem : entry ∈ sessionRegistry sandboxTools frontend := by
      rw [← hreg]
      exact List.mem_of_find?_eq_some hexec.registered
    have hallowed := haudience call entry hexec
    rw [sessionRegistry_frontend sandboxTools frontend entry hmem hfrontend, hkind] at hallowed
    cases hallowed
  refine ⟨?_, howner⟩
  by_contra hat
  rw [Bool.not_eq_false] at hat
  cases hphase : (s.agents a).phase with
  | driving stage tool =>
      rw [hphase] at hat
      obtain ⟨call, hcall, hfrontend⟩ := hserved.frontend stage tool hphase hat
      obtain ⟨entry, hentry, hown⟩ := Option.map_eq_some_iff.mp hfrontend
      have htools := (familyInv_of_reachable h.reachable).tidy a
      have hok := htools.tools
      rw [hphase] at hok
      cases stage with
      | running response results =>
          exact howner call entry ⟨⟨response, results, tool, hphase, hcall⟩, hentry⟩ hown
      | calling response results =>
          cases tool with
          | idle => cases hat
          | _ => cases hok
      | top | asking | ended => cases hcall
  | _ =>
      rw [hphase] at hat
      cases hat

def exitCtx : SessionCtx := { familyCtx with registry := sessionRegistry [] .headless }

def executing (ctx : SessionCtx) (s : Session) (a : AgentId) : Option RegisteredTool :=
  match (s.agents a).phase with
  | .driving (.running response results) _ =>
    (response.toolCalls[results.length]?).bind fun call => entryOf ctx.registry call.name
  | _ => none

theorem exists_executes {entry : RegisteredTool} (h : executing ctx s a = some entry) :
    ∃ call, Executes ctx s a call entry := by
  rw [executing] at h
  split at h
  · rename_i response results tool hphase
    obtain ⟨call, hcall, hentry⟩ := Option.bind_eq_some_iff.mp h
    exact ⟨call, ⟨response, results, tool, hphase, hcall⟩, hentry⟩
  · cases h

def startsChild : List Act := prompted ++ calls 0 "Agent" "prompt" "help"

theorem tools_run_for_audience_startsChild :
    ∃ s call entry, (machine exitCtx).ReachableUnder (fun s act => offered exitCtx s act = true) s ∧
      Executes exitCtx s 0 call entry ∧
      entry.tool.availability.availableTo (s.agents 0).turn.kind = true := by
  obtain ⟨s, hr, hp⟩ := Machine.exists_of_runChecked (M := machine exitCtx) (offered exitCtx) startsChild
    (fun s => (executing exitCtx s 0).isSome) rfl rfl
  obtain ⟨entry, hentry⟩ := Option.isSome_iff_exists.mp hp
  obtain ⟨call, hexec⟩ := exists_executes hentry
  exact ⟨s, call, entry, hr, hexec, (tools_run_for_audience hr 0).1 call entry hexec⟩

def subagentExits : List Act := prompted ++ spawns 0 ++ calls 1 "Exit" "message" "bye"

theorem subagent_executes_exit :
    ∃ s call entry, (machine exitCtx).Reachable s ∧ (s.agents 1).parent = some 0 ∧
      (s.agents 1).turn.kind = .subagent ∧ Executes exitCtx s 1 call entry ∧ entry.tool.name = "Exit" ∧
      entry.tool.availability.availableTo (s.agents 1).turn.kind = false ∧
      (s.agents 1).phase.atFrontend = true := by
  obtain ⟨s, hr, hp⟩ := Machine.exists_of_run (M := machine exitCtx) subagentExits
    (fun s => decide ((s.agents 1).parent = some 0) && decide ((s.agents 1).turn.kind = .subagent) &&
      (executing exitCtx s 1).any (fun entry => decide (entry.tool.name = "Exit") &&
        !entry.tool.availability.availableTo (s.agents 1).turn.kind) && (s.agents 1).phase.atFrontend) rfl
    rfl
  simp only [Bool.and_eq_true, decide_eq_true_eq] at hp
  obtain ⟨⟨⟨hparent, hkind⟩, hany⟩, hat⟩ := hp
  obtain ⟨entry, hentry, hexit⟩ := (Option.any_eq_true ..).mp hany
  simp only [Bool.and_eq_true, decide_eq_true_eq, Bool.not_eq_true'] at hexit
  obtain ⟨call, hexec⟩ := exists_executes hentry
  exact ⟨s, call, entry, hr, hparent, hkind, hexec, hexit.1, hexit.2, hat⟩

end Session

end Silo.Harness
