import Silo.Frontend.Prompts

namespace Silo.Frontend

open Silo.Lib Silo.Core Silo.Harness

def Act.settles : Act → Bool
  | .conn _ (.emitAnswer _) | .call _ (.emit _) | .interrupting _ (.emit _) => true
  | _ => false

/-- The task has an answer to a question in its hands. -/
def Phase.answers : Phase → Bool
  | .answering _ _ _ _ | .resolved _ _ _ => true
  | _ => false

inductive Act.Source (time : Timestamp) : Act → EventPayload → Prop
  | prompt {act : Act} (clientId clientName : Option String) (text : String) :
      Source time act (.userPrompt clientId clientName text)
  | file {act : Act} (name contentB64 : String) (origin : FileOrigin) :
      Source time act (.fileShared name contentB64 origin)
  | asked {act : Act} (id : String) (agent : AgentId) (question : Json) (h : act.settles = true) :
      Source time act (.questionAsked id agent question)
  | answered {act : Act} (id : String) (clientId : Option String) (answer : String) (h : act.settles = true) :
      Source time act (.questionAnswered id clientId answer)
  | free (payload : EventPayload) : Source time (.emit time payload) payload

namespace State

variable {cfg : Config} {s t : State} {c : Nat} {act : Act}

def announces (s : State) : Act → Bool
  | .conn c (.frame (.text (some (.prompt _))) _) | .conn c (.frame (.text (some (.uploadFile _ _))) _) =>
    ((s.conns c).phase matches .ready _)
  | .conn _ (.emitAnswer _) | .call _ (.emit _) | .interrupting _ (.emit _) | .emit _ _ => true
  | .runTool _ call _ => call.name = "SendUserFile"
  | _ => false

/-- What a step other than `nextUserInput` adds to the events. -/
inductive Voice (s : State) (act : Act) (t : State) : Prop
  | still (history : t.bus.history = s.bus.history) (taken : t.taken = s.taken) : Voice s act t
  | said (time : Timestamp) (payload : EventPayload)
      (history : t.bus.history = s.bus.history ++ [⟨s.bus.history.length, time, payload⟩])
      (taken : t.taken = s.taken) (source : act.Source time payload) (announced : s.announces act = true) :
      Voice s act t

theorem voice_handleMessage {client : Client} (hphase : (s.conns c).phase = .ready client) (draw : Draw)
    (message : ClientMessage) :
    Voice s (.conn c (.frame (.text (some message)) draw)) (s.handleMessage c client draw message) := by
  cases message with
  | prompt text => exact .said draw.time _ rfl rfl (.prompt ..) (by simp [announces, hphase])
  | uploadFile name contentB64 => exact .said draw.time _ rfl rfl (.file ..) (by simp [announces, hphase])
  | answerQuestion questionId answer =>
      simp only [handleMessage]
      split <;> exact .still rfl rfl
  | _ => exact .still rfl rfl

theorem voice_connStep {act : ConnAct} (hn : s.connStep cfg c act = some t) : Voice s (.conn c act) t := by
  cases connStep_effect hn with
  | early he hownConn hbusy => exact .still (by rw [hownConn.bus]) hownConn.taken
  | message client draw message h => exact voice_handleMessage h draw message
  | emitAnswer client id answer time h => exact .said time _ rfl rfl (.answered _ _ _ rfl) rfl
  | _ => exact .still rfl rfl

theorem voice_runTool (agent : AgentId) (call : ToolCall) (time : Timestamp) :
    Voice s (.runTool agent call time) (s.runTool cfg agent call time) := by
  rw [runTool]
  split
  · exact .still rfl rfl
  · split
    · split
      · exact .still rfl rfl
      · apply Voice.still
        all_goals
          simp only [insertQuestion, setCall]
          split <;> rfl
    · split
      · next hname =>
          split
          · exact .still rfl rfl
          · exact .said time _ rfl rfl (.file ..) (by simp [announces, hname])
      · exact .still rfl rfl

theorem voice_callStep {n : Nat} {act : CallAct} (hn : s.callStep cfg n act = some t) :
    Voice s (.call n act) t := by
  simp only [callStep] at hn
  split at hn
  · next time _ =>
      cases hn
      exact .said time _ rfl rfl (.asked _ _ _ rfl) rfl
  · split at hn
    · cases hn
    · split at hn <;> cases hn <;> exact .still rfl rfl
  · split at hn <;> cases hn
    exact .still rfl rfl
  · split at hn <;> cases hn
    exact .still rfl rfl
  · cases hn

theorem voice_interruptStep {i : Nat} {act : InterruptAct} (hn : s.interruptStep i act = some t) :
    Voice s (.interrupting i act) t := by
  simp only [interruptStep] at hn
  split at hn
  · obtain ⟨e, -, rfl⟩ := Option.map_eq_some_iff.mp hn
    split <;> exact .still rfl rfl
  · next time _ _ _ =>
      cases hn
      exact .said time _ rfl rfl (.answered _ _ _ rfl) rfl
  · split at hn <;> cases hn
    exact .still rfl rfl
  · cases hn

theorem voice_of_next (hact : act ≠ .nextUserInput) (hn : s.next cfg act = some t) : Voice s act t := by
  cases act with
  | conn c act => exact voice_connStep hn
  | runTool agent call time =>
      cases hn
      exact voice_runTool agent call time
  | call n act => exact voice_callStep hn
  | interrupt =>
      cases hn
      rw [interrupt]
      split <;> exact .still rfl rfl
  | interrupting i act => exact voice_interruptStep hn
  | nextUserInput => exact absurd rfl hact
  | emit time payload =>
      simp only [next] at hn
      split at hn <;> cases hn
      exact .said time payload rfl rfl (.free payload) rfl
  | emitJournal seq =>
      obtain ⟨bus, hb, rfl⟩ := Option.map_eq_some_iff.mp hn
      obtain ⟨e, -, rfl⟩ := Option.map_eq_some_iff.mp hb
      exact .still rfl rfl
  | emitBroadcast seq =>
      obtain ⟨bus, hb, rfl⟩ := Option.map_eq_some_iff.mp hn
      obtain ⟨e, -, rfl⟩ := Option.map_eq_some_iff.mp hb
      exact .still rfl rfl
  | tick nanos =>
      cases hn
      exact .still rfl rfl
  | watchCost backend =>
      cases hn
      exact .still rfl rfl
  | shutdown message =>
      simp only [next] at hn
      split at hn <;> cases hn
      exact .still rfl rfl
  | clearQuestions =>
      simp only [next] at hn
      split at hn <;> cases hn
      exact .still rfl rfl

theorem others_connStep {act : ConnAct} (hn : s.connStep cfg c act = some t) :
    (∀ d, d ≠ c → t.conns d = s.conns d) ∧ t.shutdown = s.shutdown := by
  have hgoto {u : State} (phase : Phase) (hconns : u.conns = s.conns) (d : Nat) (hd : d ≠ c) :
      (u.goto c phase).conns d = s.conns d := by
    simp [goto, setConn, hd, hconns]
  have hsay {u : State} (message : ServerMessage) (hconns : u.conns = s.conns) (d : Nat) (hd : d ≠ c) :
      (u.say c message).conns d = s.conns d := by
    simp [say, setConn, hd, hconns]
  cases connStep_effect hn with
  | early he hownConn hbusy => exact ⟨hownConn.others, hownConn.shutdown⟩
  | message client draw message h =>
      cases message with
      | prompt | uploadFile => exact ⟨hgoto _ rfl, rfl⟩
      | answerQuestion questionId answer =>
          simp only [handleMessage]
          split
          · exact ⟨fun _ _ => rfl, rfl⟩
          · exact ⟨hgoto _ rfl, rfl⟩
      | interrupt | shutdown => exact ⟨hgoto _ rfl, rfl⟩
      | _ => exact ⟨hsay _ rfl, rfl⟩
  | unrecognized => exact ⟨hsay _ rfl, rfl⟩
  | ignored => exact ⟨fun _ _ => rfl, rfl⟩
  | _ => exact ⟨hgoto _ rfl, rfl⟩

/-- A connection that is not there is accepted, and one that is over does nothing. -/
theorem accept_of_rest {act : ConnAct} (hrest : (s.conns c).phase = .away ∨ (s.conns c).phase = .closed)
    (hn : s.connStep cfg c act = some t) : act = .accept := by
  rcases hrest with hphase | hphase <;> cases act <;> simp [connStep, hphase, Phase.awaits] at hn
  rfl

theorem answers_connStep {act : ConnAct} (hn : s.connStep cfg c act = some t)
    (h : (t.conns c).phase.answers = true) : (s.conns c).phase.answers = true ∨
      ∃ client id answer draw, (s.conns c).phase = .ready client ∧
        act = .frame (.text (some (.answerQuestion id answer))) draw ∧ (s.questions.lookup id).isSome = true := by
  cases connStep_effect hn with
  | early he hownConn hbusy =>
      cases hphase : (t.conns c).phase <;> simp [hphase, Phase.answers, Phase.busy] at h hbusy
  | message client draw message hphase =>
      cases message with
      | answerQuestion questionId answer =>
          refine .inr ⟨client, questionId, answer, draw, hphase, rfl, ?_⟩
          simp only [handleMessage] at h
          split at h
          · simp [hphase, Phase.answers] at h
          · next hlookup => rw [hlookup]; rfl
      | _ => simp [handleMessage, connEmit, hphase, Phase.answers] at h
  | unrecognized client draw hphase => simp [hphase, Phase.answers] at h
  | ignored client draw hphase => simp [hphase, Phase.answers] at h
  | send client id question answer hphase | emitAnswer client id answer time hphase =>
      exact .inl (by rw [hphase]; rfl)
  | lost client id question answer hphase => exact .inl (by rw [hphase]; rfl)
  | _ => simp [Phase.answers] at h

theorem conns_interruptStep {i : Nat} {act : InterruptAct} (hn : s.interruptStep i act = some t) :
    t.conns = s.conns ∧ t.shutdown = s.shutdown := by
  simp only [interruptStep] at hn
  split at hn
  · obtain ⟨e, -, rfl⟩ := Option.map_eq_some_iff.mp hn
    split <;> exact ⟨rfl, rfl⟩
  · cases hn
    exact ⟨rfl, rfl⟩
  · split at hn <;> cases hn
    exact ⟨rfl, rfl⟩
  · cases hn

theorem conns_callStep {n : Nat} {act : CallAct} (hn : s.callStep cfg n act = some t) :
    t.conns = s.conns ∧ t.shutdown = s.shutdown := by
  simp only [callStep] at hn
  split at hn
  · cases hn
    exact ⟨rfl, rfl⟩
  · split at hn
    · cases hn
    · split at hn <;> cases hn <;> exact ⟨rfl, rfl⟩
  · split at hn <;> cases hn
    exact ⟨rfl, rfl⟩
  · split at hn <;> cases hn
    exact ⟨rfl, rfl⟩
  · cases hn

theorem conns_runTool (agent : AgentId) (call : ToolCall) (time : Timestamp) :
    (s.runTool cfg agent call time).conns = s.conns ∧ (s.runTool cfg agent call time).shutdown = s.shutdown := by
  rw [runTool]
  split
  · exact ⟨rfl, rfl⟩
  · split
    · split
      · exact ⟨rfl, rfl⟩
      · simp only [insertQuestion, setCall]
        split <;> exact ⟨rfl, rfl⟩
    · split
      · split <;> exact ⟨rfl, rfl⟩
      · exact ⟨rfl, rfl⟩

/-- The other tasks leave the connections alone, and the shutdown goes on by its own steps. -/
theorem conns_next (hconn : ∀ c act', act ≠ .conn c act') (hn : s.next cfg act = some t) : t.conns = s.conns ∧
    (t.shutdown = s.shutdown ∨ (∃ message, act = .shutdown message ∧ t.shutdown = .signalled) ∨
      act = .clearQuestions ∧ t.shutdown = .cleared) := by
  cases act with
  | conn c act => exact absurd rfl (hconn c act)
  | runTool agent call time =>
      cases hn
      exact ⟨(conns_runTool agent call time).1, .inl (conns_runTool agent call time).2⟩
  | call n act => exact ⟨(conns_callStep hn).1, .inl (conns_callStep hn).2⟩
  | interrupting i act => exact ⟨(conns_interruptStep hn).1, .inl (conns_interruptStep hn).2⟩
  | interrupt =>
      cases hn
      rw [interrupt]
      split <;> exact ⟨rfl, .inl rfl⟩
  | nextUserInput =>
      simp only [next, nextUserInput] at hn
      split at hn
      · split at hn <;> cases hn
        exact ⟨rfl, .inl rfl⟩
      · cases hn
  | emit time payload =>
      simp only [next] at hn
      split at hn <;> cases hn
      exact ⟨rfl, .inl rfl⟩
  | emitJournal seq | emitBroadcast seq =>
      obtain ⟨bus, -, rfl⟩ := Option.map_eq_some_iff.mp hn
      exact ⟨rfl, .inl rfl⟩
  | tick nanos | watchCost backend =>
      cases hn
      exact ⟨rfl, .inl rfl⟩
  | shutdown message =>
      simp only [next] at hn
      split at hn <;> cases hn
      exact ⟨rfl, .inr (.inl ⟨message, rfl, rfl⟩)⟩
  | clearQuestions =>
      simp only [next] at hn
      split at hn <;> cases hn
      exact ⟨rfl, .inr (.inr ⟨rfl, rfl⟩)⟩

end State

end Silo.Frontend
