import Silo.Frontend.Early

namespace Silo.Frontend

open Silo.Lib Silo.Core Silo.Harness

/-- What a connection has to do with a question: it holds the sender of question
`n`, or has used it and owes the event. -/
inductive Part
  | idle
  | holding (client : Client) (id : String) (n : Nat) (answer : String)
  | owing (client : Client) (id answer : String)

def Phase.part : Phase → Part
  | .answering client id n answer => .holding client id n answer
  | .resolved client id answer => .owing client id answer
  | _ => .idle

theorem part_of_not_busy {phase : Phase} (h : phase.busy = false) : phase.part = .idle := by
  cases phase <;> first | rfl | cases h

/-- Client and answer of an event that answers the question `id`. -/
def answerTo (id : String) : EventPayload → Option (Option String × String)
  | .questionAnswered id' clientId answer => if id' = id then some (clientId, answer) else none
  | _ => none

/-- What the waiting call returns for what its channel holds. -/
def Slot.result : Slot → Option (Except FrontendError ToolOutput)
  | .sent (.answered answer) => some (.ok (.ok answer))
  | .sent .interrupted => some (.ok (.error interruptedByUser))
  | .closed => some (.error (.closed "the question was cancelled by shutdown"))
  | .empty => none

/-- The frontend as questions see it. `answers` are the `QuestionAnswered` events
for an id. -/
structure View where
  questions : List (String × Nat)
  calls : Nat → Call
  asked : Nat
  parts : Nat → Part
  interrupts : Nat → Interrupting
  interrupted : Nat
  accepted : List Accepted
  answers : String → List (Option String × String)
  down : Bool

namespace View

variable (v : View)

def setStage (n : Nat) (stage : CallStage) : View :=
  { v with calls := Function.update v.calls n { v.calls n with stage := stage } }

def setSlot (n : Nat) (slot : Slot) : View :=
  { v with calls := Function.update v.calls n { v.calls n with slot := slot } }

def setPart (c : Nat) (part : Part) : View := { v with parts := Function.update v.parts c part }

def setInterrupt (i : Nat) (interrupt : Interrupting) : View :=
  { v with interrupts := Function.update v.interrupts i interrupt }

def answer (payload : EventPayload) : View :=
  { v with answers := fun id => v.answers id ++ (answerTo id payload).toList }

/-- The map without what it has under `id`. -/
def remove (id : String) : View := { v with questions := v.questions.filter fun e => e.1 ≠ id }

def ask (id : String) (agent : AgentId) (question : Json) : View :=
  let v := match v.questions.lookup id with
    | some old => v.setSlot old .closed
    | none => v
  { v with
    questions := (id, v.asked) :: v.questions.filter fun e => e.1 ≠ id
    calls := Function.update v.calls v.asked ⟨agent, question, .inserted, .empty⟩
    asked := v.asked + 1 }

def clear : View :=
  { v with
    questions := []
    calls := fun n => if n ∈ v.questions.map Prod.snd then { v.calls n with slot := .closed } else v.calls n }

/-- The steps of the protocol between the calls that ask, the connections that
answer, the interrupts and the shutdown. -/
inductive Step (ids : Nat → String) (v : View) : View → Prop
  | ask (agent : AgentId) (question : Json) (hup : v.down = false) :
      Step ids v (v.ask (ids v.asked) agent question)
  | wait (n seq : Nat) (h : (v.calls n).stage = .inserted) : Step ids v (v.setStage n (.waiting seq))
  | poll (n seq : Nat) (result : Except FrontendError ToolOutput) (h : (v.calls n).stage = .waiting seq)
      (hr : (v.calls n).slot.result = some result) : Step ids v (v.setStage n (.returned result))
  | observe (n seq : Nat) (result : Except FrontendError ToolOutput)
      (h : (v.calls n).stage = .waiting seq) (hdown : v.down = true) :
      Step ids v ((v.remove (ids n)).setStage n (.returned result))
  | drop (n seq : Nat) (h : (v.calls n).stage = .waiting seq) : Step ids v (v.setStage n .dropped)
  | take (c : Nat) (client : Client) (id : String) (n : Nat) (answer : String) (h : v.parts c = .idle)
      (hn : v.questions.lookup id = some n) : Step ids v ((v.remove id).setPart c (.holding client id n answer))
  | send (c : Nat) (client : Client) (id : String) (n : Nat) (answer : String)
      (h : v.parts c = .holding client id n answer) (hlive : (v.calls n).listening = true) :
      Step ids v { (v.setSlot n (.sent (.answered answer))).setPart c (.owing client id answer) with
        accepted := v.accepted ++ [⟨n, client.id, answer⟩] }
  | lose (c : Nat) (client : Client) (id : String) (n : Nat) (answer : String)
      (h : v.parts c = .holding client id n answer) (hgone : (v.calls n).listening = false) :
      Step ids v (v.setPart c .idle)
  | tell (c : Nat) (client : Client) (id answer : String) (h : v.parts c = .owing client id answer) :
      Step ids v ((v.answer (.questionAnswered id (some client.id) answer)).setPart c .idle)
  | interrupt (hup : v.down = false) :
      Step ids v { v.setInterrupt v.interrupted (.sending v.questions) with
        questions := [], interrupted := v.interrupted + 1 }
  | strike (i k : Nat) (pending : List (String × Nat)) (e : String × Nat)
      (h : v.interrupts i = .sending pending) (he : pending[k]? = some e)
      (hlive : (v.calls e.2).listening = true) :
      Step ids v ((v.setSlot e.2 (.sent .interrupted)).setInterrupt i (.resolved e.1 (pending.eraseIdx k)))
  | miss (i k : Nat) (pending : List (String × Nat)) (e : String × Nat)
      (h : v.interrupts i = .sending pending) (he : pending[k]? = some e)
      (hgone : (v.calls e.2).listening = false) :
      Step ids v (v.setInterrupt i (.sending (pending.eraseIdx k)))
  | announce (i seq : Nat) (id : String) (pending : List (String × Nat))
      (h : v.interrupts i = .resolved id pending) :
      Step ids v ((v.answer (.questionAnswered id none interruptedAnswer)).setInterrupt i (.emitting seq pending))
  | resume (i seq : Nat) (pending : List (String × Nat)) (h : v.interrupts i = .emitting seq pending) :
      Step ids v (v.setInterrupt i (.sending pending))
  | shutdown (hcalls : ∀ n < v.asked, (v.calls n).listening = false) : Step ids v { v with down := true }
  | clear (hdown : v.down = true) : Step ids v v.clear

end View

namespace State

variable {cfg : Config} {s t : State} {c : Nat} {act : Act}

def answers (s : State) (id : String) : List (Option String × String) :=
  s.bus.history.filterMap fun e => answerTo id e.payload

def view (s : State) : View where
  questions := s.questions
  calls := s.calls
  asked := s.asked
  parts c := (s.conns c).phase.part
  interrupts := s.interrupts
  interrupted := s.interrupted
  accepted := s.accepted
  answers := s.answers
  down := s.down

theorem view_setConn (conn : Conn) : (s.setConn c conn).view = s.view.setPart c conn.phase.part := by
  have hparts : (fun d => ((s.setConn c conn).conns d).phase.part) =
      Function.update (fun d => (s.conns d).phase.part) c conn.phase.part := by
    funext d
    by_cases h : d = c <;> simp [setConn, h]
  simp only [view, View.setPart, ← hparts]
  rfl

theorem view_goto (phase : Phase) : (s.goto c phase).view = s.view.setPart c phase.part := view_setConn _

theorem view_goto_idle {phase : Phase} (hs : (s.conns c).phase.part = .idle) (h : phase.part = .idle) :
    (s.goto c phase).view = s.view := by
  have hsame : s.view.parts c = phase.part := hs.trans h.symm
  rw [view_goto, View.setPart, ← hsame, Function.update_eq_self]

theorem view_say (message : ServerMessage) : (s.say c message).view = s.view := by
  rw [say, view_setConn, View.setPart]
  have hsame : (s.conns c).phase.part = s.view.parts c := rfl
  rw [hsame, Function.update_eq_self]

theorem view_emit (time : Timestamp) (payload : EventPayload) :
    (s.emit time payload).view = s.view.answer payload := by
  have hanswers : (s.emit time payload).answers = fun id => s.answers id ++ (answerTo id payload).toList := by
    funext id
    simp only [answers, emit, EventBus.emitAppend, List.filterMap_append]
    cases h : answerTo id payload <;> simp [h]
  simp only [view, View.answer, ← hanswers]
  rfl

theorem view_emit_other {payload : EventPayload} (h : ∀ id, answerTo id payload = none) (time : Timestamp) :
    (s.emit time payload).view = s.view := by
  rw [view_emit, View.answer]
  simp [h]

theorem view_connEmit (client : Client) (time : Timestamp) (payload : EventPayload) (text : Option String) :
    (s.connEmit c client time payload text).view = (s.view.answer payload).setPart c .idle := by
  rw [connEmit, view_goto, view_emit]
  rfl

theorem view_of_ownConn (h : OwnConn c s t) (hs : (s.conns c).phase.busy = false)
    (ht : (t.conns c).phase.busy = false) : t.view = s.view := by
  have hparts : (fun d => (t.conns d).phase.part) = fun d => (s.conns d).phase.part := by
    funext d
    by_cases hd : d = c
    · rw [hd, part_of_not_busy hs, part_of_not_busy ht]
    · rw [h.others d hd]
  have hanswers : t.answers = s.answers := by
    funext id
    rw [answers, h.bus, answers]
  simp only [view, hparts, hanswers, h.questions, h.calls, h.asked, h.interrupts, h.interrupted, h.accepted,
    down, h.shutdown]

def Follows (cfg : Config) (s t : State) : Prop := t.view = s.view ∨ s.view.Step cfg.ids t.view

theorem follows_connEmit {client : Client} {time : Timestamp} {payload : EventPayload} {text : Option String}
    (hs : (s.conns c).phase.part = .idle) (h : ∀ id, answerTo id payload = none) :
    Follows cfg s (s.connEmit c client time payload text) := by
  left
  have hsame : s.view.parts c = .idle := hs
  rw [view_connEmit, View.setPart, View.answer, ← hsame]
  simp [h]

theorem follows_handleMessage {client : Client} (hphase : (s.conns c).phase = .ready client) (draw : Draw)
    (message : ClientMessage) : Follows cfg s (s.handleMessage c client draw message) := by
  have hs : (s.conns c).phase.part = .idle := by rw [hphase, Phase.part]; all_goals simp
  cases message with
  | answerQuestion questionId answer =>
      simp only [handleMessage]
      split
      · exact .inl rfl
      · next n hn =>
          right
          rw [view_goto]
          exact View.Step.take c client questionId n answer hs hn
  | interrupt => exact .inl (view_goto_idle hs rfl)
  | shutdown => exact .inl (view_goto_idle hs rfl)
  | prompt text => exact follows_connEmit hs fun _ => rfl
  | uploadFile name contentB64 => exact follows_connEmit hs fun _ => rfl
  | requestPairingCode => exact .inl (view_say _)
  | _ => exact .inl (view_say _)

theorem follows_connStep {act : ConnAct} (hn : s.connStep cfg c act = some t) : Follows cfg s t := by
  cases connStep_effect hn with
  | early he hownConn hbusy => exact .inl (view_of_ownConn hownConn (busy_of_early he) hbusy)
  | message client draw message h => exact follows_handleMessage h draw message
  | unrecognized client draw h => exact .inl (view_say _)
  | ignored client draw h => exact .inl rfl
  | close h =>
      left
      obtain ⟨client, h⟩ | ⟨client, command, h⟩ := h
      · exact view_goto_idle (congrArg Phase.part h) rfl
      · exact view_goto_idle (congrArg Phase.part h) rfl
  | send client id question answer h hlive =>
      right
      rw [view_goto]
      exact View.Step.send c client id question answer (congrArg Phase.part h) hlive
  | lost client id question answer h hgone =>
      right
      rw [view_goto]
      exact View.Step.lose c client id question answer (congrArg Phase.part h) hgone
  | emitAnswer client id answer time h =>
      right
      rw [view_connEmit]
      exact View.Step.tell c client id answer (congrArg Phase.part h)
  | resume client seq text h hf => exact .inl (view_goto_idle (congrArg Phase.part h) rfl)
  | command client command delivered h => exact .inl (view_goto_idle (congrArg Phase.part h) rfl)

theorem view_ask (agent : AgentId) (question : Json) :
    ({ (s.insertQuestion (cfg.ids s.asked) s.asked).setCall s.asked ⟨agent, question, .inserted, .empty⟩ with
      asked := s.asked + 1 } : State).view = s.view.ask (cfg.ids s.asked) agent question := by
  cases h : s.questions.lookup (cfg.ids s.asked) with
  | none =>
      have hview : s.view.questions.lookup (cfg.ids s.asked) = none := h
      simp only [insertQuestion, View.ask, h, hview]
      rfl
  | some old =>
      have hview : s.view.questions.lookup (cfg.ids s.asked) = some old := h
      simp only [insertQuestion, View.ask, h, hview]
      rfl

theorem follows_runTool (agent : AgentId) (call : ToolCall) (time : Timestamp) :
    Follows cfg s (s.runTool cfg agent call time) := by
  rw [runTool]
  split
  · exact .inl rfl
  · next hup =>
      split
      · split
        · exact .inl rfl
        · next question _ =>
            right
            rw [view_ask]
            exact View.Step.ask agent question (by simpa [view] using hup)
      · split
        · split
          · exact .inl rfl
          · exact .inl (view_emit_other (fun _ => rfl) time)
        · exact .inl rfl

theorem view_callReturns (n : Nat) (result : Except FrontendError ToolOutput) :
    (s.callReturns n result).view = s.view.setStage n (.returned result) := rfl

theorem follows_callStep {n : Nat} {act : CallAct} (hn : s.callStep cfg n act = some t) : Follows cfg s t := by
  simp only [callStep] at hn
  split at hn
  · next time hstage =>
      cases hn
      right
      change s.view.Step cfg.ids (View.setStage (s.emit time _).view n (.waiting s.bus.nextSeq))
      rw [view_emit_other fun _ => rfl]
      exact View.Step.wait n _ hstage
  · next seq hstage =>
      split at hn
      · cases hn
      · split at hn <;> cases hn <;> right <;> rw [view_callReturns]
        · next hslot => exact View.Step.poll n seq _ hstage (by simp [view, hslot, Slot.result])
        · next hslot => exact View.Step.poll n seq _ hstage (by simp [view, hslot, Slot.result])
        · next hslot => exact View.Step.poll n seq _ hstage (by simp [view, hslot, Slot.result])
  · next seq hstage =>
      split at hn
      · cases hn
      · next hdown =>
          cases hn
          have hdown : s.inFlight seq = false ∧ s.down = true := by simpa using hdown
          exact .inr (View.Step.observe n seq _ hstage hdown.2)
  · next seq hstage =>
      split at hn <;> cases hn
      exact .inr (View.Step.drop n seq hstage)
  · cases hn

theorem follows_interruptStep {i : Nat} {act : InterruptAct} (hn : s.interruptStep i act = some t) :
    Follows cfg s t := by
  simp only [interruptStep] at hn
  split at hn
  · next k pending h =>
      obtain ⟨e, he, rfl⟩ := Option.map_eq_some_iff.mp hn
      right
      split
      · next hlive => exact View.Step.strike i k pending e h he hlive
      · next hgone => exact View.Step.miss i k pending e h he (by simpa [view] using hgone)
  · next time id pending h =>
      cases hn
      right
      change s.view.Step cfg.ids (View.setInterrupt (s.emit time _).view i (.emitting s.bus.nextSeq pending))
      rw [view_emit]
      exact View.Step.announce i _ id pending h
  · next seq pending h =>
      split at hn <;> cases hn
      exact .inr (View.Step.resume i seq pending h)
  · cases hn

theorem follows_of_next (hn : s.next cfg act = some t) : Follows cfg s t := by
  cases act with
  | conn c act => exact follows_connStep hn
  | runTool agent call time =>
      cases hn
      exact follows_runTool agent call time
  | call n act => exact follows_callStep hn
  | interrupt =>
      cases hn
      rw [interrupt]
      split
      · exact .inl rfl
      · next hup => exact .inr (View.Step.interrupt (by simpa [view] using hup))
  | interrupting i act => exact follows_interruptStep hn
  | nextUserInput =>
      simp only [next, nextUserInput] at hn
      split at hn
      · split at hn <;> cases hn
        exact .inl rfl
      · cases hn
  | emit time payload =>
      simp only [next] at hn
      split at hn <;> cases hn
      next h =>
        apply Or.inl
        apply view_emit_other
        intro id
        cases payload <;> first | rfl | exact absurd rfl h
  | emitJournal seq =>
      obtain ⟨bus, hb, rfl⟩ := Option.map_eq_some_iff.mp hn
      obtain ⟨e, -, rfl⟩ := Option.map_eq_some_iff.mp hb
      exact .inl rfl
  | emitBroadcast seq =>
      obtain ⟨bus, hb, rfl⟩ := Option.map_eq_some_iff.mp hn
      obtain ⟨e, -, rfl⟩ := Option.map_eq_some_iff.mp hb
      exact .inl rfl
  | tick nanos =>
      cases hn
      exact .inl rfl
  | watchCost backend =>
      cases hn
      exact .inl rfl
  | shutdown message =>
      simp only [next] at hn
      split at hn
      · next h =>
          cases hn
          simp only [unborrowed, Bool.and_eq_true, List.all_eq_true, List.mem_range, Bool.not_eq_true'] at h
          exact .inr (View.Step.shutdown h.2.1)
      · cases hn
  | clearQuestions =>
      simp only [next] at hn
      split at hn
      · next h =>
          cases hn
          right
          have hdown : s.view.down = true := by simp [view, down, h]
          have hview : s.clearQuestions.view = s.view.clear := by
            change { s.view.clear with down := true } = s.view.clear
            simp [View.clear, hdown]
          rw [hview]
          exact View.Step.clear hdown
      · cases hn

end State

end Silo.Frontend
