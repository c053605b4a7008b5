import Silo.Frontend.ToolCalls
import Silo.Frontend.Voice

namespace Silo.Frontend

open Silo.Lib Silo.Core Silo.Harness

namespace ToolCalls

variable {cfg : Config} {front front' : State} {i n : Nat} {payload : EventPayload} {act : Act}

/-- The step uses the sender of question `n`. -/
inductive Uses (front : State) : Act → Nat → Prop
  | send {c : Nat} {client : Client} {id : String} {n : Nat} {answer : String}
      (h : (front.conns c).phase = .answering client id n answer) : Uses front (.conn c .send) n
  | strike {i k : Nat} {pending : List (String × Nat)} {e : String × Nat}
      (h : front.interrupts i = .sending pending) (he : pending[k]? = some e) :
      Uses front (.interrupting i (.send k)) e.2

inductive Fate (cfg : Config) (front : State) (act : Act) (front' : State) (n : Nat) : Prop
  | same (h : front'.calls n = front.calls n) : Fate cfg front act front' n
  | closed (h : front'.calls n = { front.calls n with slot := .closed }) : Fate cfg front act front' n
  | used (outcome : QuestionOutcome) (h : front'.calls n = { front.calls n with slot := .sent outcome })
      (huses : Uses front act n) : Fate cfg front act front' n
  | asked (agent : AgentId) (call : ToolCall) (time : Timestamp) (question : Json)
      (hact : act = .runTool agent call time) (hquestion : cfg.parseQuestion call.input = .ok question)
      (hn : n = front.asked) (h : front'.calls n = ⟨agent, question, .inserted, .empty⟩) :
      Fate cfg front act front' n
  | emits (time : Timestamp) (hstage : (front.calls n).stage = .inserted)
      (h : front'.calls n = { front.calls n with stage := .waiting front.bus.nextSeq })
      (hbus : front'.bus = front.bus.emitAppend time
        (.questionAsked (cfg.ids n) (front.calls n).agent (front.calls n).question)) : Fate cfg front act front' n
  | ended (stage : CallStage) (h : front'.calls n = { front.calls n with stage := stage })
      (hlive : stage = .dropped ∨ ∃ result, stage = .returned result) : Fate cfg front act front' n

theorem calls_handleMessage {c : Nat} {client : Client} (draw : State.Draw) (message : ClientMessage) :
    (front.handleMessage c client draw message).calls = front.calls := by
  cases message with
  | answerQuestion questionId answer =>
      simp only [State.handleMessage]
      split <;> rfl
  | _ => rfl

theorem fate_connStep {c : Nat} {act : ConnAct} (hn : front.connStep cfg c act = some front') (n : Nat) :
    Fate cfg front (.conn c act) front' n := by
  cases State.connStep_effect hn with
  | early he haside hbusy => exact .same (by rw [haside.calls])
  | message client draw message h => exact .same (by rw [calls_handleMessage])
  | send client id question answer h hlive =>
      by_cases hnq : n = question
      · subst hnq
        refine .used (.answered answer) ?_ (.send h)
        simp [State.goto, State.setConn, State.setSlot, State.setCall]
      · refine .same ?_
        simp [State.goto, State.setConn, State.setSlot, State.setCall, hnq]
  | _ => exact .same rfl

theorem fate_runTool (agent : AgentId) (call : ToolCall) (time : Timestamp) (n : Nat) :
    Fate cfg front (.runTool agent call time) (front.runTool cfg agent call time) n := by
  rw [State.runTool]
  split
  case isTrue => exact .same rfl
  case isFalse =>
    split
    case isTrue =>
      split
      case h_1 => exact .same rfl
      case h_2 question hquestion =>
        by_cases hnew : n = front.asked
        · refine .asked agent call time question rfl hquestion hnew ?_
          simp [State.setCall, hnew]
        · simp only [State.insertQuestion]
          split
          case h_1 old hold =>
            by_cases hno : n = old
            · refine .closed ?_
              subst hno
              simp [State.setCall, State.setSlot, hnew]
            · refine .same ?_
              simp [State.setCall, State.setSlot, hnew, hno]
          case h_2 => exact .same (by simp [State.setCall, hnew])
    case isFalse =>
      split
      case isTrue => split <;> exact .same rfl
      case isFalse => exact .same rfl

theorem fate_callStep {m : Nat} {act : CallAct} (hn : front.callStep cfg m act = some front') (n : Nat) :
    Fate cfg front (.call m act) front' n := by
  by_cases hnm : n = m
  · subst hnm
    simp only [State.callStep] at hn
    split at hn
    case h_1 time hstage =>
      cases hn
      exact .emits time hstage (by simp [State.setCall]) rfl
    case h_2 seq hstage =>
      split at hn
      · cases hn
      · split at hn <;> cases hn
        all_goals exact .ended _ (Function.update_self ..) (.inr ⟨_, rfl⟩)
    case h_3 seq hstage =>
      split at hn <;> cases hn
      exact .ended _ (Function.update_self ..) (.inr ⟨_, rfl⟩)
    case h_4 seq hstage =>
      split at hn <;> cases hn
      exact .ended _ (Function.update_self ..) (.inl rfl)
    case h_5 => cases hn
  · refine .same ?_
    simp only [State.callStep] at hn
    split at hn
    case h_1 =>
      cases hn
      simp [State.setCall, State.emit, hnm]
    case h_2 =>
      split at hn
      · cases hn
      · split at hn <;> cases hn
        all_goals simp [State.callReturns, State.setCall, hnm]
    case h_3 =>
      split at hn <;> cases hn
      simp [State.callReturns, State.setCall, hnm]
    case h_4 =>
      split at hn <;> cases hn
      simp [State.setCall, hnm]
    case h_5 => cases hn

theorem fate_interruptStep {i : Nat} {act : InterruptAct} (hn : front.interruptStep i act = some front') (n : Nat) :
    Fate cfg front (.interrupting i act) front' n := by
  simp only [State.interruptStep] at hn
  split at hn
  case h_1 k pending h =>
    obtain ⟨e, he, rfl⟩ := Option.map_eq_some_iff.mp hn
    split
    case isTrue =>
      by_cases hne : n = e.2
      · subst hne
        exact .used .interrupted (by simp [State.setInterrupt, State.setSlot, State.setCall]) (.strike h he)
      · exact .same (by simp [State.setInterrupt, State.setSlot, State.setCall, hne])
    case isFalse => exact .same rfl
  case h_2 =>
    cases hn
    exact .same rfl
  case h_3 =>
    split at hn <;> cases hn
    exact .same rfl
  case h_4 => cases hn

theorem fate_of_next (hn : front.next cfg act = some front') (n : Nat) : Fate cfg front act front' n := by
  cases act with
  | conn c act => exact fate_connStep hn n
  | runTool agent call time =>
      cases hn
      exact fate_runTool agent call time n
  | call m act => exact fate_callStep hn n
  | interrupt =>
      cases hn
      rw [State.interrupt]
      split <;> exact .same rfl
  | interrupting i act => exact fate_interruptStep hn n
  | nextUserInput =>
      simp only [State.next, State.nextUserInput] at hn
      split at hn
      · split at hn <;> cases hn
        exact .same rfl
      · cases hn
  | emit time payload =>
      simp only [State.next] at hn
      split at hn <;> cases hn
      exact .same rfl
  | emitJournal seq =>
      obtain ⟨bus, hb, rfl⟩ := Option.map_eq_some_iff.mp hn
      exact .same rfl
  | emitBroadcast seq =>
      obtain ⟨bus, hb, rfl⟩ := Option.map_eq_some_iff.mp hn
      exact .same rfl
  | tick nanos =>
      cases hn
      exact .same rfl
  | watchCost backend =>
      cases hn
      exact .same rfl
  | shutdown message =>
      simp only [State.next] at hn
      split at hn <;> cases hn
      exact .same rfl
  | clearQuestions =>
      simp only [State.next] at hn
      split at hn <;> cases hn
      simp only [State.clearQuestions]
      by_cases hmem : n ∈ front.questions.map Prod.snd
      · exact .closed (if_pos hmem)
      · exact .same (if_neg hmem)

def Grows (front front' : State) : Prop :=
  front'.bus.history = front.bus.history ∨
    ∃ time payload, front'.bus.history = front.bus.history ++ [⟨front.bus.history.length, time, payload⟩]

theorem grows_of_next (hn : front.next cfg act = some front') : Grows front front' := by
  by_cases hact : act = .nextUserInput
  · subst hact
    simp only [State.next, State.nextUserInput] at hn
    split at hn
    · split at hn <;> cases hn
      exact .inl rfl
    · cases hn
  · cases State.voice_of_next hact hn with
    | still history => exact .inl history
    | said time payload history => exact .inr ⟨time, payload, history⟩

theorem lt_of_logged (h : logged front i payload) : i < front.bus.history.length := by
  obtain ⟨time, h⟩ := h
  exact (List.getElem?_eq_some_iff.mp h).1

theorem logged_mono (hg : Grows front front') (h : logged front i payload) : logged front' i payload := by
  have hlt := lt_of_logged h
  obtain ⟨time, h⟩ := h
  refine ⟨time, ?_⟩
  rcases hg with hsame | ⟨time', payload', hsame⟩
  · rw [hsame, h]
  · rw [hsame, List.getElem?_append_left hlt, h]

/-- What the log has after a step it had before, or it is the new event. -/
theorem logged_old (hg : Grows front front') (h : logged front' i payload) :
    logged front i payload ∨ i = front.bus.history.length := by
  obtain ⟨time, h⟩ := h
  rcases hg with hsame | ⟨time', payload', hsame⟩
  · exact .inl ⟨time, hsame ▸ h⟩
  · rw [hsame] at h
    rcases getElem?_snoc_cases h with hold | hnew
    · exact .inl ⟨time, hold⟩
    · exact .inr hnew.1

theorem logged_new {time : Timestamp}
    (h : front'.bus.history = front.bus.history ++ [⟨front.bus.history.length, time, payload⟩]) :
    logged front' front.bus.history.length payload :=
  ⟨time, by simp [h]⟩

theorem logged_inj {payload' : EventPayload} (h : logged front i payload) (h' : logged front i payload') :
    payload = payload' := by
  obtain ⟨time, h⟩ := h
  obtain ⟨time', h'⟩ := h'
  rw [h] at h'
  cases h'
  rfl

theorem answers_of_logged {id answer : String} {clientId : Option String}
    (h : logged front i (.questionAnswered id clientId answer)) : (clientId, answer) ∈ front.answers id := by
  obtain ⟨time, h⟩ := h
  exact List.mem_filterMap.mpr ⟨_, List.mem_of_getElem? h, by simp [answerTo]⟩

theorem logged_of_answers {id : String}
    (hseqs : ∀ (i : Nat) (e : Event EventPayload), front.bus.history[i]? = some e → e.seq = i) (h : front.answers id ≠ []) :
    ∃ i clientId answer, logged front i (.questionAnswered id clientId answer) := by
  obtain ⟨told, htold⟩ := List.exists_mem_of_ne_nil _ h
  obtain ⟨event, hevent, hanswer⟩ := List.mem_filterMap.mp htold
  obtain ⟨i, hi⟩ := List.mem_iff_getElem?.mp hevent
  have hseq := hseqs i event hi
  obtain ⟨seq, time, payload⟩ := event
  cases payload with
  | questionAnswered id' clientId answer =>
      simp only [answerTo] at hanswer
      split at hanswer
      case isTrue hid =>
        subst hid
        obtain rfl : seq = i := hseq
        exact ⟨seq, clientId, answer, time, hi⟩
      case isFalse => cases hanswer
  | _ => cases hanswer

/-- Events are in the log with their positions, and asked questions with no answer that
precedes them. -/
structure FrontInv (cfg : Config) (front : State) : Prop where
  reachable : (State.machine cfg).Reachable front
  seqs : ∀ (i : Nat) (e : Event EventPayload), front.bus.history[i]? = some e → e.seq = i
  unused : ∀ n outcome, (front.calls n).stage = .inserted → (front.calls n).slot ≠ .sent outcome
  asked : ∀ n seq, (front.calls n).stage = .waiting seq →
    logged front seq (.questionAsked (cfg.ids n) (front.calls n).agent (front.calls n).question) ∧
      ∀ j clientId answer, logged front j (.questionAnswered (cfg.ids n) clientId answer) → seq < j

theorem seqs_of_grows (hg : Grows front front')
    (h : ∀ (i : Nat) (e : Event EventPayload), front.bus.history[i]? = some e → e.seq = i) :
    ∀ (i : Nat) (e : Event EventPayload), front'.bus.history[i]? = some e → e.seq = i := by
  intro i e he
  rcases hg with hsame | ⟨time, payload, hsame⟩
  · exact h i e (hsame ▸ he)
  · rw [hsame] at he
    obtain hold | ⟨rfl, rfl⟩ := getElem?_snoc_cases he
    · exact h i e hold
    · rfl

theorem FrontInv.unanswered (h : FrontInv cfg front) (hd : front.view.Distinct cfg.ids)
    (hstage : (front.calls n).stage = .inserted) : front.answers (cfg.ids n) = [] := by
  obtain ⟨-, f, hf⟩ := State.sound_of_reachable h.reachable hd
  have hlt : n < front.asked := by
    by_contra hge
    have hunborn := (hf.unborn n (Nat.le_of_not_lt hge)).2
    cases hstage.symm.trans hunborn
  have hevents : front.answers (cfg.ids n) = (f n).events := hf.events n hlt
  rw [hevents]
  cases hfn : f n with
  | told e =>
      have hagrees := hf.agrees n
      rw [hfn] at hagrees
      exfalso
      rcases hagrees with ⟨clientId, answer, he, hslot, -⟩ | ⟨-, hslot, -⟩
      · exact h.unused n _ hstage hslot
      · exact h.unused n _ hstage hslot
  | _ => rfl

theorem FrontInv.next (h : FrontInv cfg front) (hd : front.view.Distinct cfg.ids)
    (huses : ∀ n, Uses front act n → waits front n = true) (hn : front.next cfg act = some front') :
    FrontInv cfg front' := by
  have hg := grows_of_next hn
  refine ⟨h.reachable.step trivial hn, seqs_of_grows hg h.seqs, ?_, ?_⟩
  · intro n outcome hstage
    cases fate_of_next hn n with
    | same heq =>
        rw [heq] at hstage ⊢
        exact h.unused n outcome hstage
    | closed heq =>
        rw [heq]
        exact nofun
    | used outcome' heq hused =>
        rw [heq] at hstage
        have hwaits := huses n hused
        simp only at hstage
        simp [waits, hstage] at hwaits
    | asked agent call time question hact hquestion hnew heq =>
        rw [heq]
        exact nofun
    | emits time hold heq hbus =>
        rw [heq] at hstage
        cases hstage
    | ended stage heq hlive =>
        rw [heq] at hstage
        obtain rfl | ⟨result, rfl⟩ := hlive <;> cases hstage
  · intro n seq hstage
    have hkept (hbefore : (front.calls n).stage = .waiting seq)
        (hagent : (front'.calls n).agent = (front.calls n).agent)
        (hquestion : (front'.calls n).question = (front.calls n).question) :
        logged front' seq (.questionAsked (cfg.ids n) (front'.calls n).agent (front'.calls n).question) ∧
          ∀ j clientId answer, logged front' j (.questionAnswered (cfg.ids n) clientId answer) → seq < j := by
      obtain ⟨hasked, hafter⟩ := h.asked n seq hbefore
      rw [hagent, hquestion]
      refine ⟨logged_mono hg hasked, ?_⟩
      intro j clientId answer hj
      rcases logged_old hg hj with hold | rfl
      · exact hafter j clientId answer hold
      · exact lt_of_logged hasked
    cases fate_of_next hn n with
    | same heq => exact hkept (heq ▸ hstage) (by rw [heq]) (by rw [heq])
    | closed heq =>
        rw [heq] at hstage
        exact hkept hstage (by rw [heq]) (by rw [heq])
    | used outcome' heq hused =>
        rw [heq] at hstage
        exact hkept hstage (by rw [heq]) (by rw [heq])
    | asked agent call time question hact hquestion hnew heq =>
        rw [heq] at hstage
        cases hstage
    | emits time hold heq hbus =>
        rw [heq] at hstage ⊢
        obtain rfl : front.bus.nextSeq = seq := CallStage.waiting.inj hstage
        have hhistory := congrArg EventBus.history hbus
        refine ⟨logged_new hhistory, ?_⟩
        intro j clientId answer hj
        exfalso
        rcases logged_old hg hj with hold' | rfl
        · have hmem := answers_of_logged hold'
          rw [h.unanswered hd hold] at hmem
          cases hmem
        · cases logged_inj (logged_new hhistory) hj
    | ended stage heq hlive =>
        rw [heq] at hstage
        obtain rfl | ⟨result, rfl⟩ := hlive <;> cases hstage

/-- The part of `Nests` that stays true whatever follows. -/
structure Placed (cfg : Config) (front : State) (x : Nested) : Prop where
  use : logged front x.use (.toolUse x.agent x.call)
  asked : ∃ question, cfg.parseQuestion x.call.input = .ok question ∧
    logged front x.asked (.questionAsked (cfg.ids x.question) x.agent question)
  answered : ∃ i clientId answer, logged front i (.questionAnswered (cfg.ids x.question) clientId answer) ∧
    x.asked < i ∧ i < x.returned
  result : ∀ r, x.result = some r →
    logged front r (.toolResult x.agent x.call.id x.call.name x.output) ∧ x.returned ≤ r
  order : x.use < x.asked

theorem Placed.mono {x : Nested} (hg : Grows front front') (h : Placed cfg front x) : Placed cfg front' x := by
  obtain ⟨question, hquestion, hasked⟩ := h.asked
  obtain ⟨i, clientId, answer, hanswered, hlt, hlt'⟩ := h.answered
  refine ⟨logged_mono hg h.use, ⟨question, hquestion, logged_mono hg hasked⟩,
    ⟨i, clientId, answer, logged_mono hg hanswered, hlt, hlt'⟩, ?_, h.order⟩
  intro r hr
  exact ⟨logged_mono hg (h.result r hr).1, (h.result r hr).2⟩

def PhaseInv (cfg : Config) (front : State) (agent : AgentId) : AgentPhase → Prop
  | .idle _ => True
  | .used call use => logged front use (.toolUse agent call)
  | .asking call use n =>
    logged front use (.toolUse agent call) ∧ n < front.asked ∧ (front.calls n).agent = agent ∧
      cfg.parseQuestion call.input = .ok (front.calls n).question ∧
      ∀ seq, (front.calls n).stage = .waiting seq → use < seq
  | .finishing call output nested =>
    ∀ x, nested = some x → Placed cfg front x ∧ x.agent = agent ∧ x.call = call ∧ x.output = output ∧
      x.returned ≤ front.bus.history.length

structure Inv (cfg : Config) (s : ToolCalls) : Prop where
  front : FrontInv cfg s.front
  agents : ∀ agent, PhaseInv cfg s.front agent (s.agents agent)
  done : ∀ x ∈ s.done, Placed cfg s.front x

theorem length_of_grows (hg : Grows front front') : front.bus.history.length ≤ front'.bus.history.length := by
  rcases hg with hsame | ⟨time, payload, hsame⟩
  · exact Nat.le_of_eq (congrArg List.length hsame).symm
  · rw [hsame, List.length_append]
    exact Nat.le_add_right _ _

theorem PhaseInv.next {agent : AgentId} {phase : AgentPhase} (h : PhaseInv cfg front agent phase)
    (hn : front.next cfg act = some front') : PhaseInv cfg front' agent phase := by
  have hg := grows_of_next hn
  cases phase with
  | idle emitted => trivial
  | used call use => exact logged_mono hg h
  | finishing call output nested =>
      intro x hx
      obtain ⟨hplaced, hagent, hcall, houtput, hreturned⟩ := h x hx
      exact ⟨hplaced.mono hg, hagent, hcall, houtput, Nat.le_trans hreturned (length_of_grows hg)⟩
  | asking call use n =>
      obtain ⟨huse, hlt, hagent, hquestion, hbefore⟩ := h
      have hasked : n < front'.asked := Nat.lt_of_lt_of_le hlt (State.view_asked hn)
      have hkept (heq : (front'.calls n).agent = (front.calls n).agent)
          (hq : (front'.calls n).question = (front.calls n).question)
          (hstage : ∀ seq, (front'.calls n).stage = .waiting seq → use < seq) :
          PhaseInv cfg front' agent (.asking call use n) :=
        ⟨logged_mono hg huse, hasked, heq.trans hagent, hq ▸ hquestion, hstage⟩
      cases fate_of_next hn n with
      | same heq => exact hkept (by rw [heq]) (by rw [heq]) (by rw [heq]; exact hbefore)
      | closed heq => exact hkept (by rw [heq]) (by rw [heq]) (by rw [heq]; exact hbefore)
      | used outcome heq huses => exact hkept (by rw [heq]) (by rw [heq]) (by rw [heq]; exact hbefore)
      | asked agent' call' time question hact hq hnew heq => omega
      | emits time hold heq hbus =>
          apply hkept (by rw [heq]) (by rw [heq])
          intro seq hseq
          rw [heq] at hseq
          rw [← CallStage.waiting.inj hseq]
          exact lt_of_logged huse
      | ended stage heq hlive =>
          apply hkept (by rw [heq]) (by rw [heq])
          intro seq hseq
          rw [heq] at hseq
          obtain rfl | ⟨result, rfl⟩ := hlive <;> cases hseq

theorem callStep_output {act : CallAct} {seq : Nat} {output : ToolOutput} (hn : front.callStep cfg n act = some front')
    (hstage : (front.calls n).stage = .waiting seq) (hreturned : (front'.calls n).stage = .returned (.ok output)) :
    act = .poll ∧ (∃ outcome, (front.calls n).slot = .sent outcome) ∧ front'.bus = front.bus := by
  cases act with
  | emit time => simp [State.callStep, hstage] at hn
  | poll =>
      simp only [State.callStep, hstage] at hn
      split at hn
      · cases hn
      · split at hn <;> cases hn
        case h_1 hslot => exact ⟨rfl, ⟨_, hslot⟩, rfl⟩
        case h_2 hslot => exact ⟨rfl, ⟨_, hslot⟩, rfl⟩
        case h_3 => simp [State.callReturns, State.setCall] at hreturned
  | observe =>
      simp only [State.callStep, hstage] at hn
      split at hn <;> cases hn
      simp [State.callReturns, State.setCall] at hreturned
  | drop =>
      simp only [State.callStep, hstage] at hn
      split at hn <;> cases hn
      simp [State.setCall] at hreturned

variable {s t : ToolCalls} {agent : AgentId}

theorem phaseInv_after {call : ToolCall} {use : Nat} {act : CallAct} (hfront : FrontInv cfg front)
    (h : PhaseInv cfg front agent (.asking call use n))
    (h' : PhaseInv cfg front' agent (.asking call use n)) (hn : front.next cfg (.call n act) = some front')
    (hpoll : act = .poll → (∃ outcome, (front.calls n).slot = .sent outcome) → front.answers (cfg.ids n) ≠ []) :
    PhaseInv cfg front' agent (after front' agent call use n (front.calls n).stage) := by
  have hg := grows_of_next hn
  simp only [after]
  split
  case h_1 output seq hreturned hstage =>
    obtain ⟨rfl, hslot, hbus⟩ := callStep_output hn hstage hreturned
    obtain ⟨huse, hlt, hagent, hquestion, hbefore⟩ := h
    obtain ⟨hasked, hafter⟩ := hfront.asked n seq hstage
    obtain ⟨i, clientId, answer, hanswered⟩ := logged_of_answers hfront.seqs (hpoll rfl hslot)
    intro x hx
    obtain rfl := Option.some.inj hx
    refine ⟨⟨logged_mono hg huse, ⟨_, hquestion, ?_⟩, ⟨i, clientId, answer, logged_mono hg hanswered, ?_, ?_⟩, nofun,
      hbefore seq hstage⟩, rfl, rfl, rfl, Nat.le_refl _⟩
    · rw [← hagent]
      exact logged_mono hg hasked
    · exact hafter i clientId answer hanswered
    · rw [hbus]
      exact lt_of_logged hanswered
  case h_2 => trivial
  case h_3 => trivial
  case h_4 => exact h'

theorem runTool_asked {call : ToolCall} {time : Timestamp}
    (h : (front.runTool cfg agent call time).asked ≠ front.asked) :
    ∃ question, cfg.parseQuestion call.input = .ok question ∧
      front.asked < (front.runTool cfg agent call time).asked ∧
      (front.runTool cfg agent call time).calls front.asked = ⟨agent, question, .inserted, .empty⟩ := by
  simp only [State.runTool] at h ⊢
  split at h
  case isTrue => exact absurd rfl h
  case isFalse hup =>
    split at h
    case isTrue hask =>
      split at h
      case h_1 => exact absurd rfl h
      case h_2 question hquestion =>
        simp only [hup, hask, hquestion, if_true, Bool.false_eq_true, if_false]
        exact ⟨question, rfl, Nat.lt_succ_self _, by simp [State.setCall]⟩
    case isFalse =>
      split at h
      case isTrue => split at h <;> exact absurd rfl h
      case isFalse => exact absurd rfl h

theorem Inv.goto {phase : AgentPhase} {done : List Nested} (h : Inv cfg s)
    (hfront : FrontInv cfg front') (hn : s.front.next cfg act = some front')
    (hphase : PhaseInv cfg front' agent phase) (hdone : ∀ x ∈ done, Placed cfg front' x) :
    Inv cfg (ToolCalls.goto { s with front := front', done := done } agent phase) := by
  refine ⟨hfront, ?_, hdone⟩
  intro a
  by_cases ha : a = agent
  · subst ha
    simpa [ToolCalls.goto] using hphase
  · simpa [ToolCalls.goto, ha] using (h.agents a).next hn

theorem emit_of_next {time : Timestamp} (hn : front.next cfg (.emit time payload) = some front') :
    front' = front.emit time payload := by
  simp only [State.next] at hn
  split at hn <;> cases hn
  rfl

theorem uses_of_orderly (horderly : s.orderly cfg (.front act) = true) : ∀ n, Uses s.front act n → waits s.front n = true := by
  intro n huses
  cases huses with
  | send h => simpa [orderly, h] using horderly
  | strike h he => simpa [orderly, h, he] using horderly

theorem front_asked_le {a : ToolAct} (hn : s.next cfg a = some t) : s.front.asked ≤ t.front.asked := by
  cases a with
  | front act =>
      simp only [ToolCalls.next] at hn
      split at hn
      · cases hn
      · obtain ⟨front, hfront, rfl⟩ := Option.map_eq_some_iff.mp hn
        exact State.view_asked hfront
  | use agent time call =>
      simp only [ToolCalls.next] at hn
      split at hn
      · split at hn
        · cases hn
        · obtain ⟨front, hfront, rfl⟩ := Option.map_eq_some_iff.mp hn
          exact State.view_asked hfront
      · cases hn
  | run agent time output =>
      simp only [ToolCalls.next] at hn
      split at hn
      · split at hn
        · cases hn
        · obtain ⟨front, hfront, rfl⟩ := Option.map_eq_some_iff.mp hn
          exact State.view_asked hfront
      · cases hn
  | call agent act =>
      simp only [ToolCalls.next] at hn
      split at hn
      · obtain ⟨front, hfront, rfl⟩ := Option.map_eq_some_iff.mp hn
        exact State.view_asked hfront
      · cases hn
  | result agent time =>
      simp only [ToolCalls.next] at hn
      split at hn
      · obtain ⟨front, hfront, rfl⟩ := Option.map_eq_some_iff.mp hn
        exact State.view_asked hfront
      · cases hn

theorem Inv.next {a : ToolAct} (h : Inv cfg s) (hd : s.front.view.Distinct cfg.ids) (horderly : s.orderly cfg a = true)
    (hn : s.next cfg a = some t) : Inv cfg t := by
  have hfree (act : Act) (hact : ∀ n, ¬ Uses s.front act n) {front : State}
      (hfront : s.front.next cfg act = some front) : FrontInv cfg front :=
    h.front.next hd (fun n huses => absurd huses (hact n)) hfront
  cases a with
  | front act =>
      simp only [ToolCalls.next] at hn
      split at hn
      · cases hn
      · obtain ⟨front, hfront, rfl⟩ := Option.map_eq_some_iff.mp hn
        have hg := grows_of_next hfront
        exact ⟨h.front.next hd (uses_of_orderly horderly) hfront, fun agent => (h.agents agent).next hfront,
          fun x hx => (h.done x hx).mono hg⟩
  | use agent time call =>
      simp only [ToolCalls.next] at hn
      split at hn
      · split at hn
        · cases hn
        · obtain ⟨front, hfront, rfl⟩ := Option.map_eq_some_iff.mp hn
          have hg := grows_of_next hfront
          refine h.goto (hfree _ (fun _ huses => by cases huses) hfront) hfront ?_ fun x hx => (h.done x hx).mono hg
          rw [emit_of_next hfront]
          exact logged_new rfl
      · cases hn
  | run agent time output =>
      simp only [ToolCalls.next] at hn
      split at hn
      case h_1 call use hphase =>
        split at hn
        · cases hn
        · obtain ⟨front, hfront, rfl⟩ := Option.map_eq_some_iff.mp hn
          have hg := grows_of_next hfront
          have huse : PhaseInv cfg s.front agent (.used call use) := hphase ▸ h.agents agent
          refine h.goto (hfree _ (fun _ huses => by cases huses) hfront) hfront ?_ fun x hx => (h.done x hx).mono hg
          obtain rfl : _ = front := Option.some.inj hfront
          split
          case isTrue => exact nofun
          case isFalse hasked =>
            obtain ⟨question, hquestion, hlt, hcall⟩ := runTool_asked hasked
            refine ⟨logged_mono hg huse, hlt, by rw [hcall], by rw [hcall]; exact hquestion, ?_⟩
            intro seq hseq
            rw [hcall] at hseq
            cases hseq
      case h_2 => cases hn
  | call agent act =>
      simp only [ToolCalls.next] at hn
      split at hn
      case h_1 call use n hphase =>
        obtain ⟨front, hfront, rfl⟩ := Option.map_eq_some_iff.mp hn
        have hg := grows_of_next hfront
        have hold : PhaseInv cfg s.front agent (.asking call use n) := hphase ▸ h.agents agent
        refine h.goto (hfree _ (fun _ huses => by cases huses) hfront) hfront ?_ fun x hx => (h.done x hx).mono hg
        apply phaseInv_after h.front hold (hold.next hfront) hfront
        rintro rfl ⟨outcome, hslot⟩
        simpa [orderly, hphase, hslot] using horderly
      case h_2 => cases hn
  | result agent time =>
      simp only [ToolCalls.next] at hn
      split at hn
      case h_1 call output nested hphase =>
        obtain ⟨front, hfront, rfl⟩ := Option.map_eq_some_iff.mp hn
        have hg := grows_of_next hfront
        have hold : PhaseInv cfg s.front agent (.finishing call output nested) := hphase ▸ h.agents agent
        refine h.goto (hfree _ (fun _ huses => by cases huses) hfront) hfront trivial ?_
        intro x hx
        rcases List.mem_append.mp hx with hx | hx
        · exact (h.done x hx).mono hg
        · obtain ⟨y, rfl, rfl⟩ : ∃ y, nested = some y ∧ y.ends s.front.bus.nextSeq = x := by
            simpa using hx
          obtain ⟨hplaced, rfl, rfl, rfl, hreturned⟩ := hold y rfl
          have hmono := hplaced.mono hg
          refine ⟨hmono.use, hmono.asked, hmono.answered, ?_, hmono.order⟩
          intro r hr
          obtain rfl : s.front.bus.nextSeq = r := Option.some.inj hr
          rw [emit_of_next hfront]
          exact ⟨logged_new rfl, hreturned⟩
      case h_2 => cases hn

theorem answered_once {id answer answer' : String} {clientId clientId' : Option String} {j : Nat}
    (honce : (front.answers id).length ≤ 1) (hi : logged front i (.questionAnswered id clientId answer))
    (hj : logged front j (.questionAnswered id clientId' answer')) : j = i := by
  obtain ⟨time, hi⟩ := hi
  obtain ⟨time', hj⟩ := hj
  by_contra hne
  have hfi : answerTo id (.questionAnswered id clientId answer) = some (clientId, answer) := by simp [answerTo]
  have hfj : answerTo id (.questionAnswered id clientId' answer') = some (clientId', answer') := by simp [answerTo]
  have hri := getElem?_rank hi (f := fun e => answerTo id e.payload) hfi
  have hrj := getElem?_rank hj (f := fun e => answerTo id e.payload) hfj
  have hlt := (List.getElem?_eq_some_iff.mp hri).1
  have hlt' := (List.getElem?_eq_some_iff.mp hrj).1
  have hrank := rank_ne (f := fun e : Event EventPayload => answerTo id e.payload) hj hfj hi hfi hne
  simp only [State.answers] at honce
  omega

theorem inv_of_reachable (hr : (machine cfg).ReachableUnder (fun s act => s.orderly cfg act = true) s)
    (hd : s.front.view.Distinct cfg.ids) : Inv cfg s := by
  revert hd
  apply Machine.ReachableUnder.invariant _ _ hr
  · rintro s ⟨hinit, hagents, hdone⟩ _
    refine ⟨⟨⟨s.front, hinit, .refl⟩, ?_, ?_, ?_⟩, fun agent => by rw [hagents]; trivial, by simp [hdone]⟩
    all_goals
      obtain ⟨records, now, issue, hstart⟩ := hinit
      simp [hstart, State.start, EventBus.empty]
  · intro s t a ih horderly hn hd
    have hds : s.front.view.Distinct cfg.ids := hd.mono (front_asked_le hn)
    exact (ih hds).next hds horderly hn

/-- Every question that got an answer or an interrupt has its events in order, in every
run in which its sender is used after `question_asked` and its call goes on after
`question_answered`. -/
theorem questions_nest (hr : (machine cfg).ReachableUnder (fun s act => s.orderly cfg act = true) s)
    (hd : ∀ m < s.front.asked, ∀ n < s.front.asked, cfg.ids m = cfg.ids n → m = n) {x : Nested}
    (hx : s.Returned x) : Nests cfg s x := by
  have hinv := inv_of_reachable hr hd
  have hplaced : Placed cfg s.front x := by
    rcases hx with hx | ⟨agent, call, output, hphase⟩
    · exact hinv.done x hx
    · have hagent := hinv.agents agent
      rw [hphase] at hagent
      exact (hagent x rfl).1
  have honce := (State.questions_resolved_once hinv.front.reachable hd).once (cfg.ids x.question)
  obtain ⟨i, clientId, answer, hanswered, hlt, hlt'⟩ := hplaced.answered
  exact ⟨hplaced.use, hplaced.asked, ⟨i, clientId, answer, hanswered, hlt, hlt',
    fun j clientId' answer' hj => answered_once honce hanswered hj⟩, hplaced.result, hplaced.order⟩

def quiet : ToolCalls := ⟨.start [] 0 none, fun _ => .idle none, []⟩

theorem init_quiet : (machine State.tokenOnly).init quiet := ⟨⟨[], 0, none, rfl⟩, fun _ => rfl, rfl⟩

def question : ToolCall := ⟨"call", "AskUserQuestion", .null⟩

def answersQuestion : List ToolAct :=
  (State.joins 0).map .front ++ [ToolAct.use 0 ⟨0, none⟩ question] ++ (State.delivers 0).map .front ++
    [ToolAct.run 0 ⟨0, none⟩ (.error ""), .call 0 (.emit ⟨0, none⟩)] ++ (State.delivers 1).map .front ++
    [ToolAct.front (State.answersNow State.tokenOnly 0 0 "yes" State.draw), .front (.conn 0 .send)]

theorem questions_nest_answer :
    ∃ s, (machine State.tokenOnly).ReachableUnder (fun s act => s.orderly State.tokenOnly act = true) s ∧
      ∃ x, x ∈ s.done ∧ x.result = some 3 ∧ Nests State.tokenOnly s x := by
  obtain ⟨s, hr, hp⟩ := Machine.exists_of_runChecked (M := machine State.tokenOnly) (orderly State.tokenOnly)
    (answersQuestion ++ [ToolAct.front (.conn 0 (.emitAnswer ⟨0, none⟩)), .call 0 .poll, .result 0 ⟨0, none⟩])
    (fun s => decide (s.front.asked = 1 ∧ s.done.map Nested.result = [some 3])) init_quiet rfl
  obtain ⟨hasked, hdone⟩ := of_decide_eq_true hp
  obtain ⟨x, hx, hresult⟩ : ∃ x ∈ s.done, x.result = some 3 := List.mem_map.mp (by rw [hdone]; exact .head _)
  refine ⟨s, hr, x, hx, hresult, questions_nest hr ?_ (.inl hx)⟩
  rw [hasked]
  intro m hm n hn _
  omega

/-- The agent takes the answer and emits its result before the client's task emits
`question_answered`. -/
theorem not_nests_early_result :
    ∃ s, (machine State.tokenOnly).Reachable s ∧ s.front.answers "0" = [(some "0", "yes")] ∧
      ∃ x ∈ s.done, x.asked = 1 ∧ x.returned = 2 ∧ x.result = some 2 ∧ ¬ Nests State.tokenOnly s x := by
  obtain ⟨s, hr, hp⟩ := Machine.exists_of_run (M := machine State.tokenOnly)
    (answersQuestion ++ [ToolAct.call 0 .poll, .result 0 ⟨0, none⟩, .front (.conn 0 (.emitAnswer ⟨0, none⟩))])
    (fun s => decide (s.front.answers "0" = [(some "0", "yes")] ∧
      s.done.map (fun x => (x.asked, x.returned, x.result)) = [(1, 2, some 2)])) init_quiet rfl
  obtain ⟨hanswers, hdone⟩ := of_decide_eq_true hp
  obtain ⟨x, hx, hfields⟩ : ∃ x ∈ s.done, (x.asked, x.returned, x.result) = (1, 2, some 2) :=
    List.mem_map.mp (by rw [hdone]; exact .head _)
  simp only [Prod.mk.injEq] at hfields
  refine ⟨s, hr, hanswers, x, hx, hfields.1, hfields.2.1, hfields.2.2, fun h => ?_⟩
  obtain ⟨i, clientId, answer, -, hlt, hlt', -⟩ := h.answered
  omega

end ToolCalls

end Silo.Frontend
