import Silo.Frontend.Voice
import Silo.Harness.Run

namespace Silo.Harness.Run

open Silo.Lib Silo.Core

def Background.detached : Background → Bool
  | .exchange _ | .upstream _ | .piped _ | .serverLog => true
  | _ => false

def Background.ofFrontend : Background → Bool
  | .acceptLoop | .costWatcher | .writer _ | .pump _ => true
  | _ => false

namespace RunStage

/-- Before the call of `finish`. -/
def isSetup : RunStage → Bool
  | .startProxy | .createSandbox | .startSandbox | .createFrontend | .startFrontend | .createBackend
  | .session => true
  | _ => false

def started : RunStage → Component → Nat
  | .startProxy, _ => 0
  | .createSandbox, c | .startSandbox, c => if c = .proxy then 1 else 0
  | .createFrontend, c | .startFrontend, c => if c = .frontend then 0 else 1
  | .createBackend, _ | .session, _ => 1
  | .announce f, c | .close _ f, c | .detach f, c | .returned f, c => if f.takes c then 1 else 0

/-- The `shutdown` event is out. -/
def isOver : RunStage → Bool
  | .close _ _ | .detach _ | .returned _ => true
  | _ => false

def past : RunStage → Bool
  | .close c _ => c ≠ .frontend
  | .detach _ | .returned _ => true
  | _ => false

def listens : RunStage → Bool
  | .createFrontend | .startFrontend | .createBackend | .session => true
  | _ => false

/-- The frontend's own tasks may run. -/
def serves : RunStage → Bool
  | .createBackend | .session => true
  | .announce f | .close .frontend f => f.frontend
  | _ => false

def hosts : RunStage → Bool
  | .startSandbox | .createFrontend | .startFrontend | .createBackend | .session => true
  | .announce f | .close .frontend f | .close .sandbox f => f.sandbox
  | _ => false

def runs (stage : RunStage) : Background → Bool
  | .signalListener => stage.listens
  | .uploads => (stage matches .session)
  | .straggler | .late _ => false
  | .acceptLoop | .costWatcher => stage.serves
  | .helperReader | .helperWriter | .forwarder => stage.hosts
  | .proxyLoop | .dnsServer => !(stage matches .detach _ | .returned _)
  | .exchange _ | .upstream _ | .piped _ | .serverLog => !(stage matches .returned _)
  | .writer _ | .pump _ => true

end RunStage

def speaks (front : Frontend.State) : Frontend.Act → Bool
  | .conn c (.frame (.text (some message)) _) =>
    ((front.conns c).phase matches .ready _) &&
      match message with
      | .prompt _ | .uploadFile _ _ => true
      | .answerQuestion id _ => (front.questions.lookup id).isSome
      | _ => false
  | _ => false

namespace RunState

/-- Setup fails only while no signal listener runs, and no task outlives the session. When
`shutdown` is emitted no connection holds an answer, and from then on no client sends a prompt, an
upload or an answer. No connection is accepted late or outlasts the grace period, and the tasks that
are on their own have ended when the workspace is detached. -/
def orderly (s : RunState) : RunAct → Bool
  | .operate (.error _) => !s.stage.listens || .signalListener ∉ s.tasks
  | .endSession _ sharedFrontend sharedSandbox _ => !sharedFrontend && !sharedSandbox
  | .announce _ => s.connTasks.all fun c => !(s.front.conns c).phase.answers
  | .front act => !s.stage.isOver || !speaks s.front act
  | .spawn (.late _) | .abort => false
  | .detach => ∀ b ∈ s.tasks, b.detached = false
  | _ => true

variable {options : RunOptions} {cfg : Frontend.Config} {s t : RunState}

@[simp] theorem takes_note (f : Finish) (result : Except RunError Unit) (c : Component) :
    (f.note result).takes c = f.takes c := by
  cases result <;> cases c <;> rfl

theorem started_afterClose (f : Finish) (c : Component) :
    (RunStage.afterClose f c).started = (RunStage.close c f).started := by
  cases c <;> rfl

def AtRest (s : RunState) (c : Nat) : Prop :=
  ((s.front.conns c).phase = .away ∨ (s.front.conns c).phase = .closed) ∧
    .writer c ∉ s.tasks ∧ .pump c ∉ s.tasks

/-- Where the tasks are: those of a stage that may run, and the connections among those to join. -/
structure Ledger (s : RunState) : Prop where
  runs : ∀ b ∈ s.tasks, s.stage.runs b = true
  conns : ∀ c, c ∉ s.connTasks → s.AtRest c
  pumps : ∀ c, .pump c ∈ s.tasks → (s.front.conns c).phase ≠ .closed
  idle : s.serving = false → .acceptLoop ∉ s.tasks ∧ .costWatcher ∉ s.tasks ∧ s.connTasks = []
  given : s.serving = true → s.stage.started .frontend = 1
  joined : s.stage.past = true → s.connTasks = []
  silent : s.stage.isOver = true → ∀ c, (s.front.conns c).phase.answers = false

theorem Ledger.go (h : Ledger s) (hconns : t.front.conns = s.front.conns) (hconnTasks : t.connTasks = s.connTasks)
    (hserving : t.serving = s.serving) (hruns : ∀ b ∈ t.tasks, t.stage.runs b = true)
    (htasks : ∀ b : Background, b.ofFrontend = true → b ∈ t.tasks → b ∈ s.tasks)
    (hgiven : s.serving = true → t.stage.started .frontend = 1) (hjoined : t.stage.past = true → s.connTasks = [])
    (hsilent : t.stage.isOver = true → ∀ c, (s.front.conns c).phase.answers = false) : Ledger t := by
  have hoff {b : Background} (hb : b.ofFrontend = true) (hs : b ∉ s.tasks) : b ∉ t.tasks := by
    intro ht
    exact hs (htasks b hb ht)
  refine ⟨hruns, ?_, ?_, ?_, ?_, ?_, ?_⟩
  · intro c hc
    rw [hconnTasks] at hc
    obtain ⟨hphase, hwriter, hpump⟩ := h.conns c hc
    exact ⟨by rw [hconns]; exact hphase, hoff rfl hwriter, hoff rfl hpump⟩
  · intro c hc
    rw [hconns]
    exact h.pumps c (htasks _ rfl hc)
  · intro hidle
    obtain ⟨haccept, hcost, hnone⟩ := h.idle (hserving ▸ hidle)
    exact ⟨hoff rfl haccept, hoff rfl hcost, hconnTasks.trans hnone⟩
  · intro hs
    exact hgiven (hserving ▸ hs)
  · intro hpast
    exact hconnTasks.trans (hjoined hpast)
  · intro hover c
    rw [hconns]
    exact hsilent hover c

theorem Ledger.proceed (h : Ledger s) {next : RunStage}
    (hwidens : ∀ b ∈ s.tasks, s.stage.runs b = true → next.runs b = true)
    (hgiven : s.stage.started .frontend = 1 → next.started .frontend = 1) (hover : next.isOver = false)
    (hpast : next.past = false) (hstage : t.stage = next) (hconns : t.front.conns = s.front.conns)
    (hconnTasks : t.connTasks = s.connTasks) (hserving : t.serving = s.serving)
    (htasks : ∀ b ∈ t.tasks, b ∈ s.tasks ∨ b.ofFrontend = false ∧ next.runs b = true) : Ledger t := by
  apply h.go hconns hconnTasks hserving
  · intro b hb
    rw [hstage]
    rcases htasks b hb with hb | ⟨-, hruns⟩
    · exact hwidens b hb (h.runs b hb)
    · exact hruns
  · intro b hfrontend hb
    rcases htasks b hb with hb | ⟨hother, -⟩
    · exact hb
    · rw [hfrontend] at hother
      cases hother
  · intro hs
    rw [hstage]
    exact hgiven (h.given hs)
  · intro hpast'
    rw [hstage, hpast] at hpast'
    cases hpast'
  · intro hover'
    rw [hstage, hover] at hover'
    cases hover'

theorem Ledger.setup (h : Ledger s) {frontend sandbox : Bool} {next : RunStage} {result : Except RunError Unit}
    (hsetup : next.isSetup = true)
    (hwidens : ∀ b ∈ s.tasks, s.stage.runs b = true → next.runs b = true)
    (hfailed : ∀ error, result = .error error → ∀ b ∈ s.tasks, s.stage.runs b = true →
      (RunStage.announce ⟨.setup error, frontend, sandbox, none, none⟩).runs b = true)
    (hgiven : s.stage.started .frontend = 1 → next.started .frontend = 1 ∧ frontend = true) :
    Ledger (s.setup frontend sandbox next result) := by
  cases result with
  | ok =>
      refine h.proceed hwidens (fun hs => (hgiven hs).1) ?_ ?_ rfl rfl rfl rfl (fun b hb => .inl hb) <;>
        cases next <;> first | rfl | cases hsetup
  | error error =>
      refine h.proceed (hfailed error rfl) ?_ rfl rfl rfl rfl rfl rfl (fun b hb => .inl hb)
      intro hs
      rw [(hgiven hs).2]
      rfl

theorem Ledger.begin (h : Ledger s) (c : Component) : Ledger (s.begin c) :=
  ⟨h.runs, h.conns, h.pumps, h.idle, h.given, h.joined, h.silent⟩

theorem mem_spawn {b d : Background} : b ∈ (s.spawn d).tasks ↔ b = d ∨ b ∈ s.tasks := Finset.mem_insert

theorem mem_stop {tasks : Finset Background} {b : Background} : b ∈ (s.stop tasks).tasks ↔ b ∈ s.tasks ∧ b ∉ tasks :=
  Finset.mem_sdiff

/-- A component that was given has its tasks aborted, and one that was not has none. -/
theorem runs_afterClose {f g : Finish} {c : Component} {b : Background} (htakes : ∀ d, g.takes d = f.takes d)
    (hruns : (RunStage.close c f).runs b = true) (hstop : f.takes c = true → b ∉ c.tasks) :
    (RunStage.afterClose g c).runs b = true := by
  have hsandbox : g.sandbox = f.sandbox := htakes .sandbox
  cases c with
  | frontend =>
      have hfrontend : f.takes .frontend = f.frontend := rfl
      cases b <;>
        simp_all [RunStage.afterClose, RunStage.runs, RunStage.serves, RunStage.hosts, RunStage.listens, Component.tasks]
  | sandbox =>
      have htaken : f.takes .sandbox = f.sandbox := rfl
      cases b <;>
        simp_all [RunStage.afterClose, RunStage.runs, RunStage.serves, RunStage.hosts, RunStage.listens, Component.tasks]
  | proxy =>
      have hstop := hstop rfl
      cases b <;>
        simp_all [RunStage.afterClose, RunStage.runs, RunStage.serves, RunStage.hosts, RunStage.listens, Component.tasks]

/-- The stage after a shutdown that leaves none of the component's tasks, and no connection
of the frontend. -/
theorem Ledger.afterClose {c : Component} {f g : Finish} {shutdowns : Component → Nat} {tasks : Finset Background}
    {failures : List RunError} (h : Ledger s) (hstage : s.stage = .close c f) (htakes : ∀ d, g.takes d = f.takes d)
    (htasks : ∀ b ∈ tasks, b ∈ s.tasks ∧ (f.takes c = true → b ∉ c.tasks))
    (hnone : c = .frontend → s.connTasks = []) :
    Ledger { s with stage := .afterClose g c, shutdowns := shutdowns, tasks := tasks, failures := failures } := by
  refine h.go rfl rfl rfl ?_ ?_ ?_ ?_ ?_
  · intro b hb
    obtain ⟨hrun, hstop⟩ := htasks b hb
    exact runs_afterClose htakes (hstage ▸ h.runs b hrun) hstop
  · intro b _ hb
    exact (htasks b hb).1
  · intro hs
    have hstarted := h.given hs
    rw [hstage] at hstarted
    rw [← hstarted, started_afterClose]
    simp only [RunStage.started, htakes]
  · intro _
    cases c with
    | frontend => exact hnone rfl
    | sandbox | proxy => exact h.joined (by rw [hstage]; rfl)
  · intro _
    exact h.silent (by rw [hstage]; rfl)

theorem Ledger.close {c : Component} {f : Finish} {result : Except RunError Unit} (h : Ledger s)
    (hstage : s.stage = .close c f) (hn : s.close c f result = some t) : Ledger t := by
  -- a frontend that was not given has not started
  have hidle (hs : s.serving = false) := (h.idle hs).2.2
  rw [RunState.close.eq_def] at hn
  split at hn
  · next htakes =>
      split at hn <;> cases hn
      next hclosable =>
        apply h.afterClose hstage (takes_note f result)
        · intro b hb
          exact ⟨(mem_stop.mp hb).1, fun _ => (mem_stop.mp hb).2⟩
        · rintro rfl
          simp only [closable, Bool.or_eq_true, Bool.not_eq_true', Bool.and_eq_true, List.isEmpty_iff] at hclosable
          rcases hclosable with hs | ⟨-, hnone⟩
          · exact hidle hs
          · exact hnone
  · next htakes =>
      split at hn <;> cases hn
      apply h.afterClose hstage (fun _ => rfl)
      · intro b hb
        exact ⟨hb, fun hc => absurd hc htakes⟩
      · rintro rfl
        apply hidle
        rw [Bool.eq_false_iff]
        intro hs
        have hstarted := h.given hs
        rw [hstage, RunStage.started, if_neg htakes] at hstarted
        cases hstarted

/-- A setup step fails under a signal listener in no orderly run. -/
theorem ne_signalListener {result : Except RunError Unit} {error : RunError} {b : Background}
    (ho : s.orderly (.operate result) = true) (hresult : result = .error error) (hlistens : s.stage.listens = true)
    (hb : b ∈ s.tasks) : b ≠ .signalListener := by
  subst hresult
  rintro rfl
  simp [orderly, hlistens, hb] at ho

section Operate

variable {result : Except RunError Unit}

theorem Ledger.operate_startProxy (h : Ledger s) (hs : s.stage = .startProxy)
    (hn : s.operate options result = some t) : Ledger t := by
  simp only [RunState.operate, hs] at hn
  cases hn
  apply (h.begin .proxy).setup rfl
  · intro b _ hb
    simp only [RunState.begin, hs] at hb
    cases b <;> first | rfl | cases hb
  · intro error _ b _ hb
    simp only [RunState.begin, hs] at hb
    cases b <;> first | rfl | cases hb
  · simp [RunState.begin, hs, RunStage.started]

theorem Ledger.operate_createSandbox (h : Ledger s) (hs : s.stage = .createSandbox)
    (hn : s.operate options result = some t) : Ledger t := by
  simp only [RunState.operate, hs] at hn
  cases hn
  apply h.setup rfl
  · intro b _ hb
    rw [hs] at hb
    cases b <;> first | rfl | cases hb
  · intro error _ b _ hb
    rw [hs] at hb
    cases b <;> first | rfl | cases hb
  · simp [hs, RunStage.started]

theorem Ledger.operate_startSandbox (h : Ledger s) (hs : s.stage = .startSandbox)
    (hn : s.operate options result = some t) : Ledger t := by
  simp only [RunState.operate, hs] at hn
  split at hn <;> cases hn
  · refine (h.begin .sandbox).proceed ?_ ?_ rfl rfl rfl rfl rfl rfl ?_
    · intro b _ hb
      simp only [RunState.begin, hs] at hb
      cases b <;> first | rfl | cases hb
    · simp [RunState.begin, hs, RunStage.started]
    · intro b hb
      by_cases hdeterministic : options.deterministic = true
      · simp only [hdeterministic, if_true] at hb
        exact .inl hb
      · simp only [hdeterministic, Bool.false_eq_true, if_false, Finset.mem_insert] at hb
        rcases hb with rfl | hb
        · exact .inr ⟨rfl, rfl⟩
        · exact .inl hb
  · refine (h.begin .sandbox).proceed ?_ ?_ rfl rfl rfl rfl rfl rfl ?_
    · intro b _ hb
      simp only [RunState.begin, hs] at hb
      cases b <;> first | rfl | cases hb
    · simp [RunState.begin, hs, RunStage.started]
    · intro b hb
      exact .inl (mem_stop.mp hb).1

theorem Ledger.operate_createFrontend (h : Ledger s) (hs : s.stage = .createFrontend)
    (ho : s.orderly (.operate result) = true) (hn : s.operate options result = some t) : Ledger t := by
  have hlistens : s.stage.listens = true := by rw [hs]; rfl
  simp only [RunState.operate, hs] at hn
  cases hn
  apply h.setup rfl
  · intro b _ hb
    rw [hs] at hb
    cases b <;> first | rfl | cases hb
  · intro error hresult b hrun hb
    rw [hs] at hb
    cases b with
    | signalListener => exact absurd rfl (ne_signalListener ho hresult hlistens hrun)
    | _ => first | rfl | cases hb
  · simp [hs, RunStage.started]

theorem Ledger.operate_startFrontend (h : Ledger s) (hs : s.stage = .startFrontend)
    (ho : s.orderly (.operate result) = true) (hn : s.operate options result = some t) : Ledger t := by
  have hlistens : s.stage.listens = true := by rw [hs]; rfl
  simp only [RunState.operate, hs] at hn
  split at hn <;> cases hn
  · refine ⟨?_, ?_, ?_, nofun, fun _ => rfl, nofun, nofun⟩
    · intro b hb
      rcases mem_spawn.mp hb with heq | hb
      · rw [heq]
        rfl
      · rcases mem_spawn.mp hb with heq | hb
        · rw [heq]
          rfl
        · have hruns := h.runs b hb
          rw [hs] at hruns
          cases b <;> first | rfl | cases hruns
    · intro c hc
      obtain ⟨hphase, hwriter, hpump⟩ := h.conns c hc
      refine ⟨hphase, ?_, ?_⟩
      · simpa [spawn, RunState.begin] using hwriter
      · simpa [spawn, RunState.begin] using hpump
    · intro c hc
      apply h.pumps
      simpa [spawn, RunState.begin] using hc
  · refine (h.begin .frontend).proceed ?_ ?_ rfl rfl rfl rfl rfl rfl ?_
    · intro b hrun hb
      simp only [RunState.begin, hs] at hrun hb
      cases b with
      | signalListener => exact absurd rfl (ne_signalListener ho rfl hlistens hrun)
      | _ => first | rfl | cases hb
    · intro _
      rfl
    · intro b hb
      exact .inl hb

theorem Ledger.operate_createBackend (h : Ledger s) (hs : s.stage = .createBackend)
    (ho : s.orderly (.operate result) = true) (hn : s.operate options result = some t) : Ledger t := by
  have hlistens : s.stage.listens = true := by rw [hs]; rfl
  simp only [RunState.operate, hs] at hn
  split at hn <;> cases hn
  · refine h.proceed ?_ ?_ rfl rfl rfl rfl rfl rfl ?_
    · intro b _ hb
      rw [hs] at hb
      cases b <;> first | rfl | cases hb
    · intro _
      rfl
    · intro b hb
      rcases mem_spawn.mp hb with rfl | hb
      · exact .inr ⟨rfl, rfl⟩
      · exact .inl hb
  · refine h.proceed ?_ ?_ rfl rfl rfl rfl rfl rfl ?_
    · intro b hrun hb
      rw [hs] at hb
      cases b with
      | signalListener => exact absurd rfl (ne_signalListener ho rfl hlistens hrun)
      | _ => first | rfl | cases hb
    · intro _
      rfl
    · intro b hb
      exact .inl hb

theorem Ledger.operate (h : Ledger s) (ho : s.orderly (.operate result) = true)
    (hn : s.operate options result = some t) : Ledger t := by
  cases hs : s.stage with
  | startProxy => exact h.operate_startProxy hs hn
  | createSandbox => exact h.operate_createSandbox hs hn
  | startSandbox => exact h.operate_startSandbox hs hn
  | createFrontend => exact h.operate_createFrontend hs ho hn
  | startFrontend => exact h.operate_startFrontend hs ho hn
  | createBackend => exact h.operate_createBackend hs ho hn
  | close c f =>
      simp only [RunState.operate, hs] at hn
      exact h.close hs hn
  | _ =>
      simp only [RunState.operate, hs] at hn
      cases hn

end Operate

theorem Ledger.endSession {result : Except RunError SessionEnd} {time : Timestamp} (h : Ledger s)
    (hs : s.stage = .session) : Ledger (s.endSession result false false time) := by
  have hruns (f : Finish) (hfrontend : f.frontend = true) (hsandbox : f.sandbox = true) :
      ∀ b ∈ s.tasks \ {.signalListener, .uploads}, (RunStage.announce f).runs b = true := by
    intro b hb
    obtain ⟨hrun, hstop⟩ := mem_stop.mp hb
    have hruns := h.runs b hrun
    rw [hs] at hruns
    cases b <;> simp_all [RunStage.runs, RunStage.serves, RunStage.hosts]
  cases result with
  | ok result =>
      refine h.go rfl rfl rfl (hruns _ rfl rfl) ?_ (fun _ => rfl) nofun nofun
      intro b _ hb
      exact (mem_stop.mp hb).1
  | error error =>
      refine h.go rfl rfl rfl (hruns _ rfl rfl) ?_ (fun _ => rfl) nofun nofun
      intro b _ hb
      exact (mem_stop.mp hb).1

theorem Ledger.quiet (h : Ledger s) (hquiet : ∀ c ∈ s.connTasks, (s.front.conns c).phase.answers = false) (c : Nat) :
    (s.front.conns c).phase.answers = false := by
  by_cases hc : c ∈ s.connTasks
  · exact hquiet c hc
  · obtain ⟨hphase | hphase, -⟩ := h.conns c hc <;> rw [hphase] <;> rfl

theorem Ledger.announce {f : Finish} {time : Timestamp} (h : Ledger s) (ho : s.orderly (.announce time) = true)
    (hs : s.stage = .announce f) :
    Ledger { s with stage := .close .frontend f, front := s.front.emit time (.shutdown f.message) } := by
  refine h.go rfl rfl rfl ?_ (fun _ _ hb => hb) ?_ nofun ?_
  · intro b hb
    have hruns := h.runs b hb
    rw [hs] at hruns
    cases b <;> exact hruns
  · intro hserving
    have hgiven := h.given hserving
    rw [hs] at hgiven
    exact hgiven
  · intro _
    apply h.quiet
    simpa [orderly] using ho

theorem Ledger.detach {f : Finish} (h : Ledger s) (ho : s.orderly .detach = true) (hs : s.stage = .detach f) :
    Ledger { s with stage := .returned f, releases := s.releases + 1 } := by
  have hdetached : ∀ b ∈ s.tasks, b.detached = false := by simpa [orderly] using ho
  refine h.go rfl rfl rfl ?_ (fun _ _ hb => hb) ?_ ?_ ?_
  · intro b hb
    have hruns := h.runs b hb
    have hdetached := hdetached b hb
    rw [hs] at hruns
    cases b <;> first | exact hruns | cases hdetached
  · intro hserving
    have hgiven := h.given hserving
    rw [hs] at hgiven
    exact hgiven
  · intro _
    exact h.joined (by rw [hs]; rfl)
  · intro _
    exact h.silent (by rw [hs]; rfl)

/-- No step of a connection gives it an answer to a question once `shutdown` is out. -/
theorem Ledger.silent_conn {c : Nat} {act : Frontend.ConnAct} {front : Frontend.State} (h : Ledger s)
    (ho : s.orderly (.front (.conn c act)) = true) (hover : s.stage.isOver = true)
    (hn : s.front.connStep cfg c act = some front) (d : Nat) : (front.conns d).phase.answers = false := by
  rw [Bool.eq_false_iff]
  intro hanswers
  by_cases hd : d = c
  · subst hd
    rcases Frontend.State.answers_connStep hn hanswers with hbefore | ⟨client, id, answer, draw, hphase, rfl, hlookup⟩
    · rw [h.silent hover] at hbefore
      cases hbefore
    · simp [orderly, hover, speaks, hphase, hlookup] at ho
  · rw [(Frontend.State.others_connStep hn).1 d hd, h.silent hover] at hanswers
    cases hanswers

theorem Ledger.accept {c : Nat} {front : Frontend.State} (h : Ledger s) (hallows : s.allows (.conn c .accept) = true)
    (ho : s.orderly (.front (.conn c .accept)) = true) (hn : s.front.connStep cfg c .accept = some front) :
    Ledger { s with front := front, connTasks := s.connTasks ++ [c] } := by
  have haccepts : .acceptLoop ∈ s.tasks := by simpa [allows] using hallows
  have hothers := (Frontend.State.others_connStep hn).1
  have hphase : (front.conns c).phase = .connecting := by
    cases haway : (s.front.conns c).phase with
    | away =>
        obtain ⟨-, rfl⟩ : s.front.down = false ∧ s.front.goto c .connecting = front := by
          simpa [Frontend.State.connStep, haway] using hn
        simp [Frontend.State.goto, Frontend.State.setConn]
    | _ => simp [Frontend.State.connStep, haway] at hn
  refine ⟨h.runs, ?_, ?_, ?_, h.given, ?_, ?_⟩
  · intro d hd
    obtain ⟨hd, hdc⟩ : d ∉ s.connTasks ∧ d ≠ c := by simpa using hd
    have hrest := h.conns d hd
    exact ⟨by rw [hothers d hdc]; exact hrest.1, hrest.2⟩
  · intro d hpump
    by_cases hd : d = c
    · rw [hd, hphase]
      rintro ⟨⟩
    · rw [hothers d hd]
      exact h.pumps d hpump
  · intro hidle
    exact absurd haccepts (h.idle hidle).1
  · -- the accept loop has been aborted when the frontend is down
    intro hpast
    have hruns := h.runs _ haccepts
    cases hs : s.stage with
    | close d f =>
        rw [hs] at hruns
        cases d <;> first | cases hruns | simp [hs, RunStage.past] at hpast
    | detach f | returned f =>
        rw [hs] at hruns
        cases hruns
    | _ => simp [hs, RunStage.past] at hpast
  · intro hover d
    exact h.silent_conn ho hover hn d

theorem Ledger.conn {c : Nat} {act : Frontend.ConnAct} {front : Frontend.State} (h : Ledger s) (hact : act ≠ .accept)
    (ho : s.orderly (.front (.conn c act)) = true) (hn : s.front.connStep cfg c act = some front) :
    Ledger (s.follow front (.conn c act)) := by
  have hothers := (Frontend.State.others_connStep hn).1
  have hmem : c ∈ s.connTasks := by
    by_contra hc
    exact hact (Frontend.State.accept_of_rest (h.conns c hc).1 hn)
  have hfollow : s.follow front (.conn c act) =
      { s with front := front, tasks := (s.follow front (.conn c act)).tasks } := by
    cases act <;> first | rfl | exact absurd rfl hact
  have htasks {b : Background} (hb : b ∈ (s.follow front (.conn c act)).tasks) :
      b ∈ s.tasks ∨ b = .writer c ∨ b = .pump c := by
    cases act with
    | accept => exact absurd rfl hact
    | _ =>
        simp only [follow] at hb
        split at hb <;> simp at hb <;> tauto
  have hpump (hb : .pump c ∈ (s.follow front (.conn c act)).tasks) : (front.conns c).phase ≠ .closed := by
    intro hclosed
    cases act with
    | accept => exact hact rfl
    | _ => simp [follow, hclosed] at hb
  rw [hfollow]
  refine ⟨?_, ?_, ?_, ?_, h.given, h.joined, ?_⟩
  · intro b hb
    rcases htasks hb with hb | rfl | rfl
    · exact h.runs b hb
    · rfl
    · rfl
  · intro d hd
    have hdc : d ≠ c := fun heq => hd (heq ▸ hmem)
    obtain ⟨hphase, hwriter, hpump⟩ := h.conns d hd
    refine ⟨by rw [hothers d hdc]; exact hphase, ?_, ?_⟩
    · intro hb
      rcases htasks hb with hb | hb | hb
      · exact hwriter hb
      · exact hdc (Background.writer.inj hb)
      · cases hb
    · intro hb
      rcases htasks hb with hb | hb | hb
      · exact hpump hb
      · cases hb
      · exact hdc (Background.pump.inj hb)
  · intro d hb
    by_cases hd : d = c
    · subst hd
      exact hpump hb
    · rw [hothers d hd]
      apply h.pumps
      rcases htasks hb with hb | hb | hb
      · exact hb
      · cases hb
      · exact absurd (Background.pump.inj hb) hd
  · intro hidle
    obtain ⟨-, -, hnone⟩ := h.idle hidle
    rw [hnone] at hmem
    cases hmem
  · intro hover d
    exact h.silent_conn ho hover hn d

theorem Ledger.front {act : Frontend.Act} {front : Frontend.State} (h : Ledger s) (hallows : s.allows act = true)
    (ho : s.orderly (.front act) = true) (hn : s.front.next cfg act = some front) : Ledger (s.follow front act) := by
  by_cases hconn : ∃ c act', act = .conn c act'
  · obtain ⟨c, act, rfl⟩ := hconn
    by_cases hact : act = .accept
    · subst hact
      exact h.accept hallows ho hn
    · exact h.conn hact ho hn
  · have hconns := (Frontend.State.conns_next (fun c act' heq => hconn ⟨c, act', heq⟩) hn).1
    have hfollow : s.follow front act = { s with front := front, tasks := (s.follow front act).tasks } := by
      cases act <;> first | rfl | exact absurd ⟨_, _, rfl⟩ hconn
    have htasks : (s.follow front act).tasks ⊆ s.tasks := by
      cases act with
      | conn c act => exact absurd ⟨c, act, rfl⟩ hconn
      | clearQuestions => exact Finset.sdiff_subset
      | _ => exact Finset.Subset.refl _
    rw [hfollow]
    exact h.go hconns rfl rfl (fun b hb => h.runs b (htasks hb)) (fun b _ hb => htasks hb) h.given h.joined h.silent

theorem Ledger.runs_of_spawns {b : Background} (h : Ledger s) (ho : s.orderly (.spawn b) = true)
    (hs : s.spawns b = true) : s.stage.runs b = true := by
  have hkeep {d e : Background} (hd : d ∈ s.tasks) (hde : ∀ stage : RunStage, stage.runs d = true → stage.runs e = true) :
      s.stage.runs e = true := hde _ (h.runs d hd)
  cases b with
  | proxyLoop | dnsServer =>
      cases hstage : s.stage <;> first | rfl | simp [spawns, hstage] at hs
  | helperReader | helperWriter | forwarder =>
      cases hstage : s.stage <;> first | rfl | simp [spawns, hstage] at hs
  | serverLog =>
      cases hstage : s.stage <;> first | rfl | simp [spawns, hstage] at hs
  | exchange n =>
      have hs : .proxyLoop ∈ s.tasks ∨ .dnsServer ∈ s.tasks := by simpa [spawns] using hs
      rcases hs with hd | hd <;>
        · apply hkeep hd
          intro stage hstage
          cases stage <;> first | rfl | cases hstage
  | upstream n =>
      have hd : .exchange n ∈ s.tasks := by simpa [spawns] using hs
      exact hkeep hd fun _ hstage => hstage
  | piped n =>
      have hd : .forwarder ∈ s.tasks := by simpa [spawns] using hs
      apply hkeep hd
      intro stage hstage
      cases stage <;> first | rfl | cases hstage
  | late n => cases ho
  | _ => cases hs

theorem Ledger.spawn {b : Background} (h : Ledger s) (ho : s.orderly (.spawn b) = true) (hs : s.spawns b = true) :
    Ledger (s.spawn b) := by
  have hother : b.ofFrontend = false := by
    cases b <;> first | rfl | cases hs
  refine h.go rfl rfl rfl ?_ ?_ h.given h.joined h.silent
  · intro d hd
    rcases mem_spawn.mp hd with rfl | hd
    · exact h.runs_of_spawns ho hs
    · exact h.runs d hd
  · intro d hfrontend hd
    rcases mem_spawn.mp hd with rfl | hd
    · rw [hother] at hfrontend
      cases hfrontend
    · exact hd

theorem Ledger.ends (h : Ledger s) (tasks : Finset Background) : Ledger (s.stop tasks) := by
  refine h.go rfl rfl rfl ?_ ?_ h.given h.joined h.silent
  · intro b hb
    exact h.runs b (mem_stop.mp hb).1
  · intro b _ hb
    exact (mem_stop.mp hb).1

theorem Ledger.join {c : Nat} (h : Ledger s) (hs : s.joining = some c) (hgone : s.gone c = true) :
    Ledger { s with connTasks := s.connTasks.tail } := by
  obtain ⟨rest, hrest⟩ : ∃ rest, s.connTasks = c :: rest := by
    rw [joining.eq_def] at hs
    split at hs
    · split at hs
      · exact List.head?_eq_some_iff.mp hs
      · cases hs
    · cases hs
  obtain ⟨hclosed, hwriter⟩ : (s.front.conns c).phase = .closed ∧ .writer c ∉ s.tasks := by simpa [gone] using hgone
  refine ⟨h.runs, ?_, h.pumps, ?_, h.given, ?_, h.silent⟩
  · intro d hd
    rw [hrest, List.tail_cons] at hd
    by_cases hdc : d = c
    · subst hdc
      exact ⟨.inr hclosed, hwriter, fun hb => h.pumps d hb hclosed⟩
    · apply h.conns
      rw [hrest]
      simp [hdc, hd]
  · intro hidle
    obtain ⟨-, -, hnone⟩ := h.idle hidle
    rw [hrest] at hnone
    cases hnone
  · intro hpast
    rw [h.joined hpast]
    rfl

theorem Ledger.next {act : RunAct} (h : Ledger s) (ho : s.orderly act = true) (hn : s.next options cfg act = some t) :
    Ledger t := by
  cases act with
  | operate result => exact h.operate ho hn
  | endSession result sharedFrontend sharedSandbox time =>
      simp only [RunState.next] at hn
      split at hn <;> cases hn
      next hs =>
        obtain ⟨rfl, rfl⟩ : sharedFrontend = false ∧ sharedSandbox = false := by simpa [orderly] using ho
        exact h.endSession hs
  | announce time =>
      simp only [RunState.next] at hn
      split at hn <;> cases hn
      next hs => exact h.announce ho hs
  | detach =>
      simp only [RunState.next] at hn
      split at hn <;> cases hn
      next hs => exact h.detach ho hs
  | front act =>
      simp only [RunState.next] at hn
      split at hn
      · next hallows =>
          obtain ⟨front, hfront, rfl⟩ := Option.map_eq_some_iff.mp hn
          exact h.front hallows ho hfront
      · cases hn
  | spawn b =>
      simp only [RunState.next] at hn
      split at hn <;> cases hn
      next hs => exact h.spawn ho hs
  | ends b =>
      cases hn
      exact h.ends {b}
  | join =>
      simp only [RunState.next] at hn
      obtain ⟨c, hc, hn⟩ := Option.bind_eq_some_iff.mp hn
      split at hn <;> cases hn
      next hgone => exact h.join hc hgone
  | abort => cases ho

theorem Ledger.hushed {act : Frontend.Act} {front : Frontend.State} (h : Ledger s)
    (ho : s.orderly (.front act) = true) (hallows : s.allows act = true) (hover : s.stage.isOver = true)
    (hn : s.front.next cfg act = some front) : s.front.announces act = false := by
  have hspeaks : speaks s.front act = false := by simpa [orderly, hover] using ho
  -- the session's tasks have ended
  have hsession (hsession : (match s.stage with
      | .session => true
      | _ => decide (.straggler ∈ s.tasks)) = true) : False := by
    cases hs : s.stage with
    | session => simp [hs, RunStage.isOver] at hover
    | _ =>
        simp only [hs, decide_eq_true_eq] at hsession
        have hruns := h.runs _ hsession
        cases hruns
  cases act with
  | conn c act =>
      cases act with
      | frame frame draw =>
          cases frame with
          | text message =>
              cases message with
              | none => rfl
              | some message =>
                  cases message with
                  | prompt | uploadFile =>
                      simp only [speaks, Bool.and_true] at hspeaks
                      exact hspeaks
                  | _ => rfl
          | _ => rfl
      | emitAnswer time =>
          have hsilent := h.silent hover c
          simp only [Frontend.State.next, Frontend.State.connStep] at hn
          split at hn <;> simp_all [Frontend.Phase.answers]
      | _ => rfl
  | emit time payload => cases payload <;> first | exact (hsession hallows).elim | cases hallows
  | runTool | call | interrupting => exact (hsession hallows).elim
  | _ => rfl

/-- A connection that is not to be joined has neither a writer nor a pump. -/
theorem Ledger.stopped {f : Finish} (h : Ledger s) (hs : s.stage = .returned f) : s.tasks = ∅ := by
  have hnone := h.joined (by rw [hs]; rfl)
  rw [Finset.eq_empty_iff_forall_notMem]
  intro b hb
  have hruns := h.runs b hb
  rw [hs] at hruns
  cases b with
  | writer c => exact (h.conns c (by simp [hnone])).2.1 hb
  | pump c => exact (h.conns c (by simp [hnone])).2.2 hb
  | _ => cases hruns

end RunState

end Silo.Harness.Run
