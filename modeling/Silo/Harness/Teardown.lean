import Silo.Frontend.Transcript
import Silo.Harness.RunLedger

namespace Silo.Harness.Run

open Silo.Lib Silo.Core

def isShutdown (e : Event EventPayload) : Bool := e.payload matches .shutdown _

/-- The log ends with the only `shutdown` event. -/
def Closed (history : List (Event EventPayload)) : Prop :=
  ∃ before e, history = before ++ [e] ∧ isShutdown e = true ∧ ∀ d ∈ before, isShutdown d = false

/-- The first failure is what `run` returns. A frontend that does not match its script
at shutdown fails the script. -/
def Reports (options : RunOptions) (failures : List RunError) (result : Except RunError HarnessOutcome) : Prop :=
  match failures.head? with
  | none => ∃ outcome, result = .ok outcome
  | some error =>
    result = .error error ∨
      options.script.isSome = true ∧ error.isScriptMismatch = true ∧
        ∃ outcome, result = .ok outcome ∧ outcome.scriptFailure.isSome = true

def Component.rank : Component → Nat
  | .frontend => 0
  | .sandbox => 1
  | .proxy => 2

namespace RunStage

def closed : RunStage → Component → Nat
  | .close d f, c => if c.rank < d.rank ∧ f.takes c then 1 else 0
  | .detach f, c | .returned f, c => if f.takes c then 1 else 0
  | _, _ => 0

def released : RunStage → Nat
  | .returned _ => 1
  | _ => 0

/-- The failures so far: that of the setup or the session, then those of `finish`. -/
def Failed (failures : List RunError) : RunStage → Prop
  | .announce f | .close _ f | .detach f | .returned f =>
    ∃ errors, failures = f.ending.error.toList ++ errors ∧ f.firstError = errors.head?
  | _ => failures = []

def Announced (history : List (Event EventPayload)) : RunStage → Prop
  | .close _ _ | .detach _ | .returned _ => Closed history
  | _ => ∀ e ∈ history, isShutdown e = false

end RunStage

namespace RunState

structure Inv (s : RunState) : Prop where
  starts : s.starts = s.stage.started
  shutdowns : s.shutdowns = s.stage.closed
  releases : s.releases = s.stage.released
  failures : s.stage.Failed s.failures
  events : s.stage.Announced s.front.bus.history

variable {options : RunOptions} {cfg : Frontend.Config} {s t : RunState}

theorem failed_note {failures : List RunError} {f : Finish} (result : Except RunError Unit)
    (h : ∃ errors, failures = f.ending.error.toList ++ errors ∧ f.firstError = errors.head?) :
    ∃ errors, failures ++ (match result with
        | .ok () => []
        | .error error => [error]) = (f.note result).ending.error.toList ++ errors ∧
      (f.note result).firstError = errors.head? := by
  obtain ⟨errors, rfl, hfirst⟩ := h
  cases result with
  | ok =>
      refine ⟨errors, ?_, hfirst⟩
      rw [List.append_nil]
      rfl
  | error error =>
      refine ⟨errors ++ [error], ?_, ?_⟩
      · rw [List.append_assoc]
        rfl
      · rw [Finish.note, hfirst, List.head?_append]
        rfl

structure Fresh (s : RunState) : Prop where
  shutdowns : s.shutdowns = fun _ => 0
  releases : s.releases = 0
  failures : s.failures = []
  events : ∀ e ∈ s.front.bus.history, isShutdown e = false

theorem Fresh.abandon (h : Fresh s) {frontend sandbox : Bool} (error : RunError)
    (hstarts : s.starts = RunStage.started (.announce ⟨.setup error, frontend, sandbox, none, none⟩)) :
    Inv (s.abandon frontend sandbox error) where
  starts := hstarts
  shutdowns := h.shutdowns
  releases := h.releases
  failures := ⟨[], by rw [RunState.abandon, h.failures]; rfl, rfl⟩
  events := h.events

theorem Fresh.begin (h : Fresh s) (c : Component) : Fresh (s.begin c) :=
  ⟨h.shutdowns, h.releases, h.failures, h.events⟩

theorem Fresh.stop (h : Fresh s) (tasks : Finset Background) : Fresh (s.stop tasks) :=
  ⟨h.shutdowns, h.releases, h.failures, h.events⟩

theorem Fresh.proceed (h : Fresh s) {stage : RunStage} {tasks : Finset Background} {serving : Bool}
    (hsetup : stage.isSetup = true) (hstarts : s.starts = stage.started) :
    Inv { s with stage := stage, tasks := tasks, serving := serving } := by
  obtain ⟨hshutdowns, hreleases, hfailures, hevents⟩ := h
  cases stage <;>
    first | exact ⟨hstarts, hshutdowns, hreleases, hfailures, hevents⟩ | cases hsetup

/-- A setup step that goes on with the next, or leaves what was started to `finish`. -/
theorem Fresh.setup (h : Fresh s) {frontend sandbox : Bool} {stage : RunStage} {result : Except RunError Unit}
    (hsetup : stage.isSetup = true) (hstarts : s.starts = stage.started)
    (hfailed : ∀ error, s.starts = RunStage.started (.announce ⟨.setup error, frontend, sandbox, none, none⟩)) :
    Inv (s.setup frontend sandbox stage result) := by
  cases result with
  | ok => exact h.proceed hsetup hstarts
  | error error => exact h.abandon error (hfailed error)

theorem Inv.fresh (h : Inv s) (hstage : s.stage.isSetup = true) : Fresh s := by
  obtain ⟨hstarts, hshutdowns, hreleases, hfailures, hevents⟩ := h
  cases hs : s.stage <;> rw [hs] at hstage hshutdowns hreleases hfailures hevents <;>
    first | exact ⟨hshutdowns, hreleases, hfailures, hevents⟩ | cases hstage

theorem closed_afterClose (f : Finish) (c d : Component) :
    (RunStage.afterClose f c).closed d =
      (RunStage.close c f).closed d + if d = c ∧ f.takes c then 1 else 0 := by
  cases c <;> cases d <;> simp [RunStage.afterClose, RunStage.closed, Component.rank]

/-- The stage after a shutdown has the counts that are given and is otherwise as before. -/
theorem Inv.afterClose {c : Component} {f g : Finish} {shutdowns : Component → Nat} {tasks : Finset Background}
    {failures : List RunError} (h : Inv s) (hstage : s.stage = .close c f) (htakes : ∀ d, g.takes d = f.takes d)
    (hshutdowns : shutdowns = (RunStage.afterClose g c).closed)
    (hfailures : ∃ errors, failures = g.ending.error.toList ++ errors ∧ g.firstError = errors.head?) :
    Inv { s with stage := .afterClose g c, shutdowns := shutdowns, tasks := tasks, failures := failures } := by
  have hstarts : (RunStage.afterClose g c).started = (RunStage.close c f).started := by
    rw [started_afterClose]
    funext d
    simp only [RunStage.started, htakes]
  obtain ⟨hs, -, hreleases, -, hevents⟩ := h
  rw [hstage] at hs hreleases hevents
  refine ⟨hs.trans hstarts.symm, hshutdowns, ?_, ?_, ?_⟩
  · cases c <;> exact hreleases
  · cases c <;> exact hfailures
  · cases c <;> exact hevents

theorem Inv.close {c : Component} {f : Finish} {result : Except RunError Unit} (h : Inv s)
    (hstage : s.stage = .close c f) (hn : s.close c f result = some t) : Inv t := by
  have hfailures := h.failures
  rw [hstage] at hfailures
  rw [RunState.close.eq_def] at hn
  split at hn
  · next htakes =>
      split at hn <;> cases hn
      apply h.afterClose hstage (takes_note f result) _ (failed_note result hfailures)
      funext d
      rw [closed_afterClose, h.shutdowns, hstage, Function.update_apply]
      cases c <;> cases d <;> simp [RunStage.closed, Component.rank, htakes]
  · next htakes =>
      split at hn <;> cases hn
      apply h.afterClose hstage (fun _ => rfl) _ hfailures
      funext d
      rw [closed_afterClose, h.shutdowns, hstage]
      simp [htakes]

theorem Inv.operate {result : Except RunError Unit} (h : Inv s) (hn : s.operate options result = some t) : Inv t := by
  have hstarts := h.starts
  cases hs : s.stage with
  | startProxy =>
      simp only [RunState.operate, hs] at hn
      cases hn
      have hbegun : (s.begin .proxy).starts = RunStage.started .createSandbox := by
        funext c
        cases c <;> simp [RunState.begin, hstarts, hs, RunStage.started]
      apply ((h.fresh (by rw [hs]; rfl)).begin .proxy).setup rfl hbegun
      intro error
      rw [hbegun]
      funext c
      cases c <;> rfl
  | createSandbox =>
      simp only [RunState.operate, hs] at hn
      cases hn
      rw [hs] at hstarts
      refine (h.fresh (by rw [hs]; rfl)).setup rfl hstarts ?_
      intro error
      rw [hstarts]
      funext c
      cases c <;> rfl
  | startSandbox =>
      simp only [RunState.operate, hs] at hn
      have hfresh := (h.fresh (by rw [hs]; rfl)).begin .sandbox
      have hbegun : (s.begin .sandbox).starts = RunStage.started .createFrontend := by
        funext c
        cases c <;> simp [RunState.begin, hstarts, hs, RunStage.started]
      split at hn <;> cases hn
      · exact hfresh.proceed rfl hbegun
      · apply (hfresh.stop _).abandon
        rw [stop, hbegun]
        funext c
        cases c <;> rfl
  | createFrontend =>
      simp only [RunState.operate, hs] at hn
      cases hn
      rw [hs] at hstarts
      refine (h.fresh (by rw [hs]; rfl)).setup rfl hstarts ?_
      intro error
      rw [hstarts]
      funext c
      cases c <;> rfl
  | startFrontend =>
      simp only [RunState.operate, hs] at hn
      have hfresh := (h.fresh (by rw [hs]; rfl)).begin .frontend
      have hbegun : (s.begin .frontend).starts = RunStage.started .createBackend := by
        funext c
        cases c <;> simp [RunState.begin, hstarts, hs, RunStage.started]
      split at hn <;> cases hn
      · exact hfresh.proceed rfl hbegun
      · apply hfresh.abandon
        rw [hbegun]
        funext c
        cases c <;> rfl
  | createBackend =>
      simp only [RunState.operate, hs] at hn
      rw [hs] at hstarts
      have hfresh := h.fresh (by rw [hs]; rfl)
      split at hn <;> cases hn
      · exact hfresh.proceed rfl hstarts
      · apply hfresh.abandon
        rw [hstarts]
        funext c
        cases c <;> rfl
  | close c f =>
      simp only [RunState.operate, hs] at hn
      exact h.close hs hn
  | _ =>
      simp only [RunState.operate, hs] at hn
      cases hn

theorem no_shutdown_snoc {history : List (Event EventPayload)} {e : Event EventPayload}
    (h : ∀ d ∈ history, isShutdown d = false) (he : isShutdown e = false) :
    ∀ d ∈ history ++ [e], isShutdown d = false := by
  intro d hd
  obtain hd | hd := List.mem_append.mp hd
  · exact h d hd
  · obtain rfl := List.mem_singleton.mp hd
    exact he

theorem Inv.endSession {result : Except RunError SessionEnd} {time : Timestamp} (h : Inv s)
    (hs : s.stage = .session) : Inv (s.endSession result false false time) := by
  have hfresh := h.fresh (by rw [hs]; rfl)
  have hstarts : ∀ g : Finish, g.frontend = true → g.sandbox = true →
      s.starts = RunStage.started (.announce g) := by
    intro g hfrontend hsandbox
    rw [h.starts, hs]
    funext c
    cases c <;> simp [RunStage.started, Finish.takes, hfrontend, hsandbox]
  cases result with
  | ok result =>
      refine ⟨hstarts _ rfl rfl, hfresh.shutdowns, hfresh.releases, ⟨[], ?_, rfl⟩, hfresh.events⟩
      simp [RunState.endSession, hfresh.failures, Ending.error]
  | error error =>
      refine ⟨hstarts _ rfl rfl, hfresh.shutdowns, hfresh.releases, ⟨[], ?_, rfl⟩, ?_⟩
      · simp [RunState.endSession, hfresh.failures, Ending.error]
      · exact no_shutdown_snoc hfresh.events rfl

theorem announced_front {act : Frontend.Act} {front : Frontend.State} (h : s.stage.Announced s.front.bus.history)
    (hhushed : s.stage.isOver = true → s.front.announces act = false) (hallows : s.allows act = true)
    (hn : s.front.next cfg act = some front) : s.stage.Announced front.bus.history := by
  by_cases hact : act = .nextUserInput
  · subst hact
    simp only [Frontend.State.next, Frontend.State.nextUserInput] at hn
    split at hn
    · split at hn <;> cases hn
      exact h
    · cases hn
  · cases Frontend.State.voice_of_next hact hn with
    | still history taken =>
        rw [history]
        exact h
    | said time payload history taken source announced =>
        have hpayload : isShutdown ⟨s.front.bus.history.length, time, payload⟩ = false := by
          cases source with
          | free => cases payload <;> first | rfl | cases hallows
          | _ => rfl
        rw [history]
        rw [announced] at hhushed
        cases hs : s.stage <;> rw [hs] at hhushed h <;>
          first | exact no_shutdown_snoc h hpayload | cases hhushed rfl

theorem inv_of_init (h : (machine options cfg).init s) : Inv s := by
  obtain ⟨front, ⟨records, now, issue, rfl⟩, rfl⟩ := h
  refine ⟨rfl, rfl, rfl, rfl, ?_⟩
  intro e he
  cases he

theorem Inv.next {act : RunAct} (h : Inv s) (hl : Ledger s) (ho : s.orderly act = true)
    (hn : s.next options cfg act = some t) : Inv t := by
  cases act with
  | operate result => exact h.operate hn
  | endSession result sharedFrontend sharedSandbox time =>
      simp only [RunState.next] at hn
      split at hn <;> cases hn
      next hs =>
        obtain ⟨rfl, rfl⟩ : sharedFrontend = false ∧ sharedSandbox = false := by simpa [orderly] using ho
        exact h.endSession hs
  | announce time =>
      simp only [RunState.next] at hn
      split at hn <;> cases hn
      next f hs =>
        obtain ⟨hstarts, hshutdowns, hreleases, hfailures, hevents⟩ := h
        rw [hs] at hstarts hshutdowns hreleases hfailures hevents
        refine ⟨hstarts, ?_, hreleases, hfailures, ⟨_, _, rfl, rfl, hevents⟩⟩
        rw [hshutdowns]
        funext c
        simp [RunStage.closed, Component.rank]
  | detach =>
      simp only [RunState.next] at hn
      split at hn <;> cases hn
      next f hs =>
        obtain ⟨hstarts, hshutdowns, hreleases, hfailures, hevents⟩ := h
        rw [hs] at hstarts hshutdowns hreleases hfailures hevents
        exact ⟨hstarts, hshutdowns, by rw [hreleases]; rfl, hfailures, hevents⟩
  | front act =>
      simp only [RunState.next] at hn
      split at hn
      · next hallows =>
          obtain ⟨front, hfront, rfl⟩ := Option.map_eq_some_iff.mp hn
          have hevents := announced_front h.events (fun hover => hl.hushed ho hallows hover hfront) hallows hfront
          cases act with
          | conn c act => cases act <;> exact ⟨h.starts, h.shutdowns, h.releases, h.failures, hevents⟩
          | _ => exact ⟨h.starts, h.shutdowns, h.releases, h.failures, hevents⟩
      · cases hn
  | spawn b =>
      simp only [RunState.next] at hn
      split at hn <;> cases hn
      exact ⟨h.starts, h.shutdowns, h.releases, h.failures, h.events⟩
  | ends b =>
      cases hn
      exact ⟨h.starts, h.shutdowns, h.releases, h.failures, h.events⟩
  | join =>
      simp only [RunState.next] at hn
      obtain ⟨c, hc, hn⟩ := Option.bind_eq_some_iff.mp hn
      split at hn <;> cases hn
      exact ⟨h.starts, h.shutdowns, h.releases, h.failures, h.events⟩
  | abort => cases ho

end RunState

end Silo.Harness.Run
