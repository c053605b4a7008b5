import Silo.Lib.FirstFit
import Silo.Replay.Script

namespace Silo.Replay

open Silo.Core Silo.Harness Silo.Lib

namespace SharedScript

section Open

variable {α : Type} {p : α → Bool} {entries : List α} {flags : List Bool}

theorem firstOpen_none (hlen : entries.length = flags.length)
    (h : (openEntries entries flags).find? p = none) : firstOpen p entries flags = none := by
  induction entries generalizing flags with
  | nil => rfl
  | cons entry entries ih =>
      cases flags with
      | nil => cases hlen
      | cons consumed flags =>
          simp only [List.length_cons, Nat.add_right_cancel_iff] at hlen
          cases consumed with
          | true =>
              rw [firstOpen, ih hlen (by simpa [openEntries] using h)]
              rfl
          | false =>
              simp only [openEntries, Bool.false_eq_true, if_false, List.find?_cons] at h
              cases hp : p entry with
              | true =>
                  rw [hp] at h
                  cases h
              | false =>
                  rw [hp] at h
                  rw [firstOpen, ih hlen h, hp]
                  rfl

/-- Consuming the first open entry that meets `p` takes it off the open ones. -/
theorem firstOpen_some (hlen : entries.length = flags.length) {entry : α}
    (h : (openEntries entries flags).find? p = some entry) :
    ∃ i, firstOpen p entries flags = some i ∧ entries[i]? = some entry ∧
      openEntries entries (flags.set i true) = (openEntries entries flags).eraseP p := by
  induction entries generalizing flags with
  | nil =>
      cases flags <;> cases h
  | cons first entries ih =>
      cases flags with
      | nil => cases hlen
      | cons consumed flags =>
          simp only [List.length_cons, Nat.add_right_cancel_iff] at hlen
          cases consumed with
          | true =>
              obtain ⟨i, hi, hget, hopen⟩ := ih hlen (by simpa [openEntries] using h)
              refine ⟨i + 1, ?_, hget, ?_⟩
              · rw [firstOpen, hi]
                rfl
              · simpa [openEntries] using hopen
          | false =>
              simp only [openEntries, Bool.false_eq_true, if_false, List.find?_cons] at h
              cases hp : p first with
              | true =>
                  rw [hp] at h
                  cases h
                  exact ⟨0, by simp [firstOpen, hp], rfl, by simp [openEntries, hp]⟩
              | false =>
                  rw [hp] at h
                  obtain ⟨i, hi, hget, hopen⟩ := ih hlen h
                  refine ⟨i + 1, ?_, hget, ?_⟩
                  · rw [firstOpen, hi, hp]
                    rfl
                  · simpa [openEntries, hp] using hopen

theorem openEntries_eq_nil (hlen : entries.length = flags.length) :
    openEntries entries flags = [] ↔ flags.all id = true := by
  induction entries generalizing flags with
  | nil =>
      cases flags with
      | nil => simp [openEntries]
      | cons => cases hlen
  | cons entry entries ih =>
      cases flags with
      | nil => cases hlen
      | cons consumed flags =>
          simp only [List.length_cons, Nat.add_right_cancel_iff] at hlen
          cases consumed <;> simp [openEntries, ih hlen]

theorem openEntries_new (entries : List α) : openEntries entries (entries.map fun _ => false) = entries := by
  induction entries with
  | nil => rfl
  | cons entry entries ih => simpa [openEntries] using ih

end Open

def pendingTools (st : SharedScript) : List ScriptedToolExec := openEntries st.script.tools st.toolConsumed

variable {st : SharedScript} (display : Json → String)

theorem nextTool_error (hlen : st.script.tools.length = st.toolConsumed.length) {call : ToolCall}
    (h : st.pendingTools.find? (fits call) = none) : ∃ error, st.nextTool display call = .error error := by
  rw [nextTool]
  split
  · exact ⟨_, rfl⟩
  · rw [firstOpen_none hlen h]
    exact ⟨_, rfl⟩

theorem nextTool_ok (hlen : st.script.tools.length = st.toolConsumed.length) {call : ToolCall}
    {entry : ScriptedToolExec} (h : st.pendingTools.find? (fits call) = some entry) :
    ∃ st', st.nextTool display call = .ok (entry.output, st') ∧
      st'.script.tools.length = st'.toolConsumed.length ∧
      st'.pendingTools = st.pendingTools.eraseP (fits call) := by
  obtain ⟨i, hi, hget, hopen⟩ := firstOpen_some hlen h
  refine ⟨{ st with toolConsumed := st.toolConsumed.set i true }, ?_, by simpa using hlen, hopen⟩
  have hsome : ¬ st.toolConsumed.all id = true := by
    rw [← openEntries_eq_nil hlen]
    intro hnil
    rw [pendingTools, hnil] at h
    cases h
  rw [nextTool]
  rw [if_neg hsome, hi]
  simp [hget]

/-- The calls of `calls` one after the other, as long as each is answered. -/
def feed : SharedScript → List ToolCall → Option (List ToolOutput × SharedScript)
  | st, [] => some ([], st)
  | st, call :: calls =>
    match st.nextTool display call with
    | .error _ => none
    | .ok (output, st') => (feed st' calls).map fun r => (output :: r.1, r.2)

theorem feed_length {calls : List ToolCall} {outputs : List ToolOutput} {st' : SharedScript}
    (hlen : st.script.tools.length = st.toolConsumed.length)
    (h : feed display st calls = some (outputs, st')) :
    st'.script.tools.length = st'.toolConsumed.length := by
  induction calls generalizing st outputs with
  | nil =>
      cases h
      exact hlen
  | cons call calls ih =>
      rw [feed] at h
      cases hfind : st.pendingTools.find? (fits call) with
      | none =>
          obtain ⟨error, herror⟩ := nextTool_error display hlen hfind
          rw [herror] at h
          cases h
      | some entry =>
          obtain ⟨st'', hok, hlen', -⟩ := nextTool_ok display hlen hfind
          rw [hok] at h
          obtain ⟨⟨outputs', last⟩, hrest, heq⟩ := Option.map_eq_some_iff.mp h
          cases heq
          exact ih hlen' hrest

/-- Feeding the calls is serving them first fit from the open entries. -/
theorem feed_eq (hlen : st.script.tools.length = st.toolConsumed.length) (calls : List ToolCall) :
    (feed display st calls).map (fun r => (r.1, r.2.pendingTools)) =
      (FirstFit.serve fits st.pendingTools calls).map fun r => (r.1.map ScriptedToolExec.output, r.2) := by
  induction calls generalizing st with
  | nil => rfl
  | cons call calls ih =>
      rw [feed, FirstFit.serve]
      cases hfind : st.pendingTools.find? (fits call) with
      | none =>
          obtain ⟨error, herror⟩ := nextTool_error display hlen hfind
          rw [herror]
          rfl
      | some entry =>
          obtain ⟨st', hok, hlen', hpending⟩ := nextTool_ok display hlen hfind
          have hrest := ih hlen'
          rw [hpending] at hrest
          simp only [hok, Option.bind_some, Option.map_map] at hrest ⊢
          cases hfeed : feed display st' calls <;>
            cases hserve : FirstFit.serve fits (st.pendingTools.eraseP (fits call)) calls <;>
            rw [hfeed, hserve] at hrest <;> simp_all

end SharedScript

/-- A journaled execution of a sandbox tool. The keys of its input ascend, as
in every value of `serde_json`. -/
structure RecordedExec where
  agent : AgentId
  call : ToolCall
  output : ToolOutput
  sorted : call.input.sorted = true

namespace RecordedExec

def record (e : RecordedExec) : Record := .journal (.toolExec e.agent "sandbox" e.call e.output)

def scripted (e : RecordedExec) : ScriptedToolExec := ⟨e.call.name, some e.call.input, e.output⟩

def key (e : RecordedExec) : String × Json := (e.call.name, e.call.input.canon)

def answers (b a : RecordedExec) : Bool := SharedScript.fits b.call a.scripted

/-- The two calls name one tool with equal inputs. -/
def SameCall (a b : RecordedExec) : Prop :=
  a.call.name = b.call.name ∧ a.call.input.beq b.call.input = true

theorem sameCall_iff (a b : RecordedExec) : a.SameCall b ↔ a.key = b.key := by
  simp [SameCall, key, Json.beq_iff]

theorem answers_iff (b a : RecordedExec) :
    b.answers a = true ↔ a.call.name = b.call.name ∧ a.call.input.subsetMatches b.call.input = true := by
  rw [answers, SharedScript.fits, Bool.and_eq_true, decide_eq_true_iff]
  simp [scripted]

theorem answers_self {a b : RecordedExec} (h : a.key = b.key) : b.answers a = true := by
  have hkey := (sameCall_iff a b).mpr h
  rw [answers_iff]
  refine ⟨hkey.1, ?_⟩
  rw [Json.subsetMatches_congr a.call.input ((Json.beq_iff _ _).mp hkey.2).symm]
  exact Json.subsetMatches_self _ a.sorted

theorem answers_congr {b d : RecordedExec} (a : RecordedExec) (h : d.key = b.key) :
    d.answers a = b.answers a := by
  obtain ⟨hname, hinput⟩ := Prod.ext_iff.mp h
  rw [Bool.eq_iff_iff, answers_iff, answers_iff, Json.subsetMatches_congr a.call.input hinput]
  change d.call.name = b.call.name at hname
  rw [hname]

theorem within_of_answers {a b : RecordedExec} (h : b.answers a = true) :
    a.call.name = b.call.name ∧ a.call.input.Within b.call.input := by
  rw [answers_iff] at h
  exact ⟨h.1, Json.within_of_subset a.sorted b.sorted h.2⟩

def weight (k : String × Json) : Nat := k.2.nodes

theorem weight_key (e : RecordedExec) : weight e.key = e.call.input.nodes := Json.nodes_canon _

end RecordedExec

theorem tools_of_records (execs : List RecordedExec) (script : TestScript) :
    ((execs.map RecordedExec.record).foldl TestScript.push script).tools =
      script.tools ++ execs.map RecordedExec.scripted := by
  induction execs generalizing script with
  | nil => simp
  | cons e execs ih =>
      rw [List.map_cons, List.foldl_cons, ih]
      simp [RecordedExec.record, TestScript.push, RecordedExec.scripted]

open RecordedExec

section Records

variable (display : Json → String) (name : String) (execs order : List RecordedExec)

def recordedScript : SharedScript := .new (scriptFromJournal (execs.map record) name)

theorem recordedScript_tools : (recordedScript name execs).script.tools = execs.map scripted := by
  rw [recordedScript, SharedScript.new, scriptFromJournal, tools_of_records]
  rfl

theorem recordedScript_length :
    (recordedScript name execs).script.tools.length = (recordedScript name execs).toolConsumed.length := by
  simp [recordedScript, SharedScript.new]

theorem recordedScript_pending : (recordedScript name execs).pendingTools = execs.map scripted := by
  rw [← recordedScript_tools name execs]
  exact SharedScript.openEntries_new _

theorem feed_recorded :
    ((recordedScript name execs).feed display (order.map call)).map (fun r => (r.1, r.2.pendingTools)) =
      (FirstFit.serve answers execs order).map fun r => (r.1.map output, r.2.map scripted) := by
  rw [SharedScript.feed_eq display (recordedScript_length name execs), recordedScript_pending,
    FirstFit.serve_map, Option.map_map]
  congr 1
  funext r
  simp [scripted]

/-- No recorded call is followed by a call of the same tool whose larger input
would take its entry. -/
def Unshadowed : Prop :=
  execs.Pairwise fun a b => a.call.name = b.call.name →
    a.call.input.subsetMatches b.call.input = true → a.call.input.beq b.call.input = true

theorem unambiguous_iff : FirstFit.Unambiguous answers key key execs ↔ Unshadowed execs := by
  constructor
  · intro h
    refine h.imp fun {a b} hab hname hsub => ?_
    exact ((sameCall_iff a b).mpr (hab b rfl ((answers_iff b a).mpr ⟨hname, hsub⟩))).2
  · intro h
    refine h.imp fun {a a'} hab b hkey hfit => ?_
    rw [answers_congr a hkey] at hfit
    obtain ⟨hname, hsub⟩ := (answers_iff a' a).mp hfit
    exact (sameCall_iff a a').mp ⟨hname, hab hname hsub⟩

end Records

theorem forall₂_of_keys {order xs execs : List RecordedExec} (h : order.map key = xs.map key)
    (hmem : ∀ a ∈ xs, a ∈ execs) : List.Forall₂ (fun b a => a ∈ execs ∧ key a = key b) order xs := by
  induction order generalizing xs with
  | nil =>
      cases xs with
      | nil => exact .nil
      | cons => cases h
  | cons b order ih =>
      cases xs with
      | nil => cases h
      | cons a xs =>
          rw [List.map_cons, List.map_cons, List.cons.injEq] at h
          exact .cons ⟨hmem a (by simp), h.1.symm⟩ (ih h.2 fun c hc => hmem c (by simp [hc]))

/-- Racing agents get their own recorded results back in every order of their
calls exactly if no recorded call is shadowed. -/
theorem racing_calls_answered (display : Json → String) (name : String) (execs : List RecordedExec) :
    (∀ order, order.Perm execs → ∃ outputs st,
      SharedScript.feed display (.new (scriptFromJournal (execs.map record) name)) (order.map call) =
        some (outputs, st) ∧ st.toolConsumed.all id = true ∧
      List.Forall₂ (fun (b : RecordedExec) out => ∃ a ∈ execs, a.output = out ∧ a.SameCall b) order outputs) ↔
    Unshadowed execs := by
  rw [← unambiguous_iff]
  constructor
  · intro hall
    apply FirstFit.Unambiguous.of_complete weight rfl (fun b d a => answers_congr a)
    · intro a b h
      rw [weight_key, weight_key]
      exact (within_of_answers h).2.1
    · intro a b h heq
      rw [weight_key, weight_key] at heq
      obtain ⟨hname, hin⟩ := within_of_answers h
      exact Prod.ext hname (hin.2 heq)
    · intro order hperm
      obtain ⟨outputs, st, hfeed, hdone, -⟩ := hall order hperm
      have hserve := feed_recorded display name execs order
      have hlen := SharedScript.feed_length display (recordedScript_length name execs) hfeed
      rw [recordedScript, hfeed, Option.map_some,
        show st.pendingTools = [] from (SharedScript.openEntries_eq_nil hlen).mpr hdone] at hserve
      obtain ⟨⟨xs, rest⟩, hxs, heq⟩ := Option.map_eq_some_iff.mp hserve.symm
      have hrest : rest = [] := List.map_eq_nil_iff.mp (Prod.mk.inj heq).2
      rw [hrest] at hxs
      exact ⟨xs, hxs⟩
  · intro h order hperm
    obtain ⟨xs, hxs, hkeys⟩ := h.serves (fun a b => answers_self) (hperm.symm.map key)
    have hserve := feed_recorded display name execs order
    rw [hxs, Option.map_some] at hserve
    obtain ⟨⟨outputs, st⟩, hfeed, heq⟩ := Option.map_eq_some_iff.mp hserve
    obtain ⟨houtputs, hpending⟩ := Prod.mk.inj heq
    have hlen := SharedScript.feed_length display (recordedScript_length name execs) hfeed
    refine ⟨outputs, st, hfeed, (SharedScript.openEntries_eq_nil hlen).mp hpending, ?_⟩
    obtain ⟨hmem, -⟩ := FirstFit.serve_perm hxs
    rw [List.append_nil] at hmem
    have hsameCall : List.Forall₂ (fun b a => a ∈ execs ∧ key a = key b) order xs :=
      forall₂_of_keys hkeys.symm fun a ha => hmem.mem_iff.mpr ha
    rw [show outputs = xs.map output from houtputs, List.forall₂_map_right_iff]
    exact hsameCall.imp fun b a h => ⟨a, h.1, rfl, (sameCall_iff a b).mpr h.2⟩

def listAll : RecordedExec := ⟨1, ⟨"t1", "Bash", .object []⟩, .ok "all", rfl⟩

def listOne : RecordedExec := ⟨2, ⟨"t2", "Bash", .object [("command", .string "ls")]⟩, .ok "one", rfl⟩

/-- The call with the larger input comes first and takes the other's entry, so
that the other call finds none. -/
theorem racing_calls_shadowed :
    [listOne, listAll].Perm [listAll, listOne] ∧
      (SharedScript.feed (fun _ => "") (.new (scriptFromJournal ([listAll, listOne].map record) "race"))
        ([listOne, listAll].map call)).isNone = true :=
  ⟨.swap _ _ _, by decide⟩

end Silo.Replay
