import Mathlib.Data.List.Forall2
import Silo.Replay.Script

namespace Silo.Replay

open Silo.Core Silo.Harness

/-- The last user text of the request contains the needle of the turn. -/
def ScriptedLlmTurn.meets (turn : ScriptedLlmTurn) (request : CompletionRequest) : Bool :=
  turn.expectUserContains.any fun needle => contains (SharedScript.lastUserText request) needle

namespace SharedScript

section Open

variable {α : Type} {p : α → Bool} {entries : List α} {flags : List Bool} {i : Nat}

theorem firstOpen_eq_none
    (h : ∀ (j : Nat) (entry : α), entries[j]? = some entry → flags[j]? = some false → p entry = false) :
    firstOpen p entries flags = none := by
  induction entries generalizing flags with
  | nil => rfl
  | cons entry entries ih =>
      cases flags with
      | nil => rfl
      | cons consumed flags =>
          have hrest : firstOpen p entries flags = none := by
            apply ih
            intro j
            exact h (j + 1)
          have hfirst : (!consumed && p entry) = false := by
            cases consumed with
            | true => rfl
            | false => exact h 0 entry rfl rfl
          simp [firstOpen, hfirst, hrest]

theorem firstOpen_eq_some {entry : α} (hi : entries[i]? = some entry) (hopen : flags[i]? = some false)
    (hp : p entry = true)
    (honly : ∀ (j : Nat) (entry : α), entries[j]? = some entry → flags[j]? = some false → p entry = true →
      j = i) :
    firstOpen p entries flags = some i := by
  induction entries generalizing flags i with
  | nil => cases hi
  | cons first entries ih =>
      cases flags with
      | nil => cases hopen
      | cons consumed flags =>
          cases i with
          | zero =>
              cases hi
              cases hopen
              simp [firstOpen, hp]
          | succ i =>
              have hfirst : (!consumed && p first) = false := by
                cases consumed with
                | true => rfl
                | false =>
                    cases hpf : p first with
                    | false => rfl
                    | true => exact absurd (honly 0 first rfl rfl hpf) (by omega)
              have hrest : firstOpen p entries flags = some i := by
                apply ih hi hopen
                intro j entry hj hopen hp
                have := honly (j + 1) entry hj hopen hp
                omega
              simp [firstOpen, hfirst, hrest]

end Open

/-- What a caller of `next_llm` gets, and the script it leaves. -/
def answerLlm (st : SharedScript) (request : CompletionRequest) :
    Except LlmError CompletionResponse × SharedScript :=
  match st.nextLlm request with
  | .ok (response, st) => (.ok response, st)
  | .error e => (.error e, st)

def answerAll : SharedScript → List CompletionRequest →
    List (Except LlmError CompletionResponse) × SharedScript
  | st, [] => ([], st)
  | st, request :: requests =>
    let first := st.answerLlm request
    let rest := answerAll first.2 requests
    (first.1 :: rest.1, rest.2)

variable {st : SharedScript} {request : CompletionRequest} {i : Nat}

theorem nextLlm_eq (hnotDone : st.llmConsumed.all id = false) {turn : ScriptedLlmTurn}
    (hturn : st.script.llm[i]? = some turn)
    (h : firstOpen (fun turn => turn.meets request) st.script.llm st.llmConsumed = some i) :
    st.nextLlm request = .ok (turn.response, { st with llmConsumed := st.llmConsumed.set i true }) := by
  have h : firstOpen (fun turn : ScriptedLlmTurn => turn.expectUserContains.any fun needle =>
      contains (lastUserText request) needle) st.script.llm st.llmConsumed = some i := h
  simp [nextLlm, hnotDone, h, hturn]

/-- A request that matches no open needle, in a script where every turn has one. -/
theorem answerLlm_mismatch (hexpects : ∀ turn ∈ st.script.llm, turn.expectUserContains.isSome = true)
    (h : ∀ (j : Nat) (turn : ScriptedLlmTurn), st.script.llm[j]? = some turn →
      st.llmConsumed[j]? = some false → turn.meets request = false) :
    ∃ message, st.answerLlm request = (.error (.scriptMismatch message), st) := by
  cases hdone : st.llmConsumed.all id with
  | true => exact ⟨"llm script exhausted", by simp [answerLlm, nextLlm, hdone]⟩
  | false =>
      have hnone : firstOpen (fun turn : ScriptedLlmTurn => turn.expectUserContains.any fun needle =>
          contains (lastUserText request) needle) st.script.llm st.llmConsumed = none :=
        firstOpen_eq_none h
      -- The positional fallback never takes a turn that has an expectation.
      have hfallback : ((firstOpen (fun _ => true) st.script.llm st.llmConsumed).filter fun i =>
          (st.script.llm[i]?).any fun turn => turn.expectUserContains.isNone) = none := by
        rw [Option.filter_eq_none_iff]
        intro i _
        cases hturn : st.script.llm[i]? with
        | none => simp
        | some turn =>
            have := hexpects turn (List.mem_of_getElem? hturn)
            simp [Option.isSome_iff_ne_none.mp this]
      simp [answerLlm, nextLlm, hdone, hnone, hfallback]

end SharedScript

/-- What reaches `next_llm`: the request of a turn, or any other. -/
inductive Arrival
  | own (i : Nat)
  | stray (request : CompletionRequest)

namespace Arrival

def turn : Arrival → Option Nat
  | own i => some i
  | stray _ => none

def request (requests : Nat → CompletionRequest) : Arrival → CompletionRequest
  | own i => requests i
  | stray request => request

def Answered (script : TestScript) : Arrival → Except LlmError CompletionResponse → Prop
  | own i, answer => ∃ turn, script.llm[i]? = some turn ∧ answer = .ok turn.response
  | stray _, answer => ∃ message, answer = .error (.scriptMismatch message)

end Arrival

/-- Every turn has a needle, which the request of the turn contains and the
request of no other. -/
structure Race (script : TestScript) (requests : Nat → CompletionRequest) : Prop where
  expects : ∀ turn ∈ script.llm, turn.expectUserContains.isSome = true
  own : ∀ (i : Nat) (turn : ScriptedLlmTurn), script.llm[i]? = some turn → turn.meets (requests i) = true
  others : ∀ (i j : Nat) (turn : ScriptedLlmTurn), i < script.llm.length → script.llm[j]? = some turn →
    turn.meets (requests i) = true → j = i

/-- A stray request matches only needles of turns that were consumed before. -/
def StraysMiss (script : TestScript) (taken : List Nat) (arrivals : List Arrival) : Prop :=
  ∀ before request after, arrivals = before ++ .stray request :: after → ∀ (j : Nat) (turn : ScriptedLlmTurn),
    script.llm[j]? = some turn → turn.meets request = true → j ∈ taken ++ before.filterMap Arrival.turn

namespace SharedScript

variable {script : TestScript} {requests : Nat → CompletionRequest} {taken : List Nat} {i : Nat}

/-- The script with the turns `taken` consumed. -/
def withTaken (script : TestScript) (taken : List Nat) : SharedScript :=
  { new script with llmConsumed := (List.range script.llm.length).map fun i => decide (i ∈ taken) }

theorem withTaken_flag {j : Nat} :
    (withTaken script taken).llmConsumed[j]? =
      if j < script.llm.length then some (decide (j ∈ taken)) else none := by
  by_cases h : j < script.llm.length <;> simp [withTaken, h]

theorem withTaken_set (hi : i < script.llm.length) :
    { withTaken script taken with llmConsumed := (withTaken script taken).llmConsumed.set i true } =
      withTaken script (taken ++ [i]) := by
  simp only [withTaken, new, SharedScript.mk.injEq, true_and, and_true]
  apply List.ext_getElem?
  intro j
  by_cases hj : j < script.llm.length <;> by_cases hij : i = j <;>
    simp_all [eq_comm]

theorem new_eq_withTaken : new script = withTaken script [] := by
  simp only [withTaken, new, SharedScript.mk.injEq, true_and, and_true]
  apply List.ext_getElem?
  intro j
  by_cases hj : j < script.llm.length <;> simp [hj]

theorem answer_own (h : Race script requests) {turn : ScriptedLlmTurn} (hturn : script.llm[i]? = some turn)
    (hnew : i ∉ taken) :
    (withTaken script taken).answerLlm (requests i) =
      (.ok turn.response, withTaken script (taken ++ [i])) := by
  have hi : i < script.llm.length := (List.getElem?_eq_some_iff.mp hturn).1
  have hopen : (withTaken script taken).llmConsumed[i]? = some false := by
    simp [withTaken_flag, hi, hnew]
  have hnotDone : (withTaken script taken).llmConsumed.all id = false := by
    rw [List.all_eq_false]
    exact ⟨false, List.mem_of_getElem? hopen, by simp⟩
  have hchosen : firstOpen (fun turn => turn.meets (requests i)) script.llm
      (withTaken script taken).llmConsumed = some i := by
    apply firstOpen_eq_some hturn hopen (h.own i turn hturn)
    intro j other hj _ hmeets
    exact h.others i j other hi hj hmeets
  rw [answerLlm, nextLlm_eq hnotDone hturn hchosen, withTaken_set hi]

theorem answer_stray (h : Race script requests) {request : CompletionRequest}
    (hmiss : ∀ (j : Nat) (turn : ScriptedLlmTurn), script.llm[j]? = some turn → turn.meets request = true →
      j ∈ taken) :
    ∃ message, (withTaken script taken).answerLlm request =
      (.error (.scriptMismatch message), withTaken script taken) := by
  apply answerLlm_mismatch h.expects
  intro j turn hturn hopen
  have hj : j < script.llm.length := (List.getElem?_eq_some_iff.mp hturn).1
  rw [withTaken_flag, if_pos hj, Option.some.injEq, decide_eq_false_iff_not] at hopen
  cases hmeets : turn.meets request with
  | false => rfl
  | true => exact absurd (hmiss j turn hturn hmeets) hopen

theorem straysMiss_tail {arrival : Arrival} {arrivals : List Arrival}
    (h : StraysMiss script taken (arrival :: arrivals)) :
    StraysMiss script (taken ++ arrival.turn.toList) arrivals := by
  intro before request after heq j turn hturn hmeets
  have := h (arrival :: before) request after (by rw [heq]; rfl) j turn hturn hmeets
  cases arrival with
  | own i => simpa [Arrival.turn] using this
  | stray other => simpa [Arrival.turn] using this

/-- The run lemma: whatever was taken before, the arrivals get their answers and
take their own turns. -/
theorem answerAll_arrivals (h : Race script requests) {arrivals : List Arrival}
    (hnodup : (taken ++ arrivals.filterMap Arrival.turn).Nodup)
    (hlt : ∀ i ∈ arrivals.filterMap Arrival.turn, i < script.llm.length)
    (hmiss : StraysMiss script taken arrivals) :
    List.Forall₂ (Arrival.Answered script) arrivals
        ((withTaken script taken).answerAll (arrivals.map (Arrival.request requests))).1 ∧
      ((withTaken script taken).answerAll (arrivals.map (Arrival.request requests))).2 =
        withTaken script (taken ++ arrivals.filterMap Arrival.turn) := by
  induction arrivals generalizing taken with
  | nil => exact ⟨.nil, by simp [answerAll]⟩
  | cons arrival arrivals ih =>
      cases arrival with
      | own i =>
          have hi : i < script.llm.length := hlt i (by simp [Arrival.turn])
          obtain ⟨turn, hturn⟩ : ∃ turn, script.llm[i]? = some turn :=
            ⟨_, List.getElem?_eq_getElem hi⟩
          simp only [List.filterMap_cons, Arrival.turn] at hnodup hlt
          have hnew : i ∉ taken := by
            intro hmem
            exact (List.nodup_append.mp hnodup).2.2 i hmem i (by simp) rfl
          have hanswer := answer_own h hturn hnew
          obtain ⟨hfor, hfinal⟩ := @ih (taken ++ [i]) (by simpa using hnodup)
            (fun j hj => hlt j (by simp [hj])) (straysMiss_tail hmiss)
          simp only [List.map_cons, answerAll, Arrival.request, hanswer]
          exact ⟨.cons ⟨turn, hturn, rfl⟩ hfor, by simpa [Arrival.turn] using hfinal⟩
      | stray request =>
          have hgone : ∀ (j : Nat) (turn : ScriptedLlmTurn), script.llm[j]? = some turn →
              turn.meets request = true → j ∈ taken := by
            intro j turn hturn hmeets
            simpa using hmiss [] request arrivals rfl j turn hturn hmeets
          obtain ⟨message, hanswer⟩ := answer_stray h hgone
          simp only [List.filterMap_cons, Arrival.turn] at hnodup hlt
          obtain ⟨hfor, hfinal⟩ := ih hnodup hlt (by simpa [Arrival.turn] using straysMiss_tail hmiss)
          simp only [List.map_cons, answerAll, Arrival.request, hanswer, List.filterMap_cons, Arrival.turn]
          exact ⟨.cons ⟨message, rfl⟩ hfor, hfinal⟩

/-- The answers and flags of a race do not depend on its order: after any part of
the arrivals exactly their turns are consumed, and at the end all of them. -/
structure Confluent (script : TestScript) (requests : Nat → CompletionRequest) (arrivals : List Arrival) :
    Prop where
  answers : List.Forall₂ (Arrival.Answered script) arrivals
    ((new script).answerAll (arrivals.map (Arrival.request requests))).1
  taken : ∀ before after, arrivals = before ++ after →
    ((new script).answerAll (before.map (Arrival.request requests))).2 =
      withTaken script (before.filterMap Arrival.turn)
  final : ((new script).answerAll (arrivals.map (Arrival.request requests))).2 =
    { new script with llmConsumed := List.replicate script.llm.length true }

theorem straysMiss_part {before after : List Arrival} (h : StraysMiss script taken (before ++ after)) :
    StraysMiss script taken before := by
  intro earlier request later heq
  apply h earlier request (later ++ after)
  rw [heq]
  simp

theorem withTaken_all (h : taken.Perm (List.range script.llm.length)) :
    withTaken script taken = { new script with llmConsumed := List.replicate script.llm.length true } := by
  simp only [withTaken, SharedScript.mk.injEq, true_and, and_true]
  apply List.ext_getElem?
  intro j
  by_cases hj : j < script.llm.length <;> simp [hj, h.mem_iff]

theorem confluent_of_race (h : Race script requests) {arrivals : List Arrival}
    (heach : (arrivals.filterMap Arrival.turn).Perm (List.range script.llm.length))
    (hmiss : StraysMiss script [] arrivals) : Confluent script requests arrivals := by
  have hnodup : (arrivals.filterMap Arrival.turn).Nodup := heach.nodup_iff.mpr List.nodup_range
  have hlt : ∀ i ∈ arrivals.filterMap Arrival.turn, i < script.llm.length := by
    intro i hi
    exact List.mem_range.mp (heach.mem_iff.mp hi)
  obtain ⟨hanswers, hfinal⟩ := answerAll_arrivals h (by simpa using hnodup) hlt hmiss
  rw [← new_eq_withTaken] at hanswers hfinal
  constructor
  · exact hanswers
  · rintro before after rfl
    rw [List.filterMap_append] at hnodup hlt
    have hbefore : ([] ++ before.filterMap Arrival.turn).Nodup := by
      simpa using (List.nodup_append.mp hnodup).1
    have hpart := (answerAll_arrivals h hbefore (fun i hi => hlt i (List.mem_append_left _ hi))
      (straysMiss_part hmiss)).2
    rwa [← new_eq_withTaken] at hpart
  · rw [hfinal, List.nil_append, withTaken_all heach]

/-- Every order of the racing requests, with strays between them, gives each
request the response of its turn; and a request that matches no open needle is a
mismatch that consumes nothing. -/
theorem llm_replay_confluent (h : Race script requests) :
    (∀ arrivals : List Arrival, (arrivals.filterMap Arrival.turn).Perm (List.range script.llm.length) →
      StraysMiss script [] arrivals → Confluent script requests arrivals) ∧
    ∀ (st : SharedScript) (request : CompletionRequest), st.script = script →
      (∀ (j : Nat) (turn : ScriptedLlmTurn), script.llm[j]? = some turn → st.llmConsumed[j]? = some false →
        turn.meets request = false) →
      ∃ message, st.answerLlm request = (.error (.scriptMismatch message), st) := by
  constructor
  · intro arrivals heach hmiss
    exact confluent_of_race h heach hmiss
  · rintro st request rfl hmiss
    exact answerLlm_mismatch h.expects hmiss

def needleTurn (needle reply : String) : ScriptedLlmTurn :=
  ⟨some needle, { content := [.text reply], stopReason := .endTurn, usage := ⟨0, 0⟩ }⟩

def twoNeedles : TestScript := ⟨"race", [needleTurn "alpha" "one", needleTurn "beta" "two"], [], []⟩

def userRequest (text : String) : CompletionRequest := ⟨"", [.userText text], [], 1024⟩

def racing : Nat → CompletionRequest
  | 0 => userRequest "do alpha"
  | _ => userRequest "do beta"

theorem llm_replay_confluent_reversed :
    Confluent twoNeedles racing [.own 1, .stray (userRequest "gamma"), .own 0] := by
  have hrace : Race twoNeedles racing := by
    constructor
    · decide
    · rintro (_ | _ | i) turn hturn
      · cases hturn
        decide
      · cases hturn
        decide
      · cases hturn
    · rintro (_ | _ | i) (_ | _ | j) turn hi hturn hmeets
      all_goals first | rfl | cases hturn
      all_goals first | (revert hmeets; decide) | (exact absurd hi (by simp [twoNeedles]))
  refine (llm_replay_confluent hrace).1 _ (by decide) ?_
  intro before request after heq j turn hturn hmeets
  have hmiss : ∀ turn ∈ twoNeedles.llm, turn.meets (userRequest "gamma") = false := by decide
  have hrequest : request = userRequest "gamma" := by
    rcases before with _ | ⟨a, _ | ⟨b, _ | ⟨c, before⟩⟩⟩ <;> simp at heq
    exact heq.2.1.symm
  rw [hrequest, hmiss turn (List.mem_of_getElem? hturn)] at hmeets
  cases hmeets

end SharedScript

end Silo.Replay
