import Silo.Lib.Lists
import Silo.Harness.TopLevel

namespace Silo.Harness

open Silo.Lib Silo.Core

/-- A conversation up to its last message: the messages alternate from a user
message on, and every tool use before the last message is answered. -/
structure Opened (messages : List Message) : Prop where
  alternates : ∀ i m, messages[i]? = some m → m.role = Role.at i
  answered : ∀ i m n, messages[i]? = some m → messages[i + 1]? = some n → m.role = .assistant →
    m.toolUseIds ≠ [] → n.Answers m.toolUseIds

def lastRole (messages : List Message) : Option Role := messages.getLast?.map Message.role

/-- The last message leaves no tool use open, so that a prompt may follow. -/
def Settled (messages : List Message) : Prop :=
  ∀ m, messages.getLast? = some m → m.role = .assistant → m.toolUseIds = []

def Answering (response : CompletionResponse) (results : List ContentBlock) : Prop :=
  results.map ContentBlock.resultOf =
    ((response.toolCalls.take results.length).map ToolCall.id).map some

def Follows (messages : List Message) (m : Message) : Prop :=
  ∀ last, messages.getLast? = some last → last.role = .assistant → last.toolUseIds ≠ [] →
    m.Answers last.toolUseIds

theorem role_at_succ (i : Nat) : Role.at (i + 1) ≠ Role.at i := by
  unfold Role.at
  split <;> split <;> first | omega | simp

theorem role_of_ne {r q : Role} (h : r ≠ q) (hq : q = .assistant) : r = .user := by
  cases r with
  | user => rfl
  | assistant => exact absurd hq.symm h

theorem opened_nil : Opened [] := ⟨by simp, by simp⟩

theorem opened_snoc_iff (messages : List Message) (m : Message) :
    Opened (messages ++ [m]) ↔
      Opened messages ∧ m.role = Role.at messages.length ∧ Follows messages m := by
  constructor
  · intro h
    refine ⟨⟨?_, ?_⟩, ?_, ?_⟩
    · intro i a ha
      exact h.alternates i a (by rw [List.getElem?_append_left (List.getElem?_eq_some_iff.mp ha).1, ha])
    · intro i a b ha hb
      exact h.answered i a b
        (by rw [List.getElem?_append_left (List.getElem?_eq_some_iff.mp ha).1, ha])
        (by rw [List.getElem?_append_left (List.getElem?_eq_some_iff.mp hb).1, hb])
    · exact h.alternates messages.length m (by simp)
    · intro last hlast
      obtain ⟨init, rfl⟩ := List.getLast?_eq_some_iff.mp hlast
      exact h.answered init.length last m (by simp) (by simp)
  · rintro ⟨h, hrole, hfollows⟩
    refine ⟨?_, ?_⟩
    · intro i a ha
      rcases getElem?_snoc_cases ha with ha | ⟨rfl, rfl⟩
      · exact h.alternates i a ha
      · exact hrole
    · intro i a b ha hb
      rcases getElem?_snoc_cases hb with hb | ⟨hi, rfl⟩
      · have hlt := (List.getElem?_eq_some_iff.mp hb).1
        rw [List.getElem?_append_left (by omega)] at ha
        exact h.answered i a b ha hb
      · rw [List.getElem?_append_left (by omega)] at ha
        apply hfollows a
        rw [List.getLast?_eq_getElem?, ← hi, Nat.add_sub_cancel]
        exact ha

theorem wellFormed_of_opened {messages : List Message} (h : Opened messages)
    (hlast : lastRole messages = some .user) : WellFormed messages := by
  refine ⟨h.alternates, hlast, ?_⟩
  intro i m hm hrole hne
  have hlt := (List.getElem?_eq_some_iff.mp hm).1
  have hnext : i + 1 < messages.length := by
    by_contra hge
    have hi : messages.length - 1 = i := by omega
    rw [lastRole, List.getLast?_eq_getElem?, hi, hm, Option.map_some, hrole] at hlast
    cases hlast
  refine ⟨messages[i + 1], List.getElem?_eq_getElem hnext, ?_, ?_⟩
  · rw [h.alternates (i + 1) _ (List.getElem?_eq_getElem hnext)]
    exact role_of_ne (role_at_succ i) (h.alternates i m hm ▸ hrole)
  · exact h.answered i m _ hm (List.getElem?_eq_getElem hnext) hrole hne

theorem Opened.role_next {messages : List Message} (h : Opened messages) {last : Message}
    (hlast : messages.getLast? = some last) : Role.at messages.length ≠ last.role := by
  obtain ⟨init, rfl⟩ := List.getLast?_eq_some_iff.mp hlast
  rw [((opened_snoc_iff _ _).mp h).2.1, List.length_append, List.length_singleton]
  exact role_at_succ _

theorem opened_assistant {messages : List Message} (h : Opened messages)
    (hlast : lastRole messages = some .user) (content : List ContentBlock) :
    Opened (messages ++ [Message.assistant content]) := by
  obtain ⟨last, hget, hrole⟩ := Option.map_eq_some_iff.mp hlast
  have hnext := h.role_next hget
  refine (opened_snoc_iff _ _).mpr ⟨h, ?_, ?_⟩
  · cases hr : Role.at messages.length with
    | user => exact absurd (hr.trans hrole.symm) hnext
    | assistant => rfl
  · intro m hm ha
    rw [hget] at hm
    cases hm
    rw [hrole] at ha
    cases ha

theorem opened_results {messages : List Message} (h : Opened messages) {content results : List ContentBlock}
    (hlast : messages.getLast? = some (.assistant content))
    (hr : Message.Answers ⟨.user, results⟩ (Message.assistant content).toolUseIds) :
    Opened (messages ++ [⟨.user, results⟩]) := by
  refine (opened_snoc_iff _ _).mpr ⟨h, ?_, ?_⟩
  · exact (role_of_ne (h.role_next hlast) rfl).symm
  · intro m hm _ _
    rw [hlast] at hm
    cases hm
    exact hr

theorem answers_of_results {response : CompletionResponse} {results : List ContentBlock}
    (h : results.map ContentBlock.resultOf = (response.toolCalls.map ToolCall.id).map some) :
    Message.Answers ⟨.user, results⟩ (Message.assistant response.content).toolUseIds :=
  ⟨results, [], by simp, h, by simp⟩

theorem answering_nil (response : CompletionResponse) : Answering response [] := rfl

theorem Answering.full {response : CompletionResponse} {results : List ContentBlock}
    (h : Answering response results) (hlen : response.toolCalls.length ≤ results.length) :
    Message.Answers ⟨.user, results⟩ (Message.assistant response.content).toolUseIds := by
  apply answers_of_results
  rw [h, List.take_of_length_le hlen]

theorem Answering.snoc {response : CompletionResponse} {results : List ContentBlock} {call : ToolCall}
    (h : Answering response results) (hcall : response.toolCalls[results.length]? = some call)
    (content : String) (isError : Bool) :
    Answering response (results ++ [.toolResult call.id content isError]) := by
  unfold Answering at *
  rw [List.map_append, h, List.length_append, List.length_singleton, List.take_add_one, hcall]
  simp [ContentBlock.resultOf]

theorem Answering.cancel {response : CompletionResponse} {results : List ContentBlock}
    (h : Answering response results) :
    Message.Answers ⟨.user, results ++ (response.toolCalls.drop results.length).map Drive.cancelledResult⟩
      (Message.assistant response.content).toolUseIds := by
  apply answers_of_results
  have hcancelled : ((response.toolCalls.drop results.length).map Drive.cancelledResult).map
      ContentBlock.resultOf = ((response.toolCalls.drop results.length).map ToolCall.id).map some := by
    rw [List.map_map, List.map_map]
    rfl
  rw [List.map_append, h, hcancelled, ← List.map_append, ← List.map_append, List.take_append_drop]

theorem settled_of_user {messages : List Message} (h : lastRole messages = some .user) :
    Settled messages := by
  intro m hm ha
  rw [lastRole, hm, Option.map_some, ha] at h
  cases h

theorem lastRole_snoc (messages : List Message) (m : Message) :
    lastRole (messages ++ [m]) = some m.role := by
  simp [lastRole]

theorem opened_prompt {messages : List Message} (h : Opened messages) (hs : Settled messages)
    (text : String) :
    Opened (pushUserPrompt messages text) ∧ lastRole (pushUserPrompt messages text) = some .user := by
  rw [pushUserPrompt]
  split
  case h_1 content hlast =>
    obtain ⟨init, rfl⟩ := List.getLast?_eq_some_iff.mp hlast
    obtain ⟨hinit, hrole, hfollows⟩ := (opened_snoc_iff _ _).mp h
    rw [List.dropLast_concat]
    refine ⟨(opened_snoc_iff _ _).mpr ⟨hinit, hrole, ?_⟩, lastRole_snoc _ _⟩
    intro last hget ha hne
    obtain ⟨results, texts, hcontent, hids, htexts⟩ := hfollows last hget ha hne
    refine ⟨results, texts ++ [.text text], ?_, hids, ?_⟩
    · simp only at hcontent ⊢
      rw [hcontent, List.append_assoc]
    · intro b hb
      rcases List.mem_append.mp hb with hb | hb
      · exact htexts b hb
      · rw [List.mem_singleton] at hb
        rw [hb]
        rfl
  case h_2 hlast =>
    refine ⟨(opened_snoc_iff _ _).mpr ⟨h, ?_, ?_⟩, lastRole_snoc _ _⟩
    · cases hget : messages.getLast? with
      | none =>
          rw [List.getLast?_eq_none_iff] at hget
          subst hget
          rfl
      | some last =>
          have ha : last.role = .assistant := by
            cases last with
            | mk role content =>
                cases role with
                | user => exact absurd hget (hlast content)
                | assistant => rfl
          exact (role_of_ne (h.role_next hget) ha).symm
    · intro last hget ha hne
      exact absurd (hs last hget ha) hne

end Silo.Harness
