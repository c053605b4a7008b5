import Silo.Frontend.Prompts
import Silo.Replay.Script

namespace Silo.Frontend

open Silo.Lib Silo.Core Silo.Harness Silo.Replay

def eventPayload : Record → Option EventPayload
  | .event payload => some payload
  | .journal _ => none

def sendPrompts (script : TestScript) : List String :=
  script.frontend.filterMap fun
    | .sendPrompt text => some text
    | _ => none

namespace State

variable {cfg : Config} {s t : State} {c d : Nat} {act : Act}

/-- How many prompts come before the event numbered `seq`. -/
def promptsBefore (s : State) (seq : Nat) : Nat := rank promptText s.bus.history seq

/-- The model has been given the prompts in the order the events give them, and in
the order of the script made from a journal that holds the events. -/
def InTranscriptOrder (s : State) : Prop :=
  s.taken <+: s.transcript ∧
    ∀ records name, records.filterMap eventPayload = s.bus.journal.map Event.payload →
      s.taken <+: sendPrompts (scriptFromJournal records name)

/-- A prompt is journaled, and enqueued, only after every prompt that was numbered
before it. -/
def keepsOrder (s : State) : Act → Bool
  | .emitJournal seq =>
    (s.bus.history[seq]?.bind promptText).isNone || s.promptsBefore seq ≤ s.journaled.length
  | .conn c .resume => (s.pending c).all fun p => s.promptsBefore p.1 ≤ s.enqueued.length
  | _ => true

structure PromptInv (s : State) : Prop where
  seqs : ∀ (i : Nat) (e : Event EventPayload), s.bus.history[i]? = some e → e.seq = i
  flying : ∀ e ∈ s.bus.emits, s.bus.history[e.event.seq]? = some e.event
  journal : s.journaled <+: s.transcript
  queue : s.enqueued <+: s.transcript
  behind : s.enqueued.length ≤ s.journaled.length
  unwritten : ∀ e ∈ s.bus.emits, e.journaled = false → (promptText e.event).isSome →
    s.journaled.length ≤ s.promptsBefore e.event.seq
  written : ∀ e ∈ s.bus.emits, e.journaled = true → (promptText e.event).isSome →
    s.promptsBefore e.event.seq < s.journaled.length
  landed : ∀ i e, s.bus.history[i]? = some e → (promptText e).isSome → (∀ d ∈ s.bus.emits, d.event.seq ≠ i) →
    s.promptsBefore i < s.journaled.length
  pending : ∀ c seq text, s.pending c = some (seq, text) →
    (∃ e, s.bus.history[seq]? = some e ∧ promptText e = some text) ∧ s.enqueued.length ≤ s.promptsBefore seq
  apart : ∀ c d seq text text', s.pending c = some (seq, text) → s.pending d = some (seq, text') → c = d

theorem PromptInv.quiet (h : PromptInv s) (hq : Quiet s t) : PromptInv t := by
  have htranscript : t.transcript = s.transcript := by rw [transcript, hq.bus, transcript]
  have hjournaled : t.journaled = s.journaled := by rw [journaled, hq.bus, journaled]
  have hbefore (i : Nat) : t.promptsBefore i = s.promptsBefore i := by
    rw [promptsBefore, hq.bus, promptsBefore]
  constructor
  · rw [hq.bus]
    exact h.seqs
  · rw [hq.bus]
    exact h.flying
  · rw [htranscript, hjournaled]
    exact h.journal
  · rw [htranscript, hq.enqueued]
    exact h.queue
  · rw [hjournaled, hq.enqueued]
    exact h.behind
  · simp only [hq.bus, hjournaled, hbefore]
    exact h.unwritten
  · simp only [hq.bus, hjournaled, hbefore]
    exact h.written
  · simp only [hq.bus, hjournaled, hbefore]
    exact h.landed
  · simp only [hq.bus, hq.enqueued, hq.pending, hbefore]
    exact h.pending
  · simp only [hq.pending]
    exact h.apart

theorem PromptInv.append (h : PromptInv s) {time : Timestamp} {payload : EventPayload}
    (hb : t.bus = s.bus.emitAppend time payload) (hq : t.enqueued = s.enqueued)
    (hp : ∀ c seq text, t.pending c = some (seq, text) → s.pending c = some (seq, text) ∨
      seq = s.bus.nextSeq ∧ promptText ⟨seq, time, payload⟩ = some text)
    (ha : ∀ c d text text', t.pending c = some (s.bus.nextSeq, text) →
      t.pending d = some (s.bus.nextSeq, text') → c = d) : PromptInv t := by
  have hhistory : t.bus.history = s.bus.history ++ [⟨s.bus.nextSeq, time, payload⟩] := by rw [hb]; rfl
  have hemits : t.bus.emits = s.bus.emits ++ [⟨⟨s.bus.nextSeq, time, payload⟩, false⟩] := by rw [hb]; rfl
  have hjournaled : t.journaled = s.journaled := by rw [journaled, hb]; rfl
  have htranscript : s.transcript <+: t.transcript := by
    rw [transcript, transcript, hhistory, List.filterMap_append]
    exact List.prefix_append _ _
  have hbefore {i : Nat} (hi : i ≤ s.bus.history.length) : t.promptsBefore i = s.promptsBefore i := by
    rw [promptsBefore, hhistory, rank_append _ hi, promptsBefore]
  have hlen {i : Nat} {e : Event EventPayload} (he : s.bus.history[i]? = some e) : i ≤ s.bus.history.length :=
    Nat.le_of_lt (List.getElem?_eq_some_iff.mp he).1
  have hnew : t.promptsBefore s.bus.nextSeq = s.transcript.length := by
    exact (hbefore (Nat.le_refl _)).trans rank_length
  have hold {i : Nat} {e : Event EventPayload} (he : s.bus.history[i]? = some e) :
      t.bus.history[i]? = some e := by
    rw [hhistory, List.getElem?_append_left (List.getElem?_eq_some_iff.mp he).1, he]
  constructor
  · intro i e he
    rw [hhistory] at he
    rcases getElem?_snoc_cases he with he | ⟨rfl, rfl⟩
    · exact h.seqs i e he
    · rfl
  · intro e he
    rw [hemits] at he
    rcases List.mem_append.mp he with he | he
    · exact hold (h.flying e he)
    · obtain rfl := List.mem_singleton.mp he
      rw [hhistory]
      exact List.getElem?_concat_length
  · rw [hjournaled]
    exact h.journal.trans htranscript
  · rw [hq]
    exact h.queue.trans htranscript
  · rw [hq, hjournaled]
    exact h.behind
  · intro e he hj htext
    rw [hemits] at he
    rw [hjournaled]
    rcases List.mem_append.mp he with he | he
    · rw [hbefore (hlen (h.flying e he))]
      exact h.unwritten e he hj htext
    · obtain rfl := List.mem_singleton.mp he
      rw [hnew]
      exact h.journal.length_le
  · intro e he hj htext
    rw [hemits] at he
    rw [hjournaled]
    rcases List.mem_append.mp he with he | he
    · rw [hbefore (hlen (h.flying e he))]
      exact h.written e he hj htext
    · obtain rfl := List.mem_singleton.mp he
      cases hj
  · intro i e he htext hout
    rw [hhistory] at he
    rw [hjournaled]
    rcases getElem?_snoc_cases he with he | ⟨rfl, -⟩
    · rw [hbefore (hlen he)]
      apply h.landed i e he htext
      intro d hd
      exact hout d (by rw [hemits]; exact List.mem_append_left _ hd)
    · exact absurd rfl (hout _ (by rw [hemits]; exact List.mem_append_right _ (List.mem_singleton_self _)))
  · intro c seq text hc
    rw [hq]
    rcases hp c seq text hc with hc | ⟨rfl, htext⟩
    · obtain ⟨⟨e, he, htext⟩, hle⟩ := h.pending c seq text hc
      rw [hbefore (hlen he)]
      exact ⟨⟨e, hold he, htext⟩, hle⟩
    · rw [hnew]
      refine ⟨⟨_, ?_, htext⟩, h.queue.length_le⟩
      rw [hhistory]
      exact List.getElem?_concat_length
  · intro c d seq text text' hc hd
    rcases hp c seq text hc with hc' | ⟨rfl, -⟩
    · rcases hp d seq text' hd with hd' | ⟨rfl, -⟩
      · exact h.apart c d seq text text' hc' hd'
      · exact ha c d text text' hc hd
    · exact ha c d text text' hc hd

theorem PromptInv.enqueue (h : PromptInv s) {seq : Nat} {text : String} (hc : s.pending c = some (seq, text))
    (hf : s.inFlight seq = false) (hle : s.promptsBefore seq ≤ s.enqueued.length) (hb : t.bus = s.bus)
    (hq : t.enqueued = s.enqueued ++ [text]) (hp : ∀ d, t.pending d = if d = c then none else s.pending d) :
    PromptInv t := by
  have htranscript : t.transcript = s.transcript := by rw [transcript, hb, transcript]
  have hjournaled : t.journaled = s.journaled := by rw [journaled, hb, journaled]
  have hbefore (i : Nat) : t.promptsBefore i = s.promptsBefore i := by rw [promptsBefore, hb, promptsBefore]
  obtain ⟨⟨e, he, htext⟩, hge⟩ := h.pending c seq text hc
  have hrank : s.promptsBefore seq = s.enqueued.length := Nat.le_antisymm hle hge
  have hlanded : s.promptsBefore seq < s.journaled.length := by
    apply h.landed seq e he (by rw [htext]; rfl)
    intro d hd heq
    rw [inFlight, List.any_eq_false] at hf
    exact hf d hd (by simpa using heq)
  have hstill {d : Nat} {p : Nat × String} (hd : t.pending d = some p) : d ≠ c ∧ s.pending d = some p := by
    rw [hp] at hd
    split at hd
    · cases hd
    · next hne => exact ⟨hne, hd⟩
  constructor
  · rw [hb]
    exact h.seqs
  · rw [hb]
    exact h.flying
  · rw [htranscript, hjournaled]
    exact h.journal
  · rw [htranscript, hq]
    apply prefix_snoc h.queue
    rw [← hrank]
    exact getElem?_rank he htext
  · rw [hjournaled, hq, List.length_append, List.length_singleton]
    omega
  · simp only [hb, hjournaled, hbefore]
    exact h.unwritten
  · simp only [hb, hjournaled, hbefore]
    exact h.written
  · simp only [hb, hjournaled, hbefore]
    exact h.landed
  · intro d seq' text' hd
    obtain ⟨hne, hd⟩ := hstill hd
    obtain ⟨⟨e', he', htext'⟩, hge'⟩ := h.pending d seq' text' hd
    have hseq : seq ≠ seq' := by
      rintro rfl
      exact hne (h.apart d c seq text' text hd hc)
    have hranks : s.promptsBefore seq ≠ s.promptsBefore seq' := rank_ne he htext he' htext' hseq
    rw [hb, hbefore, hq, List.length_append, List.length_singleton]
    exact ⟨⟨e', he', htext'⟩, by omega⟩
  · intro d d' seq' text' text'' hd hd'
    exact h.apart d d' seq' text' text'' (hstill hd).2 (hstill hd').2

/-- An event that is no prompt, or the prompt that comes next, is journaled. -/
theorem PromptInv.journals (h : PromptInv s) {seq : Nat} (hb : s.bus.emitJournal seq = some t.bus)
    (hle : (s.bus.history[seq]?.bind promptText).isNone = true ∨ s.promptsBefore seq ≤ s.journaled.length)
    (hq : t.enqueued = s.enqueued) (hp : ∀ d, t.pending d = s.pending d) : PromptInv t := by
  obtain ⟨e, hfind, hbus⟩ := Option.map_eq_some_iff.mp hb
  obtain ⟨hseq, hwritten⟩ : e.event.seq = seq ∧ e.journaled = false := by
    simpa using List.find?_some hfind
  have hmem := List.mem_of_find?_eq_some hfind
  have hget : s.bus.history[seq]? = some e.event := hseq ▸ h.flying e hmem
  have hhistory : t.bus.history = s.bus.history := by rw [← hbus]
  have hemits {d : Emit EventPayload} (hd : d ∈ t.bus.emits) :
      ∃ d' ∈ s.bus.emits, d.event = d'.event ∧
        (d'.event.seq = seq ∧ d.journaled = true ∨ d'.event.seq ≠ seq ∧ d.journaled = d'.journaled) := by
    rw [← hbus] at hd
    obtain ⟨d', hd', rfl⟩ := List.mem_map.mp hd
    refine ⟨d', hd', ?_⟩
    split
    · next heq => exact ⟨rfl, .inl ⟨heq, rfl⟩⟩
    · next hne => exact ⟨rfl, .inr ⟨hne, rfl⟩⟩
  have htranscript : t.transcript = s.transcript := by rw [transcript, hhistory, transcript]
  have hbefore (i : Nat) : t.promptsBefore i = s.promptsBefore i := by
    rw [promptsBefore, hhistory, promptsBefore]
  have hjournaled : t.journaled = s.journaled ++ (promptText e.event).toList := by
    rw [journaled, journaled, ← hbus, List.filterMap_append]
    cases htext : promptText e.event <;> simp [htext]
  -- The event is at its place in the transcript, if it is a prompt at all.
  have hplace {text : String} (htext : promptText e.event = some text) :
      s.promptsBefore seq = s.journaled.length := by
    apply Nat.le_antisymm
    · rcases hle with hle | hle
      · simp [hget, htext] at hle
      · exact hle
    · rw [← hseq]
      exact h.unwritten e hmem hwritten (by rw [htext]; rfl)
  have hgrows : s.journaled.length ≤ t.journaled.length := by simp [hjournaled]
  constructor
  · rw [hhistory]
    exact h.seqs
  · intro d hd
    obtain ⟨d', hd', heq, -⟩ := hemits hd
    rw [hhistory, heq]
    exact h.flying d' hd'
  · rw [htranscript, hjournaled]
    cases htext : promptText e.event with
    | none => simpa using h.journal
    | some text =>
        apply prefix_snoc h.journal
        rw [← hplace htext]
        exact getElem?_rank hget htext
  · rw [htranscript, hq]
    exact h.queue
  · rw [hq]
    exact Nat.le_trans h.behind hgrows
  · intro d hd hj htext
    obtain ⟨d', hd', heq, ⟨-, hj'⟩ | ⟨hne, hj'⟩⟩ := hemits hd
    · rw [hj'] at hj
      cases hj
    · rw [heq] at htext ⊢
      have hold := h.unwritten d' hd' (hj' ▸ hj) htext
      rw [hbefore, hjournaled]
      cases htext' : promptText e.event with
      | none => simpa using hold
      | some text =>
          obtain ⟨text', htext⟩ := Option.isSome_iff_exists.mp htext
          have hranks : s.promptsBefore d'.event.seq ≠ s.promptsBefore seq :=
            rank_ne (h.flying d' hd') htext hget htext' hne
          have hplace := hplace htext'
          simp only [Option.toList_some, List.length_append, List.length_singleton]
          omega
  · intro d hd hj htext
    obtain ⟨d', hd', heq, ⟨hseq', -⟩ | ⟨-, hj'⟩⟩ := hemits hd
    · have hsame : e.event = d'.event := Option.some.inj (hget.symm.trans (hseq' ▸ h.flying d' hd'))
      rw [heq, ← hsame] at htext
      obtain ⟨text, htext⟩ := Option.isSome_iff_exists.mp htext
      rw [heq, hseq', hbefore, hplace htext, hjournaled, htext]
      simp
    · rw [heq] at htext ⊢
      rw [hbefore]
      exact Nat.lt_of_lt_of_le (h.written d' hd' (hj' ▸ hj) htext) hgrows
  · intro i d hd htext hout
    rw [hhistory] at hd
    rw [hbefore]
    refine Nat.lt_of_lt_of_le (h.landed i d hd htext ?_) hgrows
    intro d' hd'
    have himage := hout (if d'.event.seq = seq then { d' with journaled := true } else d')
      (by rw [← hbus]; exact List.mem_map_of_mem hd')
    split at himage <;> exact himage
  · intro c seq' text hc
    rw [hp] at hc
    rw [hhistory, hq, hbefore]
    exact h.pending c seq' text hc
  · intro c d seq' text text' hc hd
    rw [hp] at hc hd
    exact h.apart c d seq' text text' hc hd

theorem PromptInv.broadcasts (h : PromptInv s) {seq : Nat} (hb : s.bus.emitBroadcast seq = some t.bus)
    (hq : t.enqueued = s.enqueued) (hp : ∀ d, t.pending d = s.pending d) : PromptInv t := by
  obtain ⟨e, hfind, hbus⟩ := Option.map_eq_some_iff.mp hb
  obtain ⟨hseq, hwritten⟩ : e.event.seq = seq ∧ e.journaled = true := by
    simpa using List.find?_some hfind
  have hmem := List.mem_of_find?_eq_some hfind
  have hget : s.bus.history[seq]? = some e.event := hseq ▸ h.flying e hmem
  have hhistory : t.bus.history = s.bus.history := by rw [← hbus]
  have hemits {d : Emit EventPayload} : d ∈ t.bus.emits ↔ d ∈ s.bus.emits ∧ d.event.seq ≠ seq := by
    rw [← hbus, List.mem_filter, decide_eq_true_iff]
  have htranscript : t.transcript = s.transcript := by rw [transcript, hhistory, transcript]
  have hbefore (i : Nat) : t.promptsBefore i = s.promptsBefore i := by
    rw [promptsBefore, hhistory, promptsBefore]
  have hjournaled : t.journaled = s.journaled := by rw [journaled, ← hbus, journaled]
  constructor
  · rw [hhistory]
    exact h.seqs
  · intro d hd
    rw [hhistory]
    exact h.flying d (hemits.mp hd).1
  · rw [htranscript, hjournaled]
    exact h.journal
  · rw [htranscript, hq]
    exact h.queue
  · rw [hq, hjournaled]
    exact h.behind
  · intro d hd
    rw [hbefore, hjournaled]
    exact h.unwritten d (hemits.mp hd).1
  · intro d hd
    rw [hbefore, hjournaled]
    exact h.written d (hemits.mp hd).1
  · intro i d hd htext hout
    rw [hhistory] at hd
    rw [hbefore, hjournaled]
    by_cases hi : i = seq
    · subst hi
      obtain rfl : e.event = d := Option.some.inj (hget.symm.trans hd)
      rw [← hseq]
      exact h.written e hmem hwritten htext
    · apply h.landed i d hd htext
      intro d' hd' heq
      exact hout d' (hemits.mpr ⟨hd', heq ▸ hi⟩) heq
  · intro c seq' text hc
    rw [hp] at hc
    rw [hhistory, hq, hbefore]
    exact h.pending c seq' text hc
  · intro c d seq' text text' hc hd
    rw [hp] at hc hd
    exact h.apart c d seq' text text' hc hd

theorem PromptInv.next (h : PromptInv s) (hk : s.keepsOrder act = true) (hn : s.next cfg act = some t) :
    PromptInv t := by
  cases promptEffect_of_next hn with
  | quiet hq => exact h.quiet hq
  | other time payload htext hb hq hp =>
      apply h.append hb hq
      · intro c seq text hc
        exact .inl (hp c ▸ hc)
      · intro c d text text' hc hd
        rw [hp] at hc hd
        exact h.apart c d _ text text' hc hd
  | prompt c time payload text htext hb hq hp =>
      apply h.append hb hq
      · intro d seq text' hd
        rw [hp] at hd
        split at hd
        · cases hd
          exact .inr ⟨rfl, htext⟩
        · exact .inl hd
      · intro d d' text' text'' hd hd'
        -- Only the new prompt has the new number.
        have hfresh {d : Nat} {text : String} (hd : t.pending d = some (s.bus.nextSeq, text)) : d = c := by
          rw [hp] at hd
          split at hd
          · assumption
          · obtain ⟨⟨e, he, -⟩, -⟩ := h.pending d _ _ hd
            exact absurd (List.getElem?_eq_some_iff.mp he).1 (Nat.lt_irrefl _)
        rw [hfresh hd, hfresh hd']
  | enqueue c seq text hc hf hb hq hp =>
      apply h.enqueue hc hf _ hb hq hp
      simpa [keepsOrder, hc] using hk
  | journal seq hb hq hp =>
      refine h.journals hb ?_ hq hp
      simpa [keepsOrder] using hk
  | broadcast seq hb hq hp => exact h.broadcasts hb hq hp

theorem promptInv_start (records : List (String × KeyRecord)) (now : Nat) (issue : Option PairingCode) :
    PromptInv (start records now issue) := by
  constructor <;> simp [start, transcript, journaled, enqueued, EventBus.empty, pending, Phase.prompt]

theorem sendPrompts_push (script : TestScript) (record : Record) :
    sendPrompts (script.push record) = sendPrompts script ++ ((eventPayload record).bind promptOf).toList := by
  cases record with
  | event payload =>
      cases payload with
      | questionAnswered id clientId answer =>
          simp only [TestScript.push]
          split <;> simp [sendPrompts, eventPayload, promptOf]
      | fileShared name contentB64 origin => cases origin <;> simp [TestScript.push, sendPrompts, eventPayload, promptOf]
      | _ => simp [TestScript.push, sendPrompts, eventPayload, promptOf]
  | journal entry =>
      cases entry with
      | toolExec agent owner call output =>
          simp only [TestScript.push]
          split <;> simp [sendPrompts, eventPayload]
      | frontendCommand command => cases command <;> simp [TestScript.push, sendPrompts, eventPayload]
      | _ => simp [TestScript.push, sendPrompts, eventPayload]

theorem sendPrompts_journal (records : List Record) (script : TestScript) :
    sendPrompts (records.foldl TestScript.push script) =
      sendPrompts script ++ (records.filterMap eventPayload).filterMap promptOf := by
  induction records generalizing script with
  | nil => simp
  | cons record records ih =>
      rw [List.foldl_cons, ih, sendPrompts_push, List.append_assoc]
      congr 1
      cases h : eventPayload record with
      | none => simp [h]
      | some payload => cases hp : promptOf payload <;> simp [h, hp]

theorem PromptInv.inTranscriptOrder (h : PromptInv s) : s.InTranscriptOrder := by
  have htaken : s.taken <+: s.enqueued := List.prefix_append _ _
  refine ⟨htaken.trans h.queue, ?_⟩
  intro records name hrecords
  have hscript : sendPrompts (scriptFromJournal records name) = s.journaled := by
    rw [scriptFromJournal, sendPrompts_journal, hrecords, List.filterMap_map]
    rfl
  rw [hscript]
  exact htaken.trans (List.prefix_of_prefix_length_le h.queue h.journal h.behind)

/-- Prompts reach the model in transcript order in every run where they are
journaled and enqueued in the order of their numbers. -/
theorem prompts_in_transcript_order
    (hr : (machine cfg).ReachableUnder (fun s act => s.keepsOrder act = true) s) : s.InTranscriptOrder := by
  have hinv : PromptInv s := by
    apply hr.invariant
    · rintro s ⟨records, now, issue, rfl⟩
      exact promptInv_start records now issue
    · intro s t act h hk hn
      exact h.next hk hn
  exact hinv.inTranscriptOrder

/-- A harness whose clients all hold the local token. -/
def tokenOnly : Config where
  crypto := ⟨fun _ => Vector.replicate 32 0, fun _ => "", fun _ => none, fun _ => false, fun _ _ _ => false⟩
  token := "token"
  harnessId := "harness"
  protocolVersion := 1
  ids n := toString n
  parseQuestion := .ok
  parseSendUserFile _ := .error "SendUserFile requires a 'path' string"

def draw : Draw := ⟨⟨0, none⟩, ⟨"AAAAAAAA", pairingCode_first⟩, Vector.replicate 32 0⟩

def joins (c : Nat) : List Act :=
  [.conn c .accept, .conn c .hello,
    .conn c (.frame (.text (some (.authenticate (.localToken "token")))) draw), .conn c (.announce (toString c))]

/-- The steps of the `emit` numbered `seq` after its first. -/
def delivers (seq : Nat) : List Act := [.emitJournal seq, .emitBroadcast seq]

def asks (c : Nat) (text : String) : Act := .conn c (.frame (.text (some (.prompt text))) draw)

theorem prompts_in_transcript_order_one_by_one :
    ∃ s, (machine tokenOnly).ReachableUnder (fun s act => s.keepsOrder act = true) s ∧
      s.taken = ["first", "second"] ∧ s.InTranscriptOrder := by
  obtain ⟨s, hr, hp⟩ := Machine.exists_of_runChecked keepsOrder
    (joins 0 ++ joins 1 ++ [asks 0 "first"] ++ delivers 0 ++ [asks 1 "second"] ++ delivers 1 ++
      [Act.conn 0 .resume, .conn 1 .resume, .nextUserInput, .nextUserInput])
    (fun s => decide (s.taken = ["first", "second"])) (s := start [] 0 none) (M := machine tokenOnly)
    ⟨[], 0, none, rfl⟩ rfl
  exact ⟨s, hr, of_decide_eq_true hp, prompts_in_transcript_order hr⟩

/-- The second client enqueues its prompt while the first is between its event and
the queue. -/
theorem second_prompt_overtakes : ∃ s, (machine tokenOnly).Reachable s ∧ ¬ s.InTranscriptOrder := by
  obtain ⟨s, hr, hp⟩ := Machine.exists_of_run
    (joins 0 ++ joins 1 ++ [asks 0 "first"] ++ delivers 0 ++ [asks 1 "second"] ++ delivers 1 ++
      [Act.conn 1 .resume, .nextUserInput])
    (fun s => decide (s.taken = ["second"]) && decide (s.transcript = ["first", "second"]))
    (s := start [] 0 none) (M := machine tokenOnly) ⟨[], 0, none, rfl⟩ rfl
  refine ⟨s, hr, ?_⟩
  intro h
  simp only [Bool.and_eq_true, decide_eq_true_eq] at hp
  have hprefix := h.1
  rw [hp.1, hp.2] at hprefix
  revert hprefix
  decide

end State

end Silo.Frontend
