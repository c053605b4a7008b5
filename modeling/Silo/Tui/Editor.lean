import Silo.Lib.Machine
import Silo.Tui.App

namespace Silo.Tui

open Silo.Lib Silo.Core Silo.Codec

@[ext]
structure Editor where
  chars : List Char
  cursor : Nat

inductive Edit
  | insert (c : Char)
  | deleteBefore
  | deleteAfter
  | left
  | right
  | home
  | clear

def Editor.apply (editor : Editor) : Edit → Editor
  | .insert c => ⟨editor.chars.take editor.cursor ++ c :: editor.chars.drop editor.cursor, editor.cursor + 1⟩
  | .deleteBefore =>
    if editor.cursor = 0 then editor else ⟨editor.chars.eraseIdx (editor.cursor - 1), editor.cursor - 1⟩
  | .deleteAfter => { editor with chars := editor.chars.eraseIdx editor.cursor }
  | .left => { editor with cursor := editor.cursor - 1 }
  | .right => { editor with cursor := min (editor.cursor + 1) editor.chars.length }
  | .home => { editor with cursor := 0 }
  | .clear => ⟨[], 0⟩

namespace App

variable (app : App) (read : String → Except String (List UInt8))

/-- The line is sent, or is a command that is carried out and does not end the app. -/
def accepts : Bool :=
  let text := trim app.input
  !text.isEmpty &&
    match parse text with
    | none => true
    | some (.error _) | some (.ok .quit) => false
    | some (.ok (.upload path)) =>
      match read path with
      | .ok _ => true
      | .error _ => false
    | some (.ok _) => true

def listens (key : KeyEvent) : Bool :=
  key.press && !(key.control && key.code = .char 'c') && app.popup.isNone && app.question.isNone

def edit (key : KeyEvent) : Option Edit :=
  if app.listens key then
    match key.code with
    | .left => some .left
    | .right => some .right
    | .home => some .home
    | .backspace => some .deleteBefore
    | .delete => some .deleteAfter
    | .char c => if key.control then none else some (.insert c)
    | .enter => if app.accepts read then some .clear else none
    | _ => none
  else none

def line : Editor := ⟨app.input, app.cursor⟩

end App

/-- The app beside an editor that is given its edits. `raised` is the limit that was computed
when the scroll offset last grew. -/
structure Session where
  app : App
  panicked : Bool
  editor : Editor
  raised : UInt16

/-- A key press, with what files can be read then, or an event from the network. -/
inductive Act
  | key (event : KeyEvent) (read : String → Except String (List UInt8))
  | net (event : NetEvent)

namespace Session

variable (outside : Outside) (s : Session)

def start (addr fingerprint : String) (workspace : Option String) (debug : Bool) : Session :=
  ⟨.new addr fingerprint workspace debug, false, ⟨[], 0⟩, 0⟩

def next : Act → Option Session
  | .net event => if s.panicked then none else some { s with app := s.app.handleNet outside event }
  | .key event read =>
    if s.panicked then none
    else
      match s.app.handleKey outside read event with
      | none => some { s with panicked := true }
      | some (app, _) =>
        some {
          app := app
          panicked := false
          editor := ((s.app.edit read event).map s.editor.apply).getD s.editor
          raised := if s.app.scrollFromBottom < app.scrollFromBottom then s.app.scrollLimit else s.raised }

def machine : Machine Session Act :=
  ⟨fun s => ∃ addr fingerprint workspace debug, s = start addr fingerprint workspace debug, fun s act => s.next outside act⟩

/-- Nothing panicked, the input line is what the editor makes of it, and the scroll offset is
within its limit. -/
structure Sound (s : Session) : Prop where
  running : s.panicked = false
  cursor : s.app.cursor ≤ s.app.input.length
  line : s.app.line = s.editor
  scroll : s.app.scrollFromBottom ≤ s.raised

/-- The key does not scroll up from above the last offset that five can be added to. -/
def inRange (s : Session) : Act → Bool
  | .key event _ => !(s.app.listens event && event.code = .pageUp) || s.app.scrollFromBottom ≤ 65530
  | .net _ => true

end Session

section Line

variable {text : List Char} {i : Nat}

theorem byteIndex_eq (text : List Char) (i : Nat) : byteIndex text i = size (text.take i) := by
  rw [byteIndex, charIndices_getElem?]
  split
  · rename_i heq
    obtain ⟨c, -, hc⟩ := Option.map_eq_some_iff.mp heq
    cases hc
    exact Nat.zero_add _
  · rename_i hnone
    rw [Option.map_eq_none_iff, List.getElem?_eq_none_iff] at hnone
    rw [List.take_of_length_le hnone]

theorem insertAt_byteIndex (text : List Char) (i : Nat) (c : Char) :
    insertAt text (byteIndex text i) c = some (text.take i ++ c :: text.drop i) := by
  have hinsert := insertAt_append (text.take i) (text.drop i) c
  rwa [List.take_append_drop, ← byteIndex_eq] at hinsert

theorem removeAt_byteIndex (h : i < text.length) : removeAt text (byteIndex text i) = some (text.eraseIdx i) := by
  have hremove := removeAt_append (text.take i) (text.drop (i + 1)) text[i]
  rwa [← List.drop_eq_getElem_cons h, List.take_append_drop, ← byteIndex_eq, ← List.eraseIdx_eq_take_drop_succ]
    at hremove

end Line

namespace App

variable {outside : Outside} {read : String → Except String (List UInt8)} {app : App}

def surface (app : App) : Editor × UInt16 := (app.line, app.scrollFromBottom)

@[simp]
theorem surface_push (kind : ItemKind) (text : String) : (app.push kind text).surface = app.surface := rfl

theorem surface_note (payload : EventPayload) : (app.note payload).surface = app.surface := by
  rw [note.eq_def]
  split
  case h_4 => split <;> rfl
  all_goals rfl

theorem surface_applyEvent (event : Event) : (app.applyEvent outside event).surface = app.surface := by
  rw [applyEvent]
  split
  · rfl
  · exact surface_note event.payload

theorem surface_handleServer (message : ServerMessage) : (app.handleServer outside message).surface = app.surface := by
  cases message with
  | event event => exact surface_applyEvent event
  | events events =>
      rw [handleServer]
      induction events generalizing app with
      | nil => rfl
      | cons event events ih => exact ih.trans (surface_applyEvent event)
  | _ => rfl

theorem surface_handleNet (event : NetEvent) : (app.handleNet outside event).surface = app.surface := by
  cases event with
  | server message => exact surface_handleServer message
  | _ => rfl

theorem surface_handleFreeText (pending : PendingQuestion) (buffer : List Char) (key : KeyEvent) :
    (app.handleFreeText pending buffer key).1.surface = app.surface := by
  simp only [handleFreeText]
  split
  · split <;> rfl
  · rfl
  · split <;> rfl
  · split <;> rfl
  · rfl

theorem surface_handleQuestionKey (pending : PendingQuestion) (key : KeyEvent) :
    (app.handleQuestionKey pending key).1.surface = app.surface := by
  simp only [handleQuestionKey]
  split
  · exact surface_handleFreeText pending _ key
  · split
    · rfl
    · split <;> rfl
    · split <;> rfl
    · split
      · rfl
      · split <;> rfl
    · rfl

/-- A command that is carried out clears the line, unless it ends the app. -/
theorem surface_runCommand {command : SlashCommand} (hparse : parse (trim app.input) = some (.ok command))
    (htext : (trim app.input).isEmpty = false) :
    (app.runCommand outside read command).1.surface =
      (if app.accepts read then app.line.apply .clear else app.line, app.scrollFromBottom) := by
  cases command with
  | upload path =>
      simp only [runCommand, readUpload, accepts, htext, hparse]
      cases read path <;> rfl
  | _ => simp [runCommand, accepts, htext, hparse, surface, line, clearInput, push, Editor.apply]

theorem surface_submitInput : (app.submitInput outside read).1.surface =
    (if app.accepts read then app.line.apply .clear else app.line, app.scrollFromBottom) := by
  cases htext : (trim app.input).isEmpty with
  | true => simp [submitInput, accepts, htext, surface]
  | false =>
      cases hparse : parse (trim app.input) with
      | none => simp [submitInput, accepts, htext, hparse, surface, line, clearInput, Editor.apply]
      | some parsed =>
          cases parsed with
          | error message => simp [submitInput, accepts, htext, hparse, surface, line, push]
          | ok command =>
              simp only [submitInput, htext, hparse]
              exact surface_runCommand hparse htext

theorem listens_iff {key : KeyEvent} : app.listens key = true ↔
    key.press = true ∧ ¬ (key.control = true ∧ key.code = .char 'c') ∧ app.popup = none ∧ app.question = none := by
  simp only [listens, Bool.and_eq_true, Bool.not_eq_true', Bool.and_eq_false_iff, Option.isNone_iff_eq_none,
    decide_eq_false_iff_not, not_and_or, Bool.not_eq_true, and_assoc]

/-- A key that neither the line nor the transcript listens to leaves them alone. -/
theorem handleKey_deaf (outside : Outside) (read : String → Except String (List UInt8)) (key : KeyEvent)
    (h : app.listens key = false) :
    ∃ app' messages, app.handleKey outside read key = some (app', messages) ∧ app'.surface = app.surface := by
  by_cases hpress : key.press = false
  · exact ⟨app, [], by rw [handleKey, if_pos hpress], rfl⟩
  by_cases hquit : key.control = true ∧ key.code = .char 'c'
  · exact ⟨{ app with shouldQuit := true }, [], by rw [handleKey, if_neg hpress, if_pos hquit], rfl⟩
  cases hpopup : app.popup with
  | some popup =>
      refine ⟨{ app with popup := none }, [], ?_, rfl⟩
      rw [handleKey, if_neg hpress, if_neg hquit, hpopup, Option.isSome_some, if_pos rfl]
  | none =>
      cases hquestion : app.question with
      | some pending =>
          refine ⟨_, (app.handleQuestionKey pending key).2, ?_, surface_handleQuestionKey pending key⟩
          rw [handleKey, if_neg hpress, if_neg hquit, hpopup, Option.isSome_none, if_neg Bool.false_ne_true, hquestion]
      | none =>
          have hlistens : app.listens key = true := by
            exact listens_iff.mpr ⟨by simpa using hpress, hquit, hpopup, hquestion⟩
          rw [hlistens] at h
          cases h

theorem handleKey_listening {key : KeyEvent} (h : app.listens key = true) :
    app.handleKey outside read key = app.handleLineKey outside read key := by
  obtain ⟨hpress, hquit, hpopup, hquestion⟩ := listens_iff.mp h
  have hpressed : ¬ key.press = false := by simp [hpress]
  rw [handleKey, if_neg hpressed, if_neg hquit, hpopup, Option.isSome_none, if_neg Bool.false_ne_true, hquestion]

theorem min_le_limit (offset limit : UInt16) : min offset limit ≤ limit := by
  rw [show min offset limit = if offset ≤ limit then offset else limit from rfl]
  split
  · assumption
  · exact UInt16.le_refl limit

/-- A key does to the line what its edit does, and an offset that grows stays within the limit. -/
theorem handleLineKey_eq (outside : Outside) (read : String → Except String (List UInt8)) {key : KeyEvent}
    (h : app.cursor ≤ app.input.length) (hlistens : app.listens key = true)
    (hrange : key.code = .pageUp → app.scrollFromBottom ≤ 65530) :
    ∃ app' messages, app.handleLineKey outside read key = some (app', messages) ∧
      app'.line = ((app.edit read key).map app.line.apply).getD app.line ∧
      (app.scrollFromBottom < app'.scrollFromBottom → app'.scrollFromBottom ≤ app.scrollLimit) := by
  have hkept {offset : UInt16} (hlt : offset < offset) : offset ≤ app.scrollLimit := absurd hlt (UInt16.lt_irrefl _)
  rw [edit, hlistens, if_pos rfl, handleLineKey]
  cases hcode : key.code <;> dsimp only
  case pageUp =>
    have hle : app.scrollFromBottom.toNat ≤ 65530 := UInt16.le_iff_toNat_le.mp (hrange hcode)
    rw [if_neg (by omega)]
    exact ⟨_, _, rfl, rfl, fun _ => min_le_limit _ _⟩
  case pageDown =>
    refine ⟨_, _, rfl, rfl, fun hlt => ?_⟩
    dsimp only at hlt ⊢
    rw [UInt16.lt_iff_toNat_lt] at hlt
    split at hlt
    · cases hlt
    · rename_i hge
      have hge : 5 ≤ app.scrollFromBottom := UInt16.not_lt.mp hge
      rw [UInt16.toNat_sub_of_le _ _ hge] at hlt
      omega
  case endKey =>
    refine ⟨_, _, rfl, rfl, fun hlt => ?_⟩
    cases UInt16.lt_iff_toNat_lt.mp hlt
  case enter =>
    have hsurface : (app.submitInput outside read).1.surface = _ := surface_submitInput
    generalize app.submitInput outside read = submitted at hsurface
    obtain ⟨app', messages⟩ := submitted
    have hline : app'.line = _ := congrArg Prod.fst hsurface
    have hscroll : app'.scrollFromBottom = app.scrollFromBottom := congrArg Prod.snd hsurface
    refine ⟨app', messages, rfl, ?_, ?_⟩
    · rw [hline]
      split <;> rfl
    · rw [hscroll]
      exact hkept
  case backspace =>
    split
    · rename_i hpos
      rw [removeAt_byteIndex (by omega)]
      refine ⟨_, _, rfl, ?_, hkept⟩
      simp only [Option.map_some, Option.getD_some, Editor.apply, line]
      rw [if_neg (by omega)]
    · rename_i hzero
      refine ⟨_, _, rfl, ?_, hkept⟩
      simp only [Option.map_some, Option.getD_some, Editor.apply, line]
      rw [if_pos (by omega)]
  case delete =>
    split
    · rw [removeAt_byteIndex ‹_›]
      exact ⟨_, _, rfl, rfl, hkept⟩
    · rename_i hend
      refine ⟨_, _, rfl, ?_, hkept⟩
      simp only [Option.map_some, Option.getD_some, Editor.apply, line]
      rw [List.eraseIdx_of_length_le (by omega)]
  case char c =>
    split
    · exact ⟨_, _, rfl, rfl, hkept⟩
    · rw [insertAt_byteIndex]
      exact ⟨_, _, rfl, rfl, hkept⟩
  all_goals exact ⟨_, _, rfl, rfl, hkept⟩

end App

theorem Editor.cursor_apply {editor : Editor} (h : editor.cursor ≤ editor.chars.length) (edit : Edit) :
    (editor.apply edit).cursor ≤ (editor.apply edit).chars.length := by
  cases edit with
  | insert c =>
      simp only [Editor.apply, List.length_append, List.length_take, List.length_cons, List.length_drop]
      omega
  | deleteBefore =>
      rw [Editor.apply]
      split
      · exact h
      · rw [List.length_eraseIdx_of_lt (by omega)]
        exact Nat.sub_le_sub_right h 1
  | deleteAfter =>
      simp only [Editor.apply, List.length_eraseIdx]
      split <;> omega
  | left => exact (Nat.sub_le _ _).trans h
  | right => exact Nat.min_le_right _ _
  | home => exact Nat.zero_le _
  | clear => exact Nat.le_refl _

namespace Session

variable {outside : Outside} {s t : Session}

theorem sound_start (addr fingerprint : String) (workspace : Option String) (debug : Bool) :
    (start addr fingerprint workspace debug).Sound :=
  ⟨rfl, Nat.le_refl 0, rfl, UInt16.le_refl 0⟩

theorem sound_of_line {app : App} {edit : Option Edit} (h : s.Sound)
    (hline : app.line = (edit.map s.app.line.apply).getD s.app.line)
    (hscroll : s.app.scrollFromBottom < app.scrollFromBottom → app.scrollFromBottom ≤ s.app.scrollLimit) :
    Sound ⟨app, false, (edit.map s.editor.apply).getD s.editor,
      if s.app.scrollFromBottom < app.scrollFromBottom then s.app.scrollLimit else s.raised⟩ where
  running := rfl
  cursor := by
    change app.line.cursor ≤ app.line.chars.length
    rw [hline]
    cases edit with
    | none => exact h.cursor
    | some edit => exact Editor.cursor_apply h.cursor edit
  line := by rw [hline, h.line]
  scroll := by
    dsimp only
    split
    · exact hscroll ‹_›
    · exact UInt16.le_trans (UInt16.not_lt.mp ‹_›) h.scroll

theorem sound_next {act : Act} (h : s.Sound) (hrange : s.inRange act = true) (hnext : s.next outside act = some t) :
    t.Sound := by
  cases act with
  | net event =>
      rw [next, h.running] at hnext
      cases hnext
      have hsurface : (s.app.handleNet outside event).surface = s.app.surface := App.surface_handleNet event
      have hline : (s.app.handleNet outside event).line = s.app.line := congrArg Prod.fst hsurface
      have hscroll : (s.app.handleNet outside event).scrollFromBottom = s.app.scrollFromBottom := congrArg Prod.snd hsurface
      refine ⟨rfl, ?_, hline.trans h.line, ?_⟩
      · change (s.app.handleNet outside event).line.cursor ≤ (s.app.handleNet outside event).line.chars.length
        rw [hline]
        exact h.cursor
      · rw [hscroll]
        exact h.scroll
  | key event read =>
      rw [next, h.running, if_neg Bool.false_ne_true] at hnext
      cases hlistens : s.app.listens event with
      | false =>
          obtain ⟨app, messages, heq, hsurface⟩ := App.handleKey_deaf outside read event hlistens
          rw [heq] at hnext
          cases hnext
          have hedit : s.app.edit read event = none := by rw [App.edit, hlistens, if_neg Bool.false_ne_true]
          have hscroll : app.scrollFromBottom = s.app.scrollFromBottom := congrArg Prod.snd hsurface
          apply sound_of_line h
          · rw [hedit]
            exact congrArg Prod.fst hsurface
          · intro hlt
            rw [hscroll] at hlt
            exact absurd hlt (UInt16.lt_irrefl _)
      | true =>
          have hup : event.code = .pageUp → s.app.scrollFromBottom ≤ 65530 := by
            intro hcode
            simpa [inRange, hlistens, hcode] using hrange
          obtain ⟨app, messages, heq, hline, hscroll⟩ :=
            App.handleLineKey_eq outside read h.cursor hlistens hup
          rw [App.handleKey_listening hlistens, heq] at hnext
          cases hnext
          exact sound_of_line h hline hscroll

/-- In runs that never scroll up from above 65530, no key panics and the line is edited as the
editor says. -/
theorem sound_of_inRange (outside : Outside) (addr fingerprint : String) (workspace : Option String) (debug : Bool)
    (s : Session) (h : (machine outside).RunsTo (fun s act => s.inRange act = true) (start addr fingerprint workspace debug) s) :
    s.Sound :=
  Machine.RunsTo.invariant (fun hs hr hn => sound_next hs hr hn) (sound_start addr fingerprint workspace debug) h

/-- No step of the runs below shows a JSON value or sends a file. -/
def quiet : Outside := ⟨fun _ => "", fun _ => ""⟩

def noFiles (_ : String) : Except String (List UInt8) := .error "No such file or directory (os error 2)"

def press (code : KeyCode) : Act := .key ⟨code, false, true⟩ noFiles

def blank (n : Nat) : Event := ⟨0, ⟨0, none⟩, .assistantText "agent-0" (String.ofList (List.replicate n '\n'))⟩

theorem sound_of_inRange_typing :
    ∃ s, (machine quiet).RunsTo (fun s act => s.inRange act = true) (start "" "" none false) s ∧ s.Sound ∧
      s.app.input = ['h', '∂'] ∧ s.app.cursor = 1 ∧ s.app.scrollFromBottom = 4 := by
  obtain ⟨s, hs, hout⟩ := (Option.any_eq_true
    (fun s : Session => decide (s.app.input = ['h', '∂'] ∧ s.app.cursor = 1 ∧ s.app.scrollFromBottom = 4))
    ((machine quiet).runChecked inRange (start "" "" none false)
      [.net (.server (.event (blank 3))), press (.char 'h'), press (.char 'é'), press (.char '∂'), press .left,
        press .backspace, press .pageUp])).mp rfl
  have hrun := Machine.runsTo_of_runChecked hs
  exact ⟨s, hrun, sound_of_inRange quiet "" "" none false s hrun, of_decide_eq_true hout⟩

theorem lines_newlines (n : Nat) : lines (List.replicate n '\n') = List.replicate n [] := by
  induction n with
  | zero => rfl
  | succ n ih => rw [List.replicate_succ, lines, if_pos rfl, ih, List.replicate_succ]

def flooded (n : Nat) (offset : UInt16) : App :=
  { (App.new "" "" none false).applyEvent quiet (blank n) with scrollFromBottom := offset }

theorem scrollLimit_flooded {n : Nat} (h : 65535 ≤ n) (offset : UInt16) : (flooded n offset).scrollLimit = 65535 := by
  have htranscript : (flooded n offset).transcript =
      [⟨.assistant, "" ++ String.ofList (List.replicate n '\n'), some "agent-0"⟩] := rfl
  rw [App.scrollLimit, htranscript]
  simp only [List.map_cons, List.map_nil, List.sum_cons, List.sum_nil, String.empty_append, String.toList_ofList,
    lines_newlines, List.length_replicate]
  rw [Nat.min_eq_right (by omega)]
  rfl

theorem handleKey_pageUp {n : Nat} (h : 65535 ≤ n) (offset : UInt16) :
    (flooded n offset).handleKey quiet noFiles ⟨.pageUp, false, true⟩ =
      if 65535 < offset.toNat + 5 then none else some (flooded n (min (offset + 5) 65535), []) := by
  have hlistens : (flooded n offset).listens ⟨.pageUp, false, true⟩ = true := rfl
  rw [App.handleKey_listening hlistens, App.handleLineKey, scrollLimit_flooded h]
  rfl

theorem toNat_offset {k : Nat} (h : k ≤ 13107) : (UInt16.ofNat (5 * k)).toNat = 5 * k :=
  UInt16.toNat_ofNat_of_lt (lt_of_le_of_lt (Nat.mul_le_mul_left 5 h) (by decide))

theorem offset_add {k : Nat} (h : k < 13107) : min (UInt16.ofNat (5 * k) + 5) 65535 = UInt16.ofNat (5 * (k + 1)) := by
  have hadd : UInt16.ofNat (5 * k) + 5 = UInt16.ofNat (5 * (k + 1)) := by
    rw [Nat.mul_succ, UInt16.ofNat_add]
    rfl
  have hle : UInt16.ofNat (5 * (k + 1)) ≤ 65535 := by
    rw [UInt16.le_iff_toNat_le, toNat_offset h]
    exact Nat.mul_le_mul_left 5 h
  rw [hadd]
  exact if_pos hle

theorem runs_pageUp {k : Nat} (h : k ≤ 13107) :
    ∃ s, (machine quiet).RunsTo (fun _ _ => True) (start "" "" none false) s ∧ s.panicked = false ∧
      s.app = flooded 65535 (UInt16.ofNat (5 * k)) := by
  induction k with
  | zero =>
      have hnext : (machine quiet).next (start "" "" none false) (.net (.server (.event (blank 65535)))) =
          some ⟨flooded 65535 0, false, ⟨[], 0⟩, 0⟩ := rfl
      exact ⟨_, Machine.RunsTo.refl.tail trivial hnext, rfl, rfl⟩
  | succ k ih =>
      obtain ⟨s, hrun, hrunning, happ⟩ := ih (Nat.le_of_succ_le h)
      have hfits : ¬ 65535 < (UInt16.ofNat (5 * k)).toNat + 5 := by
        rw [toNat_offset (Nat.le_of_succ_le h)]
        omega
      have hkey := handleKey_pageUp (le_refl 65535) (UInt16.ofNat (5 * k))
      rw [if_neg hfits, offset_add h, ← happ] at hkey
      obtain ⟨t, hnext, ht⟩ : ∃ t, (machine quiet).next s (press .pageUp) = some t ∧
          t.panicked = false ∧ t.app = flooded 65535 (UInt16.ofNat (5 * (k + 1))) := by
        simp only [machine, press, next, hrunning, hkey, Bool.false_eq_true, if_false]
        exact ⟨_, rfl, rfl, rfl⟩
      exact ⟨t, hrun.tail trivial hnext, ht⟩

theorem not_sound_pageUp : ∃ s, (machine quiet).RunsTo (fun _ _ => True) (start "" "" none false) s ∧ ¬ s.Sound := by
  obtain ⟨s, hrun, hrunning, happ⟩ := runs_pageUp (le_refl 13107)
  have hkey := handleKey_pageUp (le_refl 65535) (UInt16.ofNat (5 * 13107))
  rw [if_pos (by decide), ← happ] at hkey
  have hnext : (machine quiet).next s (press .pageUp) = some { s with panicked := true } := by
    simp only [machine, press, next, hrunning, hkey, Bool.false_eq_true, if_false]
  refine ⟨_, hrun.tail trivial hnext, ?_⟩
  intro h
  cases h.running

end Session

end Silo.Tui
