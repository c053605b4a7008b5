import Silo.Lib.Slices
import Silo.Lib.Utf8

namespace Silo.Sandbox.Search

open Silo.Lib

def maxResults : Nat := 10

structure SearchResult where
  title : List Char
  url : List Char
  snippet : List Char
  deriving DecidableEq, Repr

structure ClassTag where
  classAt : Nat
  tagStart : Nat

def hexDigit (byte : UInt8) : Option UInt8 :=
  if 48 ≤ byte ∧ byte ≤ 57 then some (byte - 48)
  else if 97 ≤ byte ∧ byte ≤ 102 then some (byte - 87)
  else if 65 ≤ byte ∧ byte ≤ 70 then some (byte - 55)
  else none

def unescape : List UInt8 → List UInt8
  | [] => []
  | byte :: rest =>
    match byte, rest with
    | 37, hi :: lo :: more =>
      match hexDigit hi, hexDigit lo with
      | some h, some l => (h * 16 + l) :: unescape more
      | _, _ => 37 :: unescape (hi :: lo :: more)
    | byte, rest => byte :: unescape rest

def percentDecode (text : List Char) : List Char := Utf8.lossy (unescape (Utf8.encode text))

def replace (part replacement : String) (text : List Char) : List Char :=
  replaceAll part.toList replacement.toList 0 text

def decodeEntities (text : List Char) : List Char :=
  replace "&amp;" "&" (replace "&nbsp;" " " (replace "&#39;" "'" (replace "&#x27;" "'"
    (replace "&quot;" "\"" (replace "&gt;" ">" (replace "&lt;" "<" text))))))

def withoutTags (inTag : Bool) : List Char → List Char
  | [] => []
  | c :: rest =>
    if c = '<' then withoutTags true rest
    else if c = '>' ∧ inTag = true then withoutTags false rest
    else if inTag then withoutTags true rest
    else c :: withoutTags false rest

def cleanText (fragment : List Char) : List Char :=
  [' '].intercalate (words (decodeEntities (withoutTags false fragment)))

/-- The value of `name="..."` in a tag. As in what follows, the outer option is none when a slice
panics. -/
def attrValue (tag name : List Char) : Option (Option (List Char)) :=
  let marker := name ++ ['=', '"']
  match find marker tag with
  | none => some none
  | some at' => do
    let start := at' + size marker
    match find ['"'] (← sliceFrom tag start) with
    | none => some none
    | some stop => return some (decodeEntities (← slice tag start (stop + start)))

def resultUrl (href : List Char) : Option (List Char) :=
  match find "uddg=".toList href with
  | some at' => do
    let value ← sliceFrom href (at' + 5)
    let stop := (find ['&'] value).getD (size value)
    return percentDecode (← sliceTo value stop)
  | none =>
    if ['/', '/'] <+: href then some ("https://".toList ++ href.drop 2) else some href

def isWord (c : Char) : Bool := c.isAlphanum || c = '_' || c = '-'

def tagAround (html : List Char) (classAt : Nat) : Option (Option Nat) := do
  match rfind '<' (← sliceTo html classAt) with
  | none => some none
  | some tagStart => return if '>' ∈ (← slice html tagStart classAt) then none else some tagStart

/-- The next tag from an offset on whose class attribute contains a name as a whole word. It
takes at most so many rounds. -/
def findClassTag (html name : List Char) : Nat → Nat → Option (Option ClassTag)
  | 0, _ => none
  | rounds + 1, searchFrom => do
    match find name (← sliceFrom html searchFrom) with
    | none => some none
    | some relative =>
      let classAt := searchFrom + relative
      let after ← sliceFrom html (classAt + size name)
      let tag ← if after.head?.any isWord then some none else tagAround html classAt
      match tag with
      | some tagStart => some (some ⟨classAt, tagStart⟩)
      | none => findClassTag html name rounds (classAt + size name)

def resultClass : List Char := "result__a".toList

def snippetClass : List Char := "result__snippet".toList

def closers : List (List Char) := ["</a>".toList, "</div>".toList, "</td>".toList, "</span>".toList, "</p>".toList]

-- The rounds that a search may take.
variable (rounds : Nat)

def findSnippet (html : List Char) (afterAnchor nextAnchorAt : Nat) : Option (List Char) := do
  match ← findClassTag html snippetClass rounds afterAnchor with
  | none => some []
  | some tag =>
    if nextAnchorAt ≤ tag.classAt then some []
    else
      match find ['>'] (← sliceFrom html tag.tagStart) with
      | none => some []
      | some i =>
        let contentStart := tag.tagStart + i + 1
        let content ← sliceFrom html contentStart
        match (closers.filterMap fun closer => find closer content).min? with
        | none => some []
        | some i => return cleanText (← slice html contentStart (contentStart + i))

/-- The result of an anchor, with the offset behind it; none when the anchor has no end. -/
def readAnchor (html : List Char) (anchor : ClassTag) : Option (Option (SearchResult × Nat)) := do
  match find ['>'] (← sliceFrom html anchor.tagStart) with
  | none => return none
  | some i =>
    let tagEnd := anchor.tagStart + i + 1
    match find "</a>".toList (← sliceFrom html tagEnd) with
    | none => return none
    | some i =>
      let close := tagEnd + i
      let title := cleanText (← slice html tagEnd close)
      let href ← attrValue (← slice html anchor.tagStart tagEnd) "href".toList
      let url ← match href with
        | none => some []
        | some href => resultUrl href
      let afterAnchor := close + 4
      let next ← findClassTag html resultClass rounds afterAnchor
      let snippet ← findSnippet rounds html afterAnchor ((next.map ClassTag.classAt).getD (size html))
      return some (⟨title, url, snippet⟩, afterAnchor)

/-- The loop of `extract_results`, with what it has found so far. It takes at most so many passes. -/
def extractFrom (html : List Char) : Nat → Nat → List SearchResult → Option (List SearchResult)
  | 0, _, _ => none
  | passes + 1, cursor, results => do
    if maxResults ≤ results.length then return results
    match ← findClassTag html resultClass rounds cursor with
    | none => return results
    | some anchor =>
      match ← readAnchor rounds html anchor with
      | none => return results
      | some (result, afterAnchor) =>
        extractFrom html passes afterAnchor
          (if result.title ≠ [] ∧ result.url ≠ [] then results ++ [result] else results)

def extractResults (html : List Char) : Option (List SearchResult) :=
  extractFrom (html.length + 1) html (html.length + 1) 0 []

inductive IsClassTag (html name : List Char) : ClassTag → Prop
  | intro (front inside after : List Char) : html = front ++ '<' :: inside ++ name ++ after → '<' ∉ inside →
      '>' ∉ inside → after.head?.any isWord = false → IsClassTag html name ⟨size (front ++ '<' :: inside), size front⟩

/-- A snippet that is the content of a tag from an offset on, which does not come after any result
link from there on. -/
inductive SnippetFrom (html : List Char) (start : Nat) : List Char → Prop
  | empty : SnippetFrom html start []
  | found (tag : ClassTag) (front inner content rest : List Char) : IsClassTag html snippetClass tag →
      start ≤ tag.tagStart →
      (∀ link, IsClassTag html resultClass link → start ≤ link.classAt →
        tag.classAt < link.classAt ∧ tag.tagStart ≤ link.tagStart) →
      html = front ++ inner ++ '>' :: content ++ rest → size front = tag.tagStart → '>' ∉ inner →
      SnippetFrom html start (cleanText content)

inductive ResultFrom (html : List Char) (start : Nat) : SearchResult → Nat → Prop
  | intro (front inner text rest href url snippet : List Char) (classAt : Nat) :
      html = front ++ (inner ++ ['>']) ++ text ++ "</a>".toList ++ rest → '>' ∉ inner →
      IsClassTag html resultClass ⟨classAt, size front⟩ → start ≤ size front →
      attrValue (inner ++ ['>']) "href".toList = some (some href) → resultUrl href = some url →
      SnippetFrom html (size (front ++ (inner ++ ['>']) ++ text ++ "</a>".toList)) snippet →
      ResultFrom html start ⟨cleanText text, url, snippet⟩ (size (front ++ (inner ++ ['>']) ++ text ++ "</a>".toList))

/-- Results whose anchors follow one another from an offset on. -/
inductive ResultsFrom (html : List Char) : Nat → List SearchResult → Prop
  | nil (start : Nat) : ResultsFrom html start []
  | cons (start stop : Nat) (result : SearchResult) (more : List SearchResult) : ResultFrom html start result stop →
      ResultsFrom html stop more → ResultsFrom html start (result :: more)

section Tags

variable {html name front rest before after : List Char} {tag : ClassTag}

/-- A name whose first character does not come again. -/
def Plain (name : List Char) : Prop := ∃ c tail, name = c :: tail ∧ c ∉ tail

theorem Plain.apart (hname : Plain name) {first last : List Char}
    (h : before ++ name ++ after = first ++ name ++ last) (hle : before <+: first) :
    first = before ∨ before ++ name <+: first := by
  obtain ⟨c, tail, hc, htail⟩ := hname
  obtain ⟨x, rfl⟩ := hle
  simp only [List.append_assoc, List.append_cancel_left_eq] at h
  have hx : x <+: name ++ after := ⟨name ++ last, h.symm⟩
  obtain hlong | ⟨n, hn⟩ := List.prefix_or_prefix_of_prefix (List.prefix_append name after) hx
  · exact .inr ((List.prefix_append_right_inj before).mpr hlong)
  · cases x with
    | nil => exact .inl (List.append_nil before)
    | cons d x =>
        -- the other occurrence begins inside of this one, unless that ends with it
        cases n with
        | nil =>
            rw [List.append_nil] at hn
            exact .inr ((List.prefix_append_right_inj before).mpr (hn ▸ List.prefix_refl _))
        | cons e n =>
            rw [← hn, List.append_assoc, List.append_cancel_left_eq, hn, hc] at h
            have he : e = c := (List.cons.inj h).1
            rw [hc, List.cons_append] at hn
            apply absurd _ htail
            rw [← (List.cons.inj hn).2, ← he]
            exact List.mem_append_right x List.mem_cons_self

theorem tagAround_eq (hbefore : html = before ++ rest) :
    (tagAround html (size before) = some none ∧
      ∀ front inside, before = front ++ '<' :: inside → '<' ∉ inside → '>' ∈ inside) ∨
    ∃ front inside, before = front ++ '<' :: inside ∧ '<' ∉ inside ∧ '>' ∉ inside ∧
      tagAround html (size before) = some (some (size front)) := by
  subst hbefore
  rw [tagAround, sliceTo_append]
  dsimp only [Option.bind_eq_bind, Option.bind_some]
  cases hfind : rfind '<' before with
  | none =>
      left
      refine ⟨rfl, ?_⟩
      rintro front inside rfl -
      exact absurd (by simp) (rsplitOnce_eq_none (Option.map_eq_none_iff.mp hfind))
  | some n =>
      obtain ⟨⟨front, inside⟩, hsides, rfl⟩ := Option.map_eq_some_iff.mp hfind
      obtain ⟨rfl, hinside⟩ := rsplitOnce_eq_some hsides
      have hslice : slice (front ++ '<' :: inside ++ rest) (size front) (size (front ++ '<' :: inside)) =
          some ('<' :: inside) := slice_append front ('<' :: inside) rest
      dsimp only
      rw [hslice, Option.bind_some]
      by_cases hend : '>' ∈ inside
      · left
        rw [if_pos (List.mem_cons_of_mem _ hend)]
        refine ⟨rfl, fun front' inside' heq hinside' => ?_⟩
        rwa [← last_unique heq hinside hinside']
      · right
        rw [if_neg (by simp [hend])]
        exact ⟨front, inside, rfl, hinside, hend, rfl⟩

theorem opened_begins {inside : List Char} (h : html = front ++ '<' :: inside ++ name ++ after) :
    front ++ '<' :: inside <+: html := ⟨name ++ after, by rw [h, List.append_assoc _ name]⟩

theorem IsClassTag.split (h : IsClassTag html name tag) : ∃ front rest, html = front ++ rest ∧ size front = tag.tagStart := by
  cases h with
  | intro front inside after heq =>
      exact ⟨front, '<' :: inside ++ name ++ after, by rw [heq]; simp only [List.append_assoc], rfl⟩

/-- A tag whose name is not before an offset has an occurrence of the name behind it. -/
theorem IsClassTag.occurs (h : IsClassTag html name tag) (hhtml : html = front ++ rest)
    (hle : size front ≤ tag.classAt) :
    ∃ first last, rest = first ++ name ++ last ∧ tag.classAt = size (front ++ first) := by
  cases h with
  | intro begin inside last heq hless hgreater hword =>
      have hprefix : front <+: begin ++ '<' :: inside :=
        prefix_of_size_le ⟨rest, hhtml.symm⟩ (opened_begins heq) hle
      obtain ⟨first, hfirst⟩ := hprefix
      refine ⟨first, last, ?_, by rw [hfirst]⟩
      rw [hhtml, ← hfirst, List.append_assoc, List.append_assoc, List.append_cancel_left_eq] at heq
      rw [heq, List.append_assoc]

theorem IsClassTag.around (h : IsClassTag html name tag) (hhtml : html = before ++ name ++ after)
    (hat : tag.classAt = size before) :
    (∃ front inside, before = front ++ '<' :: inside ∧ '<' ∉ inside ∧ '>' ∉ inside) ∧
      after.head?.any isWord = false := by
  cases h with
  | intro front inside last heq hless hgreater hword =>
      have hbefore : before <+: html := ⟨name ++ after, by rw [hhtml, List.append_assoc]⟩
      have hfront : front ++ '<' :: inside = before := prefix_eq_of_size (opened_begins heq) hbefore hat
      have hlast : last = after := by
        rw [hhtml, hfront] at heq
        exact (List.append_cancel_left heq).symm
      exact ⟨⟨front, inside, hfront.symm, hless, hgreater⟩, hlast ▸ hword⟩

inductive FirstTag (html name : List Char) (start : Nat) : Option ClassTag → Prop
  | absent : (∀ other, IsClassTag html name other → other.classAt < start) → FirstTag html name start none
  | found (tag : ClassTag) : IsClassTag html name tag → start ≤ tag.classAt →
      (∀ other, IsClassTag html name other → start ≤ other.classAt → tag.classAt ≤ other.classAt) →
      FirstTag html name start (some tag)

theorem FirstTag.earlier {start start' : Nat} {first : Option ClassTag} (h : FirstTag html name start' first)
    (hle : start ≤ start')
    (hbetween : ∀ other, IsClassTag html name other → start ≤ other.classAt → start' ≤ other.classAt) :
    FirstTag html name start first := by
  cases h with
  | absent hall =>
      apply FirstTag.absent
      intro other hother
      by_contra hge
      exact Nat.not_le_of_lt (hall other hother) (hbetween other hother (Nat.le_of_not_lt hge))
  | found tag htag hat hall =>
      exact .found tag htag (Nat.le_trans hle hat) fun other hother hge => hall other hother (hbetween other hother hge)

theorem IsClassTag.skips (h : IsClassTag html name tag) (hname : Plain name) (hhtml : html = front ++ rest)
    (hrest : rest = before ++ name ++ after) (hfirst : ∀ first last, rest = first ++ name ++ last → before <+: first)
    (hle : size front ≤ tag.classAt) :
    tag.classAt = size (front ++ before) ∨ size (front ++ before ++ name) ≤ tag.classAt := by
  obtain ⟨first, last, hoccurs, hat⟩ := h.occurs hhtml hle
  obtain rfl | hafter := hname.apart (hrest.symm.trans hoccurs) (hfirst first last hoccurs)
  · exact .inl hat
  · right
    rw [hat, List.append_assoc]
    exact size_le_of_prefix ((List.prefix_append_right_inj front).mpr hafter)

/-- The search ends, with the first tag that has a name which does not overlap. -/
theorem findClassTag_eq (hname : Plain name) {rounds : Nat} (hhtml : html = front ++ rest)
    (hrounds : rest.length < rounds) :
    ∃ first, findClassTag html name rounds (size front) = some first ∧ FirstTag html name (size front) first := by
  induction rounds generalizing front rest with
  | zero => exact absurd hrounds (Nat.not_lt_zero _)
  | succ rounds ih =>
      have hfrom : sliceFrom html (size front) = some rest := hhtml ▸ sliceFrom_append front rest
      rw [findClassTag, hfrom]
      dsimp only [Option.bind_eq_bind, Option.bind_some]
      cases hfind : find name rest with
      | none =>
          refine ⟨none, rfl, .absent fun other hother => ?_⟩
          by_contra hle
          obtain ⟨first, last, hrest, -⟩ := hother.occurs hhtml (Nat.le_of_not_lt hle)
          exact find_eq_none hfind ⟨first, last, hrest.symm⟩
      | some relative =>
          obtain ⟨before, after, hrest, rfl, hfirst⟩ := find_eq_some hfind
          have hwhole : html = front ++ before ++ name ++ after := by
            rw [hhtml, hrest]
            simp only [List.append_assoc]
          have hat : size front + size before = size (front ++ before) := (size_append front before).symm
          have hend : size (front ++ before) + size name = size (front ++ before ++ name) :=
            (size_append (front ++ before) name).symm
          have hle : size front ≤ size (front ++ before) := hat ▸ Nat.le_add_right _ _
          have hle' : size (front ++ before) ≤ size (front ++ before ++ name) := hend ▸ Nat.le_add_right _ _
          have hafter : sliceFrom html (size (front ++ before ++ name)) = some after := by
            rw [hwhole, sliceFrom_append]
          -- the search goes on behind an occurrence that is not in a tag
          have hskip (hnot : ∀ other, IsClassTag html name other → other.classAt ≠ size (front ++ before)) :
              ∃ first, findClassTag html name rounds (size (front ++ before ++ name)) = some first ∧
                FirstTag html name (size front) first := by
            have hshort : after.length < rounds := by
              obtain ⟨c, tail, hc, -⟩ := hname
              rw [hrest, hc] at hrounds
              simp only [List.length_append, List.length_cons] at hrounds
              omega
            obtain ⟨first, hsome, hfound⟩ := ih hwhole hshort
            refine ⟨first, hsome, hfound.earlier (Nat.le_trans hle hle') fun other hother hge => ?_⟩
            exact (hother.skips hname hhtml hrest hfirst hge).resolve_left (hnot other hother)
          dsimp only
          rw [hat, hend, hafter, Option.bind_some]
          cases hword : after.head?.any isWord with
          | true =>
              rw [if_pos rfl]
              apply hskip
              intro other hother hsame
              rw [(hother.around hwhole hsame).2] at hword
              cases hword
          | false =>
              have hsplit : html = (front ++ before) ++ (name ++ after) := by rw [hwhole, List.append_assoc]
              rw [if_neg Bool.false_ne_true]
              rcases tagAround_eq hsplit with ⟨hnone, hall⟩ | ⟨begin, inside, hbegin, hless, hgreater, hsome⟩
              · rw [hnone, Option.bind_some]
                apply hskip
                intro other hother hsame
                obtain ⟨⟨begin, inside, hbegin, hless, hgreater⟩, -⟩ := hother.around hwhole hsame
                exact hgreater (hall begin inside hbegin hless)
              · rw [hsome, Option.bind_some]
                refine ⟨_, rfl, .found _ ?_ hle ?_⟩
                · rw [hbegin]
                  exact .intro begin inside after (by rw [hwhole, hbegin]) hless hgreater hword
                · intro other hother hge
                  rcases hother.skips hname hhtml hrest hfirst hge with hsame | hbehind
                  · exact Nat.le_of_eq hsame.symm
                  · exact Nat.le_trans hle' hbehind

theorem findClassTag_of_rounds (hname : Plain name) {rounds : Nat} (hhtml : html = front ++ rest)
    (hrounds : html.length < rounds) :
    ∃ first, findClassTag html name rounds (size front) = some first ∧ FirstTag html name (size front) first := by
  apply findClassTag_eq hname hhtml
  rw [hhtml, List.length_append] at hrounds
  omega

end Tags

section Results

variable {html front rest : List Char} {tag link : ClassTag}

theorem plain_resultClass : Plain resultClass := ⟨'r', "esult__a".toList, rfl, by decide⟩

theorem plain_snippetClass : Plain snippetClass := ⟨'r', "esult__snippet".toList, rfl, by decide⟩

/-- A tag whose name is behind a closing bracket is behind it as well. -/
theorem IsClassTag.behind {name : List Char} (h : IsClassTag html name tag) (hhtml : html = front ++ '>' :: rest)
    (hle : size (front ++ ['>']) ≤ tag.classAt) : size (front ++ ['>']) ≤ tag.tagStart := by
  cases h with
  | intro begin inside after heq hless hgreater hword =>
      have hopened := opened_begins heq
      have hclosed : front ++ ['>'] <+: html :=
        ⟨rest, by rw [hhtml]; simp only [List.append_assoc, List.singleton_append]⟩
      have hbegin : begin <+: html := (List.prefix_append begin _).trans hopened
      by_contra hlt
      obtain ⟨x, hx⟩ := prefix_of_size_le hbegin hclosed (Nat.le_of_not_le hlt)
      obtain ⟨y, hy⟩ := prefix_of_size_le hclosed hopened hle
      rw [← hx, List.append_assoc, List.append_cancel_left_eq] at hy
      obtain rfl | ⟨z, b, rfl⟩ := List.eq_nil_or_concat x
      · rw [List.append_nil] at hx
        exact hlt (Nat.le_of_eq (congrArg size hx.symm))
      · rw [List.concat_eq_append] at hx hy
        rw [← List.append_assoc] at hx
        have hb : b = '>' := List.singleton_inj.mp (List.append_inj' hx rfl).2
        have hmem : '>' ∈ '<' :: inside := by
          rw [← hy, hb]
          simp
        exact hgreater (by simpa using hmem)

theorem IsClassTag.order {name other : List Char} (h : IsClassTag html name tag) (hlink : IsClassTag html other link)
    (hlt : tag.classAt < link.classAt) : tag.tagStart ≤ link.tagStart := by
  cases h with
  | intro begin inside after heq hless hgreater hword =>
      cases hlink with
      | intro begin' inside' after' heq' hless' hgreater' hword' =>
          have hopened := opened_begins heq
          have hopened' : begin' ++ '<' :: inside' <+: html :=
            ⟨other ++ after', by rw [heq']; simp only [List.append_assoc]⟩
          by_contra hbefore
          obtain ⟨x, rfl⟩ := prefix_of_size_le ((List.prefix_append begin' _).trans hopened')
            ((List.prefix_append begin _).trans hopened) (Nat.le_of_not_le hbefore)
          obtain ⟨y, hy⟩ := prefix_of_size_le hopened hopened' (Nat.le_of_lt hlt)
          rw [List.append_assoc, List.append_assoc, List.append_cancel_left_eq] at hy
          cases x with
          | nil => exact hbefore (Nat.le_of_eq (congrArg size (List.append_nil begin')))
          | cons d x =>
              rw [List.cons_append, List.cons_append, List.cons.injEq] at hy
              apply hless'
              rw [← hy.2]
              simp

theorem attrValue_isSome (tag name : List Char) : ∃ value, attrValue tag name = some value := by
  rw [attrValue]
  cases hmarker : find (name ++ ['=', '"']) tag with
  | none => exact ⟨none, rfl⟩
  | some n =>
      obtain ⟨before, after, rfl, rfl, -⟩ := find_eq_some hmarker
      dsimp only [Option.bind_eq_bind]
      rw [← size_append, sliceFrom_append, Option.bind_some]
      cases hquote : find ['"'] after with
      | none => exact ⟨none, rfl⟩
      | some stop =>
          obtain ⟨value, more, rfl, rfl, -⟩ := find_eq_some hquote
          have hslice := slice_append (before ++ (name ++ ['=', '"'])) value (['"'] ++ more)
          have hsize : size (before ++ (name ++ ['=', '"']) ++ value) =
              size value + size (before ++ (name ++ ['=', '"'])) := by
            rw [size_append, Nat.add_comm]
          rw [hsize, List.append_assoc _ value, ← List.append_assoc value] at hslice
          refine ⟨some (decodeEntities value), ?_⟩
          dsimp only
          rw [hslice]
          rfl

theorem resultUrl_isSome (href : List Char) : ∃ url, resultUrl href = some url := by
  rw [resultUrl]
  cases hfind : find "uddg=".toList href with
  | none =>
      dsimp only
      split
      · exact ⟨_, rfl⟩
      · exact ⟨_, rfl⟩
  | some n =>
      obtain ⟨before, value, rfl, rfl, -⟩ := find_eq_some hfind
      have hsize : size before + 5 = size (before ++ "uddg=".toList) := by rw [size_append]; rfl
      dsimp only [Option.bind_eq_bind]
      rw [hsize, sliceFrom_append, Option.bind_some]
      cases hstop : find ['&'] value with
      | none =>
          have hall := sliceTo_append value []
          rw [List.append_nil] at hall
          refine ⟨percentDecode value, ?_⟩
          rw [Option.getD_none, hall]
          rfl
      | some stop =>
          obtain ⟨first, more, rfl, rfl, -⟩ := find_eq_some hstop
          refine ⟨percentDecode first, ?_⟩
          rw [Option.getD_some, List.append_assoc, sliceTo_append]
          rfl

theorem findSnippet_eq {rounds : Nat} (hhtml : html = front ++ '>' :: rest) (hrounds : html.length < rounds)
    (nextAnchorAt : Nat) (hnext : ∀ link, IsClassTag html resultClass link → size (front ++ ['>']) ≤ link.classAt →
      nextAnchorAt ≤ link.classAt) :
    ∃ snippet, findSnippet rounds html (size (front ++ ['>'])) nextAnchorAt = some snippet ∧
      SnippetFrom html (size (front ++ ['>'])) snippet := by
  have hwhole : html = (front ++ ['>']) ++ rest := by rw [hhtml, List.append_assoc]; rfl
  rw [findSnippet]
  obtain ⟨first, hsome, hfound⟩ := findClassTag_of_rounds plain_snippetClass hwhole hrounds
  rw [hsome]
  dsimp only [Option.bind_eq_bind, Option.bind_some]
  obtain - | ⟨tag, htag, hle, -⟩ := hfound
  · exact ⟨[], rfl, .empty⟩
  dsimp only
  by_cases hlate : nextAnchorAt ≤ tag.classAt
  · exact ⟨[], if_pos hlate, .empty⟩
  rw [if_neg hlate]
  have hbehind := htag.behind hhtml hle
  have hfirst (link : ClassTag) (hlink : IsClassTag html resultClass link)
      (hat : size (front ++ ['>']) ≤ link.classAt) :
      tag.classAt < link.classAt ∧ tag.tagStart ≤ link.tagStart := by
    have hlt : tag.classAt < link.classAt := Nat.lt_of_lt_of_le (Nat.lt_of_not_le hlate) (hnext link hlink hat)
    exact ⟨hlt, htag.order hlink hlt⟩
  obtain ⟨begin, more, hsplit, hbegin⟩ := htag.split
  have hfrom : sliceFrom html tag.tagStart = some more := by rw [hsplit, ← hbegin, sliceFrom_append]
  rw [hfrom, Option.bind_some]
  cases hclose : find ['>'] more with
  | none => exact ⟨[], rfl, .empty⟩
  | some n =>
      obtain ⟨inner, content, rfl, rfl, hinner⟩ := find_char_eq_some hclose
      have hstart : tag.tagStart + size inner + 1 = size (begin ++ inner ++ ['>']) := by
        rw [size_append, size_append, hbegin]
        rfl
      have hopen : html = begin ++ inner ++ ['>'] ++ content := by rw [hsplit]; simp
      have hcontent : sliceFrom html (size (begin ++ inner ++ ['>'])) = some content := by rw [hopen, sliceFrom_append]
      dsimp only
      rw [hstart, hcontent, Option.bind_some]
      cases hend : (closers.filterMap fun closer => find closer content).min? with
      | none => exact ⟨[], rfl, .empty⟩
      | some n =>
          obtain ⟨closer, -, hcloser⟩ := List.mem_filterMap.mp (List.min?_mem hend)
          obtain ⟨text, after, rfl, rfl, -⟩ := find_eq_some hcloser
          have hslice := slice_append (begin ++ inner ++ ['>']) text (closer ++ after)
          have hwhole' : html = begin ++ inner ++ ['>'] ++ text ++ (closer ++ after) := by rw [hopen]; simp
          rw [← hwhole', size_append _ text] at hslice
          refine ⟨cleanText text, ?_, ?_⟩
          · dsimp only
            rw [hslice]
            rfl
          · exact .found tag begin inner text (closer ++ after) htag hbehind hfirst (by rw [hwhole']; simp) hbegin
              hinner

theorem nextLink_eq {rounds : Nat} (hrounds : html.length < rounds) (hhtml : html = front ++ '>' :: rest) :
    ∃ next, findClassTag html resultClass rounds (size (front ++ ['>'])) = some next ∧
      ∀ link, IsClassTag html resultClass link → size (front ++ ['>']) ≤ link.classAt →
        (next.map ClassTag.classAt).getD (size html) ≤ link.classAt := by
  have hwhole : html = (front ++ ['>']) ++ rest := by rw [hhtml, List.append_assoc]; rfl
  obtain ⟨next, hsome, hfound⟩ := findClassTag_of_rounds plain_resultClass hwhole hrounds
  refine ⟨next, hsome, ?_⟩
  intro link hlink hat
  cases hfound with
  | absent hall => exact absurd (hall link hlink) (Nat.not_lt_of_le hat)
  | found next hnext hge hall => exact hall link hlink hat

theorem readAnchor_eq {rounds : Nat} {anchor : ClassTag} (hrounds : html.length < rounds) (hhtml : html = front ++ rest)
    (hanchor : IsClassTag html resultClass anchor) (hstart : size front = anchor.tagStart) :
    readAnchor rounds html anchor = some none ∨
      ∃ result before after, readAnchor rounds html anchor = some (some (result, size (before ++ ['>']))) ∧
        html = before ++ '>' :: after ∧ after.length < rest.length ∧
        (result.url ≠ [] → ResultFrom html (size front) result (size (before ++ ['>']))) := by
  have hfrom : sliceFrom html anchor.tagStart = some rest := by rw [hhtml, ← hstart, sliceFrom_append]
  rw [readAnchor, hfrom]
  dsimp only [Option.bind_eq_bind, Option.bind_some]
  cases hopen : find ['>'] rest with
  | none => exact .inl rfl
  | some n =>
      obtain ⟨inner, body, rfl, rfl, hinner⟩ := find_char_eq_some hopen
      have htagEnd : anchor.tagStart + size inner + 1 = size (front ++ (inner ++ ['>'])) := by
        rw [size_append, size_append, hstart, Nat.add_assoc]
        rfl
      have hbody : sliceFrom html (size (front ++ (inner ++ ['>']))) = some body := by
        rw [hhtml, List.append_cons, ← List.append_assoc, ← List.append_assoc, sliceFrom_append]
      dsimp only
      rw [htagEnd, hbody, Option.bind_some]
      cases hclose : find "</a>".toList body with
      | none => exact .inl rfl
      | some n =>
          obtain ⟨text, after, rfl, rfl, -⟩ := find_eq_some hclose
          right
          have hwhole : html = front ++ (inner ++ ['>']) ++ text ++ "</a>".toList ++ after := by rw [hhtml]; simp
          have hend : front ++ (inner ++ ['>']) ++ text ++ "</a>".toList =
              front ++ (inner ++ ['>']) ++ text ++ "</a".toList ++ ['>'] :=
            (List.append_assoc _ "</a".toList ['>']).symm
          have hafter : size (front ++ (inner ++ ['>'])) + size text + 4 =
              size (front ++ (inner ++ ['>']) ++ text ++ "</a>".toList) := by
            rw [size_append _ "</a>".toList, size_append _ text]
            rfl
          have htitle : slice html (size (front ++ (inner ++ ['>']))) (size (front ++ (inner ++ ['>'])) + size text) =
              some text := by
            have hslice := slice_append (front ++ (inner ++ ['>'])) text ("</a>".toList ++ after)
            rwa [← List.append_assoc, ← hwhole, size_append _ text] at hslice
          have htag : slice html anchor.tagStart (size (front ++ (inner ++ ['>']))) = some (inner ++ ['>']) := by
            have hslice := slice_append front (inner ++ ['>']) (text ++ ("</a>".toList ++ after))
            rwa [← List.append_assoc, ← List.append_assoc, ← hwhole, hstart] at hslice
          have hbehind : html = front ++ (inner ++ ['>']) ++ text ++ "</a".toList ++ '>' :: after := by
            rw [hwhole]
            simp
          have hless : after.length < (inner ++ '>' :: (text ++ "</a>".toList ++ after)).length := by
            simp only [List.length_append, List.length_cons]
            omega
          obtain ⟨href, hhref⟩ := attrValue_isSome (inner ++ ['>']) "href".toList
          obtain ⟨url, hurl, htarget⟩ :
              ∃ url, (match href with | none => some [] | some href => resultUrl href) = some url ∧
              (url ≠ [] → ∃ target, href = some target ∧ resultUrl target = some url) := by
            cases href with
            | none => exact ⟨[], rfl, fun hne => absurd rfl hne⟩
            | some target =>
                obtain ⟨url, hurl⟩ := resultUrl_isSome target
                exact ⟨url, hurl, fun _ => ⟨target, rfl, hurl⟩⟩
          obtain ⟨next, hnext, hfirst⟩ := nextLink_eq hrounds hbehind
          obtain ⟨snippet, hsnippet, hfound⟩ := findSnippet_eq hbehind hrounds _ hfirst
          rw [← hend] at hnext hfirst hsnippet hfound
          refine ⟨⟨cleanText text, url, snippet⟩, _, after, ?_, hbehind, hless, fun hne => ?_⟩
          · dsimp only
            rw [htitle, Option.bind_some, htag, Option.bind_some, hhref, Option.bind_some, hafter]
            cases href with
            | none =>
                cases hurl
                dsimp only
                rw [hnext, Option.bind_some, hsnippet, ← hend]
                rfl
            | some target =>
                dsimp only at hurl ⊢
                rw [hurl, Option.bind_some, hnext, Option.bind_some, hsnippet, ← hend]
                rfl
          · obtain ⟨target, rfl, hurl⟩ := htarget hne
            rw [← hend]
            exact .intro front inner text after target url snippet anchor.classAt hwhole hinner
              (hstart ▸ hanchor) (Nat.le_refl _) hhref hurl hfound

theorem size_le_of_shorter {before after : List Char} (hfront : html = front ++ rest) (hbefore : html = before ++ after)
    (h : after.length ≤ rest.length) : size front ≤ size before := by
  apply size_le_of_prefix
  apply List.prefix_of_prefix_length_le ⟨rest, hfront.symm⟩ ⟨after, hbefore.symm⟩
  have hlength := congrArg List.length (hfront.symm.trans hbefore)
  rw [List.length_append, List.length_append] at hlength
  omega

theorem ResultFrom.mono {start start' stop : Nat} {result : SearchResult} (h : ResultFrom html start result stop)
    (hle : start' ≤ start) : ResultFrom html start' result stop := by
  cases h with
  | intro front inner text rest href url snippet classAt hhtml hinner hanchor hstart hhref hurl hsnippet =>
      exact .intro front inner text rest href url snippet classAt hhtml hinner hanchor (Nat.le_trans hle hstart) hhref
        hurl hsnippet

theorem ResultsFrom.mono {start start' : Nat} {results : List SearchResult} (h : ResultsFrom html start results)
    (hle : start' ≤ start) : ResultsFrom html start' results := by
  cases h with
  | nil => exact .nil start'
  | cons _ stop result more hresult hmore => exact .cons start' stop result more (hresult.mono hle) hmore

theorem extractFrom_eq {rounds passes : Nat} (hrounds : html.length < rounds) (hhtml : html = front ++ rest)
    (hpasses : rest.length < passes) (hfront : ∀ tag, IsClassTag html resultClass tag → size front ≤ tag.classAt →
      size front ≤ tag.tagStart) (results : List SearchResult) (hresults : results.length ≤ maxResults) :
    ∃ more, extractFrom rounds html passes (size front) results = some (results ++ more) ∧
      results.length + more.length ≤ maxResults ∧ ResultsFrom html (size front) more := by
  induction passes generalizing front rest results with
  | zero => exact absurd hpasses (Nat.not_lt_zero _)
  | succ passes ih =>
      have hstop : ∃ more, some results = some (results ++ more) ∧ results.length + more.length ≤ maxResults ∧
          ResultsFrom html (size front) more :=
        ⟨[], by rw [List.append_nil], hresults, .nil _⟩
      rw [extractFrom]
      dsimp only [Option.bind_eq_bind]
      split
      · exact hstop
      rename_i hmore
      obtain ⟨first, hsome, hfound⟩ := findClassTag_of_rounds plain_resultClass hhtml hrounds
      rw [hsome, Option.bind_some]
      obtain - | ⟨anchor, hanchor, hle, -⟩ := hfound
      · exact hstop
      have hstart := hfront anchor hanchor hle
      obtain ⟨begin, body, hsplit, hbegin⟩ := hanchor.split
      rcases readAnchor_eq hrounds hsplit hanchor hbegin with
        hnone | ⟨result, before, after, hsome, hend, hless, hresult⟩
      · dsimp only
        rw [hnone]
        exact hstop
      dsimp only
      rw [hsome, Option.bind_some]
      have hbody : body.length ≤ rest.length := by
        have hprefix : front <+: begin :=
          prefix_of_size_le ⟨rest, hhtml.symm⟩ ⟨body, hsplit.symm⟩ (hbegin ▸ hstart)
        have hlength := congrArg List.length (hsplit.symm.trans hhtml)
        rw [List.length_append, List.length_append] at hlength
        have := hprefix.length_le
        omega
      have hbehind (tag : ClassTag) (htag : IsClassTag html resultClass tag)
          (hat : size (before ++ ['>']) ≤ tag.classAt) :
          size (before ++ ['>']) ≤ tag.tagStart := htag.behind hend hat
      have hwhole : html = (before ++ ['>']) ++ after := by rw [hend, List.append_assoc]; rfl
      have hfewer : after.length < passes := by omega
      have hcursor : size front ≤ size (before ++ ['>']) :=
        size_le_of_shorter hhtml hwhole (Nat.le_trans (Nat.le_of_lt hless) hbody)
      dsimp only
      by_cases hkept : result.title ≠ [] ∧ result.url ≠ []
      · rw [if_pos hkept]
        have hroom : (results ++ [result]).length ≤ maxResults := by
          rw [List.length_append, List.length_singleton]
          omega
        obtain ⟨more, hrun, hlength, hfrom⟩ := ih hwhole hfewer hbehind (results ++ [result]) hroom
        have hnew : ResultFrom html (size front) result (size (before ++ ['>'])) :=
          (hresult hkept.2).mono (hbegin ▸ hstart)
        refine ⟨result :: more, ?_, ?_, .cons _ _ result more hnew hfrom⟩
        · rw [hrun, List.append_assoc, List.singleton_append]
        · rw [List.length_append, List.length_singleton] at hlength
          rw [List.length_cons]
          omega
      · rw [if_neg hkept]
        obtain ⟨more, hrun, hlength, hfrom⟩ := ih hwhole hfewer hbehind results hresults
        exact ⟨more, hrun, hlength, hfrom.mono hcursor⟩

/-- Every text gives its results, without a slice that panics and a search that goes on for ever. -/
theorem extractResults_eq (html : List Char) :
    ∃ results, extractResults html = some results ∧ results.length ≤ maxResults ∧ ResultsFrom html 0 results := by
  have hstart (tag : ClassTag) (_ : IsClassTag html resultClass tag) (_ : size [] ≤ tag.classAt) :
      size [] ≤ tag.tagStart := Nat.zero_le _
  obtain ⟨results, hrun, hlength, hfrom⟩ :=
    extractFrom_eq (Nat.lt_succ_self _) (List.nil_append html).symm (Nat.lt_succ_self _) hstart [] (Nat.zero_le _)
  rw [List.length_nil, Nat.zero_add] at hlength
  exact ⟨results, hrun, hlength, hfrom⟩

end Results

end Silo.Sandbox.Search
