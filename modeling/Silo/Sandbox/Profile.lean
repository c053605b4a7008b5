import Mathlib.Data.Finset.Sort
import Mathlib.Data.String.Basic
import Silo.Lib.Except
import Silo.Lib.Sexp
import Silo.Lib.Utf8
import Silo.Shell.HostFs

namespace Silo.Sandbox

open Silo.Lib Silo.Shell

namespace Profile

def baselineReadSubpaths : List String :=
  ["/usr/lib", "/usr/share", "/usr/bin", "/bin", "/usr/sbin", "/sbin", "/System", "/Library/Preferences/Logging",
    "/private/etc", "/private/var/db/dyld", "/private/var/db/timezone"]

def baselineReadLiterals : List String :=
  ["/", "/dev/null", "/dev/zero", "/dev/random", "/dev/urandom", "/dev/dtracehelper"]

def machLookupNames : List String :=
  ["com.apple.system.opendirectoryd.libinfo", "com.apple.SystemConfiguration.configd",
    "com.apple.system.notification_center", "com.apple.logd", "com.apple.coreservices.launchservicesd"]

/-- Inputs for one profile, as the bytes of the paths. -/
structure ProfileSpec where
  workspace : OsBytes
  scratch : OsBytes
  readAllowlist : List OsBytes
  readFiles : List OsBytes

inductive ProfileError
  | notAbsolute (role : String) (path : OsBytes)
  | notUtf8 (path : OsBytes)
  | quoteOrNewline (text : String)
  deriving DecidableEq, Repr

def ofStr (text : String) : OsBytes := Utf8.encode text.toList

def toStr (path : OsBytes) : Option String := String.fromUTF8? path.toByteArray

def quoted (text : String) : String :=
  "\"" ++ String.ofList (text.toList.flatMap fun c => if c = '\\' then ['\\', '\\'] else [c]) ++ "\""

def sbplString (path : OsBytes) : Except ProfileError String :=
  match toStr path with
  | none => .error (.notUtf8 path)
  | some text =>
    if text.toList.contains '"' || text.toList.contains '\n' then .error (.quoteOrNewline text) else .ok (quoted text)

def requireAbsolute (role : String) (path : OsBytes) : Except ProfileError Unit :=
  if isAbsolute path then .ok () else .error (.notAbsolute role path)

/-- A sorted set, which the paths are inserted into in turn. -/
def insertAll (paths : List OsBytes) (set : Finset String) : Except ProfileError (Finset String) :=
  paths.foldlM (fun set path => (sbplString path).map (insert · set)) set

def literalLine (literal : String) : String := "  (literal " ++ literal ++ ")\n"

def subpathLine (subpath : String) : String := "  (subpath " ++ subpath ++ ")\n"

def globalNameLine (name : String) : String := "  (global-name \"" ++ name ++ "\")\n"

def render (workspace scratch : String) (literals subpaths : List String) : String :=
  String.join
    ["(version 1)\n",
      "(deny default)\n",
      "(allow process-fork)\n",
      "(allow process-exec*)\n",
      "(allow file-read-metadata)\n",
      "(allow sysctl-read)\n",
      "(allow signal (target same-sandbox))\n",
      "(allow file-read*\n" ++
        (String.join (literals.map literalLine) ++ String.join (subpaths.map subpathLine)) ++ ")\n",
      "(allow file-write*\n" ++ ("  (literal \"/dev/null\")\n" ++ subpathLine workspace ++ subpathLine scratch) ++ ")\n",
      "(allow file-write-data (literal \"/dev/dtracehelper\"))\n",
      "(allow file-read* file-write*\n" ++
        ("  (literal \"/dev/tty\")\n" ++ "  (regex #\"^/dev/ttys[0-9]\")\n") ++ ")\n",
      "(allow file-ioctl\n" ++ ("  (literal \"/dev/dtracehelper\")\n" ++ "  (regex #\"^/dev/tty\")\n") ++ ")\n",
      "(allow mach-lookup\n" ++ String.join (machLookupNames.map globalNameLine) ++ ")\n",
      "(allow network-outbound (remote ip \"localhost:*\"))\n",
      "(allow network-outbound (subpath " ++ scratch ++ "))\n",
      "(allow network-inbound (local ip \"localhost:*\"))\n",
      "(allow network-bind (local ip \"localhost:*\"))\n"]

def generate (spec : ProfileSpec) : Except ProfileError String := do
  requireAbsolute "workspace" spec.workspace
  requireAbsolute "scratch" spec.scratch
  forM spec.readAllowlist (requireAbsolute "read allowlist")
  forM spec.readFiles (requireAbsolute "read file")
  let workspace ← sbplString spec.workspace
  let scratch ← sbplString spec.scratch
  let readSubpaths ← insertAll (baselineReadSubpaths.map ofStr) ∅
  let readSubpaths ← insertAll spec.readAllowlist readSubpaths
  let readSubpaths := insert scratch (insert workspace readSubpaths)
  let readLiterals ← insertAll (baselineReadLiterals.map ofStr) ∅
  let readLiterals ← insertAll spec.readFiles readLiterals
  return render workspace scratch (readLiterals.sort (· ≤ ·)) (readSubpaths.sort (· ≤ ·))

def filter (kind path : String) : Sexp := .list [.atom kind, .text path]

def pattern (regex : String) : Sexp := .list [.atom "regex", .regex regex]

def address (side : String) : Sexp := .list [.atom side, .atom "ip", .text "localhost:*"]

/-- Operations that are allowed on what one of the filters describes, or without a filter
on everything. -/
structure Allow where
  operations : List String
  filters : List Sexp

def Allow.sexp (rule : Allow) : Sexp := .list (.atom "allow" :: (rule.operations.map Sexp.atom ++ rule.filters))

def allowed (workspace scratch : String) (literals subpaths : List String) : List Allow :=
  [⟨["process-fork"], []⟩,
    ⟨["process-exec*"], []⟩,
    ⟨["file-read-metadata"], []⟩,
    ⟨["sysctl-read"], []⟩,
    ⟨["signal"], [.list [.atom "target", .atom "same-sandbox"]]⟩,
    ⟨["file-read*"], literals.map (filter "literal") ++ subpaths.map (filter "subpath")⟩,
    ⟨["file-write*"], [filter "literal" "/dev/null", filter "subpath" workspace, filter "subpath" scratch]⟩,
    ⟨["file-write-data"], [filter "literal" "/dev/dtracehelper"]⟩,
    ⟨["file-read*", "file-write*"], [filter "literal" "/dev/tty", pattern "^/dev/ttys[0-9]"]⟩,
    ⟨["file-ioctl"], [filter "literal" "/dev/dtracehelper", pattern "^/dev/tty"]⟩,
    ⟨["mach-lookup"], machLookupNames.map (filter "global-name")⟩,
    ⟨["network-outbound"], [address "remote"]⟩,
    ⟨["network-outbound"], [filter "subpath" scratch]⟩,
    ⟨["network-inbound"], [address "local"]⟩,
    ⟨["network-bind"], [address "local"]⟩]

def rules (allowed : List Allow) : List Sexp :=
  .list [.atom "version", .atom "1"] :: .list [.atom "deny", .atom "default"] :: allowed.map Allow.sexp

def granted (name : String) (allowed : List Allow) : List Sexp :=
  (allowed.filter fun rule => rule.operations.any fun op => name.toList.isPrefixOf op.toList).flatMap Allow.filters

def isSubpath : Sexp → Bool
  | .list [.atom kind, .text _] => kind = "subpath"
  | _ => false

variable {text : String} {path : OsBytes} {paths : List OsBytes} {set : Finset String}

theorem toStr_eq_some : toStr path = some text ↔ path = ofStr text := by
  constructor
  · exact Utf8.encode_of_fromUTF8?
  · rintro rfl
    rw [toStr, ofStr, Utf8.fromUTF8?_encode, String.ofList_toList]

def Quotable (text : String) : Prop := '"' ∉ text.toList ∧ '\n' ∉ text.toList

theorem sbplString_eq_ok {q : String} :
    sbplString path = .ok q ↔ ∃ text, path = ofStr text ∧ Quotable text ∧ q = quoted text := by
  simp only [← toStr_eq_some, Quotable]
  rw [sbplString]
  cases toStr path with
  | none => simp
  | some text =>
      by_cases h : text.toList.contains '"' || text.toList.contains '\n'
      · simp only [h, if_true, reduceCtorEq, Option.some.injEq, false_iff]
        rintro ⟨text', rfl, ⟨hquote, hnewline⟩, -⟩
        simp [hquote, hnewline] at h
      · simp only [h, Bool.false_eq_true, if_false, Except.ok.injEq, Option.some.injEq]
        simp only [Bool.or_eq_true, List.contains_iff_mem, not_or] at h
        constructor
        · intro hq
          exact ⟨text, rfl, h, hq.symm⟩
        · rintro ⟨text', rfl, -, hq⟩
          exact hq.symm

theorem toList_quoted : (quoted text).toList = '"' :: Sexp.escape text.toList ++ ['"'] := by
  simp [quoted, Sexp.escape]

theorem reads_quoted (h : Quotable text) : Sexp.Reads (quoted text).toList [.text text] := by
  have hreads := Sexp.Reads.quoted h.1
  rwa [String.ofList_toList, ← toList_quoted] at hreads

def spelled (paths : List OsBytes) : Finset String := (paths.filterMap fun path => (sbplString path).toOption).toFinset

theorem mem_spelled {q : String} : q ∈ spelled paths ↔ ∃ path ∈ paths, sbplString path = .ok q := by
  rw [spelled, List.mem_toFinset, List.mem_filterMap]
  constructor
  · rintro ⟨path, hpath, hq⟩
    cases h : sbplString path with
    | error e => simp [h, Except.toOption] at hq
    | ok q' =>
        obtain rfl : q' = q := by simpa [h, Except.toOption] using hq
        exact ⟨path, hpath, h⟩
  · rintro ⟨path, hpath, hq⟩
    exact ⟨path, hpath, by rw [hq]; rfl⟩

def AllSpelled (paths : List OsBytes) : Prop := ∀ path ∈ paths, ∃ q, sbplString path = .ok q

theorem insertAll_cons : insertAll (path :: paths) set =
    match sbplString path with
    | .error e => .error e
    | .ok q => insertAll paths (insert q set) := by
  rw [insertAll, List.foldlM_cons]
  cases sbplString path <;> rfl

theorem insertAll_eq_ok {set' : Finset String} :
    insertAll paths set = .ok set' ↔ AllSpelled paths ∧ set' = set ∪ spelled paths := by
  induction paths generalizing set with
  | nil => simp [insertAll, AllSpelled, spelled, pure, Except.pure, eq_comm]
  | cons path paths ih =>
      rw [insertAll_cons]
      cases h : sbplString path with
      | error e => simp [AllSpelled, h]
      | ok q =>
          have hset : set ∪ spelled (path :: paths) = insert q set ∪ spelled paths := by
            ext q'
            simp only [Finset.mem_union, Finset.mem_insert, mem_spelled, List.mem_cons, or_and_right, exists_or,
              exists_eq_left, h, Except.ok.injEq]
            tauto
          have hall : AllSpelled (path :: paths) ↔ AllSpelled paths := by
            simp [AllSpelled, h]
          rw [hset, hall, ← ih]

theorem requireAbsolute_eq_ok {role : String} {u : PUnit} :
    requireAbsolute role path = .ok u ↔ isAbsolute path = true := by
  rw [requireAbsolute]
  split <;> simp [*]

theorem forM_eq_ok {role : String} {u : PUnit} :
    forM paths (requireAbsolute role) = .ok u ↔ ∀ path ∈ paths, isAbsolute path = true := by
  induction paths with
  | nil => simp [pure, Except.pure]
  | cons path paths ih =>
      rw [List.forM_cons, List.forall_mem_cons, ← ih, requireAbsolute]
      by_cases h : isAbsolute path = true <;> simp [h, bind, Except.bind]

theorem Quotable.literal {chars : List Char} (hs : text = String.ofList chars) (hquote : '"' ∉ chars)
    (hnewline : '\n' ∉ chars) : Quotable text := by
  rw [Quotable, hs, String.toList_ofList]
  exact ⟨hquote, hnewline⟩

theorem quotable_baseline : ∀ text ∈ baselineReadSubpaths ++ baselineReadLiterals, Quotable text := by
  simp only [baselineReadSubpaths, baselineReadLiterals, List.cons_append, List.nil_append, List.forall_mem_cons]
  refine ⟨?_, ?_, ?_, ?_, ?_, ?_, ?_, ?_, ?_, ?_, ?_, ?_, ?_, ?_, ?_, ?_, ?_, by simp⟩ <;>
    exact .literal rfl (by decide) (by decide)

theorem ofStr_injective {text' : String} (h : ofStr text = ofStr text') : text = text' := by
  simpa using congrArg String.ofList (Utf8.encode_injective h)

theorem sbplString_ofStr (h : Quotable text) : sbplString (ofStr text) = .ok (quoted text) :=
  sbplString_eq_ok.mpr ⟨text, rfl, h, rfl⟩

theorem allSpelled_map {texts : List String} (h : ∀ text ∈ texts, Quotable text) : AllSpelled (texts.map ofStr) := by
  intro path hpath
  obtain ⟨text, htext, rfl⟩ := List.mem_map.mp hpath
  exact ⟨quoted text, sbplString_ofStr (h text htext)⟩

theorem spelled_append {more : List OsBytes} : spelled paths ∪ spelled more = spelled (paths ++ more) := by
  ext q
  simp only [Finset.mem_union, mem_spelled, List.mem_append, or_and_right, exists_or]

def literalsOf (spec : ProfileSpec) : Finset String := spelled (baselineReadLiterals.map ofStr ++ spec.readFiles)

def subpathsOf (spec : ProfileSpec) : Finset String :=
  spelled (baselineReadSubpaths.map ofStr ++ spec.readAllowlist ++ [spec.workspace, spec.scratch])

def Accepted (spec : ProfileSpec) : Prop :=
  ∀ path ∈ spec.workspace :: spec.scratch :: (spec.readAllowlist ++ spec.readFiles),
    isAbsolute path = true ∧ ∃ q, sbplString path = .ok q

theorem generate_eq_ok {spec : ProfileSpec} :
    generate spec = .ok text ↔ Accepted spec ∧ ∃ workspace scratch, sbplString spec.workspace = .ok workspace ∧
      sbplString spec.scratch = .ok scratch ∧
      text = render workspace scratch ((literalsOf spec).sort (· ≤ ·)) ((subpathsOf spec).sort (· ≤ ·)) := by
  have hsubpaths : AllSpelled (baselineReadSubpaths.map ofStr) :=
    allSpelled_map fun text htext => quotable_baseline text (List.mem_append_left _ htext)
  have hliterals : AllSpelled (baselineReadLiterals.map ofStr) :=
    allSpelled_map fun text htext => quotable_baseline text (List.mem_append_right _ htext)
  have hset {workspace scratch : String} (hw : sbplString spec.workspace = .ok workspace)
      (hs : sbplString spec.scratch = .ok scratch) :
      insert scratch (insert workspace (∅ ∪ spelled (baselineReadSubpaths.map ofStr) ∪ spelled spec.readAllowlist)) =
        subpathsOf spec := by
    ext q
    simp only [subpathsOf, Finset.empty_union, Finset.mem_insert, Finset.mem_union, mem_spelled, List.mem_append,
      List.mem_cons, List.not_mem_nil, or_false, or_and_right, exists_or, exists_eq_left, hw, hs, Except.ok.injEq,
      @eq_comm _ q]
    grind
  have hunion : ∅ ∪ spelled (baselineReadLiterals.map ofStr) ∪ spelled spec.readFiles = literalsOf spec := by
    rw [Finset.empty_union, spelled_append, literalsOf]
  simp only [generate, bind_eq_ok, requireAbsolute_eq_ok, forM_eq_ok, insertAll_eq_ok, pure, Except.pure, Except.ok.injEq,
    exists_const, exists_and_left]
  constructor
  · rintro ⟨hworkspace, hscratch, hallowlist, hfiles, w, hw, c, hc, -, ⟨-, rfl⟩, -, ⟨ha, rfl⟩, -, ⟨-, rfl⟩, -,
      ⟨hf, rfl⟩, rfl⟩
    refine ⟨?_, w, hw, c, hc, by rw [hset hw hc, hunion]⟩
    simp only [Accepted, List.forall_mem_cons, List.forall_mem_append]
    exact ⟨⟨hworkspace, w, hw⟩, ⟨hscratch, c, hc⟩, fun path hpath => ⟨hallowlist path hpath, ha path hpath⟩,
      fun path hpath => ⟨hfiles path hpath, hf path hpath⟩⟩
  · rintro ⟨haccepted, w, hw, c, hc, rfl⟩
    simp only [Accepted, List.forall_mem_cons, List.forall_mem_append] at haccepted
    obtain ⟨⟨hworkspace, -⟩, ⟨hscratch, -⟩, hallowlist, hfiles⟩ := haccepted
    refine ⟨hworkspace, hscratch, fun path hpath => (hallowlist path hpath).1, fun path hpath => (hfiles path hpath).1,
      w, hw, c, hc, _, ⟨hsubpaths, rfl⟩, _, ⟨fun path hpath => (hallowlist path hpath).2, rfl⟩, _, ⟨hliterals, rfl⟩, _,
      ⟨fun path hpath => (hfiles path hpath).2, rfl⟩, ?_⟩
    rw [hset hw hc, hunion]

section Read

open Sexp Sexp.Reader

variable {workspace scratch : String} {literals subpaths : List String} {s t q kind : String} {items more : List Sexp}

theorem reads_append (hs : Reads s.toList items) (ht : Reads t.toList more) : Reads (s ++ t).toList (items ++ more) := by
  rw [String.toList_append]
  exact hs.append ht

theorem reads_join {α : Type} {xs : List α} {f : α → String} {g : α → Sexp} (h : ∀ x ∈ xs, Reads (f x).toList [g x]) :
    Reads (String.join (xs.map f)).toList (xs.map g) := by
  rw [String.toList_join, List.flatMap_map]
  exact Reads.flatMap h

theorem reads_pieces {pieces : List String} (h : List.Forall₂ (fun s x => Reads s.toList [x]) pieces items) :
    Reads (String.join pieces).toList items := by
  induction h with
  | nil => exact .nil
  | cons hs _ ih =>
      rw [String.join_cons]
      exact reads_append hs ih

theorem reads_list (hs : Opens s.toList items) (hq : Reads q.toList more) (ht : Closes t.toList) :
    Reads (s ++ q ++ t).toList [.list (items ++ more)] := by
  rw [String.toList_append, String.toList_append]
  exact (hs.append hq).close ht

theorem closes_line : Closes ")\n".toList := .literal rfl fun _ _ _ => rfl

theorem reads_literalLine (hq : Reads q.toList [.text text]) : Reads (literalLine q).toList [filter "literal" text] := by
  have hopen : Opens "  (literal ".toList [.atom "literal"] := .literal rfl fun _ _ => rfl
  exact reads_list hopen hq closes_line

theorem reads_subpathLine (hq : Reads q.toList [.text text]) : Reads (subpathLine q).toList [filter "subpath" text] := by
  have hopen : Opens "  (subpath ".toList [.atom "subpath"] := .literal rfl fun _ _ => rfl
  exact reads_list hopen hq closes_line

theorem reads_globalNameLine {chars : List Char} (hquote : '"' ∉ chars) (hslash : '\\' ∉ chars) :
    Reads (globalNameLine (String.ofList chars)).toList [filter "global-name" (String.ofList chars)] := by
  have hescape : escape chars = chars := by
    have hsame (c : Char) (hc : c ∈ chars) : (if c = '\\' then ['\\', '\\'] else [c]) = [c] := by
      rw [if_neg]
      rintro rfl
      exact hslash hc
    rw [escape, List.flatMap_congr hsame, List.flatMap_singleton']
  intro before outer
  have hopen : run ⟨.blank, before, outer⟩ "  (global-name \"".toList =
      some ⟨.quoted false [], [.atom "global-name"], before :: outer⟩ := by
    rw [run_literal rfl]
    rfl
  have hname : run ⟨.quoted false [], [.atom "global-name"], before :: outer⟩ (String.ofList chars).toList =
      some ⟨.quoted false chars, [.atom "global-name"], before :: outer⟩ := by
    rw [run_literal rfl]
    have hrun := run_escape hquote [] [.atom "global-name"] (before :: outer)
    rwa [hescape, List.nil_append] at hrun
  have hclose : run ⟨.quoted false chars, [.atom "global-name"], before :: outer⟩ "\")\n".toList =
      some ⟨.blank, before ++ [filter "global-name" (String.ofList chars)], outer⟩ := by
    rw [run_literal rfl]
    rfl
  exact run_concat (run_concat hopen hname) hclose

theorem reads_names : Reads (String.join (machLookupNames.map globalNameLine)).toList
    (machLookupNames.map (filter "global-name")) := by
  apply reads_join
  have hname {name : String} {chars : List Char} (hs : name = String.ofList chars) (hquote : '"' ∉ chars)
      (hslash : '\\' ∉ chars) : Reads (globalNameLine name).toList [filter "global-name" name] := by
    rw [hs]
    exact reads_globalNameLine hquote hslash
  simp only [machLookupNames, List.forall_mem_cons]
  refine ⟨?_, ?_, ?_, ?_, ?_, by simp⟩ <;> exact hname rfl (by decide) (by decide)

theorem reads_render (hworkspace : Quotable workspace) (hscratch : Quotable scratch)
    (hliterals : ∀ text ∈ literals, Quotable text) (hsubpaths : ∀ text ∈ subpaths, Quotable text) :
    Reads (render (quoted workspace) (quoted scratch) (literals.map quoted) (subpaths.map quoted)).toList
      (rules (allowed workspace scratch literals subpaths)) := by
  have hread : Reads (String.join ((literals.map quoted).map literalLine) ++
      String.join ((subpaths.map quoted).map subpathLine)).toList
      (literals.map (filter "literal") ++ subpaths.map (filter "subpath")) := by
    rw [List.map_map, List.map_map]
    apply reads_append
    · exact reads_join fun text htext => reads_literalLine (reads_quoted (hliterals text htext))
    · exact reads_join fun text htext => reads_subpathLine (reads_quoted (hsubpaths text htext))
  have hnull : Reads "  (literal \"/dev/null\")\n".toList [filter "literal" "/dev/null"] := .literal rfl fun _ _ => rfl
  have htty : Reads "  (literal \"/dev/tty\")\n".toList [filter "literal" "/dev/tty"] := .literal rfl fun _ _ => rfl
  have hhelper : Reads "  (literal \"/dev/dtracehelper\")\n".toList [filter "literal" "/dev/dtracehelper"] :=
    .literal rfl fun _ _ => rfl
  have hterminals : Reads "  (regex #\"^/dev/ttys[0-9]\")\n".toList [pattern "^/dev/ttys[0-9]"] :=
    .literal rfl fun _ _ => rfl
  have hterminal : Reads "  (regex #\"^/dev/tty\")\n".toList [pattern "^/dev/tty"] := .literal rfl fun _ _ => rfl
  have hwrite : Reads ("  (literal \"/dev/null\")\n" ++ subpathLine (quoted workspace) ++
      subpathLine (quoted scratch)).toList
      [filter "literal" "/dev/null", filter "subpath" workspace, filter "subpath" scratch] :=
    reads_append (reads_append hnull (reads_subpathLine (reads_quoted hworkspace)))
      (reads_subpathLine (reads_quoted hscratch))
  have hsocket : Reads ("(allow network-outbound (subpath " ++ quoted scratch ++ "))\n").toList
      [(Allow.mk ["network-outbound"] [filter "subpath" scratch]).sexp] := by
    intro before outer
    have hopen : run ⟨.blank, before, outer⟩ "(allow network-outbound (subpath ".toList =
        some ⟨.blank, [.atom "subpath"], [.atom "allow", .atom "network-outbound"] :: before :: outer⟩ := by
      rw [run_literal rfl]
      rfl
    have hclose : run ⟨.blank, [.atom "subpath", .text scratch], [.atom "allow", .atom "network-outbound"] :: before :: outer⟩
        "))\n".toList =
        some ⟨.blank, before ++ [(Allow.mk ["network-outbound"] [filter "subpath" scratch]).sexp], outer⟩ := by
      rw [run_literal rfl]
      rfl
    exact run_concat (run_concat hopen (reads_quoted hscratch [.atom "subpath"] _)) hclose
  apply reads_pieces
  refine .cons ?_ <| .cons ?_ <| .cons ?_ <| .cons ?_ <| .cons ?_ <| .cons ?_ <| .cons ?_ <| .cons ?_ <| .cons ?_ <|
    .cons ?_ <| .cons ?_ <| .cons ?_ <| .cons ?_ <| .cons ?_ <| .cons ?_ <| .cons ?_ <| .cons ?_ .nil
  · exact .literal rfl fun _ _ => rfl
  · exact .literal rfl fun _ _ => rfl
  · exact .literal rfl fun _ _ => rfl
  · exact .literal rfl fun _ _ => rfl
  · exact .literal rfl fun _ _ => rfl
  · exact .literal rfl fun _ _ => rfl
  · exact .literal rfl fun _ _ => rfl
  · have hopen : Opens "(allow file-read*\n".toList [.atom "allow", .atom "file-read*"] := .literal rfl fun _ _ => rfl
    exact reads_list hopen hread closes_line
  · have hopen : Opens "(allow file-write*\n".toList [.atom "allow", .atom "file-write*"] := .literal rfl fun _ _ => rfl
    exact reads_list hopen hwrite closes_line
  · exact .literal rfl fun _ _ => rfl
  · have hopen : Opens "(allow file-read* file-write*\n".toList
        [.atom "allow", .atom "file-read*", .atom "file-write*"] := .literal rfl fun _ _ => rfl
    exact reads_list hopen (reads_append htty hterminals) closes_line
  · have hopen : Opens "(allow file-ioctl\n".toList [.atom "allow", .atom "file-ioctl"] := .literal rfl fun _ _ => rfl
    exact reads_list hopen (reads_append hhelper hterminal) closes_line
  · have hopen : Opens "(allow mach-lookup\n".toList [.atom "allow", .atom "mach-lookup"] := .literal rfl fun _ _ => rfl
    exact reads_list hopen reads_names closes_line
  · exact .literal rfl fun _ _ => rfl
  · exact hsocket
  · exact .literal rfl fun _ _ => rfl
  · exact .literal rfl fun _ _ => rfl

end Read

variable {workspace scratch : String} {literals subpaths : List String}

/-- What the text of a profile means for the paths of its spec. -/
structure Means (spec : ProfileSpec) (text workspace scratch : String) (literals subpaths : List String) : Prop where
  reads : Sexp.read text.toList = some (rules (allowed workspace scratch literals subpaths))
  ofWorkspace : spec.workspace = ofStr workspace
  ofScratch : spec.scratch = ofStr scratch
  mem_literals : ∀ p, p ∈ literals ↔ p ∈ baselineReadLiterals ∨ ofStr p ∈ spec.readFiles
  mem_subpaths : ∀ p, p ∈ subpaths ↔
    p ∈ baselineReadSubpaths ∨ ofStr p ∈ spec.readAllowlist ∨ p = workspace ∨ p = scratch
  nodup : literals.Nodup ∧ subpaths.Nodup
  writes : granted "file-write" (allowed workspace scratch literals subpaths) =
    [filter "literal" "/dev/null", filter "subpath" workspace, filter "subpath" scratch,
      filter "literal" "/dev/dtracehelper", filter "literal" "/dev/tty", pattern "^/dev/ttys[0-9]"]
  readable : (granted "file-read" (allowed workspace scratch literals subpaths)).filter isSubpath =
    subpaths.map (filter "subpath")

theorem begins_literal {s t : String} {a b : List Char} (hs : s = String.ofList a) (ht : t = String.ofList b) :
    s.toList.isPrefixOf t.toList = a.isPrefixOf b := by
  rw [hs, ht, String.toList_ofList, String.toList_ofList]

theorem granted_writes : granted "file-write" (allowed workspace scratch literals subpaths) =
    [filter "literal" "/dev/null", filter "subpath" workspace, filter "subpath" scratch,
      filter "literal" "/dev/dtracehelper", filter "literal" "/dev/tty", pattern "^/dev/ttys[0-9]"] := by
  simp only [granted, allowed, List.filter_cons, List.any_cons, List.any_nil, begins_literal rfl rfl]
  rfl

theorem isSubpath_filter {kind path : String} : isSubpath (filter kind path) = decide (kind = "subpath") := rfl

theorem granted_reads : (granted "file-read" (allowed workspace scratch literals subpaths)).filter isSubpath =
    subpaths.map (filter "subpath") := by
  have hgranted : granted "file-read" (allowed workspace scratch literals subpaths) =
      (literals.map (filter "literal") ++ subpaths.map (filter "subpath")) ++
        [filter "literal" "/dev/tty", pattern "^/dev/ttys[0-9]"] := by
    simp only [granted, allowed, List.filter_cons, List.any_cons, List.any_nil, begins_literal rfl rfl]
    rfl
  have hliterals : (literals.map (filter "literal")).filter isSubpath = [] := by
    rw [List.filter_eq_nil_iff]
    simp [isSubpath_filter]
  have hsubpaths : (subpaths.map (filter "subpath")).filter isSubpath = subpaths.map (filter "subpath") := by
    rw [List.filter_eq_self]
    simp [isSubpath_filter]
  rw [hgranted, List.filter_append, List.filter_append, hliterals, hsubpaths, List.nil_append]
  exact List.append_nil _

theorem exists_texts {quoteds : List String} (h : ∀ q ∈ quoteds, ∃ text, Quotable text ∧ q = quoted text) :
    ∃ texts : List String, quoteds = texts.map quoted ∧ ∀ text ∈ texts, Quotable text := by
  induction quoteds with
  | nil => exact ⟨[], rfl, by simp⟩
  | cons q quoteds ih =>
      obtain ⟨text, htext, rfl⟩ := h q (by simp)
      obtain ⟨texts, rfl, htexts⟩ := ih fun q hq => h q (by simp [hq])
      exact ⟨text :: texts, rfl, by simpa using ⟨htext, htexts⟩⟩

theorem quoted_injective {text' : String} (htext : Quotable text) (htext' : Quotable text')
    (h : quoted text = quoted text') : text = text' := by
  have hlists := congrArg String.toList h
  rw [toList_quoted, toList_quoted] at hlists
  simp only [List.cons_append, List.cons.injEq, true_and, List.append_cancel_right_eq] at hlists
  have := Sexp.escape_injective hlists htext.1 htext'.1
  simpa using congrArg String.ofList this

theorem texts_spec {paths : List OsBytes} : ∃ texts : List String,
    (spelled paths).sort (· ≤ ·) = texts.map quoted ∧ texts.Nodup ∧ (∀ text ∈ texts, Quotable text) ∧
      ∀ text, text ∈ texts ↔ ofStr text ∈ paths ∧ Quotable text := by
  have hspells : ∀ q ∈ (spelled paths).sort (· ≤ ·), ∃ text, Quotable text ∧ q = quoted text := by
    intro q hq
    obtain ⟨path, hpath, hspell⟩ := mem_spelled.mp (Finset.mem_sort (· ≤ ·) |>.mp hq)
    obtain ⟨text, rfl, htext, rfl⟩ := sbplString_eq_ok.mp hspell
    exact ⟨text, htext, rfl⟩
  obtain ⟨texts, hsort, htexts⟩ := exists_texts hspells
  refine ⟨texts, hsort, ?_, htexts, ?_⟩
  · have hnodup := (spelled paths).sort_nodup (· ≤ ·)
    rw [hsort] at hnodup
    exact hnodup.of_map
  · intro text
    constructor
    · intro htext
      have hmem : quoted text ∈ spelled paths := by
        rw [← Finset.mem_sort (· ≤ ·), hsort]
        exact List.mem_map_of_mem htext
      obtain ⟨path, hpath, hspell⟩ := mem_spelled.mp hmem
      obtain ⟨text', rfl, htext', heq⟩ := sbplString_eq_ok.mp hspell
      obtain rfl := quoted_injective (htexts text htext) htext' heq
      exact ⟨hpath, htext'⟩
    · rintro ⟨hpath, htext⟩
      have hmem : quoted text ∈ spelled paths := mem_spelled.mpr ⟨ofStr text, hpath, sbplString_ofStr htext⟩
      rw [← Finset.mem_sort (· ≤ ·), hsort] at hmem
      obtain ⟨text', htext', heq⟩ := List.mem_map.mp hmem
      obtain rfl := quoted_injective (htexts text' htext') htext heq
      exact htext'

theorem means_of_generate {spec : ProfileSpec} (h : generate spec = .ok text) :
    ∃ workspace scratch literals subpaths, Means spec text workspace scratch literals subpaths := by
  obtain ⟨haccepted, q, q', hq, hq', rfl⟩ := generate_eq_ok.mp h
  obtain ⟨workspace, hworkspace, hquotable, rfl⟩ := sbplString_eq_ok.mp hq
  obtain ⟨scratch, hscratch, hquotable', rfl⟩ := sbplString_eq_ok.mp hq'
  obtain ⟨literals, hliterals, hnodup, hquoted, hmem⟩ :=
    @texts_spec (baselineReadLiterals.map ofStr ++ spec.readFiles)
  obtain ⟨subpaths, hsubpaths, hnodup', hquoted', hmem'⟩ :=
    @texts_spec (baselineReadSubpaths.map ofStr ++ spec.readAllowlist ++ [spec.workspace, spec.scratch])
  have hspelled {path : OsBytes} {p : String} (hpath : path ∈ spec.readAllowlist ++ spec.readFiles)
      (heq : path = ofStr p) : Quotable p := by
    obtain ⟨-, q, hspell⟩ := haccepted path (by simp only [List.mem_cons]; exact .inr (.inr hpath))
    obtain ⟨p', rfl, hp, -⟩ := sbplString_eq_ok.mp hspell
    obtain rfl := ofStr_injective heq
    exact hp
  have hmap {p : String} {texts : List String} : ofStr p ∈ texts.map ofStr ↔ p ∈ texts := by
    constructor
    · intro hp
      obtain ⟨p', hp', heq⟩ := List.mem_map.mp hp
      rwa [← ofStr_injective heq]
    · exact List.mem_map_of_mem
  refine ⟨workspace, scratch, literals, subpaths, ?_, hworkspace, hscratch, ?_, ?_, ⟨hnodup, hnodup'⟩, granted_writes,
    granted_reads⟩
  · rw [literalsOf, subpathsOf, hliterals, hsubpaths]
    exact (reads_render hquotable hquotable' hquoted hquoted').read
  · intro p
    rw [hmem, List.mem_append, hmap]
    constructor
    · exact And.left
    · rintro (hp | hp)
      · exact ⟨.inl hp, quotable_baseline p (List.mem_append_right _ hp)⟩
      · exact ⟨.inr hp, hspelled (List.mem_append_right _ hp) rfl⟩
  · intro p
    rw [hmem', List.mem_append, List.mem_append, hmap, hworkspace, hscratch]
    simp only [List.mem_cons, List.not_mem_nil, or_false]
    constructor
    · rintro ⟨(hp | hp) | hp | hp, -⟩
      · exact .inl hp
      · exact .inr (.inl hp)
      · exact .inr (.inr (.inl (ofStr_injective hp)))
      · exact .inr (.inr (.inr (ofStr_injective hp)))
    · rintro (hp | hp | rfl | rfl)
      · exact ⟨.inl (.inl hp), quotable_baseline p (List.mem_append_left _ hp)⟩
      · exact ⟨.inl (.inr hp), hspelled (List.mem_append_left _ hp) rfl⟩
      · exact ⟨.inr (.inl rfl), hquotable⟩
      · exact ⟨.inr (.inr rfl), hquotable'⟩

theorem generate_congr {spec : ProfileSpec} {allowlist : List OsBytes}
    (hsame : ∀ path, path ∈ allowlist ↔ path ∈ spec.readAllowlist) (h : generate spec = .ok text) :
    generate { spec with readAllowlist := allowlist } = .ok text := by
  obtain ⟨haccepted, workspace, scratch, hworkspace, hscratch, rfl⟩ := generate_eq_ok.mp h
  have hsubpaths : subpathsOf { spec with readAllowlist := allowlist } = subpathsOf spec := by
    ext q
    simp only [subpathsOf, mem_spelled, List.mem_append, hsame]
  refine generate_eq_ok.mpr ⟨?_, workspace, scratch, hworkspace, hscratch, by rw [hsubpaths]; rfl⟩
  intro path hpath
  apply haccepted
  simpa only [List.mem_cons, List.mem_append, hsame] using hpath

theorem profile_says_spec {spec : ProfileSpec} (h : generate spec = .ok text) :
    (∃ workspace scratch literals subpaths, Means spec text workspace scratch literals subpaths) ∧
      ∀ allowlist, (∀ path, path ∈ allowlist ↔ path ∈ spec.readAllowlist) →
        generate { spec with readAllowlist := allowlist } = .ok text :=
  ⟨means_of_generate h, fun _ hsame => generate_congr hsame h⟩

/-- An allowlist entry whose text ends in backslashes after a bracket. -/
def backslashSpec : ProfileSpec := ⟨ofStr "/ws", ofStr "/scratch", [ofStr "/o(\\\\"], []⟩

theorem profile_says_spec_backslashes : ∃ text, generate backslashSpec = .ok text ∧
    (∃ workspace scratch literals subpaths, Means backslashSpec text workspace scratch literals subpaths) ∧
      ∀ allowlist, (∀ path, path ∈ allowlist ↔ path ∈ backslashSpec.readAllowlist) →
        generate { backslashSpec with readAllowlist := allowlist } = .ok text := by
  have hpath {s : String} {chars : List Char} (hs : s = String.ofList ('/' :: chars)) (hquote : '"' ∉ '/' :: chars)
      (hnewline : '\n' ∉ '/' :: chars) : isAbsolute (ofStr s) = true ∧ ∃ q, sbplString (ofStr s) = .ok q := by
    refine ⟨?_, quoted s, sbplString_ofStr (.literal hs hquote hnewline)⟩
    rw [ofStr, hs, String.toList_ofList]
    rfl
  have hworkspace := hpath (s := "/ws") rfl (by decide) (by decide)
  have hscratch := hpath (s := "/scratch") rfl (by decide) (by decide)
  have hentry := hpath (s := "/o(\\\\") rfl (by decide) (by decide)
  obtain ⟨workspace, hw⟩ := hworkspace.2
  obtain ⟨scratch, hs⟩ := hscratch.2
  have haccepted : Accepted backslashSpec := by
    simp only [Accepted, backslashSpec, List.append_nil, List.forall_mem_cons]
    exact ⟨hworkspace, hscratch, hentry, by simp⟩
  have h := generate_eq_ok.mpr ⟨haccepted, workspace, scratch, hw, hs, rfl⟩
  exact ⟨_, h, profile_says_spec h⟩

end Profile

end Silo.Sandbox
