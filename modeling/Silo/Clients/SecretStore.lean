import Mathlib.Data.List.AList
import Silo.Core.Conversation
import Silo.Lib.Machine

namespace Silo.Clients

open Silo.Lib Silo.Core

namespace JsonDocumentStore

/-- The text of a document, known by what `jsonDecode` makes of it: a map, or none when
the text is not a JSON object. -/
structure Text where
  decoded : Option (AList fun _ : String => Json)

abbrev Values := AList fun _ : String => String

/-- The value a stored document has for a key. -/
def valueAt (raw : Option Text) (key : String) : Option Json := (raw.bind Text.decoded).bind (·.lookup key)

def keepString (values : Values) (entry : Sigma fun _ : String => Json) : Values :=
  match entry.2.asStr with
  | some value => values.insert entry.1 value
  | none => values

/-- The map `_load` builds of a document; an unreadable one starts over empty. -/
def decodeValues (raw : Option Text) : Values :=
  match raw.bind Text.decoded with
  | none => ∅
  | some decoded => decoded.entries.foldl keepString ∅

/-- `jsonEncode` of `_values`. -/
def encodeValues : Option Values → Text
  | none => ⟨none⟩
  | some values => ⟨some ⟨values.entries.map fun e => ⟨e.1, .string e.2⟩, by
      simpa [List.NodupKeys, List.keys, Function.comp_def] using values.nodupKeys⟩⟩

inductive Call
  | read (key : String)
  | write (key value : String)
  | delete (key : String)
  deriving DecidableEq, Repr

def Call.changes (key : String) : Call → Bool
  | .read _ => false
  | .write k _ => decide (k = key)
  | .delete k => decide (k = key)

/-- How a call ended: a read with its value, a write or delete normally, or by throwing. -/
inductive Outcome
  | value (value : Option String)
  | done
  | thrown
  deriving DecidableEq, Repr

/-- A document write of a call that has not completed; `id` counts the writes in the
order they start. -/
structure DocumentWrite where
  id : Nat
  call : Nat
  text : Text

end JsonDocumentStore

open JsonDocumentStore in
/-- `heap` are the maps `_load` has built and `values` is the one `_values` refers to.
`loading` are the calls whose document read is under way, and `ready` those past `_load`,
each with the map it returned, in the order their continuations are queued. `landed` is
one more than the last started of the document writes that were stored. -/
structure JsonDocumentStore where
  document : Option Text
  heap : List Values
  values : Option Nat
  loadFailed : Bool
  calls : List Call
  reads : Nat
  loading : List Nat
  ready : List (Nat × Option Nat)
  begun : Nat
  pending : List DocumentWrite
  landed : Nat
  outcomes : List (Nat × Outcome)

namespace JsonDocumentStore

/-- `call` runs a call up to its first wait. `loaded` and `denied` end a call's document
read, `resume` runs the next call past `_load` on, and `wrote` and `failed` end a document
write. -/
inductive Act
  | call (call : Call)
  | loaded (n : Nat)
  | denied (n : Nat)
  | resume
  | wrote (id : Nat)
  | failed (id : Nat)

def start (document : Option Text) : JsonDocumentStore :=
  { document := document, heap := [], values := none, loadFailed := false, calls := [], reads := 0,
    loading := [], ready := [], begun := 0, pending := [], landed := 0, outcomes := [] }

variable (s : JsonDocumentStore)

def finish (n : Nat) (outcome : Outcome) : JsonDocumentStore := { s with outcomes := s.outcomes ++ [(n, outcome)] }

/-- The document is encoded from whatever `_values` refers to. -/
def persist (n : Nat) : JsonDocumentStore :=
  { s with
    begun := s.begun + 1
    pending := s.pending ++ [⟨s.begun, n, encodeValues (s.values.bind (s.heap[·]?))⟩] }

def put (ref : Nat) (values : Values) : JsonDocumentStore := { s with heap := s.heap.set ref values }

/-- The rest of call `n` after its `_load` has returned `loaded`. -/
def proceed (n : Nat) (loaded : Option Nat) : Call → JsonDocumentStore
  | .read key => s.finish n (.value ((loaded.bind (s.heap[·]?)).bind (·.lookup key)))
  | .write key value =>
    match loaded with
    | none => s.finish n .thrown
    | some ref =>
      let values := s.heap.getD ref ∅
      if values.lookup key = some value then s.finish n .done
      else (s.put ref (values.insert key value)).persist n
  | .delete key =>
    match loaded with
    | none => s.finish n .done
    | some ref =>
      let values := s.heap.getD ref ∅
      if key ∈ values then (s.put ref (values.erase key)).persist n
      else s.finish n .done

def next : Act → Option JsonDocumentStore
  | .call call =>
    let n := s.calls.length
    if s.values.isSome || s.loadFailed then
      some { s with calls := s.calls ++ [call], ready := s.ready ++ [(n, s.values)] }
    else some { s with calls := s.calls ++ [call], reads := s.reads + 1, loading := s.loading ++ [n] }
  | .loaded n =>
    if n ∈ s.loading then
      some { s with
        loading := s.loading.erase n
        heap := s.heap ++ [decodeValues s.document]
        values := some s.heap.length
        ready := s.ready ++ [(n, some s.heap.length)] }
    else none
  | .denied n =>
    if n ∈ s.loading then
      some { s with
        loading := s.loading.erase n
        loadFailed := true
        ready := s.ready ++ [(n, none)] }
    else none
  | .resume =>
    match s.ready with
    | [] => none
    | (n, loaded) :: rest => (s.calls[n]?).map ({ s with ready := rest }.proceed n loaded)
  | .wrote id =>
    (s.pending.find? (·.id = id)).map fun write =>
      { s with
        document := some write.text
        pending := s.pending.filter (·.id ≠ id)
        landed := max s.landed (id + 1) }.finish write.call .done
  | .failed id =>
    (s.pending.find? (·.id = id)).map fun write =>
      { s with pending := s.pending.filter (·.id ≠ id) }.finish write.call .thrown

def machine : Machine JsonDocumentStore Act := ⟨fun s => ∃ document, s = start document, next⟩

/-- Call `n` writes `value` for `key`, and no later call writes or deletes the key. -/
def Latest (n : Nat) (key value : String) : Prop :=
  s.calls[n]? = some (.write key value) ∧ ∀ m call, n < m → s.calls[m]? = some call → call.changes key = false

/-- The initial document is read at most once; the writes that returned are in the stored
document when no document write is under way, and so is all the initial document had and
no call has deleted. -/
structure LosesNothing (initial : Option Text) : Prop where
  once : s.reads ≤ 1
  written : ∀ n key value, s.Latest n key value → (n, .done) ∈ s.outcomes → s.pending = [] →
    valueAt s.document key = some (.string value)
  present : ∀ key value, valueAt initial key = some value → .delete key ∉ s.calls →
    (valueAt s.document key).isSome = true
  unchanged : ∀ key value, valueAt initial key = some value → .delete key ∉ s.calls →
    (∀ v, .write key v ∉ s.calls) → valueAt s.document key = some value

def cached : Option (String × String) :=
  match s.ready with
  | (n, some ref) :: _ =>
    match s.calls[n]? with
    | some (.write key value) => if (s.heap.getD ref ∅).lookup key = some value then some (key, value) else none
    | _ => none
  | _ => none

/-- No call is made during a document read; a document write is stored only when no later
one has been; and a write finds its value in the cache only when the stored document and
the document writes under way have it. -/
def orderly (s : JsonDocumentStore) : Act → Bool
  | .call _ => s.loading.isEmpty
  | .resume =>
    match s.cached with
    | some (key, value) =>
      (s.document :: s.pending.map fun write => some write.text).all fun raw =>
        (valueAt raw key).bind Json.asStr = some value
    | none => true
  | .wrote id => decide (s.landed ≤ id)
  | _ => true

end JsonDocumentStore

end Silo.Clients
