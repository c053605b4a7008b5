import Mathlib.Data.List.Basic
import Silo.Lib.Machine

namespace Silo.Clients

open Silo.Lib

structure HarnessEndpoint where
  id : String
  name : String
  url : String
  harnessId : Option String
  deriving DecidableEq, Repr

namespace HarnessEndpoint

variable (e : HarnessEndpoint)

def tokenKey : String := "silo/" ++ e.id ++ "/token"

def keySeedKey : String := "silo/" ++ e.id ++ "/key_seed"

def keyIdKey : String := "silo/" ++ e.id ++ "/key_id"

def fingerprintKey : String := "silo/" ++ e.id ++ "/fingerprint"

/-- What the user configured, that is all but the id learned from the harness. -/
def core : String × String × String := (e.id, e.name, e.url)

end HarnessEndpoint

namespace HarnessRegistry

inductive KeyStore
  | secrets
  | settings
  deriving DecidableEq, Repr

instance : LawfulBEq (KeyStore × String) := inferInstance

def registryKey : String := "silo/registry"

def sameHarness (a b : HarnessEndpoint) : Bool :=
  (a.harnessId.isSome && decide (a.harnessId = b.harnessId)) || decide (a.url = b.url)

/-- An operation that a call awaits. A failed one ends the call if it is not `tried`.
`delete` names the endpoint whose values are dropped. -/
inductive Operation
  | write (store : KeyStore) (key : String) (tried : Bool)
  | delete (store : KeyStore) (key : String) (endpoint : HarnessEndpoint)
  | disconnect
  deriving DecidableEq, Repr

def persistOps : List Operation := [.write .settings registryKey true]

def dropEndpointValues (e : HarnessEndpoint) : List Operation :=
  [.delete .secrets e.tokenKey e, .delete .secrets e.keySeedKey e, .delete .settings e.keyIdKey e,
    .delete .settings e.fingerprintKey e]

/-- The loop of `_dedupeEndpoints`: the length and position of the list's iterator, the
entries kept, and the losers, each with its winner. -/
structure Scan where
  length : Nat
  index : Nat
  kept : List HarnessEndpoint
  removed : List (HarnessEndpoint × HarnessEndpoint)
  deriving DecidableEq, Repr

/-- The winner takes the place of the earlier entry, with the harness id of the loser if
it has none. -/
def Scan.settle (scan : Scan) (position : Nat) (winner loser : HarnessEndpoint) : Scan :=
  let winner := if winner.harnessId.isNone then { winner with harnessId := loser.harnessId } else winner
  { scan with kept := scan.kept.set position winner, removed := scan.removed ++ [(loser, winner)] }

/-- The four reads of the two calls of `_hasCredentials`. -/
inductive Reading
  | earlierToken
  | earlierSeed
  | endpointToken
  | endpointSeed
  deriving DecidableEq, Repr

/-- A call between two of its awaits: a deduplication that reads the credentials of
`kept[at]` and `endpoint`, or what is left of a call when the list is no longer touched. -/
inductive Task
  | reading (scan : Scan) (position : Nat) (endpoint : HarnessEndpoint) (read : Reading) (after : List Operation)
  | awaiting (todo : List Operation)
  | failed
  deriving DecidableEq, Repr

def Task.scanning : Task → Bool
  | .reading .. => true
  | _ => false

end HarnessRegistry

open HarnessRegistry in
/-- `stored` are the keys with a value. The rest is kept for the statements: `ids` are the
ids in use since the start, `configured` the endpoints as the calls last left them, `taken`
the ids that `remove` took out, `collapsed` the losers of deduplications with their
winners, and `dropped` the endpoints whose values were deleted with the list at the time. -/
structure HarnessRegistry where
  endpoints : List HarnessEndpoint
  stored : List (KeyStore × String)
  tasks : List Task
  ids : List String
  configured : List HarnessEndpoint
  taken : List String
  collapsed : List (HarnessEndpoint × HarnessEndpoint)
  dropped : List (HarnessEndpoint × List HarnessEndpoint)

namespace HarnessRegistry

variable (s : HarnessRegistry)

/-- The loop of `_dedupeEndpoints` up to its next await, or to its end. -/
def sweep (scan : Scan) : List HarnessEndpoint → Scan × Option (Nat × HarnessEndpoint)
  | [] => (scan, none)
  | endpoint :: rest =>
    match scan.kept.findIdx? (sameHarness · endpoint) with
    | none => sweep { scan with index := scan.index + 1, kept := scan.kept ++ [endpoint] } rest
    | some position => ({ scan with index := scan.index + 1 }, some (position, endpoint))

/-- `_dedupeEndpoints` from the head of its loop, where the iterator fails if the list has
another length than when it was made. `after` is what its caller awaits next. -/
def dedupeFrom (scan : Scan) (after : List Operation) : HarnessRegistry × Task :=
  if scan.length ≠ s.endpoints.length then (s, .failed)
  else
    match sweep scan (s.endpoints.drop scan.index) with
    | (scan, some (position, endpoint)) => (s, .reading scan position endpoint .earlierToken after)
    | (scan, none) =>
      if scan.removed.isEmpty then (s, .awaiting after)
      else
        ({ s with endpoints := scan.kept, collapsed := s.collapsed ++ scan.removed },
          .awaiting (scan.removed.flatMap (fun pair => dropEndpointValues pair.1) ++ persistOps ++ after))

def dedupeEndpoints (after : List Operation) : HarnessRegistry × Task :=
  s.dedupeFrom ⟨s.endpoints.length, 0, [], []⟩ after

def begin (task : Task) : HarnessRegistry := { s with tasks := s.tasks ++ [task] }

def setTask (n : Nat) (task : Task) : HarnessRegistry := { s with tasks := s.tasks.set n task }

/-- `_upsert`, with the id that `_newId` gives if it is asked. -/
def upsert (name url : String) (harnessId : Option String) (newId : String) : HarnessRegistry × HarnessEndpoint :=
  match s.endpoints.findIdx? fun e => (harnessId.isSome && decide (e.harnessId = harnessId)) || decide (e.url = url) with
  | none =>
    let endpoint : HarnessEndpoint := ⟨newId, name, url, harnessId⟩
    ({ s with endpoints := s.endpoints ++ [endpoint], ids := newId :: s.ids,
              configured := s.configured ++ [endpoint] }, endpoint)
  | some index =>
    let old := s.endpoints.getD index ⟨newId, name, url, harnessId⟩
    let updated := { old with name := name, url := url, harnessId := harnessId.or old.harnessId }
    ({ s with endpoints := s.endpoints.set index updated,
              configured := s.configured.filter (·.id ≠ updated.id) ++ [updated] }, updated)

/-- The calls, and `proceed`, the end of what task `n` awaits, with or without an error.
`note` is `_noteHarnessId` for a connection that knows the harness id. -/
inductive Act
  | addLocal (name url : String) (harnessId : Option String) (newId : String)
  | addPaired (name url : String) (fingerprint : Bool) (newId : String)
  | remove (endpointId : String)
  | note (endpointId harnessId : String)
  | proceed (n : Nat) (ok : Bool)

/-- A read of the credentials ends; `_tryRead` takes a failure as an absent value. -/
def readCredentials (n : Nat) (scan : Scan) (position : Nat) (endpoint : HarnessEndpoint) (after : List Operation)
    (ok : Bool) (read : Reading) : HarnessRegistry :=
  let earlier := scan.kept.getD position endpoint
  let key :=
    match read with
    | .earlierToken => earlier.tokenKey
    | .earlierSeed => earlier.keySeedKey
    | .endpointToken => endpoint.tokenKey
    | .endpointSeed => endpoint.keySeedKey
  let ask (read : Reading) := s.setTask n (.reading scan position endpoint read after)
  let settle (winner loser : HarnessEndpoint) :=
    let (s, task) := s.dedupeFrom (scan.settle position winner loser) after
    s.setTask n task
  match read, ok && decide ((.secrets, key) ∈ s.stored) with
  | .earlierToken, true => ask .endpointToken
  | .earlierToken, false => ask .earlierSeed
  | .earlierSeed, true => ask .endpointToken
  | .earlierSeed, false => settle endpoint earlier
  | .endpointToken, true => settle endpoint earlier
  | .endpointToken, false => ask .endpointSeed
  | .endpointSeed, true => settle endpoint earlier
  | .endpointSeed, false => settle earlier endpoint

def perform (n : Nat) (todo : List Operation) (ok : Bool) : Operation → HarnessRegistry
  | .write store key tried =>
    if ok then { s with stored := (store, key) :: s.stored }.setTask n (.awaiting todo)
    else s.setTask n (.awaiting (if tried then todo else []))
  | .delete store key endpoint =>
    if ok then
      { s with stored := s.stored.filter (· ≠ (store, key)),
               dropped := s.dropped ++ [(endpoint, s.endpoints)] }.setTask n (.awaiting todo)
    else s.setTask n (.awaiting todo)
  | .disconnect => s.setTask n (.awaiting todo)

def next : Act → Option HarnessRegistry
  | .addLocal name url harnessId newId =>
    if newId ∈ s.ids then none
    else
      let (s, endpoint) := s.upsert name url harnessId newId
      some (s.begin (.awaiting ([.write .secrets endpoint.tokenKey false,
        .write .settings endpoint.fingerprintKey true] ++ persistOps)))
  | .addPaired name url fingerprint newId =>
    if newId ∈ s.ids then none
    else
      let (s, endpoint) := s.upsert name url none newId
      some (s.begin (.awaiting
        ((if fingerprint then [.write .settings endpoint.fingerprintKey true] else []) ++ persistOps)))
  | .remove endpointId =>
    match s.endpoints.find? (·.id = endpointId) with
    | none => some s
    | some endpoint =>
      some ({ s with endpoints := s.endpoints.eraseP (·.id = endpointId), taken := endpointId :: s.taken }.begin
        (.awaiting (Operation.disconnect :: dropEndpointValues endpoint ++ persistOps)))
  | .note endpointId harnessId =>
    match s.endpoints.findIdx? (·.id = endpointId) with
    | none => some s
    | some index =>
      match s.endpoints[index]? with
      | none => none
      | some endpoint =>
        if endpoint.harnessId = some harnessId then some s
        else
          let s := { s with endpoints := s.endpoints.set index { endpoint with harnessId := some harnessId } }
          let (s, task) := s.dedupeEndpoints persistOps
          some (s.begin task)
  | .proceed n ok =>
    match s.tasks[n]? with
    | some (.reading scan position endpoint read after) =>
      some (s.readCredentials n scan position endpoint after ok read)
    | some (.awaiting (op :: todo)) => some (s.perform n todo ok op)
    | _ => none

/-- The registry when `load` has put the list it read in place and started to remove
duplicates. -/
def opened (list : List HarnessEndpoint) (stored : List (KeyStore × String)) : HarnessRegistry :=
  let s : HarnessRegistry :=
    { endpoints := list, stored := stored, tasks := [], ids := list.map HarnessEndpoint.id,
      configured := list, taken := [], collapsed := [], dropped := [] }
  let (s, task) := s.dedupeEndpoints []
  s.begin task

def machine : Machine HarnessRegistry Act := ⟨fun s => ∃ list stored, s = opened list stored, next⟩

/-- The endpoint is in the list, was removed, or was collapsed with an entry for the same
harness that is accounted for. -/
inductive Accounted : String → Prop
  | listed {e : HarnessEndpoint} : e ∈ s.endpoints → Accounted e.id
  | taken {id : String} : id ∈ s.taken → Accounted id
  | collapsed {loser winner : HarnessEndpoint} : (loser, winner) ∈ s.collapsed → sameHarness loser winner = true →
      Accounted winner.id → Accounted loser.id

/-- No configured endpoint is lost, or listed with another name or address than it was
last given; values are deleted of endpoints only that are not in the list; and no call has
failed. -/
structure Sound : Prop where
  accounted : ∀ e ∈ s.configured, s.Accounted e.id
  current : ∀ e ∈ s.configured, ∀ e' ∈ s.endpoints, e'.id = e.id → e'.core = e.core
  dropped : ∀ e list, (e, list) ∈ s.dropped → e.id ∉ list.map HarnessEndpoint.id
  unfailed : .failed ∉ s.tasks

def scanning : Bool := s.tasks.any Task.scanning

/-- While a deduplication reads credentials, no other call changes the list. -/
def undisturbed (s : HarnessRegistry) : Act → Bool
  | .addLocal .. => !s.scanning
  | .addPaired .. => !s.scanning
  | .remove endpointId => !s.scanning || (s.endpoints.find? (·.id = endpointId)).isNone
  | .note endpointId harnessId =>
    !s.scanning ||
      match s.endpoints.find? (·.id = endpointId) with
      | none => true
      | some endpoint => endpoint.harnessId = some harnessId
  | .proceed .. => true

end HarnessRegistry

end Silo.Clients
