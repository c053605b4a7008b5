import Silo.Clients.HarnessRegistry
import Silo.Clients.SecretStoreRuns

namespace Silo.Clients

open Silo.Lib JsonDocumentStore HarnessRegistry

namespace LegacyMigration

def siloPathKey : String := "silo/silo-path"
def lastLaunchKey : String := "silo/last-launch-options"
def migratedKey : String := "silo/storage-migrated"

/-- A document store whose calls are made one after the other. -/
structure Store where
  document : Option Text
  values : Option Values
  loadFailed : Bool

namespace Store

def fresh (s : Store) : Store := ⟨s.document, none, false⟩

/-- `_load`; the document can be read, if it has to be, when `ok`. -/
def load (s : Store) (ok : Bool) : Store :=
  if s.values.isSome || s.loadFailed then s
  else if ok then { s with values := some (decodeValues s.document) }
  else { s with loadFailed := true }

/-- `read` after `_load`. -/
def read (s : Store) (key : String) : Option String := s.values.bind (·.lookup key)

/-- `write` after `_load`. A document write that fails leaves the value in the cache. -/
def write (s : Store) (key value : String) (ok : Bool) : Store :=
  match s.values with
  | none => s
  | some values =>
    if values.lookup key = some value then s
    else
      let values := values.insert key value
      ⟨if ok then some (encodeValues (some values)) else s.document, some values, s.loadFailed⟩

/-- What the document has for a key. -/
def stored (s : Store) (key : String) : Option String := (decodeValues s.document).lookup key

/-- What can be read of the store, now or, when it has not been read in this start, later. -/
def readable (s : Store) (key : String) : Option String :=
  match s.values with
  | some values => values.lookup key
  | none => s.stored key

def ofDocument (s : JsonDocumentStore) : Store := ⟨s.document, s.values.bind (s.heap[·]?), s.loadFailed⟩

end Store

structure Idle (s : JsonDocumentStore) : Prop where
  loading : s.loading = []
  ready : s.ready = []
  pending : s.pending = []
  stands : ∀ ref, s.values = some ref → ref < s.heap.length

section Sequential

variable {s t u : JsonDocumentStore} {call : Call} {key value : String}

theorem runs_tail {act : JsonDocumentStore.Act} (h : JsonDocumentStore.machine.RunsTo (fun _ _ => True) s t)
    (hn : t.next act = some u) : JsonDocumentStore.machine.RunsTo (fun _ _ => True) s u :=
  .tail h trivial hn

/-- Of the calls only the latest is under way, past its `_load`. -/
structure PastLoad (s : JsonDocumentStore) (call : Call) (store : Store) (t : JsonDocumentStore) : Prop where
  runs : JsonDocumentStore.machine.RunsTo (fun _ _ => True) s t
  loading : t.loading = []
  ready : t.ready = [(s.calls.length, t.values)]
  pending : t.pending = []
  stands : ∀ ref, t.values = some ref → ref < t.heap.length
  called : t.calls[s.calls.length]? = some call
  store : .ofDocument t = store

theorem Idle.exists_pastLoad (h : Idle s) (call : Call) (ok : Bool) :
    ∃ t, PastLoad s call ((Store.ofDocument s).load ok) t := by
  obtain ⟨hloading, hready, hpending, hstands⟩ := h
  by_cases hloaded : (s.values.isSome || s.loadFailed) = true
  · have hnext : s.next (.call call) =
        some { s with calls := s.calls ++ [call], ready := [(s.calls.length, s.values)] } := by
      simp only [JsonDocumentStore.next, hloaded, if_true, hready, List.nil_append]
    refine ⟨_, runs_tail .refl hnext, hloading, rfl, hpending, hstands, by simp, ?_⟩
    rw [Store.load, if_pos]
    · rfl
    · rw [Bool.or_eq_true] at hloaded ⊢
      refine hloaded.imp_left fun hsome => ?_
      obtain ⟨ref, href⟩ := Option.isSome_iff_exists.mp hsome
      simp [Store.ofDocument, href, hstands ref href]
  · have hnext : s.next (.call call) =
        some { s with calls := s.calls ++ [call], reads := s.reads + 1, loading := [s.calls.length] } := by
      simp only [JsonDocumentStore.next, hloaded, Bool.false_eq_true, if_false, hloading, List.nil_append]
    simp only [Bool.or_eq_true, not_or, Bool.not_eq_true, Option.isSome_eq_false_iff, Option.isNone_iff_eq_none]
      at hloaded
    obtain ⟨hvalues, hfailed⟩ := hloaded
    generalize hu : ({ s with calls := s.calls ++ [call], reads := s.reads + 1, loading := [s.calls.length] } :
      JsonDocumentStore) = u at hnext
    have hmem : s.calls.length ∈ u.loading := by simp [← hu]
    cases ok with
    | true =>
        have hread : u.next (.loaded s.calls.length) = _ := if_pos hmem
        refine ⟨_, runs_tail (runs_tail .refl hnext) hread, ?_, ?_, ?_, ?_, ?_, ?_⟩ <;> subst hu
        · simp
        · simp [hready]
        · exact hpending
        · simp
        · simp
        · simp [Store.load, Store.ofDocument, hvalues, hfailed]
    | false =>
        have hdenied : u.next (.denied s.calls.length) = _ := if_pos hmem
        refine ⟨_, runs_tail (runs_tail .refl hnext) hdenied, ?_, ?_, ?_, ?_, ?_, ?_⟩ <;> subst hu
        · simp
        · simp [hready, hvalues]
        · exact hpending
        · exact hstands
        · simp
        · simp [Store.load, Store.ofDocument, hvalues, hfailed]

theorem Idle.exists_read (h : Idle s) (key : String) (ok : Bool) :
    ∃ t, JsonDocumentStore.machine.RunsTo (fun _ _ => True) s t ∧ Idle t ∧
      Store.ofDocument t = (Store.ofDocument s).load ok ∧
      (s.calls.length, .value (((Store.ofDocument s).load ok).read key)) ∈ t.outcomes := by
  obtain ⟨t, hruns, hloading, hready, hpending, hstands, hcalled, hstore⟩ := h.exists_pastLoad (.read key) ok
  have hnext : t.next .resume = some ({ t with ready := [] }.proceed s.calls.length t.values (.read key)) := by
    simp only [JsonDocumentStore.next, hready, hcalled, Option.map_some]
  refine ⟨_, runs_tail hruns hnext, ⟨hloading, rfl, hpending, hstands⟩, hstore, ?_⟩
  rw [← hstore]
  simp [proceed, finish, Store.read, Store.ofDocument]

theorem Idle.exists_write (h : Idle s) (key value : String) (load ok : Bool) :
    ∃ t, JsonDocumentStore.machine.RunsTo (fun _ _ => True) s t ∧ Idle t ∧
      Store.ofDocument t = ((Store.ofDocument s).load load).write key value ok := by
  obtain ⟨t, hruns, hloading, hready, hpending, hstands, hcalled, hstore⟩ := h.exists_pastLoad (.write key value) load
  have hnext : t.next .resume = some ({ t with ready := [] }.proceed s.calls.length t.values (.write key value)) := by
    simp only [JsonDocumentStore.next, hready, hcalled, Option.map_some]
  rw [← hstore]
  cases hvalues : t.values with
  | none =>
      rw [hvalues] at hnext
      refine ⟨_, runs_tail hruns hnext, ⟨hloading, rfl, hpending, ?_⟩, ?_⟩
      · rintro _ ⟨⟩
      · simp [proceed, finish, Store.write, Store.ofDocument, hvalues]
  | some ref =>
      have hlt := hstands ref hvalues
      by_cases hsame : (t.heap.getD ref ∅).lookup key = some value
      · rw [hvalues] at hnext
        refine ⟨_, runs_tail hruns hnext, ?_, ?_⟩
        · simp only [proceed, hsame, if_true]
          refine ⟨hloading, rfl, hpending, ?_⟩
          rintro _ ⟨⟩
          exact hlt
        · have hget : t.heap.getD ref ∅ = t.heap[ref] := by simp [hlt]
          rw [hget] at hsame
          simp [proceed, finish, Store.write, Store.ofDocument, hvalues, hlt, hsame]
      · have hget : t.heap.getD ref ∅ = t.heap[ref] := by simp [hlt]
        rw [hvalues] at hnext
        simp only [proceed, hsame, if_false] at hnext
        rw [hget] at hnext hsame
        generalize hu : ({ t with values := some ref, ready := [] }.put ref (t.heap[ref].insert key value)).persist
          s.calls.length = u at hnext
        have hfind : u.pending.find? (·.id = t.begun) = some ⟨t.begun, s.calls.length,
            encodeValues (some (t.heap[ref].insert key value))⟩ := by
          simp [← hu, persist, put, hpending, hlt]
        cases ok with
        | true =>
            have hwrote : u.next (.wrote t.begun) = _ := Option.map_eq_some_iff.mpr ⟨_, hfind, rfl⟩
            refine ⟨_, runs_tail (runs_tail hruns hnext) hwrote, ⟨?_, ?_, ?_, ?_⟩, ?_⟩ <;> subst hu
            · exact hloading
            · rfl
            · simp [finish, persist, put, hpending]
            · rintro _ ⟨⟩
              simpa [finish, persist, put] using hlt
            · simp [finish, persist, put, Store.write, Store.ofDocument, hvalues, hlt, hsame]
        | false =>
            have hfailed : u.next (.failed t.begun) = _ := Option.map_eq_some_iff.mpr ⟨_, hfind, rfl⟩
            refine ⟨_, runs_tail (runs_tail hruns hnext) hfailed, ⟨?_, ?_, ?_, ?_⟩, ?_⟩ <;> subst hu
            · exact hloading
            · rfl
            · simp [finish, persist, put, hpending]
            · rintro _ ⟨⟩
              simpa [finish, persist, put] using hlt
            · simp [finish, persist, put, Store.write, Store.ofDocument, hvalues, hlt, hsame]

end Sequential

/-- What `_migrateLegacyStorage` has still to do, from the look at the flag in `load` on.
`move` and `delete` are what a `copy` does once it has read the value, and `moved` says whether
it has. -/
inductive Work
  | checkMigrated
  | checkRegistry
  | readRegistry
  | copy (store : KeyStore) (key : String)
  | move (store : KeyStore) (key value : String)
  | delete (store : KeyStore) (key : String) (moved : Bool)
  | mark
  deriving DecidableEq, Repr

end LegacyMigration

open LegacyMigration in
/-- The app's storage. `taken` are the values that were read from the legacy store, each with
its new store and key. -/
structure LegacyMigration where
  legacy : String → Option String
  secrets : LegacyMigration.Store
  settings : LegacyMigration.Store
  todo : List Work
  taken : List (KeyStore × String × String)

namespace LegacyMigration

variable (s : LegacyMigration)

def store : KeyStore → Store
  | .secrets => s.secrets
  | .settings => s.settings

def setStore (store : Store) : KeyStore → LegacyMigration
  | .secrets => { s with secrets := store }
  | .settings => { s with settings := store }

def start (legacy : String → Option String) (secrets settings : Option Text) : LegacyMigration :=
  ⟨legacy, ⟨secrets, none, false⟩, ⟨settings, none, false⟩, [.checkMigrated], []⟩

def copies (e : HarnessEndpoint) : List Work :=
  [.copy .settings e.fingerprintKey, .copy .settings e.keyIdKey, .copy .secrets e.tokenKey,
    .copy .secrets e.keySeedKey]

-- The endpoints that the text of a registry is decoded to, none when it is unreadable.
variable (decode : String → List HarnessEndpoint)

/-- One operation, when the document it needs can be read (`load`) and it succeeds itself (`ok`). -/
def perform (load ok : Bool) : Work → LegacyMigration
  | .checkMigrated =>
    let settings := s.settings.load load
    { s with settings := settings,
             todo := if (settings.read migratedKey).isSome then s.todo else .checkRegistry :: s.todo }
  | .checkRegistry =>
    let settings := s.settings.load load
    { s with settings := settings,
             todo := (if (settings.read registryKey).isSome then []
               else [.readRegistry, .copy .settings siloPathKey, .copy .settings lastLaunchKey]) ++ .mark :: s.todo }
  | .readRegistry =>
    match if ok then s.legacy registryKey else none with
    | none => s
    | some raw =>
      { s with todo := (decode raw).flatMap copies ++ .move .settings registryKey raw :: s.todo,
               taken := (.settings, registryKey, raw) :: s.taken }
  | .copy store key =>
    match if ok then s.legacy key else none with
    | none => { s with todo := .delete store key false :: s.todo }
    | some value =>
      { s with todo := .move store key value :: s.todo, taken := (store, key, value) :: s.taken }
  | .move store key value =>
    { s.setStore (((s.store store).load load).write key value ok) store with
      todo := .delete store key true :: s.todo }
  | .delete _ key _ => if ok then { s with legacy := Function.update s.legacy key none } else s
  | .mark => { s with settings := (s.settings.load load).write migratedKey "1" ok }

inductive Act
  | proceed (load ok : Bool)
  | restart

def next : Act → Option LegacyMigration
  | .proceed load ok =>
    match s.todo with
    | [] => none
    | work :: todo => some (({ s with todo := todo } : LegacyMigration).perform decode load ok work)
  | .restart => some { s with secrets := s.secrets.fresh, settings := s.settings.fresh, todo := [.checkMigrated] }

def machine : Machine LegacyMigration Act :=
  ⟨fun s => ∃ legacy secrets settings, s = start legacy secrets settings, fun s act => s.next decode act⟩

/-- What was read from the legacy store is in its new store, or still where it was. -/
def Retains : Prop :=
  ∀ store key value, (store, key, value) ∈ s.taken →
    (s.store store).readable key = some value ∨ s.legacy key = some value

/-- Nothing that was read is deleted while its new store could not be read in this start and does
not have it, nor when it was read earlier and now it is not; and the app is not started again
while something that was read is in a cache only. -/
def careful (s : LegacyMigration) : Act → Bool
  | .proceed _ ok =>
    match s.todo with
    | .delete store key moved :: _ =>
      !ok || (s.legacy key).isNone || decide ((s.store store).readable key = s.legacy key) ||
        (if moved then !(s.store store).loadFailed else !s.taken.any fun entry => decide (entry.2.1 = key))
    | _ => true
  | .restart =>
    s.taken.all fun entry =>
      decide ((s.store entry.1).stored entry.2.1 = some entry.2.2) || decide (s.legacy entry.2.1 = some entry.2.2) ||
        decide ((s.store entry.1).read entry.2.1 ≠ some entry.2.2)

section Stores

variable {store : Store} {key value : String}

theorem Store.readable_load (store : Store) (ok : Bool) (key : String) :
    (store.load ok).readable key = store.readable key := by
  rw [Store.load]
  split
  · rfl
  · rename_i hunread
    have hnone : store.values = none := by
      cases hvalues : store.values with
      | none => rfl
      | some values => simp [hvalues] at hunread
    split <;> simp [Store.readable, hnone, Store.stored]

theorem Store.load_cases (store : Store) (ok : Bool) :
    (store.load ok).values.isSome = true ∨ (store.load ok).loadFailed = true := by
  rw [Store.load]
  split
  · rename_i hread
    simpa using hread
  · cases ok
    · exact .inr rfl
    · exact .inl rfl

theorem Store.readable_write_ne (store : Store) {other : String} (h : other ≠ key) (ok : Bool) :
    (store.write key value ok).readable other = store.readable other := by
  cases hvalues : store.values with
  | none => simp only [Store.write, hvalues]
  | some values =>
      simp only [Store.write, hvalues]
      split
      · rfl
      · simp only [Store.readable, hvalues]
        exact AList.lookup_insert_ne h

/-- What is written to a store that has been read can be read again, whether or not the
document is. -/
theorem Store.readable_write (store : Store) (key value : String) (ok : Bool) :
    (store.values.isSome = true ∧ (store.write key value ok).readable key = some value) ∨
      (store.values = none ∧ store.write key value ok = store) := by
  cases hvalues : store.values with
  | none =>
      right
      simp only [Store.write, hvalues, and_self]
  | some values =>
      left
      refine ⟨rfl, ?_⟩
      simp only [Store.write, hvalues]
      split
      · simpa only [Store.readable, hvalues]
      · simp [Store.readable]

theorem Store.loadFailed_write (store : Store) (key value : String) (ok : Bool) :
    (store.write key value ok).loadFailed = store.loadFailed := by
  cases hvalues : store.values with
  | none => simp only [Store.write, hvalues]
  | some values =>
      simp only [Store.write, hvalues]
      split <;> rfl

end Stores

section Keys

def secretKey (key : String) : Bool :=
  "/token".toList.isSuffixOf key.toList || "seed".toList.isSuffixOf key.toList

def Own (store : KeyStore) (key : String) : Prop := key ≠ migratedKey ∧ (store = .secrets ↔ secretKey key = true)

theorem secretKey_append (start : String) (last : String) (hlast : 6 ≤ last.toList.length) :
    secretKey (start ++ last) = secretKey last := by
  have hsuffix (a : List Char) (hlength : a.length ≤ last.toList.length) :
      a <:+ start.toList ++ last.toList ↔ a <:+ last.toList :=
    ⟨fun h => List.suffix_of_suffix_length_le h (List.suffix_append _ _) hlength,
      fun h => h.trans (List.suffix_append _ _)⟩
  have htoken := hsuffix "/token".toList hlast
  have hseed := hsuffix "seed".toList (le_trans (by decide) hlast)
  rw [Bool.eq_iff_iff]
  simp only [secretKey, String.toList_append, Bool.or_eq_true, List.isSuffixOf_iff_suffix, htoken, hseed]

theorem own_append {store : KeyStore} (start last : String) (hlast : 6 ≤ last.toList.length)
    (hsecret : store = .secrets ↔ secretKey last = true) (hmigrated : ¬ last.toList <:+ migratedKey.toList) :
    Own store (start ++ last) := by
  refine ⟨?_, by rwa [secretKey_append start last hlast]⟩
  intro heq
  apply hmigrated
  rw [← heq, String.toList_append]
  exact List.suffix_append _ _

theorem own_copies (e : HarnessEndpoint) {work : Work} (h : work ∈ copies e) :
    ∃ store key, work = .copy store key ∧ Own store key := by
  simp only [copies, List.mem_cons, List.not_mem_nil, or_false] at h
  obtain rfl | rfl | rfl | rfl := h
  · exact ⟨_, _, rfl, own_append _ "/fingerprint" (by decide) (by decide) (by decide)⟩
  · exact ⟨_, _, rfl, own_append _ "/key_id" (by decide) (by decide) (by decide)⟩
  · exact ⟨_, _, rfl, own_append _ "/token" (by decide) (by decide) (by decide)⟩
  · exact ⟨_, _, rfl, own_append _ "/key_seed" (by decide) (by decide) (by decide)⟩

theorem own_settings {key : String} (h : key ∈ [registryKey, siloPathKey, lastLaunchKey]) : Own .settings key := by
  simp only [List.mem_cons, List.not_mem_nil, or_false] at h
  obtain rfl | rfl | rfl := h
  · exact ⟨by decide, by decide⟩
  · exact ⟨by decide, by decide⟩
  · exact ⟨by decide, by decide⟩

theorem Own.unique {store store' : KeyStore} {key : String} (h : Own store key) (h' : Own store' key) : store = store' := by
  cases store <;> cases store'
  · rfl
  · exact absurd (h'.2.mpr (h.2.mp rfl)) nofun
  · exact absurd (h.2.mpr (h'.2.mp rfl)) nofun
  · rfl

end Keys

section Runs

variable {s t : LegacyMigration} {decode : String → List HarnessEndpoint} {initial : String → Option String}
  {store : KeyStore} {key value : String}

def Proper (initial : String → Option String) : Work → Prop
  | .copy store key => Own store key
  | .move store key value => Own store key ∧ initial key = some value
  | .delete .. => False
  | _ => True

/-- A delete comes right after the move, which has brought the value to its new store unless
that could not be read. -/
inductive Planned (initial : String → Option String) (s : LegacyMigration) : Prop
  | proper : (∀ work ∈ s.todo, Proper initial work) → Planned initial s
  | delete {store : KeyStore} {key : String} {moved : Bool} {todo : List Work} :
      s.todo = .delete store key moved :: todo → (∀ work ∈ todo, Proper initial work) → Own store key →
      (moved = true → (s.store store).loadFailed = true ∨ (s.store store).readable key = initial key) →
      Planned initial s

structure Sane (initial : String → Option String) (s : LegacyMigration) : Prop where
  legacy : ∀ key value, s.legacy key = some value → initial key = some value
  taken : ∀ store key value, (store, key, value) ∈ s.taken → Own store key ∧ initial key = some value
  planned : Planned initial s
  retains : s.Retains

@[simp]
theorem store_setStore (new : Store) (store other : KeyStore) :
    (s.setStore new store).store other = if other = store then new else s.store other := by
  cases store <;> cases other <;> rfl

@[simp]
theorem legacy_setStore (new : Store) (store : KeyStore) : (s.setStore new store).legacy = s.legacy := by
  cases store <;> rfl

@[simp]
theorem taken_setStore (new : Store) (store : KeyStore) : (s.setStore new store).taken = s.taken := by
  cases store <;> rfl

/-- Whatever a step writes to a new store was in the legacy store or is the flag. -/
theorem retains_write (store : KeyStore) (value : String) (load ok : Bool) (h : Sane initial s)
    (hvalue : key = migratedKey ∨ initial key = some value) :
    (s.setStore (((s.store store).load load).write key value ok) store).Retains := by
  intro store' key' value' htaken
  rw [taken_setStore] at htaken
  rw [store_setStore, legacy_setStore]
  obtain ⟨hown, hinitial⟩ := h.taken store' key' value' htaken
  apply (h.retains store' key' value' htaken).imp_left
  intro hreadable
  split
  · subst store'
    by_cases hkey : key' = key
    · subst key'
      obtain hflag | hvalue := hvalue
      · exact absurd hflag hown.1
      · obtain ⟨-, hwritten⟩ | ⟨-, hsame⟩ := Store.readable_write ((s.store store).load load) key value ok
        · rw [hwritten, ← hvalue, hinitial]
        · rw [hsame, Store.readable_load, hreadable]
    · rw [Store.readable_write_ne _ hkey, Store.readable_load, hreadable]
  · exact hreadable

theorem retains_load (store : KeyStore) (load : Bool) (h : s.Retains) :
    (s.setStore ((s.store store).load load) store).Retains := by
  intro store' key' value' htaken
  rw [taken_setStore] at htaken
  rw [store_setStore, legacy_setStore]
  apply (h store' key' value' htaken).imp_left
  intro hreadable
  split
  · subst store'
    rw [Store.readable_load, hreadable]
  · exact hreadable

/-- After a move, the value can be read unless the new store could not be. -/
theorem readable_move (store : Store) (key value : String) (load ok : Bool) :
    ((store.load load).write key value ok).loadFailed = true ∨
      ((store.load load).write key value ok).readable key = some value := by
  rw [Store.loadFailed_write]
  obtain hread | hfailed := store.load_cases load
  · obtain ⟨-, hwritten⟩ | ⟨hnone, -⟩ := Store.readable_write (store.load load) key value ok
    · exact .inr hwritten
    · rw [hnone] at hread
      cases hread
  · exact .inl hfailed

theorem Sane.proper_tail {work : Work} {todo : List Work} (h : Sane initial s) (htodo : s.todo = work :: todo) :
    ∀ work ∈ todo, Proper initial work := by
  cases h.planned with
  | proper hall =>
      rw [htodo] at hall
      exact (List.forall_mem_cons.mp hall).2
  | delete hdelete hall =>
      rw [htodo] at hdelete
      cases hdelete
      exact hall

theorem Sane.proper_head {work : Work} {todo : List Work} (h : Sane initial s) (htodo : s.todo = work :: todo)
    (hwork : ∀ store key moved, work ≠ .delete store key moved) : Proper initial work := by
  cases h.planned with
  | proper hall => exact hall _ (htodo ▸ List.mem_cons_self)
  | @delete store key moved _ hdelete =>
      rw [htodo] at hdelete
      cases hdelete
      exact absurd rfl (hwork store key moved)

/-- A value that was read from the legacy store is there until it is deleted. -/
theorem Sane.take {todo : List Work} (h : Sane initial s) (hown : Own store key) (hlegacy : s.legacy key = some value)
    (hproper : ∀ work ∈ todo, Proper initial work) :
    Sane initial { s with todo := todo, taken := (store, key, value) :: s.taken } := by
  refine ⟨h.legacy, ?_, .proper hproper, ?_⟩
  · intro store' key' value' htaken
    rcases List.mem_cons.mp htaken with heq | htaken
    · cases heq
      exact ⟨hown, h.legacy _ _ hlegacy⟩
    · exact h.taken store' key' value' htaken
  · intro store' key' value' htaken
    rcases List.mem_cons.mp htaken with heq | htaken
    · cases heq
      exact .inr hlegacy
    · exact h.retains store' key' value' htaken

theorem legacy_of_read {ok : Bool} (h : (if ok then s.legacy key else none) = some value) : s.legacy key = some value := by
  split at h
  · exact h
  · cases h

theorem Sane.readRegistry {todo : List Work} (load ok : Bool) (h : Sane initial s)
    (hproper : ∀ work ∈ todo, Proper initial work) :
    Sane initial (({ s with todo := todo } : LegacyMigration).perform decode load ok .readRegistry) := by
  simp only [perform]
  split
  · exact ⟨h.legacy, h.taken, .proper hproper, h.retains⟩
  · rename_i raw hraw
    have hlegacy : s.legacy registryKey = some raw := legacy_of_read hraw
    apply h.take (own_settings (by simp)) hlegacy
    simp only [List.forall_mem_append, List.forall_mem_cons]
    refine ⟨?_, ⟨own_settings (by simp), h.legacy _ _ hlegacy⟩, hproper⟩
    intro work hwork
    obtain ⟨e, -, hcopy⟩ := List.mem_flatMap.mp hwork
    obtain ⟨store, key, rfl, hown⟩ := own_copies e hcopy
    exact hown

theorem Sane.copy {todo : List Work} (load ok : Bool) (h : Sane initial s) (hown : Own store key)
    (hproper : ∀ work ∈ todo, Proper initial work) :
    Sane initial (({ s with todo := todo } : LegacyMigration).perform decode load ok (.copy store key)) := by
  simp only [perform]
  split
  · exact ⟨h.legacy, h.taken, .delete rfl hproper hown nofun, h.retains⟩
  · rename_i value hvalue
    have hlegacy : s.legacy key = some value := legacy_of_read hvalue
    apply h.take hown hlegacy
    exact List.forall_mem_cons.mpr ⟨⟨hown, h.legacy _ _ hlegacy⟩, hproper⟩

theorem Sane.delete {moved : Bool} {todo : List Work} (load ok : Bool) (h : Sane initial s)
    (htodo : s.todo = .delete store key moved :: todo) (hcareful : s.careful (.proceed load ok) = true) :
    Sane initial (({ s with todo := todo } : LegacyMigration).perform decode load ok (.delete store key moved)) := by
  have hproper := h.proper_tail htodo
  obtain ⟨hown, hmoved⟩ : Own store key ∧
      (moved = true → (s.store store).loadFailed = true ∨ (s.store store).readable key = initial key) := by
    cases h.planned with
    | proper hall => exact absurd (hall _ (htodo ▸ List.mem_cons_self)) id
    | delete hdelete _ hown hmoved =>
        rw [htodo] at hdelete
        cases hdelete
        exact ⟨hown, hmoved⟩
  simp only [perform]
  split
  · rename_i hok
    subst hok
    simp only [careful, htodo, Bool.not_true, Bool.false_or, Bool.or_eq_true, Option.isNone_iff_eq_none,
      decide_eq_true_eq] at hcareful
    refine ⟨?_, h.taken, .proper hproper, ?_⟩
    · intro other value hvalue
      dsimp only at hvalue
      by_cases hother : other = key
      · simp [hother] at hvalue
      · rw [Function.update_of_ne hother] at hvalue
        exact h.legacy other value hvalue
    · intro store' key' value htaken
      dsimp only
      by_cases hkey : key' = key
      · subst key'
        obtain ⟨hown', hinitial⟩ := h.taken store' key value htaken
        obtain rfl := hown.unique hown'
        left
        -- what is deleted is in the new store
        obtain hreadable | hlegacy := h.retains store key value htaken
        · exact hreadable
        · rcases hcareful with (hnone | hsame) | hmove
          · rw [hnone] at hlegacy
            cases hlegacy
          · exact hsame.trans hlegacy
          · split at hmove
            · obtain hfailed | hreadable := hmoved ‹_›
              · rw [hfailed] at hmove
                cases hmove
              · exact hreadable.trans hinitial
            · rw [Bool.not_eq_true', List.any_eq_false] at hmove
              exact absurd (decide_eq_true rfl) (hmove _ htaken)
      · rw [Function.update_of_ne hkey]
        exact h.retains store' key' value htaken
  · exact ⟨h.legacy, h.taken, .proper hproper, h.retains⟩

theorem sane_perform {work : Work} {todo : List Work} (load ok : Bool) (h : Sane initial s)
    (htodo : s.todo = work :: todo) (hcareful : s.careful (.proceed load ok) = true) :
    Sane initial (({ s with todo := todo } : LegacyMigration).perform decode load ok work) := by
  have hproper := h.proper_tail htodo
  cases work with
  | checkMigrated =>
      refine ⟨h.legacy, h.taken, .proper ?_, retains_load .settings load h.retains⟩
      simp only [perform]
      split
      · exact hproper
      · exact List.forall_mem_cons.mpr ⟨trivial, hproper⟩
  | checkRegistry =>
      refine ⟨h.legacy, h.taken, .proper ?_, retains_load .settings load h.retains⟩
      simp only [perform, List.forall_mem_append, List.forall_mem_cons]
      refine ⟨?_, trivial, hproper⟩
      split
      · simp
      · simp only [List.forall_mem_cons, List.not_mem_nil, false_implies, implies_true, and_true]
        exact ⟨trivial, own_settings (by simp), own_settings (by simp)⟩
  | readRegistry => exact h.readRegistry load ok hproper
  | copy store key =>
      have hown : Own store key := h.proper_head htodo (by rintro _ _ _ ⟨⟩)
      exact h.copy load ok hown hproper
  | move store key value =>
      obtain ⟨hown, hinitial⟩ := h.proper_head htodo (by rintro _ _ _ ⟨⟩)
      have hretains := retains_write store value load ok h (.inr hinitial)
      have hmove := readable_move (s.store store) key value load ok
      rw [← hinitial] at hmove
      cases store with
      | secrets => exact ⟨h.legacy, h.taken, .delete rfl hproper hown fun _ => hmove, hretains⟩
      | settings => exact ⟨h.legacy, h.taken, .delete rfl hproper hown fun _ => hmove, hretains⟩
  | delete store key moved => exact h.delete load ok htodo hcareful
  | mark =>
      have hretains := retains_write .settings "1" load ok h (.inl rfl)
      exact ⟨h.legacy, h.taken, .proper hproper, hretains⟩

theorem sane_next {act : Act} (h : Sane initial s) (hcareful : s.careful act = true) (hnext : s.next decode act = some t) :
    Sane initial t := by
  cases act with
  | proceed load ok =>
      rw [next] at hnext
      split at hnext
      · cases hnext
      · cases hnext
        exact sane_perform load ok h ‹_› hcareful
  | restart =>
      cases hnext
      refine ⟨h.legacy, h.taken, .proper ?_, ?_⟩
      · simp [Proper]
      · intro store key value htaken
        simp only [careful, List.all_eq_true, Bool.or_eq_true, decide_eq_true_eq] at hcareful
        have hstored : (s.store store).stored key = some value ∨ s.legacy key = some value := by
          obtain hreadable | hlegacy := h.retains store key value htaken
          · rcases hcareful _ htaken with hkept | hread
            · exact hkept
            · cases hvalues : (s.store store).values with
              | none =>
                  left
                  simpa only [Store.readable, hvalues] using hreadable
              | some values =>
                  rw [Store.readable, hvalues] at hreadable
                  rw [Store.read, hvalues] at hread
                  exact absurd hreadable hread
          · exact .inr hlegacy
        cases store with
        | secrets => exact hstored
        | settings => exact hstored

theorem sane_start (legacy : String → Option String) (secrets settings : Option Text) :
    Sane legacy (start legacy secrets settings) where
  legacy _ _ h := h
  taken _ _ _ h := by cases h
  planned := .proper (by simp [start, Proper])
  retains _ _ _ h := by cases h

/-- In runs whose steps are all careful, whatever was read from the legacy store is kept. -/
theorem retains_of_careful (decode : String → List HarnessEndpoint) (legacy : String → Option String)
    (secrets settings : Option Text) (s : LegacyMigration)
    (h : (machine decode).RunsTo (fun s act => s.careful act = true) (start legacy secrets settings) s) : s.Retains := by
  have hs : Sane legacy s :=
    Machine.RunsTo.invariant (fun hs hc hn => sane_next hs hc hn) (sane_start legacy secrets settings) h
  exact hs.retains

def pairedEndpoint : HarnessEndpoint := ⟨"e1", "one", "wss://a:1", none⟩

/-- The keychain items of an app that has one harness, and a token for it. -/
def pairedLegacy (key : String) : Option String :=
  if key = registryKey then some "[e1]" else if key = pairedEndpoint.tokenKey then some "tok" else none

/-- The app is stopped after the token was deleted, and started again. -/
theorem retains_pairedLegacy :
    ∃ s, (machine fun _ => [pairedEndpoint]).RunsTo (fun s act => s.careful act = true) (start pairedLegacy none none) s ∧
      s.Retains ∧ s.todo = [] ∧ s.secrets.readable "silo/e1/token" = some "tok" ∧
      s.legacy "silo/e1/token" = none := by
  obtain ⟨s, hs, hout⟩ := (Option.any_eq_true
    (fun s : LegacyMigration => decide (s.todo = [] ∧ s.secrets.readable "silo/e1/token" = some "tok" ∧
      s.legacy "silo/e1/token" = none))
    ((machine fun _ => [pairedEndpoint]).runChecked careful (start pairedLegacy none none)
      (List.replicate 10 (Act.proceed true true) ++ Act.restart :: List.replicate 18 (.proceed true true)))).mp rfl
  have hrun := Machine.runsTo_of_runChecked hs
  exact ⟨s, hrun, retains_of_careful _ _ _ _ s hrun, of_decide_eq_true hout⟩

/-- The secrets document cannot be read when the token is moved. -/
theorem not_retains_deniedSecrets :
    ∃ s, (machine fun _ => [pairedEndpoint]).RunsTo (fun _ _ => True) (start pairedLegacy none none) s ∧
      s.todo = [] ∧ ¬ s.Retains := by
  obtain ⟨s, hs, hout⟩ := (Option.any_eq_true
    (fun s : LegacyMigration => decide (s.todo = [] ∧ (KeyStore.secrets, "silo/e1/token", "tok") ∈ s.taken ∧
      s.secrets.readable "silo/e1/token" ≠ some "tok" ∧ s.legacy "silo/e1/token" ≠ some "tok"))
    ((machine fun _ => [pairedEndpoint]).run (start pairedLegacy none none)
      (List.replicate 8 (Act.proceed true true) ++ Act.proceed false true :: List.replicate 10 (.proceed true true)))).mp
      rfl
  obtain ⟨htodo, htaken, hsecrets, hlegacy⟩ := of_decide_eq_true hout
  refine ⟨s, Machine.runsTo_of_run hs, htodo, ?_⟩
  intro h
  obtain hreadable | hkept := h _ _ _ htaken
  · exact hsecrets hreadable
  · exact hlegacy hkept

end Runs

end LegacyMigration

end Silo.Clients
