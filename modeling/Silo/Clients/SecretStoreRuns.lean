import Mathlib.Data.Finmap
import Silo.Clients.SecretStore

namespace Silo.Clients

open Silo.Lib Silo.Core

namespace JsonDocumentStore

theorem valueAt_encodeValues (values : Values) (key : String) :
    valueAt (some (encodeValues (some values))) key = (values.lookup key).map .string := by
  obtain ⟨entries, hnodup⟩ := values
  simp only [valueAt, encodeValues, AList.lookup, Option.bind_some]
  clear hnodup
  induction entries with
  | nil => rfl
  | cons entry rest ih =>
      obtain ⟨k, v⟩ := entry
      by_cases hk : k = key
      · subst hk
        simp
      · simpa [List.dlookup_cons_ne, Ne.symm hk] using ih

theorem lookup_foldl_keepString (key : String) :
    ∀ (entries : List (Sigma fun _ : String => Json)) (values : Values), entries.NodupKeys →
      (entries.foldl keepString values).lookup key =
        match entries.dlookup key with
        | some value => value.asStr.or (values.lookup key)
        | none => values.lookup key
  | [], values, _ => rfl
  | ⟨k, v⟩ :: rest, values, hnodup => by
      obtain ⟨hk, hrest⟩ := List.nodupKeys_cons.mp hnodup
      rw [List.foldl_cons, lookup_foldl_keepString key rest _ hrest]
      by_cases h : k = key
      · subst h
        rw [List.dlookup_cons_eq, List.dlookup_eq_none.mpr hk]
        cases hv : v.asStr <;> simp [keepString, hv]
      · have hkeep : (keepString values ⟨k, v⟩).lookup key = values.lookup key := by
          cases hv : v.asStr <;> simp [keepString, hv, AList.lookup_insert_ne (Ne.symm h)]
        rw [List.dlookup_cons_ne _ _ (Ne.symm h), hkeep]

theorem lookup_decodeValues (raw : Option Text) (key : String) :
    (decodeValues raw).lookup key = (valueAt raw key).bind Json.asStr := by
  simp only [decodeValues, valueAt]
  cases raw.bind Text.decoded with
  | none => rfl
  | some decoded =>
      simp only [Option.bind_some, AList.lookup]
      have h := lookup_foldl_keepString key decoded.entries ∅ decoded.nodupKeys
      cases hd : decoded.entries.dlookup key <;> simpa [hd, AList.lookup] using h

theorem asStr_eq_some (raw : Option Text) (key value : String) :
    (valueAt raw key).bind Json.asStr = some value ↔ valueAt raw key = some (.string value) := by
  cases valueAt raw key with
  | none => simp
  | some json => cases json <;> simp [Json.asStr]

variable {s t : JsonDocumentStore} {initial : Option Text} {m m' : Values} {j n : Nat} {call : Call}
    {key value : String}

/-- A document has all that the initial one had, up to the calls made. -/
structure Retains (initial : Option Text) (calls : List Call) (raw : Option Text) : Prop where
  present : ∀ key value, valueAt initial key = some value → .delete key ∉ calls →
    (valueAt raw key).isSome = true
  unchanged : ∀ key value, valueAt initial key = some value → .delete key ∉ calls →
    (∀ v, .write key v ∉ calls) → valueAt raw key = some value

/-- Every value of the document is a string. -/
def AllStrings (raw : Option Text) : Prop := ∀ key value, valueAt raw key = some value → ∃ v, value = .string v

theorem Retains.refl (calls : List Call) : Retains initial calls initial := by
  constructor
  · intro key value hvalue _
    rw [hvalue]
    rfl
  · intro key value hvalue _ _
    exact hvalue

theorem Retains.more {calls : List Call} {raw : Option Text} (call : Call) (h : Retains initial calls raw) :
    Retains initial (calls ++ [call]) raw := by
  constructor
  · intro key value hvalue hdelete
    exact h.present key value hvalue fun hd => hdelete (by simp [hd])
  · intro key value hvalue hdelete hwrite
    exact h.unchanged key value hvalue (fun hd => hdelete (by simp [hd])) fun v hv => hwrite v (by simp [hv])

theorem Retains.decoded (hstrings : AllStrings initial) (calls : List Call) :
    Retains initial calls (some (encodeValues (some (decodeValues initial)))) := by
  have hsame : ∀ key value, valueAt initial key = some value →
      valueAt (some (encodeValues (some (decodeValues initial)))) key = some value := by
    intro key value hvalue
    obtain ⟨v, rfl⟩ := hstrings key value hvalue
    rw [valueAt_encodeValues, lookup_decodeValues, hvalue]
    rfl
  constructor
  · intro key value hvalue _
    rw [hsame key value hvalue]
    rfl
  · intro key value hvalue _ _
    exact hsame key value hvalue

theorem Retains.insert {calls : List Call} {key value : String} (hcall : Call.write key value ∈ calls)
    (h : Retains initial calls (some (encodeValues (some m)))) :
    Retains initial calls (some (encodeValues (some (m.insert key value)))) := by
  constructor
  · intro k x hx hdelete
    have hm := h.present k x hx hdelete
    rw [valueAt_encodeValues] at hm ⊢
    by_cases hk : k = key
    · subst hk
      simp
    · rwa [AList.lookup_insert_ne hk]
  · intro k x hx hdelete hwrite
    have hk : k ≠ key := by
      rintro rfl
      exact hwrite value hcall
    have hm := h.unchanged k x hx hdelete hwrite
    rw [valueAt_encodeValues] at hm ⊢
    rwa [AList.lookup_insert_ne hk]

theorem Retains.erase {calls : List Call} {key : String} (hcall : Call.delete key ∈ calls)
    (h : Retains initial calls (some (encodeValues (some m)))) :
    Retains initial calls (some (encodeValues (some (m.erase key)))) := by
  have hne : ∀ k, Call.delete k ∉ calls → k ≠ key := by
    rintro k hk rfl
    exact hk hcall
  constructor
  · intro k x hx hdelete
    have hm := h.present k x hx hdelete
    rw [valueAt_encodeValues] at hm ⊢
    rwa [AList.lookup_erase_ne (hne k hdelete)]
  · intro k x hx hdelete hwrite
    have hm := h.unchanged k x hx hdelete hwrite
    rw [valueAt_encodeValues] at hm ⊢
    rwa [AList.lookup_erase_ne (hne k hdelete)]

/-- The calls from `j` on, each with the only map there is. -/
def queue (j n : Nat) : List (Nat × Option Nat) := (List.range' j (n - j)).map fun i => (i, some 0)

theorem queue_snoc (h : j ≤ n) : queue j n ++ [(n, some 0)] = queue j (n + 1) := by
  have hn : n + 1 - j = n - j + 1 := by omega
  simp only [queue, hn, List.range'_concat, List.map_append]
  simp
  omega

theorem queue_eq_cons {i : Nat} {ref : Option Nat} {rest : List (Nat × Option Nat)} (h : queue j n = (i, ref) :: rest) :
    i = j ∧ ref = some 0 ∧ rest = queue (j + 1) n ∧ j < n := by
  have hlt : j < n := by
    by_contra hge
    simp [queue, Nat.sub_eq_zero_of_le (Nat.le_of_not_lt hge)] at h
  have hn : n - j = n - (j + 1) + 1 := by omega
  simp only [queue, hn, List.range'_succ, List.map_cons, List.cons.injEq, Prod.mk.injEq] at h
  exact ⟨h.1.1.symm, h.1.2.symm, h.2.symm, hlt⟩

structure Denied (initial : Option Text) (s : JsonDocumentStore) : Prop where
  values : s.values = none
  loadFailed : s.loadFailed = true
  loading : s.loading = []
  reads : s.reads = 1
  pending : s.pending = []
  document : s.document = initial
  ready : ∀ entry ∈ s.ready, entry.2 = none
  outcomes : ∀ n, (n, .done) ∈ s.outcomes → ∃ key, s.calls[n]? = some (.delete key)

/-- After the one successful read, with the map `m` in the cache and the first `j` calls
run on. -/
structure Opened (initial : Option Text) (s : JsonDocumentStore) (m : Values) (j : Nat) : Prop where
  heap : s.heap = [m]
  values : s.values = some 0
  loading : s.loading = []
  reads : s.reads = 1
  count : j ≤ s.calls.length
  ready : s.ready = queue j s.calls.length
  numbered : ∀ write ∈ s.pending, write.call < j ∧ write.id < s.begun
  landed : s.landed ≤ s.begun
  ended : ∀ n outcome, (n, outcome) ∈ s.outcomes → n < j
  known : ∀ n key value, s.Latest n key value → n < j → m.lookup key = some value
  carried : ∀ n key value, s.Latest n key value → ∀ write ∈ s.pending, write.call = n →
    ∀ later ∈ s.pending, write.id ≤ later.id → valueAt (some later.text) key = some (.string value)
  stored : ∀ n key value, s.Latest n key value → (n, .done) ∈ s.outcomes →
    valueAt s.document key = some (.string value) ∧
      ∀ later ∈ s.pending, s.landed ≤ later.id → valueAt (some later.text) key = some (.string value)
  documentRetains : Retains initial s.calls s.document
  pendingRetains : ∀ write ∈ s.pending, Retains initial s.calls (some write.text)
  cacheRetains : Retains initial s.calls (some (encodeValues (some m)))

inductive Stage (initial : Option Text) : JsonDocumentStore → Prop
  | fresh : Stage initial (start initial)
  | reading (call : Call) :
      Stage initial { start initial with calls := [call], reads := 1, loading := [0] }
  | denied {s : JsonDocumentStore} (h : Denied initial s) : Stage initial s
  | opened {s : JsonDocumentStore} {m : Values} {j : Nat} (h : Opened initial s m j) : Stage initial s

/-- What is latest after one more call was so before, the new call apart. -/
theorem Latest.of_snoc {ready : List (Nat × Option Nat)}
    (h : Latest { s with calls := s.calls ++ [call], ready := ready } n key value) (hn : n < s.calls.length) :
    s.Latest n key value := by
  obtain ⟨hcall, hlater⟩ := h
  constructor
  · simpa [List.getElem?_append_left hn] using hcall
  · intro k c hk hc
    apply hlater k c hk
    obtain ⟨hlt, -⟩ := List.getElem?_eq_some_iff.mp hc
    simpa [List.getElem?_append_left hlt] using hc

theorem Latest.changes (h : s.Latest n key value) (hcall : s.calls[j]? = some call) (hne : n ≠ j)
    (hnj : n < j + 1) : call.changes key = false :=
  h.2 j call (by omega) hcall

theorem Opened.snoc (h : Opened initial s m j) (call : Call) :
    Opened initial
      { s with calls := s.calls ++ [call], ready := s.ready ++ [(s.calls.length, s.values)] } m j where
  heap := h.heap
  values := h.values
  loading := h.loading
  reads := h.reads
  count := by
    have hj := h.count
    simp only [List.length_append, List.length_singleton]
    omega
  ready := by
    simp only [h.ready, h.values, List.length_append, List.length_singleton]
    exact queue_snoc h.count
  numbered := h.numbered
  landed := h.landed
  ended := h.ended
  known n key value hlatest hn := h.known n key value (hlatest.of_snoc (Nat.lt_of_lt_of_le hn h.count)) hn
  carried n key value hlatest write hwrite hcall := by
    have hn : n < s.calls.length := hcall ▸ Nat.lt_of_lt_of_le (h.numbered write hwrite).1 h.count
    exact h.carried n key value (hlatest.of_snoc hn) write hwrite hcall
  stored n key value hlatest hdone := by
    have hn : n < s.calls.length := Nat.lt_of_lt_of_le (h.ended n .done hdone) h.count
    exact h.stored n key value (hlatest.of_snoc hn) hdone
  documentRetains := h.documentRetains.more call
  pendingRetains write hwrite := (h.pendingRetains write hwrite).more call
  cacheRetains := h.cacheRetains.more call

theorem Opened.finish (h : Opened initial s m j) (hcall : s.calls[j]? = some call) (outcome : Outcome)
    (hcache : ∀ key value, call = .write key value → m.lookup key = some value)
    (hdone : ∀ key value, call = .write key value →
      valueAt s.document key = some (.string value) ∧
        ∀ write ∈ s.pending, valueAt (some write.text) key = some (.string value)) :
    Opened initial ({ s with ready := queue (j + 1) s.calls.length }.finish j outcome) m (j + 1) where
  heap := h.heap
  values := h.values
  loading := h.loading
  reads := h.reads
  count := (List.getElem?_eq_some_iff.mp hcall).1
  ready := rfl
  numbered write hwrite := ⟨Nat.lt_succ_of_lt (h.numbered write hwrite).1, (h.numbered write hwrite).2⟩
  landed := h.landed
  ended n out hn := by
    simp only [JsonDocumentStore.finish, List.mem_append, List.mem_singleton, Prod.mk.injEq] at hn
    rcases hn with hn | ⟨rfl, -⟩
    · exact Nat.lt_succ_of_lt (h.ended n out hn)
    · exact Nat.lt_succ_self n
  known n key value hlatest hn := by
    by_cases hnj : n = j
    · subst hnj
      exact hcache key value (Option.some.inj (hcall.symm.trans hlatest.1))
    · exact h.known n key value hlatest (by omega)
  carried := h.carried
  stored n key value hlatest hn := by
    simp only [JsonDocumentStore.finish, List.mem_append, List.mem_singleton, Prod.mk.injEq] at hn
    rcases hn with hn | ⟨rfl, -⟩
    · exact h.stored n key value hlatest hn
    · obtain ⟨hdocument, hpending⟩ := hdone key value (Option.some.inj (hcall.symm.trans hlatest.1))
      exact ⟨hdocument, fun later hlater _ => hpending later hlater⟩
  documentRetains := h.documentRetains
  pendingRetains := h.pendingRetains
  cacheRetains := h.cacheRetains

theorem Opened.persist (h : Opened initial s m j) (hcall : s.calls[j]? = some call)
    (hsame : ∀ key, call.changes key = false → m'.lookup key = m.lookup key)
    (hwrites : ∀ key value, call = .write key value → m'.lookup key = some value)
    (hretains : Retains initial s.calls (some (encodeValues (some m')))) :
    Opened initial (({ s with ready := queue (j + 1) s.calls.length }.put 0 m').persist j) m' (j + 1) := by
  have htext : encodeValues (s.values.bind ((s.heap.set 0 m')[·]?)) = encodeValues (some m') := by
    simp [h.values, h.heap]
  have hknown : ∀ n key value, s.Latest n key value → n < j + 1 → m'.lookup key = some value := by
    intro n key value hlatest hn
    by_cases hnj : n = j
    · subst hnj
      exact hwrites key value (Option.some.inj (hcall.symm.trans hlatest.1))
    · rw [hsame key (hlatest.changes hcall hnj hn)]
      exact h.known n key value hlatest (by omega)
  have hnew : ∀ n key value, s.Latest n key value → n < j + 1 →
      valueAt (some (encodeValues (some m'))) key = some (.string value) := by
    intro n key value hlatest hn
    rw [valueAt_encodeValues, hknown n key value hlatest hn]
    rfl
  constructor
  case heap => simp [JsonDocumentStore.persist, put, h.heap]
  case values => exact h.values
  case loading => exact h.loading
  case reads => exact h.reads
  case count => exact (List.getElem?_eq_some_iff.mp hcall).1
  case ready => rfl
  case landed => exact Nat.le_succ_of_le h.landed
  case ended => exact fun n out hn => Nat.lt_succ_of_lt (h.ended n out hn)
  case known => exact hknown
  case documentRetains => exact h.documentRetains
  case cacheRetains => exact hretains
  case numbered =>
    intro write hwrite
    simp only [JsonDocumentStore.persist, put, List.mem_append, List.mem_singleton] at hwrite ⊢
    rcases hwrite with hwrite | rfl
    · have hold := h.numbered write hwrite
      exact ⟨by omega, by omega⟩
    · exact ⟨Nat.lt_succ_self j, Nat.lt_succ_self _⟩
  case carried =>
    intro n key value hlatest write hwrite hn later hlater hle
    simp only [JsonDocumentStore.persist, put, htext, List.mem_append, List.mem_singleton] at hwrite hlater
    rcases hlater with hlater | rfl
    · rcases hwrite with hwrite | rfl
      · exact h.carried n key value hlatest write hwrite hn later hlater hle
      · have hid := (h.numbered later hlater).2
        simp only at hle
        omega
    · apply hnew n key value hlatest
      rcases hwrite with hwrite | rfl
      · have hold := (h.numbered write hwrite).1
        omega
      · simp only at hn
        omega
  case stored =>
    intro n key value hlatest hn
    obtain ⟨hdocument, hpending⟩ := h.stored n key value hlatest hn
    refine ⟨hdocument, fun later hlater hle => ?_⟩
    simp only [JsonDocumentStore.persist, put, htext, List.mem_append, List.mem_singleton] at hlater
    rcases hlater with hlater | rfl
    · exact hpending later hlater hle
    · exact hnew n key value hlatest (Nat.lt_succ_of_lt (h.ended n _ hn))
  case pendingRetains =>
    intro write hwrite
    simp only [JsonDocumentStore.persist, put, htext, List.mem_append, List.mem_singleton] at hwrite
    rcases hwrite with hwrite | rfl
    · exact h.pendingRetains write hwrite
    · exact hretains

theorem Opened.leaves (h : Opened initial s m j) (write : DocumentWrite) :
    Opened initial { s with pending := s.pending.filter (·.id ≠ write.id) } m j := by
  have hleft : ∀ w ∈ s.pending.filter (·.id ≠ write.id), w ∈ s.pending := fun w hw => (List.mem_filter.mp hw).1
  refine { h with numbered := ?_, pendingRetains := ?_, carried := ?_, stored := ?_ }
  · exact fun w hw => h.numbered w (hleft w hw)
  · intro n key value hlatest w hw hn later hlater
    exact h.carried n key value hlatest w (hleft w hw) hn later (hleft later hlater)
  · intro n key value hlatest hn
    obtain ⟨hdocument, hpending⟩ := h.stored n key value hlatest hn
    exact ⟨hdocument, fun later hlater => hpending later (hleft later hlater)⟩
  · exact fun w hw => h.pendingRetains w (hleft w hw)

theorem Opened.ended_append {write : DocumentWrite} (h : Opened initial s m j) (hwrite : write ∈ s.pending)
    (outcome : Outcome) : ∀ n out, (n, out) ∈ s.outcomes ++ [(write.call, outcome)] → n < j := by
  intro n out hn
  simp only [List.mem_append, List.mem_singleton, Prod.mk.injEq] at hn
  rcases hn with hn | ⟨rfl, -⟩
  · exact h.ended n out hn
  · exact (h.numbered write hwrite).1

theorem Opened.wrote {write : DocumentWrite} (h : Opened initial s m j) (hwrite : write ∈ s.pending)
    (horder : s.landed ≤ write.id) :
    Opened initial
      ({ s with
        document := some write.text
        pending := s.pending.filter (·.id ≠ write.id)
        landed := max s.landed (write.id + 1) }.finish write.call .done) m j := by
  refine { h.leaves write with documentRetains := ?_, landed := ?_, ended := ?_, stored := ?_ }
  · have hid := (h.numbered write hwrite).2
    have hlanded := h.landed
    simp only [JsonDocumentStore.finish]
    omega
  · exact h.ended_append hwrite .done
  · have hleft : ∀ w ∈ s.pending.filter (·.id ≠ write.id), w ∈ s.pending := fun w hw => (List.mem_filter.mp hw).1
    intro n key value hlatest hn
    simp only [JsonDocumentStore.finish, List.mem_append, List.mem_singleton, Prod.mk.injEq] at hn ⊢
    rcases hn with hn | ⟨rfl, -⟩
    · have hold := (h.stored n key value hlatest hn).2
      exact ⟨hold write hwrite horder, fun later hlater hle => hold later (hleft later hlater) (by omega)⟩
    · have hold := h.carried _ key value hlatest write hwrite rfl
      exact ⟨hold write hwrite (Nat.le_refl _), fun later hlater hle => hold later (hleft later hlater) (by omega)⟩
  · exact h.pendingRetains write hwrite

theorem Opened.failed {write : DocumentWrite} (h : Opened initial s m j) (hwrite : write ∈ s.pending) :
    Opened initial ({ s with pending := s.pending.filter (·.id ≠ write.id) }.finish write.call .thrown) m j := by
  refine { h.leaves write with ended := ?_, stored := ?_ }
  · exact h.ended_append hwrite .thrown
  · intro n key value hlatest hn
    simp only [JsonDocumentStore.finish, List.mem_append, List.mem_singleton, Prod.mk.injEq, reduceCtorEq,
      and_false, or_false] at hn
    exact (h.leaves write).stored n key value hlatest hn

theorem Opened.proceed (h : Opened initial s m j) (hcall : s.calls[j]? = some call)
    (hcached : ∀ key value, call = .write key value → m.lookup key = some value →
      valueAt s.document key = some (.string value) ∧
        ∀ write ∈ s.pending, valueAt (some write.text) key = some (.string value)) :
    ∃ m', Opened initial ({ s with ready := queue (j + 1) s.calls.length }.proceed j (some 0) call) m' (j + 1) := by
  have hmem : call ∈ s.calls := List.mem_of_getElem? hcall
  have hheap : s.heap.getD 0 ∅ = m := by simp [h.heap]
  cases call with
  | read key => exact ⟨m, h.finish hcall _ (by simp) (by simp)⟩
  | write key value =>
      simp only [JsonDocumentStore.proceed, hheap]
      split
      case isTrue hfound =>
        refine ⟨m, h.finish hcall _ ?_ ?_⟩
        · rintro _ _ ⟨rfl, rfl⟩
          exact hfound
        · rintro _ _ ⟨rfl, rfl⟩
          exact hcached key value rfl hfound
      case isFalse =>
        refine ⟨_, h.persist hcall ?_ ?_ (h.cacheRetains.insert hmem)⟩
        · intro k hk
          exact AList.lookup_insert_ne (Ne.symm (by simpa [Call.changes] using hk))
        · rintro _ _ ⟨rfl, rfl⟩
          exact AList.lookup_insert m
  | delete key =>
      simp only [JsonDocumentStore.proceed, hheap]
      split
      case isTrue =>
        refine ⟨_, h.persist hcall ?_ (by simp) (h.cacheRetains.erase hmem)⟩
        intro k hk
        exact AList.lookup_erase_ne (Ne.symm (by simpa [Call.changes] using hk))
      case isFalse => exact ⟨m, h.finish hcall _ (by simp) (by simp)⟩

theorem Opened.next (h : Opened initial s m j) (act : Act) (horderly : s.orderly act = true)
    (hnext : s.next act = some t) : Stage initial t := by
  cases act with
  | call call =>
      simp only [JsonDocumentStore.next, h.values, Option.isSome_some, Bool.true_or, if_true,
        Option.some.injEq] at hnext
      subst hnext
      have hsnoc := h.snoc call
      simp only [h.values] at hsnoc
      exact .opened hsnoc
  | loaded n => simp [JsonDocumentStore.next, h.loading] at hnext
  | denied n => simp [JsonDocumentStore.next, h.loading] at hnext
  | resume =>
      simp only [JsonDocumentStore.next] at hnext
      split at hnext
      case h_1 => cases hnext
      case h_2 n loaded rest hready =>
        obtain ⟨rfl, rfl, rfl, -⟩ := queue_eq_cons (h.ready.symm.trans hready)
        obtain ⟨call, hcall, rfl⟩ := Option.map_eq_some_iff.mp hnext
        obtain ⟨m', hm'⟩ := h.proceed hcall (by
          rintro key value rfl hfound
          have hc : s.cached = some (key, value) := by simp [cached, hready, hcall, h.heap, hfound]
          simpa [orderly, hc, asStr_eq_some] using horderly)
        exact .opened hm'
  | wrote id =>
      obtain ⟨write, hfind, rfl⟩ := Option.map_eq_some_iff.mp hnext
      have hid : write.id = id := by simpa using List.find?_some hfind
      subst hid
      exact .opened (h.wrote (List.mem_of_find?_eq_some hfind) (by simpa [orderly] using horderly))
  | failed id =>
      obtain ⟨write, hfind, rfl⟩ := Option.map_eq_some_iff.mp hnext
      have hid : write.id = id := by simpa using List.find?_some hfind
      subst hid
      exact .opened (h.failed (List.mem_of_find?_eq_some hfind))

theorem Denied.next (h : Denied initial s) (act : Act) (hnext : s.next act = some t) : Denied initial t := by
  cases act with
  | call call =>
      simp only [JsonDocumentStore.next, h.loadFailed, Bool.or_true, if_true, Option.some.injEq] at hnext
      subst hnext
      refine ⟨h.values, rfl, h.loading, h.reads, h.pending, h.document, ?_, ?_⟩
      · intro entry hentry
        rcases List.mem_append.mp hentry with hentry | hentry
        · exact h.ready entry hentry
        · rw [List.mem_singleton.mp hentry]
          exact h.values
      · intro n hn
        obtain ⟨key, hkey⟩ := h.outcomes n hn
        obtain ⟨hlt, -⟩ := List.getElem?_eq_some_iff.mp hkey
        exact ⟨key, (List.getElem?_append_left hlt).trans hkey⟩
  | loaded n => simp [JsonDocumentStore.next, h.loading] at hnext
  | denied n => simp [JsonDocumentStore.next, h.loading] at hnext
  | wrote id => simp [JsonDocumentStore.next, h.pending] at hnext
  | failed id => simp [JsonDocumentStore.next, h.pending] at hnext
  | resume =>
      simp only [JsonDocumentStore.next] at hnext
      split at hnext
      case h_1 => cases hnext
      case h_2 n loaded rest hready =>
        obtain ⟨call, hcall, rfl⟩ := Option.map_eq_some_iff.mp hnext
        obtain rfl : loaded = none := h.ready (n, loaded) (by simp [hready])
        have hrest : ∀ entry ∈ rest, entry.2 = none := fun entry hentry => h.ready entry (by simp [hready, hentry])
        have hends : ∀ outcome, (outcome = .done → ∃ key, call = .delete key) →
            Denied initial ({ s with ready := rest }.finish n outcome) := by
          intro outcome hdone
          refine ⟨h.values, h.loadFailed, h.loading, h.reads, h.pending, h.document, hrest, ?_⟩
          intro i hi
          simp only [JsonDocumentStore.finish, List.mem_append, List.mem_singleton, Prod.mk.injEq] at hi
          rcases hi with hi | ⟨rfl, rfl⟩
          · exact h.outcomes i hi
          · obtain ⟨key, rfl⟩ := hdone rfl
            exact ⟨key, hcall⟩
        cases call with
        | read key => exact hends _ (by simp)
        | write key value => exact hends _ (by simp)
        | delete key => exact hends _ fun _ => ⟨key, rfl⟩

theorem Opened.first (hstrings : AllStrings initial) (call : Call) :
    Opened initial
      { start initial with
        calls := [call]
        reads := 1
        heap := [decodeValues initial]
        values := some 0
        ready := [(0, some 0)] } (decodeValues initial) 0 := by
  constructor
  case cacheRetains => exact .decoded hstrings _
  case documentRetains => exact .refl _
  all_goals simp [start, queue]

theorem Stage.next (hstrings : AllStrings initial) (h : Stage initial s) {act : Act}
    (horderly : s.orderly act = true) (hnext : s.next act = some t) : Stage initial t := by
  cases h with
  | fresh =>
      cases act with
      | call call =>
          obtain rfl : _ = t := Option.some.inj hnext
          exact .reading call
      | loaded n => simp [JsonDocumentStore.next, start] at hnext
      | denied n => simp [JsonDocumentStore.next, start] at hnext
      | resume => simp [JsonDocumentStore.next, start] at hnext
      | wrote id => simp [JsonDocumentStore.next, start] at hnext
      | failed id => simp [JsonDocumentStore.next, start] at hnext
  | reading first =>
      cases act with
      | call call => simp [orderly] at horderly
      | loaded n =>
          simp only [JsonDocumentStore.next, List.mem_singleton] at hnext
          split at hnext
          case isTrue h0 =>
            subst h0
            obtain rfl : _ = t := Option.some.inj hnext
            exact .opened (.first hstrings first)
          case isFalse => cases hnext
      | denied n =>
          simp only [JsonDocumentStore.next, List.mem_singleton] at hnext
          split at hnext
          case isTrue h0 =>
            subst h0
            obtain rfl : _ = t := Option.some.inj hnext
            exact .denied (by constructor <;> simp [start])
          case isFalse => cases hnext
      | resume => simp [JsonDocumentStore.next, start] at hnext
      | wrote id => simp [JsonDocumentStore.next, start] at hnext
      | failed id => simp [JsonDocumentStore.next, start] at hnext
  | denied h => exact .denied (h.next act hnext)
  | opened h => exact h.next act horderly hnext

theorem Stage.losesNothing (h : Stage initial s) : s.LosesNothing initial := by
  cases h with
  | fresh => exact ⟨by simp [start], by simp [start], (Retains.refl _).present, (Retains.refl _).unchanged⟩
  | reading call => exact ⟨by simp, by simp [start], (Retains.refl _).present, (Retains.refl _).unchanged⟩
  | denied h =>
      have hretains : Retains initial s.calls s.document := h.document ▸ .refl _
      refine ⟨Nat.le_of_eq h.reads, ?_, hretains.present, hretains.unchanged⟩
      intro n key value hlatest hdone
      obtain ⟨k, hk⟩ := h.outcomes n hdone
      cases hk.symm.trans hlatest.1
  | opened h =>
      refine ⟨Nat.le_of_eq h.reads, ?_, h.documentRetains.present, h.documentRetains.unchanged⟩
      intro n key value hlatest hdone _
      exact (h.stored n key value hlatest hdone).1

/-- In a run whose steps are orderly, from a document of strings, no update is lost. -/
theorem losesNothing_of_orderly (initial : Option Text) (s : JsonDocumentStore) (hstrings : AllStrings initial)
    (h : machine.RunsTo (fun s act => s.orderly act = true) (start initial) s) : s.LosesNothing initial := by
  have hstage : Stage initial s :=
    Machine.RunsTo.invariant (fun hs hc hn => Stage.next hstrings hs hc hn) .fresh h
  exact hstage.losesNothing

/-- Two writes of different keys, one after the other, of a store with a third key. -/
def twoWrites : List Act :=
  [.call (.write "a" "1"), .loaded 0, .resume, .call (.write "b" "2"), .resume, .wrote 0, .wrote 1]

def oneValue : Option Text := some ⟨some (AList.singleton "c" (.string "0"))⟩

theorem allStrings_oneValue : AllStrings oneValue := by
  intro key value hvalue
  by_cases hk : key = "c"
  · subst hk
    exact ⟨"0", (Option.some.inj hvalue).symm⟩
  · simp [oneValue, valueAt, AList.singleton, AList.lookup, List.dlookup_cons_ne, hk] at hvalue

theorem losesNothing_twoWrites :
    ∃ s, machine.RunsTo (fun s act => s.orderly act = true) (start oneValue) s ∧
      s.LosesNothing oneValue ∧ s.outcomes = [(0, .done), (1, .done)] := by
  obtain ⟨s, hs, hout⟩ := (Option.any_eq_true
    (fun s : JsonDocumentStore => decide (s.outcomes = [(0, .done), (1, .done)]))
    (machine.runChecked orderly (start oneValue) twoWrites)).mp rfl
  have hrun := Machine.runsTo_of_runChecked hs
  exact ⟨s, hrun, losesNothing_of_orderly oneValue s allStrings_oneValue hrun, of_decide_eq_true hout⟩

/-- Two first calls each read the document, and the map of the second replaces the one
the first call writes to. -/
def twoLoads : List Act :=
  [.call (.write "a" "1"), .call (.write "b" "2"), .loaded 0, .resume, .loaded 1, .resume, .wrote 0, .wrote 1]

theorem loses_twoLoads :
    ∃ s, machine.RunsTo (fun _ _ => True) (start none) s ∧ s.reads = 2 ∧ s.pending = [] ∧
      s.Latest 0 "a" "1" ∧ (0, .done) ∈ s.outcomes ∧ valueAt s.document "a" = none ∧
      ¬ s.LosesNothing none := by
  obtain ⟨s, hs, hout⟩ := (Option.any_eq_true
    (fun s : JsonDocumentStore => decide (s.reads = 2 ∧ s.pending.length = 0 ∧
      s.calls = [.write "a" "1", .write "b" "2"] ∧ (0, .done) ∈ s.outcomes ∧
      (valueAt s.document "a").isNone = true))
    (machine.run (start none) twoLoads)).mp rfl
  obtain ⟨hreads, hpending, hcalls, hdone, hlost⟩ := of_decide_eq_true hout
  refine ⟨s, Machine.runsTo_of_run hs, hreads, List.length_eq_zero_iff.mp hpending, ?_, hdone,
    Option.isNone_iff_eq_none.mp hlost, fun h => ?_⟩
  · rw [Latest, hcalls]
    refine ⟨rfl, ?_⟩
    rintro (_ | _ | m) call hm hcall
    · cases hm
    · cases hcall
      rfl
    · cases hcall
  · have honce := h.once
    omega

end JsonDocumentStore

end Silo.Clients
