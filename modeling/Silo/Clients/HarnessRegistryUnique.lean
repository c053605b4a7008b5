import Silo.Clients.HarnessRegistryRuns

namespace Silo.Clients

open Silo.Lib

namespace HarnessRegistry

variable {s t : HarnessRegistry} {L : List HarnessEndpoint} {scan : Scan} {n position : Nat}
    {e endpoint winner loser : HarnessEndpoint} {after : List Operation}

def SharesNothing (a b : HarnessEndpoint) : Prop := a.url ≠ b.url ∧ ∀ h, a.harnessId = some h → b.harnessId ≠ some h

def Distinct (list : List HarnessEndpoint) : Prop := list.Pairwise SharesNothing

/-- `_hasCredentials`, when the reads succeed. -/
def credentialed (s : HarnessRegistry) (e : HarnessEndpoint) : Bool :=
  decide ((.secrets, e.tokenKey) ∈ s.stored) || decide ((.secrets, e.keySeedKey) ∈ s.stored)

def verdict (s : HarnessRegistry) (scan : Scan) (position : Nat) (endpoint : HarnessEndpoint) :
    Reading → Option (HarnessEndpoint × HarnessEndpoint)
  | .earlierToken => none
  | .earlierSeed =>
    let earlier := scan.kept.getD position endpoint
    if (.secrets, earlier.keySeedKey) ∈ s.stored then none else some (endpoint, earlier)
  | .endpointToken =>
    if (.secrets, endpoint.tokenKey) ∈ s.stored then some (endpoint, scan.kept.getD position endpoint) else none
  | .endpointSeed =>
    let earlier := scan.kept.getD position endpoint
    if (.secrets, endpoint.keySeedKey) ∈ s.stored then some (endpoint, earlier) else some (earlier, endpoint)

/-- The winner has the address of another entry, or has or is given its harness id. -/
def clashes (others : List HarnessEndpoint) (winner loser : HarnessEndpoint) : Bool :=
  let id := winner.harnessId.or loser.harnessId
  others.any fun e => decide (e.url = winner.url) || id.isSome && decide (e.harnessId = id)

def Operation.secret : Operation → Bool
  | .write store _ _ => decide (store = .secrets)
  | .delete store _ _ => decide (store = .secrets)
  | .disconnect => false

/-- While a deduplication reads credentials nothing else changes the list or the
credentials, and the reads succeed; a winner clashes with no other entry; and no harness is
added by the harness id of one entry and the address of another. -/
def orderly (s : HarnessRegistry) (act : Act) : Bool :=
  s.undisturbed act &&
    match act with
    | .addLocal _ url (some harnessId) _ =>
      !s.endpoints.any fun a =>
        decide (a.harnessId = some harnessId) && decide (a.url ≠ url) && s.endpoints.any fun b => decide (b.url = url)
    | .proceed n ok =>
      match s.tasks[n]? with
      | some (.reading scan position endpoint read _) =>
        ok && !(s.verdict scan position endpoint read).any fun pair =>
          clashes (scan.kept.eraseIdx position) pair.1 pair.2
      | some (.awaiting (op :: _)) => !(op.secret && s.scanning)
      | _ => true
    | _ => true

/-- Each harness is listed once unless a deduplication is going on, so that loading the list
again changes nothing; and what a step collapses loses no credentials to an entry without. -/
structure Unique (s : HarnessRegistry) : Prop where
  distinct : s.scanning = false → Distinct s.endpoints
  reloaded : s.scanning = false → (opened s.endpoints s.stored).endpoints = s.endpoints ∧
    (opened s.endpoints s.stored).scanning = false ∧ (opened s.endpoints s.stored).collapsed = []
  collapses : ∀ act t, s.orderly act = true → s.next act = some t → ∀ loser winner, (loser, winner) ∈ t.collapsed →
    (loser, winner) ∈ s.collapsed ∨ (s.credentialed loser = true → s.credentialed winner = true)

section Lists

theorem SharesNothing.symm {a b : HarnessEndpoint} (h : SharesNothing a b) : SharesNothing b a :=
  ⟨h.1.symm, fun id hb ha => h.2 id ha hb⟩

theorem sameHarness_eq_false {a b : HarnessEndpoint} : sameHarness a b = false ↔ SharesNothing a b := by
  obtain ⟨_, _, aurl, ah⟩ := a
  obtain ⟨_, _, burl, bh⟩ := b
  cases ah with
  | none => simp [sameHarness, SharesNothing]
  | some ah =>
      simp only [sameHarness, SharesNothing, Option.isSome_some, Bool.true_and, Bool.or_eq_false_iff, decide_eq_false_iff_not,
        Option.some.injEq]
      constructor
      · rintro ⟨hid, hurl⟩
        exact ⟨hurl, fun h hah hbh => hid (hah ▸ hbh.symm)⟩
      · rintro ⟨hurl, hid⟩
        exact ⟨fun h => hid ah rfl h.symm, hurl⟩

theorem distinct_append (h : Distinct L) (he : ∀ x ∈ L, SharesNothing x e) : Distinct (L ++ [e]) := by
  rw [Distinct, List.pairwise_append]
  refine ⟨h, List.pairwise_singleton _ _, ?_⟩
  intro x hx y hy
  rw [List.mem_singleton.mp hy]
  exact he x hx

theorem distinct_perm {L' : List HarnessEndpoint} (h : L.Perm L') (hL : Distinct L) : Distinct L' :=
  (h.pairwise_iff fun h => h.symm).mp hL

theorem distinct_set (h : Distinct L) (hlt : position < L.length) (he : ∀ x ∈ L.eraseIdx position, SharesNothing x e) :
    Distinct (L.set position e) := by
  apply distinct_perm (List.set_perm_cons_eraseIdx hlt e).symm
  rw [Distinct, List.pairwise_cons]
  exact ⟨fun x hx => (he x hx).symm, h.sublist (List.eraseIdx_sublist _ _)⟩

theorem sharesNothing_of_eraseIdx (h : Distinct L) (hlt : position < L.length) {x : HarnessEndpoint}
    (hx : x ∈ L.eraseIdx position) : SharesNothing L[position] x := by
  have hcons := distinct_perm (List.getElem_cons_eraseIdx_perm hlt).symm h
  rw [Distinct, List.pairwise_cons] at hcons
  exact hcons.1 x hx

theorem harnessId_merged (winner loser : HarnessEndpoint) :
    (merged winner loser).harnessId = winner.harnessId.or loser.harnessId := by
  rw [merged]
  cases h : winner.harnessId <;> simp [h]

theorem url_merged (winner loser : HarnessEndpoint) : (merged winner loser).url = winner.url :=
  congrArg (fun core => core.2.2) (core_merged winner loser)

theorem sharesNothing_merged {others : List HarnessEndpoint} (h : clashes others winner loser = false) :
    ∀ x ∈ others, SharesNothing x (merged winner loser) := by
  intro x hx
  simp only [clashes, List.any_eq_false, Bool.or_eq_true, Bool.and_eq_true, decide_eq_true_eq, not_or, not_and] at h
  obtain ⟨hurl, hid⟩ := h x hx
  refine ⟨by rwa [url_merged], ?_⟩
  intro id hsome heq
  rw [harnessId_merged] at heq
  exact hid (by rw [heq]; rfl) (hsome.trans heq.symm)

end Lists

section Upsert

variable {name url newId : String} {harnessId : Option String}

/-- A new entry, or a changed one, has nothing in common with the others. -/
theorem distinct_upsert (h : Distinct s.endpoints)
    (hclear : ∀ id, harnessId = some id → ∀ a ∈ s.endpoints, a.harnessId = some id → a.url ≠ url →
      ∀ b ∈ s.endpoints, b.url ≠ url) :
    Distinct (s.upsert name url harnessId newId).1.endpoints := by
  rw [HarnessRegistry.upsert]
  split
  · rename_i hfind
    rw [List.findIdx?_eq_none_iff] at hfind
    apply distinct_append h
    intro x hx
    have hnone := hfind x hx
    simp only [Bool.or_eq_false_iff, Bool.and_eq_false_iff, decide_eq_false_iff_not, Option.isSome_eq_false_iff,
      Option.isNone_iff_eq_none] at hnone
    refine ⟨hnone.2, ?_⟩
    intro id hsome heq
    dsimp only at heq
    rcases hnone.1 with hnil | hne
    · rw [hnil] at heq
      cases heq
    · exact hne (hsome.trans heq.symm)
  · rename_i index hfind
    obtain ⟨hlt, hfound, -⟩ := List.findIdx?_eq_some_iff_getElem.mp hfind
    have hold : s.endpoints.getD index ⟨newId, name, url, harnessId⟩ = s.endpoints[index] := by
      simp [List.getD_eq_getElem?_getD, List.getElem?_eq_getElem hlt]
    dsimp only
    rw [hold]
    generalize hentry : s.endpoints[index] = old at hfound
    have hmem : old ∈ s.endpoints := hentry ▸ List.getElem_mem hlt
    apply distinct_set h hlt
    intro x hx
    have hsharesNothing : SharesNothing old x := hentry ▸ sharesNothing_of_eraseIdx h hlt hx
    have hxmem : x ∈ s.endpoints := (List.eraseIdx_sublist _ _).subset hx
    simp only [Bool.or_eq_true, Bool.and_eq_true, decide_eq_true_eq] at hfound
    constructor
    · -- the entry was found by its address, or by the harness id
      dsimp only
      rintro hurl
      rcases hfound with ⟨hsome, hid⟩ | hold
      · obtain ⟨id, hid'⟩ := Option.isSome_iff_exists.mp hsome
        by_cases hsame : old.url = url
        · exact hsharesNothing.1 (hsame.trans hurl.symm)
        · exact hclear id hid' old hmem (hid.trans hid') hsame x hxmem hurl
      · exact hsharesNothing.1 (hold.trans hurl.symm)
    · intro id hxid heq
      dsimp only at heq
      cases hh : harnessId with
      | none =>
          rw [hh] at heq
          exact hsharesNothing.2 id heq hxid
      | some given =>
          rw [hh] at heq
          have hgiven : given = id := Option.some.inj heq
          subst hgiven
          rcases hfound with ⟨-, hid⟩ | hold
          · exact hsharesNothing.2 given (hid.trans hh) hxid
          · have hxurl : x.url ≠ url := fun hurl => hsharesNothing.1 (hold.trans hurl.symm)
            exact hclear given hh x hxmem hxid hxurl old hmem hold

end Upsert

section Scans

/-- The scan has sorted the first `n` entries, so that what it kept has nothing in common and
no credentials were lost to an entry without. -/
structure Sorting (s : HarnessRegistry) (scan : Scan) (n : Nat) : Prop where
  length : scan.length = s.endpoints.length
  distinct : Distinct scan.kept
  whole : scan.removed = [] → scan.kept = s.endpoints.take n
  fair : ∀ pair ∈ scan.removed, s.credentialed pair.1 = true → s.credentialed pair.2 = true

def Known (s : HarnessRegistry) (earlier endpoint : HarnessEndpoint) : Reading → Prop
  | .earlierToken => True
  | .earlierSeed => (.secrets, earlier.tokenKey) ∉ s.stored
  | .endpointToken => True
  | .endpointSeed => (.secrets, endpoint.tokenKey) ∉ s.stored

structure Comparing (s : HarnessRegistry) (scan : Scan) (position : Nat) (endpoint : HarnessEndpoint) (read : Reading) :
    Prop where
  sorting : ∃ n, scan.index = n + 1 ∧ s.endpoints[n]? = some endpoint ∧ Sorting s scan n
  earlier : position < scan.kept.length
  known : Known s (scan.kept.getD position endpoint) endpoint read

theorem sweep_sorting : ∀ (rest : List HarnessEndpoint) (scan : Scan), rest = s.endpoints.drop scan.index →
    Sorting s scan scan.index →
    match sweep scan rest with
    | (scan', some (position, endpoint)) => Comparing s scan' position endpoint .earlierToken
    | (scan', none) => Sorting s scan' s.endpoints.length
  | [], scan, hrest, h => by
      have hle : s.endpoints.length ≤ scan.index := by simpa using hrest.symm
      simp only [sweep]
      refine ⟨h.length, h.distinct, ?_, h.fair⟩
      intro hnil
      rw [h.whole hnil, List.take_of_length_le hle, List.take_length]
  | endpoint :: rest, scan, hrest, h => by
      have hn : s.endpoints[scan.index]? = some endpoint := by
        rw [← List.head?_drop, ← hrest]
        rfl
      simp only [sweep]
      cases hfind : scan.kept.findIdx? (sameHarness · endpoint) with
      | none =>
          rw [List.findIdx?_eq_none_iff] at hfind
          apply sweep_sorting rest
          · rw [← List.tail_drop, ← hrest]
            rfl
          · refine ⟨h.length, distinct_append h.distinct fun x hx => sameHarness_eq_false.mp (hfind x hx), ?_, h.fair⟩
            intro hnil
            rw [take_succ_of_getElem? hn, ← h.whole hnil]
      | some position =>
          obtain ⟨hlt, -⟩ := List.findIdx?_eq_some_iff_getElem.mp hfind
          exact ⟨⟨scan.index, rfl, hn, h.length, h.distinct, h.whole, h.fair⟩, hlt, trivial⟩

/-- A deduplication goes on to compare two entries, or ends with a list in which nothing is
in common. -/
inductive Sorted (s : HarnessRegistry) : HarnessRegistry × Task → Prop
  | comparing {scan : Scan} {position : Nat} {endpoint : HarnessEndpoint} {after : List Operation} :
      Comparing s scan position endpoint .earlierToken → Sorted s (s, .reading scan position endpoint .earlierToken after)
  | same {todo : List Operation} : Distinct s.endpoints → Sorted s (s, .awaiting todo)
  | collapsed {kept : List HarnessEndpoint} {removed : List (HarnessEndpoint × HarnessEndpoint)} {todo : List Operation} :
      Distinct kept → (∀ pair ∈ removed, s.credentialed pair.1 = true → s.credentialed pair.2 = true) →
      Sorted s ({ s with endpoints := kept, collapsed := s.collapsed ++ removed }, .awaiting todo)

theorem sorted_dedupeFrom (h : Sorting s scan scan.index) : Sorted s (s.dedupeFrom scan after) := by
  have hsweep := sweep_sorting _ scan rfl h
  rw [dedupeFrom, if_neg (not_not.mpr h.length)]
  split
  · rename_i scan' position endpoint heq
    rw [heq] at hsweep
    exact .comparing hsweep
  · rename_i scan' heq
    rw [heq] at hsweep
    split
    · rename_i hnil
      apply Sorted.same
      have hkept := hsweep.whole (List.isEmpty_iff.mp hnil)
      rw [List.take_length] at hkept
      exact hkept ▸ hsweep.distinct
    · exact .collapsed hsweep.distinct hsweep.fair

theorem sorting_start (s : HarnessRegistry) : Sorting s ⟨s.endpoints.length, 0, [], []⟩ 0 :=
  ⟨rfl, List.Pairwise.nil, fun _ => rfl, by simp⟩

theorem Comparing.settle {read : Reading} (h : Comparing s scan position endpoint read)
    (hclash : clashes (scan.kept.eraseIdx position) winner loser = false)
    (hfair : s.credentialed loser = true → s.credentialed winner = true) :
    Sorting s (scan.settle position winner loser) (scan.settle position winner loser).index := by
  obtain ⟨n, hindex, -, hsorting⟩ := h.sorting
  have hsettle : scan.settle position winner loser = { scan with
      kept := scan.kept.set position (merged winner loser), removed := scan.removed ++ [(loser, merged winner loser)] } := rfl
  rw [hsettle]
  refine ⟨hsorting.length, distinct_set hsorting.distinct h.earlier (sharesNothing_merged hclash), ?_, ?_⟩
  · intro hnil
    exact absurd hnil (by simp)
  · intro pair hpair
    rcases List.mem_append.mp hpair with hpair | hpair
    · exact hsorting.fair pair hpair
    · rw [List.mem_singleton.mp hpair]
      have htoken : (merged winner loser).tokenKey = winner.tokenKey :=
        congrArg (fun id => "silo/" ++ id ++ "/token") (id_merged winner loser)
      have hseed : (merged winner loser).keySeedKey = winner.keySeedKey :=
        congrArg (fun id => "silo/" ++ id ++ "/key_seed") (id_merged winner loser)
      have hsame : s.credentialed (merged winner loser) = s.credentialed winner := by
        rw [credentialed, htoken, hseed]
        rfl
      rwa [hsame]

end Scans

/-- Nothing in the list has anything in common, or one deduplication compares two entries. -/
inductive Tidy (s : HarnessRegistry) : Prop
  | quiet : s.scanning = false → Distinct s.endpoints → Tidy s
  | comparing {n : Nat} {scan : Scan} {position : Nat} {endpoint : HarnessEndpoint} {read : Reading}
      {after : List Operation} : s.tasks[n]? = some (.reading scan position endpoint read after) →
      (∀ k task, k ≠ n → s.tasks[k]? = some task → task.scanning = false) →
      Comparing s scan position endpoint read → Tidy s

section Steps

variable {task : Task} {read : Reading}

theorem quiet_iff : s.scanning = false ↔
    ∀ (k : Nat) (task : Task), s.tasks[k]? = some task → task.scanning = false := by
  rw [scanning_eq_false]
  constructor
  · exact fun h k task hk => h task (List.mem_of_getElem? hk)
  · intro h task hmem
    obtain ⟨k, hk⟩ := List.mem_iff_getElem?.mp hmem
    exact h k task hk

theorem credentialed_same (hstored : ∀ key, (.secrets, key) ∈ t.stored ↔ (.secrets, key) ∈ s.stored)
    (e : HarnessEndpoint) : t.credentialed e = s.credentialed e := by
  simp only [credentialed, hstored]

/-- A comparison does not depend on what other calls do to other values. -/
theorem Comparing.same (h : Comparing s scan position endpoint read) (hendpoints : t.endpoints = s.endpoints)
    (hstored : ∀ key, (.secrets, key) ∈ t.stored ↔ (.secrets, key) ∈ s.stored) :
    Comparing t scan position endpoint read := by
  obtain ⟨⟨n, hindex, hn, hsorting⟩, hearlier, hknown⟩ := h
  refine ⟨⟨n, hindex, hendpoints ▸ hn, ?_⟩, hearlier, ?_⟩
  · refine ⟨hendpoints ▸ hsorting.length, hsorting.distinct, hendpoints ▸ hsorting.whole, ?_⟩
    intro pair hpair
    rw [credentialed_same hstored, credentialed_same hstored]
    exact hsorting.fair pair hpair
  · cases read with
    | earlierToken | endpointToken => trivial
    | earlierSeed | endpointSeed => exact fun h => hknown ((hstored _).mp h)

theorem scanning_begin (h : s.scanning = false) (htask : task.scanning = false) : (s.begin task).scanning = false := by
  rw [scanning] at h ⊢
  simp [begin, List.any_append, h, htask]

theorem Tidy.tasks (h : Tidy s) (hn : s.tasks[n]? = some task) (htask : task.scanning = true) :
    ∀ k task', k ≠ n → s.tasks[k]? = some task' → task'.scanning = false := by
  cases h with
  | quiet hscan => exact absurd (quiet_iff.mp hscan n task hn) (by simp [htask])
  | @comparing m _ _ _ _ _ hm hothers =>
      have hnm : n = m := by
        by_contra hne
        exact absurd (hothers n task hne hn) (by simp [htask])
      subst hnm
      exact hothers

theorem Tidy.compares (h : Tidy s) (hn : s.tasks[n]? = some (.reading scan position endpoint read after)) :
    Comparing s scan position endpoint read := by
  cases h with
  | quiet hscan => exact absurd (quiet_iff.mp hscan n _ hn) (by simp [Task.scanning])
  | @comparing m _ _ _ _ _ hm hothers hcomparing =>
      have hnm : n = m := by
        by_contra hne
        exact absurd (hothers n _ hne hn) (by simp [Task.scanning])
      subst hnm
      cases hm.symm.trans hn
      exact hcomparing

theorem lt_of_getElem? {α : Type} {l : List α} {a : α} (h : l[n]? = some a) : n < l.length :=
  (List.getElem?_eq_some_iff.mp h).1

theorem task_of_set {k : Nat} {todo : List Operation} (hk : (s.tasks.set n (.awaiting todo))[k]? = some task) :
    task.scanning = false ∨ k ≠ n ∧ s.tasks[k]? = some task := by
  rw [List.getElem?_set] at hk
  split at hk
  · split at hk
    · cases hk
      exact .inl rfl
    · cases hk
  · exact .inr ⟨Ne.symm ‹_›, hk⟩

theorem tidy_setTask {outcome : HarnessRegistry × Task} (hn : n < s.tasks.length)
    (hothers : ∀ k task', k ≠ n → s.tasks[k]? = some task' → task'.scanning = false) (h : Sorted s outcome) :
    Tidy (outcome.1.setTask n outcome.2) := by
  have hquiet {t : HarnessRegistry} {todo : List Operation} (htasks : t.tasks = s.tasks) :
      (t.setTask n (.awaiting todo)).scanning = false := by
    rw [quiet_iff]
    intro k task hk
    rw [setTask, htasks] at hk
    exact (task_of_set hk).elim id fun hother => hothers k task hother.1 hother.2
  cases h with
  | @comparing scan position endpoint after hcomparing =>
      refine .comparing (n := n) (List.getElem?_set_self hn) ?_ (hcomparing.same rfl fun _ => Iff.rfl)
      intro k task hk htask
      rw [setTask, List.getElem?_set_ne (Ne.symm hk)] at htask
      exact hothers k task hk htask
  | same hdistinct => exact .quiet (hquiet rfl) hdistinct
  | collapsed hdistinct => exact .quiet (hquiet rfl) hdistinct

theorem tidy_begin {outcome : HarnessRegistry × Task} (h : Sorted s outcome) (hscan : s.scanning = false) :
    Tidy (outcome.1.begin outcome.2) := by
  cases h with
  | @comparing scan position endpoint after hcomparing =>
      refine .comparing (n := s.tasks.length) List.getElem?_concat_length ?_ (hcomparing.same rfl fun _ => Iff.rfl)
      · intro k task hk htask
        have hlt : k < s.tasks.length + 1 := by simpa [begin] using lt_of_getElem? htask
        change (s.tasks ++ [_])[k]? = some task at htask
        rw [List.getElem?_append_left (by omega)] at htask
        exact quiet_iff.mp hscan k task htask
  | same hdistinct => exact .quiet (scanning_begin hscan rfl) hdistinct
  | collapsed hdistinct => exact .quiet (scanning_begin (s := { s with endpoints := _, collapsed := _ }) hscan rfl) hdistinct

theorem sorted_readCredentials (hcomparing : Comparing s scan position endpoint read)
    (hclash : (s.verdict scan position endpoint read).any (fun pair =>
      clashes (scan.kept.eraseIdx position) pair.1 pair.2) = false) :
    ∃ outcome : HarnessRegistry × Task, s.readCredentials n scan position endpoint after true read =
      outcome.1.setTask n outcome.2 ∧
        (Sorted s outcome ∨ ∃ read', outcome = (s, .reading scan position endpoint read' after) ∧
          Comparing s scan position endpoint read') := by
  have hearlier := hcomparing.earlier
  have hsettle (winner loser : HarnessEndpoint)
      (hverdict : s.verdict scan position endpoint read = some (winner, loser))
      (hfair : s.credentialed loser = true → s.credentialed winner = true) :
      Sorted s (s.dedupeFrom (scan.settle position winner loser) after) := by
    rw [hverdict, Option.any_some] at hclash
    exact sorted_dedupeFrom (hcomparing.settle hclash hfair)
  have hask (read' : Reading) (hknown : Known s (scan.kept.getD position endpoint) endpoint read') :
      Comparing s scan position endpoint read' := ⟨hcomparing.sorting, hearlier, hknown⟩
  have hknown := hcomparing.known
  cases read with
  | earlierToken =>
      by_cases hstored : (.secrets, (scan.kept.getD position endpoint).tokenKey) ∈ s.stored
      · refine ⟨(s, .reading scan position endpoint .endpointToken after), ?_, .inr ⟨_, rfl, hask _ trivial⟩⟩
        simp only [HarnessRegistry.readCredentials, hstored, decide_true, Bool.true_and]
      · refine ⟨(s, .reading scan position endpoint .earlierSeed after), ?_, .inr ⟨_, rfl, hask _ hstored⟩⟩
        simp only [HarnessRegistry.readCredentials, hstored, decide_false, Bool.true_and]
  | earlierSeed =>
      by_cases hstored : (.secrets, (scan.kept.getD position endpoint).keySeedKey) ∈ s.stored
      · refine ⟨(s, .reading scan position endpoint .endpointToken after), ?_, .inr ⟨_, rfl, hask _ trivial⟩⟩
        simp only [HarnessRegistry.readCredentials, hstored, decide_true, Bool.true_and]
      · refine ⟨_, ?_, .inl (hsettle endpoint (scan.kept.getD position endpoint) ?_ ?_)⟩
        · simp only [HarnessRegistry.readCredentials, hstored, decide_false, Bool.true_and]
        · simp only [verdict, hstored, if_false]
        · intro hcredentialed
          simp only [credentialed, Bool.or_eq_true, decide_eq_true_eq] at hcredentialed
          exact hcredentialed.elim (absurd · hknown) (absurd · hstored)
  | endpointToken =>
      by_cases hstored : (.secrets, endpoint.tokenKey) ∈ s.stored
      · refine ⟨_, ?_, .inl (hsettle endpoint (scan.kept.getD position endpoint) ?_ ?_)⟩
        · simp only [HarnessRegistry.readCredentials, hstored, decide_true, Bool.true_and]
        · simp only [verdict, hstored, if_true]
        · intro _
          simp [credentialed, hstored]
      · refine ⟨(s, .reading scan position endpoint .endpointSeed after), ?_, .inr ⟨_, rfl, hask _ hstored⟩⟩
        simp only [HarnessRegistry.readCredentials, hstored, decide_false, Bool.true_and]
  | endpointSeed =>
      by_cases hstored : (.secrets, endpoint.keySeedKey) ∈ s.stored
      · refine ⟨_, ?_, .inl (hsettle endpoint (scan.kept.getD position endpoint) ?_ ?_)⟩
        · simp only [HarnessRegistry.readCredentials, hstored, decide_true, Bool.true_and]
        · simp only [verdict, hstored, if_true]
        · intro _
          simp [credentialed, hstored]
      · refine ⟨_, ?_, .inl (hsettle (scan.kept.getD position endpoint) endpoint ?_ ?_)⟩
        · simp only [HarnessRegistry.readCredentials, hstored, decide_false, Bool.true_and]
        · simp only [verdict, hstored, if_false]
        · intro hcredentialed
          simp only [credentialed, Bool.or_eq_true, decide_eq_true_eq] at hcredentialed
          exact hcredentialed.elim (absurd · hknown) (absurd · hstored)

theorem collapses_of_sorted {outcome : HarnessRegistry × Task} (h : Sorted s outcome)
    {pair : HarnessEndpoint × HarnessEndpoint} (hpair : pair ∈ outcome.1.collapsed) :
    pair ∈ s.collapsed ∨ (s.credentialed pair.1 = true → s.credentialed pair.2 = true) := by
  cases h with
  | comparing | same => exact .inl hpair
  | collapsed _ hfair =>
      rcases List.mem_append.mp hpair with hpair | hpair
      · exact .inl hpair
      · exact .inr (hfair pair hpair)

def Keeps (s t : HarnessRegistry) : Prop :=
  Tidy t ∧ ∀ pair ∈ t.collapsed,
    pair ∈ s.collapsed ∨ (s.credentialed pair.1 = true → s.credentialed pair.2 = true)

theorem keeps_self (h : Tidy s) : Keeps s s := ⟨h, fun _ hpair => .inl hpair⟩

theorem upsert_frame (name url newId : String) (harnessId : Option String) :
    (s.upsert name url harnessId newId).1.tasks = s.tasks ∧
      (s.upsert name url harnessId newId).1.collapsed = s.collapsed := by
  rw [HarnessRegistry.upsert]
  split <;> exact ⟨rfl, rfl⟩

theorem keeps_upsert {name url newId : String} {harnessId : Option String} {todo : List Operation}
    (hscan : s.scanning = false) (hdistinct : Distinct s.endpoints)
    (hclear : ∀ id, harnessId = some id → ∀ a ∈ s.endpoints, a.harnessId = some id → a.url ≠ url →
      ∀ b ∈ s.endpoints, b.url ≠ url) :
    Keeps s ((s.upsert name url harnessId newId).1.begin (.awaiting todo)) := by
  obtain ⟨htasks, hcollapsed⟩ := @upsert_frame s name url newId harnessId
  constructor
  · refine .quiet (scanning_begin ?_ rfl) (distinct_upsert hdistinct hclear)
    rw [scanning, htasks]
    exact hscan
  · intro pair hpair
    rw [begin, hcollapsed] at hpair
    exact .inl hpair

theorem Tidy.distinct (h : Tidy s) (hscan : s.scanning = false) : Distinct s.endpoints := by
  cases h with
  | quiet _ hdistinct => exact hdistinct
  | comparing hn => exact absurd (quiet_iff.mp hscan _ _ hn) (by simp [Task.scanning])

theorem keeps_perform {op : Operation} {todo : List Operation} (h : Tidy s)
    (hn : s.tasks[n]? = some (.awaiting (op :: todo))) (hsecret : op.secret = true → s.scanning = false) (ok : Bool) :
    Keeps s (s.perform n todo ok op) := by
  obtain ⟨todo', stored, dropped, heq, hstored⟩ : ∃ todo' stored dropped, s.perform n todo ok op =
      { s with stored := stored, dropped := dropped }.setTask n (.awaiting todo') ∧
        (op.secret = false → ∀ key, (.secrets, key) ∈ stored ↔ (.secrets, key) ∈ s.stored) := by
    cases op with
    | disconnect => exact ⟨todo, s.stored, s.dropped, rfl, fun _ _ => Iff.rfl⟩
    | write store key tried =>
        cases ok with
        | false => exact ⟨_, s.stored, s.dropped, rfl, fun _ _ => Iff.rfl⟩
        | true =>
            refine ⟨todo, (store, key) :: s.stored, s.dropped, rfl, ?_⟩
            intro hsettings other
            cases store with
            | secrets => cases hsettings
            | settings => simp
    | delete store key e =>
        cases ok with
        | false => exact ⟨todo, s.stored, s.dropped, rfl, fun _ _ => Iff.rfl⟩
        | true =>
            refine ⟨todo, s.stored.filter (· ≠ (store, key)), _, rfl, ?_⟩
            intro hsettings other
            cases store with
            | secrets => cases hsettings
            | settings => simp
  rw [heq]
  refine ⟨?_, fun _ hpair => .inl hpair⟩
  by_cases hscan : s.scanning = false
  · apply Tidy.quiet
    · rw [quiet_iff] at hscan ⊢
      exact fun k task hk => (task_of_set hk).elim id fun hother => hscan k task hother.2
    · exact h.distinct hscan
  · cases h with
    | quiet hquiet => exact absurd hquiet hscan
    | @comparing m scan position endpoint read after hm hothers hcomparing =>
        have hne : n ≠ m := by
          rintro rfl
          cases hm.symm.trans hn
        have hplain : op.secret = false := Bool.eq_false_iff.mpr fun hop => hscan (hsecret hop)
        refine .comparing ((List.getElem?_set_ne hne).trans hm) ?_ (hcomparing.same rfl (hstored hplain))
        exact fun k task hk htask => (task_of_set htask).elim id fun hother => hothers k task hk hother.2

theorem keeps_next {act : Act} (h : Tidy s) (horderly : s.orderly act = true) (hnext : s.next act = some t) :
    Keeps s t := by
  unfold orderly at horderly
  rw [Bool.and_eq_true] at horderly
  obtain ⟨hundisturbed, horderly⟩ := horderly
  cases undisturbed_of_next hundisturbed hnext with
  | idle => exact keeps_self h
  | addLocal hquiet =>
      apply keeps_upsert hquiet (h.distinct hquiet)
      rintro id rfl a ha hid hne b hb hurl
      rw [Bool.not_eq_true', List.any_eq_false] at horderly
      apply horderly a ha
      rw [Bool.and_eq_true, Bool.and_eq_true, List.any_eq_true]
      exact ⟨⟨decide_eq_true hid, decide_eq_true hne⟩, b, hb, decide_eq_true hurl⟩
  | addPaired hquiet => exact keeps_upsert hquiet (h.distinct hquiet) fun id hnone => nomatch hnone
  | remove hquiet =>
      refine ⟨.quiet (scanning_begin hquiet rfl) ?_, fun _ hpair => .inl hpair⟩
      exact List.Pairwise.sublist List.eraseP_sublist (h.distinct hquiet)
  | @note _ _ _ _ noted hquiet hi hnoted =>
      have hsorted : Sorted noted (noted.dedupeEndpoints persistOps) := sorted_dedupeFrom (sorting_start noted)
      subst hnoted
      exact ⟨tidy_begin hsorted hquiet, fun pair hpair => collapses_of_sorted hsorted hpair⟩
  | reading hn =>
      simp only [hn, Bool.and_eq_true, Bool.not_eq_true'] at horderly
      obtain ⟨rfl, hclash⟩ := horderly
      obtain ⟨outcome, heq, hsorted | ⟨read', rfl, hcomparing⟩⟩ := sorted_readCredentials (h.compares hn) hclash
      · rw [heq]
        exact ⟨tidy_setTask (lt_of_getElem? hn) (h.tasks hn rfl) hsorted,
          fun pair hpair => collapses_of_sorted hsorted hpair⟩
      · rw [heq]
        refine ⟨?_, fun _ hpair => .inl hpair⟩
        refine .comparing (List.getElem?_set_self (lt_of_getElem? hn)) ?_ (hcomparing.same rfl fun _ => Iff.rfl)
        intro k task hk htask
        rw [setTask, List.getElem?_set_ne (Ne.symm hk)] at htask
        exact h.tasks hn rfl k task hk htask
  | performing hn =>
      apply keeps_perform h hn
      intro hsecret
      simpa [hn, hsecret] using horderly

end Steps

theorem tidy_opened (list : List HarnessEndpoint) (stored : List (KeyStore × String)) : Tidy (opened list stored) := by
  let s : HarnessRegistry :=
    { endpoints := list, stored := stored, tasks := [], ids := list.map HarnessEndpoint.id,
      configured := list, taken := [], collapsed := [], dropped := [] }
  have hsorted : Sorted s (s.dedupeEndpoints []) := sorted_dedupeFrom (sorting_start s)
  exact tidy_begin hsorted rfl

/-- A list without anything in common is kept whole by a scan that compares nothing. -/
theorem sweep_distinct : ∀ (rest : List HarnessEndpoint) (scan : Scan), Distinct (scan.kept ++ rest) →
    sweep scan rest = ({ scan with index := scan.index + rest.length, kept := scan.kept ++ rest }, none)
  | [], scan, _ => by simp [sweep]
  | endpoint :: rest, scan, h => by
      have hnone : scan.kept.findIdx? (sameHarness · endpoint) = none := by
        rw [List.findIdx?_eq_none_iff]
        intro x hx
        exact sameHarness_eq_false.mpr ((List.pairwise_append.mp h).2.2 x hx endpoint List.mem_cons_self)
      rw [sweep, hnone]
      dsimp only
      rw [sweep_distinct rest _ (by simpa using h)]
      simp only [List.append_assoc, List.singleton_append, List.length_cons, Prod.mk.injEq, Scan.mk.injEq, and_true,
        true_and]
      omega

theorem opened_distinct {list : List HarnessEndpoint} (stored : List (KeyStore × String)) (h : Distinct list) :
    (opened list stored).endpoints = list ∧ (opened list stored).scanning = false ∧
      (opened list stored).collapsed = [] := by
  simp only [opened, dedupeEndpoints, dedupeFrom, List.drop_zero]
  rw [if_neg (not_not.mpr rfl), sweep_distinct list _ (by simpa using h)]
  exact ⟨rfl, rfl, rfl⟩

theorem Tidy.unique (h : Tidy s) : s.Unique where
  distinct := h.distinct
  reloaded hscan := opened_distinct s.stored (h.distinct hscan)
  collapses _ _ horderly hnext _ _ hpair := (keeps_next h horderly hnext).2 _ hpair

/-- In a run whose steps are all in order, each harness is listed once. -/
theorem unique_of_orderly (list : List HarnessEndpoint) (stored : List (KeyStore × String)) (s : HarnessRegistry)
    (h : machine.RunsTo (fun s act => s.orderly act = true) (opened list stored) s) : s.Unique := by
  have hs : Tidy s :=
    Machine.RunsTo.invariant (fun hs hc hn => (keeps_next hs hc hn).1) (tidy_opened list stored) h
  exact hs.unique

/-- A saved list with one harness twice, the later time with credentials. -/
def twiceListed : List HarnessEndpoint := [⟨"a", "old", "u1", some "h"⟩, ⟨"b", "new", "u2", some "h"⟩]

theorem unique_twiceListed :
    ∃ s, machine.RunsTo (fun s act => s.orderly act = true)
        (opened twiceListed [(.secrets, "silo/b/token")]) s ∧ s.Unique ∧ s.scanning = false ∧
      s.endpoints.map HarnessEndpoint.id = ["b"] := by
  obtain ⟨s, hs, hout⟩ := (Option.any_eq_true
    (fun s : HarnessRegistry => decide (s.scanning = false ∧ s.endpoints.map HarnessEndpoint.id = ["b"]))
    (machine.runChecked orderly (opened twiceListed [(.secrets, "silo/b/token")])
      [.proceed 0 true, .proceed 0 true])).mp rfl
  have hrun := Machine.runsTo_of_runChecked hs
  exact ⟨s, hrun, unique_of_orderly twiceListed _ s hrun, of_decide_eq_true hout⟩

/-- The third entry has the address of the first and the harness id of the second. -/
def crosswise : List HarnessEndpoint :=
  [⟨"a", "one", "u1", none⟩, ⟨"b", "two", "u2", some "h"⟩, ⟨"c", "both", "u1", some "h"⟩]

theorem not_unique_crosswise :
    ∃ s, machine.RunsTo (fun _ _ => True) (opened crosswise []) s ∧ s.scanning = false ∧ ¬ s.Unique := by
  obtain ⟨s, hs, hout⟩ := (Option.any_eq_true
    (fun s : HarnessRegistry => decide (s.scanning = false ∧ s.endpoints.map HarnessEndpoint.harnessId = [some "h", some "h"]))
    (machine.run (opened crosswise []) [.proceed 0 true, .proceed 0 true])).mp rfl
  obtain ⟨hscan, hids⟩ := of_decide_eq_true hout
  refine ⟨s, Machine.runsTo_of_run hs, hscan, ?_⟩
  intro h
  have hdistinct : s.endpoints.Pairwise SharesNothing := h.distinct hscan
  have hne : (s.endpoints.map HarnessEndpoint.harnessId).Pairwise fun a b => ∀ h, a = some h → b ≠ some h :=
    List.pairwise_map.mpr (hdistinct.imp fun hsharesNothing => hsharesNothing.2)
  rw [hids] at hne
  simp at hne

end HarnessRegistry

end Silo.Clients
