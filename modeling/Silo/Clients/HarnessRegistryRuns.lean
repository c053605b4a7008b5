import Mathlib.Data.List.Nodup
import Mathlib.Data.List.Perm.Basic
import Silo.Clients.HarnessRegistry

namespace Silo.Clients

open Silo.Lib

namespace HarnessRegistry

variable {s t : HarnessRegistry} {L : List HarnessEndpoint} {scan : Scan} {n position : Nat}
    {e endpoint earlier winner loser : HarnessEndpoint} {id : String}

theorem sameHarness_comm (a b : HarnessEndpoint) : sameHarness a b = sameHarness b a := by
  obtain ⟨_, _, aurl, ah⟩ := a
  obtain ⟨_, _, burl, bh⟩ := b
  cases ah <;> cases bh <;> simp [sameHarness, eq_comm]

inductive Led (scan : Scan) : String → Prop
  | kept {e : HarnessEndpoint} : e ∈ scan.kept → Led scan e.id
  | removed {loser winner : HarnessEndpoint} : (loser, winner) ∈ scan.removed → sameHarness loser winner = true →
      Led scan winner.id → Led scan loser.id

/-- The scan has sorted the first `n` entries of the list. -/
structure Scanned (L : List HarnessEndpoint) (scan : Scan) (n : Nat) : Prop where
  length : scan.length = L.length
  covers : ((scan.kept ++ scan.removed.map Prod.fst).map HarnessEndpoint.core).Perm
    ((L.take n).map HarnessEndpoint.core)
  led : ∀ e ∈ L.take n, Led scan e.id

structure Reads (L : List HarnessEndpoint) (scan : Scan) (position : Nat) (endpoint : HarnessEndpoint) : Prop where
  scanned : ∃ n, scan.index = n + 1 ∧ L[n]? = some endpoint ∧ Scanned L scan n
  earlier : ∃ earlier, scan.kept[position]? = some earlier ∧ sameHarness earlier endpoint = true

theorem scanned_start (L : List HarnessEndpoint) : Scanned L ⟨L.length, 0, [], []⟩ 0 :=
  ⟨rfl, by simp, by simp⟩

theorem Led.mono {scan' : Scan} (hkept : ∀ e ∈ scan.kept, Led scan' e.id)
    (hremoved : ∀ pair ∈ scan.removed, pair ∈ scan'.removed) (h : Led scan id) : Led scan' id := by
  induction h with
  | kept he => exact hkept _ he
  | removed hpair hsame _ ih => exact .removed (hremoved _ hpair) hsame ih

theorem take_succ_of_getElem? (h : L[n]? = some e) : L.take (n + 1) = L.take n ++ [e] := by
  rw [List.take_add_one, h]
  rfl

theorem Scanned.extend (scan' : Scan) (h : Scanned L scan n) (hn : L[n]? = some e)
    (hlength : scan'.length = scan.length)
    (hperm : ((scan'.kept ++ scan'.removed.map Prod.fst).map HarnessEndpoint.core).Perm
      ((e :: (scan.kept ++ scan.removed.map Prod.fst)).map HarnessEndpoint.core))
    (hold : ∀ e ∈ scan.kept, Led scan' e.id) (hremoved : ∀ pair ∈ scan.removed, pair ∈ scan'.removed)
    (hnew : Led scan' e.id) : Scanned L scan' (n + 1) := by
  refine ⟨hlength.trans h.length, ?_, ?_⟩
  · rw [take_succ_of_getElem? hn]
    apply hperm.trans
    rw [List.map_cons, List.map_append, List.map_append, List.map_singleton, ← List.map_append]
    exact (h.covers.cons _).trans (List.perm_append_singleton _ _).symm
  · intro x hx
    rw [take_succ_of_getElem? hn] at hx
    rcases List.mem_append.mp hx with hx | hx
    · exact (h.led x hx).mono hold hremoved
    · rw [List.mem_singleton.mp hx]
      exact hnew

theorem Scanned.keep (h : Scanned L scan n) (hn : L[n]? = some e) (i : Nat) :
    Scanned L { scan with index := i, kept := scan.kept ++ [e] } (n + 1) := by
  refine h.extend _ hn rfl ?_ ?_ ?_ ?_
  · apply List.Perm.map
    simp only [List.append_assoc, List.singleton_append]
    exact List.perm_middle
  · intro x hx
    exact .kept (List.mem_append_left _ hx)
  · exact fun _ hpair => hpair
  · exact .kept (List.mem_append_right _ (List.mem_singleton.mpr rfl))

/-- The winner as `_dedupeEndpoints` keeps it. -/
def merged (winner loser : HarnessEndpoint) : HarnessEndpoint :=
  if winner.harnessId.isNone then { winner with harnessId := loser.harnessId } else winner

theorem core_merged (winner loser : HarnessEndpoint) : (merged winner loser).core = winner.core := by
  simp only [merged]
  split <;> rfl

theorem id_merged (winner loser : HarnessEndpoint) : (merged winner loser).id = winner.id :=
  congrArg Prod.fst (core_merged winner loser)

theorem sameHarness_merged (h : sameHarness loser winner = true) : sameHarness loser (merged winner loser) = true := by
  simp only [merged]
  split
  case isTrue hnone =>
    have hurl : loser.url = winner.url := by
      have hw : winner.harnessId = none := by simpa using hnone
      cases hl : loser.harnessId <;> simpa [sameHarness, hw, hl] using h
    simp [sameHarness, hurl]
  case isFalse => exact h

/-- Both entries of a pair are led on once it is settled, and so are the others. -/
theorem led_settle (hposition : position < scan.kept.length) (hsame : sameHarness loser winner = true) :
    Led (scan.settle position winner loser) winner.id ∧ Led (scan.settle position winner loser) loser.id := by
  have hmem : merged winner loser ∈ (scan.settle position winner loser).kept := List.mem_set hposition _
  have hwinner : Led (scan.settle position winner loser) (merged winner loser).id := .kept hmem
  constructor
  · rw [← id_merged winner loser]
    exact hwinner
  · exact .removed (List.mem_append_right _ (List.mem_singleton.mpr rfl)) (sameHarness_merged hsame) hwinner

theorem led_settle_kept (hearlier : scan.kept[position]? = some earlier)
    (hled : Led (scan.settle position winner loser) earlier.id) :
    ∀ e ∈ scan.kept, Led (scan.settle position winner loser) e.id := by
  intro x hx
  obtain ⟨i, hi⟩ := List.mem_iff_getElem?.mp hx
  by_cases hip : i = position
  · subst hip
    obtain rfl : earlier = x := Option.some.inj (hearlier.symm.trans hi)
    exact hled
  · apply Led.kept
    apply List.mem_of_getElem? (i := i)
    simpa [Scan.settle, List.getElem?_set_ne (Ne.symm hip)] using hi

theorem perm_set {α : Type} {l : List α} {a b : α} {i : Nat} (h : l[i]? = some a) :
    (a :: l.set i b).Perm (b :: l) := by
  obtain ⟨hi, rfl⟩ := List.getElem?_eq_some_iff.mp h
  calc (l[i] :: l.set i b).Perm (l[i] :: b :: l.eraseIdx i) := (List.set_perm_cons_eraseIdx hi b).cons _
    _ |>.Perm (b :: l[i] :: l.eraseIdx i) := .swap ..
    _ |>.Perm (b :: l) := (List.getElem_cons_eraseIdx_perm hi).cons _

theorem Scanned.settle (h : Scanned L scan n) (hn : L[n]? = some endpoint)
    (hearlier : scan.kept[position]? = some earlier)
    (hpair : (loser.core :: (scan.kept.map HarnessEndpoint.core).set position winner.core).Perm
      (endpoint.core :: scan.kept.map HarnessEndpoint.core))
    (hled : Led (scan.settle position winner loser) earlier.id)
    (hnew : Led (scan.settle position winner loser) endpoint.id) :
    Scanned L (scan.settle position winner loser) (n + 1) := by
  refine h.extend _ hn rfl ?_ (led_settle_kept hearlier hled) (fun _ hpair => List.mem_append_left _ hpair) hnew
  have hkept : (scan.settle position winner loser).kept.map HarnessEndpoint.core =
      (scan.kept.map HarnessEndpoint.core).set position winner.core := by
    rw [← core_merged winner loser, ← List.map_set]
    rfl
  have hremoved : (scan.settle position winner loser).removed = scan.removed ++ [(loser, merged winner loser)] := rfl
  rw [List.map_append, hkept, hremoved, List.map_append, List.map_append, List.map_singleton, List.map_singleton,
    List.map_cons, List.map_append]
  rw [← List.append_assoc]
  exact (List.perm_append_singleton _ _).trans (hpair.append_right _)

theorem Scanned.settle_endpoint (h : Scanned L scan n) (hn : L[n]? = some endpoint)
    (hearlier : scan.kept[position]? = some earlier) (hsame : sameHarness earlier endpoint = true) :
    Scanned L (scan.settle position endpoint earlier) (n + 1) := by
  obtain ⟨hlt, -⟩ := List.getElem?_eq_some_iff.mp hearlier
  obtain ⟨hwinner, hloser⟩ := led_settle hlt hsame
  apply h.settle hn hearlier _ hloser hwinner
  apply perm_set
  rw [List.getElem?_map, hearlier]
  rfl

theorem Scanned.settle_earlier (h : Scanned L scan n) (hn : L[n]? = some endpoint)
    (hearlier : scan.kept[position]? = some earlier) (hsame : sameHarness earlier endpoint = true) :
    Scanned L (scan.settle position earlier endpoint) (n + 1) := by
  obtain ⟨hlt, hget⟩ := List.getElem?_eq_some_iff.mp hearlier
  obtain ⟨hwinner, hloser⟩ := led_settle hlt ((sameHarness_comm _ _).trans hsame)
  apply h.settle hn hearlier _ hwinner hloser
  rw [← hget, ← List.map_set, List.set_getElem_self]

theorem sweep_spec : ∀ (rest : List HarnessEndpoint) (scan : Scan), rest = L.drop scan.index →
    Scanned L scan scan.index →
    match sweep scan rest with
    | (scan', some (position, endpoint)) => Reads L scan' position endpoint
    | (scan', none) => Scanned L scan' L.length
  | [], scan, hrest, hscan => by
      have hle : L.length ≤ scan.index := by simpa using hrest.symm
      simp only [sweep]
      refine ⟨hscan.length, ?_, ?_⟩
      · simpa [List.take_of_length_le hle] using hscan.covers
      · simpa [List.take_of_length_le hle] using hscan.led
  | endpoint :: rest, scan, hrest, hscan => by
      have hn : L[scan.index]? = some endpoint := by
        rw [← List.head?_drop, ← hrest]
        rfl
      simp only [sweep]
      cases hfind : scan.kept.findIdx? (sameHarness · endpoint) with
      | none =>
          apply sweep_spec rest _ _ (hscan.keep hn _)
          rw [← List.tail_drop, ← hrest]
          rfl
      | some position =>
          obtain ⟨hlt, hsame, -⟩ := List.findIdx?_eq_some_iff_getElem.mp hfind
          refine ⟨⟨scan.index, rfl, hn, hscan.length, hscan.covers, ?_⟩, _, List.getElem?_eq_getElem hlt, hsame⟩
          intro e he
          refine Led.mono ?_ ?_ (hscan.led e he)
          · exact fun _ hx => .kept hx
          · exact fun _ hpair => hpair

theorem Accounted.mono (hlisted : ∀ e ∈ s.endpoints, t.Accounted e.id) (htaken : ∀ id ∈ s.taken, id ∈ t.taken)
    (hcollapsed : ∀ pair ∈ s.collapsed, pair ∈ t.collapsed) (h : s.Accounted id) : t.Accounted id := by
  induction h with
  | listed he => exact hlisted _ he
  | taken hid => exact .taken (htaken _ hid)
  | collapsed hpair hsame _ ih => exact .collapsed (hcollapsed _ hpair) hsame ih

structure Base (s : HarnessRegistry) : Prop where
  nodup : (s.endpoints.map HarnessEndpoint.id).Nodup
  used : ∀ e ∈ s.endpoints, e.id ∈ s.ids
  configuredUsed : ∀ e ∈ s.configured, e.id ∈ s.ids
  accounted : ∀ e ∈ s.configured, s.Accounted e.id
  current : ∀ e ∈ s.configured, ∀ e' ∈ s.endpoints, e'.id = e.id → e'.core = e.core
  dropped : ∀ e list, (e, list) ∈ s.dropped → e.id ∉ list.map HarnessEndpoint.id

/-- Every entry of `t` was in the list of `s`, up to what is learned from the harness. -/
structure Within (s t : HarnessRegistry) : Prop where
  core : ∀ e' ∈ t.endpoints, ∃ e ∈ s.endpoints, e.core = e'.core
  accounted : ∀ e ∈ s.endpoints, t.Accounted e.id
  ids : t.ids = s.ids
  configured : t.configured = s.configured
  taken : ∀ id ∈ s.taken, id ∈ t.taken
  collapsed : ∀ pair ∈ s.collapsed, pair ∈ t.collapsed
  dropped : t.dropped = s.dropped

theorem Within.id_mem (h : Within s t) {e' : HarnessEndpoint} (he' : e' ∈ t.endpoints) :
    ∃ e ∈ s.endpoints, e.id = e'.id := by
  obtain ⟨e, he, hcore⟩ := h.core e' he'
  exact ⟨e, he, congrArg Prod.fst hcore⟩

theorem Base.within (h : Base s) (hwithin : Within s t) (hnodup : (t.endpoints.map HarnessEndpoint.id).Nodup) :
    Base t := by
  refine ⟨hnodup, ?_, ?_, ?_, ?_, ?_⟩
  · intro e' he'
    obtain ⟨e, he, hid⟩ := hwithin.id_mem he'
    rw [hwithin.ids, ← hid]
    exact h.used e he
  · rw [hwithin.configured, hwithin.ids]
    exact h.configuredUsed
  · rw [hwithin.configured]
    intro e he
    exact (h.accounted e he).mono hwithin.accounted hwithin.taken hwithin.collapsed
  · rw [hwithin.configured]
    intro e he e' he' hid
    obtain ⟨e₀, he₀, hcore⟩ := hwithin.core e' he'
    rw [← hcore]
    exact h.current e he e₀ he₀ ((congrArg Prod.fst hcore).trans hid)
  · rw [hwithin.dropped]
    exact h.dropped

theorem Base.withTasks (tasks : List Task) (h : Base s) : Base { s with tasks := tasks } := by
  refine h.within ⟨?_, ?_, rfl, rfl, fun _ hid => hid, fun _ hpair => hpair, rfl⟩ h.nodup
  · exact fun e he => ⟨e, he, rfl⟩
  · exact fun e he => .listed he

/-- An operation deletes values of endpoints only that are out of the list for good. -/
def Safe (s : HarnessRegistry) : Operation → Prop
  | .delete _ _ e => e.id ∉ s.endpoints.map HarnessEndpoint.id ∧ e.id ∈ s.ids
  | _ => True

def TaskOk (s : HarnessRegistry) : Task → Prop
  | .reading scan position endpoint _ after =>
    Reads s.endpoints scan position endpoint ∧ ∀ op ∈ after, Safe s op
  | .awaiting todo => ∀ op ∈ todo, Safe s op
  | .failed => False

structure DrawsFresh (s t : HarnessRegistry) : Prop where
  fresh : ∀ e ∈ t.endpoints, e.id ∈ s.endpoints.map HarnessEndpoint.id ∨ e.id ∉ s.ids
  ids : ∀ id ∈ s.ids, id ∈ t.ids

theorem safe_persistOps (s : HarnessRegistry) : ∀ op ∈ persistOps, Safe s op := by
  intro op hop
  rw [List.mem_singleton.mp hop]
  trivial

theorem safe_dropEndpointValues (hlist : e.id ∉ s.endpoints.map HarnessEndpoint.id) (hid : e.id ∈ s.ids) :
    ∀ op ∈ dropEndpointValues e, Safe s op := by
  simp only [dropEndpointValues, List.forall_mem_cons]
  exact ⟨⟨hlist, hid⟩, ⟨hlist, hid⟩, ⟨hlist, hid⟩, ⟨hlist, hid⟩, by simp⟩

theorem Within.drawsFresh (h : Within s t) : DrawsFresh s t := by
  constructor
  · intro e' he'
    obtain ⟨e, he, hid⟩ := h.id_mem he'
    exact .inl (List.mem_map.mpr ⟨e, he, hid⟩)
  · rw [h.ids]
    exact fun _ hid => hid

theorem Safe.drawsFresh {op : Operation} (h : Safe s op) (hon : DrawsFresh s t) : Safe t op := by
  cases op with
  | write => trivial
  | disconnect => trivial
  | delete store key e =>
      refine ⟨?_, hon.ids _ h.2⟩
      intro hmem
      obtain ⟨e', he', hid⟩ := List.mem_map.mp hmem
      rcases hon.fresh e' he' with hold | hnew
      · exact h.1 (hid ▸ hold)
      · exact hnew (hid ▸ h.2)

theorem TaskOk.drawsFresh {task : Task} (h : TaskOk s task) (hon : DrawsFresh s t) (hscan : task.scanning = false) :
    TaskOk t task := by
  cases task with
  | reading => cases hscan
  | awaiting todo => exact fun op hop => (h op hop).drawsFresh hon
  | failed => exact h

theorem TaskOk.same {task : Task} (h : TaskOk s task) (hendpoints : t.endpoints = s.endpoints) (hids : t.ids = s.ids) :
    TaskOk t task := by
  have hsafe : ∀ op, Safe s op → Safe t op := by
    intro op hop
    simp only [Safe, hendpoints, hids] at hop ⊢
    exact hop
  cases task with
  | reading scan position endpoint read after =>
      refine ⟨?_, fun op hop => hsafe op (h.2 op hop)⟩
      rw [hendpoints]
      exact h.1
  | awaiting todo => exact fun op hop => hsafe op (h op hop)
  | failed => exact h

structure Consistent (s : HarnessRegistry) : Prop where
  base : Base s
  tasks : ∀ task ∈ s.tasks, TaskOk s task
  alone : ∀ (i k : Nat) (task task' : Task), s.tasks[i]? = some task → s.tasks[k]? = some task' →
    task.scanning = true → task'.scanning = true → i = k

theorem Consistent.sound (h : Consistent s) : s.Sound :=
  ⟨h.base.accounted, h.base.current, h.base.dropped, fun hfailed => h.tasks _ hfailed⟩

theorem within_kept (h : Scanned s.endpoints scan s.endpoints.length) :
    Within s { s with endpoints := scan.kept, collapsed := s.collapsed ++ scan.removed } := by
  refine ⟨?_, ?_, rfl, rfl, fun _ hid => hid, fun _ hpair => List.mem_append_left _ hpair, rfl⟩
  · intro e' he'
    have hmem : e'.core ∈ (s.endpoints.take s.endpoints.length).map HarnessEndpoint.core :=
      h.covers.subset (List.mem_map.mpr ⟨e', List.mem_append_left _ he', rfl⟩)
    rw [List.take_length] at hmem
    exact List.mem_map.mp hmem
  · intro e he
    have hled : Led scan e.id := h.led e (by rwa [List.take_length])
    generalize e.id = id at hled
    induction hled with
    | kept he => exact .listed he
    | removed hpair hsame _ ih => exact .collapsed (List.mem_append_right _ hpair) hsame ih

theorem nodup_scan (hbase : Base s) (h : Scanned s.endpoints scan s.endpoints.length) :
    (scan.kept.map HarnessEndpoint.id ++ (scan.removed.map Prod.fst).map HarnessEndpoint.id).Nodup := by
  have hperm := h.covers.map Prod.fst
  rw [List.take_length, List.map_map, List.map_map] at hperm
  rw [← List.map_append]
  exact hperm.nodup_iff.mpr hbase.nodup

/-- What `_dedupeEndpoints` leaves at its next await or at its end. -/
structure Leaves (s t : HarnessRegistry) (task : Task) : Prop where
  base : Base t
  task : TaskOk t task
  drawsFresh : DrawsFresh s t
  tasks : t.tasks = s.tasks

theorem DrawsFresh.of_eq (hendpoints : t.endpoints = s.endpoints) (hids : t.ids = s.ids) : DrawsFresh s t := by
  refine ⟨?_, fun _ hid => hids ▸ hid⟩
  rw [hendpoints]
  exact fun _ he => .inl (List.mem_map_of_mem he)

theorem DrawsFresh.refl (s : HarnessRegistry) : DrawsFresh s s := .of_eq rfl rfl

/-- The stores have changed, and the values of endpoints out of the list may be gone. -/
theorem Base.store (stored : List (KeyStore × String)) (dropped : List (HarnessEndpoint × List HarnessEndpoint))
    (h : Base s) (hdropped : ∀ e list, (e, list) ∈ dropped → e.id ∉ list.map HarnessEndpoint.id) :
    Base { s with stored := stored, dropped := s.dropped ++ dropped } := by
  refine ⟨h.nodup, h.used, h.configuredUsed, ?_, h.current, ?_⟩
  · intro e he
    refine Accounted.mono ?_ ?_ ?_ (h.accounted e he)
    · exact fun _ hx => .listed hx
    · exact fun _ hid => hid
    · exact fun _ hpair => hpair
  · intro e list hmem
    rcases List.mem_append.mp hmem with hmem | hmem
    · exact h.dropped e list hmem
    · exact hdropped e list hmem

theorem leaves_dedupeFrom {after : List Operation} (hbase : Base s) (hscan : Scanned s.endpoints scan scan.index)
    (hafter : ∀ op ∈ after, Safe s op) : Leaves s (s.dedupeFrom scan after).1 (s.dedupeFrom scan after).2 := by
  have hspec := sweep_spec _ scan rfl hscan
  simp only [dedupeFrom, hscan.length, ne_eq, not_true_eq_false, if_false]
  generalize sweep scan (s.endpoints.drop scan.index) = swept at hspec ⊢
  obtain ⟨scan', found⟩ := swept
  cases found with
  | some found => exact ⟨hbase, ⟨hspec, hafter⟩, .refl s, rfl⟩
  | none =>
    dsimp only
    split
    case isTrue => exact ⟨hbase, hafter, .refl s, rfl⟩
    case isFalse =>
      have hwithin := within_kept hspec
      obtain ⟨hkept, -, hdisjoint⟩ := List.nodup_append.mp (nodup_scan hbase hspec)
      refine ⟨hbase.within hwithin hkept, ?_, hwithin.drawsFresh, rfl⟩
      intro op hop
      rcases List.mem_append.mp hop with hop | hop
      · rcases List.mem_append.mp hop with hop | hop
        · obtain ⟨pair, hpair, hop⟩ := List.mem_flatMap.mp hop
          have hloser : pair.1 ∈ scan'.removed.map Prod.fst := List.mem_map_of_mem hpair
          have hcore : pair.1.core ∈ (s.endpoints.take s.endpoints.length).map HarnessEndpoint.core :=
            hspec.covers.subset (List.mem_map_of_mem (List.mem_append_right _ hloser))
          rw [List.take_length] at hcore
          obtain ⟨e, he, hcore⟩ := List.mem_map.mp hcore
          apply safe_dropEndpointValues _ _ op hop
          · exact fun hmem => hdisjoint _ hmem _ (List.mem_map_of_mem hloser) rfl
          · have hid : e.id = pair.1.id := congrArg Prod.fst hcore
            rw [← hid]
            exact hbase.used e he
        · exact safe_persistOps _ op hop
      · exact (hafter op hop).drawsFresh hwithin.drawsFresh

theorem scanning_eq_false : s.scanning = false ↔ ∀ task ∈ s.tasks, task.scanning = false := by
  simp [HarnessRegistry.scanning]

theorem Consistent.begin {task : Task} (h : Consistent s) (hquiet : s.scanning = false) (hleaves : Leaves s t task) :
    Consistent (t.begin task) := by
  have hall := scanning_eq_false.mp hquiet
  have hbegin : (t.begin task).tasks = s.tasks ++ [task] := by rw [← hleaves.tasks]; rfl
  refine ⟨hleaves.base.withTasks _, ?_, ?_⟩
  · intro x hx
    rw [hbegin] at hx
    rcases List.mem_append.mp hx with hx | hx
    · exact ((h.tasks x hx).drawsFresh hleaves.drawsFresh (hall x hx)).same rfl rfl
    · rw [List.mem_singleton.mp hx]
      exact hleaves.task.same rfl rfl
  · intro i k x x' hi hk hx hx'
    rw [hbegin] at hi hk
    have hlast : ∀ {i : Nat} {x : Task}, (s.tasks ++ [task])[i]? = some x → x.scanning = true →
        i = s.tasks.length := by
      intro i x hi hx
      rcases Nat.lt_or_ge i s.tasks.length with hlt | hge
      · rw [List.getElem?_append_left hlt] at hi
        rw [hall x (List.mem_of_getElem? hi)] at hx
        cases hx
      · have hi' := (List.getElem?_eq_some_iff.mp hi).1
        simp only [List.length_append, List.length_singleton] at hi'
        omega
    rw [hlast hi hx, hlast hk hx']

/-- A step of call `n`, which either scans alone or leaves the list as it is. -/
theorem Consistent.setTask {task task' : Task} (h : Consistent s) (hn : s.tasks[n]? = some task) (hleaves : Leaves s t task')
    (hlist : task.scanning = true ∨ (t.endpoints = s.endpoints ∧ t.ids = s.ids ∧ task'.scanning = false)) :
    Consistent (t.setTask n task') := by
  have hset : (t.setTask n task').tasks = s.tasks.set n task' := by rw [← hleaves.tasks]; rfl
  have hother : ∀ i x, i ≠ n → (s.tasks.set n task')[i]? = some x → s.tasks[i]? = some x := by
    intro i x hi hx
    rwa [List.getElem?_set_ne (Ne.symm hi)] at hx
  have hself : ∀ x, (s.tasks.set n task')[n]? = some x → x = task' := by
    intro x hx
    rw [List.getElem?_set_self (List.getElem?_eq_some_iff.mp hn).1] at hx
    exact (Option.some.inj hx).symm
  refine ⟨hleaves.base.withTasks _, ?_, ?_⟩
  · intro x hx
    rw [hset] at hx
    obtain ⟨i, hi⟩ := List.mem_iff_getElem?.mp hx
    by_cases hin : i = n
    · subst hin
      rw [hself x hi]
      exact hleaves.task.same rfl rfl
    · have hx := hother i x hin hi
      rcases hlist with hscan | ⟨hendpoints, hids, -⟩
      · have hxscan : x.scanning = false := by
          by_contra hxscan
          exact hin (h.alone i n x task hx hn (by simpa using hxscan) hscan)
        exact ((h.tasks x (List.mem_of_getElem? hx)).drawsFresh hleaves.drawsFresh hxscan).same rfl rfl
      · exact (h.tasks x (List.mem_of_getElem? hx)).same hendpoints hids
  · intro i k x x' hi hk hx hx'
    rw [hset] at hi hk
    have hcases : ∀ {i : Nat} {x : Task}, (s.tasks.set n task')[i]? = some x → x.scanning = true →
        ∃ y, s.tasks[i]? = some y ∧ y.scanning = true := by
      intro i x hi hx
      by_cases hin : i = n
      · subst hin
        rcases hlist with hscan | ⟨-, -, hquiet⟩
        · exact ⟨task, hn, hscan⟩
        · rw [hself x hi, hquiet] at hx
          cases hx
      · exact ⟨x, hother i x hin hi, hx⟩
    obtain ⟨y, hy, hyscan⟩ := hcases hi hx
    obtain ⟨y', hy', hyscan'⟩ := hcases hk hx'
    exact h.alone i k y y' hy hy' hyscan hyscan'

theorem base_append (hbase : Base s) (hnew : e.id ∉ s.ids) :
    Base { s with endpoints := s.endpoints ++ [e], ids := e.id :: s.ids, configured := s.configured ++ [e] } := by
  constructor
  case nodup =>
    rw [List.map_append, List.map_singleton, List.nodup_append]
    refine ⟨hbase.nodup, List.nodup_singleton _, ?_⟩
    rintro _ hmem _ hlast rfl
    obtain ⟨x, hx, hid⟩ := List.mem_map.mp hmem
    rw [List.mem_singleton.mp hlast] at hid
    exact hnew (hid ▸ hbase.used x hx)
  case used =>
    intro x hx
    rcases List.mem_append.mp hx with hx | hx
    · exact List.mem_cons_of_mem _ (hbase.used x hx)
    · rw [List.mem_singleton.mp hx]
      exact List.mem_cons_self
  case configuredUsed =>
    intro x hx
    rcases List.mem_append.mp hx with hx | hx
    · exact List.mem_cons_of_mem _ (hbase.configuredUsed x hx)
    · rw [List.mem_singleton.mp hx]
      exact List.mem_cons_self
  case accounted =>
    intro x hx
    rcases List.mem_append.mp hx with hx | hx
    · refine Accounted.mono ?_ ?_ ?_ (hbase.accounted x hx)
      · exact fun _ hy => .listed (List.mem_append_left _ hy)
      · exact fun _ hid => hid
      · exact fun _ hpair => hpair
    · rw [List.mem_singleton.mp hx]
      exact .listed (List.mem_append_right _ (List.mem_singleton.mpr rfl))
  case current =>
    intro x hx y hy hid
    rcases List.mem_append.mp hx with hx | hx <;> rcases List.mem_append.mp hy with hy | hy
    · exact hbase.current x hx y hy hid
    · rw [List.mem_singleton.mp hy] at hid
      exact absurd (hid ▸ hbase.configuredUsed x hx) hnew
    · rw [List.mem_singleton.mp hx] at hid
      exact absurd (hid ▸ hbase.used y hy) hnew
    · rw [List.mem_singleton.mp hx, List.mem_singleton.mp hy]
  case dropped => exact hbase.dropped

theorem map_set_of_eq {α β : Type} {l : List α} {f : α → β} {a b : α} {i : Nat} (hi : l[i]? = some a)
    (h : f b = f a) : (l.set i b).map f = l.map f := by
  obtain ⟨hlt, rfl⟩ := List.getElem?_eq_some_iff.mp hi
  rw [List.map_set, h, ← List.map_set, List.set_getElem_self]

theorem base_set {i : Nat} (hbase : Base s) (hi : s.endpoints[i]? = some earlier) (hid : e.id = earlier.id) :
    Base { s with
      endpoints := s.endpoints.set i e
      configured := s.configured.filter (·.id ≠ e.id) ++ [e] } := by
  have hmap : (s.endpoints.set i e).map HarnessEndpoint.id = s.endpoints.map HarnessEndpoint.id :=
    map_set_of_eq hi hid
  have hnodup : ((s.endpoints.set i e).map HarnessEndpoint.id).Nodup := hmap ▸ hbase.nodup
  have hmem : e ∈ s.endpoints.set i e := List.mem_set (List.getElem?_eq_some_iff.mp hi).1 _
  have hused : ∀ x ∈ s.endpoints.set i e, x.id ∈ s.ids := by
    intro x hx
    have hxid : x.id ∈ (s.endpoints.set i e).map HarnessEndpoint.id := List.mem_map_of_mem hx
    rw [hmap] at hxid
    obtain ⟨y, hy, hyid⟩ := List.mem_map.mp hxid
    exact hyid ▸ hbase.used y hy
  constructor
  case nodup => exact hnodup
  case used => exact hused
  case configuredUsed =>
    intro x hx
    rcases List.mem_append.mp hx with hx | hx
    · exact hbase.configuredUsed x (List.mem_filter.mp hx).1
    · rw [List.mem_singleton.mp hx]
      exact hused e hmem
  case accounted =>
    intro x hx
    rcases List.mem_append.mp hx with hx | hx
    · refine Accounted.mono ?_ ?_ ?_ (hbase.accounted x (List.mem_filter.mp hx).1)
      · intro y hy
        have hyid : y.id ∈ s.endpoints.map HarnessEndpoint.id := List.mem_map_of_mem hy
        rw [← hmap] at hyid
        obtain ⟨z, hz, hzid⟩ := List.mem_map.mp hyid
        rw [← hzid]
        exact .listed hz
      · exact fun _ hid => hid
      · exact fun _ hpair => hpair
    · rw [List.mem_singleton.mp hx]
      exact .listed hmem
  case current =>
    intro x hx y hy hyid
    rcases List.mem_append.mp hx with hx | hx
    · obtain ⟨hx, hne⟩ := List.mem_filter.mp hx
      rcases List.mem_or_eq_of_mem_set hy with hy | rfl
      · exact hbase.current x hx y hy hyid
      · simp [hyid] at hne
    · rw [List.mem_singleton.mp hx] at hyid ⊢
      rw [List.inj_on_of_nodup_map hnodup hy hmem hyid]
  case dropped => exact hbase.dropped

theorem drawsFresh_set {i : Nat} (hi : s.endpoints[i]? = some earlier) (hid : e.id = earlier.id)
    (configured : List HarnessEndpoint) :
    DrawsFresh s { s with endpoints := s.endpoints.set i e, configured := configured } := by
  refine ⟨?_, fun _ hid => hid⟩
  intro x hx
  have hmap : (s.endpoints.set i e).map HarnessEndpoint.id = s.endpoints.map HarnessEndpoint.id :=
    map_set_of_eq hi hid
  rw [← hmap]
  exact .inl (List.mem_map_of_mem hx)

theorem leaves_upsert {name url newId : String} {harnessId : Option String} {task : Task} (hbase : Base s)
    (hnew : newId ∉ s.ids) (htask : ∀ t, TaskOk t task) : Leaves s (s.upsert name url harnessId newId).1 task := by
  simp only [upsert]
  split
  case h_1 =>
    refine ⟨base_append hbase hnew, htask _, ⟨?_, fun _ hid => List.mem_cons_of_mem _ hid⟩, rfl⟩
    intro x hx
    rcases List.mem_append.mp hx with hx | hx
    · exact .inl (List.mem_map_of_mem hx)
    · rw [List.mem_singleton.mp hx]
      exact .inr hnew
  case h_2 i hfind =>
    obtain ⟨hi, -⟩ := List.findIdx?_eq_some_iff_getElem.mp hfind
    have hget : s.endpoints[i]? = some (s.endpoints.getD i ⟨newId, name, url, harnessId⟩) := by
      simp [List.getD_eq_getElem?_getD, List.getElem?_eq_getElem hi]
    refine ⟨base_set hbase hget rfl, htask _, ?_, rfl⟩
    apply drawsFresh_set hget
    rfl

theorem not_mem_eraseP (hnodup : (L.map HarnessEndpoint.id).Nodup) :
    id ∉ (L.eraseP (·.id = id)).map HarnessEndpoint.id := by
  induction L with
  | nil => simp
  | cons e rest ih =>
      obtain ⟨hhead, hrest⟩ := List.nodup_cons.mp hnodup
      by_cases he : e.id = id
      · subst he
        simpa using hhead
      · rw [List.eraseP_cons_of_neg (by simpa using he), List.map_cons, List.mem_cons, not_or]
        exact ⟨Ne.symm he, ih hrest⟩

theorem leaves_remove (hbase : Base s) (hfind : s.endpoints.find? (·.id = id) = some e) :
    Leaves s { s with endpoints := s.endpoints.eraseP (·.id = id), taken := id :: s.taken }
      (.awaiting (.disconnect :: dropEndpointValues e ++ persistOps)) := by
  obtain rfl : e.id = id := by simpa using List.find?_some hfind
  have hgone : e.id ∉ (s.endpoints.eraseP (·.id = e.id)).map HarnessEndpoint.id := not_mem_eraseP hbase.nodup
  have hwithin : Within s { s with endpoints := s.endpoints.eraseP (·.id = e.id), taken := e.id :: s.taken } := by
    refine ⟨?_, ?_, rfl, rfl, fun _ hid => List.mem_cons_of_mem _ hid, fun _ hpair => hpair, rfl⟩
    · exact fun x hx => ⟨x, List.mem_of_mem_eraseP hx, rfl⟩
    · intro x hx
      by_cases hid : x.id = e.id
      · rw [hid]
        exact .taken List.mem_cons_self
      · exact .listed ((List.mem_eraseP_of_neg (by simpa using hid)).mpr hx)
  refine ⟨hbase.within hwithin ?_, ?_, hwithin.drawsFresh, rfl⟩
  · exact hbase.nodup.sublist (List.Sublist.map _ (List.eraseP_sublist))
  · intro op hop
    simp only [List.cons_append, List.mem_cons, List.mem_append] at hop
    rcases hop with rfl | hop | hop
    · trivial
    · refine safe_dropEndpointValues ?_ ?_ op hop
      · exact hgone
      · exact hbase.used e (List.mem_of_find?_eq_some hfind)
    · exact safe_persistOps _ op hop

theorem within_note {i : Nat} (hi : s.endpoints[i]? = some e) (harnessId : Option String) :
    Within s { s with endpoints := s.endpoints.set i { e with harnessId := harnessId } } := by
  have hmap : (s.endpoints.set i { e with harnessId := harnessId }).map HarnessEndpoint.core =
      s.endpoints.map HarnessEndpoint.core := map_set_of_eq hi rfl
  refine ⟨?_, ?_, rfl, rfl, fun _ hid => hid, fun _ hpair => hpair, rfl⟩
  · intro x hx
    have hcore := List.mem_map_of_mem (f := HarnessEndpoint.core) hx
    rw [hmap] at hcore
    exact List.mem_map.mp hcore
  · intro x hx
    have hcore := List.mem_map_of_mem (f := HarnessEndpoint.core) hx
    rw [← hmap] at hcore
    obtain ⟨y, hy, hyx⟩ := List.mem_map.mp hcore
    have hid : y.id = x.id := congrArg Prod.fst hyx
    rw [← hid]
    exact .listed hy

theorem leaves_note {i : Nat} (hbase : Base s) (hi : s.endpoints[i]? = some e) (harnessId : Option String) :
    let noted := { s with endpoints := s.endpoints.set i { e with harnessId := harnessId } }
    Leaves s (noted.dedupeEndpoints persistOps).1 (noted.dedupeEndpoints persistOps).2 := by
  intro noted
  have hwithin := within_note hi harnessId
  have hnoted : Base noted := by
    apply hbase.within hwithin
    have hmap : noted.endpoints.map HarnessEndpoint.id = s.endpoints.map HarnessEndpoint.id := map_set_of_eq hi rfl
    rw [hmap]
    exact hbase.nodup
  have hleaves := leaves_dedupeFrom hnoted (scanned_start noted.endpoints) (safe_persistOps noted)
  refine ⟨hleaves.base, hleaves.task, ⟨?_, ?_⟩, hleaves.tasks⟩
  · intro x hx
    rcases hleaves.drawsFresh.fresh x hx with hid | hid
    · obtain ⟨y, hy, hyx⟩ := List.mem_map.mp hid
      rw [← hyx]
      exact hwithin.drawsFresh.fresh y hy
    · exact .inr hid
  · exact hleaves.drawsFresh.ids

theorem Reads.scanned_endpoint (h : Reads s.endpoints scan position endpoint) :
    Scanned s.endpoints (scan.settle position endpoint (scan.kept.getD position endpoint)) scan.index := by
  obtain ⟨⟨n, hindex, hn, hscan⟩, earlier, hearlier, hsame⟩ := h
  rw [hindex, List.getD_eq_getElem?_getD, hearlier]
  exact hscan.settle_endpoint hn hearlier hsame

theorem Reads.scanned_earlier (h : Reads s.endpoints scan position endpoint) :
    Scanned s.endpoints (scan.settle position (scan.kept.getD position endpoint) endpoint) scan.index := by
  obtain ⟨⟨n, hindex, hn, hscan⟩, earlier, hearlier, hsame⟩ := h
  rw [hindex, List.getD_eq_getElem?_getD, hearlier]
  exact hscan.settle_earlier hn hearlier hsame

theorem Consistent.readCredentials {after : List Operation} {read : Reading} (h : Consistent s)
    (hn : s.tasks[n]? = some (.reading scan position endpoint read after)) (ok : Bool) :
    Consistent (s.readCredentials n scan position endpoint after ok read) := by
  obtain ⟨hreads, hafter⟩ := h.tasks _ (List.mem_of_getElem? hn)
  have hask : ∀ read', Consistent (s.setTask n (.reading scan position endpoint read' after)) :=
    fun read' => h.setTask hn ⟨h.base, ⟨hreads, hafter⟩, .refl s, rfl⟩ (.inl rfl)
  have hsettle : ∀ winner loser, Scanned s.endpoints (scan.settle position winner loser) scan.index →
      Consistent ((s.dedupeFrom (scan.settle position winner loser) after).1.setTask n
        (s.dedupeFrom (scan.settle position winner loser) after).2) :=
    fun winner loser hscan => h.setTask hn (leaves_dedupeFrom h.base hscan hafter) (.inl rfl)
  have hendpoint := hsettle _ _ hreads.scanned_endpoint
  have hearlier := hsettle _ _ hreads.scanned_earlier
  simp only [HarnessRegistry.readCredentials]
  split
  case h_1 => exact hask _
  case h_2 => exact hask _
  case h_3 => exact hask _
  case h_4 => exact hendpoint
  case h_5 => exact hendpoint
  case h_6 => exact hask _
  case h_7 => exact hendpoint
  case h_8 => exact hearlier

theorem Consistent.perform {todo : List Operation} {op : Operation} (h : Consistent s)
    (hn : s.tasks[n]? = some (.awaiting (op :: todo))) (ok : Bool) : Consistent (s.perform n todo ok op) := by
  have htodo : ∀ op' ∈ op :: todo, Safe s op' := h.tasks _ (List.mem_of_getElem? hn)
  have hrest : TaskOk s (.awaiting todo) := fun op' hop => htodo op' (List.mem_cons_of_mem _ hop)
  have hset : ∀ task', TaskOk s task' → task'.scanning = false → Consistent (s.setTask n task') :=
    fun task' htask hquiet => h.setTask hn ⟨h.base, htask, .refl s, rfl⟩ (.inr ⟨rfl, rfl, hquiet⟩)
  have hstore : ∀ (stored : List (KeyStore × String)) (dropped : List (HarnessEndpoint × List HarnessEndpoint)),
      (∀ e list, (e, list) ∈ dropped → e.id ∉ list.map HarnessEndpoint.id) →
      Consistent ({ s with stored := stored, dropped := s.dropped ++ dropped }.setTask n (.awaiting todo)) := by
    intro stored dropped hdropped
    refine h.setTask hn ⟨h.base.store stored dropped hdropped, hrest.same rfl rfl, ?_, rfl⟩ (.inr ⟨rfl, rfl, rfl⟩)
    exact .of_eq rfl rfl
  cases op with
  | disconnect => exact hset _ hrest rfl
  | write store key tried =>
      simp only [HarnessRegistry.perform]
      split
      case isTrue => simpa using hstore ((store, key) :: s.stored) [] (by simp)
      case isFalse =>
        apply hset _ _ rfl
        split
        · exact hrest
        · simp [TaskOk]
  | delete store key e =>
      simp only [HarnessRegistry.perform]
      split
      case isTrue =>
        apply hstore _ [(e, s.endpoints)]
        intro e' list hmem
        obtain ⟨rfl, rfl⟩ := Prod.mk.inj (List.mem_singleton.mp hmem)
        exact (htodo _ List.mem_cons_self).1
      case isFalse => exact hset _ hrest rfl

theorem find?_of_findIdx? {i : Nat} (hfind : L.findIdx? (·.id = id) = some i) (hi : L[i]? = some e) :
    L.find? (·.id = id) = some e := by
  obtain ⟨hlt, hid, hbefore⟩ := List.findIdx?_eq_some_iff_getElem.mp hfind
  have hget : L[i] = e := Option.some.inj ((List.getElem?_eq_getElem hlt).symm.trans hi)
  rw [List.find?_eq_some_iff_getElem]
  exact ⟨hget ▸ hid, i, hlt, hget, fun j hj => by simpa using hbefore j hj⟩

inductive Undisturbed (s : HarnessRegistry) : Act → HarnessRegistry → Prop
  | idle (act : Act) : Undisturbed s act s
  | addLocal {name url newId : String} {harnessId : Option String} : s.scanning = false → newId ∉ s.ids →
      Undisturbed s (.addLocal name url harnessId newId)
        ((s.upsert name url harnessId newId).1.begin
          (.awaiting ([.write .secrets (s.upsert name url harnessId newId).2.tokenKey false,
            .write .settings (s.upsert name url harnessId newId).2.fingerprintKey true] ++ persistOps)))
  | addPaired {name url newId : String} {fingerprint : Bool} : s.scanning = false → newId ∉ s.ids →
      Undisturbed s (.addPaired name url fingerprint newId)
        ((s.upsert name url none newId).1.begin
          (.awaiting ((if fingerprint then [.write .settings (s.upsert name url none newId).2.fingerprintKey true]
            else []) ++ persistOps)))
  | remove {endpointId : String} {e : HarnessEndpoint} : s.scanning = false →
      s.endpoints.find? (·.id = endpointId) = some e →
      Undisturbed s (.remove endpointId)
        ({ s with endpoints := s.endpoints.eraseP (·.id = endpointId), taken := endpointId :: s.taken }.begin
          (.awaiting (Operation.disconnect :: dropEndpointValues e ++ persistOps)))
  | note {endpointId harnessId : String} {i : Nat} {e : HarnessEndpoint} {noted : HarnessRegistry} :
      s.scanning = false → s.endpoints[i]? = some e →
      noted = { s with endpoints := s.endpoints.set i { e with harnessId := some harnessId } } →
      Undisturbed s (.note endpointId harnessId)
        ((noted.dedupeEndpoints persistOps).1.begin (noted.dedupeEndpoints persistOps).2)
  | reading {n position : Nat} {ok : Bool} {scan : Scan} {endpoint : HarnessEndpoint} {read : Reading}
      {after : List Operation} : s.tasks[n]? = some (.reading scan position endpoint read after) →
      Undisturbed s (.proceed n ok) (s.readCredentials n scan position endpoint after ok read)
  | performing {n : Nat} {ok : Bool} {op : Operation} {todo : List Operation} :
      s.tasks[n]? = some (.awaiting (op :: todo)) → Undisturbed s (.proceed n ok) (s.perform n todo ok op)

theorem undisturbed_of_next {act : Act} (hundisturbed : s.undisturbed act = true) (hnext : s.next act = some t) :
    Undisturbed s act t := by
  cases act with
  | addLocal name url harnessId newId =>
      simp only [HarnessRegistry.next] at hnext
      split at hnext
      case isTrue => cases hnext
      case isFalse hnew =>
        obtain rfl := Option.some.inj hnext
        exact .addLocal (by simpa [undisturbed] using hundisturbed) hnew
  | addPaired name url fingerprint newId =>
      simp only [HarnessRegistry.next] at hnext
      split at hnext
      case isTrue => cases hnext
      case isFalse hnew =>
        obtain rfl := Option.some.inj hnext
        exact .addPaired (by simpa [undisturbed] using hundisturbed) hnew
  | remove endpointId =>
      simp only [HarnessRegistry.next] at hnext
      split at hnext
      case h_1 =>
        obtain rfl := Option.some.inj hnext
        exact .idle _
      case h_2 e hfind =>
        obtain rfl := Option.some.inj hnext
        exact .remove (by simpa [undisturbed, hfind] using hundisturbed) hfind
  | note endpointId harnessId =>
      simp only [HarnessRegistry.next] at hnext
      split at hnext
      case h_1 =>
        obtain rfl := Option.some.inj hnext
        exact .idle _
      case h_2 i hfind =>
        split at hnext
        case h_1 => cases hnext
        case h_2 e hi =>
          split at hnext
          case isTrue =>
            obtain rfl := Option.some.inj hnext
            exact .idle _
          case isFalse hne =>
            obtain rfl := Option.some.inj hnext
            have hquiet : s.scanning = false := by
              simpa [undisturbed, find?_of_findIdx? hfind hi, hne] using hundisturbed
            exact .note hquiet hi rfl
  | proceed n ok =>
      simp only [HarnessRegistry.next] at hnext
      split at hnext
      case h_1 scan position endpoint read after hn =>
        obtain rfl := Option.some.inj hnext
        exact .reading hn
      case h_2 op todo hn =>
        obtain rfl := Option.some.inj hnext
        exact .performing hn
      case h_3 => cases hnext

theorem Consistent.next {act : Act} (h : Consistent s) (hundisturbed : s.undisturbed act = true)
    (hnext : s.next act = some t) : Consistent t := by
  cases undisturbed_of_next hundisturbed hnext with
  | idle => exact h
  | addLocal hquiet hnew =>
      apply h.begin hquiet (leaves_upsert h.base hnew _)
      intro t op hop
      simp only [persistOps, List.cons_append, List.nil_append, List.mem_cons, List.not_mem_nil, or_false] at hop
      rcases hop with rfl | rfl | rfl <;> trivial
  | @addPaired name url newId fingerprint hquiet hnew =>
      apply h.begin hquiet (leaves_upsert h.base hnew _)
      intro t op hop
      rcases List.mem_append.mp hop with hop | hop
      · cases fingerprint
        · simp at hop
        · rw [List.mem_singleton.mp hop]
          trivial
      · exact safe_persistOps t op hop
  | remove hquiet hfind => exact h.begin hquiet (leaves_remove h.base hfind)
  | note hquiet hi hnoted =>
      subst hnoted
      exact h.begin hquiet (leaves_note h.base hi _)
  | reading hn => exact h.readCredentials hn _
  | performing hn => exact h.perform hn _

theorem consistent_opened (list : List HarnessEndpoint) (stored : List (KeyStore × String))
    (hids : (list.map HarnessEndpoint.id).Nodup) : Consistent (opened list stored) := by
  let s : HarnessRegistry :=
    { endpoints := list, stored := stored, tasks := [], ids := list.map HarnessEndpoint.id,
      configured := list, taken := [], collapsed := [], dropped := [] }
  have hbase : Base s := by
    refine ⟨hids, fun _ he => List.mem_map_of_mem he, fun _ he => List.mem_map_of_mem he, ?_, ?_, by simp [s]⟩
    · exact fun _ he => .listed he
    · intro e he e' he' hid
      rw [List.inj_on_of_nodup_map hids he' he hid]
  have hs : Consistent s := ⟨hbase, by simp [s], by simp [s]⟩
  exact hs.begin rfl (leaves_dedupeFrom hbase (scanned_start list) (by simp))

/-- No harness is lost in a run in which nothing else changes the list during a scan. -/
theorem sound_of_undisturbed (list : List HarnessEndpoint) (stored : List (KeyStore × String)) (s : HarnessRegistry)
    (hids : (list.map HarnessEndpoint.id).Nodup)
    (h : machine.RunsTo (fun s act => s.undisturbed act = true) (opened list stored) s) : s.Sound := by
  have hs : Consistent s :=
    Machine.RunsTo.invariant (fun hs hc hn => Consistent.next hs hc hn) (consistent_opened list stored hids) h
  exact hs.sound

/-- The third entry turns out to be for the harness of the second. -/
def threeEntries : List HarnessEndpoint :=
  [⟨"x", "box", "u0", none⟩, ⟨"a", "old", "u1", some "h"⟩, ⟨"b", "new", "u2", none⟩]

def addAfterScan : List Act :=
  [.note "b" "h", .proceed 1 true, .proceed 1 true, .proceed 1 true, .remove "x", .addLocal "c" "u3" none "c"]

theorem sound_addAfterScan :
    ∃ s, machine.RunsTo (fun s act => s.undisturbed act = true) (opened threeEntries []) s ∧ s.Sound ∧
      s.endpoints.map HarnessEndpoint.id = ["b", "c"] := by
  obtain ⟨s, hs, hids⟩ := (Option.any_eq_true
    (fun s : HarnessRegistry => decide (s.endpoints.map HarnessEndpoint.id = ["b", "c"]))
    (machine.runChecked undisturbed (opened threeEntries []) addAfterScan)).mp rfl
  have hrun := Machine.runsTo_of_runChecked hs
  exact ⟨s, hrun, sound_of_undisturbed threeEntries [] s (by decide) hrun, of_decide_eq_true hids⟩

/-- An entry is removed and another added between the reads of the credentials, and the
scan puts the list back as it was. -/
def addDuringScan : List Act :=
  [.note "b" "h", .remove "x", .addLocal "c" "u3" none "c", .proceed 3 true, .proceed 3 true, .proceed 3 true,
    .proceed 1 true, .proceed 1 true, .proceed 2 true, .proceed 2 true]

def lateEntry : HarnessEndpoint := ⟨"c", "c", "u3", none⟩

theorem not_accounted (hlist : id ∉ s.endpoints.map HarnessEndpoint.id) (htaken : id ∉ s.taken)
    (hcollapsed : id ∉ s.collapsed.map fun pair => pair.1.id) : ¬ s.Accounted id := by
  intro h
  cases h with
  | listed he => exact hlist (List.mem_map_of_mem he)
  | taken hid => exact htaken hid
  | collapsed hpair _ _ => exact hcollapsed (List.mem_map.mpr ⟨_, hpair, rfl⟩)

theorem lost_addDuringScan :
    ∃ s, machine.RunsTo (fun _ _ => True) (opened threeEntries []) s ∧ s.tasks[3]? = some (.awaiting []) ∧
      lateEntry ∈ s.configured ∧ ¬ s.Accounted lateEntry.id ∧
      (∃ e list, (e, list) ∈ s.dropped ∧ e.id ∈ list.map HarnessEndpoint.id) ∧ ¬ s.Sound := by
  obtain ⟨s, hs, hout⟩ := (Option.any_eq_true
    (fun s : HarnessRegistry => decide (s.tasks[3]? = some (Task.awaiting []) ∧
      lateEntry ∈ s.configured ∧ s.endpoints.map HarnessEndpoint.id = ["x", "b"] ∧ s.taken = ["x"] ∧
      s.collapsed.map (fun pair => pair.1.id) = ["a"] ∧
      ∃ pair ∈ s.dropped, pair.1.id ∈ pair.2.map HarnessEndpoint.id))
    (machine.run (opened threeEntries []) addDuringScan)).mp rfl
  obtain ⟨hdone, hadded, hlist, htaken, hcollapsed, ⟨e, list⟩, hdropped, hlisted⟩ := of_decide_eq_true hout
  have hlost : ¬ s.Accounted lateEntry.id := by
    apply not_accounted
    · rw [hlist]
      decide
    · rw [htaken]
      decide
    · rw [hcollapsed]
      decide
  exact ⟨s, Machine.runsTo_of_run hs, hdone, hadded, hlost, ⟨e, list, hdropped, hlisted⟩,
    fun h => hlost (h.accounted _ hadded)⟩

end HarnessRegistry

end Silo.Clients
