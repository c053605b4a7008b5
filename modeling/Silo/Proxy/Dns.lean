import Mathlib.Data.List.Induction
import Silo.Proxy.HttpProxy

namespace Silo.Proxy

inductive RecordType
  | a
  | aaaa
  | other (code : UInt16)
  deriving DecidableEq, Repr

/-- A question: `name` is the text of `Name::to_ascii`. -/
structure Query where
  name : String
  queryType : RecordType
  queryClass : UInt16
  deriving DecidableEq, Repr

/-- What is read of a query packet. -/
structure DnsRequest where
  id : UInt16
  recursionDesired : Bool
  queries : List Query
  deriving DecidableEq, Repr

inductive ResponseCode
  | noError
  | formErr
  | nxDomain
  deriving DecidableEq, Repr

structure DnsRecord where
  name : String
  ttl : UInt32
  addr : IpAddr
  deriving DecidableEq, Repr

structure DnsReply where
  id : UInt16
  recursionDesired : Bool
  recursionAvailable : Bool
  authoritative : Bool
  queries : List Query
  answers : List DnsRecord
  responseCode : ResponseCode
  deriving DecidableEq, Repr

structure DnsFilter where
  allowlist : DomainAllowlist
  guard : IpGuard

/-- The reply to a query, the names that the resolver was asked about, and what was
journaled. -/
structure Handled where
  reply : DnsReply
  asked : List String
  journaled : List NetworkRecord
  deriving DecidableEq, Repr

def answerTtlSecs : UInt32 := 30

/-- `str::trim_end_matches('.')`. -/
def trimEndDots (name : List Char) : List Char := (name.reverse.dropWhile fun c => c = '.').reverse

/-- The host that a question is about. -/
def dnsHost (name : String) : String := String.ofList ((trimEndDots name.toList).map Char.toLower)

def ofFamily (queryType : RecordType) : IpAddr → Bool
  | .v4 _ => queryType = .a
  | .v6 _ => queryType = .aaaa

namespace DnsFilter

variable (filter : DnsFilter) (resolve : String → List IpAddr)

def dnsRecord (host : String) (allowed : Bool) (answered : Nat) (note : String) : NetworkRecord :=
  ⟨host, 53, some "DNS", none, none, 0, answered, allowed, false, some note⟩

def answer (query : Query) (addrs : List IpAddr) : List DnsRecord :=
  addrs.filterMap fun addr =>
    if filter.guard.isBlocked addr then none
    else if ofFamily query.queryType addr then some ⟨query.name, answerTtlSecs, addr⟩
    else none

/-- Applies the policy to a query that was read. -/
def handleQuery (request : DnsRequest) : Handled :=
  let response : DnsReply :=
    ⟨request.id, request.recursionDesired, true, true, request.queries, [], .noError⟩
  match request.queries with
  | [] => ⟨{ response with responseCode := .formErr }, [], []⟩
  | query :: _ =>
    let host := dnsHost query.name
    if filter.allowlist.allows host = false then
      ⟨{ response with responseCode := .nxDomain }, [], [dnsRecord host false 0 "domain not allowlisted"]⟩
    else
      match query.queryType with
      | .other _ => ⟨response, [], []⟩
      | _ =>
        let answers := filter.answer query (resolve host)
        ⟨{ response with answers := answers }, [host],
          [dnsRecord host true answers.length (toString answers.length ++ " answers")]⟩

end DnsFilter

def ProxyState.dnsFilter (state : ProxyState) : DnsFilter := ⟨state.allowlist, state.upstream.guard⟩

namespace DnsFilter

variable {filter : DnsFilter} {resolve : String → List IpAddr} {request : DnsRequest}

/-- The first question is one that the filter has answers for. -/
def Answerable (filter : DnsFilter) (query : Query) : Prop :=
  filter.allowlist.allows (dnsHost query.name) = true ∧ (query.queryType = .a ∨ query.queryType = .aaaa)

theorem addrs_answer (query : Query) (addrs : List IpAddr) :
    (filter.answer query addrs).map DnsRecord.addr =
      addrs.filter fun addr => !filter.guard.isBlocked addr && ofFamily query.queryType addr := by
  induction addrs with
  | nil => rfl
  | cons addr addrs ih =>
      rw [answer] at ih ⊢
      by_cases hblocked : filter.guard.isBlocked addr = true <;>
        by_cases hfamily : ofFamily query.queryType addr = true <;>
          simp_all

theorem handleQuery_echo : (filter.handleQuery resolve request).reply.id = request.id ∧
    (filter.handleQuery resolve request).reply.queries = request.queries := by
  rw [handleQuery]
  cases request.queries with
  | nil => exact ⟨rfl, rfl⟩
  | cons query rest =>
      dsimp only
      split
      · exact ⟨rfl, rfl⟩
      · cases query.queryType <;> exact ⟨rfl, rfl⟩

theorem handleQuery_refused {query : Query} {rest : List Query} (hqueries : request.queries = query :: rest)
    (h : filter.allowlist.allows (dnsHost query.name) = false) :
    (filter.handleQuery resolve request).reply.responseCode = .nxDomain ∧
      (filter.handleQuery resolve request).asked = [] ∧
      (filter.handleQuery resolve request).reply.answers = [] := by
  simp [handleQuery, hqueries, h]

theorem handleQuery_answered {query : Query} {rest : List Query} (hqueries : request.queries = query :: rest)
    (h : filter.Answerable query) :
    (filter.handleQuery resolve request).asked = [dnsHost query.name] ∧
      (filter.handleQuery resolve request).reply.answers = filter.answer query (resolve (dnsHost query.name)) ∧
      (filter.handleQuery resolve request).reply.responseCode = .noError := by
  obtain ⟨hallows, htype | htype⟩ := h <;> simp [handleQuery, hqueries, hallows, htype]

/-- The resolver is asked, and there are answers, only for an answerable question. -/
theorem answerable_of_asked (h : (filter.handleQuery resolve request).asked ≠ [] ∨
    (filter.handleQuery resolve request).reply.answers ≠ []) :
    ∃ query rest, request.queries = query :: rest ∧ filter.Answerable query := by
  cases hqueries : request.queries with
  | nil => simp [handleQuery, hqueries] at h
  | cons query rest =>
      refine ⟨query, rest, rfl, ?_⟩
      cases hallows : filter.allowlist.allows (dnsHost query.name) with
      | false => simp [handleQuery, hqueries, hallows] at h
      | true =>
          cases htype : query.queryType with
          | other code => simp [handleQuery, hqueries, hallows, htype] at h
          | a => exact ⟨hallows, .inl htype⟩
          | aaaa => exact ⟨hallows, .inr htype⟩

end DnsFilter

theorem toNat_toLower (c : Char) :
    c.toLower.toNat = if 65 ≤ c.toNat ∧ c.toNat ≤ 90 then c.toNat + 32 else c.toNat := by
  delta Char.toLower
  split
  · rename_i h
    have hupper : 65 ≤ c.toNat ∧ c.toNat ≤ 90 := by simpa [UInt32.le_iff_toNat_le] using h
    have hstep : ('a'.val - 'A'.val).toNat = 32 := by decide
    rw [if_pos hupper]
    simp only [Char.toNat] at hupper
    simp only [Char.toNat, UInt32.toNat_add, hstep]
    omega
  · rename_i h
    have hother : ¬ (65 ≤ c.toNat ∧ c.toNat ≤ 90) := by simpa [UInt32.le_iff_toNat_le] using h
    rw [if_neg hother]

theorem toLower_eq_dot {c : Char} : c.toLower = '.' ↔ c = '.' := by
  have hdot : '.'.toNat = 46 := rfl
  rw [← Char.toNat_inj, ← Char.toNat_inj, toNat_toLower]
  split <;> omega

theorem toLower_toLower (c : Char) : c.toLower.toLower = c.toLower := by
  rw [← Char.toNat_inj, toNat_toLower, toNat_toLower]
  by_cases h : 65 ≤ c.toNat ∧ c.toNat ≤ 90
  · rw [if_pos h, if_neg (by omega)]
  · rw [if_neg h, if_neg h]

theorem getLast?_trimEndDots (name : List Char) : (trimEndDots name).getLast? ≠ some '.' := by
  rw [trimEndDots, List.getLast?_reverse]
  intro h
  have := List.head?_dropWhile_not (fun c => decide (c = '.')) name.reverse
  simp [h] at this

/-- At most one dot is trimmed of a name without two of them at the end. -/
theorem trimEndDots_eq {name : List Char} (h : ¬ ['.', '.'] <:+ name) :
    trimEndDots name = if name.getLast? = some '.' then name.dropLast else name := by
  induction name using List.reverseRecOn with
  | nil => rfl
  | append_singleton front c _ =>
      by_cases hc : c = '.'
      · subst hc
        have hfront : front.reverse.head? ≠ some '.' := by
          rw [List.head?_reverse, Ne, List.getLast?_eq_some_iff]
          rintro ⟨more, rfl⟩
          exact h ⟨more, by simp⟩
        rw [if_pos (by simp), List.dropLast_concat, trimEndDots, List.reverse_append, List.reverse_singleton,
          List.singleton_append, List.dropWhile_cons_of_pos (by simp)]
        cases hrev : front.reverse with
        | nil => rw [List.reverse_eq_nil_iff.mp hrev]; rfl
        | cons d rest =>
            have hd : ¬ d = '.' := by
              rintro rfl
              exact hfront (by rw [hrev]; rfl)
            rw [List.dropWhile_cons_of_neg (by simpa using hd), ← hrev, List.reverse_reverse]
      · rw [if_neg (by simpa using hc), trimEndDots, List.reverse_append, List.reverse_singleton,
          List.singleton_append, List.dropWhile_cons_of_neg (by simpa using hc)]
        simp

theorem toList_dnsHost (name : String) : (dnsHost name).toList = (trimEndDots name.toList).map Char.toLower := by
  rw [dnsHost, String.toList_ofList]

theorem getLast?_dnsHost (name : String) : (dnsHost name).toList.getLast? ≠ some '.' := by
  rw [toList_dnsHost, List.getLast?_map]
  intro hdot
  obtain ⟨c, hc, hlower⟩ := Option.map_eq_some_iff.mp hdot
  rw [toLower_eq_dot.mp hlower] at hc
  exact getLast?_trimEndDots _ hc

theorem not_dots_dnsHost (name : String) : ¬ ['.', '.'] <:+ (dnsHost name).toList := by
  rintro ⟨front, hfront⟩
  apply getLast?_dnsHost name
  rw [← hfront]
  simp

theorem map_toLower_dnsHost (name : String) : (dnsHost name).toList.map Char.toLower = (dnsHost name).toList := by
  rw [toList_dnsHost, List.map_map]
  exact List.map_congr_left fun c _ => toLower_toLower c

theorem dnsHost_dnsHost (name : String) : dnsHost (dnsHost name) = dnsHost name := by
  rw [← String.toList_inj, toList_dnsHost, trimEndDots_eq (not_dots_dnsHost name), if_neg (getLast?_dnsHost name),
    map_toLower_dnsHost]

theorem normalizeHost_dnsHost {name : String} (h : ¬ ['.', '.'] <:+ name.toList) :
    normalizeHost (dnsHost name) = normalizeHost name := by
  rw [normalizeHost, normalizeHost, if_neg (getLast?_dnsHost name), map_toLower_dnsHost, toList_dnsHost,
    trimEndDots_eq h]

/-- The filter and the proxy let the same names through, but for a literal address that
the guard blocks. -/
theorem hostPolicy_iff {state : ProxyState} {name : String} (h : ¬ ['.', '.'] <:+ name.toList) :
    (state.hostPolicy name).toBool = true ↔ state.allowlist.allows (dnsHost name) = true ∧
      (parseIp name).any state.upstream.guard.isBlocked = false := by
  have hallows : state.allowlist.allows (dnsHost name) = state.allowlist.allows name := by
    simp only [DomainAllowlist.allows, normalizeHost_dnsHost h]
  rw [hallows, ProxyState.hostPolicy]
  cases state.allowlist.allows name <;> cases (parseIp name).any state.upstream.guard.isBlocked <;>
    simp [Except.toBool]

/-- The reply to a query packet obeys the policy of the proxy. -/
structure Obeys (state : ProxyState) (resolve : String → List IpAddr) (request : DnsRequest) (handled : Handled) :
    Prop where
  echoed : handled.reply.id = request.id ∧ handled.reply.queries = request.queries
  answerable : handled.asked ≠ [] ∨ handled.reply.answers ≠ [] →
    ∃ query rest, request.queries = query :: rest ∧ state.dnsFilter.Answerable query
  answers : ∀ query rest, request.queries = query :: rest → state.dnsFilter.Answerable query →
    handled.asked = [dnsHost query.name] ∧
    handled.reply.answers.map DnsRecord.addr = (resolve (dnsHost query.name)).filter fun addr =>
      !state.upstream.guard.isBlocked addr && ofFamily query.queryType addr
  refused : ∀ query rest, request.queries = query :: rest →
    state.allowlist.allows (dnsHost query.name) = false →
    handled.reply.responseCode = .nxDomain ∧ handled.asked = []

/-- The filter answers by the policy, and the proxy lets through the names that it
lets through, but for literal addresses. -/
theorem handleQuery_obeys (state : ProxyState) (resolve : String → List IpAddr) (request : DnsRequest) :
    Obeys state resolve request (state.dnsFilter.handleQuery resolve request) ∧
      ∀ query ∈ request.queries, ∀ host, host = dnsHost query.name ∨ host = query.name ∧ ¬ ['.', '.'] <:+ host.toList →
        ((state.hostPolicy host).toBool = true ↔ state.allowlist.allows (dnsHost query.name) = true ∧
          (parseIp host).any state.upstream.guard.isBlocked = false) := by
  refine ⟨⟨DnsFilter.handleQuery_echo, DnsFilter.answerable_of_asked, ?_, ?_⟩, ?_⟩
  · intro query rest hqueries hanswerable
    obtain ⟨hasked, hanswers, -⟩ := DnsFilter.handleQuery_answered hqueries hanswerable
    exact ⟨hasked, by rw [hanswers, DnsFilter.addrs_answer]; rfl⟩
  · intro query rest hqueries hrefused
    have hrefused : state.dnsFilter.allowlist.allows (dnsHost query.name) = false := hrefused
    obtain ⟨hcode, hasked, -⟩ := DnsFilter.handleQuery_refused hqueries hrefused
    exact ⟨hcode, hasked⟩
  · rintro query - host (rfl | ⟨rfl, hdots⟩)
    · rw [hostPolicy_iff (not_dots_dnsHost query.name), dnsHost_dnsHost]
    · exact hostPolicy_iff hdots

/-- A literal address is a name that the filter lets through and the proxy blocks. -/
theorem literal_allowed_by_filter_only :
    ¬ ∀ (state : ProxyState) (name : String),
      state.allowlist.allows (dnsHost name) = true ↔ (state.hostPolicy (dnsHost name)).toBool = true := by
  intro h
  have hhost : dnsHost "10.0.0.5." = "10.0.0.5" := by decide
  have hpolicy := (h ⟨.new ["10.0.0.5"], ⟨[]⟩, ⟨⟨false⟩, [], fun _ => ""⟩, ⟨fun _ => none, fun _ => none⟩⟩ "10.0.0.5.").mp
    (by rw [hhost]; decide)
  rw [hhost] at hpolicy
  revert hpolicy
  decide

end Silo.Proxy
