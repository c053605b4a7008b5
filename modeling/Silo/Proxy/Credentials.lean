import Silo.Lib.Text
import Silo.Proxy.Allowlist

namespace Silo.Proxy

open Silo.Lib

/-- Header names are lower-case, as `http::HeaderName` keeps them; a value is its
bytes. The values of one name stand in their order. -/
abbrev HeaderMap := List (String × List UInt8)

namespace HeaderMap

def remove (headers : HeaderMap) (name : String) : HeaderMap := headers.filter fun h => h.1 ≠ name

def insert (headers : HeaderMap) (name : String) (value : List UInt8) : HeaderMap :=
  headers.remove name ++ [(name, value)]

def values (headers : HeaderMap) (name : String) : List (List UInt8) :=
  (headers.filter fun h => h.1 = name).map Prod.snd

theorem values_remove (headers : HeaderMap) (name : String) : (headers.remove name).values name = [] := by
  simp [remove, values, List.filter_filter]

theorem values_insert_self (headers : HeaderMap) (name : String) (value : List UInt8) :
    (headers.insert name value).values name = [value] := by
  have h := values_remove headers name
  simp only [values, insert, List.filter_append, List.map_append] at h ⊢
  simp [h]

theorem values_insert_of_ne (headers : HeaderMap) {name name' : String} (value : List UInt8) (h : name' ≠ name) :
    (headers.insert name value).values name' = headers.values name' := by
  have hsame : ((headers.remove name).filter fun h => h.1 = name') = headers.filter fun h => h.1 = name' := by
    rw [remove, List.filter_filter]
    apply List.filter_congr
    rintro ⟨key, bytes⟩ -
    by_cases hkey : key = name'
    · simp [hkey, h]
    · simp [hkey]
  simp only [values, insert, List.filter_append, List.map_append, hsame]
  simp [Ne.symm h]

end HeaderMap

/-- What the `http` crate takes as a header name, lower-cased, and as a value. -/
structure HeaderSyntax where
  name : String → Option String
  value : String → Option (List UInt8)

structure CredentialInjection where
  host : String
  header : String
  valueEnv : String
  format : String
  deriving DecidableEq, Repr

structure Resolved where
  header : String
  format : String
  secret : String
  deriving DecidableEq, Repr

/-- The template with the secret in place. -/
def Resolved.value (resolved : Resolved) : String :=
  String.ofList (replaceAll "\x7bsecret\x7d".toList resolved.secret.toList 0 resolved.format.toList)

structure CredentialStore where
  byHost : List (String × Resolved)
  deriving DecidableEq, Repr

namespace CredentialStore

/-- A later entry for a host takes the place of an earlier one. -/
def add (env : String → Option String) (store : CredentialStore) (injection : CredentialInjection) :
    Except String CredentialStore :=
  match env injection.valueEnv with
  | some value => .ok ⟨(normalizeHost injection.host, ⟨injection.header, injection.format, value⟩) :: store.byHost⟩
  | none =>
    .error ("credential for host " ++ injection.host ++ " requires environment variable " ++
      injection.valueEnv ++ " which is not set")

def fromSettings (env : String → Option String) (credentials : List CredentialInjection) :
    Except String CredentialStore := credentials.foldlM (add env) ⟨[]⟩

structure Configured (env : String → Option String) (host : String) (resolved : Resolved)
    (injection : CredentialInjection) : Prop where
  host : normalizeHost injection.host = host
  header : resolved.header = injection.header
  format : resolved.format = injection.format
  secret : env injection.valueEnv = some resolved.secret

theorem foldlM_add_lookup {env : String → Option String} {credentials : List CredentialInjection}
    {start store : CredentialStore} {host : String} {resolved : Resolved}
    (h : credentials.foldlM (add env) start = .ok store) (hlook : store.byHost.lookup host = some resolved) :
    (∃ injection ∈ credentials, Configured env host resolved injection) ∨
      start.byHost.lookup host = some resolved := by
  induction credentials generalizing start with
  | nil =>
      cases h
      exact .inr hlook
  | cons injection credentials ih =>
      rw [List.foldlM_cons, add] at h
      cases hvalue : env injection.valueEnv with
      | none =>
          rw [hvalue] at h
          cases h
      | some value =>
          rw [hvalue] at h
          rcases ih h with ⟨other, hmem, hconf⟩ | hstart
          · exact .inl ⟨other, List.mem_cons_of_mem _ hmem, hconf⟩
          · rw [List.lookup_cons] at hstart
            split at hstart
            · next heq =>
                cases hstart
                exact .inl ⟨injection, List.mem_cons_self, (beq_iff_eq.mp heq).symm, rfl, rfl, hvalue⟩
            · exact .inr hstart

/-- A secret is stored for a host only if a credential is configured for it. -/
theorem fromSettings_lookup {env : String → Option String} {credentials : List CredentialInjection}
    {store : CredentialStore} {host : String} {resolved : Resolved} (h : fromSettings env credentials = .ok store)
    (hlook : store.byHost.lookup host = some resolved) :
    ∃ injection ∈ credentials, Configured env host resolved injection := by
  rcases foldlM_add_lookup h hlook with hconf | hstart
  · exact hconf
  · cases hstart

/-- Rewrites the request headers for `host`, and says whether a credential was
injected. -/
def apply (store : CredentialStore) (http : HeaderSyntax) (host : String) (headers : HeaderMap) :
    HeaderMap × Bool :=
  match store.byHost.lookup (normalizeHost host) with
  | none => (headers, false)
  | some resolved =>
    match http.name resolved.header with
    | none => (headers, false)
    | some name =>
      match http.value resolved.value with
      | some value => ((headers.remove name).insert name value, true)
      | none => (headers.remove name, false)

end CredentialStore

end Silo.Proxy
