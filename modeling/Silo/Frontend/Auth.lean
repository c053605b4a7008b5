import Mathlib.Data.List.Dedup

namespace Silo.Frontend

abbrev Bytes := List UInt8

abbrev Bytes32 := Vector UInt8 32

/-- SHA-256, base64 and Ed25519. `validKey` tells the bytes that
`VerifyingKey::from_bytes` accepts; a key is its bytes. -/
structure Crypto where
  sha256 : Bytes → Bytes32
  b64 : Bytes → String
  unb64 : String → Option Bytes
  validKey : Bytes32 → Bool
  verify : Bytes32 → Bytes32 → Bytes → Bool

def constantTimeEq (a b : Bytes32) : Bool :=
  (a.toList.zip b.toList).foldl (fun acc p => acc ||| (p.1 ^^^ p.2)) 0 == 0

theorem foldl_or_eq_zero (l : List (UInt8 × UInt8)) (acc : UInt8) :
    l.foldl (fun acc p => acc ||| (p.1 ^^^ p.2)) acc = 0 ↔ acc = 0 ∧ ∀ p ∈ l, p.1 = p.2 := by
  induction l generalizing acc with
  | nil => simp
  | cons p l ih =>
      rw [List.foldl_cons, ih, UInt8.or_eq_zero_iff, UInt8.xor_eq_zero_iff]
      simp [and_assoc]

theorem zip_forall_eq : ∀ {l m : List UInt8}, l.length = m.length →
    ((∀ p ∈ l.zip m, p.1 = p.2) ↔ l = m)
  | [], [], _ => by simp
  | x :: l, y :: m, h => by
      rw [List.zip_cons_cons, List.forall_mem_cons, zip_forall_eq (Nat.succ.inj h), List.cons.injEq]

theorem constantTimeEq_iff (a b : Bytes32) : constantTimeEq a b = true ↔ a = b := by
  rw [constantTimeEq, beq_iff_eq, foldl_or_eq_zero, zip_forall_eq (by simp), Vector.toList_inj]
  simp

def nanosPerSec : Nat := 1000000000

def pairingCodeTtl : Nat := 120 * nanosPerSec

def pairingAlphabet : List Char := "ABCDEFGHJKLMNPQRSTUVWXYZ23456789".toList

def pairingCodeLen : Nat := 8

/-- A code that `mint` can draw. -/
abbrev PairingCode :=
  { code : String // code.toList.length = pairingCodeLen ∧ ∀ ch ∈ code.toList, ch ∈ pairingAlphabet }

theorem pairingCode_of_replicate {code : String} {ch : Char}
    (hcode : code.toList = List.replicate pairingCodeLen ch) (hch : ch ∈ pairingAlphabet) :
    code.toList.length = pairingCodeLen ∧ ∀ c ∈ code.toList, c ∈ pairingAlphabet := by
  rw [hcode]
  refine ⟨List.length_replicate, ?_⟩
  intro c hc
  rw [List.eq_of_mem_replicate hc]
  exact hch

theorem pairingCode_first : "AAAAAAAA".toList.length = pairingCodeLen ∧ ∀ c ∈ "AAAAAAAA".toList, c ∈ pairingAlphabet :=
  pairingCode_of_replicate rfl (by decide)

/-- When a code was minted. `serial` numbers the calls of `mint`. -/
structure Mint where
  serial : Nat
  issued : Nat
  deriving DecidableEq, Repr

structure PairingCodes where
  codes : List (String × Mint)
  minted : List (String × Nat)

namespace PairingCodes

variable (p : PairingCodes)

def new : PairingCodes := ⟨[], []⟩

/-- `code` is what the random source gives. -/
def mintAt (code : PairingCode) (now : Nat) : PairingCodes where
  codes := (code.1, ⟨p.minted.length, now⟩) :: p.codes.filter fun e => e.1 ≠ code.1
  minted := p.minted ++ [(code.1, now)]

/-- Consumes the code: a mint of it that has not expired. The code is removed
either way. -/
def redeemAt (code : String) (now : Nat) : Option Mint × PairingCodes :=
  ((p.codes.lookup code).filter fun mint => now - mint.issued ≤ pairingCodeTtl,
    { p with codes := p.codes.filter fun e => e.1 ≠ code })

end PairingCodes

structure KeyRecord where
  publicKeyB64 : String
  clientName : String
  deriving DecidableEq, Repr

/-- Paired client public keys by key id, and what `save` wrote to their file,
in order. -/
structure AuthorizedKeys where
  records : List (String × KeyRecord)
  saves : List (List (String × KeyRecord))

def parsePublicKey (crypto : Crypto) (publicKeyB64 : String) : Option Bytes32 :=
  (crypto.unb64 publicKeyB64).bind fun bytes =>
    if h : bytes.length = 32 then
      let key : Bytes32 := ⟨bytes.toArray, by simp [h]⟩
      if crypto.validKey key then some key else none
    else none

def validSignature (crypto : Crypto) (key challenge : Bytes32) (signatureB64 : String) : Bool :=
  (crypto.unb64 signatureB64).any fun bytes => bytes.length = 64 && crypto.verify key challenge bytes

namespace AuthorizedKeys

variable (keys : AuthorizedKeys)

/-- Registers a public key under a fresh key id and persists the registry. A
failed `save` leaves the key in memory. -/
def add (keyId publicKeyB64 clientName : String) (saved : Bool) : Option String × AuthorizedKeys :=
  let records := (keyId, ⟨publicKeyB64, clientName⟩) :: keys.records
  if saved then (some keyId, ⟨records, keys.saves ++ [records]⟩)
  else (none, { keys with records := records })

def verifyingKey (crypto : Crypto) (keyId : String) : Option Bytes32 :=
  (keys.records.lookup keyId).bind fun record => parsePublicKey crypto record.publicKeyB64

def clientName (keyId : String) : Option String :=
  ((keys.records.lookup keyId).map KeyRecord.clientName).filter fun name => name ≠ ""

end AuthorizedKeys

/-- How `write_private_file` ends: the file cannot be opened; an error comes after so
many bytes; the bytes are in and the permissions cannot be set; or all is well. -/
inductive WriteOutcome
  | unopened
  | broken (bytes : Nat)
  | unsettled
  | done
  deriving DecidableEq, Repr

def writePrivateFile (outcome : WriteOutcome) (file : Option Bytes) (contents : Bytes) : Bool × Option Bytes :=
  match outcome with
  | .unopened => (false, file)
  | .broken bytes => (false, some (contents.take bytes))
  | .unsettled => (false, some contents)
  | .done => (true, some contents)

/-- `serde_json` for the registry of keys. -/
structure RegistryText where
  print : List (String × KeyRecord) → Bytes
  parse : Bytes → Option (List (String × KeyRecord))

/-- The registry in memory and the file that it is kept in. -/
structure KeyFile where
  keys : AuthorizedKeys
  file : Option Bytes

namespace KeyFile

variable (text : RegistryText)

def load (file : Option Bytes) : Option (List (String × KeyRecord)) :=
  match file with
  | some contents => text.parse contents
  | none => some []

/-- The first id that is not taken, of those that `short_id` draws. -/
def freshId (keys : AuthorizedKeys) (drawn : List String) : Option String :=
  drawn.find? fun id => (keys.records.lookup id).isNone

/-- Registers a key, if an id is found among those drawn: the id, or none for an error. -/
def add (store : KeyFile) (drawn : List String) (publicKeyB64 clientName : String) (outcome : WriteOutcome) :
    Option (Option String × KeyFile) := do
  let keyId ← freshId store.keys drawn
  let records := (keyId, ⟨publicKeyB64, clientName⟩) :: store.keys.records
  let (saved, file) := writePrivateFile outcome store.file (text.print records)
  let (result, keys) := store.keys.add keyId publicKeyB64 clientName saved
  return (result, ⟨keys, file⟩)

/-- A failed registration changes nothing; one that succeeds adds just the key, under a
fresh id, and the file has the registry. -/
structure AddSound (store after : KeyFile) (result : Option String) (record : KeyRecord) : Prop where
  failed : result = none → (∀ id, after.keys.records.lookup id = store.keys.records.lookup id) ∧
    after.file = store.file
  fresh : ∀ id, result = some id → store.keys.records.lookup id = none
  added : ∀ id, result = some id → after.keys.records.lookup id = some record
  others : ∀ id, result = some id → ∀ other, other ≠ id →
    after.keys.records.lookup other = store.keys.records.lookup other
  loads : ∀ id, result = some id → ∃ loaded, load text after.file = some loaded ∧
    ∀ other, loaded.lookup other = after.keys.records.lookup other

variable {text} {store after : KeyFile} {drawn : List String} {publicKeyB64 clientName : String}
  {outcome : WriteOutcome} {result : Option String}

theorem add_cases (h : store.add text drawn publicKeyB64 clientName outcome = some (result, after)) :
    ∃ keyId, store.keys.records.lookup keyId = none ∧
      after.keys.records = (keyId, ⟨publicKeyB64, clientName⟩) :: store.keys.records ∧
      after.file = (writePrivateFile outcome store.file (text.print after.keys.records)).2 ∧
      result = if outcome = .done then some keyId else none := by
  simp only [add, Option.bind_eq_bind, Option.bind_eq_some_iff] at h
  obtain ⟨keyId, hfresh, h⟩ := h
  have hnone : store.keys.records.lookup keyId = none := by simpa using List.find?_some hfresh
  refine ⟨keyId, hnone, ?_⟩
  cases outcome <;> cases h <;> simp [writePrivateFile, AuthorizedKeys.add]

theorem lookup_cons_of_ne {keyId other : String} (record : KeyRecord) (records : List (String × KeyRecord))
    (h : other ≠ keyId) : List.lookup other ((keyId, record) :: records) = records.lookup other := by
  rw [List.lookup_cons, beq_eq_false_iff_ne.mpr h]

/-- A registration is sound exactly if the registry was written: after any other end of
the write the key stays in memory. -/
theorem addSound_iff (h : store.add text drawn publicKeyB64 clientName outcome = some (result, after))
    (htext : ∃ loaded, text.parse (text.print after.keys.records) = some loaded ∧
      ∀ id, loaded.lookup id = after.keys.records.lookup id) :
    AddSound text store after result ⟨publicKeyB64, clientName⟩ ↔ outcome = .done := by
  obtain ⟨keyId, hnone, hrecords, hfile, hresult⟩ := add_cases h
  have hadded : after.keys.records.lookup keyId = some ⟨publicKeyB64, clientName⟩ := by
    rw [hrecords, List.lookup_cons_self]
  constructor
  · intro hsound
    by_contra hfailed
    rw [if_neg hfailed] at hresult
    have hsame := (hsound.failed hresult).1 keyId
    rw [hadded, hnone] at hsame
    cases hsame
  · rintro rfl
    rw [if_pos rfl] at hresult
    subst hresult
    constructor
    · intro hresult
      cases hresult
    · rintro _ ⟨⟩
      exact hnone
    · rintro _ ⟨⟩
      exact hadded
    · rintro _ ⟨⟩ other hother
      rw [hrecords, lookup_cons_of_ne _ _ hother]
    · rintro _ ⟨⟩
      rw [hfile]
      exact htext

/-- A registry of one key, and its text. -/
def laptop : RegistryText where
  print := fun _ => "\x7b\n  \"0a1b2c3d4e5f\": \x7b\n    \"public_key_b64\": \"a2V5\",\n    \"client_name\": \"laptop\"\n  \x7d\n\x7d".toUTF8.toList
  parse := fun _ => some [("0a1b2c3d4e5f", ⟨"a2V5", "laptop"⟩)]

def unpaired : KeyFile := ⟨⟨[], []⟩, none⟩

theorem addSound_laptop : ∃ after,
    unpaired.add laptop ["0a1b2c3d4e5f"] "a2V5" "laptop" .done = some (some "0a1b2c3d4e5f", after) ∧
      AddSound laptop unpaired after (some "0a1b2c3d4e5f") ⟨"a2V5", "laptop"⟩ := by
  refine ⟨_, rfl, ?_⟩
  have hadd : unpaired.add laptop ["0a1b2c3d4e5f"] "a2V5" "laptop" .done = some (some "0a1b2c3d4e5f", _) := rfl
  apply (addSound_iff hadd ?_).mpr rfl
  exact ⟨_, rfl, fun id => rfl⟩

/-- The registry file cannot be opened: the client gets an error, and its key is good
for the rest of the session. -/
theorem unsaved_key_kept :
    ¬ ∀ (drawn : List String) (publicKeyB64 clientName : String) (outcome : WriteOutcome) (result : Option String)
      (after : KeyFile), unpaired.add laptop drawn publicKeyB64 clientName outcome = some (result, after) →
        AddSound laptop unpaired after result ⟨publicKeyB64, clientName⟩ := by
  intro h
  have hsound := h ["0a1b2c3d4e5f"] "a2V5" "laptop" .unopened none _ rfl
  have hkept := (hsound.failed rfl).1 "0a1b2c3d4e5f"
  cases hkept

end KeyFile

end Silo.Frontend
