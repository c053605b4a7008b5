import Silo.Frontend.Early

namespace Silo.Frontend

open Silo.Lib Silo.Core Silo.Harness

def AuthRequest.isChallenge : AuthRequest → Bool
  | .challenge _ => true
  | _ => false

def ServerMessage.ofAuth : ServerMessage → Bool
  | .authChallenge _ | .authError _ => true
  | _ => false

namespace State

variable {cfg : Config} {s t u : State} {c d : Nat}

def Redeemed (s : State) (c : Nat) (code : String) : Prop :=
  ∃ r ∈ s.redeemed, r.conn = c ∧ r.code = code ∧
    s.pairing.minted[r.mint.serial]? = some (code, r.mint.issued) ∧ r.time - r.mint.issued ≤ pairingCodeTtl

/-- The signature verifies under the key registered for the id, over the last
challenge of the connection, which was issued for that id; no earlier frame of the
connection carried a signature. -/
def Signed (cfg : Config) (s : State) (conn : Conn) (keyId signatureB64 : String) : Prop :=
  ∃ challenge record key, conn.issued.getLast? = some (keyId, challenge) ∧
    s.keys.records.lookup keyId = some record ∧
    parsePublicKey cfg.crypto record.publicKeyB64 = some key ∧
    validSignature cfg.crypto key challenge signatureB64 = true ∧
    ∀ auth ∈ conn.heard.dropLast, auth.isChallenge = true

/-- What the last `Authenticate` frame of the connection carried. -/
inductive Admitted (cfg : Config) (s : State) (c : Nat) (conn : Conn) : Prop
  | localToken (token : String) (heard : conn.heard.getLast? = some (.localToken token))
      (digest : cfg.digest token = cfg.digest cfg.token)
  | pair (code publicKeyB64 clientName keyId : String)
      (heard : conn.heard.getLast? = some (.pair code publicKeyB64 clientName))
      (redeemed : s.Redeemed c code) (valid : (parsePublicKey cfg.crypto publicKeyB64).isSome = true)
      (persisted : ∃ records ∈ s.keys.saves, records.lookup keyId = some ⟨publicKeyB64, clientName⟩)
  | signature (keyId signatureB64 : String)
      (heard : conn.heard.getLast? = some (.signature keyId signatureB64))
      (signed : Signed cfg s conn keyId signatureB64)

def Progress (cfg : Config) (s : State) (c : Nat) (conn : Conn) : Prop :=
  match conn.phase with
  | .away | .connecting => conn.heard = [] ∧ conn.issued = []
  | .authenticating pending =>
    pending = conn.issued.getLast? ∧ ∀ auth ∈ conn.heard, auth.isChallenge = true
  | .pairing publicKeyB64 clientName =>
    ∃ code, conn.heard.getLast? = some (.pair code publicKeyB64 clientName) ∧ s.Redeemed c code ∧
      (parsePublicKey cfg.crypto publicKeyB64).isSome = true
  | .verified keyId =>
    ∃ signatureB64, conn.heard.getLast? = some (.signature keyId signatureB64) ∧
      Signed cfg s conn keyId signatureB64
  | .closed => True
  | _ => Admitted cfg s c conn

/-- Outstanding codes were minted and never redeemed, and a mint is redeemed at most
once, in time. -/
structure Codes (s : State) : Prop where
  outstanding : ∀ e ∈ s.pairing.codes,
    s.pairing.minted[e.2.serial]? = some (e.1, e.2.issued) ∧ ∀ r ∈ s.redeemed, r.mint.serial ≠ e.2.serial
  redeemed : ∀ r ∈ s.redeemed,
    s.pairing.minted[r.mint.serial]? = some (r.code, r.mint.issued) ∧ r.time - r.mint.issued ≤ pairingCodeTtl
  once : (s.redeemed.map fun r => r.mint.serial).Nodup

structure Gate (cfg : Config) (s : State) : Prop where
  codes : s.Codes
  conns : ∀ c, Progress cfg s c (s.conns c)

structure Grows (s t : State) : Prop where
  minted : s.pairing.minted <+: t.pairing.minted
  redeemed : ∀ r ∈ s.redeemed, r ∈ t.redeemed
  records : ∀ keyId record, s.keys.records.lookup keyId = some record →
    t.keys.records.lookup keyId = some record
  saves : ∀ records ∈ s.keys.saves, records ∈ t.keys.saves

theorem Grows.of_eq (hm : s.pairing.minted <+: t.pairing.minted) (hr : t.redeemed = s.redeemed)
    (hk : t.keys = s.keys) : Grows s t where
  minted := hm
  redeemed := by rw [hr]; exact fun _ h => h
  records := by rw [hk]; exact fun _ _ h => h
  saves := by rw [hk]; exact fun _ h => h

theorem getElem?_of_prefix {α : Type} {l m : List α} {n : Nat} {x : α} (h : l <+: m)
    (hn : l[n]? = some x) : m[n]? = some x := by
  obtain ⟨k, rfl⟩ := h
  obtain ⟨hlt, -⟩ := List.getElem?_eq_some_iff.mp hn
  rw [List.getElem?_append_left hlt, hn]

theorem Redeemed.grows {code : String} (h : s.Redeemed c code) (hg : Grows s t) : t.Redeemed c code := by
  obtain ⟨r, hr, hc, hcode, hm, htime⟩ := h
  exact ⟨r, hg.redeemed r hr, hc, hcode, getElem?_of_prefix hg.minted hm, htime⟩

theorem Signed.grows {conn : Conn} {keyId signatureB64 : String} (h : Signed cfg s conn keyId signatureB64)
    (hg : Grows s t) : Signed cfg t conn keyId signatureB64 := by
  obtain ⟨challenge, record, key, hi, hl, hrest⟩ := h
  exact ⟨challenge, record, key, hi, hg.records _ _ hl, hrest⟩

theorem Admitted.grows {conn : Conn} (h : Admitted cfg s c conn) (hg : Grows s t) : Admitted cfg t c conn := by
  cases h with
  | localToken token heard digest => exact .localToken token heard digest
  | pair code publicKeyB64 clientName keyId heard redeemed valid persisted =>
      obtain ⟨records, hr, hl⟩ := persisted
      exact .pair code publicKeyB64 clientName keyId heard (redeemed.grows hg) valid
        ⟨records, hg.saves records hr, hl⟩
  | signature keyId signatureB64 heard signed => exact .signature keyId signatureB64 heard (signed.grows hg)

theorem Progress.grows {conn : Conn} (h : Progress cfg s c conn) (hg : Grows s t) :
    Progress cfg t c conn := by
  revert h
  simp only [Progress]
  split
  · exact id
  · exact id
  · exact id
  · rintro ⟨code, hh, hr, hv⟩
    exact ⟨code, hh, hr.grows hg, hv⟩
  · rintro ⟨signatureB64, hh, hs⟩
    exact ⟨signatureB64, hh, hs.grows hg⟩
  · exact id
  · exact fun h => h.grows hg

/-- A grant survives whatever the connection writes and wherever it goes next. -/
theorem Admitted.keep {conn conn' : Conn} (h : Admitted cfg s c conn) (hh : conn'.heard = conn.heard)
    (hi : conn'.issued = conn.issued) : Admitted cfg s c conn' := by
  cases h with
  | localToken token heard digest => exact .localToken token (hh ▸ heard) digest
  | pair code publicKeyB64 clientName keyId heard redeemed valid persisted =>
      exact .pair code publicKeyB64 clientName keyId (hh ▸ heard) redeemed valid persisted
  | signature keyId signatureB64 heard signed =>
      refine .signature keyId signatureB64 (hh ▸ heard) ?_
      rw [Signed, hh, hi]
      exact signed

theorem admitted_of_progress {conn : Conn} (h : Progress cfg s c conn) (he : conn.phase.early = false) :
    Admitted cfg s c conn := by
  revert h
  simp only [Progress]
  split
  case h_7 => exact id
  all_goals next heq => simp [heq, Phase.early] at he

theorem progress_of_admitted {conn : Conn} (h : Admitted cfg s c conn) (he : conn.phase.early = false) :
    Progress cfg s c conn := by
  simp only [Progress]
  split
  case h_7 => exact h
  all_goals next heq => simp [heq, Phase.early] at he

theorem progress_closed {conn : Conn} (h : conn.phase = .closed) : Progress cfg s c conn := by
  simp [Progress, h]

theorem Gate.move (h : Gate cfg s) (hg : Grows s t) (hcodes : t.Codes)
    (hothers : ∀ d, d ≠ c → t.conns d = s.conns d) (hc : Progress cfg t c (t.conns c)) : Gate cfg t where
  codes := hcodes
  conns d := by
    by_cases hd : d = c
    · rw [hd]
      exact hc
    · rw [hothers d hd]
      exact (h.conns d).grows hg

theorem Codes.of_eq (h : s.Codes) (hp : t.pairing = s.pairing) (hr : t.redeemed = s.redeemed) : t.Codes := by
  obtain ⟨ho, hd, honce⟩ := h
  rw [← hp, ← hr] at ho hd
  rw [← hr] at honce
  exact ⟨ho, hd, honce⟩

theorem Codes.mint (h : s.Codes) (code : PairingCode) (now : Nat)
    (hp : t.pairing = s.pairing.mintAt code now) (hr : t.redeemed = s.redeemed) : t.Codes := by
  have hold {r : Nat} {x : String × Nat} (hx : s.pairing.minted[r]? = some x) :
      t.pairing.minted[r]? = some x := by
    rw [hp]
    exact getElem?_of_prefix (List.prefix_append _ _) hx
  constructor
  · intro e he
    rw [hp, PairingCodes.mintAt, List.mem_cons] at he
    obtain rfl | he := he
    · refine ⟨by rw [hp]; simp [PairingCodes.mintAt], ?_⟩
      -- The new serial is past every mint that was redeemed.
      intro r hmem heq
      rw [hr] at hmem
      obtain ⟨hlt, -⟩ := List.getElem?_eq_some_iff.mp (h.redeemed r hmem).1
      simp only at heq
      omega
    · obtain ⟨hm, hn⟩ := h.outstanding e (List.mem_filter.mp he).1
      exact ⟨hold hm, by rw [hr]; exact hn⟩
  · intro r hmem
    rw [hr] at hmem
    exact ⟨hold (h.redeemed r hmem).1, (h.redeemed r hmem).2⟩
  · rw [hr]
    exact h.once

theorem mem_of_lookup {α β : Type} [BEq α] [LawfulBEq α] {a : α} {b : β} {l : List (α × β)}
    (h : l.lookup a = some b) : (a, b) ∈ l := by
  obtain ⟨l₁, l₂, rfl, -⟩ := List.lookup_eq_some_iff.mp h
  simp

theorem Codes.redeem (h : s.Codes) (code : String)
    (hp : t.pairing = (s.pairing.redeemAt code s.now).2)
    (hr : t.redeemed = s.redeemed ++
      ((s.pairing.redeemAt code s.now).1.map fun mint => Redemption.mk c code mint s.now).toList) :
    t.Codes := by
  have hm : t.pairing.minted = s.pairing.minted := by rw [hp]; rfl
  have hcodes : t.pairing.codes = s.pairing.codes.filter fun e => e.1 ≠ code := by rw [hp]; rfl
  cases hmint : (s.pairing.redeemAt code s.now).1 with
  | none =>
      rw [hmint, Option.map_none, Option.toList_none, List.append_nil] at hr
      constructor
      · intro e he
        rw [hcodes] at he
        rw [hm, hr]
        exact h.outstanding e (List.mem_filter.mp he).1
      · rw [hm, hr]
        exact h.redeemed
      · rw [hr]
        exact h.once
  | some mint =>
      rw [hmint, Option.map_some, Option.toList_some] at hr
      obtain ⟨hlookup, htime⟩ := Option.filter_eq_some_iff.mp hmint
      obtain ⟨hminted, hfresh⟩ := h.outstanding (code, mint) (mem_of_lookup hlookup)
      constructor
      · intro e he
        rw [hcodes, List.mem_filter] at he
        obtain ⟨hem, hen⟩ := h.outstanding e he.1
        rw [hm, hr]
        refine ⟨hem, ?_⟩
        intro r hmem heq
        rw [List.mem_append, List.mem_singleton] at hmem
        obtain hmem | rfl := hmem
        · exact hen r hmem heq
        · -- The same mint would be the same code.
          simp only at heq
          rw [← heq, hminted] at hem
          simp at hem he
          exact he.2 hem.1.symm
      · intro r hmem
        rw [hr, List.mem_append, List.mem_singleton] at hmem
        rw [hm]
        obtain hmem | rfl := hmem
        · exact h.redeemed r hmem
        · exact ⟨hminted, by simpa using htime⟩
      · rw [hr, List.map_append, List.map_singleton]
        apply List.Nodup.append h.once (List.nodup_singleton _)
        intro n hn hn'
        obtain ⟨r, hmem, rfl⟩ := List.mem_map.mp hn
        exact hfresh r hmem (List.mem_singleton.mp hn')

end State

end Silo.Frontend
