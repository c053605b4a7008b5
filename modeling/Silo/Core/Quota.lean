import Mathlib.Algebra.GroupWithZero.Nat
import Mathlib.Algebra.BigOperators.Group.List.Basic
import Silo.Lib.Machine

namespace Silo.Core

open Silo.Lib

/-- The quota of a session. `dollarQuota` is the comparison of the dollar spend,
in floats, with `max_usd`, and its message. `overflowChecks` tells a build in
which an integer overflow panics from one in which it wraps. -/
structure QuotaConfig where
  maxTotalTokens : Option UInt64
  dollarQuota : UInt64 → UInt64 → Option String
  overflowChecks : Bool

def QuotaConfig.reached (quota : QuotaConfig) (total : Nat) : Bool :=
  quota.maxTotalTokens.any fun limit => limit.toNat ≤ total

structure UsageSnapshot where
  inputTokens : UInt64
  outputTokens : UInt64
  deriving DecidableEq, Repr

/-- The `TokenDelta` of a completion in its machine integers. -/
structure Usage where
  inputTokens : UInt64
  outputTokens : UInt64
  deriving DecidableEq, Repr

/-- The result of a call of `check_quota`. -/
inductive Verdict
  | passed
  | tokenQuota (message : String)
  | dollarQuota (message : String)
  | panicked
  deriving DecidableEq, Repr

def Verdict.isTokenQuota : Verdict → Bool
  | tokenQuota _ => true
  | _ => false

namespace UsageSnapshot

variable (quota : QuotaConfig) (snap : UsageSnapshot)

def exactTotal : Nat := snap.inputTokens.toNat + snap.outputTokens.toNat

/-- `input_tokens + output_tokens`; `none` is a panic. -/
def totalTokens : Option UInt64 :=
  if quota.overflowChecks && decide (2 ^ 64 ≤ snap.exactTotal) then none
  else some (snap.inputTokens + snap.outputTokens)

def checkDollars : Verdict :=
  match quota.dollarQuota snap.inputTokens snap.outputTokens with
  | some message => .dollarQuota message
  | none => .passed

def checkQuota : Verdict :=
  match quota.maxTotalTokens with
  | none => snap.checkDollars quota
  | some limit =>
    match snap.totalTokens quota with
    | none => .panicked
    | some total =>
      if limit ≤ total then
        .tokenQuota ("token quota reached: " ++ toString total.toNat ++ " of " ++ toString limit.toNat ++
          " tokens used")
      else snap.checkDollars quota

variable {quota snap}

theorem totalTokens_exact (h : snap.exactTotal < 2 ^ 64) :
    ∃ total, snap.totalTokens quota = some total ∧ total.toNat = snap.exactTotal := by
  refine ⟨snap.inputTokens + snap.outputTokens, ?_, ?_⟩
  · have hno : ¬ 2 ^ 64 ≤ snap.exactTotal := by omega
    simp only [totalTokens, hno, decide_false, Bool.and_false, Bool.false_eq_true, if_false]
  · rw [UInt64.toNat_add]
    exact Nat.mod_eq_of_lt h

theorem checkDollars_ne : snap.checkDollars quota ≠ .panicked ∧
    (snap.checkDollars quota).isTokenQuota = false := by
  rw [checkDollars]
  split <;> simp [Verdict.isTokenQuota]

theorem checkQuota_exact (h : quota.maxTotalTokens.isSome = true → snap.exactTotal < 2 ^ 64) :
    (snap.checkQuota quota).isTokenQuota = quota.reached snap.exactTotal ∧
      snap.checkQuota quota ≠ .panicked := by
  have hdollars : snap.checkDollars quota ≠ .panicked ∧ (snap.checkDollars quota).isTokenQuota = false :=
    checkDollars_ne
  cases hlimit : quota.maxTotalTokens with
  | none => simp [checkQuota, QuotaConfig.reached, hlimit, hdollars]
  | some limit =>
      obtain ⟨total, htotal, hexact⟩ :
          ∃ total, snap.totalTokens quota = some total ∧ total.toNat = snap.exactTotal :=
        totalTokens_exact (h (by simp [hlimit]))
      simp only [checkQuota, QuotaConfig.reached, hlimit, htotal, Option.any_some, ← hexact]
      split
      · next hle => simp [Verdict.isTokenQuota, UInt64.le_iff_toNat_le.mp hle]
      · next hle =>
          rw [UInt64.le_iff_toNat_le] at hle
          simp [hle, hdollars]

end UsageSnapshot

/-- Where an agent is in `complete`: between the two loads of `check_quota`, past
it, or between the two additions of `record`. `late` tells whether the recorded
total had reached the limit, and `shut` whether a token quota error had been
returned, when the check began; `lateEnd` is `late` for its end. -/
inductive Completing
  | idle
  | checking (input : UInt64) (late shut : Bool)
  | completing (late lateEnd : Bool)
  | recording (output : UInt64) (late lateEnd : Bool)
  | panicked
  deriving DecidableEq, Repr

/-- A check that returned, with whether a token quota error had been returned before
it began. -/
structure Returned where
  verdict : Verdict
  shut : Bool
  deriving DecidableEq, Repr

/-- The meter and the agents that share it. `inputs` and `outputs` are what was
added to the counters, and `returned` the checks, in order. -/
structure UsageMeter where
  input : UInt64
  output : UInt64
  agents : Nat → Completing
  inputs : List UInt64
  outputs : List UInt64
  returned : List Returned

namespace UsageMeter

variable (quota : QuotaConfig) (m : UsageMeter)

inductive Act
  | load
  | check
  | fail
  | recordInput (usage : Usage)
  | recordOutput

def new : UsageMeter := ⟨0, 0, fun _ => .idle, [], [], []⟩

def sum (tokens : List UInt64) : Nat := (tokens.map UInt64.toNat).sum

def recorded : Nat := sum m.inputs + sum m.outputs

def full : Bool := quota.reached m.recorded

def shut : Bool := m.returned.any fun r => r.verdict.isTokenQuota

def goto (a : Nat) (phase : Completing) : UsageMeter :=
  { m with agents := Function.update m.agents a phase }

def afterCheck (late lateEnd : Bool) : Verdict → Completing
  | .passed => .completing late lateEnd
  | .panicked => .panicked
  | _ => .idle

def next (m : UsageMeter) : Nat × Act → Option UsageMeter
  | (a, act) =>
    match act, m.agents a with
    | .load, .idle => some (m.goto a (.checking m.input (m.full quota) m.shut))
    | .check, .checking input late shut =>
      let verdict := (UsageSnapshot.mk input m.output).checkQuota quota
      some ({ m with returned := m.returned ++ [Returned.mk verdict shut] }.goto a
        (afterCheck late (m.full quota) verdict))
    | .fail, .completing _ _ => some (m.goto a .idle)
    | .recordInput usage, .completing late lateEnd =>
      some ({ m with input := m.input + usage.inputTokens, inputs := m.inputs ++ [usage.inputTokens] }.goto a
        (.recording usage.outputTokens late lateEnd))
    | .recordOutput, .recording output _ _ =>
      some ({ m with output := m.output + output, outputs := m.outputs ++ [output] }.goto a .idle)
    | _, _ => none

def machine : Machine UsageMeter (Nat × Act) := ⟨fun m => m = new, next quota⟩

end UsageMeter

theorem QuotaConfig.reached_mono {quota : QuotaConfig} {n k : Nat} (hle : n ≤ k)
    (h : quota.reached n = true) : quota.reached k = true := by
  obtain ⟨limit, hlimit, hn⟩ := (Option.any_eq_true ..).mp h
  rw [decide_eq_true_eq] at hn
  simp only [reached, hlimit, Option.any_some, decide_eq_true_eq]
  omega

namespace UsageMeter

variable {quota : QuotaConfig} {m m' : UsageMeter}

@[simp] theorem sum_nil : sum [] = 0 := rfl

@[simp] theorem sum_snoc (tokens : List UInt64) (t : UInt64) : sum (tokens ++ [t]) = sum tokens + t.toNat := by
  simp [sum]

/-- The additions of the step do not overflow. -/
def noOverflow (quota : QuotaConfig) (m : UsageMeter) : Nat × Act → Prop
  | (a, .check) => ∀ input late shut, m.agents a = .checking input late shut →
      quota.maxTotalTokens.isSome = true → input.toNat + m.output.toNat < 2 ^ 64
  | (_, .recordInput usage) => m.input.toNat + usage.inputTokens.toNat < 2 ^ 64
  | (a, .recordOutput) => ∀ output late lateEnd, m.agents a = .recording output late lateEnd →
      m.output.toNat + output.toNat < 2 ^ 64
  | _ => True

def unchecked (m : UsageMeter) : Prop := ∀ a input late shut, m.agents a ≠ .checking input late shut

/-- The step does not bring the total to the limit while a check is between its two
loads. -/
def undisturbed (quota : QuotaConfig) (m : UsageMeter) : Nat × Act → Prop
  | (_, .recordInput usage) =>
    m.full quota = false → quota.reached (m.recorded + usage.inputTokens.toNat) = true → m.unchecked
  | (a, .recordOutput) => ∀ output late lateEnd, m.agents a = .recording output late lateEnd →
    m.full quota = false → quota.reached (m.recorded + output.toNat) = true → m.unchecked
  | _ => True

/-- The counters are exact, nothing has panicked, a check that began after a token
quota error returns one too, and what can still be recorded began its check before the
total reached the limit. -/
structure OneWay (quota : QuotaConfig) (m : UsageMeter) : Prop where
  input : m.input.toNat = sum m.inputs
  output : m.output.toNat = sum m.outputs
  calm : ∀ a, m.agents a ≠ .panicked
  shut : ∀ r ∈ m.returned, r.shut = true → r.verdict.isTokenQuota = true
  completing : ∀ a late lateEnd, m.agents a = .completing late lateEnd → late = false
  recording : ∀ a output late lateEnd, m.agents a = .recording output late lateEnd → late = false

/-- `OneWay` with the end of a check in place of its beginning. -/
structure Strict (m : UsageMeter) : Prop where
  shut : m.returned.Pairwise fun r r' => r.verdict.isTokenQuota = true → r'.verdict.isTokenQuota = true
  completing : ∀ a late lateEnd, m.agents a = .completing late lateEnd → lateEnd = false
  recording : ∀ a output late lateEnd, m.agents a = .recording output late lateEnd → lateEnd = false

/-- What holds where an agent is: the first load of a check is worth the second. -/
def Sound (quota : QuotaConfig) (m : UsageMeter) : Completing → Prop
  | .idle => True
  | .checking input late shut => input.toNat ≤ m.input.toNat ∧
    (late = true → quota.reached (input.toNat + m.output.toNat) = true) ∧ (shut = true → late = true)
  | .completing late _ | .recording _ late _ => late = false
  | .panicked => False

structure Gate (quota : QuotaConfig) (m : UsageMeter) : Prop where
  input : m.input.toNat = sum m.inputs
  output : m.output.toNat = sum m.outputs
  closed : m.shut = true → m.full quota = true
  returned : ∀ r ∈ m.returned, r.shut = true → r.verdict.isTokenQuota = true
  agents : ∀ a, Sound quota m (m.agents a)

theorem Gate.oneWay (h : Gate quota m) : OneWay quota m where
  input := h.input
  output := h.output
  calm a ha := by simpa [Sound, ha] using h.agents a
  shut := h.returned
  completing a late lateEnd ha := by simpa [Sound, ha] using h.agents a
  recording a output late lateEnd ha := by simpa [Sound, ha] using h.agents a

theorem Gate.full_eq (h : Gate quota m) : m.full quota = quota.reached (m.input.toNat + m.output.toNat) := by
  rw [full, recorded, h.input, h.output]

theorem Sound.mono {phase : Completing} (h : Sound quota m phase) (hin : m.input.toNat ≤ m'.input.toNat)
    (hout : m.output.toNat ≤ m'.output.toNat) : Sound quota m' phase := by
  cases phase with
  | checking input late shut =>
      obtain ⟨hle, hlate, hshut⟩ := h
      refine ⟨Nat.le_trans hle hin, ?_, hshut⟩
      intro hl
      exact QuotaConfig.reached_mono (by omega) (hlate hl)
  | _ => exact h

variable {a : Nat} {phase : Completing} {l : Nat × Act}

theorem Gate.move (h : Gate quota m) (hin : m.input.toNat ≤ m'.input.toNat)
    (hout : m.output.toNat ≤ m'.output.toNat) (hinput : m'.input.toNat = sum m'.inputs)
    (houtput : m'.output.toNat = sum m'.outputs) (hagents : m'.agents = Function.update m.agents a phase)
    (hclosed : m'.shut = true → m'.full quota = true)
    (hreturned : ∀ r ∈ m'.returned, r.shut = true → r.verdict.isTokenQuota = true)
    (hphase : Sound quota m' phase) : Gate quota m' := by
  refine ⟨hinput, houtput, hclosed, hreturned, ?_⟩
  intro b
  rw [hagents, Function.update_apply]
  split
  · exact hphase
  · exact (h.agents b).mono hin hout

theorem Gate.goto (h : Gate quota m) (hphase : Sound quota m phase) : Gate quota (m.goto a phase) :=
  h.move (Nat.le_refl _) (Nat.le_refl _) h.input h.output rfl h.closed h.returned hphase

theorem gate_load (h : Gate quota m) :
    Gate quota (m.goto a (.checking m.input (m.full quota) m.shut)) := by
  apply h.goto
  refine ⟨Nat.le_refl _, ?_, h.closed⟩
  rw [h.full_eq]
  exact id

theorem gate_check {input : UInt64} {late shut : Bool} (h : Gate quota m)
    (hphase : m.agents a = .checking input late shut)
    (hno : quota.maxTotalTokens.isSome = true → input.toNat + m.output.toNat < 2 ^ 64)
    (hn : m.next quota (a, .check) = some m') : Gate quota m' := by
  simp only [next, hphase, Option.some.injEq] at hn
  subst hn
  obtain ⟨hexact, hcalm⟩ := @UsageSnapshot.checkQuota_exact quota ⟨input, m.output⟩ hno
  obtain ⟨hle, hlate, hshut⟩ : Sound quota m (.checking input late shut) := hphase ▸ h.agents a
  generalize (UsageSnapshot.mk input m.output).checkQuota quota = verdict at hexact hcalm
  have htokens (hl : late = true) : verdict.isTokenQuota = true := by
    rw [hexact]
    exact hlate hl
  refine h.move (Nat.le_refl _) (Nat.le_refl _) h.input h.output rfl ?_ ?_ ?_
  · intro hs
    simp only [UsageMeter.shut, UsageMeter.goto, List.any_append, List.any_cons, List.any_nil, Bool.or_false,
      Bool.or_eq_true] at hs
    obtain hs | hs := hs
    · exact h.closed hs
    · rw [hexact] at hs
      change m.full quota = true
      rw [h.full_eq]
      exact QuotaConfig.reached_mono (Nat.add_le_add_right hle _) hs
  · intro r hr
    obtain hr | hr := List.mem_append.mp hr
    · exact h.returned r hr
    · rw [List.mem_singleton.mp hr]
      exact fun hs => htokens (hshut hs)
  · cases verdict with
    | passed =>
        cases late with
        | false => rfl
        | true => cases htokens rfl
    | tokenQuota message => trivial
    | dollarQuota message => trivial
    | panicked => exact absurd rfl hcalm

/-- What holds where an agent is when no check straddles the moment the total reaches
the limit. -/
def SoundEnd (quota : QuotaConfig) (m : UsageMeter) : Completing → Prop
  | .checking input _ _ => m.full quota = true → quota.reached (input.toNat + m.output.toNat) = true
  | .completing _ lateEnd | .recording _ _ lateEnd => lateEnd = false
  | _ => True

structure StrictGate (quota : QuotaConfig) (m : UsageMeter) : Prop where
  order : m.returned.Pairwise fun r r' => r.verdict.isTokenQuota = true → r'.verdict.isTokenQuota = true
  agents : ∀ a, SoundEnd quota m (m.agents a)

theorem toNat_add_of_lt {x y : UInt64} (h : x.toNat + y.toNat < 2 ^ 64) :
    (x + y).toNat = x.toNat + y.toNat := by
  rw [UInt64.toNat_add]
  exact Nat.mod_eq_of_lt h

theorem full_mono (h : m.full quota = true) (hle : m.recorded ≤ m'.recorded) : m'.full quota = true :=
  QuotaConfig.reached_mono hle h

theorem gate_recordInput {usage : Usage} {late lateEnd : Bool} (h : Gate quota m)
    (hphase : m.agents a = .completing late lateEnd)
    (hno : m.input.toNat + usage.inputTokens.toNat < 2 ^ 64)
    (hn : m.next quota (a, .recordInput usage) = some m') : Gate quota m' := by
  simp only [next, hphase, Option.some.injEq] at hn
  subst hn
  have hadd := toNat_add_of_lt hno
  refine h.move ?_ (Nat.le_refl _) ?_ h.output rfl ?_ h.returned ?_
  · simp only [UsageMeter.goto, hadd]
    omega
  · simp only [UsageMeter.goto, hadd, sum_snoc, h.input]
  · intro hs
    apply full_mono (h.closed hs)
    simp only [recorded, UsageMeter.goto, sum_snoc]
    omega
  · have hsound := h.agents a
    rw [hphase] at hsound
    exact hsound

theorem gate_recordOutput {output : UInt64} {late lateEnd : Bool} (h : Gate quota m)
    (hphase : m.agents a = .recording output late lateEnd)
    (hno : m.output.toNat + output.toNat < 2 ^ 64)
    (hn : m.next quota (a, .recordOutput) = some m') : Gate quota m' := by
  simp only [next, hphase, Option.some.injEq] at hn
  subst hn
  have hadd := toNat_add_of_lt hno
  refine h.move (Nat.le_refl _) ?_ h.input ?_ rfl ?_ h.returned trivial
  · simp only [UsageMeter.goto, hadd]
    omega
  · simp only [UsageMeter.goto, hadd, sum_snoc, h.output]
  · intro hs
    apply full_mono (h.closed hs)
    simp only [recorded, UsageMeter.goto, sum_snoc]
    omega

theorem gate_new : Gate quota new := by
  constructor <;> simp [new, shut, Sound]

theorem gate_next (h : Gate quota m) (hno : noOverflow quota m l) (hn : m.next quota l = some m') :
    Gate quota m' := by
  obtain ⟨a, act⟩ := l
  cases hphase : m.agents a with
  | idle =>
      cases act <;> simp only [next, hphase] at hn <;> cases hn
      exact gate_load h
  | checking input late shut =>
      cases act with
      | check => exact gate_check h hphase (hno input late shut hphase) hn
      | _ =>
          simp only [next, hphase] at hn
          cases hn
  | completing late lateEnd =>
      cases act with
      | recordInput usage => exact gate_recordInput h hphase hno hn
      | fail =>
          simp only [next, hphase] at hn
          cases hn
          exact h.goto trivial
      | _ =>
          simp only [next, hphase] at hn
          cases hn
  | recording output late lateEnd =>
      cases act with
      | recordOutput => exact gate_recordOutput h hphase (hno output late lateEnd hphase) hn
      | _ =>
          simp only [next, hphase] at hn
          cases hn
  | panicked =>
      cases act <;> simp only [next, hphase] at hn <;> cases hn

theorem StrictGate.strict (h : StrictGate quota m) : Strict m where
  shut := h.order
  completing a late lateEnd ha := by simpa [SoundEnd, ha] using h.agents a
  recording a output late lateEnd ha := by simpa [SoundEnd, ha] using h.agents a

theorem SoundEnd.mono {phase : Completing} (h : SoundEnd quota m phase)
    (hout : m.output.toNat ≤ m'.output.toNat)
    (hfull : m'.full quota = true → m.full quota = true ∨ ∀ input late shut, phase ≠ .checking input late shut) :
    SoundEnd quota m' phase := by
  cases phase with
  | checking input late shut =>
      intro hf
      obtain hf | hne := hfull hf
      · exact QuotaConfig.reached_mono (by omega) (h hf)
      · exact absurd rfl (hne input late shut)
  | _ => exact h

theorem StrictGate.move (h : StrictGate quota m) (hout : m.output.toNat ≤ m'.output.toNat)
    (hagents : m'.agents = Function.update m.agents a phase)
    (hfull : m'.full quota = true → m.full quota = true ∨ m.unchecked)
    (horder : m'.returned.Pairwise fun r r' =>
      r.verdict.isTokenQuota = true → r'.verdict.isTokenQuota = true)
    (hphase : SoundEnd quota m' phase) : StrictGate quota m' := by
  refine ⟨horder, ?_⟩
  intro b
  rw [hagents, Function.update_apply]
  split
  · exact hphase
  · apply (h.agents b).mono hout
    intro hf
    exact (hfull hf).imp_right fun hnone => hnone b

theorem StrictGate.goto (h : StrictGate quota m) (hphase : SoundEnd quota m phase) :
    StrictGate quota (m.goto a phase) :=
  h.move (Nat.le_refl _) rfl .inl h.order hphase

theorem strict_check {input : UInt64} {late shut : Bool} (h : StrictGate quota m) (hg : Gate quota m)
    (hphase : m.agents a = .checking input late shut)
    (hno : quota.maxTotalTokens.isSome = true → input.toNat + m.output.toNat < 2 ^ 64)
    (hn : m.next quota (a, .check) = some m') : StrictGate quota m' := by
  simp only [next, hphase, Option.some.injEq] at hn
  subst hn
  obtain ⟨hexact, -⟩ := @UsageSnapshot.checkQuota_exact quota ⟨input, m.output⟩ hno
  have hfresh : SoundEnd quota m (.checking input late shut) := hphase ▸ h.agents a
  generalize (UsageSnapshot.mk input m.output).checkQuota quota = verdict at hexact
  have htokens (hf : m.full quota = true) : verdict.isTokenQuota = true := by
    rw [hexact]
    exact hfresh hf
  refine h.move (Nat.le_refl _) rfl .inl ?_ ?_
  · apply List.pairwise_append.mpr
    refine ⟨h.order, List.pairwise_singleton _ _, ?_⟩
    intro r hr r' hr' hs
    rw [List.mem_singleton.mp hr']
    apply htokens
    apply hg.closed
    exact List.any_eq_true.mpr ⟨r, hr, hs⟩
  · cases verdict with
    | passed =>
        change m.full quota = false
        cases hf : m.full quota with
        | false => rfl
        | true => cases htokens hf
    | _ => trivial

theorem strict_next (h : StrictGate quota m) (hg : Gate quota m) (hno : noOverflow quota m l)
    (hq : undisturbed quota m l) (hn : m.next quota l = some m') : StrictGate quota m' := by
  obtain ⟨a, act⟩ := l
  cases hphase : m.agents a with
  | idle =>
      cases act <;> simp only [next, hphase] at hn <;> cases hn
      apply h.goto
      intro hf
      rwa [hg.full_eq] at hf
  | checking input late shut =>
      cases act with
      | check => exact strict_check h hg hphase (hno input late shut hphase) hn
      | _ =>
          simp only [next, hphase] at hn
          cases hn
  | completing late lateEnd =>
      have hend : SoundEnd quota m (.completing late lateEnd) := hphase ▸ h.agents a
      cases act with
      | recordInput usage =>
          simp only [next, hphase, Option.some.injEq] at hn
          subst hn
          refine h.move (Nat.le_refl _) rfl ?_ h.order hend
          intro hf
          cases hfull : m.full quota with
          | true => exact .inl rfl
          | false =>
              have hsum : sum (m.inputs ++ [usage.inputTokens]) + sum m.outputs =
                  m.recorded + usage.inputTokens.toNat := by
                rw [recorded, sum_snoc]
                omega
              exact .inr (hq hfull (hsum ▸ hf))
      | fail =>
          simp only [next, hphase] at hn
          cases hn
          exact h.goto trivial
      | _ =>
          simp only [next, hphase] at hn
          cases hn
  | recording output late lateEnd =>
      cases act with
      | recordOutput =>
          simp only [next, hphase, Option.some.injEq] at hn
          subst hn
          refine h.move ?_ rfl ?_ h.order trivial
          · simp only [UsageMeter.goto, toNat_add_of_lt (hno output late lateEnd hphase)]
            omega
          · intro hf
            cases hfull : m.full quota with
            | true => exact .inl rfl
            | false =>
                have hsum : sum m.inputs + sum (m.outputs ++ [output]) = m.recorded + output.toNat := by
                  rw [recorded, sum_snoc]
                  omega
                exact .inr (hq output late lateEnd hphase hfull (hsum ▸ hf))
      | _ =>
          simp only [next, hphase] at hn
          cases hn
  | panicked =>
      cases act <;> simp only [next, hphase] at hn <;> cases hn

theorem strict_new : StrictGate quota new := by
  constructor <;> simp [new, SoundEnd]

/-- Without overflow the quota is a one-way gate for checks that begin after it closed,
and, when no check is between its two loads as the total reaches the limit, also for
checks that end after it closed. -/
theorem quota_one_way_gate (quota : QuotaConfig) :
    (∀ m, (machine quota).ReachableUnder (noOverflow quota) m → OneWay quota m) ∧
    ∀ m, (machine quota).ReachableUnder (fun m l => noOverflow quota m l ∧ undisturbed quota m l) m →
      OneWay quota m ∧ Strict m := by
  have hinit {m : UsageMeter} (h : (machine quota).init m) : Gate quota m ∧ StrictGate quota m := by
    rw [show m = new from h]
    exact ⟨gate_new, strict_new⟩
  constructor
  · intro m hr
    apply Gate.oneWay
    apply hr.invariant fun h => (hinit h).1
    intro m m' l hg hno hn
    exact gate_next hg hno hn
  · intro m hr
    obtain ⟨hg, hs⟩ : Gate quota m ∧ StrictGate quota m := by
      apply hr.invariant (I := fun m => Gate quota m ∧ StrictGate quota m) hinit
      intro m m' l ⟨hg, hs⟩ ⟨hno, hq⟩ hn
      exact ⟨gate_next hg hno hn, strict_next hs hg hno hq hn⟩
    exact ⟨hg.oneWay, hs.strict⟩

def tenTokens : QuotaConfig := ⟨some 10, fun _ _ => none, false⟩

def completes (a : Nat) (usage : Usage) : List (Nat × Act) :=
  [(a, .load), (a, .check), (a, .recordInput usage), (a, .recordOutput)]

theorem unchecked_of_only {late lateEnd : Bool} (h₀ : m.agents 0 = .completing late lateEnd)
    (hrest : ∀ b, b ≠ 0 → m.agents b = .idle) : m.unchecked := by
  intro b
  by_cases hb : b = 0
  · rw [hb, h₀]
    simp
  · rw [hrest b hb]
    simp

theorem quota_one_way_gate_ten :
    ∃ m, (machine tenTokens).ReachableUnder
        (fun m l => noOverflow tenTokens m l ∧ undisturbed tenTokens m l) m ∧
      m.shut = true ∧ OneWay tenTokens m ∧ Strict m := by
  have hload (m : UsageMeter) : noOverflow tenTokens m (0, .load) ∧ undisturbed tenTokens m (0, .load) :=
    ⟨trivial, trivial⟩
  have hcheck {m : UsageMeter} {input : UInt64} {late shut : Bool}
      (hm : m.agents 0 = .checking input late shut) (hlt : input.toNat + m.output.toNat < 2 ^ 64) :
      noOverflow tenTokens m (0, .check) ∧ undisturbed tenTokens m (0, .check) := by
    refine ⟨?_, trivial⟩
    intro _ _ _ h _
    rw [hm] at h
    cases h
    exact hlt
  have hinput {m : UsageMeter} (hlt : m.input.toNat + 10 < 2 ^ 64) (hm : m.unchecked) :
      noOverflow tenTokens m (0, .recordInput ⟨10, 0⟩) ∧ undisturbed tenTokens m (0, .recordInput ⟨10, 0⟩) :=
    ⟨hlt, fun _ _ => hm⟩
  have houtput {m : UsageMeter} {output : UInt64} {late lateEnd : Bool}
      (hm : m.agents 0 = .recording output late lateEnd) (hlt : m.output.toNat + output.toNat < 2 ^ 64)
      (hfull : m.full tenTokens = true) :
      noOverflow tenTokens m (0, .recordOutput) ∧ undisturbed tenTokens m (0, .recordOutput) := by
    constructor
    · intro _ _ _ h
      rw [hm] at h
      cases h
      exact hlt
    · intro _ _ _ _ hf
      rw [hfull] at hf
      cases hf
  have h₁ : (machine tenTokens).RunsTo (fun m l => noOverflow tenTokens m l ∧ undisturbed tenTokens m l) new
      (new.goto 0 (.checking 0 false false)) := .tail .refl (hload new) rfl
  have h₂ := Machine.RunsTo.tail h₁ (hcheck rfl (by decide)) rfl
  have h₃ := Machine.RunsTo.tail h₂ (hinput (by decide) (unchecked_of_only rfl (by
    intro b hb
    simp [goto, hb, new]))) rfl
  have h₄ := Machine.RunsTo.tail h₃ (houtput rfl (by decide) (by decide)) rfl
  have h₅ := Machine.RunsTo.tail h₄ (hload _) rfl
  have h₆ := Machine.RunsTo.tail h₅ (hcheck rfl (by decide)) rfl
  have hr := (⟨new, rfl, h₆⟩ : (machine tenTokens).ReachableUnder _ _)
  exact ⟨_, hr, by decide, (quota_one_way_gate tenTokens).2 _ hr⟩

/-- The counters of one completion add up to `2 ^ 64`: the total is 0 again, and the
next check passes. -/
theorem overflow_reopens_gate :
    ∃ m, (machine tenTokens).Reachable m ∧ ¬ OneWay tenTokens m := by
  obtain ⟨m, hr, hp⟩ := Machine.exists_of_run
    (completes 0 ⟨18446744073709551615, 1⟩ ++ [(0, Act.load), (0, .check)])
    (fun m => decide (m.agents 0 = .completing true true)) (s := new) (M := machine tenTokens) rfl
    rfl
  refine ⟨m, hr, ?_⟩
  intro h
  cases h.completing 0 true true (of_decide_eq_true hp)

end UsageMeter

end Silo.Core
