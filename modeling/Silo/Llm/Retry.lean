import Silo.Lib.Slices
import Silo.Llm.Messages

namespace Silo.Llm

open Silo.Core Silo.Harness Silo.Lib

def beginsWith (message start : String) : Bool := start.toList.isPrefixOf message.toList

def mentions (message part : String) : Bool := occursIn part.toList message.toList

/-- Whether an error is worth another attempt. Backends begin the text of an HTTP error with
its status. -/
def isRetryable : LlmError → Bool
  | .transport _ => true
  | .api message => beginsWith message "status 429" || beginsWith message "status 5" || mentions message "overloaded"
  | _ => false

variable {ι α : Type}

/-- What the attempts come to, from what each of them meets, and the delays between them. An
attempt without a result still waits, and so does a call whose next attempt is not there. -/
def retryWithBackoff (maxAttempts : Nat) (attempt : ι → Option (Except LlmError α)) :
    Nat → Nat → List ι → Option (Except LlmError α) × List Nat
  | _, _, [] => (none, [])
  | delay, tries, i :: rest =>
    match attempt i with
    | some (.error e) =>
      if tries + 1 < maxAttempts ∧ isRetryable e = true then
        let later := retryWithBackoff maxAttempts attempt (delay * 2) (tries + 1) rest
        (later.1, delay :: later.2)
      else (some (.error e), [])
    | result => (result, [])

section

variable {maxAttempts delay tries : Nat} {attempt : ι → Option (Except LlmError α)} {inputs : List ι}
  {r : Except LlmError α}

/-- The attempts at `before` failed, each with an error that is worth another one. -/
structure Retried (maxAttempts tries : Nat) (attempt : ι → Option (Except LlmError α)) (before : List ι) : Prop where
  bound : tries + before.length < maxAttempts
  retryable : ∀ i ∈ before, ∃ e, attempt i = some (.error e) ∧ isRetryable e = true

theorem Retried.nil (h : tries < maxAttempts) : Retried maxAttempts tries attempt [] :=
  ⟨h, fun _ hi => by cases hi⟩

theorem Retried.cons {before : List ι} {i : ι} {e : LlmError} (hi : attempt i = some (.error e))
    (he : isRetryable e = true) (h : Retried maxAttempts (tries + 1) attempt before) :
    Retried maxAttempts tries attempt (i :: before) := by
  refine ⟨?_, ?_⟩
  · have hbound := h.bound
    rw [List.length_cons]
    omega
  · intro j hj
    rcases List.mem_cons.mp hj with rfl | hj
    · exact ⟨e, hi, he⟩
    · exact h.retryable j hj

theorem retryWithBackoff_again {i : ι} {e : LlmError} (hi : attempt i = some (.error e))
    (htries : tries + 1 < maxAttempts) (he : isRetryable e = true) :
    retryWithBackoff maxAttempts attempt delay tries (i :: inputs) =
      ((retryWithBackoff maxAttempts attempt (delay * 2) (tries + 1) inputs).1,
        delay :: (retryWithBackoff maxAttempts attempt (delay * 2) (tries + 1) inputs).2) := by
  rw [retryWithBackoff, hi]
  exact if_pos ⟨htries, he⟩

theorem retryWithBackoff_stops {i : ι}
    (h : ∀ e, attempt i = some (.error e) → isRetryable e = true → maxAttempts ≤ tries + 1) :
    retryWithBackoff maxAttempts attempt delay tries (i :: inputs) = (attempt i, []) := by
  rw [retryWithBackoff]
  split
  · rename_i e hi
    rw [hi]
    refine if_neg fun hagain => ?_
    have hlast := h e hi hagain.2
    omega
  · rfl

theorem stops_or_again (maxAttempts tries : Nat) (attempt : ι → Option (Except LlmError α)) (i : ι) :
    (∀ e, attempt i = some (.error e) → isRetryable e = true → maxAttempts ≤ tries + 1) ∨
      ∃ e, attempt i = some (.error e) ∧ tries + 1 < maxAttempts ∧ isRetryable e = true := by
  by_cases h : ∃ e, attempt i = some (.error e) ∧ tries + 1 < maxAttempts ∧ isRetryable e = true
  · exact .inr h
  · refine .inl fun e hi he => ?_
    by_contra hmore
    exact h ⟨e, hi, by omega, he⟩

/-- A retried call ends with the first result that is not worth another attempt, or with that of the last
attempt there is. -/
theorem retryWithBackoff_ends (hbound : tries < maxAttempts)
    (h : (retryWithBackoff maxAttempts attempt delay tries inputs).1 = some r) :
    ∃ before last after, inputs = before ++ last :: after ∧ Retried maxAttempts tries attempt before ∧
      attempt last = some r ∧ ∀ e, r = .error e → isRetryable e = true → tries + before.length + 1 = maxAttempts := by
  induction inputs generalizing delay tries with
  | nil => cases h
  | cons i rest ih =>
      rcases stops_or_again maxAttempts tries attempt i with hstops | ⟨e, hi, htries, he⟩
      · rw [retryWithBackoff_stops hstops] at h
        refine ⟨[], i, rest, rfl, .nil hbound, h, fun e hr he => ?_⟩
        have hlast := hstops e (by rw [← hr]; exact h) he
        simp only [List.length_nil]
        omega
      · rw [retryWithBackoff_again hi htries he] at h
        obtain ⟨before, last, after, hinputs, hretried, hlast, hfinal⟩ := ih htries h
        refine ⟨i :: before, last, after, by rw [hinputs, List.cons_append], hretried.cons hi he, hlast, ?_⟩
        intro e' hr he'
        have hlength := hfinal e' hr he'
        rw [List.length_cons]
        omega

end

structure StatusCode where
  toNat : Nat
  valid : 100 ≤ toNat ∧ toNat < 1000

namespace StatusCode

def isSuccess (status : StatusCode) : Bool := status.toNat / 100 = 2

def isTransient (status : StatusCode) : Bool := status.toNat = 429 || status.toNat / 100 = 5

theorem toString_toNat (status : StatusCode) : (toString status.toNat).toList =
    [(status.toNat / 100).digitChar, (status.toNat / 10 % 10).digitChar, (status.toNat % 10).digitChar] := by
  have hlow := status.valid.1
  have hhigh := status.valid.2
  have hhundreds : Nat.toDigits 10 (status.toNat / 10 / 10) = [(status.toNat / 10 / 10).digitChar] :=
    Nat.toDigits_of_lt_base (by omega)
  rw [Nat.toString_eq_repr, Nat.toList_repr, Nat.toDigits_of_base_le (by decide) (by omega),
    Nat.toDigits_of_base_le (by decide) (by omega), hhundreds, Nat.div_div_eq_div_mul]
  rfl

end StatusCode

/-- How far an HTTP request comes: it is not sent, it waits, its response breaks off, or it has a body. -/
inductive HttpReply
  | unsent (error : String)
  | awaited
  | broken (status : StatusCode) (error : String)
  | answered (status : StatusCode) (body : String)

/-- The text up to the last character boundary that is not past `stop`. -/
def cutDown (text : List Char) : Nat → List Char
  | 0 => []
  | stop + 1 => (sliceTo text (stop + 1)).getD (cutDown text stop)

def snippet (text : List Char) : List Char :=
  if size (trim text) ≤ 600 then trim text else cutDown (trim text) 600 ++ " [truncated]".toList

def Anthropic.excerpt (body : List Char) : List Char := (trim body).take 500

def statusText (shorten : List Char → List Char) (status : StatusCode) (body : String) : String :=
  "status " ++ (toString status.toNat ++ (": " ++ String.ofList (shorten body.toList)))

def sendOnce (shorten : List Char → List Char) : HttpReply → Option (Except LlmError String)
  | .unsent error => some (.error (.transport error))
  | .awaited => none
  | .broken _ error => some (.error (.transport error))
  | .answered status body =>
    if status.isSuccess then some (.ok body)
    else some (.error (.api (statusText shorten status body)))

/-- An attempt whose body is read within it. -/
def sendAndRead (shorten : List Char → List Char) (read : String → Except LlmError α) (reply : HttpReply) :
    Option (Except LlmError α) := (sendOnce shorten reply).map fun body => body >>= read

/-- What a call of `complete` returns, none while it waits, and what it adds to the meter. -/
structure Completed where
  result : Option (Except LlmError CompletionResponse)
  recorded : Option TokenDelta

/-- The quota is checked first; `reply` is what the attempts come to. -/
def completing (checked : Except LlmError Unit) (reply : Option (Except LlmError α))
    (parse : α → Except LlmError CompletionResponse) : Completed :=
  match checked with
  | .error e => ⟨some (.error e), none⟩
  | .ok () =>
    let result := reply.map fun r => r >>= parse
    ⟨result, (result.bind Except.toOption).map CompletionResponse.usage⟩

def retryAttempts : Nat := 3

def retryBaseDelay : Nat := 250

def attempting (attempt : ι → Option (Except LlmError α)) (inputs : List ι) : Option (Except LlmError α) :=
  (retryWithBackoff retryAttempts attempt retryBaseDelay 0 inputs).1

section

variable (serde : SerdeJson) (checked : Except LlmError Unit) (replies : List HttpReply)

def readBody (body : String) : Except LlmError Json :=
  match serde.fromStr body with
  | .ok value => .ok value
  | .error e => malformed ("response body is not valid JSON: " ++ e)

def Anthropic.complete : Completed :=
  completing checked (attempting (sendAndRead excerpt (parseResponse serde)) replies) .ok

def OpenaiResponses.complete : Completed :=
  completing checked (attempting (sendAndRead snippet (readBody serde)) replies) (parseResponse serde)

def Local.complete : Completed :=
  completing checked (attempting (sendAndRead snippet (readBody serde)) replies) (parseResponse serde)

end

def HttpReply.Transient (shorten : List Char → List Char) : HttpReply → Prop
  | .unsent _ => True
  | .awaited => False
  | .broken _ _ => True
  | .answered status body => status.isSuccess = false ∧
      (status.isTransient = true ∨ mentions (statusText shorten status body) "overloaded" = true)

theorem digitChar_eq {d : Nat} (h : d < 10) :
    (d.digitChar = '4' ↔ d = 4) ∧ (d.digitChar = '5' ↔ d = 5) ∧ (d.digitChar = '2' ↔ d = 2) ∧
      (d.digitChar = '9' ↔ d = 9) := by
  revert d
  decide

theorem beginsWith_statusText (shorten : List Char → List Char) (status : StatusCode) (body code : String) :
    beginsWith (statusText shorten status body) ("status " ++ code) = true ↔
      ∃ rest, code.toList ++ rest = (status.toNat / 100).digitChar :: (status.toNat / 10 % 10).digitChar ::
        (status.toNat % 10).digitChar :: (": " ++ String.ofList (shorten body.toList)).toList := by
  rw [beginsWith, statusText, String.toList_append, String.toList_append, String.toList_append,
    status.toString_toNat, List.isPrefixOf_iff_prefix, List.prefix_append_right_inj]
  exact Iff.rfl

theorem begins_limit (shorten : List Char → List Char) (status : StatusCode) (body : String) :
    beginsWith (statusText shorten status body) "status 429" = true ↔ status.toNat = 429 := by
  have hhigh := status.valid.2
  have hhundreds := digitChar_eq (d := status.toNat / 100) (by omega)
  have htens := digitChar_eq (d := status.toNat / 10 % 10) (by omega)
  have hones := digitChar_eq (d := status.toNat % 10) (by omega)
  have hcode : ("429" : String).toList = ['4', '2', '9'] := by decide
  refine (beginsWith_statusText shorten status body "429").trans ?_
  rw [hcode]
  constructor
  · rintro ⟨rest, h⟩
    obtain ⟨h4, h⟩ := List.cons.inj h
    obtain ⟨h2, h⟩ := List.cons.inj h
    have h9 := (List.cons.inj h).1
    have hhundred := hhundreds.1.mp h4.symm
    have hten := htens.2.2.1.mp h2.symm
    have hone := hones.2.2.2.mp h9.symm
    omega
  · intro h
    refine ⟨(": " ++ String.ofList (shorten body.toList)).toList, ?_⟩
    rw [hhundreds.1.mpr (by omega), htens.2.2.1.mpr (by omega), hones.2.2.2.mpr (by omega)]
    rfl

theorem begins_failed (shorten : List Char → List Char) (status : StatusCode) (body : String) :
    beginsWith (statusText shorten status body) "status 5" = true ↔ status.toNat / 100 = 5 := by
  have hhigh := status.valid.2
  have hhundreds := digitChar_eq (d := status.toNat / 100) (by omega)
  have hcode : ("5" : String).toList = ['5'] := by decide
  refine (beginsWith_statusText shorten status body "5").trans ?_
  rw [hcode]
  constructor
  · rintro ⟨rest, h⟩
    exact hhundreds.2.1.mp (List.cons.inj h).1.symm
  · intro h
    rw [hhundreds.2.1.mpr h]
    exact ⟨_, rfl⟩

theorem isRetryable_statusText (shorten : List Char → List Char) (status : StatusCode) (body : String) :
    isRetryable (.api (statusText shorten status body)) = true ↔
      status.isTransient = true ∨ mentions (statusText shorten status body) "overloaded" = true := by
  rw [isRetryable, Bool.or_eq_true, Bool.or_eq_true, begins_limit, begins_failed, StatusCode.isTransient,
    Bool.or_eq_true, decide_eq_true_iff, decide_eq_true_iff]

variable {shorten : List Char → List Char} {read : String → Except LlmError α} {replies : List HttpReply}

theorem sendAndRead_success {status : StatusCode} (h : status.isSuccess = true) (body : String) :
    sendAndRead shorten read (.answered status body) = some (read body) := by
  rw [sendAndRead, sendOnce, if_pos h]
  rfl

theorem sendAndRead_refused {status : StatusCode} (h : status.isSuccess = false) (body : String) :
    sendAndRead shorten read (.answered status body) = some (.error (.api (statusText shorten status body))) := by
  rw [sendAndRead, sendOnce, if_neg (by rw [h]; decide)]
  rfl

theorem transient_iff (hread : ∀ body e, read body = .error e → isRetryable e = false) (reply : HttpReply) :
    (∃ e, sendAndRead shorten read reply = some (.error e) ∧ isRetryable e = true) ↔ reply.Transient shorten := by
  cases reply with
  | unsent error => exact ⟨fun _ => trivial, fun _ => ⟨.transport error, rfl, rfl⟩⟩
  | awaited =>
      constructor
      · rintro ⟨e, h, -⟩
        cases h
      · exact False.elim
  | broken status error => exact ⟨fun _ => trivial, fun _ => ⟨.transport error, rfl, rfl⟩⟩
  | answered status body =>
      cases hsuccess : status.isSuccess with
      | true =>
          rw [sendAndRead_success hsuccess]
          constructor
          · rintro ⟨e, h, he⟩
            have hnever := hread body e (Option.some.inj h)
            rw [he] at hnever
            cases hnever
          · rintro ⟨h, -⟩
            rw [hsuccess] at h
            cases h
      | false =>
          rw [sendAndRead_refused hsuccess]
          constructor
          · rintro ⟨e, h, he⟩
            cases h
            exact ⟨hsuccess, (isRetryable_statusText ..).mp he⟩
          · rintro ⟨-, h⟩
            exact ⟨_, rfl, (isRetryable_statusText ..).mpr h⟩

theorem sendAndRead_ok {reply : HttpReply} {a : α} (h : sendAndRead shorten read reply = some (.ok a)) :
    ∃ status body, reply = .answered status body ∧ status.isSuccess = true ∧ read body = .ok a := by
  cases reply with
  | unsent error => cases h
  | awaited => cases h
  | broken status error => cases h
  | answered status body =>
      cases hsuccess : status.isSuccess with
      | true =>
          rw [sendAndRead_success hsuccess] at h
          exact ⟨status, body, rfl, hsuccess, Option.some.inj h⟩
      | false =>
          rw [sendAndRead_refused hsuccess] at h
          cases h

theorem bind_ok_right (x : Except LlmError α) : (x >>= .ok) = x := bind_pure x

theorem sendAndRead_bind {β : Type} (parse : α → Except LlmError β) (reply : HttpReply) :
    sendAndRead shorten (fun body => read body >>= parse) reply =
      (sendAndRead shorten read reply).map fun r => r >>= parse := by
  rw [sendAndRead, sendAndRead, Option.map_map]
  refine congrArg (Option.map · (sendOnce shorten reply)) (funext fun body => ?_)
  cases body with
  | error e => rfl
  | ok body => rfl

/-- The replies `before` each led to another attempt, and `last` is the reply to the last one. -/
structure Attempted (shorten : List Char → List Char) (replies before : List HttpReply) (last : HttpReply) : Prop where
  order : ∃ after, replies = before ++ last :: after
  bound : before.length < retryAttempts
  transient : ∀ reply ∈ before, reply.Transient shorten

/-- A response comes from the body of a successful reply, an error from the quota or from the last attempt,
which would be repeated if it were not the third, and only a response counts towards the quota. -/
structure HttpCompletes (shorten : List Char → List Char) (parse : String → Except LlmError CompletionResponse)
    (checked : Except LlmError Unit) (replies : List HttpReply) (completed : Completed) : Prop where
  recorded : completed.recorded = (completed.result.bind Except.toOption).map CompletionResponse.usage
  answered : ∀ response, completed.result = some (.ok response) → checked = .ok () ∧ ∃ before status body,
    Attempted shorten replies before (.answered status body) ∧ status.isSuccess = true ∧ parse body = .ok response
  failed : ∀ e, completed.result = some (.error e) → checked = .error e ∨ ∃ before last,
    Attempted shorten replies before last ∧ sendAndRead shorten parse last = some (.error e) ∧
      (last.Transient shorten → before.length + 1 = retryAttempts)

theorem attempting_ends (hread : ∀ body e, read body = .error e → isRetryable e = false) {r : Except LlmError α}
    (h : attempting (sendAndRead shorten read) replies = some r) :
    ∃ before last, Attempted shorten replies before last ∧ sendAndRead shorten read last = some r ∧
      (last.Transient shorten → before.length + 1 = retryAttempts) := by
  obtain ⟨before, last, after, horder, hretried, hlast, hfinal⟩ := retryWithBackoff_ends (by decide) h
  refine ⟨before, last, ⟨⟨after, horder⟩, ?_, fun reply hreply => ?_⟩, hlast, fun htransient => ?_⟩
  · have hbound := hretried.bound
    omega
  · exact (transient_iff hread reply).mp (hretried.retryable reply hreply)
  · obtain ⟨e, he, hretryable⟩ := (transient_iff hread last).mpr htransient
    rw [hlast] at he
    have hlength := hfinal e (Option.some.inj he) hretryable
    omega

theorem completing_completes (hread : ∀ body e, read body = .error e → isRetryable e = false)
    (parse : α → Except LlmError CompletionResponse) (checked : Except LlmError Unit) (replies : List HttpReply) :
    HttpCompletes shorten (fun body => read body >>= parse) checked replies
      (completing checked (attempting (sendAndRead shorten read) replies) parse) := by
  cases checked with
  | error d =>
      refine ⟨rfl, fun response h => (by cases h), fun e h => .inl ?_⟩
      cases h
      rfl
  | ok _ =>
      refine ⟨rfl, fun response h => ⟨rfl, ?_⟩, fun e h => .inr ?_⟩
      · obtain ⟨r, hr, hbind⟩ := Option.map_eq_some_iff.mp h
        obtain ⟨a, rfl, hparse⟩ := bind_eq_ok.mp hbind
        obtain ⟨before, last, hattempted, hlast, -⟩ := attempting_ends hread hr
        obtain ⟨status, body, rfl, hsuccess, hbody⟩ := sendAndRead_ok hlast
        refine ⟨before, status, body, hattempted, hsuccess, ?_⟩
        rw [hbody]
        exact hparse
      · obtain ⟨r, hr, hbind⟩ := Option.map_eq_some_iff.mp h
        obtain ⟨before, last, hattempted, hlast, hfinal⟩ := attempting_ends hread hr
        refine ⟨before, last, hattempted, ?_, hfinal⟩
        rw [sendAndRead_bind, hlast]
        exact congrArg some hbind

section

variable (serde : SerdeJson)

theorem parse_anthropic : Backend.parse serde .anthropic = fun body => Anthropic.parseResponse serde body >>= .ok := by
  funext body
  rw [Backend.parse, bind_ok_right]

theorem parseValue_body (parse : Json → Except LlmError CompletionResponse) :
    Backend.parseValue serde "response body" parse = fun body => readBody serde body >>= parse := by
  funext body
  rw [Backend.parseValue, readBody]
  cases serde.fromStr body with
  | error e => rfl
  | ok value => rfl

theorem readBody_error {body : String} {e : LlmError} (h : readBody serde body = .error e) :
    isRetryable e = false := by
  rw [readBody] at h
  split at h
  · cases h
  · cases h
    rfl

theorem parseResponse_error {body : String} {e : LlmError} (h : Anthropic.parseResponse serde body = .error e) :
    isRetryable e = false := by
  rw [Anthropic.parseResponse] at h
  split at h
  · cases h
  · cases h
    rfl

/-- The three backends over HTTP, each with its own readers. -/
theorem http_completes (checked : Except LlmError Unit) (replies : List HttpReply) :
    HttpCompletes Anthropic.excerpt (Backend.parse serde .anthropic) checked replies
      (Anthropic.complete serde checked replies) ∧
    HttpCompletes snippet (Backend.parse serde .openaiResponses) checked replies
      (OpenaiResponses.complete serde checked replies) ∧
    HttpCompletes snippet (Backend.parse serde .chatCompletions) checked replies
      (Local.complete serde checked replies) := by
  refine ⟨?_, ?_, ?_⟩
  · rw [parse_anthropic]
    exact completing_completes (fun _ _ h => parseResponse_error serde h) _ checked replies
  · rw [Backend.parse, parseValue_body]
    exact completing_completes (fun _ _ h => readBody_error serde h) _ checked replies
  · rw [Backend.parse, parseValue_body]
    exact completing_completes (fun _ _ h => readBody_error serde h) _ checked replies

end

/-- The connection breaks, and then the server refuses the request. -/
def refusedReplies : List HttpReply := [.unsent "connection reset", .answered ⟨400, by decide⟩ "bad request"]

def noReader : SerdeJson := ⟨fun _ => .error "expected value", id⟩

theorem http_completes_refused : ∃ before last, Attempted Anthropic.excerpt refusedReplies before last ∧
    sendAndRead Anthropic.excerpt (Backend.parse noReader .anthropic) last =
      some (.error (.api "status 400: bad request")) := by
  have hresult : (Anthropic.complete noReader (.ok ()) refusedReplies).result =
      some (.error (.api "status 400: bad request")) := rfl
  rcases (http_completes noReader (.ok ()) refusedReplies).1.failed _ hresult with h | ⟨before, last, hattempted, hlast, -⟩
  · cases h
  · exact ⟨before, last, hattempted, hlast⟩

end Silo.Llm
