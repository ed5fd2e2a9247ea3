import Mathlib.Data.List.DropRight
import MeshRouter.Lib.Runs
import MeshRouter.Messages.Serializer

/-!
# Sending over HTTP

`HttpTransport` of `adapters/http.py`, with any number of sends in progress: those of `send_many`
run concurrently, and so may other callers, and all count in the same two counters. A step is what a
send does between two waits, so that a run of steps is any interleaving. What the receiver answers,
or that the request fails, is a choice of the run.

`Explained` says of a send why it is where it is: each of its posts but the last was a transient
failure, and the last one, the retries or the clock decided its end. The counters are sums over the
sends, and `transport_accounts` says over which of them.
-/

namespace MeshRouter.Adapters

open Lib Messages

/-- The checks of the constructor that fail, with the values that they name. -/
inductive HttpTransportConfigError where
  /-- "max_retries must be >= 0, got …." -/
  | maxRetries (got : ℤ)
  /-- "timeout_seconds must be positive, got …." -/
  | timeoutSeconds (got : ℚ)
deriving DecidableEq

/-- Send `MessageEnvelope` objects via HTTP POST with retry/backoff: what the constructor sets, and
nothing changes. -/
structure HttpTransport where
  baseUrl : String
  maxRetries : ℕ
  timeoutSeconds : ℚ
  backoffBase : ℚ
  extraHeaders : Dict String String

/-- A POST request. -/
structure Request where
  url : String
  content : List UInt8
  headers : Dict String String

/-- How `response.json()` ends. -/
inductive JsonBody where
  | parsed (body : Value)
  | valueError
  | keyError
  | otherError

/-- A response, after the redirects that the client follows. What it says of its success is the
client's, which documents it by the status. -/
structure Response where
  statusCode : ℕ
  json : JsonBody
  text : String
  isSuccess : Bool
  isSuccess_iff : isSuccess = true ↔ 200 ≤ statusCode ∧ statusCode ≤ 299

/-- How a request ends: in a response, or in an exception. -/
inductive PostOutcome where
  | responded (response : Response)
  | raised (message : String)

/-- How `send` ends. -/
inductive SendEnd where
  | returned (body : Value)
  /-- `HttpTransportError`: "Permanent HTTP … error for message …." -/
  | permanent (statusCode : ℕ)
  /-- `HttpTransportError`: "Failed to deliver message … after … attempt(s)." -/
  | exhausted (attempts : ℕ)
  /-- The `OverflowError` of the backoff. -/
  | overflow
  | cancelled

/-- The receiver's answer decided the end. -/
def SendEnd.Decided : SendEnd → Prop
  | .returned _ | .permanent _ => True
  | .exhausted _ | .overflow | .cancelled => False

/-- A send in progress, or ended: the request that it posts, the index of its attempt, and what it
has met and slept so far, the newest first. -/
structure Sending where
  request : Request
  attempt : ℕ := 0
  posts : List PostOutcome := []
  slept : List ℚ := []
  ended : Option SendEnd := none

namespace HttpTransport

/-- The constructor. -/
def init (baseUrl : String) (maxRetries : ℤ) (timeoutSeconds backoffBaseSeconds : ℚ)
    (headers : Option (Dict String String)) : Except HttpTransportConfigError HttpTransport :=
  if maxRetries < 0 then
    .error (.maxRetries maxRetries)
  else if timeoutSeconds ≤ 0 then
    .error (.timeoutSeconds timeoutSeconds)
  else
    .ok {
      baseUrl := String.ofList (baseUrl.toList.rdropWhile (· = '/'))
      maxRetries := maxRetries.toNat
      timeoutSeconds := timeoutSeconds
      backoffBase := backoffBaseSeconds
      extraHeaders := headers.getD .empty }

variable (t : HttpTransport)

/-- What `send` posts, in every attempt. -/
def request (json : JsonLibrary) (envelope : MessageEnvelope) : Request where
  url := t.baseUrl ++ "/messages"
  content := toJson json envelope
  headers := (Dict.ofList [("Content-Type", "application/json"), ("X-Trace-Id", envelope.traceId),
    ("X-Message-Id", envelope.messageId)]).update t.extraHeaders

/-- The backoff before an attempt after the first; `none` is the `OverflowError` of a power that
does not fit a float. -/
def backoff (attempt : ℕ) : Option ℚ :=
  if 2 ^ (attempt - 1) < floatLimit then some (min (t.backoffBase * 2 ^ (attempt - 1)) 30) else none

end HttpTransport

/-- What an attempt makes of its outcome: what it adds to the counters, and how it ends the send,
if it does. -/
structure Handled where
  sent : ℕ := 0
  failed : ℕ := 0
  ended : Option SendEnd := none

/-- The body of the loop of `send`, from the outcome of the request on. -/
def handle (outcome : PostOutcome) : Handled :=
  match outcome with
  | .raised _ => {}
  | .responded response =>
    if response.isSuccess then
      match response.json with
      | .parsed body => { sent := 1, ended := some (.returned body) }
      | .valueError | .keyError =>
        { sent := 1
          ended := some (.returned (.dict [("status_code", .int response.statusCode),
            ("raw_body", .str (String.ofList (response.text.toList.take 500)))])) }
      -- It is caught like the failure of a request, after the message has been counted.
      | .otherError => { sent := 1 }
    else if 400 ≤ response.statusCode ∧ response.statusCode < 500 then
      { failed := 1, ended := some (.permanent response.statusCode) }
    else {}

/-- The counters of a transport, and what was sent with it. -/
structure HttpSystem where
  totalSent : ℕ := 0
  totalFailed : ℕ := 0
  sendings : Dict ℕ Sending := .empty

/-- The rest of a turn of the loop that did not end the send, up to the next request. -/
def HttpTransport.goOn (t : HttpTransport) (s : Sending) : ℕ × Sending :=
  if t.maxRetries ≤ s.attempt then
    (1, { s with ended := some (.exhausted (t.maxRetries + 1)) })
  else
    match t.backoff (s.attempt + 1) with
    | none => (0, { s with ended := some .overflow })
    | some delay => (0, { s with attempt := s.attempt + 1, slept := delay :: s.slept })

/-- A turn of the loop of `send`, from the request on, with what it adds to the counters. -/
def HttpTransport.turn (t : HttpTransport) (s : Sending) (outcome : PostOutcome) :
    ℕ × ℕ × Sending :=
  let handled := handle outcome
  let s := { s with posts := outcome :: s.posts }
  match handled.ended with
  | some result => (handled.sent, handled.failed, { s with ended := some result })
  | none =>
    let (failed, s) := t.goOn s
    (handled.sent, failed, s)

/-- What can happen next. -/
inductive HttpAction where
  | send (id : ℕ) (envelope : MessageEnvelope)
  | respond (id : ℕ) (outcome : PostOutcome)
  | cancel (id : ℕ)

/-- The sends that have not ended go on in any order. -/
def httpStep (json : JsonLibrary) (t : HttpTransport) (s : HttpSystem) :
    HttpAction → Option HttpSystem
  | .send id envelope =>
    if id ∈ s.sendings.keys then none
    else some { s with sendings := s.sendings.set id { request := t.request json envelope } }
  | .respond id outcome =>
    (s.sendings.get? id).bind fun sending =>
      if sending.ended.isSome then none
      else
        let (sent, failed, sending) := t.turn sending outcome
        some { totalSent := s.totalSent + sent, totalFailed := s.totalFailed + failed,
               sendings := s.sendings.set id sending }
  | .cancel id =>
    (s.sendings.get? id).bind fun sending =>
      if sending.ended.isSome then none
      else some { s with sendings := s.sendings.set id { sending with ended := some .cancelled } }

/-! ## What a send has met -/

/-- One for a response that accepts the message, by its status, and whose body fails in a way that
`send` does not expect there. -/
def PostOutcome.misread : PostOutcome → ℕ
  | .raised _ => 0
  | .responded response =>
    match response.json with
    | .otherError => if 200 ≤ response.statusCode ∧ response.statusCode ≤ 299 then 1 else 0
    | .parsed _ | .valueError | .keyError => 0

namespace Sending

/-- How often the receiver accepted the message. -/
def accepted (s : Sending) : ℕ := (s.posts.map fun outcome => (handle outcome).sent).sum

/-- How often it did so in a response that was taken for a failure. -/
def misread (s : Sending) : ℕ := (s.posts.map PostOutcome.misread).sum

/-- One if the send has returned. -/
def returned (s : Sending) : ℕ :=
  match s.ended with
  | some (.returned _) => 1
  | _ => 0

/-- One if the send has raised an `HttpTransportError`. -/
def failed (s : Sending) : ℕ :=
  match s.ended with
  | some (.permanent _) => 1
  | some (.exhausted _) => 1
  | _ => 0

/-- Every outcome so far asked for another attempt. -/
def Transient (posts : List PostOutcome) : Prop := ∀ outcome ∈ posts, (handle outcome).ended = none

/-- Why a send is where it is. -/
structure Explained (t : HttpTransport) (s : Sending) : Prop where
  within : s.posts.length ≤ t.maxRetries + 1
  delays : ∀ delay ∈ s.slept, delay ≤ 30
  waiting : s.ended = none →
    s.attempt = s.posts.length ∧ s.posts.length ≤ t.maxRetries ∧ Transient s.posts
  /-- The post that is cancelled, if the send was not waiting to post, is within its retries. -/
  cancelled : s.ended = some .cancelled → Transient s.posts ∧ s.posts.length + 1 ≤ t.maxRetries + 1
  overflow : s.ended = some .overflow → Transient s.posts ∧ t.backoff s.posts.length = none
  exhausted : ∀ attempts, s.ended = some (.exhausted attempts) →
    Transient s.posts ∧ attempts = s.posts.length ∧ s.posts.length = t.maxRetries + 1
  decided : ∀ result, s.ended = some result → result.Decided →
    ∃ last older, s.posts = last :: older ∧ (handle last).ended = some result ∧ Transient older

end Sending

/-! ## One turn -/

/-- What each end of an attempt adds to the counters. -/
theorem handle_cases (outcome : PostOutcome) :
    ((handle outcome).ended = none ∧ (handle outcome).failed = 0) ∨
    (∃ body, (handle outcome).ended = some (.returned body) ∧ (handle outcome).sent = 1 ∧
      (handle outcome).failed = 0) ∨
    ∃ statusCode, (handle outcome).ended = some (.permanent statusCode) ∧
      (handle outcome).sent = 0 ∧ (handle outcome).failed = 1 := by
  unfold handle
  cases outcome with
  | raised message => exact Or.inl ⟨rfl, rfl⟩
  | responded response =>
    dsimp only
    split_ifs with hsuccess hpermanent
    · cases response.json with
      | parsed body => exact Or.inr (Or.inl ⟨_, rfl, rfl, rfl⟩)
      | valueError => exact Or.inr (Or.inl ⟨_, rfl, rfl, rfl⟩)
      | keyError => exact Or.inr (Or.inl ⟨_, rfl, rfl, rfl⟩)
      | otherError => exact Or.inl ⟨rfl, rfl⟩
    · exact Or.inr (Or.inr ⟨_, rfl, rfl, rfl⟩)
    · exact Or.inl ⟨rfl, rfl⟩

namespace Sending

variable {t : HttpTransport} {s : Sending} {outcome : PostOutcome}

/-- A backoff is at most half a minute. -/
theorem backoff_le {attempt : ℕ} {delay : ℚ} (h : t.backoff attempt = some delay) : delay ≤ 30 := by
  unfold HttpTransport.backoff at h
  split_ifs at h
  obtain rfl := Option.some.inj h
  exact min_le_right _ _

/-- Before the first request. -/
theorem explained_start (request : Request) : Explained t { request := request } where
  within := Nat.zero_le _
  delays := fun delay hdelay => by cases hdelay
  waiting := fun _ => ⟨rfl, Nat.zero_le _, fun outcome houtcome => by cases houtcome⟩
  cancelled := fun hended => by cases hended
  overflow := fun hended => by cases hended
  exhausted := fun attempts hended => by cases hended
  decided := fun result hended => by cases hended

/-- A send is cancelled while it waits. -/
theorem Explained.cancel (h : Explained t s) (hended : s.ended = none) :
    Explained t { s with ended := some .cancelled } where
  within := h.within
  delays := h.delays
  waiting := fun hnone => by cases hnone
  cancelled := fun _ => ⟨(h.waiting hended).2.2, Nat.succ_le_succ (h.waiting hended).2.1⟩
  overflow := fun hover => by cases hover
  exhausted := fun attempts hexhausted => by cases hexhausted
  decided := fun result hresult hdecided => by
    obtain rfl := Option.some.inj hresult
    exact hdecided.elim

/-- One more outcome. -/
theorem accepted_cons (s : Sending) (ended : Option SendEnd) :
    accepted { s with posts := outcome :: s.posts, ended := ended } =
      (handle outcome).sent + s.accepted := by
  unfold accepted
  rw [List.map_cons, List.sum_cons]

/-- An attempt that decides the end of the send. -/
theorem Explained.decide (h : Explained t s) (hended : s.ended = none) {result : SendEnd}
    (hresult : (handle outcome).ended = some result)
    (hdecided : result.Decided) :
    Explained t { s with posts := outcome :: s.posts, ended := some result } where
  within := Nat.succ_le_succ (h.waiting hended).2.1
  delays := h.delays
  waiting := fun hnone => by cases hnone
  cancelled := fun hcancelled => by
    obtain rfl := Option.some.inj hcancelled
    exact hdecided.elim
  overflow := fun hover => by
    obtain rfl := Option.some.inj hover
    exact hdecided.elim
  exhausted := fun attempts hexhausted => by
    obtain rfl := Option.some.inj hexhausted
    exact hdecided.elim
  decided := fun result' hresult' _ => by
    obtain rfl := Option.some.inj hresult'
    exact ⟨outcome, s.posts, rfl, hresult, (h.waiting hended).2.2⟩

/-- An attempt that fails in a way that may pass. -/
theorem Explained.goOn (h : Explained t s) (hended : s.ended = none)
    (hnone : (handle outcome).ended = none) :
    Explained t (t.goOn { s with posts := outcome :: s.posts }).2 ∧
      (t.goOn { s with posts := outcome :: s.posts }).2.failed =
        (t.goOn { s with posts := outcome :: s.posts }).1 ∧
      (t.goOn { s with posts := outcome :: s.posts }).2.posts = outcome :: s.posts := by
  obtain ⟨hattempt, hle, htransient⟩ := h.waiting hended
  have htransient' : Transient (outcome :: s.posts) := List.forall_mem_cons.mpr ⟨hnone, htransient⟩
  have hwaits : ∀ result, s.ended ≠ some result := fun result hresult => by
    rw [hended] at hresult
    cases hresult
  unfold HttpTransport.goOn
  dsimp only
  split_ifs with hlast
  · have hlength : (outcome :: s.posts).length = t.maxRetries + 1 := by
      rw [List.length_cons]
      omega
    refine ⟨?_, rfl, rfl⟩
    exact {
      within := hlength.le
      delays := h.delays
      waiting := fun hnot => by cases hnot
      cancelled := fun hnot => by cases hnot
      overflow := fun hnot => by cases hnot
      exhausted := fun attempts hexhausted => by
        obtain rfl := SendEnd.exhausted.inj (Option.some.inj hexhausted)
        exact ⟨htransient', hlength.symm, hlength⟩
      decided := fun result hresult hdecided => by
        obtain rfl := Option.some.inj hresult
        exact hdecided.elim }
  · have hlength : (outcome :: s.posts).length ≤ t.maxRetries := by
      rw [List.length_cons]
      omega
    cases hbackoff : t.backoff (s.attempt + 1) with
    | none =>
      refine ⟨?_, rfl, rfl⟩
      exact {
        within := hlength.trans (Nat.le_succ _)
        delays := h.delays
        waiting := fun hnot => by cases hnot
        cancelled := fun hnot => by cases hnot
        overflow := fun _ => by
          rw [hattempt] at hbackoff
          exact ⟨htransient', hbackoff⟩
        exhausted := fun attempts hnot => by cases hnot
        decided := fun result hresult hdecided => by
          obtain rfl := Option.some.inj hresult
          exact hdecided.elim }
    | some delay =>
      refine ⟨?_, ?_, rfl⟩
      · exact {
          within := hlength.trans (Nat.le_succ _)
          delays := List.forall_mem_cons.mpr ⟨backoff_le hbackoff, h.delays⟩
          waiting := fun _ => ⟨congrArg (· + 1) hattempt, hlength, htransient'⟩
          cancelled := fun hnot => absurd hnot (hwaits _)
          overflow := fun hnot => absurd hnot (hwaits _)
          exhausted := fun attempts hnot => absurd hnot (hwaits _)
          decided := fun result hnot => absurd hnot (hwaits _) }
      · unfold failed
        dsimp only
        rw [hended]

/-- A turn of the loop: what it adds to the counters is what the send has more of. -/
theorem Explained.turn (h : Explained t s) (hended : s.ended = none) (outcome : PostOutcome) :
    Explained t (t.turn s outcome).2.2 ∧
      (t.turn s outcome).2.2.accepted = s.accepted + (t.turn s outcome).1 ∧
      (t.turn s outcome).2.2.failed = (t.turn s outcome).2.1 := by
  unfold HttpTransport.turn
  dsimp only
  rcases handle_cases outcome with ⟨hnone, -⟩ | ⟨body, hresult, hsent, hfailed⟩ |
    ⟨statusCode, hresult, hsent, hfailed⟩
  · obtain ⟨hexplained, hfailed, hposts⟩ := h.goOn hended hnone
    rw [hnone]
    refine ⟨hexplained, ?_, hfailed⟩
    dsimp only
    unfold accepted
    rw [hposts, List.map_cons, List.sum_cons, Nat.add_comm]
  · rw [hresult]
    refine ⟨h.decide hended hresult trivial, ?_, hfailed.symm⟩
    exact (accepted_cons s _).trans (Nat.add_comm _ _)
  · rw [hresult]
    refine ⟨h.decide hended hresult trivial, ?_, hfailed.symm⟩
    exact (accepted_cons s _).trans (Nat.add_comm _ _)

/-- A response is misread if it accepts the message and does not end the send. -/
theorem misread_eq (outcome : PostOutcome) :
    outcome.misread = if (handle outcome).ended = none then (handle outcome).sent else 0 := by
  cases outcome with
  | raised message => rfl
  | responded response =>
    have hstatus := response.isSuccess_iff
    unfold handle PostOutcome.misread
    by_cases hsuccess : response.isSuccess = true
    · simp only [hsuccess, if_true, if_pos (hstatus.mp hsuccess)]
      cases response.json <;> rfl
    · simp only [hsuccess, if_neg (hstatus.not.mp hsuccess), Bool.false_eq_true, if_false]
      cases response.json <;> split_ifs <;> rfl

/-- Transient outcomes that were accepted were misread. -/
theorem sum_transient {posts : List PostOutcome} (h : Transient posts) :
    (posts.map fun outcome => (handle outcome).sent).sum =
      (posts.map PostOutcome.misread).sum := by
  refine congrArg List.sum (List.map_congr_left fun outcome houtcome => ?_)
  rw [misread_eq, if_pos (h outcome houtcome)]

/-- A message that was accepted was so in the response that the send returned, or in one that was
misread. -/
theorem Explained.accepted_eq (h : Explained t s) : s.accepted = s.returned + s.misread := by
  unfold accepted misread returned
  cases hended : s.ended with
  | none => rw [sum_transient (h.waiting hended).2.2, Nat.zero_add]
  | some result =>
    cases result with
    | cancelled => rw [sum_transient (h.cancelled hended).1, Nat.zero_add]
    | overflow => rw [sum_transient (h.overflow hended).1, Nat.zero_add]
    | exhausted attempts => rw [sum_transient (h.exhausted attempts hended).1, Nat.zero_add]
    | returned body =>
      obtain ⟨last, older, hposts, hlast, holder⟩ := h.decided _ hended trivial
      have hsent : (handle last).sent = 1 := by
        rcases handle_cases last with ⟨hnone, -⟩ | ⟨_, -, hsent, -⟩ | ⟨_, hstatus, -⟩
        · cases hnone.symm.trans hlast
        · exact hsent
        · cases hstatus.symm.trans hlast
      have hread : last.misread = 0 := by
        rw [misread_eq, hlast, if_neg (by simp)]
      rw [hposts, List.map_cons, List.sum_cons, List.map_cons, List.sum_cons, sum_transient holder,
        hsent, hread, Nat.zero_add]
    | permanent statusCode =>
      obtain ⟨last, older, hposts, hlast, holder⟩ := h.decided _ hended trivial
      have hsent : (handle last).sent = 0 := by
        rcases handle_cases last with ⟨hnone, -⟩ | ⟨_, hbody, -⟩ | ⟨_, -, hsent, -⟩
        · cases hnone.symm.trans hlast
        · cases hbody.symm.trans hlast
        · exact hsent
      have hread : last.misread = 0 := by
        rw [misread_eq, hlast, if_neg (by simp)]
      rw [hposts, List.map_cons, List.sum_cons, List.map_cons, List.sum_cons, sum_transient holder,
        hsent, hread, Nat.zero_add, Nat.zero_add]

end Sending

/-! ## Any interleaving -/

/-- The counters are the sums over the sends. -/
structure Accounts (t : HttpTransport) (s : HttpSystem) : Prop where
  explained : s.sendings.All fun _ => Sending.Explained t
  sent : s.totalSent = (s.sendings.values.map Sending.accepted).sum
  failed : s.totalFailed = (s.sendings.values.map Sending.failed).sum

section Accounts

variable {json : JsonLibrary} {t : HttpTransport} {s s' : HttpSystem}

/-- Before the first send. -/
theorem accounts_init : Accounts t {} := ⟨Dict.all_empty, rfl, rfl⟩

/-- A send that starts or is cancelled adds nothing to the counters. -/
theorem Accounts.set (h : Accounts t s) {id : ℕ} {sending : Sending} (he : sending.Explained t)
    (haccepted : ((s.sendings.get? id).map Sending.accepted).getD 0 = sending.accepted)
    (hfailed : ((s.sendings.get? id).map Sending.failed).getD 0 = sending.failed) :
    Accounts t { s with sendings := s.sendings.set id sending } where
  explained := h.explained.set he
  sent := by
    have hsum := Dict.sum_values_set Sending.accepted s.sendings id sending
    rw [haccepted] at hsum
    exact h.sent.trans (Nat.add_right_cancel hsum).symm
  failed := by
    have hsum := Dict.sum_values_set Sending.failed s.sendings id sending
    rw [hfailed] at hsum
    exact h.failed.trans (Nat.add_right_cancel hsum).symm

/-- A turn adds to the counters what it adds to the send. -/
theorem Accounts.respond (h : Accounts t s) {id : ℕ} {sending : Sending}
    (hget : s.sendings.get? id = some sending) (hended : sending.ended = none)
    (outcome : PostOutcome) :
    Accounts t {
      totalSent := s.totalSent + (t.turn sending outcome).1
      totalFailed := s.totalFailed + (t.turn sending outcome).2.1
      sendings := s.sendings.set id (t.turn sending outcome).2.2 } := by
  obtain ⟨hexplained, haccepted, hfailed⟩ := (h.explained id sending hget).turn hended outcome
  have hzero : sending.failed = 0 := by
    unfold Sending.failed
    rw [hended]
  constructor
  · exact h.explained.set hexplained
  · have hsum := Dict.sum_values_set Sending.accepted s.sendings id (t.turn sending outcome).2.2
    rw [hget, Option.map_some, Option.getD_some, haccepted, ← h.sent] at hsum
    dsimp only
    omega
  · have hsum := Dict.sum_values_set Sending.failed s.sendings id (t.turn sending outcome).2.2
    rw [hget, Option.map_some, Option.getD_some, hzero, hfailed, ← h.failed] at hsum
    dsimp only
    omega

/-- Every step keeps the accounts. -/
theorem Accounts.step (h : Accounts t s) {a : HttpAction} (hstep : httpStep json t s a = some s') :
    Accounts t s' := by
  cases a with
  | send id envelope =>
    dsimp only [httpStep] at hstep
    split_ifs at hstep with hfresh
    obtain rfl := Option.some.inj hstep
    have hnone : s.sendings.get? id = none := Dict.get?_eq_none_iff.mpr hfresh
    exact h.set (Sending.explained_start _) (by rw [hnone]; rfl) (by rw [hnone]; rfl)
  | respond id outcome =>
    obtain ⟨sending, hget, hstep⟩ := Option.bind_eq_some_iff.mp hstep
    split_ifs at hstep with hended
    obtain rfl := Option.some.inj hstep
    exact h.respond hget (Option.not_isSome_iff_eq_none.mp hended) outcome
  | cancel id =>
    obtain ⟨sending, hget, hstep⟩ := Option.bind_eq_some_iff.mp hstep
    split_ifs at hstep with hended
    obtain rfl := Option.some.inj hstep
    have hnone : sending.ended = none := Option.not_isSome_iff_eq_none.mp hended
    refine h.set ((h.explained id sending hget).cancel hnone) (by rw [hget]; rfl) ?_
    rw [hget, Option.map_some, Option.getD_some]
    unfold Sending.failed
    rw [hnone]

end Accounts

/-- For any number of concurrent sends on one transport, in any order of their requests and
whatever they meet: `total_sent` counts the sends that returned, and besides every response that
accepted a message and whose body raised neither a `ValueError` nor a `KeyError` but another
exception, after which the send went on as after a failure although the message was delivered;
`total_failed` counts the sends that raised an `HttpTransportError`. A send posts at most
`max_retries + 1` times, the post that a cancellation cuts short among them, waits at most half a
minute between two posts, and posts again only after a failure that may pass (`Explained`). -/
theorem transport_accounts {json : JsonLibrary} {t : HttpTransport} {s : HttpSystem}
    {actions : List HttpAction} (h : run (httpStep json t) {} actions = some s) :
    s.totalSent = (s.sendings.values.map Sending.returned).sum +
        (s.sendings.values.map Sending.misread).sum ∧
      s.totalFailed = (s.sendings.values.map Sending.failed).sum ∧
      ∀ id sending, s.sendings.get? id = some sending → sending.Explained t := by
  have haccounts : Accounts t s :=
    run_induction (fun s a s' hs hstep => Accounts.step hs hstep) accounts_init h
  refine ⟨?_, haccounts.failed, haccounts.explained⟩
  rw [haccounts.sent, ← List.sum_map_add]
  refine congrArg List.sum (List.map_congr_left fun sending hsending => ?_)
  obtain ⟨id, hget⟩ := Dict.mem_values_iff.mp hsending
  exact (haccounts.explained id sending hget).accepted_eq

/-- A transport of three attempts. -/
def threePosts : HttpTransport where
  baseUrl := "https://gateway"
  maxRetries := 2
  timeoutSeconds := 10
  backoffBase := 1
  extraHeaders := .empty

/-- Two sends: the first is accepted twice, for the first time with a body that is nested too deeply
to be parsed, and the second is refused. -/
def acceptedTwice : List HttpAction :=
  [.send 0 { sender := "a", receiver := "b", messageId := "m0", createdAt := 0 },
   .send 1 { sender := "a", receiver := "c", messageId := "m1", createdAt := 0 },
   .respond 0 (.responded ⟨200, .otherError, "[[", true, by decide⟩),
   .respond 1 (.responded ⟨404, .valueError, "", false, by decide⟩),
   .respond 0 (.responded ⟨200, .parsed .none, "null", true, by decide⟩)]

/-- `transport_accounts` on them. -/
theorem transport_accounts_acceptedTwice :
    ∃ s, run (httpStep ⟨fun _ => [], fun _ => none⟩ threePosts) {} acceptedTwice = some s ∧
      s.totalSent = (s.sendings.values.map Sending.returned).sum +
        (s.sendings.values.map Sending.misread).sum ∧
      s.totalFailed = (s.sendings.values.map Sending.failed).sum ∧
      ∀ id sending, s.sendings.get? id = some sending → sending.Explained threePosts := by
  obtain ⟨s, hs⟩ := Option.isSome_iff_exists.mp
    (show (run (httpStep ⟨fun _ => [], fun _ => none⟩ threePosts) {} acceptedTwice).isSome by
      decide +kernel)
  exact ⟨s, hs, transport_accounts hs⟩

end MeshRouter.Adapters
