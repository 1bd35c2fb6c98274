import TraxMania.Generation.PathCells
import TraxMania.Ingestion.ResponseCache
import TraxMania.Lib.Transition
import Mathlib.Algebra.Order.Monoid.WithTop
import Mathlib.Algebra.Order.Ring.Rat

/-
  `ingestion/http.py`: the retries of a request, and `get` with its cache. The outcomes of the
  requests, the draws of the jitter and the clock readings are inputs, one for each attempt; seconds
  are exact, and infinite where a header says so.

  A `Retry-After` that `_parse_retry_after` raises on ends a request with that exception
  (`disciplined_iff`).
-/

namespace TraxMania.Ingestion.Http

open TraxMania.Generation Lib.PyText Lib.Transition Lib.Words

/-! ## `Retry-After` -/

/-- The standard library below `_parse_retry_after`. -/
structure HeaderLibrary where
  /-- `float` of a text; `none` is a `ValueError`. -/
  floatOfText : Text → Option JsonFloat
  Date : Type
  /-- `parsedate_to_datetime`. -/
  parsedate : Text → Except PyError (Option Date)
  /-- `dt.timestamp()`. -/
  timestamp : Date → Except PyError ℚ

/-- `max(0.0, x)`. -/
def clampZero : JsonFloat → WithTop ℚ
  | .finite x => ((max 0 x : ℚ) : WithTop ℚ)
  | .infinite negative => if negative then 0 else ⊤
  | .nan => 0

/-- `_parse_retry_after(value)` when the clock reads `now`. -/
def parseRetryAfter (lib : HeaderLibrary) (value : Option Text) (now : ℚ) :
    Except PyError (Option (WithTop ℚ)) :=
  match value with
  | none => .ok none
  | some value =>
    let value := strip isSpace value
    if value = [] then .ok none
    else
      match lib.floatOfText value with
      | some x => .ok (some (clampZero x))
      | none =>
        match lib.parsedate value with
        | .error .typeError => .ok none
        | .error .valueError => .ok none
        | .error .jsonDecodeError => .ok none
        | .error e => .error e
        | .ok none => .ok none
        | .ok (some dt) =>
          match lib.timestamp dt with
          | .error e => .error e
          | .ok seconds => .ok (some ((max 0 (seconds - now) : ℚ) : WithTop ℚ))

/-! ## Requests -/

/-- A response as the session gives it. -/
structure RawResponse where
  statusCode : Int
  content : Body
  headers : List (Text × Text)

/-- `raw.headers.get("Retry-After")`: the names of headers are compared without their case. -/
def RawResponse.retryAfter (raw : RawResponse) : Option Text :=
  (raw.headers.find? fun kv => kv.1.map Char.toLower = "retry-after".toList).map Prod.snd

structure HttpResponse where
  statusCode : Int
  content : Body
  headers : List (Text × Text)
  fromCache : Bool
deriving DecidableEq

def RawResponse.answer (raw : RawResponse) : HttpResponse :=
  ⟨raw.statusCode, raw.content, raw.headers, false⟩

/-- `200 <= status < 300`. -/
def success (status : Int) : Bool := 200 ≤ status && status < 300

/-- A status that is not tried again. -/
def final (status : Int) : Bool :=
  success status || (400 ≤ status && status < 500 && status != 429)

/-- What `session.request` does: it raises a `RequestException`, or returns. -/
inductive Outcome where
  | networkError
  | response (raw : RawResponse)

/-- The header that the wait after an outcome looks at. -/
def Outcome.header : Outcome → Option Text
  | .networkError => none
  | .response raw => raw.retryAfter

/-- An outcome that is tried again. -/
def Outcome.Retryable : Outcome → Prop
  | .networkError => True
  | .response raw => final raw.statusCode = false

/-- What the constructor accepts, with delays that are positive. -/
structure HttpClient where
  /-- `base_url.rstrip("/")`. -/
  baseUrl : Text
  backoff : List ℚ
  backoff_pos : ∀ delay ∈ backoff, 0 < delay
  maxTotalRetrySeconds : ℚ
  max_nonneg : 0 ≤ maxTotalRetrySeconds
  jitterLo : ℚ
  jitterHi : ℚ
  lo_pos : 0 < jitterLo
  lo_le_one : jitterLo ≤ 1
  one_le_hi : 1 ≤ jitterHi
  lib : HeaderLibrary

/-- What each attempt of a request meets. -/
structure Transport (c : HttpClient) where
  outcome : ℕ → Outcome
  /-- `rng.uniform(jitter_lo, jitter_hi)`. -/
  draw : ℕ → ℚ
  now : ℕ → ℚ
  lo_le_draw : ∀ attempt, c.jitterLo ≤ draw attempt
  draw_le_hi : ∀ attempt, draw attempt ≤ c.jitterHi

/-- What a request does, in order. -/
inductive Action where
  /-- `rate_limiter.acquire()`. -/
  | acquire
  /-- `session.request(…)`. -/
  | request
  | sleep (seconds : WithTop ℚ)
deriving DecidableEq

/-- How a request fails. -/
inductive RequestError where
  /-- `HttpError("retry deadline … exceeded for … after … attempts: …")`. -/
  | deadline (attempts : ℕ)
  /-- `HttpError("network error after … attempts: …")`. -/
  | network (attempts : ℕ)
  /-- `HttpError("unreachable retry loop exit for …")`. -/
  | unreachable
  /-- An exception of another class. -/
  | raised (e : PyError)
deriving DecidableEq

/-- What a request has done, and how it ended. -/
abbrev Sent := List Action × Except RequestError HttpResponse

namespace HttpClient

variable (c : HttpClient)

/-- `attempts`. -/
def attempts : ℕ := c.backoff.length + 1

/-- `_next_wait(attempt, retry_after_header)`; an attempt that waits has a delay. -/
def nextWait (t : Transport c) (attempt : ℕ) (header : Option Text) :
    Except PyError (WithTop ℚ) :=
  let scheduled : ℚ := c.backoff.getD attempt 0 * t.draw attempt
  match parseRetryAfter c.lib header (t.now attempt) with
  | .error e => .error e
  | .ok none => .ok scheduled
  | .ok (some serverHint) => .ok (max (scheduled : WithTop ℚ) serverHint)

/-- The loop of `_request_with_retries` over the attempts that are left. -/
def attemptAll (t : Transport c) : List ℕ → WithTop ℚ → Sent
  | [], _ => ([], .error .unreachable)
  | attempt :: later, totalWait =>
    match t.outcome attempt with
    | .networkError =>
      if attempt < c.attempts - 1 then
        match c.nextWait t attempt none with
        | .error e => ([.acquire, .request], .error (.raised e))
        | .ok wait =>
          if c.maxTotalRetrySeconds < totalWait + wait then
            ([.acquire, .request], .error (.deadline (attempt + 1)))
          else
            let rest := attemptAll t later (totalWait + wait)
            (.acquire :: .request :: .sleep wait :: rest.1, rest.2)
      else ([.acquire, .request], .error (.network c.attempts))
    | .response raw =>
      if final raw.statusCode then ([.acquire, .request], .ok raw.answer)
      else if attempt < c.attempts - 1 then
        match c.nextWait t attempt raw.retryAfter with
        | .error e => ([.acquire, .request], .error (.raised e))
        | .ok wait =>
          if c.maxTotalRetrySeconds < totalWait + wait then
            ([.acquire, .request], .ok raw.answer)
          else
            let rest := attemptAll t later (totalWait + wait)
            (.acquire :: .request :: .sleep wait :: rest.1, rest.2)
      else ([.acquire, .request], .ok raw.answer)

/-- `_request_with_retries("GET", url, params=params)`. -/
def requestWithRetries (t : Transport c) : Sent := c.attemptAll t (List.range c.attempts) 0

/-- `_build_url(path)`. -/
def buildUrl (path : Text) : Text :=
  if "http://".toList.isPrefixOf path || "https://".toList.isPrefixOf path then path
  else
    let leading := if "/".toList.isPrefixOf path then [] else ['/']
    c.baseUrl ++ leading ++ path

/-! ## The discipline -/

/-- One attempt, and another one after each wait: every request takes its token first. -/
def tries (waits : List (WithTop ℚ)) : List Action :=
  .acquire :: .request :: waits.flatMap fun wait => [.sleep wait, .acquire, .request]

/-- The end that the outcome of the last request calls for: its response, or else an `HttpError` that
    says why there is none. -/
def Answers : Outcome → Except RequestError HttpResponse → Prop
  | .response raw, result => result = .ok raw.answer
  | .networkError, result =>
    (∃ attempts, result = .error (.deadline attempts)) ∨ ∃ attempts, result = .error (.network attempts)

variable {c}

/-- A request with a wait before every attempt but the first: few enough, short enough together,
    each at least what the header of the response before it asks for, and the end is that of the
    last attempt. -/
structure DisciplinedFrom (t : Transport c) (first : ℕ) (waited : WithTop ℚ)
    (waits : List (WithTop ℚ)) (sent : Sent) : Prop where
  actions : sent.1 = tries waits
  attempts_le : first + waits.length ≤ c.backoff.length
  total_le : waited + waits.sum ≤ c.maxTotalRetrySeconds
  hint_le : ∀ k wait raw hint, waits[k]? = some wait → t.outcome (first + k) = .response raw →
    parseRetryAfter c.lib raw.retryAfter (t.now (first + k)) = .ok (some hint) → hint ≤ wait
  answers : Answers (t.outcome (first + waits.length)) sent.2

def Disciplined (t : Transport c) (sent : Sent) : Prop := ∃ waits, DisciplinedFrom t 0 0 waits sent

/-- The attempts whose turn comes, with the seconds waited before. -/
inductive Reached (t : Transport c) : ℕ → WithTop ℚ → Prop
  | start : Reached t 0 0
  | next {attempt waited wait} : Reached t attempt waited → attempt < c.backoff.length →
      (t.outcome attempt).Retryable →
      c.nextWait t attempt (t.outcome attempt).header = .ok wait →
      waited + wait ≤ c.maxTotalRetrySeconds → Reached t (attempt + 1) (waited + wait)

/-- `_parse_retry_after` returns on every header it is asked about: that of a response that is
    tried again, when it is not the last attempt's. -/
def ReadsHeaders (t : Transport c) : Prop :=
  ∀ attempt waited raw, Reached t attempt waited → attempt < c.backoff.length →
    t.outcome attempt = .response raw → final raw.statusCode = false →
    ∃ hint, parseRetryAfter c.lib raw.retryAfter (t.now attempt) = .ok hint

/-! ## One attempt -/

theorem nextWait_ok {t : Transport c} {attempt : ℕ} {header : Option Text} {hint : Option (WithTop ℚ)}
    (h : parseRetryAfter c.lib header (t.now attempt) = .ok hint) :
    ∃ wait, c.nextWait t attempt header = .ok wait ∧ ∀ asked, hint = some asked → asked ≤ wait := by
  unfold nextWait
  dsimp only
  rw [h]
  cases hint with
  | none => exact ⟨_, rfl, fun asked hasked => nomatch hasked⟩
  | some serverHint =>
    refine ⟨_, rfl, fun asked hasked => ?_⟩
    rw [← Option.some.inj hasked]
    exact le_max_right _ _

theorem nextWait_error {t : Transport c} {attempt : ℕ} {header : Option Text} {e : PyError}
    (h : parseRetryAfter c.lib header (t.now attempt) = .error e) :
    c.nextWait t attempt header = .error e := by
  unfold nextWait
  dsimp only
  rw [h]

/-- What an attempt can do: end the request with the answer to its outcome, end it with an exception
    of the header, or wait and leave it to the next. -/
inductive Attempt (t : Transport c) (attempt : ℕ) (later : List ℕ) (waited : WithTop ℚ) : Sent → Prop
  | ends {result} : Answers (t.outcome attempt) result →
      Attempt t attempt later waited ([.acquire, .request], result)
  | raises {raw e} : attempt < c.backoff.length → t.outcome attempt = .response raw →
      final raw.statusCode = false →
      parseRetryAfter c.lib raw.retryAfter (t.now attempt) = .error e →
      Attempt t attempt later waited ([.acquire, .request], .error (.raised e))
  | waits {wait} : attempt < c.backoff.length → (t.outcome attempt).Retryable →
      c.nextWait t attempt (t.outcome attempt).header = .ok wait →
      waited + wait ≤ c.maxTotalRetrySeconds →
      Attempt t attempt later waited
        (.acquire :: .request :: .sleep wait :: (c.attemptAll t later (waited + wait)).1,
          (c.attemptAll t later (waited + wait)).2)

/-- An attempt that waits leaves the rest to the next. -/
theorem attemptAll_waits {t : Transport c} {attempt : ℕ} {waited wait : WithTop ℚ}
    (hlt : attempt < c.backoff.length) (hretry : (t.outcome attempt).Retryable)
    (hwait : c.nextWait t attempt (t.outcome attempt).header = .ok wait)
    (hle : waited + wait ≤ c.maxTotalRetrySeconds) (later : List ℕ) :
    c.attemptAll t (attempt :: later) waited =
      (.acquire :: .request :: .sleep wait :: (c.attemptAll t later (waited + wait)).1,
        (c.attemptAll t later (waited + wait)).2) := by
  have hlast : c.attempts - 1 = c.backoff.length := rfl
  rw [attemptAll, hlast]
  cases houtcome : t.outcome attempt with
  | networkError =>
    rw [houtcome] at hwait
    simp only [Outcome.header] at hwait
    simp only [hlt, hwait, not_lt.mpr hle, if_true, if_false]
  | response raw =>
    rw [houtcome] at hwait hretry
    simp only [Outcome.header] at hwait
    have hfinal : final raw.statusCode = false := hretry
    simp only [hlt, hwait, hfinal, not_lt.mpr hle, Bool.false_eq_true, if_true, if_false]

/-- A header that cannot be read ends the request. -/
theorem attemptAll_raises {t : Transport c} {attempt : ℕ} {raw : RawResponse} {e : PyError}
    (hlt : attempt < c.backoff.length) (houtcome : t.outcome attempt = .response raw)
    (hfinal : final raw.statusCode = false)
    (hparse : parseRetryAfter c.lib raw.retryAfter (t.now attempt) = .error e) (later : List ℕ)
    (waited : WithTop ℚ) :
    c.attemptAll t (attempt :: later) waited = ([.acquire, .request], .error (.raised e)) := by
  have hlast : c.attempts - 1 = c.backoff.length := rfl
  rw [attemptAll, hlast]
  simp only [houtcome, hlt, hfinal, nextWait_error hparse, Bool.false_eq_true, if_true, if_false]

theorem attempt_cases (t : Transport c) (attempt : ℕ) (later : List ℕ) (waited : WithTop ℚ) :
    Attempt t attempt later waited (c.attemptAll t (attempt :: later) waited) := by
  have hlast : c.attempts - 1 = c.backoff.length := rfl
  cases houtcome : t.outcome attempt with
  | networkError =>
    have hnone : parseRetryAfter c.lib none (t.now attempt) = .ok none := rfl
    obtain ⟨wait, hwait, -⟩ := nextWait_ok hnone
    by_cases hlt : attempt < c.backoff.length
    · by_cases hle : waited + wait ≤ c.maxTotalRetrySeconds
      · have hretry : (t.outcome attempt).Retryable := by rw [houtcome]; trivial
        have hwait' : c.nextWait t attempt (t.outcome attempt).header = .ok wait := by
          rw [houtcome]
          exact hwait
        rw [attemptAll_waits hlt hretry hwait' hle]
        exact .waits hlt hretry hwait' hle
      · rw [attemptAll, hlast]
        simp only [houtcome, hlt, hwait, not_le.mp hle, if_true]
        exact .ends (by rw [houtcome]; exact .inl ⟨_, rfl⟩)
    · rw [attemptAll, hlast]
      simp only [houtcome, hlt, if_false]
      exact .ends (by rw [houtcome]; exact .inr ⟨_, rfl⟩)
  | response raw =>
    have hanswer : Answers (t.outcome attempt) (.ok raw.answer) := by rw [houtcome]; rfl
    by_cases hfinal : final raw.statusCode = true
    · rw [attemptAll]
      simp only [houtcome, hfinal, if_true]
      exact .ends hanswer
    · rw [Bool.not_eq_true] at hfinal
      by_cases hlt : attempt < c.backoff.length
      · cases hparse : parseRetryAfter c.lib raw.retryAfter (t.now attempt) with
        | error e =>
          rw [attemptAll_raises hlt houtcome hfinal hparse]
          exact .raises hlt houtcome hfinal hparse
        | ok hint =>
          obtain ⟨wait, hwait, -⟩ := nextWait_ok hparse
          by_cases hle : waited + wait ≤ c.maxTotalRetrySeconds
          · have hretry : (t.outcome attempt).Retryable := by rw [houtcome]; exact hfinal
            have hwait' : c.nextWait t attempt (t.outcome attempt).header = .ok wait := by
              rw [houtcome]
              exact hwait
            rw [attemptAll_waits hlt hretry hwait' hle]
            exact .waits hlt hretry hwait' hle
          · rw [attemptAll, hlast]
            simp only [houtcome, hfinal, hlt, hwait, not_le.mp hle, Bool.false_eq_true, if_true,
              if_false]
            exact .ends hanswer
      · rw [attemptAll, hlast]
        simp only [houtcome, hfinal, hlt, Bool.false_eq_true, if_false]
        exact .ends hanswer

/-! ## All attempts -/

theorem disciplinedFrom_ends {t : Transport c} {first : ℕ} {waited : WithTop ℚ}
    {result : Except RequestError HttpResponse} (hfirst : first ≤ c.backoff.length)
    (hwaited : waited ≤ c.maxTotalRetrySeconds) (hanswer : Answers (t.outcome first) result) :
    DisciplinedFrom t first waited [] ([.acquire, .request], result) where
  actions := rfl
  attempts_le := hfirst
  total_le := by rwa [List.sum_nil, add_zero]
  hint_le k _ _ _ hk := nomatch hk
  answers := hanswer

theorem disciplinedFrom_waits {t : Transport c} {first : ℕ} {waited wait : WithTop ℚ}
    {waits : List (WithTop ℚ)} {sent : Sent}
    (hwait : c.nextWait t first (t.outcome first).header = .ok wait)
    (hrest : DisciplinedFrom t (first + 1) (waited + wait) waits sent) :
    DisciplinedFrom t first waited (wait :: waits)
      (.acquire :: .request :: .sleep wait :: sent.1, sent.2) where
  actions := by
    show _ = tries (wait :: waits)
    rw [hrest.actions]
    rfl
  attempts_le := by
    have hlength := hrest.attempts_le
    rw [List.length_cons]
    omega
  total_le := by
    rw [List.sum_cons, ← add_assoc]
    exact hrest.total_le
  hint_le k wait' raw hint hk houtcome hparse := by
    cases k with
    | zero =>
      rw [List.getElem?_cons_zero] at hk
      rw [Nat.add_zero] at houtcome hparse
      obtain ⟨wait'', hwait'', hasked⟩ := nextWait_ok hparse
      rw [houtcome] at hwait
      have heq : wait'' = wait := Except.ok.inj (hwait''.symm.trans hwait)
      rw [← Option.some.inj hk, ← heq]
      exact hasked hint rfl
    | succ k =>
      rw [List.getElem?_cons_succ] at hk
      have hshift : first + 1 + k = first + (k + 1) := by omega
      exact hrest.hint_le k wait' raw hint hk (by rw [hshift]; exact houtcome)
        (by rw [hshift]; exact hparse)
  answers := by
    have hanswers := hrest.answers
    have hshift : first + 1 + waits.length = first + (waits.length + 1) := by omega
    rw [hshift] at hanswers
    exact hanswers

/-- From an attempt whose turn comes, the rest of the request is disciplined. -/
theorem attemptAll_disciplined {t : Transport c} (hreads : ReadsHeaders t) (left : ℕ) {first : ℕ}
    {waited : WithTop ℚ} (hreached : Reached t first waited)
    (hleft : first + left = c.backoff.length) (hwaited : waited ≤ c.maxTotalRetrySeconds) :
    ∃ waits, DisciplinedFrom t first waited waits
      (c.attemptAll t (List.range' first (left + 1)) waited) := by
  induction left generalizing first waited with
  | zero =>
    rw [List.range'_succ]
    have hcases := attempt_cases t first (List.range' (first + 1) 0) waited
    generalize c.attemptAll t (first :: List.range' (first + 1) 0) waited = sent at hcases
    cases hcases with
    | ends hanswer =>
      exact ⟨[], disciplinedFrom_ends (by omega) hwaited hanswer⟩
    | raises hlt => omega
    | waits hlt => omega
  | succ left ih =>
    rw [List.range'_succ]
    have hcases := attempt_cases t first (List.range' (first + 1) (left + 1)) waited
    generalize c.attemptAll t (first :: List.range' (first + 1) (left + 1)) waited = sent at hcases
    cases hcases with
    | ends hanswer =>
      exact ⟨[], disciplinedFrom_ends (by omega) hwaited hanswer⟩
    | raises hlt houtcome hfinal hparse =>
      obtain ⟨hint, hhint⟩ := hreads first waited _ hreached hlt houtcome hfinal
      rw [hparse] at hhint
      cases hhint
    | @waits wait hlt hretry hwait hle =>
      obtain ⟨waits, hrest⟩ := ih (.next hreached hlt hretry hwait hle) (by omega) hle
      exact ⟨wait :: waits, disciplinedFrom_waits hwait hrest⟩

/-- The request ends as the attempts from one whose turn comes. -/
theorem result_of_reached {t : Transport c} {attempt : ℕ} {waited : WithTop ℚ}
    (hreached : Reached t attempt waited) :
    attempt ≤ c.backoff.length ∧ (c.requestWithRetries t).2 =
      (c.attemptAll t (List.range' attempt (c.attempts - attempt)) waited).2 := by
  induction hreached with
  | start =>
    refine ⟨Nat.zero_le _, ?_⟩
    unfold requestWithRetries
    rw [List.range_eq_range', Nat.sub_zero]
  | @next attempt waited wait _ hlt hretry hwait hle ih =>
    refine ⟨hlt, ih.2.trans ?_⟩
    have hleft : c.attempts - attempt = c.attempts - (attempt + 1) + 1 := by
      have : c.attempts = c.backoff.length + 1 := rfl
      omega
    rw [hleft, List.range'_succ, attemptAll_waits hlt hretry hwait hle]

/-- A request is disciplined exactly when it can read the headers it asks. -/
theorem disciplined_iff_readsHeaders (t : Transport c) :
    Disciplined t (c.requestWithRetries t) ↔ ReadsHeaders t := by
  constructor
  · rintro ⟨waits, hdisciplined⟩ attempt waited raw hreached hlt houtcome hfinal
    cases hparse : parseRetryAfter c.lib raw.retryAfter (t.now attempt) with
    | ok hint => exact ⟨hint, rfl⟩
    | error e =>
      obtain ⟨-, hresult⟩ := result_of_reached hreached
      have hleft : c.attempts - attempt = c.backoff.length - attempt + 1 := by
        have : c.attempts = c.backoff.length + 1 := rfl
        omega
      rw [hleft, List.range'_succ, attemptAll_raises hlt houtcome hfinal hparse] at hresult
      have hanswers := hdisciplined.answers
      rw [hresult] at hanswers
      generalize t.outcome (0 + waits.length) = outcome at hanswers
      cases outcome with
      | networkError =>
        rcases hanswers with ⟨n, hn⟩ | ⟨n, hn⟩
        · cases hn
        · cases hn
      | response raw' => cases hanswers
  · intro hreads
    have hzero : (0 : WithTop ℚ) ≤ c.maxTotalRetrySeconds := by exact_mod_cast c.max_nonneg
    have hrun := attemptAll_disciplined hreads c.backoff.length .start (Nat.zero_add _) hzero
    rw [← List.range_eq_range'] at hrun
    exact hrun

/-! ## `get` -/

/-- `get(path, params, use_cache=…)`: the cache afterwards, and what was sent. -/
def get (sha256 : Text → Text) (c : HttpClient) (cache : Option ResponseCache) (request : Request)
    (useCache : Bool) (t : Transport c) : Option ResponseCache × Sent :=
  match useCache, cache with
  | true, some files =>
    let cacheKey := sha256 (hashed request)
    match files.get cacheKey with
    | some cached => (some files, [], .ok ⟨200, cached, [], true⟩)
    | none =>
      let sent := c.requestWithRetries t
      match sent.2 with
      | .ok response =>
        if success response.statusCode then (some (files.put cacheKey response.content), sent)
        else (some files, sent)
      | .error _ => (some files, sent)
  | _, _ => (cache, c.requestWithRetries t)

/-- What a call of `get` can do: answer from the cache, send the request and store a success, or
    send it and leave the cache. -/
inductive Got (sha256 : Text → Text) (cache : Option ResponseCache) (request : Request)
    (t : Transport c) : Option ResponseCache × Sent → Prop
  | hit {files cached} : cache = some files →
      files.get (sha256 (hashed request)) = some cached →
      Got sha256 cache request t (cache, [], .ok ⟨200, cached, [], true⟩)
  | stored {files response} : cache = some files → (c.requestWithRetries t).2 = .ok response →
      success response.statusCode = true →
      Got sha256 cache request t
        (some (files.put (sha256 (hashed request)) response.content), c.requestWithRetries t)
  | kept : Got sha256 cache request t (cache, c.requestWithRetries t)

theorem get_cases (sha256 : Text → Text) (cache : Option ResponseCache) (request : Request)
    (useCache : Bool) (t : Transport c) :
    Got sha256 cache request t (get sha256 c cache request useCache t) := by
  unfold get
  split
  · next files =>
    dsimp only
    split
    · next cached hcached => exact .hit rfl hcached
    · split
      · next response hresponse =>
        split
        · next hsuccess => exact .stored rfl hresponse hsuccess
        · exact .kept
      · exact .kept
  · exact .kept

/-- What was sent for is not from the cache. -/
theorem fromCache_attemptAll (t : Transport c) (attempts : List ℕ) (waited : WithTop ℚ)
    {response : HttpResponse} (h : (c.attemptAll t attempts waited).2 = .ok response) :
    response.fromCache = false := by
  induction attempts generalizing waited with
  | nil => cases h
  | cons attempt later ih =>
    have hcases := attempt_cases t attempt later waited
    generalize c.attemptAll t (attempt :: later) waited = sent at hcases h
    cases hcases with
    | ends hanswer =>
      dsimp only at h
      rw [h] at hanswer
      generalize t.outcome attempt = outcome at hanswer
      cases outcome with
      | networkError =>
        rcases hanswer with ⟨n, hn⟩ | ⟨n, hn⟩
        · cases hn
        · cases hn
      | response raw =>
        rw [Except.ok.inj hanswer]
        rfl
    | raises => cases h
    | waits => exact ih _ h

/-- The retries are disciplined exactly when every header that is asked can be read, and only a
    success is stored. -/
theorem retry_discipline_iff (t : Transport c) :
    (Disciplined t (c.requestWithRetries t) ↔ ReadsHeaders t) ∧
      ∀ sha256 cache request useCache, (get sha256 c cache request useCache t).1 ≠ cache →
        ∃ files response, cache = some files ∧
          (get sha256 c cache request useCache t).2.2 = .ok response ∧
          (200 ≤ response.statusCode ∧ response.statusCode < 300) ∧
          (get sha256 c cache request useCache t).1 =
            some (files.put (sha256 (hashed request)) response.content) := by
  refine ⟨disciplined_iff_readsHeaders t, fun sha256 cache request useCache hchanged => ?_⟩
  have hcases := get_cases sha256 cache request useCache t
  generalize get sha256 c cache request useCache t = got at hcases hchanged
  cases hcases with
  | hit => exact absurd rfl hchanged
  | @stored files response hcache hresult hsuccess =>
    exact ⟨files, response, hcache, hresult, by simpa [success] using hsuccess, rfl⟩
  | kept => exact absurd rfl hchanged

/-- One retry, and a library whose `parsedate_to_datetime` raises an `OverflowError` on the year
    99999999999. -/
def oneRetry : HttpClient where
  baseUrl := "https://tmx.test".toList
  backoff := [1]
  backoff_pos := by decide
  maxTotalRetrySeconds := 10
  max_nonneg := by decide
  jitterLo := 1
  jitterHi := 1
  lo_pos := by decide
  lo_le_one := by decide
  one_le_hi := by decide
  lib :=
    { floatOfText := fun _ => none
      Date := Unit
      parsedate := fun text =>
        if text = "Mon, 01 Jan 99999999999 00:00:00 GMT".toList then .error .overflowError
        else .error .valueError
      timestamp := fun _ => .ok 0 }

/-- A server that is busy until then. -/
def busyForLong : Transport oneRetry where
  outcome _ := .response
    { statusCode := 503
      content := []
      headers := [("Retry-After".toList, "Mon, 01 Jan 99999999999 00:00:00 GMT".toList)] }
  draw _ := 1
  now _ := 0
  lo_le_draw _ := le_refl _
  draw_le_hi _ := le_refl _

theorem busy_not_disciplined :
    (oneRetry.requestWithRetries busyForLong).2 = .error (.raised .overflowError) ∧
      ¬ Disciplined busyForLong (oneRetry.requestWithRetries busyForLong) := by
  have hresult : (oneRetry.requestWithRetries busyForLong).2 = .error (.raised .overflowError) := by
    decide +kernel
  refine ⟨hresult, fun hdisciplined => ?_⟩
  obtain ⟨waits, hfrom⟩ := hdisciplined
  have hanswers := hfrom.answers
  rw [hresult] at hanswers
  exact nomatch hanswers

/-! ## Hits of the cache -/

/-- A call of `get`; clients may share a cache. -/
structure Call where
  client : HttpClient
  transport : Transport client
  path : Text
  params : List (Text × Text)
  nodup : (params.map Prod.fst).Nodup
  useCache : Bool

/-- The request of a call. -/
def Call.request (call : Call) : Request := ⟨call.client.buildUrl call.path, call.params, call.nodup⟩

/-- The cache, and the bodies that responses have brought, with their requests. -/
structure Session where
  cache : ResponseCache
  received : List (Request × Body)

def Session.new : Session := ⟨fun _ => none, []⟩

def Call.get (sha256 : Text → Text) (call : Call) (s : Session) : Option ResponseCache × Sent :=
  HttpClient.get sha256 call.client (some s.cache) call.request call.useCache call.transport

def Session.step (sha256 : Text → Text) (s : Session) (call : Call) : Session :=
  let result := call.get sha256 s
  { cache := result.1.getD s.cache
    received :=
      match result.2.2 with
      | .ok response =>
        if response.fromCache then s.received else s.received ++ [(call.request, response.content)]
      | .error _ => s.received }

/-- A body out of the cache has been received for the url and the mapping of the call. -/
def OwnBody (sha256 : Text → Text) (s : Session) (call : Call) : Prop :=
  ∀ response, (call.get sha256 s).2.2 = .ok response → response.fromCache = true →
    ∃ r, r.Same call.request ∧ (r, response.content) ∈ s.received

/-- Every file holds a body that was received for a plain request, under the key of that request. -/
def Traced (sha256 : Text → Text) (s : Session) : Prop :=
  ∀ key body, s.cache.get key = some body →
    ∃ r : Request, (r, body) ∈ s.received ∧ key = sha256 (hashed r) ∧ r.LineFree ∧ Plain r.params

theorem traced_step (sha256 : Text → Text) {s : Session} {call : Call} (hs : Traced sha256 s)
    (hfree : call.request.LineFree) (hplain : Plain call.request.params) :
    Traced sha256 (s.step sha256 call) := by
  have hcases := get_cases sha256 (some s.cache) call.request call.useCache call.transport
  unfold Session.step Call.get
  generalize get sha256 call.client (some s.cache) call.request call.useCache call.transport = got
    at hcases
  intro key body hbody
  have hkept : ∀ received : List (Request × Body), (∀ rb ∈ s.received, rb ∈ received) →
      s.cache.get key = some body →
      ∃ r : Request, (r, body) ∈ received ∧ key = sha256 (hashed r) ∧ r.LineFree ∧ Plain r.params := by
    intro received hsub hold
    obtain ⟨r, hr, hrest⟩ := hs key body hold
    exact ⟨r, hsub _ hr, hrest⟩
  cases hcases with
  | hit => exact hkept _ (fun rb hrb => hrb) hbody
  | @stored files response hcache hresult hsuccess =>
    obtain rfl := Option.some.inj hcache
    have hfresh := fromCache_attemptAll _ _ _ hresult
    dsimp only [Option.getD_some] at hbody ⊢
    rw [ResponseCache.get_put] at hbody
    rw [hresult]
    dsimp only
    rw [hfresh, if_neg Bool.false_ne_true]
    by_cases hkey : key = sha256 (hashed call.request)
    · rw [if_pos hkey, Option.some.injEq] at hbody
      rw [← hbody]
      exact ⟨call.request, List.mem_append_right _ (List.mem_singleton.mpr rfl), hkey, hfree, hplain⟩
    · rw [if_neg hkey] at hbody
      exact hkept _ (fun rb hrb => List.mem_append_left _ hrb) hbody
  | kept =>
    refine hkept _ (fun rb hrb => ?_) hbody
    dsimp only
    split
    · split
      · exact hrb
      · exact List.mem_append_left _ hrb
    · exact hrb

/-- A hit in a traced cache is the call's own. -/
theorem ownBody_of_traced {sha256 : Text → Text} (hsha : Function.Injective sha256) {s : Session}
    {call : Call} (hs : Traced sha256 s) (hfree : call.request.LineFree)
    (hplain : Plain call.request.params) : OwnBody sha256 s call := by
  intro response hresponse hfrom
  have hcases := get_cases sha256 (some s.cache) call.request call.useCache call.transport
  unfold Call.get at hresponse
  generalize get sha256 call.client (some s.cache) call.request call.useCache call.transport = got
    at hcases hresponse
  cases hcases with
  | @hit files cached hcache hcached =>
    obtain rfl := Option.some.inj hcache
    obtain ⟨r, hr, hkey, hrfree, hrplain⟩ := hs _ _ hcached
    refine ⟨r, same_of_plain hrfree hfree hrplain hplain (hsha hkey).symm, ?_⟩
    rw [← Except.ok.inj hresponse]
    exact hr
  | stored hcache hresult =>
    rw [fromCache_attemptAll _ _ _ hresponse] at hfrom
    cases hfrom
  | kept =>
    rw [fromCache_attemptAll _ _ _ hresponse] at hfrom
    cases hfrom

/-- No other request has the text of one without parameters or with a single one free of `=`, and
    of no other request. Requests with names free of both separators and values free of `&` have
    texts of their own among themselves, and as long as only such requests are made, every hit is a
    body received for the same url and parameters. -/
theorem cache_serves_own_bodies (sha256 : Text → Text) (calls : List Call) :
    (∀ r : Request, r.LineFree →
      ((∀ r' : Request, r'.LineFree → ¬ r.Same r' → hashed r ≠ hashed r') ↔
        Unambiguous r.params)) ∧
      (∀ r r' : Request, r.LineFree → r'.LineFree → Plain r.params → Plain r'.params →
        ¬ r.Same r' → hashed r ≠ hashed r') ∧
      (Function.Injective sha256 →
        (∀ call ∈ calls, call.request.LineFree ∧ Plain call.request.params) →
        Steps (OwnBody sha256) (Session.step sha256) Session.new calls) := by
  refine ⟨fun r hr => hashed_unique_iff hr, fun r r' hr hr' hplain hplain' hdiffer heq => ?_,
    fun hsha hcalls => ?_⟩
  · exact hdiffer (same_of_plain hr hr' hplain hplain' heq)
  · have hnew : Traced sha256 Session.new := fun key body hbody => nomatch hbody
    generalize Session.new = s at hnew
    induction calls generalizing s with
    | nil => trivial
    | cons call calls ih =>
      obtain ⟨⟨hfree, hplain⟩, hrest⟩ := List.forall_mem_cons.mp hcalls
      exact ⟨ownBody_of_traced hsha hnew hfree hplain,
        ih hrest _ (traced_step sha256 hnew hfree hplain)⟩

/-- Two parameters, and one whose value spells the second. -/
def twoParams : Request :=
  ⟨"https://tmx.test/api".toList, [("a".toList, "1".toList), ("b".toList, "2".toList)], by decide⟩

def oneParam : Request := ⟨"https://tmx.test/api".toList, [("a".toList, "1&b=2".toList)], by decide⟩

theorem two_params_share_a_text :
    twoParams.LineFree ∧ oneParam.LineFree ∧ ¬ twoParams.Same oneParam ∧
      hashed twoParams = hashed oneParam := by
  refine ⟨by decide, by decide, fun hsame => ?_, by decide +kernel⟩
  exact absurd hsame.2.length_eq (by decide)

end HttpClient

end TraxMania.Ingestion.Http
