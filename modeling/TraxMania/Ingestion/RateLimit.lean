import Mathlib.Data.Rat.Defs
import Mathlib.Algebra.Order.Ring.Unbundled.Rat
import Mathlib.Tactic.FieldSimp
import TraxMania.Lib.Allowance

/-
  `ingestion/rate_limit.py`: the token bucket, and any number of callers that share it. A lock
  section is one step; the clock readings are inputs, and a caller that has to wait sleeps until its
  next section. Over exact rationals.

  The bucket is an account that fills at the rate up to the capacity (`refill_account`), and a
  section is a visit that draws the tokens it grants (`visit_enter`).
-/

namespace TraxMania.Ingestion.RateLimit

open Lib.Allowance Lib.Transition

/-! ## The bucket -/

/-- The exceptions of `TokenBucket`, all of them a `ValueError`. -/
inductive LimiterError where
  /-- "rate_per_second must be positive" -/
  | rateNotPositive
  /-- "capacity must be positive" -/
  | capacityNotPositive
  /-- "tokens must be positive" -/
  | tokensNotPositive
  /-- "cannot acquire … tokens; bucket capacity is …" -/
  | overCapacity (tokens capacity : ℚ)
deriving DecidableEq

/-- `_rate` and `_capacity`. -/
structure Limits where
  rate : ℚ
  capacity : ℚ
  rate_pos : 0 < rate
  capacity_pos : 0 < capacity

/-- `_tokens` and `_last`. -/
structure TokenBucket (cfg : Limits) where
  tokens : ℚ
  last : ℚ
  tokens_nonneg : 0 ≤ tokens
  tokens_le : tokens ≤ cfg.capacity

/-- What `acquire` asks for once it has passed its checks. -/
structure Request (cfg : Limits) where
  tokens : ℚ
  tokens_pos : 0 < tokens
  tokens_le : tokens ≤ cfg.capacity

/-- The checks of `__init__`. -/
def limits (ratePerSecond : ℚ) (capacity : Option ℚ) : Except LimiterError Limits :=
  if hrate : ratePerSecond ≤ 0 then .error .rateNotPositive
  else if hcapacity : capacity.getD (max ratePerSecond 1) ≤ 0 then .error .capacityNotPositive
  else .ok ⟨ratePerSecond, capacity.getD (max ratePerSecond 1), not_le.mp hrate,
    not_le.mp hcapacity⟩

variable {cfg : Limits}

namespace TokenBucket

/-- The bucket that `__init__` leaves. -/
def new (cfg : Limits) (now : ℚ) : TokenBucket cfg :=
  ⟨cfg.capacity, now, le_of_lt cfg.capacity_pos, le_refl _⟩

/-- `_refill()`. -/
def refill (now : ℚ) (b : TokenBucket cfg) : TokenBucket cfg :=
  if h : 0 < now - b.last then
    { tokens := min cfg.capacity (b.tokens + (now - b.last) * cfg.rate)
      last := now
      tokens_nonneg := le_min (le_of_lt cfg.capacity_pos)
        (add_nonneg b.tokens_nonneg (mul_nonneg (le_of_lt h) (le_of_lt cfg.rate_pos)))
      tokens_le := min_le_left _ _ }
  else b

/-- A lock section of `acquire`: the seconds to wait, or `none` when it has taken the tokens. -/
def lockSection (r : Request cfg) (now : ℚ) (b : TokenBucket cfg) : TokenBucket cfg × Option ℚ :=
  let b' := b.refill now
  if h : r.tokens ≤ b'.tokens then
    ({ b' with
        tokens := b'.tokens - r.tokens
        tokens_nonneg := sub_nonneg.mpr h
        tokens_le := le_trans (sub_le_self _ (le_of_lt r.tokens_pos)) b'.tokens_le }, none)
  else
    let deficit := r.tokens - b'.tokens
    (b', some (deficit / cfg.rate))

end TokenBucket

/-- The checks of `acquire(tokens)`. -/
def checkTokens (cfg : Limits) (tokens : ℚ) : Except LimiterError (Request cfg) :=
  if hpos : tokens ≤ 0 then .error .tokensNotPositive
  else if hle : cfg.capacity < tokens then .error (.overCapacity tokens cfg.capacity)
  else .ok ⟨tokens, not_le.mp hpos, not_lt.mp hle⟩

/-! ## The callers -/

/-- Tokens that a caller has got, and the clock reading of the section that granted them. -/
structure Grant where
  caller : ℕ
  tokens : ℚ
  time : ℚ
deriving DecidableEq

/-- The bucket, what the sleeping callers ask for, and the grants so far. -/
structure Limiter (cfg : Limits) where
  bucket : TokenBucket cfg
  sleeping : ℕ → Option (Request cfg)
  grants : List Grant

/-- What a caller does next, and what the clock says then. -/
inductive Turn where
  /-- `acquire(tokens)`, up to the end of its first section. -/
  | call (caller : ℕ) (tokens now : ℚ)
  /-- The sleep is over: the next section. -/
  | wake (caller : ℕ) (now : ℚ)

namespace Turn

def caller : Turn → ℕ
  | call caller _ _ => caller
  | wake caller _ => caller

def now : Turn → ℚ
  | call _ _ now => now
  | wake _ now => now

end Turn

namespace Limiter

/-- Nobody has called yet. -/
def start (b : TokenBucket cfg) : Limiter cfg := ⟨b, fun _ => none, []⟩

/-- A caller goes through the section. -/
def enter (caller : ℕ) (r : Request cfg) (now : ℚ) (s : Limiter cfg) : Limiter cfg :=
  match s.bucket.lockSection r now with
  | (b, none) =>
    ⟨b, Function.update s.sleeping caller none, s.grants ++ [⟨caller, r.tokens, now⟩]⟩
  | (b, some _) => ⟨b, Function.update s.sleeping caller (some r), s.grants⟩

/-- One turn. A caller that sleeps does not call, and one that does not sleep does not wake. -/
def step (s : Limiter cfg) (turn : Turn) : Limiter cfg :=
  match turn, s.sleeping turn.caller with
  | .call caller tokens now, none =>
    match checkTokens cfg tokens with
    | .error _ => s
    | .ok r => s.enter caller r now
  | .wake caller now, some r => s.enter caller r now
  | _, _ => s

end Limiter

/-- The tokens granted between `s` and `t`. -/
def grantedIn (s t : ℚ) (grants : List Grant) : ℚ :=
  ((grants.filter fun g => s ≤ g.time ∧ g.time ≤ t).map Grant.tokens).sum

/-- The clock readings of the turns do not go back, from the reading `start` on. -/
def ClockRuns (start : ℚ) (turns : List Turn) : Prop :=
  (start :: turns.map Turn.now).Pairwise (· ≤ ·)

/-! ## The bucket as an account -/

/-- The level of the bucket and its last refill. -/
def TokenBucket.account (b : TokenBucket cfg) : Account ℚ := ⟨b.tokens, b.last⟩

theorem refill_account (now : ℚ) (b : TokenBucket cfg) :
    (b.refill now).account = b.account.fill cfg.rate cfg.capacity now := by
  unfold TokenBucket.refill Account.fill
  by_cases h : 0 < now - b.last
  · rw [dif_pos h]
    exact (if_pos h).symm
  · rw [dif_neg h]
    exact (if_neg h).symm

theorem refill_tokens {now : ℚ} {b : TokenBucket cfg} (h : b.last ≤ now) :
    (b.refill now).tokens = min cfg.capacity (b.tokens + (now - b.last) * cfg.rate) := by
  have hlevel : (b.account.fill cfg.rate cfg.capacity now).level =
      min cfg.capacity (b.tokens + (now - b.last) * cfg.rate) := fill_level h b.tokens_le
  rw [← refill_account] at hlevel
  exact hlevel

/-- What a section draws, as a visit. -/
def sectionVisit (r : Request cfg) (now : ℚ) (b : TokenBucket cfg) : Visit ℚ :=
  ⟨now, if r.tokens ≤ (b.refill now).tokens then r.tokens else 0⟩

theorem lockSection_account (r : Request cfg) (now : ℚ) (b : TokenBucket cfg) :
    (b.lockSection r now).1.account =
      b.account.visit cfg.rate cfg.capacity (sectionVisit r now b) := by
  unfold Account.visit sectionVisit
  dsimp only
  rw [← refill_account]
  unfold TokenBucket.lockSection
  dsimp only
  split
  · rfl
  · rw [sub_zero]

theorem covers_sectionVisit (r : Request cfg) {now : ℚ} {b : TokenBucket cfg} (h : b.last ≤ now) :
    b.account.Covers cfg.rate cfg.capacity (sectionVisit r now b) := by
  unfold Account.Covers sectionVisit
  dsimp only
  rw [← refill_account]
  refine ⟨h, ?_, ?_⟩
  · split
    · exact le_of_lt r.tokens_pos
    · exact le_refl _
  · split
    · next hle => exact hle
    · exact (b.refill now).tokens_nonneg

theorem lockSection_last (r : Request cfg) {now : ℚ} {b : TokenBucket cfg} (h : b.last ≤ now) :
    (b.lockSection r now).1.last = now := by
  have hvisit := visit_last (covers_sectionVisit r h)
  rw [← lockSection_account] at hvisit
  exact hvisit

theorem lockSection_granted_iff (r : Request cfg) (now : ℚ) (b : TokenBucket cfg) :
    (b.lockSection r now).2 = none ↔ r.tokens ≤ (b.refill now).tokens := by
  unfold TokenBucket.lockSection
  dsimp only
  split
  · next h => exact iff_of_true rfl h
  · next h => exact iff_of_false (by simp) h

theorem wait_of_lockSection {r : Request cfg} {now wait : ℚ} {b : TokenBucket cfg}
    (h : (b.lockSection r now).2 = some wait) :
    wait = (r.tokens - (b.refill now).tokens) / cfg.rate ∧ (b.lockSection r now).1 = b.refill now := by
  unfold TokenBucket.lockSection at h ⊢
  dsimp only at h ⊢
  split at h
  · cases h
  · next hlt =>
    rw [dif_neg hlt]
    exact ⟨(Option.some.inj h).symm, rfl⟩

/-! ## One turn -/

theorem enter_bucket (caller : ℕ) (r : Request cfg) (now : ℚ) (s : Limiter cfg) :
    (s.enter caller r now).bucket = (s.bucket.lockSection r now).1 := by
  unfold Limiter.enter
  split
  · next b h => rw [h]
  · next b wait h => rw [h]

theorem enter_granted {caller : ℕ} {r : Request cfg} {now : ℚ} {s : Limiter cfg}
    (h : (s.bucket.lockSection r now).2 = none) :
    (s.enter caller r now).grants = s.grants ++ [⟨caller, r.tokens, now⟩] := by
  unfold Limiter.enter
  split
  · rfl
  · next b wait hsection =>
    rw [hsection] at h
    cases h

theorem enter_waits {caller : ℕ} {r : Request cfg} {now wait : ℚ} {s : Limiter cfg}
    (h : (s.bucket.lockSection r now).2 = some wait) :
    (s.enter caller r now).grants = s.grants ∧
      (s.enter caller r now).sleeping = Function.update s.sleeping caller (some r) := by
  unfold Limiter.enter
  split
  · next b hsection =>
    rw [hsection] at h
    cases h
  · exact ⟨rfl, rfl⟩

theorem enter_sleeping_of_ne {caller other : ℕ} (r : Request cfg) (now : ℚ) (s : Limiter cfg)
    (h : other ≠ caller) : (s.enter caller r now).sleeping other = s.sleeping other := by
  unfold Limiter.enter
  split
  · exact Function.update_of_ne h _ _
  · exact Function.update_of_ne h _ _

/-- A turn does nothing, or its caller goes through the section. -/
theorem step_cases (s : Limiter cfg) (turn : Turn) :
    s.step turn = s ∨ ∃ r, s.step turn = s.enter turn.caller r turn.now := by
  unfold Limiter.step
  split
  · split
    · exact .inl rfl
    · next r _ => exact .inr ⟨r, rfl⟩
  · next r _ => exact .inr ⟨r, rfl⟩
  · exact .inl rfl

theorem step_wake {caller : ℕ} {now : ℚ} {r : Request cfg} {s : Limiter cfg}
    (h : s.sleeping caller = some r) : s.step (.wake caller now) = s.enter caller r now := by
  unfold Limiter.step
  simp only [Turn.caller, h]

/-- A caller that asks for too much is turned away, and nothing changes. -/
theorem checkTokens_of_lt {tokens : ℚ} (h : cfg.capacity < tokens) :
    checkTokens cfg tokens = .error (.overCapacity tokens cfg.capacity) := by
  unfold checkTokens
  have hpos : ¬ tokens ≤ 0 := not_le.mpr (lt_trans cfg.capacity_pos h)
  rw [dif_neg hpos, dif_pos h]

/-! ## Runs -/

theorem clockRuns_cons {start : ℚ} {turn : Turn} {turns : List Turn}
    (h : ClockRuns start (turn :: turns)) : start ≤ turn.now ∧ ClockRuns turn.now turns := by
  unfold ClockRuns at h
  rw [List.map_cons, List.pairwise_cons] at h
  exact ⟨h.1 turn.now List.mem_cons_self, h.2⟩

theorem ClockRuns.mono {start start' : ℚ} {turns : List Turn} (h : ClockRuns start' turns)
    (hle : start ≤ start') : ClockRuns start turns := by
  unfold ClockRuns at h ⊢
  rw [List.pairwise_cons] at h ⊢
  exact ⟨fun t ht => le_trans hle (h.1 t ht), h.2⟩

/-- The last refill is not later than the readings. -/
theorem last_after_le {bound : ℚ} (turns : List Turn) :
    ∀ s : Limiter cfg, ClockRuns s.bucket.last turns → s.bucket.last ≤ bound →
      (∀ turn ∈ turns, turn.now ≤ bound) → (after Limiter.step s turns).bucket.last ≤ bound := by
  induction turns with
  | nil => exact fun _ _ h _ => h
  | cons turn turns ih =>
    intro s hclock hlast hbound
    obtain ⟨hfirst, hrest⟩ := clockRuns_cons hclock
    have hbounds := List.forall_mem_cons.mp hbound
    rw [after_cons]
    obtain hsame | ⟨r, henter⟩ := step_cases s turn
    · rw [hsame]
      exact ih s (hrest.mono hfirst) hlast hbounds.2
    · have hnow : (s.enter turn.caller r turn.now).bucket.last = turn.now := by
        rw [enter_bucket]
        exact lockSection_last r hfirst
      rw [henter]
      exact ih _ (by rw [hnow]; exact hrest) (by rw [hnow]; exact hbounds.1) hbounds.2

theorem grantedIn_append (t t' : ℚ) (grants grants' : List Grant) :
    grantedIn t t' (grants ++ grants') = grantedIn t t' grants + grantedIn t t' grants' := by
  unfold grantedIn
  rw [List.filter_append, List.map_append, List.sum_append]

/-- What a section draws is what it grants. -/
theorem enter_grants (caller : ℕ) (r : Request cfg) (now : ℚ) (s : Limiter cfg) :
    ∃ grants, (s.enter caller r now).grants = s.grants ++ grants ∧
      (∀ t t', grantedIn t t' grants = drawnIn t t' [sectionVisit r now s.bucket]) ∧
      (grants = [] → (sectionVisit r now s.bucket).drawn = 0) := by
  by_cases hle : r.tokens ≤ (s.bucket.refill now).tokens
  · have hdraws : (sectionVisit r now s.bucket).drawn = r.tokens := if_pos hle
    refine ⟨[⟨caller, r.tokens, now⟩],
      enter_granted ((lockSection_granted_iff r now s.bucket).mpr hle), fun t t' => ?_,
      fun h => nomatch h⟩
    by_cases hin : t ≤ now ∧ now ≤ t'
    · rw [drawnIn_cons_of_mem hin.1 hin.2, hdraws]
      unfold grantedIn
      rw [List.filter_cons_of_pos (by simpa using hin)]
      rfl
    · rw [drawnIn_cons_of_notMem hin]
      unfold grantedIn
      rw [List.filter_cons_of_neg (by simpa using hin)]
      rfl
  · have hdraws : (sectionVisit r now s.bucket).drawn = 0 := if_neg hle
    obtain ⟨wait, hwait⟩ : ∃ wait, (s.bucket.lockSection r now).2 = some wait := by
      rw [← Option.ne_none_iff_exists']
      exact fun h => hle ((lockSection_granted_iff r now s.bucket).mp h)
    refine ⟨[], by rw [(enter_waits hwait).1, List.append_nil], fun t t' => ?_, fun _ => hdraws⟩
    by_cases hin : t ≤ now ∧ now ≤ t'
    · rw [drawnIn_cons_of_mem hin.1 hin.2, hdraws, zero_add]
      rfl
    · rw [drawnIn_cons_of_notMem hin]
      rfl

/-- What the sections of a run draw, one visit for each of them: the grants of the run, and nothing
    where a caller is sent to sleep. -/
theorem exists_visits (turns : List Turn) :
    ∀ s : Limiter cfg, ClockRuns s.bucket.last turns →
      ∃ visits, Steps (Account.Covers cfg.rate cfg.capacity) (Account.visit cfg.rate cfg.capacity)
          s.bucket.account visits ∧
        after (Account.visit cfg.rate cfg.capacity) s.bucket.account visits =
          (after Limiter.step s turns).bucket.account ∧
        ∃ grants, (after Limiter.step s turns).grants = s.grants ++ grants ∧
          (∀ t t', grantedIn t t' grants = drawnIn t t' visits) ∧
          (grants = [] → ∀ v ∈ visits, v.drawn = 0) := by
  induction turns with
  | nil =>
    intro s _
    exact ⟨[], trivial, rfl, [], (List.append_nil _).symm, fun _ _ => rfl, fun _ _ hv => nomatch hv⟩
  | cons turn turns ih =>
    intro s hclock
    replace hclock := clockRuns_cons hclock
    rw [after_cons]
    obtain hsame | ⟨r, henter⟩ := step_cases s turn
    · rw [hsame]
      exact ih s (hclock.2.mono hclock.1)
    · rw [henter]
      have hbucket := enter_bucket turn.caller r turn.now s
      have hlast : (s.enter turn.caller r turn.now).bucket.last = turn.now := by
        rw [hbucket]
        exact lockSection_last r hclock.1
      obtain ⟨granted, hgranted, hdraws, hnothing⟩ := enter_grants turn.caller r turn.now s
      obtain ⟨visits, hsteps, hafter, grants, hgrants, hdrawn, hzero⟩ :=
        ih (s.enter turn.caller r turn.now) (by rw [hlast]; exact hclock.2)
      have hvisit : s.bucket.account.visit cfg.rate cfg.capacity
          (sectionVisit r turn.now s.bucket) = (s.enter turn.caller r turn.now).bucket.account := by
        rw [hbucket]
        exact (lockSection_account r turn.now s.bucket).symm
      refine ⟨[sectionVisit r turn.now s.bucket] ++ visits,
        ⟨covers_sectionVisit r hclock.1, by rw [hvisit]; exact hsteps⟩,
        by rw [List.singleton_append, after_cons, hvisit]; exact hafter, granted ++ grants, ?_, ?_, ?_⟩
      · rw [hgrants, hgranted, List.append_assoc]
      · intro t t'
        rw [grantedIn_append, drawnIn_append, hdraws, hdrawn]
      · intro hnil v hv
        rw [List.append_eq_nil_iff] at hnil
        obtain hv | hv := List.mem_append.mp hv
        · rw [List.mem_singleton.mp hv]
          exact hnothing hnil.1
        · exact hzero hnil.2 v hv

/-- Others do not wake a caller. -/
theorem sleeping_after {caller : ℕ} (turns : List Turn) :
    ∀ s : Limiter cfg, (∀ turn ∈ turns, turn.caller ≠ caller) →
      (after Limiter.step s turns).sleeping caller = s.sleeping caller := by
  induction turns with
  | nil => exact fun _ _ => rfl
  | cons turn turns ih =>
    intro s hothers
    rw [after_cons, ih _ fun other h => hothers other (List.mem_cons_of_mem _ h)]
    obtain hsame | ⟨r, henter⟩ := step_cases s turn
    · rw [hsame]
    · rw [henter]
      exact enter_sleeping_of_ne r turn.now s (hothers turn List.mem_cons_self).symm

/-- Turns that grant nothing leave no trace: the level at a later check is what it would be if nobody
    had come. -/
theorem refill_after_idle {between : List Turn} {s : Limiter cfg} {now : ℚ}
    (hrun : ClockRuns s.bucket.last between)
    (hlater : ∀ t ∈ s.bucket.last :: between.map Turn.now, t ≤ now)
    (hgrants : (after Limiter.step s between).grants = s.grants) :
    ((after Limiter.step s between).bucket.refill now).tokens = (s.bucket.refill now).tokens := by
  obtain ⟨visits, hsteps, hafter, grants, hsum, -, hzero⟩ := exists_visits between s hrun
  have hnil : grants = [] := by
    rw [hgrants] at hsum
    exact List.append_right_eq_self.mp hsum.symm
  have hend : (after (Account.visit cfg.rate cfg.capacity) s.bucket.account visits).last ≤ now := by
    rw [hafter]
    apply last_after_le between s hrun (hlater _ List.mem_cons_self)
    intro turn hturn
    exact hlater turn.now (List.mem_cons_of_mem _ (List.mem_map_of_mem hturn))
  have hlevel := fill_after_of_drawn_zero (le_of_lt cfg.rate_pos) s.bucket.tokens_le hsteps
    (hzero hnil) hend
  rw [hafter, ← refill_account, ← refill_account] at hlevel
  exact hlevel

/-- The computed time fills the bucket up to what was asked for. -/
theorem tokens_le_of_slept {r : Request cfg} {now wait now' : ℚ} {b : TokenBucket cfg}
    (hwait : (b.lockSection r now).2 = some wait) (hlast : (b.refill now).last = now)
    (hnow : now ≤ now') (hslept : now + wait ≤ now') :
    r.tokens ≤ ((b.refill now).refill now').tokens := by
  have hgain : r.tokens - (b.refill now).tokens ≤ (now' - now) * cfg.rate := by
    apply (div_le_iff₀ cfg.rate_pos).mp
    rw [← (wait_of_lockSection hwait).1]
    linarith
  rw [refill_tokens (le_of_eq_of_le hlast hnow), hlast]
  apply le_min r.tokens_le
  linarith

/-- Whoever has slept the computed time gets the tokens, if nobody else has got any meanwhile. -/
theorem granted_after_wait {r : Request cfg} {caller : ℕ} {now wait now' : ℚ} {s : Limiter cfg}
    {between : List Turn} (hnow : s.bucket.last ≤ now)
    (hwait : (s.bucket.lockSection r now).2 = some wait)
    (hclock : ClockRuns now (between ++ [.wake caller now']))
    (hgrants : (after Limiter.step (s.enter caller r now) between).grants = s.grants)
    (hslept : now + wait ≤ now') :
    ((after Limiter.step (s.enter caller r now) between).bucket.lockSection r now').2 = none := by
  have hbucket : (s.enter caller r now).bucket = s.bucket.refill now := by
    rw [enter_bucket, (wait_of_lockSection hwait).2]
  have hlast : (s.enter caller r now).bucket.last = now := by
    rw [enter_bucket]
    exact lockSection_last r hnow
  unfold ClockRuns at hclock
  rw [List.map_append, ← List.cons_append, List.pairwise_append] at hclock
  have hrun : ClockRuns (s.enter caller r now).bucket.last between := by
    rw [hlast]
    exact hclock.1
  have hlater : ∀ t ∈ now :: between.map Turn.now, t ≤ now' := fun t ht =>
    hclock.2.2 t ht now' (List.mem_singleton.mpr rfl)
  have hlater' : ∀ t ∈ (s.enter caller r now).bucket.last :: between.map Turn.now, t ≤ now' := by
    rwa [hlast]
  have hidle := refill_after_idle hrun hlater' (by rw [hgrants, (enter_waits hwait).1])
  rw [hbucket] at hlast hidle
  rw [lockSection_granted_iff, hidle]
  exact tokens_le_of_slept hwait hlast (hlater now List.mem_cons_self) hslept

/-! ## The limit -/

/-- For every rate and capacity, every order of turns of any number of callers and all clock
    readings that do not go back: the level stays between zero and the capacity; in no window of
    time more is granted than the capacity and what flows in during the window; a request above the
    capacity is turned away and changes nothing; and a caller that has slept the computed time is
    granted its tokens at the next check, if nobody else has been granted any meanwhile. -/
theorem rate_limited (cfg : Limits) (b : TokenBucket cfg) (turns : List Turn)
    (hclock : ClockRuns b.last turns) :
    let s := after Limiter.step (.start b) turns
    (0 ≤ s.bucket.tokens ∧ s.bucket.tokens ≤ cfg.capacity) ∧
      (∀ t t', t ≤ t' → grantedIn t t' s.grants ≤ cfg.capacity + cfg.rate * (t' - t)) ∧
      (∀ caller tokens now, cfg.capacity < tokens →
        checkTokens cfg tokens = .error (.overCapacity tokens cfg.capacity) ∧
          s.step (.call caller tokens now) = s) ∧
      (∀ (r : Request cfg) (caller : ℕ) (now wait now' : ℚ) (between : List Turn),
        s.bucket.last ≤ now → (s.bucket.lockSection r now).2 = some wait →
        (∀ turn ∈ between, turn.caller ≠ caller) →
        ClockRuns now (between ++ [.wake caller now']) →
        (after Limiter.step (s.enter caller r now) between).grants = s.grants →
        now + wait ≤ now' →
        (after Limiter.step (s.enter caller r now) (between ++ [.wake caller now'])).grants =
          s.grants ++ [⟨caller, r.tokens, now'⟩]) := by
  intro s
  refine ⟨⟨s.bucket.tokens_nonneg, s.bucket.tokens_le⟩, ?_, ?_, ?_⟩
  · intro t t' htt'
    obtain ⟨visits, hsteps, -, grants, hgrants, hdrawn, -⟩ := exists_visits turns (.start b) hclock
    have hlog : s.grants = grants := hgrants
    rw [hlog, hdrawn]
    exact drawnIn_le (le_of_lt cfg.rate_pos) b.tokens_le (le_of_lt cfg.capacity_pos) htt' hsteps
  · intro caller tokens now hover
    have hcheck := checkTokens_of_lt hover
    refine ⟨hcheck, ?_⟩
    unfold Limiter.step
    split
    · next tokens' _ heq _ =>
      obtain ⟨-, rfl, -⟩ := Turn.call.inj heq
      rw [hcheck]
    · next heq _ => cases heq
    · rfl
  · intro r caller now wait now' between hnow hwait hothers hclock' hgrants hslept
    have hsleeping : (after Limiter.step (s.enter caller r now) between).sleeping caller = some r := by
      rw [sleeping_after between _ hothers, (enter_waits hwait).2, Function.update_self]
    have hgranted := granted_after_wait hnow hwait hclock' hgrants hslept
    rw [after_append, after_cons, after_nil]
    rw [step_wake hsleeping, enter_granted hgranted, hgrants]

/-- Two tokens a second, one at a time. -/
def pairLimits : Limits := ⟨2, 1, by norm_num, by norm_num⟩

/-- Two callers at time 0: the second one sleeps half a second. -/
def pairTurns : List Turn := [.call 0 1 0, .call 1 1 0, .wake 1 (1 / 2)]

theorem rate_limited_pair :
    grantedIn 0 (1 / 2) (after Limiter.step (.start (.new pairLimits 0)) pairTurns).grants ≤
      pairLimits.capacity + pairLimits.rate * (1 / 2 - 0) := by
  have hclock : ClockRuns 0 pairTurns := by
    unfold ClockRuns pairTurns
    simp [Turn.now]
  exact (rate_limited pairLimits (.new pairLimits 0) pairTurns hclock).2.1 0 (1 / 2) (by norm_num)

end TraxMania.Ingestion.RateLimit
