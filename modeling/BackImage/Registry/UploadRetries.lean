/- source: pkg/registry/push.go
  digest: Which failed attempts of an upload are tried again, with the waits between them. -/

import BackImage.Go.Text

namespace BackImage.Registry.UploadRetries

open Go.Text

def second : Int64 := 1000000000

def digits : Str → Option Nat
 | [] => none
 | s =>
  if s.all fun c => 48 ≤ c && c ≤
   57 then some (s.foldl (fun n c => 10 * n + (c.toNat - 48)) 0) else none

def atoi (s : Str) : Option Int64 :=
 match s with
 | 45 :: rest => (digits rest).bind fun n => if n ≤ 2 ^ 63 then some (Int64.ofInt (-n)) else none
 | 43 :: rest => (digits rest).bind fun n => if n < 2 ^ 63 then some (Int64.ofNat n) else none
 | s => (digits s).bind fun n => if n < 2 ^ 63 then some (Int64.ofNat n) else none

def retryAfterFrom (header : Str) : Int64 :=
 if header = [] then 0
 else
  match atoi header with
  | none => 0
  | some secs => if 0 ≤ secs then secs * second else 0

def doubled (attempt : Nat) : Int64 := Int64.ofNat (2 ^ attempt) * second

def backoffDelay (attempt : Nat) (draw : Int64) : Option Int64 :=
 let d := if 16 * second < doubled attempt then 16 * second else doubled attempt
 if d / 4 ≤ 0 then none else some (d + draw)

/-- How one `doUpload` ends: well, with an error that is no `httpError`, or with an `httpError` of
this code and this `Retry-After`. Code 0, for an empty upload location, is no status of a
response. -/
inductive Outcome
 | success
 | noStatus (cause : Str)
 | status (code : Nat) (retryAfter : Str)
 deriving DecidableEq

/-- How `uploadWithRetries` ends. -/
inductive Ending
 | returned
 | interrupted
 | refused (last : Outcome)
 | givingUp (attempts : Nat) (last : Outcome)
 | panicked
 deriving DecidableEq

structure Surroundings where
 draws : Nat → Int64
 cancelled : Nat → Bool

inductive Move
 | again (wait : Int64)
 | ended (ending : Ending)
 deriving DecidableEq

def judge (attempt : Nat) (draw wait : Int64) : Outcome → Move
 | .success => .ended .returned
 | .noStatus _ => .again wait
 | .status code header =>
  if code = 403 then .ended (.refused (.status code header))
  else if code = 429 ∧ 0 < retryAfterFrom header then .again (retryAfterFrom header)
  else if 500 ≤ code then
   match backoffDelay attempt draw with
   | none => .ended .panicked
   | some delay => .again delay
  else .ended (.refused (.status code header))

def uploadLoop (outcomes : Nat → Outcome) (s : Surroundings) : Nat → Nat → Int64 → Outcome →
  Nat × Ending
 | 0, attempt, _, last => (attempt, .givingUp attempt last)
 | left + 1, attempt, wait, _ =>
  if 0 < wait ∧ s.cancelled attempt = true then (attempt, .interrupted)
  else
   match judge attempt (s.draws attempt) wait (outcomes attempt) with
   | .ended ending => (attempt + 1, ending)
   | .again wait => uploadLoop outcomes s left (attempt + 1) wait (outcomes attempt)

def uploadWithRetries (maxRetries : Nat) (outcomes : Nat → Outcome) (s : Surroundings) :
  Nat × Ending :=
 uploadLoop outcomes s (maxRetries + 1) 0 0 .success

/-- The attempt goes on to another one: no status, a server error whose delay can be drawn, or a
rate limit that says how long to wait. -/
def GoesOn (attempt : Nat) : Outcome → Prop
 | .success => False
 | .noStatus _ => True
 | .status code header => code = 429 ∧ 0 < retryAfterFrom header ∨ 500 ≤ code ∧ 0 < doubled attempt

/-- The attempt failed without an HTTP status, with a server error or with a rate limit. -/
def Retryable : Outcome → Prop
 | .success => False
 | .noStatus _ => True
 | .status code _ => code = 0 ∨ 500 ≤ code ∨ code = 429

/-- The upload location was not empty, and the wait before the next attempt can be told: a rate
limit has a `Retry-After` of at least a second, and a doubled delay has not wrapped. -/
def Paced (attempt : Nat) : Outcome → Prop
 | .success => True
 | .noStatus _ => True
 | .status code header =>
  code ≠ 0 ∧ (code = 429 → 0 < retryAfterFrom header) ∧ (500 ≤ code → 0 < doubled attempt)

theorem goesOn_iff {attempt : Nat} {o : Outcome} : GoesOn attempt o ↔ Retryable o ∧
  Paced attempt o := by
 cases o with
 | success => simp [GoesOn, Retryable]
 | noStatus cause => simp [GoesOn, Retryable, Paced]
 | status code header =>
  unfold GoesOn Retryable Paced
  constructor
  · rintro (⟨limited, wait⟩ | ⟨server, delay⟩)
    · exact ⟨.inr (.inr limited), by omega, fun _ => wait, fun server => by omega⟩
    · exact ⟨.inr (.inl server), by omega, fun limited => by omega, fun _ => delay⟩
  · rintro ⟨empty | server | limited, located, wait, delay⟩
    · exact absurd empty located
    · exact .inr ⟨server, delay server⟩
    · exact .inl ⟨limited, wait limited⟩

theorem four_dvd_doubled (attempt : Nat) : (4 : Int) ∣ (doubled attempt).toInt := by
 have whole : (4 : Int) ∣ ((2 ^ attempt : Nat) : Int) * 1000000000 :=
  Int.dvd_trans (by decide) (Int.dvd_mul_left _ _)
 have value : (doubled attempt).toInt =
   (((2 ^ attempt : Nat) : Int) * 1000000000).bmod (2 ^ 64) := by
  unfold doubled second
  rw [Int64.toInt_mul, Int64.toInt_ofNat', Int.bmod_mul_bmod]
  rfl
 obtain ⟨quarter, is⟩ := whole
 rw [value, is, Int.bmod_def]
 split <;> omega

theorem backoffDelay_eq_none_iff {attempt : Nat} {draw : Int64} :
  backoffDelay attempt draw = none ↔ ¬ 0 < doubled attempt := by
 obtain ⟨quarter, is⟩ := four_dvd_doubled attempt
 unfold backoffDelay
 dsimp only
 by_cases capped : 16 * second < doubled attempt
 · have positive : ¬ 16 * second / 4 ≤ 0 := by decide
   have below : (0 : Int64) < 16 * second := by decide
   rw [if_pos capped, if_neg positive]
   simp [Int64.lt_trans below capped]
 · have four : (4 : Int64).toInt = 4 := by decide
   have division : (doubled attempt / 4).toInt = quarter := by
    rw [Int64.toInt_div_of_ne_right _ _ (by decide), four, is,
     Int.mul_tdiv_cancel_left _ (by decide)]
   rw [if_neg capped, ite_eq_left_iff]
   simp only [reduceCtorEq, imp_false, not_not, Int64.le_iff_toInt_le, Int64.lt_iff_toInt_lt,
    division, is,
    Int64.toInt_zero]
   omega

section Loop

variable {outcomes : Nat → Outcome} {draws : Nat → Int64}

def steady (draws : Nat → Int64) : Surroundings := ⟨draws, fun _ => false⟩

theorem judge_spec (attempt : Nat) (draw wait : Int64) (o : Outcome) :
  (∃ wait', judge attempt draw wait o = .again wait' ∧ GoesOn attempt o) ∨
   ∃ ending, judge attempt draw wait o = .ended ending ∧ ¬ GoesOn attempt o ∧
    (ending = .returned ↔ o = .success) := by
 cases o with
 | success => exact .inr ⟨.returned, rfl, not_false, by simp⟩
 | noStatus cause => exact .inl ⟨wait, rfl, trivial⟩
 | status code header =>
  rw [judge, GoesOn]
  split
  · exact .inr ⟨_, rfl, by omega, by simp⟩
  · split
    · rename_i limited
      exact .inl ⟨_, rfl, .inl limited⟩
    · rename_i unlimited
      rw [or_iff_right unlimited]
      split
      · rename_i server
        split
        · rename_i wrapped
          exact .inr ⟨_, rfl, fun both => backoffDelay_eq_none_iff.mp wrapped both.2, by simp⟩
        · rename_i delay drawn
          refine .inl ⟨delay, rfl, server, ?_⟩
          by_contra wrapped
          rw [backoffDelay_eq_none_iff.mpr wrapped] at drawn
          cases drawn
      · rename_i other
        exact .inr ⟨_, rfl, fun both => other both.1, by simp⟩

structure Run (outcomes : Nat → Outcome) (left attempt : Nat) (run : Nat × Ending) : Prop where
 bounded : run.1 ≤ attempt + left
 goesOn : ∀ j, attempt ≤ j → j + 1 < run.1 → GoesOn j (outcomes j)
 returns : run.2 = .returned ↔ ∃ k, attempt ≤ k ∧ k < attempt + left ∧ outcomes k = .success ∧
  ∀ j, attempt ≤ j → j < k → GoesOn j (outcomes j)

theorem run_of_loop (left attempt : Nat) (wait : Int64) (last : Outcome) :
  Run outcomes left attempt (uploadLoop outcomes (steady draws) left attempt wait last) := by
 induction left generalizing attempt wait last with
 | zero =>
  refine ⟨Nat.le_refl _, fun j from_here made => absurd made (by simp [uploadLoop]; omega), ?_⟩
  simp only [uploadLoop, reduceCtorEq, false_iff]
  rintro ⟨k, from_here, before, -⟩
  omega
 | succ left ih =>
  rw [uploadLoop, if_neg (by simp [steady])]
  rcases judge_spec attempt ((steady draws).draws attempt) wait (outcomes attempt) with
   ⟨wait', again, failed⟩ | ⟨ending, ended, final, success⟩
  · rw [again]
    dsimp only
    obtain ⟨bounded, goesOn, returns⟩ := ih (attempt + 1) wait' (outcomes attempt)
    have from_next : ∀ n, (∀ j, attempt + 1 ≤ j → j < n → GoesOn j (outcomes j)) →
      ∀ j, attempt ≤ j → j < n → GoesOn j (outcomes j) := by
     intro n later j from_here before
     by_cases here : j = attempt
     · rw [here]
       exact failed
     · exact later j (by omega) before
    refine ⟨by omega, ?_, ?_⟩
    · intro j from_here made
      exact from_next _ (fun i later before => goesOn i later (Nat.add_lt_of_lt_sub before)) j
       from_here
       (Nat.lt_sub_of_add_lt made)
    · rw [returns]
      constructor
      · rintro ⟨k, later, before, well, all⟩
        exact ⟨k, by omega, by omega, well, from_next k all⟩
      · rintro ⟨k, from_here, before, well, all⟩
        have later : k ≠ attempt := by
         rintro rfl
         rw [well] at failed
         exact failed
        exact ⟨k, by omega, by omega, well, fun j after earlier => all j (by omega) earlier⟩
  · rw [ended]
    dsimp only
    refine ⟨by dsimp only; omega, fun j from_here made => by dsimp only at made; omega, ?_⟩
    dsimp only
    rw [success]
    constructor
    · intro well
      exact ⟨attempt, Nat.le_refl _, by omega, well, fun j from_here before => by omega⟩
    · rintro ⟨k, from_here, -, well, all⟩
      by_cases here : k = attempt
      · rw [← here]
        exact well
      · exact absurd (all attempt (Nat.le_refl _) (by omega)) final

end Loop

/-- An upload returns without an error exactly after a success behind failures worth another
attempt, makes no attempt behind anything else, and makes at most one attempt more than it may
retry. -/
structure RetryPolicy (maxRetries : Nat) (outcomes : Nat → Outcome) (run : Nat × Ending) :
  Prop where
 returns : run.2 = .returned ↔
  ∃ k ≤ maxRetries, outcomes k = .success ∧ ∀ j < k, Retryable (outcomes j)
 stops : ∀ j, j + 1 < run.1 → Retryable (outcomes j)
 bounded : run.1 ≤ maxRetries + 1

/-- The policy is met exactly if no failure in front of a success is an empty upload location, and
the waits behind those failures can all be told. -/
theorem retry_policy_iff (maxRetries : Nat) (outcomes : Nat → Outcome) (draws : Nat → Int64) :
  RetryPolicy maxRetries outcomes (uploadWithRetries maxRetries outcomes (steady draws)) ↔
   ∀ k ≤ maxRetries, outcomes k = .success → (∀ j < k, Retryable (outcomes j)) →
    ∀ j < k, Paced j (outcomes j) := by
 obtain ⟨bounded, goesOn, returns⟩ :
  Run outcomes (maxRetries + 1) 0 (uploadWithRetries maxRetries outcomes (steady draws)) :=
   run_of_loop _ _ _ _
 have stops : ∀ j, j + 1 < (uploadWithRetries maxRetries outcomes (steady draws)).1 →
  Retryable (outcomes j) :=
  fun j made => (goesOn_iff.mp (goesOn j (Nat.zero_le j) made)).1
 constructor
 · rintro ⟨policy, -, -⟩ k within well retryable j earlier
   have returned := policy.mpr ⟨k, within, well, retryable⟩
   obtain ⟨k', -, -, well', all⟩ := returns.mp returned
   -- a success ends the attempts, so both are the first one
   have same : ¬ k' < k := by
    intro sooner
    have impossible := retryable k' sooner
    rw [well'] at impossible
    exact impossible
   exact (goesOn_iff.mp (all j (Nat.zero_le j) (by omega))).2
 · intro paced
   refine ⟨?_, stops, by omega⟩
   rw [returns]
   constructor
   · rintro ⟨k, -, before, well, all⟩
     exact ⟨k, by omega, well, fun j earlier => (goesOn_iff.mp (all j (Nat.zero_le j) earlier)).1⟩
   · rintro ⟨k, within, well, retryable⟩
     refine ⟨k, Nat.zero_le k, by omega, well, ?_⟩
     intro j _ earlier
     exact goesOn_iff.mpr ⟨retryable j earlier, paced k within well retryable j earlier⟩

def limitedOnce (header : Str) : Nat → Outcome
 | 0 => .status 429 header
 | _ => .success

/-- Without a `Retry-After` the first 429 ends the upload, although the next attempt would have
succeeded. -/
theorem rate_limit_not_retried :
  uploadWithRetries 5 (limitedOnce []) (steady fun _ => 0) = (1, .refused (.status 429 [])) ∧
  ¬ RetryPolicy 5 (limitedOnce []) (uploadWithRetries 5 (limitedOnce []) (steady fun _ => 0)) := by
 have ends : uploadWithRetries 5 (limitedOnce []) (steady fun _ => 0) =
   (1, .refused (.status 429 [])) := by
  decide +kernel
 refine ⟨ends, ?_⟩
 rintro ⟨policy, -, -⟩
 have returned := policy.mpr ⟨1, by decide, rfl, fun j first => by
  obtain rfl : j = 0 := by omega
  exact .inr (.inr rfl)⟩
 rw [ends] at returned
 cases returned

def slowServer (attempt : Nat) : Outcome := if attempt < 35 then .status 503 [] else .success

example : uploadWithRetries 35 slowServer (steady fun _ => 0) = (35, .panicked) := by decide +kernel

theorem rate_limit_with_header_retried :
  RetryPolicy 5 (limitedOnce (lit "7"))
  (uploadWithRetries 5 (limitedOnce (lit "7")) (steady fun _ => 0)) := by
 refine (retry_policy_iff 5 (limitedOnce (lit "7")) fun _ => 0).mpr ?_
 intro k _ _ retryable j earlier
 cases j with
 | zero => exact ⟨by decide, fun _ => by decide +kernel, fun server => by omega⟩
 | succ j => trivial

end BackImage.Registry.UploadRetries
