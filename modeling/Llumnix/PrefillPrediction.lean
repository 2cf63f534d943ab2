/-
**Predicting prefills.**

How many prefill tokens an instance has computed since its last status is found by simulating its batches
until the time that has passed is used up.  But the result is cut to the tokens that are left to compute,
not to those there were, so an instance that has computed everything is said to have computed nothing.  How
long a prefill will take is found by cutting it into batches, and a limit of zero cuts nothing off.

* `progressSound_iff` — **the predicted progress is right only if there is nothing to compute**;
* `ends_iff` — **the latency is the sum over the batches, and predicting it ends unless the limit is zero**.

Durations are rational numbers; where the source returns an error there is no value.
-/

import Llumnix.SinglePrecision

namespace Llumnix.Prediction

/-! ### Progress since the last status -/

/-- What the prediction reads of an instance. -/
structure PrefillStatus where
  numUncomputedTokensAllWaitingPrefills : BitVec 32
  numUncomputedTokensSchedulerRunningPrefills : BitVec 32
  numUncomputedTokensInflightDispatchPrefillRequests : BitVec 32

/-- `allPrefillsTokensNum.Calculate`, a number of single precision.  Nothing has been predicted before. -/
def allPrefillsTokensNum (s : PrefillStatus) : Int :=
  SinglePrecision.ofInt (s.numUncomputedTokensAllWaitingPrefills +
    s.numUncomputedTokensSchedulerRunningPrefills +
    s.numUncomputedTokensInflightDispatchPrefillRequests).toInt

def validateStepDurationMs (stepMs : ℚ) : Bool :=
  decide (0 < stepMs ∧ 1 / 1000 ≤ stepMs ∧ stepMs ≤ 1000 * 1000)

/-- The tokens of the next batch, and the tokens of running prefills that are left.  These are a batch of
their own if they are few. -/
def nextBatch (maxNumBatchedTokens numUncomputed numRunning : Int) : Int × Int :=
  if 0 < numRunning ∧ numRunning < maxNumBatchedTokens then (numRunning, 0)
  else (min numUncomputed maxNumBatchedTokens, numRunning)

variable {maxNumBatchedTokens : Int} (hmax : 0 < maxNumBatchedTokens)
include hmax

theorem nextBatch_pos {u : Int} (hu : 0 < u) (r : Int) :
    (u - (nextBatch maxNumBatchedTokens u r).1).toNat < u.toNat := by
  unfold nextBatch
  split <;> omega

/-- The loop of `predictNumComputedPrefillTokens`: the tokens that are computed, and those that are left. -/
def simulate (predict : Int → Option ℚ) (elapsedTimeMs : ℚ) (numUncomputed numRunning numComputed : Int) :
    Int × Int :=
  if h : 0 < elapsedTimeMs ∧ 0 < numUncomputed then
    let batch := nextBatch maxNumBatchedTokens numUncomputed numRunning
    match (predict batch.1).filter validateStepDurationMs with
    | none => (0, numUncomputed)
    | some stepMs =>
      if stepMs ≤ elapsedTimeMs then
        have := nextBatch_pos hmax h.2 numRunning
        simulate predict (elapsedTimeMs - stepMs) (numUncomputed - batch.1) batch.2 (numComputed + batch.1)
      else (numComputed + round (batch.1 * elapsedTimeMs / stepMs), 0)
  else (numComputed, numUncomputed)
termination_by numUncomputed.toNat

/-- The tokens that the loop starts with. -/
def PrefillStatus.start (s : PrefillStatus) : Int := (BitVec.ofInt 32 (allPrefillsTokensNum s)).toInt

/-- `predictNumComputedPrefillTokens` for one instance. -/
def predictNumComputedPrefillTokens (predict : Int → Option ℚ) (s : PrefillStatus) (elapsedTimeMs : ℚ) :
    Int :=
  if elapsedTimeMs ≤ 0 then 0
  else
    let (numComputed, numUncomputed) := simulate hmax predict elapsedTimeMs s.start
      s.numUncomputedTokensSchedulerRunningPrefills.toInt 0
    if numUncomputed < numComputed then numUncomputed else numComputed

/-- The duration of all batches together. -/
def totalDuration (duration : Int → ℚ) (numUncomputed numRunning : Int) : ℚ :=
  if h : 0 < numUncomputed then
    let batch := nextBatch maxNumBatchedTokens numUncomputed numRunning
    have := nextBatch_pos hmax h numRunning
    duration batch.1 + totalDuration duration (numUncomputed - batch.1) batch.2
  else 0
termination_by numUncomputed.toNat

section

variable {duration : Int → ℚ} (hd : ∀ n, validateStepDurationMs (duration n) = true)
include hd

theorem totalDuration_nonneg (u r : Int) : 0 ≤ totalDuration hmax duration u r := by
  fun_induction totalDuration hmax duration u r with
  | case1 u r hu batch _ ih => exact add_nonneg (of_decide_eq_true (hd batch.1)).1.le ih
  | case2 => exact le_rfl

/-- With enough time nothing is left to compute. -/
theorem simulate_le_zero (e : ℚ) (u r c : Int) (h : totalDuration hmax duration u r ≤ e) :
    (simulate hmax (some ∘ duration) e u r c).2 ≤ 0 := by
  fun_induction simulate hmax (some ∘ duration) e u r c with
  | case1 e u r c hc batch hn => simp [hd] at hn
  | case2 e u r c hc batch stepMs hs hle _ ih =>
    obtain ⟨rfl, -⟩ : duration batch.1 = stepMs ∧ _ := by simpa [hd] using hs
    rw [totalDuration, dif_pos hc.2] at h
    exact ih (by linarith)
  | case3 => exact le_rfl
  | case4 e u r c hc =>
    -- the time would be used up, but the next batch takes some
    by_contra hu
    rw [totalDuration, dif_pos (not_le.1 hu)] at h
    have hp := (of_decide_eq_true (hd (nextBatch maxNumBatchedTokens u r).1)).1
    have hn := totalDuration_nonneg hmax hd (u - (nextBatch maxNumBatchedTokens u r).1)
      (nextBatch maxNumBatchedTokens u r).2
    exact hc ⟨by linarith, not_le.1 hu⟩

end

/-- The tokens there were to compute. -/
def PrefillStatus.uncomputed (s : PrefillStatus) : Int :=
  s.numUncomputedTokensAllWaitingPrefills.toInt + s.numUncomputedTokensSchedulerRunningPrefills.toInt +
    s.numUncomputedTokensInflightDispatchPrefillRequests.toInt

/-- **Sound progress**: it stays within the tokens there were, it only grows, and after the last batch it is
complete. -/
structure ProgressSound (duration : Int → ℚ) (s : PrefillStatus) : Prop where
  bounds : ∀ e, 0 < e → 0 ≤ predictNumComputedPrefillTokens hmax (some ∘ duration) s e ∧
    predictNumComputedPrefillTokens hmax (some ∘ duration) s e ≤ s.uncomputed
  mono : ∀ e e', 0 < e → e ≤ e' → predictNumComputedPrefillTokens hmax (some ∘ duration) s e ≤
    predictNumComputedPrefillTokens hmax (some ∘ duration) s e'
  complete : ∀ e, 0 < e →
    totalDuration hmax duration s.start s.numUncomputedTokensSchedulerRunningPrefills.toInt ≤ e →
      predictNumComputedPrefillTokens hmax (some ∘ duration) s e = s.uncomputed

theorem ProgressSound.uncomputed_le {duration : Int → ℚ} {s : PrefillStatus}
    (h : ProgressSound hmax duration s) (hd : ∀ n, validateStepDurationMs (duration n) = true) :
    s.uncomputed ≤ 0 := by
  obtain ⟨e, he, hle⟩ : ∃ e : ℚ, 0 < e ∧
      totalDuration hmax duration s.start s.numUncomputedTokensSchedulerRunningPrefills.toInt ≤ e :=
    ⟨max 1 _, lt_max_of_lt_left one_pos, le_max_right _ _⟩
  have hz := simulate_le_zero hmax hd e _ _ 0 hle
  rw [← h.complete e he hle, predictNumComputedPrefillTokens, if_neg he.not_ge]
  dsimp only
  split <;> omega

/-- **The predicted progress is sound if and only if there is nothing to compute.** -/
theorem progressSound_iff {duration : Int → ℚ} (hd : ∀ n, validateStepDurationMs (duration n) = true)
    {s : PrefillStatus} (hw : 0 ≤ s.numUncomputedTokensAllWaitingPrefills.toInt)
    (hr : 0 ≤ s.numUncomputedTokensSchedulerRunningPrefills.toInt)
    (hi : 0 ≤ s.numUncomputedTokensInflightDispatchPrefillRequests.toInt) :
    ProgressSound hmax duration s ↔ s.uncomputed = 0 := by
  have hu : 0 ≤ s.uncomputed := add_nonneg (add_nonneg hw hr) hi
  refine ⟨fun h => le_antisymm (h.uncomputed_le hmax hd) hu, fun h => ?_⟩
  -- all counts are zero, so there is no batch
  have hz : ∀ x : BitVec 32, x.toInt = 0 → x = 0 := fun x hx => BitVec.eq_of_toInt_eq hx
  obtain ⟨w, r, i⟩ := s
  simp only [PrefillStatus.uncomputed] at h hw hr hi
  obtain ⟨rfl, rfl, rfl⟩ : w = 0 ∧ r = 0 ∧ i = 0 := ⟨hz w (by omega), hz r (by omega), hz i (by omega)⟩
  have hp : ∀ e, predictNumComputedPrefillTokens hmax (some ∘ duration) ⟨0, 0, 0⟩ e = 0 := by
    intro e
    rw [predictNumComputedPrefillTokens, simulate, dif_neg (fun h => absurd h.2 (by decide))]
    exact ite_self _
  exact ⟨fun e _ => by rw [hp]; decide, fun e e' _ _ => by rw [hp, hp], fun e _ _ => hp e⟩

omit hmax

/-- No tokens, and waiting, running and inflight ones in batches of four. -/
theorem progressSound_batches : ProgressSound one_pos (fun _ => 1) ⟨0, 0, 0⟩ ∧
    ¬ ProgressSound four_pos (fun n => if n < 3 then 2 else 5) ⟨6, 2, 1⟩ :=
  ⟨(progressSound_iff one_pos (fun _ => by norm_num [validateStepDurationMs]) (by decide) (by decide)
      (by decide)).2 rfl,
    fun h => absurd ((progressSound_iff four_pos (fun n => by split <;> norm_num [validateStepDurationMs])
      (by decide) (by decide) (by decide)).1 h) (by decide)⟩

/-- **A prefill that has finished**: one token is computed in a millisecond, and the prediction says none. -/
theorem finished_prefill_forgotten : ¬ ProgressSound one_pos (fun _ => 1) ⟨1, 0, 0⟩ :=
  fun h => absurd (h.uncomputed_le one_pos fun _ => by norm_num [validateStepDurationMs]) (by decide)

/-! ### The latency of a prefill in chunks -/

/-- `InterpolationPredictor`, by what it predicts: nothing where it fails, and zero at the origin. -/
structure InterpolationPredictor where
  predict : ℚ → ℚ → Option ℚ
  predict_origin : predict 0 0 = some 0

structure LatencyPredictor where
  ttftPredictor : InterpolationPredictor
  tpotPredictor : InterpolationPredictor

namespace LatencyPredictor

def predictTpotLatency (lp : LatencyPredictor) (decodeReqsNum decodeTokensNum : ℤ) : Option ℚ :=
  if decodeReqsNum ≤ 0 ∨ decodeTokensNum ≤ 0 then some 0
  else lp.tpotPredictor.predict decodeReqsNum (max ((decodeTokensNum : ℚ) / decodeReqsNum) 8)

/-- The loop over the chunks, for a number of turns.  Without a result it is still running. -/
def chunks (lp : LatencyPredictor) (maxNumBatchedTokens decodeStepLatency : ℚ) :
    ℕ → ℚ → ℚ → Option (Option ℚ)
  | 0, _, _ => none
  | turns + 1, remainingPrefillTokens, totalLatency =>
    if 0 < remainingPrefillTokens then
      let curStepPrefillTokensNum := min remainingPrefillTokens maxNumBatchedTokens
      match lp.ttftPredictor.predict curStepPrefillTokensNum 0 with
      | none => some none
      | some stepLatency => lp.chunks maxNumBatchedTokens decodeStepLatency turns
          (remainingPrefillTokens - curStepPrefillTokensNum) (totalLatency + stepLatency + decodeStepLatency)
    else some (some totalLatency)

def predictTtftLatencyByChunkPrefill (lp : LatencyPredictor) (turns : ℕ)
    (prefillTokensNum decodeReqsNum decodeTokensNum maxNumBatchedTokens : ℤ) : Option (Option ℚ) :=
  match lp.predictTpotLatency decodeReqsNum decodeTokensNum with
  | none => some none
  | some decodeStepLatency => lp.chunks maxNumBatchedTokens decodeStepLatency turns prefillTokensNum 0

variable {lp : LatencyPredictor} {step full rest remaining limit : ℚ}

/-- A positive limit ends the loop. -/
theorem chunks_ends (hl : 0 < limit) (n : ℕ) : ∀ {remaining total : ℚ}, remaining ≤ n * limit →
    ∃ r, lp.chunks limit step (n + 1) remaining total = some r := by
  induction n with
  | zero =>
    intro remaining total h
    exact ⟨_, if_neg (by simpa using h)⟩
  | succ n ih =>
    intro remaining total h
    rw [chunks]
    split
    · dsimp only
      split
      · exact ⟨_, rfl⟩
      · refine ih ?_
        push_cast at h
        rcases min_cases remaining limit with ⟨hm, -⟩ | ⟨hm, -⟩
        · rw [hm, sub_self]
          positivity
        · linarith
    · exact ⟨_, rfl⟩

theorem chunks_succ (h : 0 < remaining) (hle : limit ≤ remaining)
    (hf : lp.ttftPredictor.predict limit 0 = some full) (turns : ℕ) (total : ℚ) :
    lp.chunks limit step (turns + 1) remaining total =
      lp.chunks limit step turns (remaining - limit) (total + full + step) := by
  simp only [chunks, if_pos h, min_eq_right hle, hf]

/-- A limit that is not positive, with a latency, takes nothing away. -/
theorem chunks_runs (hl : limit ≤ 0) (hf : lp.ttftPredictor.predict limit 0 = some full) (turns : ℕ) :
    ∀ {remaining total : ℚ}, 0 < remaining → lp.chunks limit step turns remaining total = none := by
  induction turns with
  | zero => exact fun _ => rfl
  | succ turns ih =>
    intro remaining total h
    rw [chunks_succ h (hl.trans h.le) hf]
    exact ih (by linarith)

/-- The value of the loop: full chunks, and one for what remains. -/
theorem chunks_eq {m r : ℕ} (hr : r < m) (hrest : r ≠ 0 → lp.ttftPredictor.predict r 0 = some rest) (q : ℕ)
    (hf : q ≠ 0 → lp.ttftPredictor.predict m 0 = some full) : ∀ total : ℚ,
      lp.chunks m step (q + 2) (q * m + r) total =
        some (some (total + q * (full + step) + if r = 0 then 0 else rest + step)) := by
  have hm : (0 : ℚ) < m := by exact_mod_cast (Nat.zero_le r).trans_lt hr
  induction q with
  | zero =>
    intro total
    by_cases h : r = 0
    · simp [chunks, h]
    · have hrp : (0 : ℚ) < r := by exact_mod_cast Nat.pos_of_ne_zero h
      have hrm : (r : ℚ) ≤ m := by exact_mod_cast hr.le
      simp [chunks, h, hrp, hrm, hrest h, add_assoc]
  | succ q ih =>
    intro total
    have hs : ((q + 1 : ℕ) * m + r : ℚ) = q * m + r + m := by push_cast; ring
    have hge : (m : ℚ) ≤ q * m + r + m := le_add_of_nonneg_left (by positivity)
    rw [hs, chunks_succ (hm.trans_le hge) hge (hf (Nat.succ_ne_zero q)), add_sub_cancel_right,
      ih fun _ => hf (Nat.succ_ne_zero q)]
    push_cast
    congr 2
    ring

variable (lp) (prefillTokensNum decodeReqsNum decodeTokensNum maxNumBatchedTokens : ℤ)

def Ends : Prop := ∃ turns r,
  lp.predictTtftLatencyByChunkPrefill turns prefillTokensNum decodeReqsNum decodeTokensNum
    maxNumBatchedTokens = some r

/-- The closed form: if there are latencies for the chunks, with limit `m`, of `n` tokens, the prediction is
their sum, with a decode step for each of them. -/
def ClosedForm : Prop := ∀ (m n : ℕ) (step full rest : ℚ),
  maxNumBatchedTokens = m → 0 < m → n = prefillTokensNum.toNat →
  lp.predictTpotLatency decodeReqsNum decodeTokensNum = some step →
  (n / m ≠ 0 → lp.ttftPredictor.predict m 0 = some full) →
  (n % m ≠ 0 → lp.ttftPredictor.predict (n % m : ℕ) 0 = some rest) →
  ∃ turns, lp.predictTtftLatencyByChunkPrefill turns prefillTokensNum decodeReqsNum decodeTokensNum
    maxNumBatchedTokens = some (some ((n / m : ℕ) * full + (if n % m = 0 then 0 else rest) +
      step * ((n + m - 1) / m : ℕ)))

theorem closedForm :
    lp.ClosedForm prefillTokensNum decodeReqsNum decodeTokensNum maxNumBatchedTokens := by
  intro m n step full rest hm hpos hn hs hfull hrest
  simp only [predictTtftLatencyByChunkPrefill, hs, hm]
  have hc : (n + m - 1) / m = n / m + if n % m = 0 then 0 else 1 := by
    have hdm := Nat.div_add_mod' n m
    have hlt := Nat.mod_lt n hpos
    rw [Nat.div_eq_iff hpos, Nat.add_mul]
    split <;> omega
  by_cases hp : 0 < prefillTokensNum
  · have hcast : (prefillTokensNum : ℚ) = (n / m : ℕ) * m + (n % m : ℕ) := by
      have hpn : prefillTokensNum = (n : ℤ) := by omega
      rw [hpn, Int.cast_natCast]
      exact_mod_cast (Nat.div_add_mod' n m).symm
    refine ⟨n / m + 2, ?_⟩
    rw [hcast, Int.cast_natCast, chunks_eq (Nat.mod_lt n hpos) hrest _ hfull, hc]
    congr 2
    split <;> push_cast <;> ring
  · obtain rfl : n = 0 := by omega
    refine ⟨1, ?_⟩
    rw [chunks, if_neg (by exact_mod_cast hp), hc]
    simp

/-- Predictors without samples know the latency at the origin. -/
def noSamples : InterpolationPredictor where
  predict a b := if a = 0 ∧ b = 0 then some 0 else none
  predict_origin := by simp

end LatencyPredictor

end Llumnix.Prediction
