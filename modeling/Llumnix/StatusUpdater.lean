/-
**Status updates of an engine.**

`StatusUpdater.update_instance_status` (`status_collector/vllm_v1/status_updater.py`) runs at every phase of a
step.  In push mode it takes the lock of the forwarder, and its exception handler does not give the lock
back.  At the beginning of a step it notes the requests that wait; one that is older than a bound is
dropped at once, whether or not it has been reported.

* `unlocked_iff` — **the lock is free afterwards exactly if no call that is made under it raises**;
* `newly_queued_reported_iff` — **the new requests are reported exactly if none is older than the bound when
  it is first seen.**
-/

import Mathlib.Data.Finset.Basic
import Mathlib.Data.Rat.Defs

namespace Llumnix.StatusUpdater

inductive StepPhase
  | stepBegin
  | afterSchedule
  | afterUpdate
  | beforeReturn
  | bypassStepBegin
  | bypassStepEnd
  deriving DecidableEq

def StepPhase.begins (phase : StepPhase) : Bool := phase ∈ [.stepBegin, .bypassStepBegin]

/-- The number of the step, which the phase after it raises. -/
def StepPhase.count (phase : StepPhase) (stepId : ℕ) : ℕ :=
  if phase = .afterUpdate then stepId + 1 else stepId

/-! ### The lock -/

/-- The calls that may raise.  The `KeyError` that is caught for a running request is no such exception. -/
inductive Call
  | updateProfilingStatus
  | clearFinishedReqs
  | hasRequests
  | getAllWaitingReqs
  | getNumFreeBlocks
  | updateMigrationStatus
  | updateReqStatus
  | getEnginecoreRequest (requestId : String)
  | getWaitingStatus
  | getRunningStatus
  | forwardStatus

structure Config where
  updateFreq : ℕ
  enableMigration : Bool
  migAsync : Bool
  push : Bool

/-- The requests of the scheduler; of the running ones, those whose prompt is computed. -/
structure Scheduler where
  waiting : List String
  running : List String

structure Updater where
  stepId : ℕ
  updateId : ℕ
  /-- `forward_status_lock` is held by the caller. -/
  locked : Bool

variable (cfg : Config) (sch : Scheduler) (raises : Call → Bool) (hasRequests : Bool) (phase : StepPhase)

/-- A call that may raise; it does not change what is modelled here. -/
def call (c : Call) : Except Unit Unit := if raises c then .error () else .ok ()

/-- The phase after a step, before the lock; whether the update ends here. -/
def updateAfterStep : Except Unit Bool := do
  if phase = .afterUpdate then
    call raises .updateProfilingStatus
    if cfg.enableMigration then call raises .clearFinishedReqs
    call raises .hasRequests
    return hasRequests
  return false

/-- `_update_instance_status`. -/
def updateStatus : Except Unit Unit := do
  call raises .getNumFreeBlocks
  if cfg.enableMigration then
    call raises .updateMigrationStatus
    if cfg.migAsync then call raises .updateReqStatus

def updateWaitingStatus : Except Unit Unit := do
  call raises .getAllWaitingReqs
  if cfg.enableMigration && cfg.migAsync then
    forM sch.waiting fun req => call raises (.getEnginecoreRequest req)
  call raises .getWaitingStatus

def updateRunningStatus : Except Unit Unit := do
  call raises .getRunningStatus
  if cfg.enableMigration && cfg.migAsync then
    forM sch.running fun req => call raises (.getEnginecoreRequest req)

/-- What is done between taking the lock and giving it back. -/
def updateLocked : Except Unit Unit := do
  if phase.begins then call raises .getAllWaitingReqs
  else
    updateStatus cfg raises
    updateWaitingStatus cfg sch raises
    updateRunningStatus cfg sch raises
    if cfg.push then call raises .forwardStatus

/-- `update_instance_status`, in which an exception is only logged. -/
def updateInstanceStatus (s : Updater) : Updater :=
  let s := { s with stepId := phase.count s.stepId }
  -- a frequency of zero raises
  if cfg.updateFreq = 0 ∨ s.stepId % cfg.updateFreq ≠ 0 then s
  else
    let s := { s with updateId := s.updateId + 1 }
    match updateAfterStep cfg raises hasRequests phase with
    | .error _ | .ok true => s
    | .ok false =>
      let s := { s with locked := cfg.push || s.locked }
      match updateLocked cfg sch raises phase with
      | .error _ => s
      | .ok _ => { s with locked := !cfg.push && s.locked }

/-- The calls before the lock is taken. -/
def callsBefore : List Call :=
  if phase = .afterUpdate then
    .updateProfilingStatus :: (if cfg.enableMigration then [.clearFinishedReqs] else []) ++ [.hasRequests]
  else []

/-- The calls between taking the lock and giving it back. -/
def callsUnderLock : List Call :=
  if phase.begins then [.getAllWaitingReqs]
  else
    let requests (reqs : List String) : List Call :=
      if cfg.enableMigration && cfg.migAsync then reqs.map .getEnginecoreRequest else []
    .getNumFreeBlocks :: (if cfg.enableMigration then
      .updateMigrationStatus :: if cfg.migAsync then [.updateReqStatus] else [] else []) ++
    .getAllWaitingReqs :: requests sch.waiting ++ .getWaitingStatus ::
    .getRunningStatus :: requests sch.running ++ if cfg.push then [.forwardStatus] else []

/-- The update comes to the lock. -/
def Acquires (stepId : ℕ) : Prop :=
  cfg.push ∧ ¬ (cfg.updateFreq = 0 ∨ phase.count stepId % cfg.updateFreq ≠ 0) ∧
    ¬ (callsBefore cfg phase).any raises ∧ ¬ (phase = .afterUpdate ∧ hasRequests)

theorem forM_call (l : List Call) : forM l (call raises) = if l.any raises then .error () else .ok () := by
  induction l with
  | nil => rfl
  | cons c l ih =>
    rw [List.forM_cons, ih, call, List.any_cons]
    cases raises c <;> rfl

theorem updateAfterStep_eq : updateAfterStep cfg raises hasRequests phase =
    if (callsBefore cfg phase).any raises then .error ()
    else .ok (decide (phase = .afterUpdate ∧ hasRequests)) := by
  have he : updateAfterStep cfg raises hasRequests phase =
      (forM (callsBefore cfg phase) (call raises) >>= fun _ =>
        .ok (decide (phase = .afterUpdate ∧ hasRequests))) := by
    unfold updateAfterStep callsBefore
    split_ifs <;> simp [*] <;> rfl
  rw [he, forM_call]
  split_ifs <;> rfl

theorem updateLocked_eq :
    updateLocked cfg sch raises phase = forM (callsUnderLock cfg sch phase) (call raises) := by
  unfold updateLocked callsUnderLock updateStatus updateWaitingStatus updateRunningStatus
  split_ifs <;> simp [List.forM_append, List.forM_map, *]

/-- **The lock is free afterwards.** -/
theorem unlocked_iff (stepId updateId : ℕ) :
    (updateInstanceStatus cfg sch raises hasRequests phase ⟨stepId, updateId, false⟩).locked = false ↔
      (Acquires cfg raises hasRequests phase stepId → ¬ (callsUnderLock cfg sch phase).any raises) := by
  simp only [updateInstanceStatus, Acquires, updateAfterStep_eq, updateLocked_eq, forM_call]
  by_cases hr : phase = .afterUpdate ∧ hasRequests <;> split_ifs <;> simp [*]

/-- A collector raises when a step begins. -/
theorem locked_after_exception : (updateInstanceStatus ⟨1, false, false, true⟩ ⟨[], []⟩
    (fun c => c matches .getAllWaitingReqs) false .stepBegin ⟨0, 0, false⟩).locked = true := by decide

/-! ### Recent waiting requests -/

/-- The beginning of a step: the waiting requests, each with the clock when it is looked at, and the clock
when a noted request is looked at again. -/
structure Begin where
  phase : StepPhase
  waitings : List (String × ℚ)
  clock : String → ℚ

variable (staleness : ℚ) (arrivalTime : String → ℚ) (recent : Finset String) (b : Begin)

abbrev Stale (now : ℚ) (req : String) : Prop := now - arrivalTime req > staleness

/-- One turn of the loop over the waiting requests. -/
def note (w : String × ℚ) : Finset String :=
  let recent := insert w.1 recent
  if Stale staleness arrivalTime w.2 w.1 then recent.erase w.1 else recent

/-- `_update_recent_waitings_status`: the set, which is also what is reported. -/
def updateRecentWaitings : Finset String :=
  let recent := b.waitings.foldl (note staleness arrivalTime) recent
  if b.phase = .stepBegin then recent.filter fun req => ¬ Stale staleness arrivalTime (b.clock req) req
  else recent

def Begin.Queued (req : String) : Prop := ∃ now, (req, now) ∈ b.waitings

/-- The last time it is looked at in the queues, and afterwards, the request is not stale. -/
def Begin.Fresh (req : String) : Prop :=
  (∀ now ∈ b.waitings.reverse.lookup req, ¬ Stale staleness arrivalTime now req) ∧
    (b.phase = .stepBegin → ¬ Stale staleness arrivalTime (b.clock req) req)

theorem mem_foldl_note {req : String} {ws : List (String × ℚ)} (h : ∃ now, (req, now) ∈ ws) :
    req ∈ ws.foldl (note staleness arrivalTime) recent ↔
      ∀ now ∈ ws.reverse.lookup req, ¬ Stale staleness arrivalTime now req := by
  induction ws using List.reverseRecOn with
  | nil => simp at h
  | append_singleton ws w ih =>
    obtain ⟨req', now⟩ := w
    rw [List.foldl_concat, List.reverse_concat, List.lookup_cons, note]
    by_cases hw : req = req'
    · subst hw
      split
      · next hs => exact iff_of_false (Finset.notMem_erase _ _) fun hf => hf now (by simp) hs
      · next hs =>
        refine iff_of_true (Finset.mem_insert_self _ _) fun now' hn => ?_
        obtain rfl : now = now' := by simpa using hn
        exact hs
    · have hb : (req == req') = false := by simpa using hw
      split <;> simp [hb, hw, ih (by simpa [hw] using h)]

/-- **New requests are reported.** -/
theorem newly_queued_reported_iff (history : List Begin) :
    (∀ req, b.Queued req → (∀ e ∈ history, ¬ e.Queued req) →
      req ∈ (history ++ [b]).foldl (updateRecentWaitings staleness arrivalTime) ∅) ↔
      ∀ req, b.Queued req → (∀ e ∈ history, ¬ e.Queued req) → b.Fresh staleness arrivalTime req := by
  refine forall_congr' fun req => forall_congr' fun hq => forall_congr' fun _ => ?_
  have hm := (mem_foldl_note staleness arrivalTime · hq)
  by_cases hp : b.phase = .stepBegin <;> simp [updateRecentWaitings, Begin.Fresh, hp, hm]

/-- A request that has waited for eleven seconds when it is first seen. -/
theorem old_request_unreported :
    "a" ∉ updateRecentWaitings 10 (fun _ => 0) ∅ ⟨.stepBegin, [("a", 11)], fun _ => 11⟩ := by
  decide +kernel

end Llumnix.StatusUpdater
