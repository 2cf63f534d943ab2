/-
**Retried releases.**

`SchedulerClient.Release` (`pkg/gateway/load-balancer/scheduler_client.go`) builds one HTTP request and
sends it up to three times.  Its body is a buffer that an attempt reads from, and the HTTP client refuses to
send a body that falls short of the length recorded when the request was built.  It takes the whole body
anew only where it makes the request again by itself: on a connection that was used before, if nothing has
been written yet.

* `release_reaches_iff` — **when a release that is retried reaches the scheduler**.
-/

import Llumnix.InstanceTypes
import Mathlib.Algebra.BigOperators.Intervals
import Mathlib.Data.List.Basic

namespace Llumnix.Release

/-- The request that is released, as far as the message shows it. -/
structure RequestContext where
  id : String
  model : String
  gatewayId : String
  schedulingMode : SchedulingMode
  schedulingStage : SchedulingStage

structure SchedulingRequest extends RequestContext where
  schedulingResult : SchedulingResult

def createReleaseRequest (localEndpoint : Endpoint) (req : RequestContext) (inst : LLMInstance) :
    SchedulingRequest :=
  { req with gatewayId := localEndpoint.string, schedulingResult := [inst] }

/-- What the network does to an attempt: an error when so many bytes of the body were read, or an answer,
over a connection that was used before or a fresh one. -/
inductive Outcome
  | fails (consumed : Nat)
  | answers (reused : Bool)

abbrev Bytes := List UInt8

/-- The buffer into which the transport writes a request before it sends anything. -/
def writeBufferSize : Nat := 4096

variable (header : Nat) (data : Bytes)

/-- `Client.Do`: what the scheduler gets, if it answers, and what is left of the body. `header` is the length
of the request head, and `GetBody` makes a new body of `data`. -/
def send (body : Bytes) : Outcome → Option Bytes × Bytes
  | .fails consumed => (none, body.drop consumed)
  | .answers reused =>
    if body.length = data.length then (some body, [])
    else (if reused ∧ header + body.length < writeBufferSize then some data else none, [])

/-- The loop at `RETRY`: what each attempt brings to the scheduler. -/
def attempts : (retry : Nat) → (Nat → Outcome) → Bytes → List (Option Bytes)
  | 0, _, _ => []
  | retry + 1, net, body =>
    match send header data body (net 0) with
    | (some message, _) => [some message]
    | (none, rest) => none :: attempts retry (fun i => net (i + 1)) rest

def releaseTryCount : Nat := 3

/-- **`Release`**, with the JSON encoding as a parameter. -/
def release (marshal : SchedulingRequest → Option Bytes) (localEndpoint : Endpoint) (remoteReady : Bool)
    (req : RequestContext) (inst : LLMInstance) (net : Nat → Outcome) : List (Option Bytes) :=
  if localEndpoint.string ≠ req.gatewayId ∨ remoteReady = false then []
  else
    match marshal (createReleaseRequest localEndpoint req inst) with
    | none => []
    | some data => attempts header data releaseTryCount net data

/-- The attempts end with the first answer, or when there is none left. -/
def Ends (limit : Nat) (l : List (Option Bytes)) : Prop :=
  (∃ k < limit, ∃ message, l = List.replicate k none ++ [some message]) ∨ l = List.replicate limit none

section

variable {header data}

theorem ends_attempts (retry : Nat) (net : Nat → Outcome) (body : Bytes) :
    Ends retry (attempts header data retry net body) := by
  fun_induction attempts header data retry net body with
  | case1 => exact .inr rfl
  | case2 => exact .inl ⟨0, by omega, _, rfl⟩
  | case3 _ _ _ _ _ ih =>
    rcases ih with ⟨k, hk, message, he⟩ | he
    · exact .inl ⟨k + 1, by omega, message, by rw [he]; rfl⟩
    · exact .inr (by rw [he]; rfl)

/-- Attempts that fail leave what they have not read. -/
theorem attempts_of_fails {retry : Nat} {net : Nat → Outcome} {consumed : Nat → Nat} (k : Nat)
    (hf : ∀ i < k, net i = .fails (consumed i)) (body : Bytes) :
    attempts header data (k + retry) net body = List.replicate k none ++
      attempts header data retry (fun i => net (k + i)) (body.drop (∑ i ∈ Finset.range k, consumed i)) := by
  induction k generalizing net consumed body with
  | zero => simp
  | succ k ih =>
    rw [Nat.succ_add, attempts, hf 0 (by omega)]
    simp only [send]
    have hf' : ∀ i < k, net (i + 1) = .fails (consumed (i + 1)) := fun i hi => hf (i + 1) (by omega)
    rw [ih hf', List.drop_drop, Finset.sum_range_succ', Nat.add_comm (consumed 0)]
    simp only [Nat.add_assoc, Nat.add_comm 1]
    rfl

end

/-- **A release that is retried**: the first attempt that the network carries brings the whole message exactly
when those before it have read nothing, or when the shortened body is noticed before anything is written to a
used connection. -/
theorem release_reaches_iff {marshal : SchedulingRequest → Option Bytes} {localEndpoint : Endpoint}
    {req : RequestContext} {inst : LLMInstance} {data : Bytes} (header : Nat)
    (hg : localEndpoint.string = req.gatewayId)
    (hm : marshal (createReleaseRequest localEndpoint req inst) = some data) :
    (∀ net, Ends releaseTryCount (release header marshal localEndpoint true req inst net)) ∧
    ∀ k < releaseTryCount, ∀ (net : Nat → Outcome) (consumed : Nat → Nat) (reused : Bool),
      (∀ i < k, net i = .fails (consumed i)) → net k = .answers reused →
      (release header marshal localEndpoint true req inst net = List.replicate k none ++ [some data] ↔
        let left := data.drop (∑ i ∈ Finset.range k, consumed i)
        left = data ∨ reused = true ∧ header + left.length < writeBufferSize) := by
  have hr : ∀ net, release header marshal localEndpoint true req inst net =
      attempts header data releaseTryCount net data := by simp [release, hg, hm]
  refine ⟨fun net => hr net ▸ ends_attempts .., fun k hk net consumed reused hf ha => ?_⟩
  obtain ⟨n, hn⟩ : ∃ n, releaseTryCount = k + (n + 1) := ⟨releaseTryCount - k - 1, by omega⟩
  rw [hr, hn, attempts_of_fails k hf, List.append_cancel_left_eq]
  have hs := List.drop_suffix (∑ i ∈ Finset.range k, consumed i) data
  rw [attempts, Nat.add_zero, ha]
  dsimp only
  generalize data.drop (∑ i ∈ Finset.range k, consumed i) = left at hs ⊢
  by_cases hb : left.length = data.length
  · simp [send, hs.eq_of_length hb]
  · have hne : left ≠ data := fun h => hb (congrArg _ h)
    by_cases hw : reused = true ∧ header + left.length < writeBufferSize
    · simp [send, hb, hw]
    · simp [send, hb, hw, hne]

/-- A release in which an attempt fails after so many bytes, and the connections of the others were used
before or not. -/
def releaseAfter (consumed : Nat) (reused : Bool) : List (Option Bytes) :=
  release 200 (fun _ => some [1, 2]) ⟨"gw", 80⟩ true ⟨"r", "m", "gw:80", .neutral, .prefill⟩
    ⟨0, "i", "", .neutral, ⟨"10.0.0.1", 8000⟩, "", 0, 0, 0⟩
    fun i => if i = 0 then .fails consumed else .answers reused

theorem release_reaches_second : releaseAfter 0 false = [none, some [1, 2]] ∧
    releaseAfter 1 true = [none, some [1, 2]] :=
  ⟨((release_reaches_iff 200 (by decide) rfl).2 1 (by decide) _ (fun _ => 0) false (by simp) rfl).2 (by simp),
    ((release_reaches_iff 200 (by decide) rfl).2 1 (by decide) _ (fun _ => 1) true (by simp) rfl).2
      (by simp [writeBufferSize])⟩

/-- One byte of the body is read by the attempt that fails, and the others are made on fresh connections:
the release never arrives. -/
theorem release_lost : releaseAfter 1 false = [none, none, none] := by decide

end Llumnix.Release
