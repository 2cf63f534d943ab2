/-
**The schedule handler of the scheduler.**

The handler of `/schedule` lets the policy pick instances, and in lite mode it then records the request on
each of them, in the local realtime state of the instance's type.  A recording can be refused: the type has
no state, the request is known there already, the instance or the gateway is not.  The handler logs a
refusal and answers as if nothing had happened.  The client may be in any state, and the policy may have
answered anything, since discovery and the keep-alive connections change the client meanwhile.

* `matches_iff` — **when the recordings and the answer agree**.
-/

import Llumnix.LrsClient
import Llumnix.LrsLedger

namespace Llumnix.Handler

open Lrs List

/-! ### The handler -/

/-- The parts of the configuration that the handler reads. -/
structure Config where
  enableFullModeScheduling : Bool
  standaloneReschedulingMode : Bool

variable (c : Client) (cfg : Config)

/-- `EnableRequestStateTracking`: the scheduler runs in lite mode. -/
def Config.enableRequestStateTracking : Bool :=
  !cfg.enableFullModeScheduling && !cfg.standaloneReschedulingMode

/-- The parts of a `SchedulingRequest` that the handler reads. -/
structure SchedulingRequest where
  id : String
  gatewayId : String
  promptNumTokens : BitVec 64

/-- What the handler finds in the body of the call. -/
inductive Body
  | unreadable
  | invalid
  | request (req : SchedulingRequest)

/-- The errors of the policy that the handler tells apart. -/
inductive ScheduleError
  | endpointNotFound
  | noAvailableEndpoint
  | other (text : String)

def ScheduleError.text : ScheduleError → String
  | .endpointNotFound => "endpoint not found"
  | .noAvailableEndpoint => "no available endpoint"
  | .other text => text

inductive Content
  | empty
  | text (s : String)
  /-- The request with its scheduling result. -/
  | result (sr : SchedulingResult)

structure Answer where
  statusCode : Nat
  content : Content

/-- `statusCode` and `err` after the policy has run; an empty result counts as a failure. -/
def verdict : Except ScheduleError SchedulingResult → Except (Nat × ScheduleError) SchedulingResult
  | .error .endpointNotFound => .error (404, .endpointNotFound)
  | .error .noAvailableEndpoint => .error (429, .noAvailableEndpoint)
  | .error (.other text) => .error (400, .other text)
  | .ok [] => .error (429, .noAvailableEndpoint)
  | .ok (w :: sr) => .ok (w :: sr)

variable (req : SchedulingRequest) (now : ℤ) (w : LLMInstance)

/-- The state that the handler records for an instance of the result. -/
def reqState : RequestState :=
  newRequestState req.id req.promptNumTokens w.id req.gatewayId now

/-- The loop over the result: for every instance whether the recording was refused, and the client
afterwards.  The loop goes on after a refusal. -/
def allocateAll (req : SchedulingRequest) (now : ℤ) :
    SchedulingResult → Client → List (Option ClientError) × Client
  | [], c => ([], c)
  | w :: sr, c =>
    match c.allocateRequestState w.inferType (reqState req now w) with
    | .error e => ((some e :: (allocateAll req now sr c).1), (allocateAll req now sr c).2)
    | .ok c' => ((none :: (allocateAll req now sr c').1), (allocateAll req now sr c').2)

/-- What the handler leaves behind. -/
structure Handled where
  answer : Answer
  refusals : List (Option ClientError)
  client : Client

def handleSchedule (c : Client) (body : Body) (outcome : Except ScheduleError SchedulingResult) : Handled :=
  match body with
  -- the handler returns without writing, which the server answers with an empty success
  | .unreadable => ⟨⟨200, .empty⟩, [], c⟩
  | .invalid => ⟨⟨400, .text "invalid scheduling req"⟩, [], c⟩
  | .request req =>
    match verdict outcome with
    | .error (statusCode, err) => ⟨⟨statusCode, .text err.text⟩, [], c⟩
    | .ok sr =>
      if cfg.enableRequestStateTracking then
        ⟨⟨200, .result sr⟩, (allocateAll req now sr c).1, (allocateAll req now sr c).2⟩
      else ⟨⟨200, .result sr⟩, [], c⟩

/-! ### What should hold -/

/-- The state that a recording for an instance goes to. -/
def target : Option Store :=
  getLocalRealtimeState (if w.inferType = .unset then .neutral else w.inferType)

/-- The request is recorded on the instance for the gateway. -/
def RecordedOn : Prop :=
  ∃ k p, target w = some k ∧ ViewHolds (c.state k) w.id req.id p ∧
    (c.state k).requestStates.lookup req.id = some p ∧
    GatewayHolds (c.state k) req.gatewayId req.id ∧
    ((c.state k).heap p).instanceId = w.id ∧ ((c.state k).heap p).gatewayId = req.gatewayId

/-- No view holds a request that it did not hold before. -/
def NothingRemains (c' : Client) : Prop :=
  ∀ k i r p, ViewHolds (c'.state k) i r p → ViewHolds (c.state k) i r p

/-- **The recordings and the answer agree**, in lite mode: a success is recorded on every instance of the
result, and a refused recording makes the answer a failure with no recording left. -/
def Matches (c : Client) (body : Body) (outcome : Except ScheduleError SchedulingResult) : Prop :=
  cfg.enableRequestStateTracking = true →
    (∀ req sr, body = .request req →
      (handleSchedule cfg now c body outcome).answer = ⟨200, .result sr⟩ →
      ∀ w ∈ sr, RecordedOn (handleSchedule cfg now c body outcome).client req w) ∧
    ((∃ e, some e ∈ (handleSchedule cfg now c body outcome).refusals) →
      (handleSchedule cfg now c body outcome).answer.statusCode ≠ 200 ∧
        NothingRemains c (handleSchedule cfg now c body outcome).client)

/-! ### When a recording is not refused -/

/-- The state of the instance's type does not know the request, and knows instance and gateway. -/
def Ready : Prop :=
  ∃ k, target w = some k ∧ (c.state k).requestStates.lookup req.id = none ∧
    ((c.state k).instanceViews.lookup w.id).isSome = true ∧
    ((c.state k).gatewayRequestSet.lookup req.gatewayId).isSome = true

/-- Every instance of the result is ready, and no two of them use the same state. -/
def Acceptable : Body → Except ScheduleError SchedulingResult → Prop
  | .request req, .ok sr => sr.Pairwise (fun w v => target w ≠ target v) ∧ ∀ w ∈ sr, Ready c req w
  | _, _ => True

section

variable {req : SchedulingRequest} {now : ℤ} {c c' : Client} {w v : LLMInstance} {k : Store}

/-- An allocation on a state is not refused exactly if request, instance and gateway allow it. -/
theorem allocateRequestState_isOk (s : LocalRealtimeState) (st : RequestState) :
    (∃ t, s.allocateRequestState st = .ok t) ↔ s.requestStates.lookup st.reqId = none ∧
        (s.instanceViews.lookup st.instanceId).isSome = true ∧
        (s.gatewayRequestSet.lookup st.gatewayId).isSome = true := by
  constructor
  · rintro ⟨t, ht⟩
    obtain ⟨iv, requestSet, hn, hiv, hs, -⟩ := allocateRequestState_eq_ok ht
    exact ⟨hn, by simp [hiv], by simp [hs]⟩
  rintro ⟨hn, hiv, hs⟩
  obtain ⟨iv, hiv⟩ := Option.isSome_iff_exists.1 hiv
  obtain ⟨requestSet, hs⟩ := Option.isSome_iff_exists.1 hs
  have hc : s.instanceViews.keys.card ≠ 0 := by
    refine Finset.card_ne_zero_of_mem (a := st.instanceId) ?_
    rw [Finmap.mem_keys, ← Finmap.lookup_isSome, hiv]
    rfl
  refine ⟨s.storeRequest st iv requestSet, ?_⟩
  simp [LocalRealtimeState.allocateRequestState, LocalRealtimeState.requestExists, hn, hc, hiv, hs]

theorem allocate_eq_ok (hex : c.allocateRequestState w.inferType (reqState req now w) = .ok c') :
    ∃ k s', target w = some k ∧
      (c.state k).allocateRequestState (reqState req now w) = .ok s' ∧ c' = c.modify k s' := by
  unfold Client.allocateRequestState Client.onState at hex
  split at hex
  · cases hex
  · next k hk =>
    split at hex
    · cases hex
    · next s' hs' => exact ⟨k, s', hk, hs', (Except.ok.inj hex).symm⟩

/-- **A recording is not refused exactly if the instance is ready.** -/
theorem allocate_isOk_iff (now : ℤ) :
    (∃ c', c.allocateRequestState w.inferType (reqState req now w) = .ok c') ↔ Ready c req w := by
  constructor
  · rintro ⟨c', hex⟩
    obtain ⟨k, s', hk, hs', -⟩ := allocate_eq_ok hex
    exact ⟨k, hk, (allocateRequestState_isOk _ _).1 ⟨s', hs'⟩⟩
  · rintro ⟨k, hk, hr⟩
    obtain ⟨s', hs'⟩ := (allocateRequestState_isOk (c.state k) (reqState req now w)).2 hr
    refine ⟨c.modify k s', ?_⟩
    unfold target at hk
    simp only [Client.allocateRequestState, Client.onState, hk, hs']

section

variable (hex : c.allocateRequestState w.inferType (reqState req now w) = .ok c')
include hex

theorem recordedOn_allocate : RecordedOn c' req w := by
  obtain ⟨k, s', hk, hs', rfl⟩ := allocate_eq_ok hex
  obtain ⟨iv, requestSet, -, hiv, hs, rfl⟩ := allocateRequestState_eq_ok hs'
  refine ⟨k, (c.state k).nextRef, hk, ?_⟩
  rw [Client.modify_state_self, storeRequest_heap_self]
  refine ⟨?_, ?_, ?_, rfl, rfl⟩
  · rw [viewHolds_storeRequest hiv]
    simp [reqState, newRequestState]
  · rw [lookup_storeRequest]
    simp [reqState, newRequestState]
  · rw [gatewayHolds_storeRequest hs]
    exact .inl ⟨rfl, rfl⟩

theorem state_allocate_of_ne (hk : target w ≠ some k) : c'.state k = c.state k := by
  obtain ⟨j, s', hj, -, rfl⟩ := allocate_eq_ok hex
  refine Client.modify_state_of_ne c ?_ s'
  rintro rfl
  exact hk hj

/-- After a recording, the instances that use another state are as ready as before, and those that use
the same one are not. -/
theorem ready_allocate : Ready c' req v ↔ target w ≠ target v ∧ Ready c req v := by
  have hre := recordedOn_allocate hex
  obtain ⟨k, p, hk, -, ht, -⟩ := hre
  constructor
  · rintro ⟨j, hj, hn, hr⟩
    have hne : target w ≠ some j := by
      intro h
      rw [hk, Option.some.injEq] at h
      rw [h, hn] at ht
      cases ht
    rw [state_allocate_of_ne hex hne] at hn hr
    exact ⟨hj ▸ hne, j, hj, hn, hr⟩
  · rintro ⟨hne, j, hj, hr⟩
    rw [← state_allocate_of_ne hex (hj ▸ hne)] at hr
    exact ⟨j, hj, hr⟩

end

theorem state_allocateAll_of_ne (sr : SchedulingResult) :
    ∀ c : Client, (∀ w ∈ sr, target w ≠ some k) → (allocateAll req now sr c).2.state k = c.state k := by
  induction sr with
  | nil => exact fun c _ => rfl
  | cons w sr ih =>
  intro c hne
  have hr := fun v hv => hne v (mem_cons_of_mem _ hv)
  rw [allocateAll]
  split
  · exact ih c hr
  · next c' hex =>
    rw [← state_allocate_of_ne hex (hne w mem_cons_self)]
    exact ih c' hr

/-- **No recording of the loop is refused** exactly if all instances are ready and use different states. -/
theorem forall_ok_iff (now : ℤ) (sr : SchedulingResult) :
    ∀ c : Client, (∀ o ∈ (allocateAll req now sr c).1, o = none) ↔
      sr.Pairwise (fun w v => target w ≠ target v) ∧ ∀ w ∈ sr, Ready c req w := by
  induction sr with
  | nil => simp [allocateAll]
  | cons w sr ih =>
  intro c
  rw [allocateAll, pairwise_cons, forall_mem_cons]
  split
  · next e hex =>
    refine iff_of_false (fun h => ?_) fun h => ?_
    · cases h (some e) mem_cons_self
    · obtain ⟨c', hex'⟩ := (allocate_isOk_iff now).2 h.2.1
      cases hex.symm.trans hex'
  · next c' hex =>
    have hr : Ready c req w := (allocate_isOk_iff now).1 ⟨c', hex⟩
    rw [forall_mem_cons, ih c']
    simp only [ready_allocate hex, true_and]
    constructor
    · rintro ⟨hp, ha⟩
      exact ⟨⟨fun v hv => (ha v hv).1, hp⟩, hr, fun v hv => (ha v hv).2⟩
    · rintro ⟨⟨hne, hp⟩, -, ha⟩
      exact ⟨hp, fun v hv => ⟨hne v hv, ha v hv⟩⟩

theorem recordedOn_allocateAll (sr : SchedulingResult) :
    ∀ c : Client, sr.Pairwise (fun w v => target w ≠ target v) → (∀ w ∈ sr, Ready c req w) →
      ∀ w ∈ sr, RecordedOn (allocateAll req now sr c).2 req w := by
  induction sr with
  | nil => exact fun c _ _ w hw => by cases hw
  | cons v sr ih =>
  intro c hp hre w hw
  rw [pairwise_cons] at hp
  obtain ⟨c', hex⟩ := (allocate_isOk_iff now).2 (hre v mem_cons_self)
  have hl : (allocateAll req now (v :: sr) c).2 = (allocateAll req now sr c').2 := by
    simp only [allocateAll, hex]
  rw [hl]
  rcases mem_cons.1 hw with rfl | hw
  · -- the later recordings go to other states
    obtain ⟨k, p, hk, hr⟩ := recordedOn_allocate hex
    have hs : (allocateAll req now sr c').2.state k = c'.state k :=
      state_allocateAll_of_ne sr c' fun u hu h => hp.1 u hu (hk.trans h.symm)
    exact ⟨k, p, hk, hs ▸ hr⟩
  · refine ih c' hp.2 (fun u hu => ?_) w hw
    exact (ready_allocate hex).2 ⟨hp.1 u hu, hre u (mem_cons_of_mem _ hu)⟩

end

/-! ### When the recordings and the answer agree -/

/-- Where the handler records nothing it refuses nothing, and it promises nothing either. -/
theorem matches_of_failure (now : ℤ) (c : Client) (body : Body)
    (outcome : Except ScheduleError SchedulingResult)
    (h : ∀ req w sr, body = .request req → outcome ≠ .ok (w :: sr)) : Matches cfg now c body outcome := by
  intro _
  cases body with
  | unreadable | invalid => simp [handleSchedule]
  | request req =>
  match outcome, h with
  | .error .endpointNotFound, _ => simp [handleSchedule, verdict]
  | .error .noAvailableEndpoint, _ => simp [handleSchedule, verdict]
  | .error (.other text), _ => simp [handleSchedule, verdict]
  | .ok [], _ => simp [handleSchedule, verdict]
  | .ok (w :: sr), h => exact absurd rfl (h req w sr rfl)

/-- **When the recordings and the answer agree**: in lite mode, exactly if every instance of the result
is ready and no two of them use the same state. -/
theorem matches_iff (cfg : Config) (now : ℤ) (c : Client) (body : Body)
    (outcome : Except ScheduleError SchedulingResult) :
    Matches cfg now c body outcome ↔
      (cfg.enableRequestStateTracking = true → Acceptable c body outcome) := by
  by_cases hf : ∃ req w sr, body = .request req ∧ outcome = .ok (w :: sr)
  · obtain ⟨req, w, sr, rfl, rfl⟩ := hf
    refine forall_congr' fun hl => ?_
    simp only [handleSchedule, verdict, hl, if_true, Acceptable]
    constructor
    · -- a refusal would have to be answered with a failure
      rintro ⟨-, hre⟩
      refine (forall_ok_iff now (w :: sr) c).1 fun o ho => ?_
      cases o with
      | none => rfl
      | some e => exact absurd rfl (hre ⟨e, ho⟩).1
    · rintro ⟨hp, hr⟩
      constructor
      · intro req' sr' hrq ha v hv
        obtain rfl := Body.request.inj hrq
        obtain rfl := Content.result.inj (Answer.mk.inj ha).2
        exact recordedOn_allocateAll _ c hp hr v hv
      · rintro ⟨e, he⟩
        cases (forall_ok_iff now (w :: sr) c).2 ⟨hp, hr⟩ (some e) he
  · have hn : ∀ req w sr, body = .request req → outcome ≠ .ok (w :: sr) :=
      fun req w sr hb hou => hf ⟨req, w, sr, hb, hou⟩
    refine iff_of_true (matches_of_failure cfg now c body outcome hn) fun _ => ?_
    match body, outcome, hn with
    | .unreadable, _, _ => trivial
    | .invalid, _, _ => trivial
    | .request _, .error _, _ => trivial
    | .request _, .ok [], _ => exact ⟨.nil, fun _ h => by cases h⟩
    | .request req, .ok (w :: sr), hn => exact absurd rfl (hn req w sr rfl)

/-! ### A success without a recording -/

/-- A prefill and a decode instance. -/
def samplePair : SchedulingResult :=
  [⟨1, "p", "", .prefill, ⟨"10.0.0.1", 8000⟩, "", 0, 0, 1⟩,
    ⟨1, "d", "", .decode, ⟨"10.0.0.2", 8000⟩, "", 0, 0, 1⟩]

/-- A scheduler that has discovered the pair, before the keep-alive connection of any gateway. -/
def sampleClient : Client := samplePair.foldl (fun c w => c.addInstance w []) newClient

/-- **A success without a recording**: the gateway is not connected, both recordings are refused, and
the handler answers with the pair. -/
theorem unknown_gateway : ¬ ∀ (cfg : Config) (now : ℤ) (c : Client) (body : Body)
      (outcome : Except ScheduleError SchedulingResult), Matches cfg now c body outcome := by
  intro h
  have hm := h ⟨false, false⟩ 0 sampleClient (.request ⟨"r", "g", 10⟩) (.ok samplePair)
  have hr : (handleSchedule ⟨false, false⟩ 0 sampleClient (.request ⟨"r", "g", 10⟩)
      (.ok samplePair)).refusals =
        [some (.refused .gatewayNotFound), some (.refused .gatewayNotFound)] := by decide +kernel
  have hf := ((hm rfl).2 ⟨.refused .gatewayNotFound, by rw [hr]; simp⟩).1
  exact hf rfl

end Llumnix.Handler
