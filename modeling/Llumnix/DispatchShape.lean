/-
**The shape of a scheduling answer.**

An answer without an error should be complete for the mode of the request, and a call that cannot complete
its answer should say so and leave the local accounts alone.  `DispatchPolicy.schedule` appends a position
for prefill and one for decode whether or not it found an instance for them, and `Schedule` takes any two
positions for success.

* `wellShaped_iff` — **when a call keeps the promise**.
-/

import Llumnix.DispatchSpec

namespace Llumnix.Dispatch

open SchedulingRequest List

variable {c : SchedulerConfig} {env : Env} {request : SchedulingRequest} {cluster : ClusterView}

/-! ### What an answer should look like -/

/-- The role an instance takes in a stage. -/
def stageInferType : SchedulingStage → InferType
  | .prefill => .prefill
  | .decode => .decode

variable (c env request cluster)

def Complete (result : SchedulingResult) : Prop :=
  match request.schedulingMode with
  | .neutral => result.length = 1
  | .pdBatch => result.map (·.inferType) = [.prefill, .decode]
  | .pdStaged => ∃ stage, request.schedulingStage = some stage ∧
      result.map (·.inferType) = [stageInferType stage]

/-- **The promise of a call**: it does not panic, an answer is complete, and an error leaves every local
account as it was. -/
def WellShaped (s : State) : Prop :=
  match Schedule c env request cluster s with
  | .error _ => False
  | .ok (.ok targets, _) => Complete request (targets.map (·.inst))
  | .ok (.error _, s') => s'.accounts = s.accounts

/-! ### Which roles can be served -/

/-- The roles a request asks for outside the neutral mode. -/
def SchedulingRequest.roles : List InferType :=
  (if request.needPrefill then [.prefill] else []) ++ (if request.needDecode then [.decode] else [])

/-- Some view of the cluster can take the role, if need be in the fallback round, and nothing panics on the
way to a choice. -/
def Served (inferType : InferType) : Prop :=
  ∃ p, newDispatchPolicyInternal c inferType = some p ∧ Works c env p (target c inferType cluster.views) ∧
    ∃ v, Eligible c env p (target c inferType cluster.views) true v

/-- The policy has an entry for every group of the cluster. -/
def Supported : Prop :=
  ∀ v ∈ cluster.views, newDispatchPolicyInternal c (group c v) ≠ none

/-- **When a call keeps its promise**: the cluster metadata store is away, or the policy knows all groups and,
in neutral mode, nothing panics, in the other modes there is one group or every role asked for can be served.
-/
def Keepable : Prop :=
  (c.enableFullModeScheduling = true ∧ cluster.isAlive = false) ∨
  (Supported c cluster ∧
    match request.schedulingMode with
    | .neutral => .neutral ∈ groups c cluster.views → ∀ p, newDispatchPolicyInternal c .neutral = some p →
        Works c env p (target c .neutral cluster.views)
    | _ => (groups c cluster.views).card = 1 ∨
        (request.roles ≠ [] ∧ ∀ t ∈ request.roles, Served c env cluster t))

variable {c env request cluster}

theorem complete_iff (hm : request.schedulingMode ≠ .neutral) (result : SchedulingResult) :
    Complete request result ↔ request.roles ≠ [] ∧ result.map (·.inferType) = request.roles := by
  rcases request with ⟨id, mode, stage, tokens⟩
  cases mode with
  | neutral => exact absurd rfl hm
  | pdBatch =>
    simp [Complete, roles, needPrefill, needDecode]
  | pdStaged =>
    rcases stage with _ | _ | _ <;>
      simp [Complete, roles, needPrefill, needDecode, stageInferType]

theorem calculateMetrics_spec (c : SchedulerConfig) (cluster : ClusterView) :
    (Supported c cluster ∧ calculateMetrics c cluster.views = .ok ()) ∨
      (¬ Supported c cluster ∧ ∃ e, calculateMetrics c cluster.views = .error e) := by
  cases hf : cluster.views.find? fun v => (newDispatchPolicyInternal c (group c v)).isNone with
  | none =>
    refine .inl ⟨fun v hv hn => ?_, by rw [calculateMetrics, hf]⟩
    have := find?_eq_none.1 hf v hv
    rw [hn] at this
    exact this rfl
  | some v =>
    refine .inr ⟨fun ha => ?_, _, by rw [calculateMetrics, hf]⟩
    have hn : (newDispatchPolicyInternal c (group c v)).isNone = true := by
      simpa using find?_some hf
    exact ha v (mem_of_find?_eq_some hf) (Option.isNone_iff_eq_none.1 hn)

/-! ### What is found for a role -/

section

variable {views : List InstanceViewScheduling}

/-- The roles that a position of the answer holds. -/
def positionRoles (c : SchedulerConfig) (role : InferType)
    (selected : Option InstanceViewScheduling) : List InferType :=
  ([selected].reduceOption.map (toTarget c role)).map (·.inst.inferType)

/-- Only a neutral group has instances of another type. -/
theorem inferType_of_group {v : InstanceView} {role : InferType} (hr : role ≠ .neutral)
    (hg : group c v = role) : v.inst.inferType = role := by
  unfold group at hg
  split at hg
  · exact hg
  · split at hg
    · next h => exact h.trans hg
    · next h => exact h.trans hg
    · exact absurd hg.symm hr

theorem positionRoles_some {role : InferType} {v : InstanceViewScheduling} (hn : role ≠ .neutral)
    (hv : v.toInstanceView ∈ target c role cluster.views) : positionRoles c role (some v) = [role] := by
  have hr : (toTarget c role v).inst.inferType = role := by
    rw [target] at hv
    rw [toTarget]
    split at hv
    · next ha => rw [if_pos ha]
    · next ha =>
      rw [if_neg ha]
      exact inferType_of_group hn (by simpa using (List.mem_filter.1 hv).2)
  simp [positionRoles, reduceOption_singleton, hr]

/-- What a part of `schedule` leaves for its role: the role, if it was asked for and can be served;
else nothing, or a panic. -/
def Finds (c : SchedulerConfig) (env : Env) (cluster : ClusterView) (role : InferType) (need : Bool)
    (x : Except Panic Execution) : Prop :=
  ((need = true → Served c env cluster role) ∧
      ∃ e, x = .ok e ∧ Tracks c env cluster e.views ∧
        positionRoles c role e.selected = if need then [role] else []) ∨
    (need = true ∧ ¬ Served c env cluster role ∧ ((∃ panic, x = .error panic) ∨
      ∃ e, x = .ok e ∧ Tracks c env cluster e.views ∧ e.selected = none))

/-- A part of `schedule` that passes on what `executeSchedule` found for its role, whatever it does to
the accounts. -/
theorem finds_of_executeSchedule (ht : Tracks c env cluster views) {role : InferType}
    (hne : role ≠ .neutral) {need : Bool} {x : Except Panic Execution} (s : State)
    (hsk : need = false → ∃ s', x = .ok ⟨none, s', views⟩)
    (hpa : need = true → ∀ e, executeSchedule c env role s views = .error e → ∃ panic, x = .error panic)
    (hp : need = true → ∀ selected s' views',
      executeSchedule c env role s views = .ok ⟨selected, s', views'⟩ →
        ∃ s'', x = .ok ⟨selected, s'', views'⟩) : Finds c env cluster role need x := by
  cases need with
  | false =>
    obtain ⟨s', hok⟩ := hsk rfl
    exact .inl ⟨fun h => (nomatch h), _, hok, ht, rfl⟩
  | true =>
  rcases executeSchedule_spec ht role s with ⟨hn, e, he⟩ | ⟨p, hpo, ⟨hn, e, he⟩ |
    ⟨hw, ⟨hn, views', ht', hok⟩ | ⟨v, hv, s', views', -, ht', hok⟩⟩⟩
  · refine .inr ⟨rfl, ?_, .inl (hpa rfl e he)⟩
    rintro ⟨p, hpo, -⟩
    cases hn.symm.trans hpo
  · refine .inr ⟨rfl, ?_, .inl (hpa rfl e he)⟩
    rintro ⟨q, hq, hs, -⟩
    cases hpo.symm.trans hq
    exact hn hs
  · obtain ⟨s'', hx⟩ := hp rfl _ _ _ hok
    refine .inr ⟨rfl, ?_, .inr ⟨_, hx, ht', rfl⟩⟩
    rintro ⟨q, hq, -, v, hv⟩
    cases hpo.symm.trans hq
    exact hn v hv
  · obtain ⟨s'', hx⟩ := hp rfl _ _ _ hok
    exact .inl ⟨fun _ => ⟨p, hpo, hw, _, hv⟩, _, hx, ht', positionRoles_some hne hv.mem⟩

theorem schedulePrefill_finds (request : SchedulingRequest) (ht : Tracks c env cluster views) (s : State) :
    Finds c env cluster .prefill request.needPrefill (schedulePrefill c env request s views) := by
  refine finds_of_executeSchedule ht (by decide) s (fun hn => ?_) (fun hn e he => ?_)
    fun hn selected s' views' hok => ?_
  · exact ⟨s, by rw [schedulePrefill, hn]; rfl⟩
  · exact ⟨e, by rw [schedulePrefill, if_pos hn, he]⟩
  · rw [schedulePrefill, if_pos hn, hok]
    cases selected with
    | none | some => exact ⟨_, rfl⟩

theorem scheduleDecode_finds (request : SchedulingRequest)
    (ht : Tracks c env cluster views) (s : State) (prefill : Option InstanceViewScheduling) :
    Finds c env cluster .decode request.needDecode (scheduleDecode c env request prefill s views) := by
  refine finds_of_executeSchedule ht (by decide) s (fun hn => ?_) (fun hn e he => ?_)
    fun hn selected s' views' hok => ?_
  · exact ⟨s, by rw [scheduleDecode, hn]; rfl⟩
  · exact ⟨e, by rw [scheduleDecode, if_pos hn, he]⟩
  · rw [scheduleDecode, if_pos hn, hok]
    cases selected with
    | some => exact ⟨_, rfl⟩
    | none =>
      -- the account of the prefill instance is reverted
      cases prefill with
      | none | some => exact ⟨_, rfl⟩

end

/-! ### When the promise is kept -/

/-- The promise about what `schedule` returned. -/
def Promised (c : SchedulerConfig) (request : SchedulingRequest) (s : State) :
    Except Panic (List (List (Option InstanceViewScheduling)) × State) → Prop
  | .error _ => False
  | .ok ([], s') => s'.accounts = s.accounts
  | .ok (first :: rest, _) => Complete request ((schResults c (first :: rest)).map (·.inst))

theorem wellShaped_of_schedule (ha : (c.enableFullModeScheduling && !cluster.isAlive) = false) (s : State) :
    WellShaped c env request cluster s ↔ Promised c request s (schedule c env request cluster s) := by
  rw [WellShaped, Schedule, if_neg (by rw [ha]; exact Bool.false_ne_true)]
  cases hc : schedule c env request cluster s with
  | error => exact Iff.rfl
  | ok r =>
    obtain ⟨selected, s'⟩ := r
    cases selected <;> exact Iff.rfl

theorem promised_neutral (hm : request.schedulingMode = .neutral) (s : State) :
    Promised c request s (scheduleNeutral c env request s (toClusterViewScheduling cluster)) ↔
      ∃ p, newDispatchPolicyInternal c .neutral = some p ∧
        Works c env p (target c .neutral cluster.views) := by
  rw [scheduleNeutral]
  rcases executeSchedule_spec (tracks_start c env cluster) .neutral s with
    ⟨hn, e, he⟩ | ⟨p, hp, hc⟩
  · rw [he, hn]
    exact iff_of_false id (by simp)
  simp only [hp, Option.some.injEq, exists_eq_left']
  rcases hc with ⟨hn, e, he⟩ | ⟨hw, ⟨-, views', -, hok⟩ | ⟨v, -, s', views', -, -, hok⟩⟩
  · rw [he]
    exact iff_of_false id hn
  · rw [hok]
    exact iff_of_true rfl hw
  · rw [hok]
    refine iff_of_true ?_ hw
    simp [Promised, Complete, hm, schResults, reduceOption_singleton]

theorem promised_pd (hm : request.schedulingMode ≠ .neutral) (s : State) : Promised c request s
      (match schedulePrefill c env request s (toClusterViewScheduling cluster) with
        | .error e => .error e
        | .ok ⟨prefill, s, views⟩ =>
          match scheduleDecode c env request prefill s views with
          | .error e => .error e
          | .ok ⟨decode, s, _⟩ => .ok ([[prefill], [decode]], s)) ↔
      (request.roles ≠ [] ∧ ∀ t ∈ request.roles, Served c env cluster t) := by
  have hro : (∀ t ∈ request.roles, Served c env cluster t) ↔
      (request.needPrefill = true → Served c env cluster .prefill) ∧
        (request.needDecode = true → Served c env cluster .decode) := by
    cases hnd : request.needPrefill <;> cases hnee : request.needDecode <;>
      simp [roles, hnd, hnee]
  -- an answer of two positions is complete when they hold the roles asked for
  have ha : ∀ (prefill decode : Option InstanceViewScheduling) (s' : State),
      Promised c request s (.ok ([[prefill], [decode]], s')) ↔ request.roles ≠ [] ∧
          positionRoles c .prefill prefill ++ positionRoles c .decode decode = request.roles := by
    intro prefill decode s'
    rw [Promised, complete_iff hm, schResults, positionRoles, positionRoles]
    simp only [map_append, map_map]
    exact Iff.rfl
  rw [hro]
  rcases schedulePrefill_finds request (tracks_start c env cluster) s with
    ⟨hp, e, hok, ht, hr⟩ | ⟨hne, hp, hc⟩
  · rw [hok]
    rcases scheduleDecode_finds request ht e.state e.selected with
      ⟨hde, e', hok', -, hr'⟩ | ⟨hn', hde, hc'⟩
    · simp only [hok']
      rw [ha, hr, hr']
      exact ⟨fun h => ⟨h.1, hp, hde⟩, fun h => ⟨h.1, rfl⟩⟩
    · refine iff_of_false ?_ fun h => hde (h.2.2 hn')
      rcases hc' with ⟨panic, he⟩ | ⟨e', hok', -, hn⟩
      · simp only [he]
        exact id
      · simp only [hok']
        rw [ha, hr, hn, roles, hn']
        simp [positionRoles, reduceOption_singleton]
  · refine iff_of_false ?_ fun h => hp (h.2.1 hne)
    rcases hc with ⟨panic, he⟩ | ⟨e, hok, ht, hn⟩
    · rw [he]
      exact id
    rw [hok]
    rcases scheduleDecode_finds request ht e.state e.selected with
      ⟨-, e', hok', -, hr'⟩ | ⟨-, -, hc'⟩
    · simp only [hok']
      rw [ha, hr', hn, roles, hne]
      simp [positionRoles, reduceOption_singleton]
    · rcases hc' with ⟨panic, he⟩ | ⟨e', hok', -, hno'⟩
      · simp only [he]
        exact id
      · simp only [hok']
        rw [ha, hn, hno', roles, hne]
        simp [positionRoles, reduceOption_singleton]

def sampleInstance (name : String) (inferType : InferType) : LLMInstance where
  version := 0
  ID := name
  model := ""
  inferType := inferType
  endpoint := ⟨name, 8000⟩
  auxIp := ""
  auxPort := 0
  dpRank := 0
  dpSize := 1

/-- A view of an instance with a status of the current second, on a node and in a unit of its own. -/
def sampleView (name : String) (inferType : InferType) (ref : Cms.Ref) (schedulable : Bool) :
    InstanceView where
  instanceId := name
  inst := sampleInstance name inferType
  ref := ref
  schedulable := schedulable
  timestampMs := 0
  nodeId := name
  unitId := name
  dataParallelSize := 1
  reservedInferType := .unset

/-- Load balancing in full mode, with local accounts. -/
def sampleConfig (failoverDomain : FailoverDomain) : SchedulerConfig where
  enableFullModeScheduling := true
  schedulingPolicy := .loadBalance
  enableAdaptivePD := false
  enableInstanceStatusLocalAccount := true
  enableCacheAwareScheduling := false
  failoverDomain := failoverDomain
  instanceStalenessSeconds := 60
  dispatchTopK := 1
  dispatchNeutralLoadMetric := .kvCacheUsageRatioProjected
  dispatchPrefillLoadMetric := .allPrefillsTokensNum
  dispatchDecodeLoadMetric := .kvCacheUsageRatioProjected
  dispatchPrefillCacheLocalityMetric := .kvCacheHitLen
  lite_policy := fun h => nomatch h
  lite_account := fun h => nomatch h
  lite_cache := fun h => nomatch h
  lite_adaptive := fun h => nomatch h

/-- An idle cluster: every load is below its threshold. -/
def sampleEnv : Env where
  now := 0
  valueLess := fun _ _ _ => true
  less := fun _ _ _ => false
  equal := fun _ _ _ => true
  recalculatedLess := fun _ _ => false
  prefixHitTokens := fun _ => 0
  iterate := id
  iterate_perm := fun l => List.Perm.refl l
  intn := fun _ => 0
  intn_lt := fun _ h => h

/-- One prefill instance, and one decode instance that takes no requests. -/
def halfCluster : ClusterView where
  isAlive := true
  views := [sampleView "p" .prefill 0 true, sampleView "d" .decode 1 false]
  nodup := by decide

/-- A read client that has seen two instances and no request. -/
def sampleState : State where
  accounts := ((Cms.Accounts.init 60 false).createView "p" "p").createView "d" "d"
  lastSelectedInstanceId := fun _ => ""

end Llumnix.Dispatch
