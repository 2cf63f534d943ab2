/-
**The dispatch policy of the scheduler.**

A scheduling call sends each group of instance views through the filters of the configured policy, picks one
of the survivors for every role the request asks for and records the request in the local account of what it
picked.  This module models `pkg/scheduler/policy`: `filters.go`, `scheduling_selectors.go`,
`scheduling_policy_registry.go` and `scheduling_policy.go`.

A Go map is a list of entries with distinct keys; wherever the source ranges over one, the environment
decides the order.  The values of the load metrics are floating point numbers that only ever get compared,
so a call sees them through the outcomes of these comparisons.  A panic is an error of the `Except` monad,
distinct from the errors that a call returns.
-/

import Llumnix.CmsLocalAccount

namespace Llumnix.Dispatch

/-! ### Views -/

/-- What a call reads of an instance: the instance itself, its metadata and its last status. -/
structure InstanceView where
  /-- The key under which the client files the view. -/
  instanceId : String
  inst : LLMInstance
  /-- The view object that carries the local account of the instance. -/
  ref : Cms.Ref
  schedulable : Bool
  timestampMs : BitVec 64
  nodeId : String
  unitId : String
  dataParallelSize : Int
  reservedInferType : InferType
  deriving DecidableEq

/-- The grouped views of the CMS client or of the local realtime state. Both file a view by the inference type
of its instance and keep no empty group (`group`). -/
structure ClusterView where
  isAlive : Bool
  views : List InstanceView
  nodup : (views.map (·.instanceId)).Nodup

/-- `instanceViewScheduling`: a view during one call. -/
structure InstanceViewScheduling extends InstanceView where
  needsFailover : Bool
  deriving DecidableEq

/-- `toClusterViewScheduling`: no view needs failover yet. -/
def toClusterViewScheduling (cluster : ClusterView) : List InstanceViewScheduling :=
  cluster.views.map fun v => { v with needsFailover := false }

/-! ### What the environment decides -/

/-- The metrics a policy can be configured with. -/
inductive SchedulingMetric
  | kvCacheUsageRatioProjected
  | decodeBatchSize
  | numWaitingRequests
  | allPrefillsTokensNum
  | kvCacheHitLen
  | cacheAwareAllPrefillsTokensNum
  | numRequests
  | numTokens
  | allDecodesTokensNum
  | predictedTtft
  | predictedTpot
  deriving DecidableEq

/-- The values a metric is held against. -/
inductive Threshold
  | neutralLoad
  | prefillLoad
  | decodeLoad
  /-- `TtftSlo * TtftSloDispatchThreshold`. -/
  | ttftSlo
  /-- `TpotSlo * TpotSloDispatchThreshold`. -/
  | tpotSlo
  /-- The literal `0.1`: no decode request at all. -/
  | idle
  /-- The product of two fields that are never assigned. -/
  | zero
  deriving DecidableEq

/-- What happens around one call: the clock, the metric values as far as they get compared, the cached
prefixes, the iteration order of maps and the random draw. -/
structure Env where
  now : BitVec 64
  /-- `metric.ValueLess(threshold)` for the metric of an instance. -/
  valueLess : SchedulingMetric → Threshold → String → Bool
  /-- `metric.Less(other)` for the metrics of two instances. -/
  less : SchedulingMetric → String → String → Bool
  equal : SchedulingMetric → String → String → Bool
  /-- `Less` on the times to first token that the decode selector predicts anew. -/
  recalculatedLess : String → String → Bool
  prefixHitTokens : String → BitVec 32
  iterate : List InstanceViewScheduling → List InstanceViewScheduling
  iterate_perm : ∀ l, (iterate l).Perm l
  intn : Nat → Nat
  intn_lt : ∀ k, 0 < k → intn k < k

inductive Panic
  /-- The policy has no entry for the inference type. -/
  | noPolicy (inferType : InferType)
  /-- A metric that was not calculated for the view: a method of a `nil` interface is called. -/
  | nilMetric
  | intn
  deriving DecidableEq

/-! ### Single instance filters -/

/-- The single instance filters.  `instanceAttribute` is `instanceAttributeFilter` on the reserved inference
type, the only attribute a policy rejects. -/
inductive SingleInstanceFilter
  | metricBased (metricName : SchedulingMetric) (threshold : Threshold) (notSkipWhenFallback : Bool)
  | schedulability
  | staleness (instanceStalenessSeconds : BitVec 64)
  | instanceAttribute (rejectedValue : InferType)
  deriving DecidableEq

variable (env : Env)

namespace SingleInstanceFilter

/-- The metrics of a view that `instanceFilteredOut` reads. -/
def reads : SingleInstanceFilter → List SchedulingMetric
  | metricBased metricName _ _ => [metricName]
  | _ => []

def skipWhenFallback : SingleInstanceFilter → Bool
  | metricBased _ _ notSkipWhenFallback => !notSkipWhenFallback
  | schedulability => false
  | staleness _ => false
  | instanceAttribute _ => false

/-- The last status is older than the given number of seconds. -/
def isStale (now : BitVec 64) (instanceStalenessSeconds : BitVec 64) (v : InstanceView) : Bool :=
  instanceStalenessSeconds.slt ((now - v.timestampMs).sdiv 1000)

/-- The verdict of `instanceFilteredOut`. -/
def rejects (v : InstanceView) : SingleInstanceFilter → Bool
  | metricBased metricName threshold _ => !env.valueLess metricName threshold v.instanceId
  | schedulability => !v.schedulable
  | staleness seconds => isStale env.now seconds v
  | instanceAttribute rejectedValue => decide (v.reservedInferType = rejectedValue)

/-- The part of the verdict that `instanceFilteredOut` adds to `needsFailover`. -/
def marks (v : InstanceView) : SingleInstanceFilter → Bool
  | metricBased _ _ _ => false
  | schedulability => !v.schedulable
  | staleness seconds => isStale env.now seconds v
  | instanceAttribute _ => false

/-- `instanceFilteredOut`: the verdict, and the view with its mark. -/
def instanceFilteredOut (f : SingleInstanceFilter) (v : InstanceViewScheduling) :
    Bool × InstanceViewScheduling :=
  (f.rejects env v.toInstanceView,
    { v with needsFailover := v.needsFailover || f.marks env v.toInstanceView })

end SingleInstanceFilter

/-! ### The failover filter -/

/-- `consts.FailoverDomain…`: how far the failure of an instance reaches. -/
inductive FailoverDomain
  | ofInstance
  | ofNode
  | ofInstanceUnit
  | ofNodeUnit
  deriving DecidableEq

variable (lastSelectedInstanceId : String) (instanceViews : List InstanceViewScheduling)

/-- `isDataParallelEnabled`: the first view the iteration meets decides for all. -/
def isDataParallelEnabled : Bool :=
  match env.iterate instanceViews with
  | [] => false
  | firstView :: _ => decide (1 < firstView.dataParallelSize)

def getNeedsFailoverInstances : Finset String :=
  ((instanceViews.filter (·.needsFailover)).map (·.instanceId)).toFinset

def getFailoverNodes (needsFailoverInstances : Finset String)
    (instanceViews : List InstanceViewScheduling) : Finset String :=
  ((instanceViews.filter fun v =>
    v.instanceId ∈ needsFailoverInstances ∧ v.nodeId ≠ "").map (·.nodeId)).toFinset

def getNodeFailoverInstances (failoverNodes : Finset String)
    (instanceViews : List InstanceViewScheduling) : Finset String :=
  ((instanceViews.filter fun v => v.nodeId ∈ failoverNodes).map (·.instanceId)).toFinset

def getFailoverUnits (nodeFailoverInstances : Finset String)
    (instanceViews : List InstanceViewScheduling) : Finset String :=
  ((instanceViews.filter fun v => v.instanceId ∈ nodeFailoverInstances).map (·.unitId)).toFinset

def getUnitFailoverInstances (failoverUnits : Finset String)
    (instanceViews : List InstanceViewScheduling) : Finset String :=
  ((instanceViews.filter fun v => v.unitId ∈ failoverUnits).map (·.instanceId)).toFinset

/-- `failoverFilter.filterOutInstances`, the one global filter there is. -/
def failoverFilter (failoverDomain : FailoverDomain)
    (instanceViews : List InstanceViewScheduling) : Finset String :=
  let needsFailoverInstances := getNeedsFailoverInstances instanceViews
  match failoverDomain with
  | .ofInstance => needsFailoverInstances
  | .ofNode =>
    let failoverNodes := getFailoverNodes needsFailoverInstances instanceViews
    getNodeFailoverInstances failoverNodes instanceViews
  | .ofInstanceUnit =>
    if isDataParallelEnabled env instanceViews then
      let failoverUnits := getFailoverUnits needsFailoverInstances instanceViews
      getUnitFailoverInstances failoverUnits instanceViews
    else needsFailoverInstances
  | .ofNodeUnit =>
    let failoverNodes := getFailoverNodes needsFailoverInstances instanceViews
    let nodeFailoverInstances := getNodeFailoverInstances failoverNodes instanceViews
    if isDataParallelEnabled env instanceViews then
      let failoverUnits := getFailoverUnits nodeFailoverInstances instanceViews
      getUnitFailoverInstances failoverUnits instanceViews
    else nodeFailoverInstances

/-! ### Filtering -/

variable (sif : List SingleInstanceFilter) (fallback : Bool)

/-- The inner loop of `filter`: every filter runs on the view, because each may leave its mark. -/
def applyFilters (v : InstanceViewScheduling) : Bool × InstanceViewScheduling :=
  sif.foldl (fun turn f =>
    if fallback && f.skipWhenFallback then turn
    else
      let out := f.instanceFilteredOut env turn.2
      (turn.1 || out.1, out.2)) (false, v)

/-- `filter`: the views with their marks, and those that no filter rejects. -/
def filter (gf : List FailoverDomain) (fallback : Bool) :
    List InstanceViewScheduling × List InstanceViewScheduling :=
  let turns := instanceViews.map (applyFilters env sif fallback)
  let marked := turns.map (·.2)
  let available := (turns.filter fun turn => !turn.1).map (·.2)
  (marked, gf.foldl (fun available f =>
    available.filter fun v => v.instanceId ∉ failoverFilter env f marked) available)

/-! ### Selectors -/

inductive DispatchSelector
  | metricBased (topK : Int) (metricNames : List SchedulingMetric)
  | fixedPreference
  | sloPrefillApd
  | sloDecodeApd
  deriving DecidableEq

/-- The metrics that a selector compares.  Those of adaptive PD keep to metrics that all of its entries
calculate. -/
def DispatchSelector.reads : DispatchSelector → List SchedulingMetric
  | metricBased _ metricNames => metricNames
  | _ => []

/-- The lexicographic comparison that the metric based selector makes. -/
def better (env : Env) : List SchedulingMetric → String → String → Bool
  | [], _, _ => false
  | metricName :: metricNames, current, selected =>
    if env.less metricName current selected then true
    else if env.less metricName selected current then false
    else better env metricNames current selected

/-- Scanning for a favourite: the first view is taken, a later one replaces it if it is preferred. -/
def scan (prefers : InstanceViewScheduling → InstanceViewScheduling → Bool)
    (selected : Option InstanceViewScheduling) (v : InstanceViewScheduling) :
    Option InstanceViewScheduling :=
  match selected with
  | none => some v
  | some s => if prefers v s then some v else some s

def best (metricNames : List SchedulingMetric)
    (instanceViews : List InstanceViewScheduling) : Option InstanceViewScheduling :=
  (env.iterate instanceViews).foldl
    (scan fun v s => better env metricNames v.instanceId s.instanceId) none

def randomChoiceFromTopK (topK : Int) (metricNames : List SchedulingMetric)
    (instanceViews : List InstanceViewScheduling) :
    Except Panic (Option InstanceViewScheduling) :=
  let viewList := (env.iterate instanceViews).mergeSort
    fun v w => !better env metricNames w.instanceId v.instanceId
  let topK := if (viewList.length : Int) < topK then (viewList.length : Int) else topK
  if topK ≤ 0 then .error .intn
  else .ok viewList[env.intn topK.toNat]?

/-- `fixedPreferenceSelector.selectInstance`: the last choice while it is there, else any view. -/
def fixedPreference : Option InstanceViewScheduling × String :=
  match instanceViews.find? fun v => v.instanceId = lastSelectedInstanceId with
  | some v => (some v, lastSelectedInstanceId)
  | none =>
    match env.iterate instanceViews with
    | [] => (none, lastSelectedInstanceId)
    | v :: _ => (some v, v.instanceId)

def sloPrefillApd : Option InstanceViewScheduling :=
  (env.iterate instanceViews).foldl
    (scan fun v s => env.less .predictedTtft v.instanceId s.instanceId ||
      env.equal .predictedTtft v.instanceId s.instanceId &&
        decide (v.reservedInferType = .prefill)) none

/-- The scan of `sloDecodeApdSelector` without fallback: a view reserved for decoding ends it, unless
it is the first one. -/
def sloDecodeScan (env : Env) (selected : InstanceViewScheduling) :
    List InstanceViewScheduling → InstanceViewScheduling
  | [] => selected
  | v :: rest =>
    if v.reservedInferType = .decode then v
    else if env.less .predictedTpot selected.instanceId v.instanceId then sloDecodeScan env v rest
    else sloDecodeScan env selected rest

/-- One turn of the scan of `sloDecodeApdSelector` with fallback: the favourite below the threshold and
the one above it. -/
def sloDecodeFallbackTurn (turn : Option InstanceViewScheduling × Option InstanceViewScheduling)
    (v : InstanceViewScheduling) :
    Option InstanceViewScheduling × Option InstanceViewScheduling :=
  if env.valueLess .predictedTpot .zero v.instanceId then
    (scan (fun v s => env.less .predictedTpot s.instanceId v.instanceId ||
      env.equal .predictedTpot s.instanceId v.instanceId &&
        env.recalculatedLess v.instanceId s.instanceId) turn.1 v, turn.2)
  else (turn.1, scan (fun v s => env.less .predictedTpot v.instanceId s.instanceId) turn.2 v)

def sloDecodeApd : Option InstanceViewScheduling :=
  if fallback then
    let turn := (env.iterate instanceViews).foldl (sloDecodeFallbackTurn env) (none, none)
    turn.1.or turn.2
  else
    match env.iterate instanceViews with
    | [] => none
    | v :: rest => some (sloDecodeScan env v rest)

/-- `dispatchSelector.selectInstance`, with the memory of `fixedPreferenceSelector`. -/
def DispatchSelector.selectInstance : DispatchSelector → Except Panic (Option InstanceViewScheduling × String)
  | metricBased topK metricNames =>
    if topK = 1 then .ok (best env metricNames instanceViews, lastSelectedInstanceId)
    else (randomChoiceFromTopK env topK metricNames instanceViews).map (·, lastSelectedInstanceId)
  | fixedPreference => .ok (Dispatch.fixedPreference env lastSelectedInstanceId instanceViews)
  | sloPrefillApd => .ok (Dispatch.sloPrefillApd env instanceViews, lastSelectedInstanceId)
  | sloDecodeApd => .ok (Dispatch.sloDecodeApd env instanceViews fallback, lastSelectedInstanceId)

/-! ### Policies -/

inductive SchedulingPolicy
  | loadBalance
  | flood
  | slo
  deriving DecidableEq

/-- The part of `options.SchedulerConfig` that a call reads, as `verifyConfig` leaves it: the lite mode has
load balancing and no feature of the full mode. -/
structure SchedulerConfig where
  enableFullModeScheduling : Bool
  schedulingPolicy : SchedulingPolicy
  enableAdaptivePD : Bool
  enableInstanceStatusLocalAccount : Bool
  enableCacheAwareScheduling : Bool
  failoverDomain : FailoverDomain
  instanceStalenessSeconds : BitVec 64
  dispatchTopK : Int
  dispatchNeutralLoadMetric : SchedulingMetric
  dispatchPrefillLoadMetric : SchedulingMetric
  dispatchDecodeLoadMetric : SchedulingMetric
  dispatchPrefillCacheLocalityMetric : SchedulingMetric
  lite_policy : enableFullModeScheduling = false → schedulingPolicy = .loadBalance
  lite_account : enableFullModeScheduling = false → enableInstanceStatusLocalAccount = false
  lite_cache : enableFullModeScheduling = false → enableCacheAwareScheduling = false
  lite_adaptive : enableFullModeScheduling = false → enableAdaptivePD = false

/-- `inferTypeBaseDispatchPolicy`: what a policy does for one inference type. -/
structure InferTypeBaseDispatchPolicy where
  metrics : List SchedulingMetric
  globalFilters : List FailoverDomain
  singleInstanceFilters : List SingleInstanceFilter
  selectors : DispatchSelector
  deriving DecidableEq

abbrev BaseDispatchPolicy := InferType → Option InferTypeBaseDispatchPolicy

variable (c : SchedulerConfig)

/-- The filters every full mode policy starts with. -/
def healthFilters : List SingleInstanceFilter :=
  [.schedulability, .staleness c.instanceStalenessSeconds]

/-- An entry of `newLoadBalanceDispatchFullMode`; `localityMetrics` are put in front if the scheduling
is aware of caches. -/
def loadBalanceFullMode (loadMetric : SchedulingMetric) (threshold : Threshold)
    (localityMetrics : List SchedulingMetric) : InferTypeBaseDispatchPolicy where
  metrics := localityMetrics ++ [loadMetric]
  globalFilters := [c.failoverDomain]
  singleInstanceFilters := healthFilters c ++ [.metricBased loadMetric threshold false]
  selectors := .metricBased c.dispatchTopK (localityMetrics ++ [loadMetric])

def newLoadBalanceDispatchFullMode : BaseDispatchPolicy :=
  let localityMetrics :=
    if c.enableCacheAwareScheduling then [c.dispatchPrefillCacheLocalityMetric] else []
  fun
  | .prefill => some (loadBalanceFullMode c c.dispatchPrefillLoadMetric .prefillLoad localityMetrics)
  | .decode => some (loadBalanceFullMode c c.dispatchDecodeLoadMetric .decodeLoad [])
  | .neutral => some (loadBalanceFullMode c c.dispatchNeutralLoadMetric .neutralLoad localityMetrics)
  | _ => none

/-- An entry of `newLoadBalanceDispatchLiteMode`. -/
def loadBalanceLiteMode (loadMetric : SchedulingMetric)
    (threshold : Threshold) : InferTypeBaseDispatchPolicy where
  metrics := [loadMetric]
  globalFilters := []
  singleInstanceFilters := [.metricBased loadMetric threshold false]
  selectors := .metricBased c.dispatchTopK [loadMetric]

def newLoadBalanceDispatchLiteMode : BaseDispatchPolicy
  | .prefill => some (loadBalanceLiteMode c c.dispatchPrefillLoadMetric .prefillLoad)
  | .decode => some (loadBalanceLiteMode c c.dispatchDecodeLoadMetric .decodeLoad)
  | .neutral => some (loadBalanceLiteMode c c.dispatchNeutralLoadMetric .neutralLoad)
  | _ => none

/-- The entry of `newFloodDispatchPolicyFullMode`, the same for every inference type. -/
def floodFullMode : InferTypeBaseDispatchPolicy where
  metrics := []
  globalFilters := [c.failoverDomain]
  singleInstanceFilters := healthFilters c
  selectors := .fixedPreference

def newFloodDispatchPolicyFullMode : BaseDispatchPolicy
  | .prefill => some (floodFullMode c)
  | .decode => some (floodFullMode c)
  | .neutral => some (floodFullMode c)
  | _ => none

/-- An entry of `newSloDispatchFullMode`: a request that cannot meet its objective is rejected, also in
the fallback round. -/
def sloFullMode (metric : SchedulingMetric) (threshold : Threshold) : InferTypeBaseDispatchPolicy where
  metrics := [metric]
  globalFilters := [c.failoverDomain]
  singleInstanceFilters := healthFilters c ++ [.metricBased metric threshold true]
  selectors := .metricBased c.dispatchTopK [metric]

/-- The prefill entry after `configureAdaptivePDForSlo`. -/
def adaptivePrefill : InferTypeBaseDispatchPolicy where
  metrics := [.predictedTtft, .decodeBatchSize, .predictedTpot]
  globalFilters := [c.failoverDomain]
  singleInstanceFilters := healthFilters c ++
    [.instanceAttribute .decode, .metricBased .predictedTtft .ttftSlo false,
      .metricBased .decodeBatchSize .idle true]
  selectors := .sloPrefillApd

/-- The decode entry after `configureAdaptivePDForSlo`. -/
def adaptiveDecode : InferTypeBaseDispatchPolicy where
  metrics := [.predictedTpot, .predictedTtft, .decodeBatchSize]
  globalFilters := [c.failoverDomain]
  singleInstanceFilters := healthFilters c ++
    [.instanceAttribute .prefill, .metricBased .predictedTtft .tpotSlo false,
      .metricBased .predictedTpot .tpotSlo false]
  selectors := .sloDecodeApd

/-- `newSloDispatchFullMode`: there is no entry for neutral instances. -/
def newSloDispatchFullMode : BaseDispatchPolicy
  | .prefill => some (if c.enableAdaptivePD then adaptivePrefill c
      else sloFullMode c .predictedTtft .ttftSlo)
  | .decode => some (if c.enableAdaptivePD then adaptiveDecode c
      else sloFullMode c .predictedTpot .tpotSlo)
  | _ => none

def newDispatchPolicyInternal : BaseDispatchPolicy :=
  match c.schedulingPolicy with
  | .loadBalance =>
    if c.enableFullModeScheduling then newLoadBalanceDispatchFullMode c
    else newLoadBalanceDispatchLiteMode c
  | .flood => newFloodDispatchPolicyFullMode c
  | .slo => newSloDispatchFullMode c

/-! ### The call -/

/-- `types.SchedulingRequest`, as far as a call reads it. -/
structure SchedulingRequest where
  id : String
  schedulingMode : SchedulingMode
  /-- Only a staged request names a stage. -/
  schedulingStage : Option SchedulingStage
  promptNumTokens : Int
  deriving DecidableEq

/-- What a call changes: the local accounts and the memory of the selectors. -/
structure State where
  accounts : Cms.Accounts
  lastSelectedInstanceId : InferType → String

inductive ScheduleError
  | cmsNotAvailable
  | noAvailableEndpoint
  deriving DecidableEq

/-- An instance of the answer, with the view it was copied from. -/
structure Target where
  view : InstanceView
  inst : LLMInstance
  deriving DecidableEq

/-- The group of a view.  The CMS client takes the inference type as it is written, the local realtime state
takes every other one for neutral. -/
def group (v : InstanceView) : InferType :=
  if c.enableFullModeScheduling then v.inst.inferType
  else
    match v.inst.inferType with
    | .decode => .decode
    | .prefill => .prefill
    | _ => .neutral

/-- The metrics that `calculateMetrics` has stored in a view: those of the entry of its group. -/
def metricsOf (v : InstanceView) : List SchedulingMetric :=
  ((newDispatchPolicyInternal c (group c v)).map (·.metrics)).getD []

/-- A view has no value for one of the metrics. -/
def lacks (metricNames : List SchedulingMetric) (views : List InstanceViewScheduling) : Bool :=
  views.any fun v => metricNames.any fun m => decide (m ∉ metricsOf c v.toInstanceView)

/-- The views that `executeSchedule` looks at. -/
def targetInstanceViews (inferType : InferType)
    (views : List InstanceViewScheduling) : List InstanceViewScheduling :=
  if c.enableAdaptivePD then views else views.filter fun v => group c v.toInstanceView = inferType

/-- The views are shared: what the filters marked is marked everywhere. -/
def writeBack (views marked : List InstanceViewScheduling) : List InstanceViewScheduling :=
  views.map fun v => (marked.find? fun w => w.instanceId = v.instanceId).getD v

/-- What `executeSchedule` leaves behind. -/
structure Execution where
  selected : Option InstanceViewScheduling
  state : State
  views : List InstanceViewScheduling

/-- The two filter rounds of `executeSchedule`: whether the second one took place, the views with their
marks and those that are left. -/
def filterRounds (p : InferTypeBaseDispatchPolicy) (targetInstanceViews : List InstanceViewScheduling) :
    Bool × List InstanceViewScheduling × List InstanceViewScheduling :=
  let first := filter env targetInstanceViews p.singleInstanceFilters p.globalFilters false
  if first.2.isEmpty then
    (true, filter env first.1 p.singleInstanceFilters p.globalFilters true)
  else (false, first)

/-- `executeSchedule`: filter, filter once more with fallback if nothing is left, select. The first round runs
every filter on every view, so a missing metric a selector meets is the first one it reads. -/
def executeSchedule (env : Env) (inferType : InferType) (s : State)
    (views : List InstanceViewScheduling) : Except Panic Execution :=
  match newDispatchPolicyInternal c inferType with
  | none => .error (.noPolicy inferType)
  | some p =>
    let targets := targetInstanceViews c inferType views
    if lacks c (p.singleInstanceFilters.flatMap (·.reads)) targets then .error .nilMetric
    else
      match filterRounds env p targets with
      | (_, marked, []) => .ok ⟨none, s, writeBack views marked⟩
      | (fallback, marked, available) =>
        if 1 < available.length ∧ lacks c p.selectors.reads available then .error .nilMetric
        else
          match p.selectors.selectInstance env (s.lastSelectedInstanceId inferType) available
            fallback with
          | .error e => .error e
          | .ok (selected, lastSelected) =>
            .ok ⟨selected,
              { s with lastSelectedInstanceId :=
                  Function.update s.lastSelectedInstanceId inferType lastSelected },
              writeBack views marked⟩

variable (request : SchedulingRequest)

/-- `int32(request.PromptNumTokens)`, or zero without local accounts. -/
def SchedulingRequest.numTokens : BitVec 32 :=
  if c.enableInstanceStatusLocalAccount then BitVec.ofInt 32 request.promptNumTokens else 0

/-- `AddRequestLocalAccount`, if local accounts are enabled.  The view object exists: the call got the
pointer from the client. -/
def addRequestLocalAccount (env : Env) (request : SchedulingRequest)
    (inferType : InferType) (v : InstanceViewScheduling) (s : State) : State :=
  if c.enableInstanceStatusLocalAccount then
    { s with accounts := (Cms.exec s.accounts (.add v.ref inferType (request.numTokens c)
        (env.prefixHitTokens v.instanceId) request.id env.now)).getD s.accounts }
  else s

/-- `RevertRequestPrefillLocalAccount`, if local accounts are enabled. -/
def revertRequestPrefillLocalAccount (env : Env) (request : SchedulingRequest)
    (v : InstanceViewScheduling) (s : State) : State :=
  if c.enableInstanceStatusLocalAccount then
    { s with accounts := (Cms.exec s.accounts (.revert v.ref (request.numTokens c)
        (env.prefixHitTokens v.instanceId) request.id)).getD s.accounts }
  else s

def SchedulingRequest.needPrefill : Bool :=
  request.schedulingMode = .pdBatch ||
    (request.schedulingMode = .pdStaged && request.schedulingStage = some .prefill)

def SchedulingRequest.needDecode : Bool :=
  request.schedulingMode = .pdBatch ||
    (request.schedulingMode = .pdStaged && request.schedulingStage = some .decode)

def groups (views : List InstanceView) : Finset InferType :=
  (views.map (group c)).toFinset

/-- `calculateMetrics` for every group: it needs an entry of the policy for each of them. -/
def calculateMetrics (views : List InstanceView) : Except Panic Unit :=
  match views.find? fun v => (newDispatchPolicyInternal c (group c v)).isNone with
  | none => .ok ()
  | some v => .error (.noPolicy (group c v))

def scheduleNeutral (env : Env) (request : SchedulingRequest) (s : State)
    (views : List InstanceViewScheduling) :
    Except Panic (List (List (Option InstanceViewScheduling)) × State) :=
  match executeSchedule c env .neutral s views with
  | .error e => .error e
  | .ok ⟨none, s, _⟩ => .ok ([], s)
  | .ok ⟨some neutral, s, _⟩ =>
    .ok ([[some neutral]], addRequestLocalAccount c env request .neutral neutral s)

def schedulePrefill (env : Env) (request : SchedulingRequest) (s : State)
    (views : List InstanceViewScheduling) : Except Panic Execution :=
  if request.needPrefill then
    match executeSchedule c env .prefill s views with
    | .error e => .error e
    | .ok ⟨none, s, views⟩ => .ok ⟨none, s, views⟩
    | .ok ⟨some v, s, views⟩ =>
      .ok ⟨some v, addRequestLocalAccount c env request .prefill v s, views⟩
  else .ok ⟨none, s, views⟩

/-- The decode part of `schedule`: without a decode instance the account of the prefill instance is
reverted. -/
def scheduleDecode (env : Env) (request : SchedulingRequest)
    (prefill : Option InstanceViewScheduling) (s : State) (views : List InstanceViewScheduling) :
    Except Panic Execution :=
  if request.needDecode then
    match executeSchedule c env .decode s views with
    | .error e => .error e
    | .ok ⟨none, s, views⟩ =>
      match prefill with
      | none => .ok ⟨none, s, views⟩
      | some v => .ok ⟨none, revertRequestPrefillLocalAccount c env request v s, views⟩
    | .ok ⟨some v, s, views⟩ =>
      .ok ⟨some v, addRequestLocalAccount c env request .decode v s, views⟩
  else .ok ⟨none, s, views⟩

/-- `DispatchPolicy.schedule`: for every position of the answer the selected view or `nil`; two positions
outside the neutral mode. -/
def schedule (env : Env) (request : SchedulingRequest) (cluster : ClusterView)
    (s : State) : Except Panic (List (List (Option InstanceViewScheduling)) × State) :=
  match calculateMetrics c cluster.views with
  | .error e => .error e
  | .ok _ =>
    if request.schedulingMode = .neutral then
      if InferType.neutral ∈ groups c cluster.views then
        scheduleNeutral c env request s (toClusterViewScheduling cluster)
      else .ok ([], s)
    else if (groups c cluster.views).card = 1 then .ok ([], s)
    else
      match schedulePrefill c env request s (toClusterViewScheduling cluster) with
      | .error e => .error e
      | .ok ⟨prefill, s, views⟩ =>
        match scheduleDecode c env request prefill s views with
        | .error e => .error e
        | .ok ⟨decode, s, _⟩ => .ok ([[prefill], [decode]], s)

/-- An instance of the answer: under adaptive PD its role is that of its position. -/
def toTarget (role : InferType) (v : InstanceViewScheduling) : Target where
  view := v.toInstanceView
  inst := if c.enableAdaptivePD then { v.inst with inferType := role } else v.inst

/-- The loops that collect the answer, which skip `nil`. -/
def schResults : List (List (Option InstanceViewScheduling)) → List Target
  | [] => []
  | [first] => first.reduceOption.map (toTarget c .prefill)
  | first :: second :: _ =>
    first.reduceOption.map (toTarget c .prefill) ++
      second.reduceOption.map (toTarget c .decode)

def Schedule (env : Env) (request : SchedulingRequest) (cluster : ClusterView)
    (s : State) : Except Panic (Except ScheduleError (List Target) × State) :=
  if c.enableFullModeScheduling && !cluster.isAlive then .ok (.error .cmsNotAvailable, s)
  else
    match schedule c env request cluster s with
    | .error e => .error e
    | .ok ([], s) => .ok (.error .noAvailableEndpoint, s)
    | .ok (selectedInstances, s) => .ok (.ok (schResults c selectedInstances), s)

end Llumnix.Dispatch
