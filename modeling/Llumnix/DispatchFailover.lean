/-
**Failure domains.**

When an instance fails, those on its node, of its unit, or of the units that touch its node should get no
requests, as the configuration says.  The failover filter is shown only the views of the role that is being
scheduled, so the failure of an instance of another role goes unnoticed.

* `avoidsFailureDomains_iff` — **dispatch avoids the failure domains of the cluster exactly when they do not
  reach from one role into another**;
* `filtering_exact` — **what a round of filters leaves of the views it is shown**.
-/

import Llumnix.DispatchShape

namespace Llumnix.Dispatch

open List SingleInstanceFilter

variable {c : SchedulerConfig} {env : Env} {cluster : ClusterView}
variable {t : InferType} {p : InferTypeBaseDispatchPolicy} {views : List InstanceViewScheduling}
  {s : State} {e : Execution} {request : SchedulingRequest} {v : InstanceView} {n : Int}

/-! ### Failure domains -/

/-- The two instances are on the same node.  An instance that reports no node is on none. -/
def sameNode (f v : InstanceView) : Bool := decide (f.nodeId ≠ "" ∧ v.nodeId = f.nodeId)

/-- **The failure domain of `f`, drawn among the given views, contains `v`.** Without data parallelism a unit
is an instance. -/
def inFailureDomain (d : FailoverDomain) (dataParallel : Bool) (views : List InstanceView)
    (f v : InstanceView) : Bool :=
  decide (v.instanceId = f.instanceId) ||
    match d with
    | .ofInstance => false
    | .ofNode => sameNode f v
    | .ofInstanceUnit => dataParallel && decide (v.unitId = f.unitId)
    | .ofNodeUnit =>
      if dataParallel then views.any fun w => sameNode f w && decide (v.unitId = w.unitId)
      else sameNode f v

/-- The instance is unschedulable or stale at the given time. -/
def failingAt (c : SchedulerConfig) (now : BitVec 64) (v : InstanceView) : Bool :=
  c.enableFullModeScheduling &&
    (!v.schedulable || SingleInstanceFilter.isStale now c.instanceStalenessSeconds v)

section

variable {views : List InstanceView}
variable {v : InstanceView}

theorem isDataParallelEnabled_flagged {n : Int} (hdp : ∀ v ∈ views, v.dataParallelSize = n)
    (hne : views ≠ []) : isDataParallelEnabled env (flagged c env views) = decide (1 < n) := by
  have hp := env.iterate_perm (flagged c env views)
  rw [isDataParallelEnabled]
  split
  · next hn =>
    rw [hn] at hp
    exact absurd (map_eq_nil_iff.1 hp.symm.eq_nil) hne
  · next w rest hc =>
    rw [hc] at hp
    have hm := (mem_flagged.1 (hp.mem_iff.1 mem_cons_self)).1
    rw [hdp _ hm]

theorem mem_collected (q : InstanceViewScheduling → Bool) (f : InstanceViewScheduling → String) (x : String) :
    x ∈ (((flagged c env views).filter q).map f).toFinset ↔
      ∃ w ∈ views, q (w.flag (failing c env w)) = true ∧ f (w.flag (failing c env w)) = x := by
  simp [flagged, and_assoc]

/-- Collecting the ids of some of the views: distinct ids tell the views apart. -/
theorem mem_ids (hn : (views.map (·.instanceId)).Nodup) (q : InstanceViewScheduling → Bool)
    (hv : v ∈ views) : v.instanceId ∈ (((flagged c env views).filter q).map (·.instanceId)).toFinset ↔
      q (v.flag (failing c env v)) = true := by
  rw [mem_collected]
  constructor
  · rintro ⟨w, hw, hq, hid⟩
    rwa [← inj_on_of_nodup_map hn hw hv hid]
  · exact fun hq => ⟨v, hv, hq, rfl⟩

theorem mem_getNeedsFailoverInstances (hn : (views.map (·.instanceId)).Nodup) (hv : v ∈ views) :
    v.instanceId ∈ getNeedsFailoverInstances (flagged c env views) ↔ failing c env v = true :=
  mem_ids hn _ hv

theorem mem_getFailoverNodes (hno : (views.map (·.instanceId)).Nodup) (node : String) :
    node ∈ getFailoverNodes (getNeedsFailoverInstances (flagged c env views)) (flagged c env views) ↔
      ∃ f ∈ views, failing c env f = true ∧ f.nodeId ≠ "" ∧ node = f.nodeId := by
  refine (mem_collected _ _ _).trans (exists_congr fun f => and_congr_right fun hf => ?_)
  rw [decide_eq_true_eq, and_assoc, eq_comm]
  exact and_congr_left fun _ => mem_getNeedsFailoverInstances hno hf

theorem mem_getNodeFailoverInstances (hn : (views.map (·.instanceId)).Nodup) (hv : v ∈ views) :
    v.instanceId ∈ getNodeFailoverInstances
        (getFailoverNodes (getNeedsFailoverInstances (flagged c env views)) (flagged c env views))
        (flagged c env views) ↔ ∃ f ∈ views, failing c env f = true ∧ sameNode f v = true := by
  rw [getNodeFailoverInstances, mem_ids hn _ hv, decide_eq_true_eq]
  exact (mem_getFailoverNodes hn _).trans (by simp only [sameNode, decide_eq_true_eq]; rfl)

theorem mem_getUnitFailoverInstances (hn : (views.map (·.instanceId)).Nodup) (ids : Finset String)
    (hv : v ∈ views) : v.instanceId ∈ getUnitFailoverInstances (getFailoverUnits ids (flagged c env views))
        (flagged c env views) ↔ ∃ w ∈ views, w.instanceId ∈ ids ∧ v.unitId = w.unitId := by
  rw [getUnitFailoverInstances, mem_ids hn _ hv, decide_eq_true_eq]
  refine (mem_collected _ _ _).trans (exists_congr fun w => and_congr_right fun _ => ?_)
  rw [decide_eq_true_eq, eq_comm]
  rfl

/-- **The failover filter draws the failure domains among the views it is shown**; a failing instance itself
is left to the single instance filters. -/
theorem mem_failoverFilter (hn : (views.map (·.instanceId)).Nodup) {n : Int}
    (hdp : ∀ v ∈ views, v.dataParallelSize = n) (d : FailoverDomain) (hv : v ∈ views) :
    (failing c env v = true ∨ v.instanceId ∈ failoverFilter env d (flagged c env views)) ↔
      ∃ f ∈ views, failing c env f = true ∧ inFailureDomain d (decide (1 < n)) views f v = true := by
  have hse : (∃ f ∈ views, failing c env f = true ∧ v.instanceId = f.instanceId) ↔
      failing c env v = true := by
    constructor
    · rintro ⟨f, hf, hfa, hid⟩
      rwa [inj_on_of_nodup_map hn hv hf hid]
    · exact fun hfa => ⟨v, hv, hfa, rfl⟩
  have hs : ∀ q : InstanceView → Bool,
      (∃ f ∈ views, failing c env f = true ∧ (decide (v.instanceId = f.instanceId) || q f) = true) ↔
        failing c env v = true ∨ ∃ f ∈ views, failing c env f = true ∧ q f = true := by
    intro q
    rw [← hse]
    simp only [Bool.or_eq_true, decide_eq_true_eq, and_or_left, exists_or]
  have hp : isDataParallelEnabled env (flagged c env views) = decide (1 < n) :=
    isDataParallelEnabled_flagged hdp (ne_nil_of_mem hv)
  -- where the filter excludes the failing instances only, both sides say that the instance fails
  have hi : (failing c env v = true ∨ v.instanceId ∈ getNeedsFailoverInstances (flagged c env views)) ↔
        failing c env v = true ∨ ∃ f ∈ views, failing c env f = true ∧ false = true := by
    rw [mem_getNeedsFailoverInstances hn hv]
    simp
  cases d with
  | ofInstance => exact hi.trans (hs fun _ => false).symm
  | ofNode =>
    refine Iff.trans (or_congr_right ?_) (hs fun f => sameNode f v).symm
    exact mem_getNodeFailoverInstances hn hv
  | ofInstanceUnit =>
    refine Iff.trans ?_ (hs fun f => decide (1 < n) && decide (v.unitId = f.unitId)).symm
    rw [failoverFilter, hp]
    cases decide (1 < n) with
    | false => exact hi
    | true =>
      refine or_congr_right ?_
      simp only [if_true, mem_getUnitFailoverInstances hn _ hv, Bool.true_and, decide_eq_true_eq]
      refine exists_congr fun f => and_congr_right fun hf => and_congr_left fun _ => ?_
      exact mem_getNeedsFailoverInstances hn hf
  | ofNodeUnit =>
  refine Iff.trans ?_ (hs fun f => if decide (1 < n) = true then
    views.any fun w => sameNode f w && decide (v.unitId = w.unitId) else sameNode f v).symm
  rw [failoverFilter, hp]
  refine or_congr_right ?_
  cases decide (1 < n) with
  | false => exact mem_getNodeFailoverInstances hn hv
  | true =>
  simp only [if_true, mem_getUnitFailoverInstances hn _ hv, any_eq_true,
    Bool.and_eq_true, decide_eq_true_eq]
  constructor
  · rintro ⟨w, hw, hid, hu⟩
    obtain ⟨f, hf, hfa, hno⟩ := (mem_getNodeFailoverInstances hn hw).1 hid
    exact ⟨f, hf, hfa, w, hw, hno, hu⟩
  · rintro ⟨f, hf, hfa, w, hw, hno, hu⟩
    exact ⟨w, hw, (mem_getNodeFailoverInstances hn hw).2 ⟨f, hf, hfa, hno⟩, hu⟩

end

/-! ### What a call returns -/

/-- The selector of a full mode policy can draw. -/
def Draws (c : SchedulerConfig) : Prop :=
  c.schedulingPolicy = .flood ∨ (c.schedulingPolicy = .slo ∧ c.enableAdaptivePD = true) ∨ 0 < c.dispatchTopK

/-- The entries of a full mode policy that adaptive PD leaves alone: their filters and their selector keep to
health and metrics. -/
theorem entry_plain (hfu : c.enableFullModeScheduling = true)
    (hpl : c.schedulingPolicy = .slo → c.enableAdaptivePD = false)
    (hp : newDispatchPolicyInternal c t = some p) :
    (∀ f ∈ p.singleInstanceFilters, f ∈ healthFilters c ∨ ∃ m th n, f = .metricBased m th n) ∧
      ((∃ names, p.selectors = .metricBased c.dispatchTopK names ∧ c.schedulingPolicy ≠ .flood) ∨
        (p.selectors = .fixedPreference ∧ c.schedulingPolicy = .flood)) ∧
      (t = .prefill ∨ t = .decode ∨ t = .neutral) := by
  have he : ∀ m th b, ∀ f ∈ healthFilters c ++ [metricBased m th b],
      f ∈ healthFilters c ∨ ∃ m th n, f = .metricBased m th n := by
    intro m th b f hf
    exact (mem_append.1 hf).imp_right fun hf => ⟨m, th, b, mem_singleton.1 hf⟩
  cases hpo : c.schedulingPolicy with
  | loadBalance =>
    cases t <;>
      simp [newDispatchPolicyInternal, hpo, hfu, newLoadBalanceDispatchFullMode] at hp
    all_goals
      subst hp
      exact ⟨he _ _ _, .inl ⟨_, rfl, by simp⟩, by simp⟩
  | flood =>
    cases t <;> simp [newDispatchPolicyInternal, hpo, newFloodDispatchPolicyFullMode] at hp
    all_goals
      subst hp
      exact ⟨fun f hf => .inl hf, .inr ⟨rfl, rfl⟩, by simp⟩
  | slo =>
  cases t <;> simp [newDispatchPolicyInternal, hpo, newSloDispatchFullMode, hpl hpo] at hp
  all_goals
    subst hp
    exact ⟨he _ _ _, .inl ⟨_, rfl, by simp⟩, by simp⟩

theorem selectable_iff_draws (hf : c.enableFullModeScheduling = true)
    (hp : newDispatchPolicyInternal c t = some p) : p.selectors.Selectable ↔ Draws c := by
  by_cases ha : c.schedulingPolicy = .slo ∧ c.enableAdaptivePD = true
  · rw [newDispatchPolicyInternal, ha.1] at hp
    cases t <;> simp [newSloDispatchFullMode, ha.2] at hp
    all_goals
      subst hp
      exact iff_of_true trivial (.inr (.inl ha))
  · rcases (entry_plain hf (fun h => by simpa [h] using ha) hp).2.1 with ⟨names, hs, hpo⟩ | ⟨hs, hpo⟩
    · rw [hs]
      simp [DispatchSelector.Selectable, Draws, hpo, ha]
    · rw [hs]
      exact iff_of_true trivial (.inl hpo)

/-- The view was let through for some role, by a selector that could pick it. -/
def Admitted (c : SchedulerConfig) (env : Env) (cluster : ClusterView) (v : InstanceView) : Prop :=
  ∃ t p, newDispatchPolicyInternal c t = some p ∧ p.selectors.Selectable ∧
    Eligible c env p (target c t cluster.views) true v

theorem admitted_of_executeSchedule (ht : Tracks c env cluster views)
    (hok : executeSchedule c env t s views = .ok e) :
    Tracks c env cluster e.views ∧ ∀ v, e.selected = some v → Admitted c env cluster v.toInstanceView := by
  rcases executeSchedule_spec ht t s with ⟨-, e', he⟩ | ⟨p, hp, hc⟩
  · cases hok.symm.trans he
  rcases hc with ⟨-, e', he⟩ | ⟨hw, ⟨-, views', ht', hok'⟩ | ⟨v, hv, s', views', -, ht', hok'⟩⟩
  · cases hok.symm.trans he
  · cases hok.symm.trans hok'
    exact ⟨ht', fun v hv => nomatch hv⟩
  · cases hok.symm.trans hok'
    refine ⟨ht', fun w hw' => ?_⟩
    cases hw'
    exact ⟨t, p, hp, hw.draws ⟨_, hv⟩, hv⟩

theorem admitted_of_schedulePrefill (ht : Tracks c env cluster views)
    (hok : schedulePrefill c env request s views = .ok e) :
    Tracks c env cluster e.views ∧ ∀ v, e.selected = some v → Admitted c env cluster v.toInstanceView := by
  rw [schedulePrefill] at hok
  split at hok
  · split at hok
    · cases hok
    all_goals
      next he =>
        obtain ⟨ht', ha⟩ := admitted_of_executeSchedule ht he
        cases hok
        exact ⟨ht', ha⟩
  · cases hok
    exact ⟨ht, fun v hv => by cases hv⟩

theorem admitted_of_scheduleDecode (ht : Tracks c env cluster views)
    {prefill : Option InstanceViewScheduling} (hok : scheduleDecode c env request prefill s views = .ok e) :
    ∀ v, e.selected = some v → Admitted c env cluster v.toInstanceView := by
  rw [scheduleDecode] at hok
  split at hok
  · split at hok
    · cases hok
    · split at hok <;>
        (cases hok
         intro v hv
         cases hv)
    · next he =>
      obtain ⟨-, ha⟩ := admitted_of_executeSchedule ht he
      cases hok
      exact ha
  · cases hok
    intro v hv
    cases hv

/-- **Every instance of an answer was let through for some role**, while the cluster was being watched
and the policy knew all of its groups. -/
theorem admitted_of_schedule {s' : State} {targets : List Target}
    (hok : Schedule c env request cluster s = .ok (.ok targets, s')) {x : Target} (hx : x ∈ targets) :
    (c.enableFullModeScheduling && !cluster.isAlive) = false ∧ Supported c cluster ∧
      Admitted c env cluster x.view := by
  have ht := tracks_start c env cluster
  rw [Schedule] at hok
  split at hok <;> try cases hok
  rename_i ha
  rw [Bool.not_eq_true] at ha
  refine ⟨ha, ?_⟩
  split at hok
  · cases hok
  · cases hok
  rename_i selected s₁ hne hc
  cases hok
  rw [schedule] at hc
  rcases calculateMetrics_spec c cluster with ⟨hs, hm⟩ | ⟨-, e, her⟩
  swap
  · rw [her] at hc
    cases hc
  refine ⟨hs, ?_⟩
  rw [hm] at hc
  simp only at hc
  split at hc
  · split at hc
    · rw [scheduleNeutral] at hc
      split at hc
      · cases hc
      · cases hc
        cases hx
      · next v s₂ views₂ he =>
        cases hc
        obtain rfl : x = toTarget c .prefill v := by
          simpa [schResults, reduceOption_singleton] using hx
        exact (admitted_of_executeSchedule ht he).2 v rfl
    · cases hc
      cases hx
  · split at hc
    · cases hc
      cases hx
    split at hc <;> try cases hc
    rename_i prefill s₂ views₂ hp
    obtain ⟨ht', had⟩ := admitted_of_schedulePrefill ht hp
    split at hc <;> cases hc
    rename_i decode s₃ views₃ hde
    have ha' := admitted_of_scheduleDecode ht' hde
    rcases mem_append.1 hx with hx | hx <;> obtain ⟨v, hv, rfl⟩ := mem_map.1 hx
    · exact had v (by simpa [eq_comm] using reduceOption_mem_iff.1 hv)
    · exact ha' v (by simpa [eq_comm] using reduceOption_mem_iff.1 hv)

/-! ### When dispatch avoids failure domains -/

variable (c cluster)

/-- **What a call should do**: whatever the loads, the request and the accounts, no answer is in the failure
domain of a failing instance of the cluster. -/
def AvoidsFailureDomains (now : BitVec 64) (dataParallel : Bool) : Prop :=
  ∀ (env : Env), env.now = now → ∀ (request : SchedulingRequest) (s s' : State)
    (targets : List Target), Schedule c env request cluster s = .ok (.ok targets, s') →
    ∀ x ∈ targets, ∀ f ∈ cluster.views, failingAt c now f = true →
      inFailureDomain c.failoverDomain dataParallel cluster.views f x.view = false

/-- Calls answer at all: the cluster metadata store is there, the policy knows all groups and its
selectors can draw. -/
def Answers : Prop :=
  cluster.isAlive = true ∧ Supported c cluster ∧ Draws c

/-- **The failure domains are confined to roles**: who is in the domain of a failing instance is in the
domain, drawn among the instances scheduled together with it, of a failing one of these. -/
def Confined (now : BitVec 64) (dataParallel : Bool) : Prop :=
  ∀ v ∈ cluster.views, ∀ f ∈ cluster.views, failingAt c now f = true →
    inFailureDomain c.failoverDomain dataParallel cluster.views f v = true →
    ∃ f' ∈ target c v.inst.inferType cluster.views, failingAt c now f' = true ∧
      inFailureDomain c.failoverDomain dataParallel (target c v.inst.inferType cluster.views) f' v =
        true

variable {c cluster}

theorem group_eq (hfu : c.enableFullModeScheduling = true) (v : InstanceView) :
    group c v = v.inst.inferType :=
  if_pos hfu

theorem target_of_mem (hfu : c.enableFullModeScheduling = true) {views : List InstanceView}
    (hv : v ∈ target c t views) : target c t views = target c v.inst.inferType views := by
  rw [target] at hv
  rw [target, target]
  split
  · rfl
  · next hp =>
    rw [if_neg hp] at hv
    have ht : group c v = t := by simpa using (List.mem_filter.1 hv).2
    rw [← group_eq hfu, ht]

/-- What was let through is outside the failure domains drawn among the views it was scheduled with. -/
theorem Admitted.outside (hfu : c.enableFullModeScheduling = true)
    (hdp : ∀ v ∈ cluster.views, v.dataParallelSize = n) (ha : Admitted c env cluster v) :
    v ∈ cluster.views ∧ ∀ f ∈ target c v.inst.inferType cluster.views, failing c env f = true →
      inFailureDomain c.failoverDomain (decide (1 < n)) (target c v.inst.inferType cluster.views)
        f v = false := by
  obtain ⟨t, p, hp, -, hv⟩ := ha
  have he := entry_of_policy hp
  rw [← target_of_mem hfu hv.mem]
  refine ⟨target_subset t _ hv.mem, fun f hf hfa => ?_⟩
  rw [← Bool.not_eq_true]
  intro hdo
  have hdp' : ∀ w ∈ target c t cluster.views, w.dataParallelSize = n :=
    fun w hw => hdp w (target_subset t _ hw)
  rcases (mem_failoverFilter (nodup_target cluster t) hdp' c.failoverDomain hv.mem).2
    ⟨f, hf, hfa, hdo⟩ with h | h
  · cases (hv.healthy he).symm.trans h
  · refine hv.outside c.failoverDomain ?_ h
    rw [he.globalFilters, if_pos hfu]
    exact mem_singleton.2 rfl

/-! ### A call for every view that is let through

The converse needs loads under which a given view is the one selected: all loads are low, no load is
less than another, and every iteration and every draw begins with the view. -/

/-- Ranging over a map, the given view first. -/
def viewFirst (v : InstanceViewScheduling) (l : List InstanceViewScheduling) :
    List InstanceViewScheduling :=
  if v ∈ l then v :: l.erase v else l

/-- An idle cluster in which everything begins with the given view. -/
def envFavouring (now : BitVec 64) (v : InstanceViewScheduling) : Env where
  now := now
  valueLess := fun _ _ _ => true
  less := fun _ _ _ => false
  equal := fun _ _ _ => true
  recalculatedLess := fun _ _ => false
  prefixHitTokens := fun _ => 0
  iterate := viewFirst v
  iterate_perm := fun l => by
    rw [viewFirst]
    split
    · next h => exact (List.perm_cons_erase h).symm
    · exact List.Perm.refl l
  intn := fun _ => 0
  intn_lt := fun _ h => h

theorem better_envFavouring (now : BitVec 64) (v : InstanceViewScheduling)
    (names : List SchedulingMetric) (a b : String) : better (envFavouring now v) names a b = false := by
  induction names with
  | nil => rfl
  | cons m names ih =>
    rw [better]
    simpa [envFavouring] using ih

theorem foldl_scan_never {prefers : InstanceViewScheduling → InstanceViewScheduling → Bool}
    (hn : ∀ a b, prefers a b = false) (views : List InstanceViewScheduling)
    (s : InstanceViewScheduling) : views.foldl (scan prefers) (some s) = some s := by
  refine views.foldlRecOn (motive := (· = some s)) _ rfl fun t ht w _ => ?_
  rw [ht, scan, hn, if_neg Bool.false_ne_true]

/-- The selectors that go by metrics or by their last choice pick the view that comes first. -/
theorem selectInstance_envFavouring (now : BitVec 64) {v : InstanceViewScheduling}
    {available : List InstanceViewScheduling} (hv : v ∈ available)
    (hu : ∀ w ∈ available, w.instanceId = v.instanceId → w = v) (fallback : Bool)
    {sel : DispatchSelector} (hs : sel.Selectable)
    (hp : (∃ topK names, sel = .metricBased topK names) ∨ sel = .fixedPreference) :
    sel.selectInstance (envFavouring now v) v.instanceId available fallback =
      .ok (some v, v.instanceId) := by
  have hi : (envFavouring now v).iterate available = v :: available.erase v := if_pos hv
  rcases hp with ⟨topK, names, rfl⟩ | rfl
  · have hb := better_envFavouring now v names
    rw [DispatchSelector.selectInstance]
    split
    · rw [best, hi, foldl_cons, scan, foldl_scan_never fun a b => hb _ _]
    have hso : ((envFavouring now v).iterate available).mergeSort
        (fun a b => !better (envFavouring now v) names b.instanceId a.instanceId) =
          v :: available.erase v := by
      rw [hi]
      refine mergeSort_of_pairwise (pairwise_of_forall fun a b => ?_)
      rw [hb]
      rfl
    have hpo : 0 < topK := hs
    simp only [randomChoiceFromTopK, hso]
    rw [if_neg]
    · rfl
    · split
      · simp only [length_cons]
        omega
      · omega
  · obtain ⟨w, hf⟩ : ∃ w, (available.find? fun w => w.instanceId = v.instanceId) = some w := by
      cases hf : available.find? fun w => w.instanceId = v.instanceId with
      | none => exact absurd (find?_eq_none.1 hf v hv) (by simp)
      | some w => exact ⟨w, rfl⟩
    obtain rfl : w = v := hu w (mem_of_find?_eq_some hf) (by simpa using find?_some hf)
    rw [DispatchSelector.selectInstance, fixedPreference, hf]

/-- A state whose selectors remember the given instance. -/
def stateRemembering (v : InstanceViewScheduling) : State where
  accounts := .init 0 false
  lastSelectedInstanceId := fun _ => v.instanceId

section

variable {now : BitVec 64} (hfu : c.enableFullModeScheduling = true) (hpl : c.enableAdaptivePD = false)
  (hdp : ∀ v ∈ cluster.views, v.dataParallelSize = n) (hv : v ∈ cluster.views)
  (ho : ∀ f ∈ target c v.inst.inferType cluster.views, failingAt c now f = true →
    inFailureDomain c.failoverDomain (decide (1 < n)) (target c v.inst.inferType cluster.views) f v = false)
include hfu hpl hdp hv ho

/-- A view outside the failure domains of its role gets selected under favourable loads. -/
theorem executeSchedule_favouring (hdr : Draws c)
    (hp : newDispatchPolicyInternal c v.inst.inferType = some p)
    (ht : Tracks c (envFavouring now (v.flag false)) cluster views) :
    ∃ s' views', executeSchedule c (envFavouring now (v.flag false)) v.inst.inferType
      (stateRemembering (v.flag false)) views = .ok ⟨some (v.flag false), s', views'⟩ := by
  obtain ⟨hfi, hs, -⟩ := entry_plain hfu (fun _ => hpl) hp
  have hse := (selectable_iff_draws hfu hp).2 hdr
  have hen := entry_of_policy hp
  have hm : v ∈ target c v.inst.inferType cluster.views := by
    rw [target, hpl, if_neg Bool.false_ne_true]
    exact List.mem_filter.2 ⟨hv, by simp [group_eq hfu]⟩
  have hh : failing c (envFavouring now (v.flag false)) v = false := by
    rw [← Bool.not_eq_true]
    intro hfa
    have := ho v hm hfa
    simp [inFailureDomain] at this
  -- the view is let through in the first round
  have he : Eligible c (envFavouring now (v.flag false)) p
      (target c v.inst.inferType cluster.views) false v := by
    refine ⟨hm, fun f hf _ => ?_, fun d hd hin => ?_⟩
    · rcases hfi f hf with hf | ⟨m, th, b, rfl⟩
      · have := hh
        simp only [failing, hfu, Bool.true_and, Bool.or_eq_false_iff] at this
        simp only [healthFilters, mem_cons, not_mem_nil, or_false] at hf
        rcases hf with rfl | rfl
        · exact this.1
        · exact this.2
      · rfl
    · rw [hen.globalFilters, if_pos hfu, mem_singleton] at hd
      subst hd
      obtain ⟨f, hf, hfa, hdo⟩ := (mem_failoverFilter (nodup_target cluster _)
        (fun w hw => hdp w (target_subset _ _ hw)) c.failoverDomain hm).1 (.inr hin)
      rw [ho f hf hfa] at hdo
      cases hdo
  obtain ⟨fallback, available, hr, ha, -, hfl⟩ := filterRounds_spec hen ht v.inst.inferType
  have hfr : fallback = false := by
    rw [← Bool.not_eq_true]
    exact fun h => hfl.1 h v he
  subst hfr
  have hin : v.flag false ∈ available := (ha _).2 ⟨mem_flagged.2 ⟨hm, hh.symm⟩, he⟩
  have hu : ∀ w ∈ available, w.instanceId = (v.flag false).instanceId → w = v.flag false := by
    intro w hw hid
    obtain ⟨hw, hfg⟩ := mem_flagged.1 ((ha w).1 hw).1
    have hsa : w.toInstanceView = v := inj_on_of_nodup_map cluster.nodup (target_subset _ _ hw) hv hid
    rw [hsa, hh] at hfg
    rw [← hsa, ← hfg]
    rfl
  have hpi := selectInstance_envFavouring now hin hu false hse (by
    rcases hs with ⟨names, hse, -⟩ | hs
    · exact .inl ⟨_, names, hse⟩
    · exact .inr hs.1)
  cases available with
  | nil => cases hin
  | cons w rest =>
    have hp' : p.selectors.selectInstance (envFavouring now (v.flag false))
        ((stateRemembering (v.flag false)).lastSelectedInstanceId v.inst.inferType) (w :: rest)
        false = .ok (some (v.flag false), (v.flag false).instanceId) := hpi
    have hfl : lacks c (p.singleInstanceFilters.flatMap (·.reads))
        (targetInstanceViews c v.inst.inferType views) = false :=
      (lacks_eq_false _ _).2 fun u hu m hm =>
        metricsOf_target hpl hp (map_targetInstanceViews ht v.inst.inferType ▸ hu) ▸
          (reads_of_policy hp).1 m hm
    have hsl : lacks c p.selectors.reads (w :: rest) = false :=
      (lacks_eq_false _ _).2 <| forall_mem_map.2 fun u hu m hm =>
        metricsOf_target hpl hp (mem_flagged.1 ((ha u).1 hu).1).1 ▸ (reads_of_policy hp).2 m hm
    simp only [executeSchedule, hp, hr, hp', hfl, hsl, Bool.false_eq_true, and_false, if_false]
    exact ⟨_, _, rfl⟩

/-- The request that asks for one instance of the given type. -/
def requestFor (t : InferType) : SchedulingRequest :=
  match t with
  | .prefill => ⟨"", .pdStaged, some .prefill, 0⟩
  | .decode => ⟨"", .pdStaged, some .decode, 0⟩
  | _ => ⟨"", .neutral, none, 0⟩

/-- **Whatever is outside the failure domains of its role is dispatched to under some loads.** -/
theorem schedule_favouring (ha : Answers c cluster)
    (hot : ∃ w ∈ cluster.views, w.inst.inferType ≠ v.inst.inferType) :
    ∃ x s', Schedule c (envFavouring now (v.flag false)) (requestFor v.inst.inferType) cluster
      (stateRemembering (v.flag false)) = .ok (.ok [x], s') ∧ x.view = v := by
  obtain ⟨hal, hs, hdr⟩ := ha
  obtain ⟨p, hp⟩ := Option.ne_none_iff_exists'.1 (group_eq hfu v ▸ hs v hv)
  obtain ⟨s', views', he⟩ := executeSchedule_favouring hfu hpl hdp hv ho hdr hp (tracks_start c _ cluster)
  have hme : calculateMetrics c cluster.views = .ok () := by
    rcases calculateMetrics_spec c cluster with ⟨-, h⟩ | ⟨h, -⟩
    · exact h
    · exact absurd hs h
  have hc : (groups c cluster.views).card ≠ 1 := by
    obtain ⟨w, hw, hne⟩ := hot
    intro hon
    obtain ⟨t, ht⟩ := Finset.card_eq_one.1 hon
    have hmm : ∀ u ∈ cluster.views, u.inst.inferType = t := by
      intro u hu
      have : group c u ∈ groups c cluster.views := mem_toFinset.2 (mem_map_of_mem hu)
      rw [group_eq hfu] at this
      simpa [ht] using this
    exact hne ((hmm w hw).trans (hmm v hv).symm)
  have hga : (c.enableFullModeScheduling && !cluster.isAlive) = false := by simp [hal]
  rw [Schedule, if_neg (by rw [hga]; exact Bool.false_ne_true), schedule, hme]
  rcases (entry_plain hfu (fun _ => hpl) hp).2.2 with ht | ht | ht
  · rw [ht] at he ⊢
    have hsk : (requestFor .prefill).needDecode = false := rfl
    have hm : (requestFor .prefill).schedulingMode ≠ .neutral := by decide
    have hn : (requestFor .prefill).needPrefill = true := rfl
    simp only [hm, if_false, hc, schedulePrefill, hn, if_true, he, scheduleDecode, hsk, Bool.false_eq_true]
    exact ⟨_, _, rfl, rfl⟩
  · rw [ht] at he ⊢
    have hsk : (requestFor .decode).needPrefill = false := rfl
    have hm : (requestFor .decode).schedulingMode ≠ .neutral := by decide
    have hn : (requestFor .decode).needDecode = true := rfl
    simp only [hm, if_false, hc, schedulePrefill, hsk, Bool.false_eq_true, scheduleDecode, hn, if_true, he]
    exact ⟨_, _, rfl, rfl⟩
  · have hg : InferType.neutral ∈ groups c cluster.views :=
      mem_toFinset.2 (mem_map.2 ⟨v, hv, (group_eq hfu v).trans ht⟩)
    rw [ht] at he ⊢
    simp only [requestFor, if_true, hg, scheduleNeutral, he]
    exact ⟨_, _, rfl, rfl⟩

end

/-- **Dispatch avoids the failure domains of the cluster exactly when they are confined to roles**, if
it answers at all. -/
theorem avoidsFailureDomains_iff (c : SchedulerConfig) (hfull : c.enableFullModeScheduling = true)
    (cluster : ClusterView) (n : Int) (hdp : ∀ v ∈ cluster.views, v.dataParallelSize = n)
    (now : BitVec 64) :
    AvoidsFailureDomains c cluster now (decide (1 < n)) ↔
      (Answers c cluster → Confined c cluster now (decide (1 < n))) := by
  constructor
  · intro hav ha v hv f hf hfa hdo
    by_contra hn
    have ho : ∀ f' ∈ target c v.inst.inferType cluster.views, failingAt c now f' = true →
        inFailureDomain c.failoverDomain (decide (1 < n))
          (target c v.inst.inferType cluster.views) f' v = false := by
      intro f' hf' hfa'
      rw [← Bool.not_eq_true]
      exact fun h => hn ⟨f', hf', hfa', h⟩
    -- the domain reaches out of the role, so the role is not the whole cluster
    have hot : ∃ w ∈ cluster.views, w.inst.inferType ≠ v.inst.inferType := by
      by_contra hal
      push Not at hal
      have hwh : target c v.inst.inferType cluster.views = cluster.views := by
        rw [target]
        split
        · rfl
        · exact filter_eq_self.2 fun w hw => by simpa [group_eq hfull] using hal w hw
      rw [hwh] at ho
      rw [ho f hf hfa] at hdo
      cases hdo
    have hpl : c.enableAdaptivePD = false := by
      rw [← Bool.not_eq_true]
      intro had
      rw [target, if_pos had] at ho
      rw [ho f hf hfa] at hdo
      cases hdo
    obtain ⟨x, s', hok, rfl⟩ := schedule_favouring hfull hpl hdp hv ho ha hot
    cases (hav _ rfl _ _ _ _ hok x mem_cons_self f hf hfa).symm.trans hdo
  · intro hc env hno request s s' targets hok x hx f hf hfa
    obtain ⟨hali, hs, ham⟩ := admitted_of_schedule hok hx
    obtain ⟨hm, ho⟩ := ham.outside hfull hdp
    have ha : Answers c cluster := by
      obtain ⟨t, p, hp, hse, -⟩ := ham
      refine ⟨?_, hs, (selectable_iff_draws hfull hp).1 hse⟩
      simpa [hfull] using hali
    rw [← Bool.not_eq_true]
    intro hdo
    obtain ⟨f', hf', hfa', hdo'⟩ := hc ha x.view hm f hf hfa hdo
    subst hno
    cases (ho f' hf' hfa').symm.trans hdo'

/-- Two instances on two nodes, one of them failing: nothing reaches across. -/
theorem avoidsFailureDomains_apart :
    AvoidsFailureDomains (sampleConfig .ofNode) halfCluster 0 (decide (1 < (1 : Int))) :=
  (avoidsFailureDomains_iff (sampleConfig .ofNode) rfl halfCluster 1 (by decide) 0).2
    fun _ => by unfold Confined; decide

/-! ### A call that does not -/

/-- A prefill instance and a failing decode instance on one node, and a second decode instance. -/
def sharedNode : ClusterView where
  isAlive := true
  views := [{ sampleView "p" .prefill 0 true with nodeId := "n" },
    { sampleView "d" .decode 1 false with nodeId := "n" }, sampleView "e" .decode 2 true]
  nodup := by decide

/-- **The neighbour of a failing instance**: with the node as failover domain, a prefill request goes to
the node of a decode instance that fails. -/
theorem neighbour_of_failing_node :
    ¬ ∀ (c : SchedulerConfig) (cluster : ClusterView) (n : Int) (now : BitVec 64),
      c.enableFullModeScheduling = true → (∀ v ∈ cluster.views, v.dataParallelSize = n) →
        AvoidsFailureDomains c cluster now (decide (1 < n)) := by
  intro h
  have ha := h (sampleConfig .ofNode) sharedNode 1 0 rfl (by decide)
  have hc : ∃ s', Schedule (sampleConfig .ofNode) sampleEnv
      ⟨"r", .pdStaged, some .prefill, 10⟩ sharedNode sampleState =
        .ok (.ok [toTarget (sampleConfig .ofNode) .prefill
          (({ sampleView "p" .prefill 0 true with nodeId := "n" } : InstanceView).flag false)], s') :=
    ⟨_, rfl⟩
  obtain ⟨s', hok⟩ := hc
  have ho := ha sampleEnv rfl _ _ _ _ hok _ mem_cons_self
    { sampleView "d" .decode 1 false with nodeId := "n" } (by decide) (by decide)
  exact absurd ho (by decide)

/-! ### Any list of filters -/

section

variable {sif : List SingleInstanceFilter} {seconds : BitVec 64} {d : FailoverDomain}
  {views : List InstanceView}

/-- A policy with the given filters, for a configuration that knows their parameters. -/
def filteringConfig (seconds : BitVec 64) (d : FailoverDomain) : SchedulerConfig :=
  { sampleConfig d with instanceStalenessSeconds := seconds }

def filteringPolicy (sif : List SingleInstanceFilter) (d : FailoverDomain) :
    InferTypeBaseDispatchPolicy :=
  ⟨[], [d], sif, .fixedPreference⟩

theorem entry_filteringPolicy (hsc : .schedulability ∈ sif)
    (hst : ∀ s, .staleness s ∈ sif ↔ s = seconds) (d : FailoverDomain) :
    Entry (filteringConfig seconds d) (filteringPolicy sif d) := by
  refine ⟨rfl, fun env fallback v => ?_⟩
  rw [Bool.eq_iff_iff, any_eq_true]
  simp only [failing, filteringConfig, sampleConfig, Bool.true_and, Bool.or_eq_true, Bool.and_eq_true]
  constructor
  · rintro ⟨f, hf, -, hm⟩
    cases f with
    | schedulability => exact .inl hm
    | staleness s => exact .inr ((hst s).1 hf ▸ hm)
    | metricBased | instanceAttribute => cases hm
  · rintro (h | h)
    · exact ⟨_, hsc, by simp [active, skipWhenFallback], h⟩
    · exact ⟨_, (hst seconds).2 rfl, by simp [active, skipWhenFallback], h⟩

/-- What a round of filters leaves, without the marks. -/
def leftOver (env : Env) (views : List InstanceViewScheduling) (sif : List SingleInstanceFilter)
    (d : FailoverDomain) (fallback : Bool) : List InstanceView :=
  (filter env views sif [d] fallback).2.map (·.toInstanceView)

/-- No active filter rejects the view, and it is outside the failure domains of all views that are
unschedulable or stale. -/
def Passes (env : Env) (sif : List SingleInstanceFilter) (seconds : BitVec 64) (d : FailoverDomain)
    (dataParallel : Bool) (views : List InstanceView) (fallback : Bool) (v : InstanceView) : Prop :=
  v ∈ views ∧ (∀ f ∈ sif, f.active fallback = true → f.rejects env v = false) ∧
    ∀ u ∈ views, (!u.schedulable || SingleInstanceFilter.isStale env.now seconds u) = true →
      inFailureDomain d dataParallel views u v = false

/-- Marks that have a reason do not matter. -/
theorem mem_left (hsc : .schedulability ∈ sif) (hst : ∀ s, .staleness s ∈ sif ↔ s = seconds)
    (hn : (views.map (·.instanceId)).Nodup) (hdp : ∀ v ∈ views, v.dataParallelSize = n)
    {marked : List InstanceViewScheduling} (hm : marked.map (·.toInstanceView) = views)
    (hs : Sound (filteringConfig seconds d) env marked) {fallback : Bool} {v : InstanceView} :
    v ∈ leftOver env marked sif d fallback ↔ Passes env sif seconds d (decide (1 < n)) views fallback v := by
  have he := entry_filteringPolicy hsc hst d
  have hf : ∀ w, w ∈ (filter env marked sif [d] fallback).2 ↔ _ := fun w => mem_filter he hs
  have hfa : ∀ u, failing (filteringConfig seconds d) env u =
      (!u.schedulable || isStale env.now seconds u) := fun u => Bool.true_and _
  rw [hm] at hf
  simp only [leftOver, mem_map, hf, Passes, ← hfa]
  constructor
  · rintro ⟨w, ⟨-, hw⟩, rfl⟩
    refine ⟨hw.mem, hw.passes, fun u hu hfu => ?_⟩
    rw [← Bool.not_eq_true]
    intro hd
    rcases (mem_failoverFilter hn hdp d hw.mem).2 ⟨u, hu, hfu, hd⟩ with h | h
    · rw [hw.healthy he] at h
      cases h
    · exact hw.outside d mem_cons_self h
  · rintro ⟨hv, hp, ho⟩
    refine ⟨v.flag (failing (filteringConfig seconds d) env v), ⟨mem_flagged.2 ⟨hv, rfl⟩, hv, hp, ?_⟩, rfl⟩
    intro d' hd' hin
    obtain rfl := mem_singleton.1 hd'
    obtain ⟨u, hu, hfu, hd⟩ := (mem_failoverFilter hn hdp d' hv).1 (.inr hin)
    rw [ho u hu hfu] at hd
    cases hd

theorem Passes.of_perm {env' : Env} {dataParallel fallback : Bool} {v : InstanceView}
    {order : List InstanceView} (hp : order.Perm views) (hno : env'.now = env.now)
    (hv : env'.valueLess = env.valueLess) (h : Passes env sif seconds d dataParallel views fallback v) :
    Passes env' sif seconds d dataParallel order fallback v := by
  refine ⟨hp.mem_iff.2 h.1, fun f hf ha => ?_, fun u hu hf => ?_⟩
  · have hr := h.2.1 f hf ha
    cases f with
    | metricBased => simpa only [rejects, hv] using hr
    | staleness => simpa only [rejects, hno] using hr
    | schedulability | instanceAttribute => exact hr
  · rw [hno] at hf
    rw [← h.2.2 u (hp.mem_iff.1 hu) hf]
    simp only [inFailureDomain, hp.any_eq]

/-- **Filtering is exact, and a fallback only relaxes it**: whatever the order, what is left is what no active
filter rejects and no failure domain contains; filtering the marked views again gives the same. -/
theorem filtering_exact (hsc : .schedulability ∈ sif) (hst : ∀ s, .staleness s ∈ sif ↔ s = seconds)
    (hn : (views.map (·.instanceId)).Nodup) (hdp : ∀ v ∈ views, v.dataParallelSize = n) (env : Env) :
    (∀ (env' : Env) (order : List InstanceView), env'.now = env.now → env'.valueLess = env.valueLess →
      order.Perm views → ∀ fallback v, v ∈ leftOver env' (order.map (·.flag false)) sif d fallback ↔
        Passes env sif seconds d (decide (1 < n)) views fallback v) ∧
    (∀ v ∈ leftOver env (views.map (·.flag false)) sif d false,
      v ∈ leftOver env (views.map (·.flag false)) sif d true) ∧
    ∀ (before : Bool) (env' : Env) (marked : List InstanceViewScheduling), env'.now = env.now →
      env'.valueLess = env.valueLess →
      marked.Perm (filter env (views.map (·.flag false)) sif [d] before).1 →
      ∀ fallback v, v ∈ leftOver env' marked sif d fallback ↔
        v ∈ leftOver env (views.map (·.flag false)) sif d fallback := by
  have hid : ∀ order : List InstanceView, (order.map (·.flag false)).map (·.toInstanceView) = order :=
    fun order => by rw [map_map]; exact map_id _
  have hso : ∀ env' (order : List InstanceView), Sound (filteringConfig seconds d) env'
      (order.map (·.flag false)) := by
    intro env' order v hv hm
    obtain ⟨w, -, rfl⟩ := mem_map.1 hv
    cases hm
  -- in any order, and with any marks that have a reason
  have hle : ∀ (env' : Env) (marked : List InstanceViewScheduling) (order : List InstanceView),
      env'.now = env.now → env'.valueLess = env.valueLess → marked.map (·.toInstanceView) = order →
      order.Perm views → Sound (filteringConfig seconds d) env' marked → ∀ fallback v,
        v ∈ leftOver env' marked sif d fallback ↔
          Passes env sif seconds d (decide (1 < n)) views fallback v := by
    intro env' marked order hno hv hm hp hs fallback v
    rw [mem_left hsc hst ((hp.map _).nodup_iff.2 hn) (fun v hv => hdp v (hp.mem_iff.1 hv)) hm hs]
    exact ⟨Passes.of_perm hp.symm hno.symm hv.symm, Passes.of_perm hp hno hv⟩
  have hfi := hle env _ _ rfl rfl (hid views) (.refl _) (hso env views)
  refine ⟨fun env' order hno hv hp => hle env' _ _ hno hv (hid order) hp (hso env' order), fun v hv => ?_,
    fun before env' marked hno hv hp fallback v => ?_⟩
  · have h := (hfi false v).1 hv
    exact (hfi true v).2 ⟨h.1, fun f hf _ => h.2.1 f hf rfl, h.2.2⟩
  · have hm := filter_marked (entry_filteringPolicy hsc hst d) (hso env views) before
    rw [hid] at hm
    have hp : marked.Perm (flagged (filteringConfig seconds d) env views) := hm ▸ hp
    have hpv := hp.map (·.toInstanceView)
    rw [map_flagged] at hpv
    refine (hle env' marked _ hno hv rfl hpv (fun w hw hf => ?_) fallback v).trans (hfi fallback v).symm
    rw [(mem_flagged.1 (hp.mem_iff.1 hw)).2] at hf
    simpa only [failing, hno] using hf

/-- Next to a node with a failing instance: what is left stays so, also when the marked views are met the
other way round. -/
theorem filtering_exact_sharedNode : let sif := [.schedulability, .staleness 60,
      .metricBased .numRequests .decodeLoad false]
    let first := leftOver sampleEnv (sharedNode.views.map (·.flag false)) sif .ofNode false
    sampleView "e" .decode 2 true ∈ first ∧
      (∀ v ∈ first, v ∈ leftOver sampleEnv (sharedNode.views.map (·.flag false)) sif .ofNode true) ∧
      ∀ v, v ∈ leftOver sampleEnv (filter sampleEnv (sharedNode.views.map (·.flag false)) sif
        [.ofNode] false).1.reverse sif .ofNode false ↔ v ∈ first := by
  intro sif first
  obtain ⟨hex, hre, hag⟩ := @filtering_exact 1 sif 60 .ofNode sharedNode.views (by simp [sif])
    (by simp [sif]) sharedNode.nodup (by decide) sampleEnv
  exact ⟨(hex _ _ rfl rfl (.refl _) false _).2 (by unfold Passes; decide), hre,
    hag false sampleEnv _ rfl rfl (reverse_perm _) false⟩

end

end Llumnix.Dispatch
