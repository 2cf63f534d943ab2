/-
**What the parts of a scheduling call do.**

One lemma for every function of `Llumnix.DispatchPolicy`, so that the results about whole calls never look
inside them.

* `mem_filter` — **the filters leave exactly the eligible views**;
* `executeSchedule_spec` — **the three outcomes of `executeSchedule`**.
-/

import Llumnix.DispatchPolicy

namespace Llumnix.Dispatch

open List SingleInstanceFilter DispatchSelector

variable {c : SchedulerConfig} {env : Env} {p : InferTypeBaseDispatchPolicy}
variable {v : InstanceViewScheduling} {views : List InstanceViewScheduling} {cluster : ClusterView}

/-! ### Marks -/

/-- A view during a call, with a given mark. -/
def InstanceView.flag (v : InstanceView) (needsFailover : Bool) : InstanceViewScheduling :=
  { v with needsFailover := needsFailover }

/-- The filter runs in this round. -/
def SingleInstanceFilter.active (fallback : Bool) (f : SingleInstanceFilter) : Bool :=
  !(fallback && f.skipWhenFallback)

/-- The instance is unschedulable or stale.  Only the full mode has a status to tell. -/
def failing (c : SchedulerConfig) (env : Env) (v : InstanceView) : Bool :=
  c.enableFullModeScheduling &&
    (!v.schedulable || SingleInstanceFilter.isStale env.now c.instanceStalenessSeconds v)

/-- The views with the marks that a round of filters leaves on them. -/
def flagged (c : SchedulerConfig) (env : Env) (views : List InstanceView) :
    List InstanceViewScheduling :=
  views.map fun v => v.flag (failing c env v)

theorem mem_flagged {views : List InstanceView} : v ∈ flagged c env views ↔
      v.toInstanceView ∈ views ∧ v.needsFailover = failing c env v.toInstanceView := by
  simp only [flagged, mem_map]
  constructor
  · rintro ⟨w, hw, rfl⟩
    exact ⟨hw, rfl⟩
  · rintro ⟨hm, hf⟩
    refine ⟨v.toInstanceView, hm, ?_⟩
    rw [← hf]
    rfl

theorem map_flagged (views : List InstanceView) : (flagged c env views).map (·.toInstanceView) = views := by
  rw [flagged, map_map]
  exact map_id _

/-- The inner loop of `filter` in one go: the view is rejected if a filter that runs rejects it, and
marked if one that runs marks it. -/
theorem applyFilters_eq (env : Env) (sif : List SingleInstanceFilter) (fallback : Bool)
    (v : InstanceViewScheduling) :
    applyFilters env sif fallback v = (sif.any fun f => f.active fallback && f.rejects env v.toInstanceView,
        v.toInstanceView.flag (v.needsFailover ||
          sif.any fun f => f.active fallback && f.marks env v.toInstanceView)) := by
  -- the accumulators of the loop are generalised: they only ever collect disjuncts
  rw [applyFilters, ← Bool.false_or (sif.any fun f => f.active fallback && f.rejects env v.toInstanceView)]
  generalize false = b
  induction sif generalizing b v with
  | nil => simp [InstanceView.flag]
  | cons f sif ih =>
  rw [foldl_cons]
  rw [any_cons, any_cons]
  cases hs : (fallback && f.skipWhenFallback) with
  | true =>
    have ha : f.active fallback = false := by rw [active, hs]; rfl
    simp only [if_true, ha, Bool.false_and, Bool.false_or]
    exact ih v b
  | false =>
    have ha : f.active fallback = true := by rw [active, hs]; rfl
    simp only [Bool.false_eq_true, if_false, ha, Bool.true_and, ← Bool.or_assoc]
    exact ih _ _

theorem SingleInstanceFilter.rejects_of_marks {f : SingleInstanceFilter} {v : InstanceView}
    (h : f.marks env v = true) : f.rejects env v = true := by
  cases f with
  | metricBased | instanceAttribute => exact absurd h (by simp [marks])
  | schedulability | staleness => exact h

/-! ### The entries of a policy -/

/-- What all entries of all policies have in common: full mode looks for failing instances in every round,
lite mode never. -/
structure Entry (c : SchedulerConfig) (p : InferTypeBaseDispatchPolicy) : Prop where
  globalFilters : p.globalFilters = if c.enableFullModeScheduling then [c.failoverDomain] else []
  marks : ∀ (env : Env) (fallback : Bool) (v : InstanceView),
    (p.singleInstanceFilters.any fun f => f.active fallback && f.marks env v) = failing c env v

/-- An entry of a full mode policy: the health filters, and filters that mark nothing. -/
theorem entry_of_health (hfu : c.enableFullModeScheduling = true) {rest : List SingleInstanceFilter}
    (hg : p.globalFilters = [c.failoverDomain]) (hs : p.singleInstanceFilters = healthFilters c ++ rest)
    (hr : ∀ f ∈ rest, ∀ (env : Env) (v : InstanceView), f.marks env v = false) : Entry c p := by
  refine ⟨by rw [hg, if_pos hfu], fun env fallback v => ?_⟩
  have hn : (rest.any fun f => f.active fallback && f.marks env v) = false := by
    rw [any_eq_false]
    intro f hf
    simp [hr f hf env v]
  rw [hs, any_append, hn]
  simp [healthFilters, failing, hfu, active, marks, skipWhenFallback]

theorem entry_of_policy {t : InferType} (h : newDispatchPolicyInternal c t = some p) : Entry c p := by
  have hf : c.schedulingPolicy ≠ .loadBalance → c.enableFullModeScheduling = true := by
    intro hne
    cases hm : c.enableFullModeScheduling with
    | true => rfl
    | false => exact absurd (c.lite_policy hm) hne
  cases hp : c.schedulingPolicy with
  | loadBalance =>
    rw [newDispatchPolicyInternal, hp] at h
    cases hm : c.enableFullModeScheduling with
    | true =>
      have he : ∀ m th l, Entry c (loadBalanceFullMode c m th l) := fun m th l =>
        entry_of_health hm rfl rfl (by simp [marks])
      simp only [hm, if_true] at h
      cases t <;>
        simp only [newLoadBalanceDispatchFullMode, Option.some.injEq, reduceCtorEq] at h
      all_goals exact h ▸ he _ _ _
    | false =>
    have he : ∀ m th, Entry c (loadBalanceLiteMode c m th) := fun m th =>
      ⟨by simp [loadBalanceLiteMode, hm], fun env fallback v => by
          simp [loadBalanceLiteMode, failing, hm, marks]⟩
    simp only [hm, Bool.false_eq_true, if_false] at h
    cases t <;>
      simp only [newLoadBalanceDispatchLiteMode, Option.some.injEq, reduceCtorEq] at h
    all_goals exact h ▸ he _ _
  | flood =>
    rw [newDispatchPolicyInternal, hp] at h
    have he : Entry c (floodFullMode c) :=
      entry_of_health (hf (by simp [hp])) rfl (append_nil _).symm (by simp)
    cases t <;> simp only [newFloodDispatchPolicyFullMode, Option.some.injEq, reduceCtorEq] at h
    all_goals exact h ▸ he
  | slo =>
  rw [newDispatchPolicyInternal, hp] at h
  have hm := hf (by simp [hp])
  have hs : ∀ m th, Entry c (sloFullMode c m th) := fun m th =>
    entry_of_health hm rfl rfl (by simp [marks])
  have hpr : Entry c (adaptivePrefill c) :=
    entry_of_health hm rfl rfl (by simp [marks])
  have hde : Entry c (adaptiveDecode c) :=
    entry_of_health hm rfl rfl (by simp [marks])
  cases t <;> simp only [newSloDispatchFullMode, Option.some.injEq, reduceCtorEq] at h
  all_goals
    subst h
    split
    · first | exact hpr | exact hde
    · exact hs _ _

/-- An entry reads only what it calculates. -/
theorem reads_of_policy {t : InferType} (h : newDispatchPolicyInternal c t = some p) :
    (∀ m ∈ p.singleInstanceFilters.flatMap (·.reads), m ∈ p.metrics) ∧
      ∀ m ∈ p.selectors.reads, m ∈ p.metrics := by
  cases hp : c.schedulingPolicy with
  | loadBalance =>
    cases hm : c.enableFullModeScheduling <;> rw [newDispatchPolicyInternal, hp, hm] at h <;>
      cases t <;> cases h <;>
      simp [loadBalanceFullMode, loadBalanceLiteMode, healthFilters, SingleInstanceFilter.reads,
        DispatchSelector.reads]
  | flood =>
    rw [newDispatchPolicyInternal, hp] at h
    cases t <;> cases h <;>
      simp [floodFullMode, healthFilters, SingleInstanceFilter.reads, DispatchSelector.reads]
  | slo =>
    rw [newDispatchPolicyInternal, hp] at h
    cases t <;> cases h <;> split <;>
      simp [sloFullMode, adaptivePrefill, adaptiveDecode, healthFilters, SingleInstanceFilter.reads,
        DispatchSelector.reads]

/-! ### Filtering -/

/-- **What a round of filters lets through**: a view of the target that no filter of the round rejects
and that the failover filter does not exclude. -/
structure Eligible (c : SchedulerConfig) (env : Env) (p : InferTypeBaseDispatchPolicy)
    (target : List InstanceView) (fallback : Bool) (v : InstanceView) : Prop where
  mem : v ∈ target
  passes : ∀ f ∈ p.singleInstanceFilters, f.active fallback = true → f.rejects env v = false
  outside : ∀ d ∈ p.globalFilters, v.instanceId ∉ failoverFilter env d (flagged c env target)

theorem Eligible.fallback {target : List InstanceView} {v : InstanceView}
    (h : Eligible c env p target false v) : Eligible c env p target true v :=
  ⟨h.mem, fun f hf _ => h.passes f hf rfl, h.outside⟩

theorem Eligible.healthy {target : List InstanceView} {fallback : Bool} {v : InstanceView}
    (hp : Entry c p) (h : Eligible c env p target fallback v) : failing c env v = false := by
  rw [← hp.marks env fallback v, any_eq_false]
  intro f hf hm
  rw [Bool.and_eq_true] at hm
  have hr := rejects_of_marks hm.2
  rw [h.passes f hf hm.1] at hr
  cases hr

/-- No mark is without a reason. -/
def Sound (c : SchedulerConfig) (env : Env) (views : List InstanceViewScheduling) : Prop :=
  ∀ v ∈ views, v.needsFailover = true → failing c env v.toInstanceView = true

theorem filter_marked (hp : Entry c p) (hs : Sound c env views) (fallback : Bool) :
    (filter env views p.singleInstanceFilters p.globalFilters fallback).1 =
      flagged c env (views.map (·.toInstanceView)) := by
  simp only [filter, flagged, map_map]
  refine map_congr_left fun v hv => ?_
  simp only [Function.comp_apply, applyFilters_eq, hp.marks]
  cases hm : v.needsFailover with
  | true => rw [hs v hv hm]; rfl
  | false => rfl

theorem filter_sublist_marked (env : Env) (views : List InstanceViewScheduling)
    (sif : List SingleInstanceFilter) (gf : List FailoverDomain) (fallback : Bool) :
    (filter env views sif gf fallback).2.Sublist (filter env views sif gf fallback).1 := by
  refine gf.foldlRecOn _ (motive := fun l : List InstanceViewScheduling => l.Sublist _)
    (filter_sublist.map _) fun l hl d _ => ?_
  exact filter_sublist.trans hl

theorem mem_foldl_filter {α β : Type} (q : β → α → Bool) (x : α) (fs : List β) :
    ∀ l : List α, x ∈ fs.foldl (fun l f => l.filter (q f)) l ↔ x ∈ l ∧ ∀ f ∈ fs, q f x = true := by
  induction fs with
  | nil => simp
  | cons f fs ih =>
    intro l
    rw [foldl_cons, ih, mem_filter, forall_mem_cons, and_assoc]

/-- **The filters leave exactly the eligible views.** -/
theorem mem_filter (hp : Entry c p) (hs : Sound c env views) {fallback : Bool} :
    v ∈ (filter env views p.singleInstanceFilters p.globalFilters fallback).2 ↔
      v ∈ flagged c env (views.map (·.toInstanceView)) ∧
        Eligible c env p (views.map (·.toInstanceView)) fallback v.toInstanceView := by
  have hmr : (views.map (applyFilters env p.singleInstanceFilters fallback)).map (·.2) = _ :=
    filter_marked hp hs fallback
  have hma : ∀ w ∈ views, (applyFilters env p.singleInstanceFilters fallback w).2 =
      w.toInstanceView.flag (failing c env w.toInstanceView) := by
    intro w hw
    rw [applyFilters_eq, hp.marks]
    cases hn : w.needsFailover with
    | true => rw [hs w hw hn]; rfl
    | false => rfl
  have hpa : ∀ w : InstanceViewScheduling, (!(applyFilters env p.singleInstanceFilters fallback w).1) = true ↔
        ∀ f ∈ p.singleInstanceFilters, f.active fallback = true →
          f.rejects env w.toInstanceView = false := by
    intro w
    simp [applyFilters_eq]
  simp only [filter, hmr]
  rw [mem_foldl_filter fun d (v : InstanceViewScheduling) => decide (v.instanceId ∉ failoverFilter env d
    (flagged c env (views.map (·.toInstanceView)))), mem_flagged]
  simp only [mem_map, List.mem_filter, decide_eq_true_eq]
  constructor
  · rintro ⟨⟨_, ⟨⟨w, hw, rfl⟩, hps⟩, rfl⟩, ho⟩
    rw [hma w hw] at ho ⊢
    exact ⟨⟨⟨w, hw, rfl⟩, rfl⟩, mem_map.2 ⟨w, hw, rfl⟩, (hpa w).1 hps, ho⟩
  · rintro ⟨⟨⟨w, hw, hwv⟩, hf⟩, he⟩
    refine ⟨⟨_, ⟨⟨w, hw, rfl⟩, (hpa w).2 ?_⟩, ?_⟩, he.outside⟩
    · rw [hwv]
      exact he.passes
    · rw [hma w hw, hwv, ← hf]
      rfl

/-! ### Selecting -/

/-- The selector can pick from whatever it is offered: it does not draw from an empty range. -/
def DispatchSelector.Selectable : DispatchSelector → Prop
  | metricBased topK _ => 0 < topK
  | fixedPreference => True
  | sloPrefillApd => True
  | sloDecodeApd => True

section

variable {prefers : InstanceViewScheduling → InstanceViewScheduling → Bool}

theorem foldl_scan (views : List InstanceViewScheduling) :
    ∀ s, ∃ v ∈ s :: views, views.foldl (scan prefers) (some s) = some v := by
  induction views with
  | nil => exact fun s => ⟨s, mem_singleton.2 rfl, rfl⟩
  | cons w views ih =>
  intro s
  rw [foldl_cons, scan]
  split
  · obtain ⟨v, hv, hf⟩ := ih w
    exact ⟨v, mem_cons_of_mem _ hv, hf⟩
  · obtain ⟨v, hv, hf⟩ := ih s
    rcases mem_cons.1 hv with rfl | hv
    · exact ⟨v, mem_cons_self, hf⟩
    · exact ⟨v, mem_cons_of_mem _ (mem_cons_of_mem _ hv), hf⟩

theorem foldl_scan_none (hne : views ≠ []) : ∃ v ∈ views, views.foldl (scan prefers) none = some v := by
  cases views with
  | nil => exact absurd rfl hne
  | cons s rest => exact foldl_scan rest s

theorem scan_iterate (env : Env) (hne : views ≠ []) :
    ∃ v ∈ views, (env.iterate views).foldl (scan prefers) none = some v := by
  have hp := env.iterate_perm views
  have hi : env.iterate views ≠ [] := fun h => hne (h ▸ hp).symm.eq_nil
  obtain ⟨v, hv, hf⟩ := foldl_scan_none hi
  exact ⟨v, hp.mem_iff.1 hv, hf⟩

end

variable (c env)

theorem sloDecodeScan_mem (views : List InstanceViewScheduling) :
    ∀ s, sloDecodeScan env s views ∈ s :: views := by
  induction views with
  | nil => exact fun s => mem_singleton.2 rfl
  | cons w views ih =>
  intro s
  rw [sloDecodeScan]
  split
  · exact mem_cons_of_mem _ mem_cons_self
  · split
    · exact mem_cons_of_mem _ (ih w)
    · rcases mem_cons.1 (ih s) with heq | hm
      · rw [heq]
        exact mem_cons_self
      · exact mem_cons_of_mem _ (mem_cons_of_mem _ hm)

/-- The two favourites of the scan with fallback do not interfere. -/
theorem foldl_sloDecodeFallbackTurn (views : List InstanceViewScheduling) :
    ∀ turn, views.foldl (sloDecodeFallbackTurn env) turn =
      ((views.filter fun v => env.valueLess .predictedTpot .zero v.instanceId).foldl
          (scan fun v s => env.less .predictedTpot s.instanceId v.instanceId ||
            env.equal .predictedTpot s.instanceId v.instanceId &&
              env.recalculatedLess v.instanceId s.instanceId) turn.1,
        (views.filter fun v => !env.valueLess .predictedTpot .zero v.instanceId).foldl
          (scan fun v s => env.less .predictedTpot v.instanceId s.instanceId) turn.2) := by
  induction views with
  | nil => exact fun turn => rfl
  | cons v views ih =>
    intro turn
    rw [foldl_cons, ih, sloDecodeFallbackTurn]
    split
    · next h => simp [h]
    · next h => simp [h]

theorem sloDecodeApd_spec (hne : views ≠ []) (fallback : Bool) :
    ∃ v ∈ views, sloDecodeApd env views fallback = some v := by
  have hp := env.iterate_perm views
  have hi : env.iterate views ≠ [] := fun h => hne (h ▸ hp).symm.eq_nil
  cases fallback with
  | true =>
    simp only [sloDecodeApd, if_true, foldl_sloDecodeFallbackTurn]
    by_cases hb : (env.iterate views).filter (fun v => env.valueLess .predictedTpot .zero v.instanceId) = []
    · rw [hb, filter_eq_self.2 fun v hv => by simpa using filter_eq_nil_iff.1 hb v hv]
      exact scan_iterate env hne
    · obtain ⟨v, hv, hf⟩ := foldl_scan_none hb
      exact ⟨v, hp.mem_iff.1 (List.mem_filter.1 hv).1, by rw [hf]; rfl⟩
  | false =>
  simp only [sloDecodeApd, Bool.false_eq_true, if_false]
  cases hc : env.iterate views with
  | nil => exact absurd hc hi
  | cons s rest =>
    rw [hc] at hp
    exact ⟨_, hp.mem_iff.1 (sloDecodeScan_mem env rest s), rfl⟩

theorem fixedPreference_spec (last : String) (hne : views ≠ []) :
    ∃ v ∈ views, ∃ l, fixedPreference env last views = (some v, l) := by
  have hp := env.iterate_perm views
  cases hf : views.find? fun v => v.instanceId = last with
  | some v => exact ⟨v, mem_of_find?_eq_some hf, last, by rw [fixedPreference, hf]⟩
  | none =>
    cases hc : env.iterate views with
    | nil => exact absurd (hc ▸ hp).symm.eq_nil hne
    | cons v =>
      rw [hc] at hp
      exact ⟨v, hp.mem_iff.1 mem_cons_self, v.instanceId, by rw [fixedPreference, hf, hc]⟩

theorem randomChoiceFromTopK_spec (topK : Int) (names : List SchedulingMetric) (hne : views ≠ []) :
    (0 < topK ∧ ∃ v ∈ views, randomChoiceFromTopK env topK names views = .ok (some v)) ∨
      (¬ 0 < topK ∧ randomChoiceFromTopK env topK names views = .error .intn) := by
  have hp : ((env.iterate views).mergeSort
      fun v w => !better env names w.instanceId v.instanceId).Perm views :=
    (mergeSort_perm _ _).trans (env.iterate_perm views)
  simp only [randomChoiceFromTopK]
  generalize (env.iterate views).mergeSort
    (fun v w => !better env names w.instanceId v.instanceId) = sorted at hp ⊢
  have hl := hp.length_eq
  have hpo : 0 < views.length := length_pos_iff.2 hne
  by_cases ht : 0 < topK
  · left
    refine ⟨ht, ?_⟩
    generalize hk : (if (sorted.length : Int) < topK then (sorted.length : Int) else topK) = k
    have hkp : 0 < k ∧ k.toNat ≤ views.length := by
      split at hk <;> omega
    rw [if_neg (by omega)]
    have hlt : env.intn k.toNat < sorted.length := by
      have := env.intn_lt k.toNat (by omega)
      omega
    exact ⟨_, hp.mem_iff.1 (getElem_mem hlt), by rw [getElem?_eq_getElem hlt]⟩
  · right
    refine ⟨ht, if_pos ?_⟩
    split <;> omega

/-- **A selector picks one of the views it is offered, or panics.** -/
theorem selectInstance_spec (last : String) (fallback : Bool) (sel : DispatchSelector) (hne : views ≠ []) :
    (sel.Selectable ∧ ∃ v ∈ views, ∃ l, sel.selectInstance env last views fallback = .ok (some v, l)) ∨
      (¬ sel.Selectable ∧ ∃ e, sel.selectInstance env last views fallback = .error e) := by
  cases sel with
  | metricBased topK names =>
    simp only [selectInstance, DispatchSelector.Selectable]
    split
    · next ht =>
      obtain ⟨v, hv, hb⟩ := scan_iterate env hne
      exact .inl ⟨by omega, v, hv, last, by rw [best, hb]⟩
    · rcases randomChoiceFromTopK_spec env topK names hne with ⟨ht, v, hv, hdr⟩ | ⟨ht, hdr⟩
      · exact .inl ⟨ht, v, hv, last, by rw [hdr]; rfl⟩
      · exact .inr ⟨ht, .intn, by rw [hdr]; rfl⟩
  | fixedPreference =>
    obtain ⟨v, hv, l, hf⟩ := fixedPreference_spec env last hne
    exact .inl ⟨trivial, v, hv, l, by rw [selectInstance, hf]⟩
  | sloPrefillApd =>
    obtain ⟨v, hv, hs⟩ := scan_iterate env hne
    exact .inl ⟨trivial, v, hv, last, by rw [selectInstance, sloPrefillApd, hs]⟩
  | sloDecodeApd =>
    obtain ⟨v, hv, hse⟩ := sloDecodeApd_spec env hne fallback
    exact .inl ⟨trivial, v, hv, last, by rw [selectInstance, hse]⟩

/-! ### One execution -/

def target (inferType : InferType) (views : List InstanceView) : List InstanceView :=
  if c.enableAdaptivePD then views else views.filter fun v => group c v = inferType

variable {c env}

theorem target_subset (inferType : InferType) (views : List InstanceView) :
    target c inferType views ⊆ views := by
  rw [target]
  split
  · exact List.Subset.refl _
  · exact fun v hv => mem_of_mem_filter hv

theorem nodup_target (cluster : ClusterView) (t : InferType) :
    ((target c t cluster.views).map (·.instanceId)).Nodup := by
  rw [target]
  split
  · exact cluster.nodup
  · exact (filter_sublist.map _).nodup cluster.nodup

/-- The views of a call are those of the cluster, and no mark is without a reason. -/
structure Tracks (c : SchedulerConfig) (env : Env) (cluster : ClusterView)
    (views : List InstanceViewScheduling) : Prop where
  same : views.map (·.toInstanceView) = cluster.views
  sound : Sound c env views

theorem tracks_start (c : SchedulerConfig) (env : Env) (cluster : ClusterView) :
    Tracks c env cluster (toClusterViewScheduling cluster) := by
  refine ⟨?_, ?_⟩
  · rw [toClusterViewScheduling, map_map]
    exact map_id _
  · intro v hv hm
    obtain ⟨w, -, rfl⟩ := mem_map.1 hv
    cases hm

theorem map_targetInstanceViews (ht : Tracks c env cluster views) (inferType : InferType) :
    (targetInstanceViews c inferType views).map (·.toInstanceView) = target c inferType cluster.views := by
  rw [targetInstanceViews, target, ← ht.same]
  split
  · rfl
  · rw [filter_map]
    rfl

theorem sound_targetInstanceViews (h : Sound c env views) (inferType : InferType) :
    Sound c env (targetInstanceViews c inferType views) := by
  rw [targetInstanceViews]
  split
  · exact h
  · exact fun v hv => h v (mem_of_mem_filter hv)

theorem sound_flagged (views : List InstanceView) : Sound c env (flagged c env views) := by
  intro v hv hm
  rw [(mem_flagged.1 hv).2] at hm
  exact hm

/-- Writing the marks of a part of the views back keeps track of the cluster. -/
theorem Tracks.writeBack (ht : Tracks c env cluster views) {part : List InstanceView}
    (hp : part ⊆ cluster.views) : Tracks c env cluster (writeBack views (flagged c env part)) := by
  have htu : ∀ v ∈ views, ((flagged c env part).find? fun w => w.instanceId = v.instanceId).getD v = v ∨
      ((flagged c env part).find? fun w => w.instanceId = v.instanceId).getD v =
        v.toInstanceView.flag (failing c env v.toInstanceView) := by
    intro v hv
    cases hf : (flagged c env part).find? fun w => w.instanceId = v.instanceId with
    | none => exact .inl rfl
    | some w =>
    right
    obtain ⟨hme, hfl⟩ := mem_flagged.1 (mem_of_find?_eq_some hf)
    have hid : w.instanceId = v.instanceId := by simpa using find?_some hf
    -- ids are distinct, so the view found is the view looked for
    have hv' : v.toInstanceView ∈ cluster.views := by
      rw [← ht.same]
      exact mem_map_of_mem hv
    have hs : w.toInstanceView = v.toInstanceView := inj_on_of_nodup_map cluster.nodup (hp hme) hv' hid
    rw [Option.getD_some, ← hs, ← hfl]
    rfl
  refine ⟨?_, ?_⟩
  · rw [Dispatch.writeBack, map_map, ← ht.same]
    refine map_congr_left fun v hv => ?_
    rw [Function.comp_apply]
    rcases htu v hv with h | h <;> rw [h]
    rfl
  · intro w hw hm
    obtain ⟨v, hv, rfl⟩ := mem_map.1 hw
    rcases htu v hv with h | h
    · rw [h] at hm ⊢
      exact ht.sound v hv hm
    · rw [h] at hm ⊢
      exact hm

/-- **The two filter rounds**: what is left is what is eligible in the last one, and there is a second
one exactly if nothing is eligible in the first. -/
theorem filterRounds_spec (hp : Entry c p) (ht : Tracks c env cluster views) (inferType : InferType) :
    ∃ (fallback : Bool) (available : List InstanceViewScheduling),
      filterRounds env p (targetInstanceViews c inferType views) =
        (fallback, flagged c env (target c inferType cluster.views), available) ∧
      (∀ v, v ∈ available ↔ v ∈ flagged c env (target c inferType cluster.views) ∧
        Eligible c env p (target c inferType cluster.views) fallback v.toInstanceView) ∧
      (available.map (·.toInstanceView)).Sublist (target c inferType cluster.views) ∧
      (fallback = true ↔ ∀ v, ¬ Eligible c env p (target c inferType cluster.views) false v) := by
  have hso := sound_targetInstanceViews ht.sound inferType
  have hmp := map_targetInstanceViews ht inferType
  have hf := filter_marked hp hso false
  have hm : ∀ v, v ∈ (filter env (targetInstanceViews c inferType views)
      p.singleInstanceFilters p.globalFilters false).2 ↔ _ := fun v => mem_filter hp hso
  rw [hmp] at hf hm
  generalize target c inferType cluster.views = T at hf hm ⊢
  have hs := filter_marked hp (sound_flagged T : Sound c env _) true
  have hm' : ∀ v, v ∈ (filter env (flagged c env T) p.singleInstanceFilters p.globalFilters true).2 ↔ _ :=
    fun v => mem_filter hp (sound_flagged T)
  rw [map_flagged] at hs hm'
  have hsu := (filter_sublist_marked env (targetInstanceViews c inferType views) p.singleInstanceFilters
    p.globalFilters false).map (·.toInstanceView)
  have hsu' := (filter_sublist_marked env (flagged c env T) p.singleInstanceFilters p.globalFilters
    true).map (·.toInstanceView)
  rw [hf, map_flagged] at hsu
  rw [hs, map_flagged] at hsu'
  cases he : (filter env (targetInstanceViews c inferType views)
      p.singleInstanceFilters p.globalFilters false).2.isEmpty with
  | true =>
    refine ⟨true, _, ?_, hm', hsu', iff_of_true rfl fun v hv => ?_⟩
    · rw [filterRounds, if_pos he, hf]
      exact congrArg (Prod.mk true) (Prod.ext hs rfl)
    · have hin := (hm (v.flag (failing c env v))).2 ⟨mem_flagged.2 ⟨hv.mem, rfl⟩, hv⟩
      rw [isEmpty_iff.1 he] at hin
      cases hin
  | false =>
    refine ⟨false, _, ?_, hm, hsu, iff_of_false Bool.false_ne_true fun hn => ?_⟩
    · rw [filterRounds, if_neg (by rw [he]; exact Bool.false_ne_true)]
      exact congrArg (Prod.mk false) (Prod.ext hf rfl)
    · obtain ⟨v, hv⟩ := exists_mem_of_ne_nil _ (isEmpty_eq_false_iff.1 he)
      exact hn _ ((hm v).1 hv).2

/-- What the selector is offered: what is eligible in the first round, or in the second one if there is
none. -/
def Candidate (c : SchedulerConfig) (env : Env) (p : InferTypeBaseDispatchPolicy)
    (target : List InstanceView) (v : InstanceView) : Prop :=
  Eligible c env p target false v ∨
    (∀ w, ¬ Eligible c env p target false w) ∧ Eligible c env p target true v

/-- **Nothing panics on the way**: every view has the metrics that the filters read, and two candidates have
those that the selector compares. -/
structure Works (c : SchedulerConfig) (env : Env) (p : InferTypeBaseDispatchPolicy)
    (target : List InstanceView) : Prop where
  filters : ∀ v ∈ target, ∀ m ∈ p.singleInstanceFilters.flatMap (·.reads), m ∈ metricsOf c v
  draws : (∃ v, Eligible c env p target true v) → p.selectors.Selectable
  selectors : ∀ v w, Candidate c env p target v → Candidate c env p target w → v ≠ w →
    ∀ m ∈ p.selectors.reads, m ∈ metricsOf c v

theorem Candidate.eligible {target : List InstanceView} {v : InstanceView} (h : Candidate c env p target v) :
    Eligible c env p target true v :=
  h.elim Eligible.fallback And.right

theorem lacks_eq_false (names : List SchedulingMetric) (views : List InstanceViewScheduling) :
    lacks c names views = false ↔
      ∀ v ∈ views.map (·.toInstanceView), ∀ m ∈ names, m ∈ metricsOf c v := by
  simp [lacks]

/-- Without adaptive PD the views have the metrics of the entry that they are scheduled by. -/
theorem metricsOf_target (hpl : c.enableAdaptivePD = false) {t : InferType}
    (hp : newDispatchPolicyInternal c t = some p) {views : List InstanceView} {v : InstanceView}
    (hv : v ∈ target c t views) : metricsOf c v = p.metrics := by
  have hg : v ∈ views ∧ group c v = t := by simpa [target, hpl] using hv
  simp [metricsOf, hg.2, hp]

/-- What is left after the rounds are the candidates. -/
theorem filterRounds_candidates (hp : Entry c p) (ht : Tracks c env cluster views) (inferType : InferType) :
    ∃ (fallback : Bool) (available : List InstanceViewScheduling),
      filterRounds env p (targetInstanceViews c inferType views) =
        (fallback, flagged c env (target c inferType cluster.views), available) ∧
      (∀ v, Candidate c env p (target c inferType cluster.views) v ↔ v ∈ available.map (·.toInstanceView)) ∧
      (available.map (·.toInstanceView)).Nodup := by
  obtain ⟨fallback, available, hr, hm, hsu, hf⟩ := filterRounds_spec hp ht inferType
  refine ⟨fallback, available, hr, fun v => ?_, hsu.nodup (nodup_target cluster inferType).of_map⟩
  -- a candidate is what is eligible in the last round
  have hca : Candidate c env p (target c inferType cluster.views) v ↔
      Eligible c env p (target c inferType cluster.views) fallback v := by
    cases fallback with
    | true => exact ⟨Candidate.eligible, fun h => .inr ⟨hf.1 rfl, h⟩⟩
    | false => exact ⟨fun h => h.elim id fun h => absurd (hf.2 h.1) Bool.false_ne_true, .inl⟩
  rw [hca, mem_map]
  refine ⟨fun hv => ⟨v.flag (failing c env v), (hm _).2 ⟨mem_flagged.2 ⟨hv.mem, rfl⟩, hv⟩, rfl⟩, ?_⟩
  rintro ⟨w, hw, rfl⟩
  exact ((hm w).1 hw).2

/-- What holds of each of two entries holds of all, if there are two. -/
theorem forall_mem_ne_iff {α : Type} {l : List α} (hn : l.Nodup) {P : α → Prop} :
    (∀ v w, v ∈ l → w ∈ l → v ≠ w → P v) ↔ (1 < l.length → ∀ v ∈ l, P v) := by
  classical
  rw [← toFinset_card_of_nodup hn]
  constructor
  · intro h hl v hv
    obtain ⟨w, hw, hne⟩ := Finset.exists_mem_ne hl v
    exact h v w hv (mem_toFinset.1 hw) hne.symm
  · intro h v w hv hw hne
    exact h (Finset.one_lt_card.2 ⟨v, mem_toFinset.2 hv, w, mem_toFinset.2 hw, hne⟩) v hv

/-- **The three outcomes of `executeSchedule`**: a panic; nothing, because not even the fallback round lets
a view through; or an eligible view. -/
theorem executeSchedule_spec (ht : Tracks c env cluster views) (inferType : InferType) (s : State) :
    (newDispatchPolicyInternal c inferType = none ∧
        ∃ e, executeSchedule c env inferType s views = .error e) ∨
    ∃ p, newDispatchPolicyInternal c inferType = some p ∧
      ((¬ Works c env p (target c inferType cluster.views) ∧
          ∃ e, executeSchedule c env inferType s views = .error e) ∨
        (Works c env p (target c inferType cluster.views) ∧
          (((∀ v, ¬ Eligible c env p (target c inferType cluster.views) true v) ∧
              ∃ views', Tracks c env cluster views' ∧
                executeSchedule c env inferType s views = .ok ⟨none, s, views'⟩) ∨
            ∃ v : InstanceViewScheduling,
              Eligible c env p (target c inferType cluster.views) true v.toInstanceView ∧
              ∃ s' views', s'.accounts = s.accounts ∧ Tracks c env cluster views' ∧
                executeSchedule c env inferType s views = .ok ⟨some v, s', views'⟩))) := by
  cases hpo : newDispatchPolicyInternal c inferType with
  | none => exact .inl ⟨rfl, _, by rw [executeSchedule, hpo]⟩
  | some p =>
  refine .inr ⟨p, rfl, ?_⟩
  obtain ⟨fallback, available, hr, hin, hnd⟩ := filterRounds_candidates (entry_of_policy hpo) ht inferType
  have ht' := ht.writeBack (target_subset (c := c) inferType cluster.views)
  have hfr := lacks_eq_false (c := c) (p.singleInstanceFilters.flatMap (·.reads))
    (targetInstanceViews c inferType views)
  rw [map_targetInstanceViews ht inferType] at hfr
  generalize target c inferType cluster.views = T at *
  have hse : (∀ v w, Candidate c env p T v → Candidate c env p T w → v ≠ w →
      ∀ m ∈ p.selectors.reads, m ∈ metricsOf c v) ↔
        ¬ (1 < available.length ∧ lacks c p.selectors.reads available = true) := by
    simp only [hin, forall_mem_ne_iff hnd, length_map, ← lacks_eq_false, not_and, Bool.not_eq_true]
  cases hfi : lacks c (p.singleInstanceFilters.flatMap (·.reads)) (targetInstanceViews c inferType views) with
  | true =>
    refine .inl ⟨fun hw => ?_, .nilMetric, by simp only [executeSchedule, hpo, hfi, if_true]⟩
    rw [hfr.2 hw.filters] at hfi
    cases hfi
  | false =>
  cases available with
  | nil =>
    have hn : ∀ v, ¬ Candidate c env p T v := fun v hv => not_mem_nil ((hin v).1 hv)
    have hne : ∀ v, ¬ Eligible c env p T true v := fun v hv => hn v (.inr ⟨fun w hw => hn w (.inl hw), hv⟩)
    refine .inr ⟨⟨hfr.1 hfi, fun h => absurd h.choose_spec (hne _), fun v _ hv => absurd hv (hn v)⟩,
      .inl ⟨hne, _, ht', ?_⟩⟩
    simp only [executeSchedule, hpo, hfi, hr, Bool.false_eq_true, if_false]
  | cons w rest =>
  by_cases hla : 1 < (w :: rest).length ∧ lacks c p.selectors.reads (w :: rest) = true
  · refine .inl ⟨fun hw => hse.1 hw.selectors hla, .nilMetric, ?_⟩
    simp only [executeSchedule, hpo, hfi, hr, if_pos hla, Bool.false_eq_true, if_false]
  rcases selectInstance_spec env (s.lastSelectedInstanceId inferType) fallback p.selectors
    (cons_ne_nil w rest) with ⟨hs, v, hv, l, hok⟩ | ⟨hs, e, he⟩
  · have hel := ((hin _).2 (mem_map_of_mem hv)).eligible
    refine .inr ⟨⟨hfr.1 hfi, fun _ => hs, hse.2 hla⟩, .inr ⟨v, hel,
      ⟨s.accounts, Function.update s.lastSelectedInstanceId inferType l⟩, _, rfl, ht', ?_⟩⟩
    simp only [executeSchedule, hpo, hfi, hr, if_neg hla, hok, Bool.false_eq_true, if_false]
  · refine .inl ⟨fun hw => hs (hw.draws ⟨_, ((hin _).2 mem_cons_self).eligible⟩), e, ?_⟩
    simp only [executeSchedule, hpo, hfi, hr, if_neg hla, he, Bool.false_eq_true, if_false]

end Llumnix.Dispatch
