/-
**What the selectors pick.**

The selectors of `Llumnix.DispatchPolicy` scan the candidates in the order in which the map hands them out.
Here the values behind the comparisons come back, in a linear order for each metric, or the dual of one for a
reversed metric.  The decode selector of adaptive PD looks for the instance with the largest predicted time
per output token, but a reservation ends its scan early; and it is built without the bound that it keeps to
with fallback.

* `selectInstance_optimal` — **the metric based selector picks a minimum, or one of the best**;
* `sloDecodeApd_fullest_iff` — **without fallback the fullest instance is picked in every order exactly
  when no other instance is reserved**;
* `sloDecodeApd_withinSlo_iff` — **with fallback the objective hardly ever decides**.
-/

import Llumnix.DispatchShape

namespace Llumnix.Dispatch

open List

variable {views : List InstanceViewScheduling} {env : Env}

/-- Ranging over the given map meets the views in the given order. -/
def Env.inOrder (env : Env) (order : List InstanceViewScheduling) (h : order.Perm views) : Env :=
  { env with
    iterate := fun l => if l = views then order else l
    iterate_perm := fun l => by
      split
      · next hv => exact hv ▸ h
      · exact List.Perm.refl l }

theorem iterate_inOrder (env : Env) {order : List InstanceViewScheduling} (h : order.Perm views) :
    (env.inOrder order h).iterate views = order :=
  if_pos rfl

/-! ### Scanning for the smallest key -/

section Scan

variable {κ : Type} [LinearOrder κ] {key : InstanceViewScheduling → κ}
  {prefers : InstanceViewScheduling → InstanceViewScheduling → Bool}
  (hp : ∀ v s, prefers v s = decide (key v < key s))
include hp

theorem foldl_scan_le (views : List InstanceViewScheduling) :
    ∀ s v, views.foldl (scan prefers) (some s) = some v → ∀ w ∈ s :: views, key v ≤ key w := by
  induction views with
  | nil =>
    intro s v h w hw
    cases h
    rw [mem_singleton.1 hw]
  | cons u views ih =>
    intro s v h
    simp only [foldl_cons, scan, hp, decide_eq_true_eq] at h
    -- the key of the favourite only ever falls
    rw [forall_mem_cons, forall_mem_cons]
    split at h
    · next hlt =>
      have hv := forall_mem_cons.1 (ih u v h)
      exact ⟨hv.1.trans hlt.le, hv⟩
    · next hge =>
      have hv := forall_mem_cons.1 (ih s v h)
      exact ⟨hv.1, hv.1.trans (not_lt.1 hge), hv.2⟩

theorem exists_smallest {order : List InstanceViewScheduling} (ho : order.Perm views) (hne : views ≠ []) :
    ∃ v ∈ views, order.foldl (scan prefers) none = some v ∧ ∀ w ∈ views, key v ≤ key w := by
  cases order with
  | nil => exact absurd ho.symm.eq_nil hne
  | cons s rest =>
    obtain ⟨v, hv, hs⟩ := foldl_scan_none (cons_ne_nil s rest)
    exact ⟨v, ho.mem_iff.1 hv, hs, fun w hw => foldl_scan_le hp rest s v hs w (ho.mem_iff.2 hw)⟩

/-- A view that comes first stays the favourite if no other has a smaller key. -/
theorem foldl_scan_first {s : InstanceViewScheduling} (hs : ∀ w ∈ views, key s ≤ key w) :
    views.foldl (scan prefers) (some s) = some s := by
  induction views with
  | nil => rfl
  | cons u views ih =>
    rw [forall_mem_cons] at hs
    rw [foldl_cons, scan, hp, if_neg (by simpa using hs.1)]
    exact ih hs.2

end Scan

/-! ### The metric based selector -/

def sampleTpot (id : String) : ℕ := if id = "full" then 2 else 1

def tpotEnv : Env := { sampleEnv with less := fun _ a b => decide (sampleTpot a < sampleTpot b) }

/-- A full and an empty instance; the reservation is that of the empty one. -/
def twoViews (reserved : InferType) : List InstanceViewScheduling :=
  [(sampleView "full" .decode 0 true).flag false,
    InstanceView.flag { sampleView "empty" .decode 1 true with reservedInferType := reserved } false]

section Metrics

variable (β : SchedulingMetric → Type) [∀ m, LinearOrder (β m)]

/-- The values of the metrics of an instance, in lexicographic order. -/
def Key : List SchedulingMetric → Type
  | [] => Unit
  | m :: names => β m ×ₗ Key names

instance Key.linearOrder : (names : List SchedulingMetric) → LinearOrder (Key β names)
  | [] => inferInstanceAs (LinearOrder Unit)
  | m :: names => @Prod.Lex.instLinearOrder (β m) (Key β names) _ (Key.linearOrder names)

variable {β}

def key (value : (m : SchedulingMetric) → String → β m) :
    (names : List SchedulingMetric) → String → Key β names
  | [], _ => ()
  | m :: names, id => toLex (value m id, key value names id)

variable {value : (m : SchedulingMetric) → String → β m}

theorem better_eq (hl : ∀ m a b, env.less m a b = decide (value m a < value m b))
    (names : List SchedulingMetric) (a b : String) :
    better env names a b = decide (key value names a < key value names b) := by
  induction names with
  | nil => exact (decide_eq_false (lt_irrefl (key value [] a))).symm
  | cons m names ih =>
    have hlt : key value (m :: names) a < key value (m :: names) b ↔
        value m a < value m b ∨ value m a = value m b ∧ key value names a < key value names b :=
      Prod.Lex.toLex_lt_toLex
    rw [better, hl, hl, ih]
    simp only [hlt]
    rcases lt_trichotomy (value m a) (value m b) with h | h | h
    · simp [h]
    · simp [h]
    · simp [h, h.not_gt, h.ne']

/-- In a sorted list the place of a view lies between the number of smaller keys and the number of other
keys that are not larger. -/
theorem place_bounds {κ : Type} [LinearOrder κ] {f : InstanceViewScheduling → κ}
    {before after : List InstanceViewScheduling} {v : InstanceViewScheduling}
    (hs : (before ++ v :: after).Pairwise fun a b => f a ≤ f b) :
    (before ++ v :: after).countP (fun w => decide (f w < f v)) ≤ before.length ∧
      before.length ≤ (before ++ after).countP fun w => decide (f w ≤ f v) := by
  obtain ⟨-, ha, hb⟩ := pairwise_append.1 hs
  have hz : (v :: after).countP (fun w => decide (f w < f v)) = 0 := by
    rw [countP_eq_zero, forall_mem_cons]
    refine ⟨by simp, fun w hw => ?_⟩
    simpa using (pairwise_cons.1 ha).1 w hw
  have hf : before.countP (fun w => decide (f w ≤ f v)) = before.length := by
    rw [countP_eq_length]
    intro w hw
    simpa using hb w hw v mem_cons_self
  rw [countP_append, countP_append, hz, hf]
  exact ⟨countP_le_length, Nat.le_add_right _ _⟩

/-- The draw is made from the first `k` views by rising key, or from all of them if there are fewer. -/
theorem selectInstance_ranked (hl : ∀ m a b, env.less m a b = decide (value m a < value m b)) {k : ℕ}
    (hk : 1 < k) (hne : views ≠ []) (names : List SchedulingMetric) :
    ∃ ranked : List InstanceViewScheduling, ranked.Perm views ∧
      (ranked.Pairwise fun v w => key value names v.instanceId ≤ key value names w.instanceId) ∧
      ∀ intn intn_lt last fallback, (DispatchSelector.metricBased k names).selectInstance
        { env with intn := intn, intn_lt := intn_lt } last views fallback =
          .ok (ranked[intn (min views.length k)]?, last) := by
  refine ⟨(env.iterate views).mergeSort fun v w => !better env names w.instanceId v.instanceId,
    (mergeSort_perm _ _).trans (env.iterate_perm views), ?_, fun intn intn_lt last fallback => ?_⟩
  · simp only [better_eq hl, ← decide_not, not_lt]
    refine List.Pairwise.imp of_decide_eq_true (pairwise_mergeSort (fun u v w => ?_) (fun v w => ?_) _)
    · simpa using fun h h' => h.trans h'
    · simpa using le_total _ _
  · have hm : (if (views.length : Int) < k then (views.length : Int) else k) =
        ((min views.length k : ℕ) : Int) := by
      split <;> omega
    have hpo : 0 < min views.length k := lt_min (length_pos_iff.2 hne) (by omega)
    have hb : ∀ a b, better { env with intn := intn, intn_lt := intn_lt } names a b = better env names a b := by
      intro a b
      rw [better_eq hl, better_eq (by exact hl)]
    rw [DispatchSelector.selectInstance, if_neg (by omega)]
    simp only [randomChoiceFromTopK, hb]
    rw [((mergeSort_perm _ _).trans (env.iterate_perm views)).length_eq, hm, if_neg (by omega),
      Int.toNat_natCast]
    rfl

/-- **The metric based selector picks a minimum, or one of the best.**  Any view with fewer than `k` others
before or beside it is picked by some draw. -/
theorem selectInstance_optimal (hl : ∀ m a b, env.less m a b = decide (value m a < value m b))
    (hne : views ≠ []) (names : List SchedulingMetric) (last : String) (fallback : Bool) :
    (∃ v ∈ views, (DispatchSelector.metricBased 1 names).selectInstance env last views fallback =
        .ok (some v, last) ∧
      ∀ w ∈ views, key value names v.instanceId ≤ key value names w.instanceId) ∧
    ∀ k : ℕ, 1 < k →
      (∃ v ∈ views, (DispatchSelector.metricBased k names).selectInstance env last views fallback =
          .ok (some v, last) ∧
        (views.countP fun w => key value names w.instanceId < key value names v.instanceId) < k) ∧
      ∀ v ∈ views, ((views.erase v).countP fun w =>
          key value names w.instanceId ≤ key value names v.instanceId) < k →
        ∃ intn intn_lt, (DispatchSelector.metricBased k names).selectInstance
          { env with intn := intn, intn_lt := intn_lt } last views fallback = .ok (some v, last) := by
  refine ⟨?_, fun k hk => ?_⟩
  · have hb : ∀ v s : InstanceViewScheduling, better env names v.instanceId s.instanceId =
        decide (key value names v.instanceId < key value names s.instanceId) :=
      fun _ _ => better_eq hl names _ _
    obtain ⟨v, hv, hs, hle⟩ := exists_smallest hb (env.iterate_perm views) hne
    exact ⟨v, hv, by rw [DispatchSelector.selectInstance, if_pos rfl, best, hs], hle⟩
  obtain ⟨ranked, hp, hw, hsel⟩ := selectInstance_ranked hl hk hne names
  have hlen := hp.length_eq
  constructor
  · have hi := env.intn_lt (min views.length k) (lt_min (length_pos_iff.2 hne) (by omega))
    have hs := hsel env.intn env.intn_lt last fallback
    generalize env.intn (min views.length k) = i at hi hs
    have hil : i < ranked.length := by omega
    have hsp : ranked = ranked.take i ++ ranked[i] :: ranked.drop (i + 1) := by
      rw [← drop_eq_getElem_cons, take_append_drop]
    refine ⟨ranked[i], hp.mem_iff.1 (getElem_mem hil), by rw [hs, getElem?_eq_getElem hil], ?_⟩
    have hle := (place_bounds (hsp ▸ hw)).1
    rw [← hsp, length_take, hp.countP_eq] at hle
    omega
  · intro v hv hc
    obtain ⟨before, after, rfl⟩ := append_of_mem (hp.mem_iff.2 hv)
    have hpe : (views.erase v).Perm (before ++ after) := by
      have := (hp.symm.trans perm_middle).erase v
      rwa [erase_cons_head] at this
    have hlt := (place_bounds hw).2
    rw [hpe.countP_eq] at hc
    -- the draw hits the place of the view
    refine ⟨fun n => min before.length (n - 1),
      fun n hn => (min_le_right _ _).trans_lt (Nat.sub_lt hn one_pos), ?_⟩
    have hin : before.length < min views.length k := by
      rw [← hlen, length_append, length_cons]
      omega
    rw [hsel, min_eq_left (by omega : before.length ≤ min views.length k - 1),
      getElem?_append_right le_rfl, Nat.sub_self, getElem?_cons_zero]

theorem selectInstance_optimal_two : ∃ v ∈ twoViews .unset,
    (DispatchSelector.metricBased 1 [.numRequests]).selectInstance tpotEnv "" (twoViews .unset) false =
      .ok (some v, "") ∧ ∀ w ∈ twoViews .unset, key (fun _ => sampleTpot) [.numRequests] v.instanceId ≤
        key (fun _ => sampleTpot) [.numRequests] w.instanceId :=
  (selectInstance_optimal (fun _ _ _ => rfl) (by decide) [.numRequests] "" false).1

end Metrics

/-! ### The decode selector of adaptive PD -/

variable {α : Type} [LinearOrder α] {tpot : String → α}

/-- No view has a larger predicted time per output token. -/
def Fullest (tpot : String → α) (views : List InstanceViewScheduling) (v : InstanceViewScheduling) : Prop :=
  v ∈ views ∧ ∀ w ∈ views, tpot w.instanceId ≤ tpot v.instanceId

/-- The scan stops at a reserved view, or it meets none and ends with the first maximum. -/
theorem sloDecodeScan_spec (env : Env) (hl : ∀ a b, env.less .predictedTpot a b = decide (tpot a < tpot b))
    (rest : List InstanceViewScheduling) : ∀ s,
      ((sloDecodeScan env s rest).reservedInferType = .decode ∧ sloDecodeScan env s rest ∈ rest) ∨
      ((∀ w ∈ rest, w.reservedInferType ≠ .decode) ∧
        (∀ w ∈ s :: rest, tpot w.instanceId ≤ tpot (sloDecodeScan env s rest).instanceId) ∧
        (sloDecodeScan env s rest = s ∨ tpot s.instanceId < tpot (sloDecodeScan env s rest).instanceId)) := by
  induction rest with
  | nil => exact fun s => .inr ⟨by simp, by simp [sloDecodeScan], .inl rfl⟩
  | cons v rest ih =>
  intro s
  simp only [sloDecodeScan, hl, decide_eq_true_eq]
  split
  · next hd => exact .inl ⟨hd, mem_cons_self⟩
  rename_i hd
  split
  · next hlt =>
    refine (ih v).imp (fun h => ⟨h.1, mem_cons_of_mem _ h.2⟩) ?_
    rintro ⟨hn, hm, -⟩
    have hs := hlt.trans_le (hm v mem_cons_self)
    exact ⟨forall_mem_cons.2 ⟨hd, hn⟩, forall_mem_cons.2 ⟨hs.le, hm⟩, .inr hs⟩
  · next hge =>
    refine (ih s).imp (fun h => ⟨h.1, mem_cons_of_mem _ h.2⟩) ?_
    rintro ⟨hn, hm, hc⟩
    rw [forall_mem_cons] at hm
    refine ⟨forall_mem_cons.2 ⟨hd, hn⟩, ?_, hc⟩
    rw [forall_mem_cons, forall_mem_cons]
    exact ⟨hm.1, (not_lt.1 hge).trans hm.1, hm.2⟩

/-- **Without fallback the decode selector follows its policy in every order exactly when only fullest
instances are reserved for decoding.** -/
theorem sloDecodeApd_fullest_iff (hl : ∀ a b, env.less .predictedTpot a b = decide (tpot a < tpot b))
    (hne : views ≠ []) :
    (∀ order (h : order.Perm views), ∃ v, sloDecodeApd (env.inOrder order h) views false = some v ∧
        Fullest tpot views v ∧
        ((∃ w, Fullest tpot views w ∧ w.reservedInferType = .decode) → v.reservedInferType = .decode)) ↔
      ∀ v ∈ views, v.reservedInferType = .decode → Fullest tpot views v := by
  constructor
  · intro h v hv hd
    refine ⟨hv, fun w hw => ?_⟩
    by_contra hlt
    -- the scan that meets `w` first and then `v` ends with `v`
    have hwv : v ∈ views.erase w := (mem_erase_of_ne (by rintro rfl; exact hlt le_rfl)).2 hv
    have hp := ((perm_cons_erase hw).trans ((perm_cons_erase hwv).cons w)).symm
    obtain ⟨u, hu, hf, -⟩ := h _ hp
    simp only [sloDecodeApd, iterate_inOrder, sloDecodeScan, hd, if_true, Bool.false_eq_true, if_false] at hu
    cases hu
    exact hlt (hf.2 w hw)
  · intro h order hp
    simp only [sloDecodeApd, iterate_inOrder, Bool.false_eq_true, if_false]
    cases order with
    | nil => exact absurd hp.symm.eq_nil hne
    | cons s rest =>
    refine ⟨_, rfl, ?_⟩
    have hv := sloDecodeScan_mem (env.inOrder _ hp) rest s
    have hs := sloDecodeScan_spec (env.inOrder _ hp) hl rest s
    generalize sloDecodeScan (env.inOrder _ hp) s rest = v at hv hs ⊢
    rcases hs with ⟨hd, -⟩ | ⟨hn, hm, hc⟩
    · exact ⟨h v (hp.mem_iff.1 hv) hd, fun _ => hd⟩
    refine ⟨⟨hp.mem_iff.1 hv, fun w hw => hm w (hp.mem_iff.2 hw)⟩, ?_⟩
    rintro ⟨w, hw, hd⟩
    -- only the view the scan began with can be reserved, and then nothing is fuller
    obtain rfl : w = s :=
      (mem_cons.1 (hp.mem_iff.2 hw.1)).resolve_right fun hr => hn w hr hd
    rcases hc with rfl | hlt
    · exact hd
    · exact absurd (hw.2 v (hp.mem_iff.1 hv)) hlt.not_ge

/-- **The reservation wins**: the empty instance is picked, though the other one is fuller. -/
theorem reservation_ends_scan : sloDecodeApd tpotEnv (twoViews .decode) false = (twoViews .decode)[1]? ∧
      sampleTpot "empty" < sampleTpot "full" := by
  decide

theorem sloDecodeApd_fullest_unreserved :
    ∃ v, sloDecodeApd (tpotEnv.inOrder _ (List.Perm.refl (twoViews .unset))) (twoViews .unset) false = some v ∧
      Fullest sampleTpot (twoViews .unset) v ∧ ((∃ w, Fullest sampleTpot (twoViews .unset) w ∧
        w.reservedInferType = .decode) → v.reservedInferType = .decode) :=
  (sloDecodeApd_fullest_iff (fun _ _ => rfl) (by decide)).2
    (fun v hv hd => absurd hd ((by decide : ∀ v ∈ twoViews .unset, v.reservedInferType ≠ .decode) v hv)) _ _

/-! ### With fallback -/

/-- **What the policy wants**: a view within the bound, as full and then as quick to answer as any of those;
without one, a view with the smallest time per output token. -/
structure WithinSlo (tpot ttft : String → α) (bound : α) (views : List InstanceViewScheduling)
    (v : InstanceViewScheduling) : Prop where
  mem : v ∈ views
  within : (∃ w ∈ views, tpot w.instanceId < bound) → tpot v.instanceId < bound ∧
    ∀ w ∈ views, tpot w.instanceId < bound → tpot w.instanceId < tpot v.instanceId ∨
      tpot w.instanceId = tpot v.instanceId ∧ ttft v.instanceId ≤ ttft w.instanceId
  otherwise : (∀ w ∈ views, bound ≤ tpot w.instanceId) → ∀ w ∈ views, tpot v.instanceId ≤ tpot w.instanceId

/-- The selector is built without its bound, and no time is below zero: every view is above the bound. -/
theorem sloDecodeApd_fallback (hz : ∀ a, env.valueLess .predictedTpot .zero a = false) :
    sloDecodeApd env views true = (env.iterate views).foldl
      (scan fun v s => env.less .predictedTpot v.instanceId s.instanceId) none := by
  simp only [sloDecodeApd, if_true, foldl_sloDecodeFallbackTurn, hz, Bool.not_false, filter_false,
    filter_true]
  rfl

/-- **With fallback the decode selector, as it is built, follows its policy in every order exactly when the
candidates within the bound do not differ**: it takes one with the smallest time. -/
theorem sloDecodeApd_withinSlo_iff {ttft : String → α} {bound : α} (c : SchedulerConfig)
    (hl : ∀ a b, env.less .predictedTpot a b = decide (tpot a < tpot b))
    (hz : ∀ a, env.valueLess .predictedTpot .zero a = false) (hne : views ≠ []) (last : String) :
    (∀ order (h : order.Perm views), ∃ v, (adaptiveDecode c).selectors.selectInstance
        (env.inOrder order h) last views true = .ok (some v, last) ∧ WithinSlo tpot ttft bound views v) ↔
      ∀ u ∈ views, ∀ w ∈ views, tpot u.instanceId < bound → tpot w.instanceId < bound →
        tpot u.instanceId = tpot w.instanceId ∧ ttft u.instanceId = ttft w.instanceId := by
  have hsel : ∀ env' v, (adaptiveDecode c).selectors.selectInstance env' last views true =
      .ok (some v, last) ↔ sloDecodeApd env' views true = some v := by
    intro env' v
    simp [adaptiveDecode, DispatchSelector.selectInstance]
  have hscan : ∀ order (h : order.Perm views), sloDecodeApd (env.inOrder order h) views true =
      order.foldl (scan fun v s => env.less .predictedTpot v.instanceId s.instanceId) none := by
    intro order h
    rw [sloDecodeApd_fallback (by exact hz), iterate_inOrder]
    rfl
  have hp : ∀ v s : InstanceViewScheduling, env.less .predictedTpot v.instanceId s.instanceId =
    decide (tpot v.instanceId < tpot s.instanceId) := fun _ _ => hl _ _
  simp only [hsel, hscan]
  constructor
  · intro h
    -- a view with the smallest time is picked if it is met first
    have hpick : ∀ u ∈ views, (∀ w ∈ views, tpot u.instanceId ≤ tpot w.instanceId) →
        WithinSlo tpot ttft bound views u := by
      intro u hu hle
      obtain ⟨v, hv, hw⟩ := h _ (perm_cons_erase hu).symm
      rw [foldl_cons, scan, foldl_scan_first hp fun w hw => hle w (mem_of_mem_erase hw)] at hv
      cases hv
      exact hw
    obtain ⟨v, hv, -, hle⟩ := exists_smallest hp (.refl views) hne
    have hall : ∀ u ∈ views, tpot u.instanceId < bound →
        ∀ w ∈ views, tpot u.instanceId ≤ tpot w.instanceId := by
      intro u hu hub w hw
      rcases ((hpick v hv hle).within ⟨u, hu, hub⟩).2 u hu hub with hlt | he
      · exact absurd (hle u hu) hlt.not_ge
      · exact he.1.trans_le (hle w hw)
    have httft : ∀ u ∈ views, ∀ w ∈ views, tpot u.instanceId < bound → tpot w.instanceId < bound →
        ttft u.instanceId ≤ ttft w.instanceId := by
      intro u hu w hw hub hwb
      rcases ((hpick u hu (hall u hu hub)).within ⟨u, hu, hub⟩).2 w hw hwb with hlt | he
      · exact absurd (hall u hu hub w hw) hlt.not_ge
      · exact he.2
    intro u hu w hw hub hwb
    exact ⟨le_antisymm (hall u hu hub w hw) (hall w hw hwb u hu),
      le_antisymm (httft u hu w hw hub hwb) (httft w hw u hu hwb hub)⟩
  · intro h order ho
    obtain ⟨v, hv, hs, hle⟩ := exists_smallest hp ho hne
    refine ⟨v, hs, hv, ?_, fun _ => hle⟩
    rintro ⟨u, hu, hub⟩
    have hvb := (hle u hu).trans_lt hub
    refine ⟨hvb, fun w hw hwb => .inr ?_⟩
    obtain ⟨he, ht⟩ := h w hw v hv hwb hvb
    exact ⟨he, ht.ge⟩

/-- No time is below zero. -/
def nonnegEnv : Env := { tpotEnv with valueLess := fun _ _ _ => false }

/-- **The objective is not looked at**: both instances are within a bound of three, and the empty one is
picked. -/
theorem emptiest_within_slo : sloDecodeApd nonnegEnv (twoViews .unset) true = (twoViews .unset)[1]? ∧
    ∀ v ∈ (twoViews .unset)[1]?, ¬ WithinSlo sampleTpot (fun _ => 0) 3 (twoViews .unset) v := by
  refine ⟨by decide, fun v hv h => ?_⟩
  cases hv
  exact absurd ((h.within (by decide)).2 _ mem_cons_self (by decide)) (by decide)

/-- With a bound of two only the empty instance is within it. -/
theorem sloDecodeApd_withinSlo_one : ∃ v, (adaptiveDecode (sampleConfig .ofInstance)).selectors.selectInstance
      (nonnegEnv.inOrder _ (List.Perm.refl (twoViews .unset))) "" (twoViews .unset) true = .ok (some v, "") ∧
    WithinSlo sampleTpot (fun _ => 0) 2 (twoViews .unset) v :=
  (sloDecodeApd_withinSlo_iff (sampleConfig .ofInstance) (fun _ _ => rfl) (fun _ => rfl) (by decide) "").2
    (by decide) _ _

end Llumnix.Dispatch
