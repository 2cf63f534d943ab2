/-
**What failover takes back.**

When a gateway or an instance fails, or an instance comes back with a newer version, the scheduler deletes
the requests of the failed party from its local realtime state.  The totals are exact as long as no request
has a negative number of tokens; with one, a total can be below the number of a single request, and then a
release sets it to zero.

* `reclaims_of_failover` — **failover reclaims exactly the load of the failed party** and leaves the indexes
  in agreement, if no number of tokens is negative.
-/

import Llumnix.LrsLedger

namespace Llumnix.Lrs

open FiniteMap GuardedRun List Finset

variable {s : LocalRealtimeState}

/-! ### The property -/

/-- The tokens of the requests a view holds, as an integer. -/
def tokenCount (heap : Heap) (iv : InstanceView) : ℤ :=
  total (fun _ p => (heap p).numTokens.toInt) iv.requestStates

/-- **The indexes agree and the totals are exact.** -/
structure Agreed (s : LocalRealtimeState) : Prop extends Consistent s where
  exact : ∀ i iv, s.instanceViews.lookup i = some iv → iv.numTokens.toInt = tokenCount s.heap iv

inductive Failover
  | removeGateway (gatewayId : String)
  | removeInstance (instanceId : String)
  /-- The instance comes back with a newer version. -/
  | addInstance (inst : LLMInstance)

namespace Failover

def call (order : List String) : Failover → Call
  | removeGateway gatewayId => .removeGateway gatewayId order
  | removeInstance instanceId => .removeInstance instanceId order
  | addInstance inst => .addInstance inst order

/-- An instance that comes back is known with an older version. -/
def Due (s : LocalRealtimeState) : Failover → Prop
  | addInstance inst => ∃ old, s.instanceViews.lookup inst.id = some old ∧ old.version < inst.version
  | _ => True

def owns : Failover → RequestState → Bool
  | removeGateway gatewayId, st => st.gatewayId = gatewayId
  | removeInstance instanceId, st => st.instanceId = instanceId
  | addInstance inst, st => st.instanceId = inst.id

def deleted (s : LocalRealtimeState) (f : Failover) : Finset String :=
  s.requestStates.keys.filter fun r => (s.requestStates.lookup r).any fun p => f.owns (s.heap p)

/-- What becomes of the view of the party: `none` if the party is not this instance. -/
def successor : Failover → String → Option (Option InstanceView)
  | removeGateway _, _ => none
  | removeInstance instanceId, i => if i = instanceId then some none else none
  | addInstance inst, i => if i = inst.id then some (some (newInstanceView inst)) else none

/-- The set of requests of the party goes with it. -/
def dropsSet : Failover → String → Prop
  | removeGateway gatewayId, g => g = gatewayId
  | _, _ => False

instance (f : Failover) (g : String) : Decidable (f.dropsSet g) := by
  unfold dropsSet
  split <;> infer_instance

end Failover

open Failover

def tokensOf (heap : Heap) (iv : InstanceView) (r : String) : ℤ :=
  ((iv.requestStates.lookup r).map fun p => (heap p).numTokens.toInt).getD 0

/-- **A view has lost these requests**, and its total their tokens. -/
structure Lowered (heap : Heap) (deleted : Finset String) (iv iv' : InstanceView) : Prop where
  inst : iv'.inst = iv.inst
  version : iv'.version = iv.version
  requestStates : ∀ r, iv'.requestStates.lookup r =
    if r ∈ deleted then none else iv.requestStates.lookup r
  numTokens : iv'.numTokens.toInt = iv.numTokens.toInt - ∑ r ∈ deleted, tokensOf heap iv r

/-- **The load of the party, and nothing else, has been reclaimed.** -/
structure Reclaims (f : Failover) (s t : LocalRealtimeState) : Prop where
  /-- No state of a request has changed. -/
  heap : t.heap = s.heap
  /-- Exactly the requests of the party have gone. -/
  requestStates : ∀ r, t.requestStates.lookup r =
    if r ∈ f.deleted s then none else s.requestStates.lookup r
  /-- The sets of the gateways have lost these requests. -/
  gatewayRequestSet : ∀ g, t.gatewayRequestSet.lookup g =
    if f.dropsSet g then none else (s.gatewayRequestSet.lookup g).map (· \ f.deleted s)
  /-- The failed instance has gone, or has been replaced. -/
  failed : ∀ i view, f.successor i = some view → t.instanceViews.lookup i = view
  /-- The other views have lost these requests and their tokens. -/
  others : ∀ i, f.successor i = none →
    Option.Rel (Lowered s.heap (f.deleted s)) (s.instanceViews.lookup i) (t.instanceViews.lookup i)

/-- No release of the call sets a total to zero.  Only `RemoveGateway` releases requests one by one. -/
def ClampFree (s : LocalRealtimeState) (order : List String) : Failover → Prop
  | .removeGateway _ => ReclaimAllOk s order
  | _ => True

/-! ### Lowered views -/

section

variable {heap : Heap} {ks : Finset String} {iv iv' : InstanceView}
variable {r : String} {p : Ref}

theorem Lowered.of_disjoint (h : ∀ r ∈ ks, iv.requestStates.lookup r = none) : Lowered heap ks iv iv where
  inst := rfl
  version := rfl
  requestStates := fun r => by
    split
    · next hr => exact h r hr
    · rfl
  numTokens := by
    have hz : ∑ r ∈ ks, tokensOf heap iv r = 0 := by
      refine sum_eq_zero fun r hr => ?_
      rw [tokensOf, h r hr]
      rfl
    rw [hz, sub_zero]

theorem Lowered.exact (h : Lowered heap ks iv iv') (he : iv.numTokens.toInt = tokenCount heap iv) :
    iv'.numTokens.toInt = tokenCount heap iv' := by
  have hs : tokenCount heap iv = (∑ r ∈ ks, tokensOf heap iv r) + tokenCount heap iv' :=
    total_eq_sum_add _ ks h.requestStates
  rw [h.numTokens, he, hs]
  omega

/-- A total that is exact is not below any of its requests, if none is negative. -/
theorem noClamp_of_exact (he : iv.numTokens.toInt = tokenCount heap iv)
    (hp : iv.requestStates.lookup r = some p)
    (hc : ∀ r p, iv.requestStates.lookup r = some p → 0 ≤ (heap p).numTokens.toInt) :
    NoClamp heap iv p := by
  have hr : 0 ≤ total (fun _ p => (heap p).numTokens.toInt) (iv.requestStates.erase r) := by
    refine total_nonneg fun q x hx => hc q x ?_
    rw [lookup_erase_ite, Option.ite_none_left_eq_some] at hx
    exact hx.2
  rw [NoClamp, BitVec.slt_iff_toInt_lt, he, tokenCount, total_eq_add_erase _ hp]
  omega

theorem Lowered.release (h : Lowered heap ks iv iv') (hr : r ∉ ks)
    (hp : iv.requestStates.lookup r = some p) (he : iv.numTokens.toInt = tokenCount heap iv)
    (hco : ∀ r p, iv.requestStates.lookup r = some p → 0 ≤ (heap p).numTokens.toInt) :
    NoClamp heap iv' p ∧ Lowered heap (insert r ks) iv (iv'.releaseRequestState heap r) := by
  have hp' : iv'.requestStates.lookup r = some p := by
    rw [h.requestStates, if_neg hr]
    exact hp
  have hc' : ∀ r p, iv'.requestStates.lookup r = some p → 0 ≤ (heap p).numTokens.toInt := by
    intro q x hx
    rw [h.requestStates, Option.ite_none_left_eq_some] at hx
    exact hco q x hx.2
  have hc := noClamp_of_exact (h.exact he) hp' hc'
  have hf : iv'.releaseRequestState heap r = { iv' with
        numTokens := iv'.numTokens - (heap p).numTokens
        requestStates := iv'.requestStates.erase r } := by
    simp only [InstanceView.releaseRequestState, hp']
    rw [if_neg hc]
  refine ⟨hc, ?_⟩
  rw [hf]
  refine ⟨h.inst, h.version, fun q => ?_, ?_⟩
  · rw [lookup_erase_ite, h.requestStates]
    by_cases hq : q = r <;> simp [hq]
  have hle : (heap p).numTokens.toInt ≤ iv'.numTokens.toInt := by
    rw [NoClamp, BitVec.slt_iff_toInt_lt] at hc
    omega
  have hn := hco r p hp
  have ht : tokensOf heap iv r = (heap p).numTokens.toInt := by
    rw [tokensOf, hp]
    rfl
  have hs : (iv'.numTokens - (heap p).numTokens).toInt =
      iv'.numTokens.toInt - (heap p).numTokens.toInt := by
    have hu := iv'.numTokens.toInt_lt
    rw [BitVec.toInt_sub, Int.bmod_eq_of_le]
    · norm_num
      omega
    · norm_num at hu ⊢
      omega
  rw [hs, sum_insert hr, ht, h.numTokens]
  omega

theorem Lowered.skip (h : Lowered heap ks iv iv') (hr : r ∉ ks)
    (hn : iv.requestStates.lookup r = none) : Lowered heap (insert r ks) iv iv' where
  inst := h.inst
  version := h.version
  requestStates := fun q => by
    rw [h.requestStates]
    by_cases hq : q = r
    · subst hq
      simp [hn]
    · simp [hq]
  numTokens := by
    rw [sum_insert hr, h.numTokens]
    simp [tokensOf, hn]

end

/-! ### The loop of `RemoveGateway` -/

/-- The state when the requests `gone` of the loop have been released. -/
structure Released (s : LocalRealtimeState) (gone : Finset String) (t : LocalRealtimeState) : Prop where
  heap : t.heap = s.heap
  gatewayRequestSet : t.gatewayRequestSet = s.gatewayRequestSet
  requestStates : ∀ r, t.requestStates.lookup r =
    if r ∈ gone then none else s.requestStates.lookup r
  views : ∀ i, Option.Rel (Lowered s.heap gone) (s.instanceViews.lookup i) (t.instanceViews.lookup i)

/-- No request has a negative number of tokens. -/
def Countable (s : LocalRealtimeState) : Prop :=
  ∀ r p, s.requestStates.lookup r = some p → 0 ≤ (s.heap p).numTokens.toInt

section

variable {s t : LocalRealtimeState} {gone : Finset String}

theorem Released.refl (s : LocalRealtimeState) : Released s ∅ s where
  heap := rfl
  gatewayRequestSet := rfl
  requestStates := fun r => (if_neg (notMem_empty r)).symm
  views := fun i => by
    cases s.instanceViews.lookup i with
    | none => exact .none
    | some iv => exact .some (.of_disjoint fun r hr => absurd hr (notMem_empty r))

theorem Countable.view (hc : Countable s) (h : Agreed s) {i : String} {iv : InstanceView}
    (hiv : s.instanceViews.lookup i = some iv) :
    ∀ r p, iv.requestStates.lookup r = some p → 0 ≤ (s.heap p).numTokens.toInt := by
  exact fun r p hp => hc r p ((h.view_iff i r p).1 ⟨iv, hiv, hp⟩).1

/-- **A turn of the loop**, for a request that is still there. -/
theorem Released.reclaimRequest (ht : Released s gone t) (h : Agreed s) (hc : Countable s)
    {r : String} {p : Ref} (hr : r ∉ gone) (hp : s.requestStates.lookup r = some p) :
    ReclaimOk t r ∧ Released s (insert r gone) (t.reclaimRequest r) := by
  have hp' : t.requestStates.lookup r = some p := by
    rw [ht.requestStates, if_neg hr]
    exact hp
  -- the request is in the view of its instance, before the loop and now
  obtain ⟨iv, hiv, hv⟩ := (h.view_iff _ r p).2 ⟨hp, rfl⟩
  obtain ⟨iv', hiv', hl⟩ := exists_of_rel (ht.views (s.heap p).instanceId) hiv
  obtain ⟨hcl, hl'⟩ := hl.release hr hv (h.exact _ iv hiv) (hc.view h hiv)
  have hs : t.reclaimRequest r = { t with
      instanceViews := t.instanceViews.insert (s.heap p).instanceId (iv'.releaseRequestState s.heap r)
      requestStates := t.requestStates.erase r } := by
    have ho : t.instanceViews.lookup (t.heap p).instanceId = some iv' := by
      rw [ht.heap]
      exact hiv'
    simp only [LocalRealtimeState.reclaimRequest, hp', ho]
    rw [ht.heap]
  refine ⟨fun p' hp'' iv'' hiv'' => ?_, ?_⟩
  · cases hp'.symm.trans hp''
    rw [ht.heap] at hiv'' ⊢
    cases hiv'.symm.trans hiv''
    exact hcl
  · rw [hs]
    refine ⟨ht.heap, ht.gatewayRequestSet, fun q => ?_, fun i => ?_⟩
    · rw [lookup_erase_ite, ht.requestStates]
      by_cases hq : q = r <;> simp [hq]
    rw [lookup_insert_ite]
    split
    · next hi =>
      rw [hi, hiv]
      exact .some hl'
    · next hi =>
      -- another view does not have the request
      refine rel_mono (ht.views i) fun iv₂ iv₂' hiv₂ hl₂ => hl₂.skip hr ?_
      rw [Option.eq_none_iff_forall_ne_some]
      intro q hq
      exact hi (h.one_view i _ r q p ⟨iv₂, hiv₂, hq⟩ ⟨iv, hiv, hv⟩)

theorem Released.reclaimAll (h : Agreed s) (hc : Countable s) {order : List String}
    (ht : Released s gone t) (hn : order.Nodup)
    (hl : ∀ r ∈ order, r ∉ gone ∧ ∃ p, s.requestStates.lookup r = some p) : ReclaimAllOk t order ∧
      Released s (order.toFinset ∪ gone) (order.foldl LocalRealtimeState.reclaimRequest t) := by
  induction order generalizing gone t with
  | nil => exact ⟨trivial, by simpa using ht⟩
  | cons r order ih =>
  obtain ⟨hr, hn⟩ := nodup_cons.1 hn
  obtain ⟨hg, p, hp⟩ := hl r mem_cons_self
  obtain ⟨hok, ht'⟩ := ht.reclaimRequest h hc hg hp
  obtain ⟨ha, he⟩ := ih ht' hn fun q hq => by
    obtain ⟨hq', hp⟩ := hl q (mem_cons_of_mem _ hq)
    refine ⟨fun hm => ?_, hp⟩
    rcases mem_insert.1 hm with rfl | hm
    · exact hr hq
    · exact hq' hm
  refine ⟨⟨hok, ha⟩, ?_⟩
  rw [toFinset_cons, insert_union, ← union_insert]
  exact he

end

/-! ### Agreement afterwards -/

section

variable {s t : LocalRealtimeState} {f : Failover}
variable {r i : String} {iv : InstanceView}

theorem mem_deleted :
    r ∈ f.deleted s ↔ ∃ p, s.requestStates.lookup r = some p ∧ f.owns (s.heap p) = true := by
  rw [deleted, Finset.mem_filter, Finmap.mem_keys, Finmap.mem_iff, Option.any_eq_true]
  exact and_iff_right_of_imp fun ⟨p, hp, _⟩ => ⟨p, hp⟩

theorem mem_deleted_iff {p : Ref} (hp : s.requestStates.lookup r = some p) :
    r ∈ f.deleted s ↔ f.owns (s.heap p) = true := by
  rw [mem_deleted]
  constructor
  · rintro ⟨q, hq, ho⟩
    rwa [Option.some.inj (hp.symm.trans hq)]
  · exact fun ho => ⟨p, hp, ho⟩

theorem Reclaims.lookup_eq_some (hr : Reclaims f s t) {p : Ref} :
    t.requestStates.lookup r = some p ↔ s.requestStates.lookup r = some p ∧ f.owns (s.heap p) = false := by
  rw [hr.requestStates, Option.ite_none_left_eq_some, and_comm]
  exact and_congr_right fun hp => by simp [mem_deleted_iff hp]

theorem owns_of_successor {view : Option InstanceView} (h : f.successor i = some view)
    {st : RequestState} (hst : st.instanceId = i) : f.owns st = true := by
  cases f with
  | removeGateway => cases h
  | removeInstance | addInstance =>
    rw [successor] at h
    split at h
    · next hi => simp [owns, hst, hi]
    · cases h

theorem successor_empty (h : f.successor i = some (some iv)) : iv.requestStates = ∅ ∧ iv.numTokens = 0 := by
  cases f with
  | removeGateway => cases h
  | removeInstance =>
    rw [successor] at h
    split at h <;> cases h
  | addInstance =>
    rw [successor] at h
    split at h <;> cases h
    exact ⟨rfl, rfl⟩

theorem Reclaims.viewHolds_iff (hr : Reclaims f s t) (h : Agreed s) (i r : String) (p : Ref) :
    ViewHolds t i r p ↔ t.requestStates.lookup r = some p ∧ (t.heap p).instanceId = i := by
  rw [hr.lookup_eq_some, hr.heap]
  cases hv : f.successor i with
  | some view =>
    refine iff_of_false ?_ ?_
    · rintro ⟨iv, hiv, hp⟩
      rw [hr.failed i view hv] at hiv
      subst hiv
      rw [(successor_empty hv).1] at hp
      cases hp
    · rintro ⟨⟨-, ho⟩, hi⟩
      rw [owns_of_successor hv hi] at ho
      cases ho
  | none =>
  constructor
  · rintro ⟨iv', hiv', hp⟩
    obtain ⟨iv, hiv, hl⟩ := exists_of_rel_right (hr.others i hv) hiv'
    rw [hl.requestStates, Option.ite_none_left_eq_some] at hp
    obtain ⟨hli, hi⟩ := (h.view_iff i r p).1 ⟨iv, hiv, hp.2⟩
    exact ⟨⟨hli, by simpa using mt (mem_deleted_iff hli).2 hp.1⟩, hi⟩
  · rintro ⟨⟨hli, ho⟩, hi⟩
    obtain ⟨iv, hiv, hp⟩ := (h.view_iff i r p).2 ⟨hli, hi⟩
    obtain ⟨iv', hiv', hl⟩ := exists_of_rel (hr.others i hv) hiv
    exact ⟨iv', hiv', by rw [hl.requestStates, if_neg (by simp [mem_deleted_iff hli, ho]), hp]⟩

theorem Reclaims.gatewayHolds_iff (hr : Reclaims f s t) (h : Agreed s) (g r : String) :
    GatewayHolds t g r ↔ ∃ p, t.requestStates.lookup r = some p ∧ (t.heap p).gatewayId = g := by
  simp only [hr.lookup_eq_some, hr.heap, GatewayHolds, hr.gatewayRequestSet]
  by_cases hdr : f.dropsSet g
  · -- the set has gone with the gateway, and so have its requests
    refine iff_of_false ?_ ?_
    · rintro ⟨requestSet, hs, -⟩
      rw [if_pos hdr] at hs
      cases hs
    · rintro ⟨p, ⟨-, ho⟩, hg⟩
      cases f with
      | removeGateway gatewayId =>
        have hg' : g = gatewayId := hdr
        simp [owns, hg, hg'] at ho
      | removeInstance | addInstance => exact hdr
  · rw [if_neg hdr]
    constructor
    · rintro ⟨requestSet, hs, hm⟩
      obtain ⟨old, hold, rfl⟩ := Option.map_eq_some_iff.1 hs
      obtain ⟨hm, hk⟩ := mem_sdiff.1 hm
      obtain ⟨p, hp, hg⟩ := (h.gateway_iff g r).1 ⟨old, hold, hm⟩
      exact ⟨p, ⟨hp, by simpa using mt (mem_deleted_iff hp).2 hk⟩, hg⟩
    · rintro ⟨p, ⟨hp, ho⟩, hg⟩
      obtain ⟨old, hold, hm⟩ := (h.gateway_iff g r).2 ⟨p, hp, hg⟩
      refine ⟨_, Option.map_eq_some_iff.2 ⟨old, hold, rfl⟩, mem_sdiff.2 ⟨hm, ?_⟩⟩
      simp [mem_deleted_iff hp, ho]

theorem Reclaims.exact (hr : Reclaims f s t) (h : Agreed s) {iv' : InstanceView}
    (hiv' : t.instanceViews.lookup i = some iv') : iv'.numTokens.toInt = tokenCount t.heap iv' := by
  cases hv : f.successor i with
  | some view =>
    rw [hr.failed i view hv] at hiv'
    subst hiv'
    obtain ⟨he, hz⟩ := successor_empty hv
    rw [tokenCount, he, hz]
    rfl
  | none =>
    obtain ⟨iv, hiv, hl⟩ := exists_of_rel_right (hr.others i hv) hiv'
    rw [hr.heap]
    exact hl.exact (h.exact i iv hiv)

/-- Words of integers, with their addition. -/
def wordOfInt : ℤ →+ BitVec 64 where
  toFun := BitVec.ofInt 64
  map_zero' := rfl
  map_add' := BitVec.ofInt_add

theorem numTokens_eq_tokenSum {heap : Heap} (h : iv.numTokens.toInt = tokenCount heap iv) :
    iv.numTokens = tokenSum heap iv := by
  calc iv.numTokens = wordOfInt iv.numTokens.toInt := BitVec.ofInt_toInt.symm
    _ = wordOfInt (tokenCount heap iv) := by rw [h]
    _ = total (fun _ p => wordOfInt (heap p).numTokens.toInt) iv.requestStates := map_total _ _ _
    _ = tokenSum heap iv := total_congr fun _ _ _ => BitVec.ofInt_toInt

theorem Reclaims.agreed (hr : Reclaims f s t) (h : Agreed s) : Agreed t where
  view_iff := hr.viewHolds_iff h
  gateway_iff := hr.gatewayHolds_iff h
  one_view := by
    intro i j r p q hp hq
    obtain ⟨hl, hi⟩ := (hr.viewHolds_iff h i r p).1 hp
    obtain ⟨hl', hj⟩ := (hr.viewHolds_iff h j r q).1 hq
    cases hl.symm.trans hl'
    exact hi.symm.trans hj
  total_eq := fun i iv hiv => numTokens_eq_tokenSum (hr.exact h hiv)
  exact := fun i iv hiv => hr.exact h hiv

end

/-! ### The three calls -/

section

variable {s : LocalRealtimeState} {order : List String}
variable {g i : String}

theorem reclaims_removeGateway (h : Agreed s) (hc : Countable s)
    (ho : Enumerates order (s.gatewayRequestIds g)) :
    Reclaims (.removeGateway g) s (s.removeGateway g order) ∧ ReclaimAllOk s order := by
  have hde : order.toFinset = deleted s (.removeGateway g) := by
    ext r
    rw [mem_toFinset, mem_gatewayRequestIds ho, h.gateway_iff, mem_deleted]
    simp [owns]
  obtain ⟨hok, he⟩ := Released.reclaimAll h hc (.refl s) ho.1 fun r hr => by
    obtain ⟨p, hp, -⟩ := (h.gateway_iff g r).1 ((mem_gatewayRequestIds ho).1 hr)
    exact ⟨notMem_empty r, p, hp⟩
  rw [union_empty, hde] at he
  rw [removeGateway_spec ho]
  refine ⟨⟨he.heap, he.requestStates, fun g' => ?_, fun i view hv => ?_, fun i _ => he.views i⟩, hok⟩
  · rw [lookup_erase_ite, he.gatewayRequestSet]
    by_cases hg' : g' = g
    · simp [dropsSet, hg']
    · simp only [dropsSet, hg', if_false]
      cases hs : s.gatewayRequestSet.lookup g' with
      | none => rfl
      | some requestSet =>
        rw [Option.map_some, sdiff_eq_self_of_disjoint (disjoint_left.2 fun r hr hgo => ?_)]
        obtain ⟨p, hp, ho⟩ := (h.gateway_iff g' r).1 ⟨requestSet, hs, hr⟩
        have hg : (s.heap p).gatewayId = g := by simpa [owns] using (mem_deleted_iff hp).1 hgo
        exact hg' (ho.symm.trans hg)
  · cases hv

/-- The two calls that drop an instance: they differ in what they put in its place. -/
theorem reclaims_dropAll (h : Agreed s) {f : Failover} (j : String) (view : Option InstanceView)
    {views : Finmap fun _ : String => InstanceView}
    (ho : ∀ st, f.owns st = true ↔ st.instanceId = j) (hdr : ∀ g, ¬ f.dropsSet g)
    (hs : ∀ i, f.successor i = if i = j then some view else none)
    (hv : ∀ i, views.lookup i = if i = j then view else s.instanceViews.lookup i)
    (hor : Enumerates order (s.instanceRequestIds j)) :
    Reclaims f s { order.foldl LocalRealtimeState.dropRequest s with instanceViews := views } := by
  have hde : order.toFinset = f.deleted s := by
    ext r
    rw [mem_toFinset, mem_instanceRequestIds hor, mem_deleted]
    simp only [ho, ← h.view_iff]
  obtain ⟨hh, -, -, hl, -⟩ := dropAll_spec order s
  refine ⟨hh, fun r => ?_, fun g => ?_, fun i w hw => ?_, fun i hi => ?_⟩
  · rw [hl, ← hde]
    simp only [mem_toFinset]
  · rw [lookup_gateway_dropAll, hde, if_neg (hdr g)]
  · rw [hs] at hw
    rw [hv]
    split at hw <;> cases hw
    next hij => exact if_pos hij
  · have hij : i ≠ j := by
      rintro rfl
      rw [hs, if_pos rfl] at hi
      cases hi
    rw [hv, if_neg hij]
    cases hiv : s.instanceViews.lookup i with
    | none => exact .none
    | some iv =>
      -- a deleted request is in the view of the failed instance, hence in no other
      refine .some (.of_disjoint fun r hr => ?_)
      rw [Option.eq_none_iff_forall_ne_some]
      intro p hp
      obtain ⟨q, hq, how⟩ := mem_deleted.1 hr
      exact hij (h.one_view i j r p q ⟨iv, hiv, hp⟩ ((h.view_iff j r q).2 ⟨hq, (ho _).1 how⟩))

theorem reclaims_removeInstance (h : Agreed s) (ho : Enumerates order (s.instanceRequestIds i)) :
    Reclaims (.removeInstance i) s (s.removeInstance i order) := by
  rw [removeInstance_spec ho]
  refine reclaims_dropAll h i none ?_ (fun g hg => hg) (fun j => rfl) (fun j => ?_) ho
  · simp [owns]
  · rw [lookup_erase_ite]

theorem reclaims_addInstance (h : Agreed s) {inst : LLMInstance} (hdu : Failover.Due s (.addInstance inst))
    (ho : Enumerates order (s.instanceRequestIds inst.id)) :
    Reclaims (.addInstance inst) s (s.addInstance inst order) := by
  obtain ⟨old, hold, hn⟩ := hdu
  have hc : s.addInstance inst order = { order.foldl LocalRealtimeState.dropRequest s with
        instanceViews := (s.instanceViews.erase inst.id).insert inst.id (newInstanceView inst) } := by
    simp only [LocalRealtimeState.addInstance, hold, if_pos hn, removeInstance_spec ho]
  rw [hc]
  refine reclaims_dropAll h inst.id (some (newInstanceView inst)) ?_ (fun g hg => hg)
    (fun j => rfl) (fun j => ?_) ho
  · simp [owns]
  · rw [lookup_insert_ite, lookup_erase_ite]
    split <;> rfl

end

/-- **Failover reclaims exactly the load of the failed party**, keeps the indexes in agreement, and clamps no
total; for the loss of a gateway, if no request has a negative number of tokens. -/
theorem reclaims_of_failover {s t : LocalRealtimeState} {f : Failover} {order : List String}
    (h : Agreed s) (hcount : ∀ g, f = .removeGateway g → Countable s) (hdue : f.Due s)
    (hex : exec s (f.call order) = some t) :
    Reclaims f s t ∧ Agreed t ∧ ClampFree s order f := by
  have hk : Reclaims f s t ∧ ClampFree s order f := by
    cases f <;> obtain ⟨ho, ⟨⟩⟩ := Option.ite_none_right_eq_some.1 hex
    · exact reclaims_removeGateway h (hcount _ rfl) ho
    · exact ⟨reclaims_removeInstance h ho, trivial⟩
    · exact ⟨reclaims_addInstance h hdue ho, trivial⟩
  exact ⟨hk.1, hk.1.agreed h, hk.2⟩

/-! ### Two gateways on one instance -/

/-- Every total is exact, as a test over the known instances. -/
def totalsExact (s : LocalRealtimeState) : Bool :=
  decide (∀ i ∈ s.instanceViews.keys,
    (s.instanceViews.lookup i).all fun iv => iv.numTokens.toInt = tokenCount s.heap iv)

/-- No number of tokens is negative, as a test over the live requests. -/
def tokensCountable (s : LocalRealtimeState) : Bool :=
  decide (∀ r ∈ s.requestStates.keys,
    (s.requestStates.lookup r).all fun p => 0 ≤ (s.heap p).numTokens.toInt)

theorem agreed_of_reaches (h : Reaches exec CallOk newLocalRealtimeState s)
    (he : totalsExact s = true) : Agreed s := by
  have hl : Ledger s := h.invariant ledger_newLocalRealtimeState fun _ _ _ hok hex => exec_ledger hok hex
  refine ⟨hl.consistent, fun i iv hiv => ?_⟩
  have hi := of_decide_eq_true he i (Finmap.mem_keys.2 (Finmap.mem_iff.2 ⟨iv, hiv⟩))
  rw [hiv] at hi
  exact of_decide_eq_true hi

theorem countable_of_tokensCountable (h : tokensCountable s = true) : Countable s := by
  intro r p hp
  have hr := of_decide_eq_true h r (Finmap.mem_keys.2 (Finmap.mem_iff.2 ⟨p, hp⟩))
  rw [hp] at hr
  exact of_decide_eq_true hr

/-- Two gateways have a request each on the same instance. -/
def sharedInstance (a b : BitVec 64) : List Call :=
  [.addInstance ⟨1, "i", "", .neutral, ⟨"10.0.0.1", 8000⟩, "", 0, 0, 0⟩ [],
    .addGateway "g1",
    .addGateway "g2",
    .allocateRequestState (newRequestState "r1" a "i" "g1" 0),
    .allocateRequestState (newRequestState "r2" b "i" "g2" 0)]

/-- The first gateway fails: its five tokens are taken back, and the seven of the other stay. -/
theorem reclaims_sharedInstance : ∃ s t, Agreed s ∧ Countable s ∧
    exec s (.removeGateway "g1" ["r1"]) = some t ∧
    (t.instanceViews.lookup "i").map (·.numTokens) = some 7 ∧
    Reclaims (.removeGateway "g1") s t ∧ Agreed t ∧ ClampFree s ["r1"] (.removeGateway "g1") := by
  have hr : ∃ s ∈ runAll exec CallOk newLocalRealtimeState (sharedInstance 5 7),
      totalsExact s = true ∧ tokensCountable s = true ∧ ∃ t ∈ exec s (.removeGateway "g1" ["r1"]),
        (t.instanceViews.lookup "i").map (·.numTokens) = some 7 := by decide +kernel
  obtain ⟨s, hs, hex, hc, t, ht, hse⟩ := Reaches.of_exists hr
  have ha := agreed_of_reaches hs hex
  have hco := countable_of_tokensCountable hc
  exact ⟨s, t, ha, hco, ht, hse, reclaims_of_failover (f := .removeGateway "g1") ha (fun _ _ => hco) trivial ht⟩

/-- **A negative number of tokens makes the release of another request clamp**: with five and minus ten
tokens, the total of minus five is set to zero and not to minus ten. -/
theorem negative_tokens_clamp : ¬ ∀ (s t : LocalRealtimeState) (f : Failover) (order : List String),
    Agreed s → f.Due s → exec s (f.call order) = some t →
      Reclaims f s t ∧ Agreed t ∧ ClampFree s order f := by
  intro hal
  have hr : ∃ s ∈ runAll exec CallOk newLocalRealtimeState (sharedInstance 5 (-10)), totalsExact s = true ∧
      ∃ t ∈ exec s (.removeGateway "g1" ["r1"]), totalsExact t = false := by decide +kernel
  obtain ⟨s, hs, hex, t, ht, hi⟩ := Reaches.of_exists hr
  have ha := agreed_of_reaches hs hex
  obtain ⟨-, haf, -⟩ := hal s t (.removeGateway "g1") ["r1"] ha trivial ht
  have hy : totalsExact t = true := by
    refine decide_eq_true fun i _ => ?_
    cases hiv : t.instanceViews.lookup i with
    | none => rfl
    | some iv => exact decide_eq_true (haf.exact i iv hiv)
  cases hi.symm.trans hy

end Llumnix.Lrs
