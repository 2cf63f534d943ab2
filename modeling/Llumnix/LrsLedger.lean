/-
**The three indexes of the local realtime state describe the same requests.**

`Llumnix/LrsState.lean` keeps every live request in a global table, in the view of its instance and in the
request set of its gateway, and a running token total in every view, which the package comment calls
`sum(requestStates.numTokens)`.

* `exec_ledger` — **every guarded call preserves the agreement of the indexes**.
-/

import Llumnix.LrsState

namespace Llumnix.Lrs

open FiniteMap GuardedRun Function Option LocalRealtimeState List

variable {s t : LocalRealtimeState} {heap : Heap} {iv : InstanceView} {r i g : String} {p : Ref}
  {st : RequestState} {order : List String}

/-! ### The property -/

/-- The view of instance `i` holds request `r` at reference `p`. -/
def ViewHolds (s : LocalRealtimeState) (i r : String) (p : Ref) : Prop :=
  ∃ iv, s.instanceViews.lookup i = some iv ∧ iv.requestStates.lookup r = some p

/-- Request `r` is in the request set of gateway `g`. -/
def GatewayHolds (s : LocalRealtimeState) (g r : String) : Prop :=
  ∃ requestSet, s.gatewayRequestSet.lookup g = some requestSet ∧ r ∈ requestSet

/-- The sum of the token counts of the requests a view holds. -/
def tokenSum (heap : Heap) (iv : InstanceView) : BitVec 64 :=
  total (fun _ p => (heap p).numTokens) iv.requestStates

/-- **The indexes agree**: views and gateway sets hold exactly the live requests of their instance or gateway,
at the references of the global table; no request is in two views; every total is the sum over the view. -/
structure Consistent (s : LocalRealtimeState) : Prop where
  /-- The global table and the views hold the same requests at the same references. -/
  view_iff : ∀ i r p, ViewHolds s i r p ↔
    s.requestStates.lookup r = some p ∧ (s.heap p).instanceId = i
  /-- The global table and the gateway sets hold the same requests. -/
  gateway_iff : ∀ g r, GatewayHolds s g r ↔
    ∃ p, s.requestStates.lookup r = some p ∧ (s.heap p).gatewayId = g
  one_view : ∀ i j r p q, ViewHolds s i r p → ViewHolds s j r q → i = j
  total_eq : ∀ i iv, s.instanceViews.lookup i = some iv → iv.numTokens = tokenSum s.heap iv

/-! ### The guard -/

/-- Releasing reference `p` from a view does not take the branch that sets the total to zero. -/
def NoClamp (heap : Heap) (iv : InstanceView) (p : Ref) : Prop :=
  ¬ iv.numTokens.slt (heap p).numTokens

instance (heap : Heap) (iv : InstanceView) (p : Ref) : Decidable (NoClamp heap iv p) :=
  inferInstanceAs (Decidable (¬ _))

/-- The release of a live request by `reclaimRequest` takes no such branch. -/
def ReclaimOk (s : LocalRealtimeState) (r : String) : Prop :=
  ∀ p ∈ s.requestStates.lookup r, ∀ iv ∈ s.instanceViews.lookup (s.heap p).instanceId,
    NoClamp s.heap iv p

instance (s : LocalRealtimeState) (r : String) : Decidable (ReclaimOk s r) := by
  unfold ReclaimOk
  infer_instance

/-- None of the releases of the loop of `RemoveGateway` takes it. -/
def ReclaimAllOk : LocalRealtimeState → List String → Prop
  | _, [] => True
  | s, r :: rs => ReclaimOk s r ∧ ReclaimAllOk (s.reclaimRequest r) rs

instance decidableReclaimAllOk :
    (s : LocalRealtimeState) → (rs : List String) → Decidable (ReclaimAllOk s rs)
  | _, [] => inferInstanceAs (Decidable True)
  | s, r :: rs =>
    have := decidableReclaimAllOk (s.reclaimRequest r) rs
    inferInstanceAs (Decidable (ReclaimOk s r ∧ ReclaimAllOk (s.reclaimRequest r) rs))

/-- A release that is not rejected names the instance and the gateway that the request was allocated
with, and does not clamp. -/
def ReleaseOk (s : LocalRealtimeState) (st : RequestState) : Prop :=
  ∀ p ∈ s.requestStates.lookup st.reqId, ∀ iv ∈ s.instanceViews.lookup st.instanceId,
    s.gatewayExists st.gatewayId = true →
      (s.heap p).instanceId = st.instanceId ∧ (s.heap p).gatewayId = st.gatewayId ∧
        NoClamp s.heap iv p

instance (s : LocalRealtimeState) (st : RequestState) : Decidable (ReleaseOk s st) := by
  unfold ReleaseOk
  infer_instance

def CallOk (s : LocalRealtimeState) : Call → Prop
  | .releaseRequestState st => ReleaseOk s st
  | .removeGateway _ order => ReclaimAllOk s order
  | _ => True

instance (s : LocalRealtimeState) : (c : Call) → Decidable (CallOk s c) := by
  intro c
  unfold CallOk
  split <;> infer_instance

/-! ### What the calls leave behind -/

theorem lookup_releaseRequestState (heap : Heap) (iv : InstanceView) (r j : String) :
    (iv.releaseRequestState heap r).requestStates.lookup j =
      if j = r then none else iv.requestStates.lookup j := by
  unfold InstanceView.releaseRequestState
  cases hp : iv.requestStates.lookup r with
  | none =>
    by_cases hj : j = r
    · subst hj; simp [hp]
    · simp [hj]
  | some => exact lookup_erase_ite _ _ _

theorem viewHolds_release {s' : LocalRealtimeState} (hiv : s.instanceViews.lookup i = some iv)
    (hv : s'.instanceViews = s.instanceViews.insert i (iv.releaseRequestState s.heap r))
    (j q : String) (p : Ref) : ViewHolds s' j q p ↔ ViewHolds s j q p ∧ ¬ (j = i ∧ q = r) := by
  unfold ViewHolds
  rw [hv, lookup_insert_ite]
  by_cases hj : j = i
  · subst hj
    simp only [hiv, if_true, some.injEq, exists_eq_left', lookup_releaseRequestState, true_and]
    by_cases hq : q = r <;> simp [hq]
  · simp [hj]

theorem releaseRequestState_spec (s : LocalRealtimeState) (st : RequestState) :
    s.releaseRequestState st = s ∨
      ∃ iv requestSet, s.requestExists st.reqId = true ∧ s.gatewayExists st.gatewayId = true ∧
        s.instanceViews.lookup st.instanceId = some iv ∧
        s.gatewayRequestSet.lookup st.gatewayId = some requestSet ∧ s.releaseRequestState st = { s with
          instanceViews := s.instanceViews.insert st.instanceId (iv.releaseRequestState s.heap st.reqId)
          requestStates := s.requestStates.erase st.reqId
          gatewayRequestSet := s.gatewayRequestSet.insert st.gatewayId (requestSet.erase st.reqId) } := by
  unfold releaseRequestState
  split
  · exact .inl rfl
  rename_i hr
  split
  · exact .inl rfl
  · exact .inl rfl
  · next iv requestSet hiv hs =>
    refine .inr ⟨iv, requestSet, by simpa using hr, ?_, hiv, hs, rfl⟩
    rw [gatewayExists, hs]
    rfl

/-- A loop that takes requests out of the global table and leaves a part of the state alone. -/
theorem foldl_spec {β : Type} (f : LocalRealtimeState → String → LocalRealtimeState)
    (part : LocalRealtimeState → β) (hp : ∀ s r, part (f s r) = part s) (hf : ∀ s r q,
      (f s r).requestStates.lookup q = if q = r then none else s.requestStates.lookup q)
    (order : List String) (s : LocalRealtimeState) : part (order.foldl f s) = part s ∧
      ∀ q, (order.foldl f s).requestStates.lookup q =
        if q ∈ order then none else s.requestStates.lookup q := by
  induction order generalizing s with
  | nil => simp
  | cons r order ih =>
    obtain ⟨h, hl⟩ := ih (f s r)
    refine ⟨h.trans (hp s r), fun q => ?_⟩
    rw [foldl_cons, hl, hf]
    by_cases hq : q ∈ order <;> by_cases hr : q = r <;> simp [hq, hr]

theorem lookup_reclaimRequest (s : LocalRealtimeState) (r q : String) :
    (s.reclaimRequest r).requestStates.lookup q = if q = r then none else s.requestStates.lookup q := by
  unfold LocalRealtimeState.reclaimRequest
  cases hp : s.requestStates.lookup r with
  | none =>
    by_cases hq : q = r
    · subst hq; simp [hp]
    · simp [hq]
  | some => exact lookup_erase_ite _ _ _

theorem mem_gatewayRequestIds (ho : Enumerates order (s.gatewayRequestIds g)) :
    r ∈ order ↔ GatewayHolds s g r := by
  rw [ho.2, gatewayRequestIds, GatewayHolds]
  cases s.gatewayRequestSet.lookup g <;> simp

/-- What `RemoveGateway` leaves behind.  A gateway that is not known has no requests. -/
theorem removeGateway_spec (ho : Enumerates order (s.gatewayRequestIds g)) :
    s.removeGateway g order = { order.foldl LocalRealtimeState.reclaimRequest s with
        gatewayRequestSet :=
          (order.foldl LocalRealtimeState.reclaimRequest s).gatewayRequestSet.erase g } := by
  unfold removeGateway
  cases hs : s.gatewayRequestSet.lookup g with
  | some => rfl
  | none =>
  have ho : order = [] := by
    rw [eq_nil_iff_forall_not_mem]
    intro r hr
    obtain ⟨requestSet, hs', -⟩ := (mem_gatewayRequestIds ho).1 hr
    cases hs.symm.trans hs'
  subst ho
  rw [foldl_nil, erase_of_none hs]

theorem lookup_gateway_dropAll (g : String) : ∀ (order : List String) (s : LocalRealtimeState),
    (order.foldl dropRequest s).gatewayRequestSet.lookup g =
      (s.gatewayRequestSet.lookup g).map (· \ order.toFinset) := by
  intro order
  induction order with
  | nil =>
    intro s
    rw [foldl_nil]
    cases s.gatewayRequestSet.lookup g <;> simp
  | cons r order ih =>
  intro s
  rw [foldl_cons, ih, dropRequest, lookup_mapValues, Option.map_map]
  congr 1
  funext requestSet
  ext q
  simp only [Function.comp_apply, toFinset_cons, Finset.mem_sdiff, Finset.mem_erase, Finset.mem_insert]
  tauto

theorem dropAll_spec (order : List String) (s : LocalRealtimeState) :
    (order.foldl dropRequest s).heap = s.heap ∧
    (order.foldl dropRequest s).nextRef = s.nextRef ∧
    (order.foldl dropRequest s).instanceViews = s.instanceViews ∧
    (∀ q, (order.foldl dropRequest s).requestStates.lookup q =
      if q ∈ order then none else s.requestStates.lookup q) ∧
    ∀ g q, GatewayHolds (order.foldl dropRequest s) g q ↔ GatewayHolds s g q ∧ q ∉ order := by
  obtain ⟨h, hl⟩ := foldl_spec dropRequest (fun s => (s.heap, s.nextRef, s.instanceViews)) (fun _ _ => rfl)
    (fun _ _ _ => lookup_erase_ite _ _ _) order s
  simp only [Prod.mk.injEq] at h
  refine ⟨h.1, h.2.1, h.2.2, hl, fun g q => ?_⟩
  cases hs : s.gatewayRequestSet.lookup g <;> simp [GatewayHolds, lookup_gateway_dropAll, hs]

theorem mem_instanceRequestIds (ho : Enumerates order (s.instanceRequestIds i)) :
    r ∈ order ↔ ∃ p, ViewHolds s i r p := by
  rw [ho.2, instanceRequestIds]
  cases hiv : s.instanceViews.lookup i <;> simp [ViewHolds, hiv, Finmap.mem_keys, Finmap.mem_iff]

/-- What `removeInstance` leaves behind.  An instance that is not known has no requests. -/
theorem removeInstance_spec (ho : Enumerates order (s.instanceRequestIds i)) :
    s.removeInstance i order = { order.foldl dropRequest s with
        instanceViews := s.instanceViews.erase i } := by
  unfold removeInstance
  cases hiv : s.instanceViews.lookup i with
  | some =>
    dsimp only
    rw [(dropAll_spec order s).2.2.1]
  | none =>
  have ho : order = [] := by
    rw [eq_nil_iff_forall_not_mem]
    intro r hr
    rw [ho.2, instanceRequestIds, hiv] at hr
    exact Finset.notMem_empty r hr
  subst ho
  rw [foldl_nil, erase_of_none hiv]

theorem lookup_removeInstance_self (hiv : s.instanceViews.lookup i = some iv) (order : List String) :
    (s.removeInstance i order).instanceViews.lookup i = none := by
  simp [removeInstance, hiv]

/-- An allocation that goes through: the request is new, its instance and its gateway are known. -/
theorem allocateRequestState_eq_ok (hex : s.allocateRequestState st = .ok t) :
    ∃ iv requestSet, s.requestStates.lookup st.reqId = none ∧
      s.instanceViews.lookup st.instanceId = some iv ∧
      s.gatewayRequestSet.lookup st.gatewayId = some requestSet ∧ t = s.storeRequest st iv requestSet := by
  unfold allocateRequestState at hex
  by_cases hr : s.requestExists st.reqId
  · simp [hr] at hex
  by_cases hc : s.instanceViews.keys.card = 0
  · simp [hr, hc] at hex
  simp only [hr, hc, Bool.false_eq_true, if_false] at hex
  cases hiv : s.instanceViews.lookup st.instanceId with
  | none => simp [hiv] at hex
  | some iv =>
    cases hs : s.gatewayRequestSet.lookup st.gatewayId with
    | none => simp [hiv, hs] at hex
    | some requestSet =>
      simp only [hiv, hs, Except.ok.injEq] at hex
      exact ⟨iv, requestSet, by simpa [requestExists] using hr, rfl, rfl, hex.symm⟩

section

variable {requestSet : Finset String}

theorem storeRequest_heap_of_lt (hp : p < s.nextRef) :
    (s.storeRequest st iv requestSet).heap p = s.heap p :=
  update_of_ne hp.ne _ _

theorem storeRequest_heap_self : (s.storeRequest st iv requestSet).heap s.nextRef = st := update_self _ _ _

theorem lookup_storeRequest (r : String) : (s.storeRequest st iv requestSet).requestStates.lookup r =
      if r = st.reqId then some s.nextRef else s.requestStates.lookup r :=
  lookup_insert_ite _ _ _ _

theorem viewHolds_storeRequest (hiv : s.instanceViews.lookup st.instanceId = some iv)
    (i r : String) (p : Ref) : ViewHolds (s.storeRequest st iv requestSet) i r p ↔
      if i = st.instanceId ∧ r = st.reqId then p = s.nextRef else ViewHolds s i r p := by
  simp only [ViewHolds, storeRequest, lookup_insert_ite]
  by_cases hi : i = st.instanceId
  · subst hi
    simp only [if_true, some.injEq, exists_eq_left', InstanceView.allocateRequestState,
      update_self, lookup_insert_ite, hiv, true_and]
    by_cases hr : r = st.reqId <;> simp [hr, eq_comm]
  · simp [hi]

theorem gatewayHolds_storeRequest
    (hs : s.gatewayRequestSet.lookup st.gatewayId = some requestSet) (g r : String) :
    GatewayHolds (s.storeRequest st iv requestSet) g r ↔
      (g = st.gatewayId ∧ r = st.reqId) ∨ GatewayHolds s g r := by
  simp only [GatewayHolds, storeRequest, lookup_insert_ite]
  by_cases hg : g = st.gatewayId
  · subst hg
    simp [hs]
  · simp [hg]

end

/-- The fields that tell who an object belongs to. -/
def SameOwner (st st' : RequestState) : Prop :=
  st.reqId = st'.reqId ∧ st.instanceId = st'.instanceId ∧ st.gatewayId = st'.gatewayId

theorem markPrefillComplete_eq_ok (hex : s.markPrefillComplete st = .ok t) :
    ∃ iv, s.instanceViews.lookup st.instanceId = some iv ∧
      t = { s with heap := iv.markPrefillComplete s.heap st } ∧
      ∀ p, SameOwner (t.heap p) (s.heap p) ∧ (t.heap p).numTokens = (s.heap p).numTokens := by
  unfold markPrefillComplete at hex
  split at hex <;> try cases hex
  split at hex <;> try cases hex
  rename_i iv hiv
  split at hex <;> cases hex
  refine ⟨iv, hiv, rfl, fun p => ?_⟩
  cases hq : iv.requestStates.lookup st.reqId with
  | none => simp [InstanceView.markPrefillComplete, hq, SameOwner]
  | some q =>
    by_cases hpq : p = q <;> simp [InstanceView.markPrefillComplete, hq, hpq, SameOwner]

/-- An update that goes through.  A smaller count is dropped: the view is written back unchanged. -/
theorem updateRequestState_eq_ok (hex : s.updateRequestState st = .ok t) :
    ∃ iv p, s.instanceViews.lookup st.instanceId = some iv ∧ iv.requestStates.lookup st.reqId = some p ∧
      (t = s ∨ t = { s with
        heap := update s.heap p { s.heap p with numTokens := st.numTokens, updateTime := st.updateTime }
        instanceViews := s.instanceViews.insert st.instanceId
          { iv with numTokens := iv.numTokens + (st.numTokens - (s.heap p).numTokens) } }) ∧
      ∀ q, SameOwner (t.heap q) (s.heap q) := by
  unfold updateRequestState InstanceView.updateRequestState at hex
  split at hex
  · cases hex
  split at hex
  · cases hex
  rename_i iv hiv
  cases hp : iv.requestStates.lookup st.reqId with
  | none =>
    rw [hp] at hex
    split at hex <;> cases hex
  | some p =>
  refine ⟨iv, p, hiv, hp, ?_⟩
  have hsa : s.instanceViews.insert st.instanceId iv = s.instanceViews := by
    rw [← insert_erase, insert_erase_self hiv]
  by_cases hgw : st.gatewayId = (s.heap p).gatewayId
  · by_cases hn : (st.numTokens - (s.heap p).numTokens).slt 0
    · simp only [hp, hgw, ne_eq, not_true_eq_false, if_false, hn, if_true, hsa] at hex
      split at hex <;> cases hex
      exact ⟨.inl rfl, fun q => ⟨rfl, rfl, rfl⟩⟩
    · simp only [hp, hgw, ne_eq, not_true_eq_false, if_false, hn, Bool.false_eq_true] at hex
      split at hex <;> cases hex
      refine ⟨.inr rfl, fun q => ?_⟩
      by_cases hq : q = p <;> simp [hq, SameOwner]
  · simp only [hp, ne_eq, hgw, not_false_eq_true, if_true] at hex
    split at hex <;> cases hex

/-! ### The sets of the gateways -/

/-- The set of a gateway holds its live requests. -/
structure Listed (s : LocalRealtimeState) : Prop where
  gateway_iff : ∀ g r, GatewayHolds s g r ↔
    ∃ p, s.requestStates.lookup r = some p ∧ (s.heap p).gatewayId = g
  ref_lt : ∀ r p, s.requestStates.lookup r = some p → p < s.nextRef

theorem Listed.drop {D : String → Prop} (h : Listed s) (hh : t.heap = s.heap) (hn : t.nextRef = s.nextRef)
    (hl : ∀ r p, t.requestStates.lookup r = some p ↔ s.requestStates.lookup r = some p ∧ ¬ D r)
    (hg : ∀ g r, GatewayHolds t g r ↔ GatewayHolds s g r ∧ ¬ D r) : Listed t where
  gateway_iff g r := by
    simp only [hg, h.gateway_iff, hl, hh]
    constructor
    · rintro ⟨⟨p, hp, hpg⟩, hr⟩
      exact ⟨p, ⟨hp, hr⟩, hpg⟩
    · rintro ⟨p, ⟨hp, hr⟩, hpg⟩
      exact ⟨⟨p, hp, hpg⟩, hr⟩
  ref_lt r p hp := by
    rw [hn]
    exact h.ref_lt r p ((hl r p).1 hp).1

/-- Objects are changed, but not their owners. -/
theorem Listed.inPlace (h : Listed s) (hk : ∀ p, SameOwner (t.heap p) (s.heap p))
    (hn : t.nextRef = s.nextRef) (hr : t.requestStates = s.requestStates)
    (hg : t.gatewayRequestSet = s.gatewayRequestSet) : Listed t where
  gateway_iff g r := by
    simp only [GatewayHolds, hg, hr, (hk _).2.2]
    exact h.gateway_iff g r
  ref_lt r p hp := by
    rw [hn]
    exact h.ref_lt r p (hr ▸ hp)

/-- The sets are in order, and the gateways are the same. -/
def Keeps (s t : LocalRealtimeState) : Prop := Listed t ∧ ∀ g, t.gatewayExists g = s.gatewayExists g

theorem keeps_removeInstance (h : Listed s) {i : String} {order : List String}
    (ho : Enumerates order (s.instanceRequestIds i)) : Keeps s (s.removeInstance i order) := by
  obtain ⟨hh, hn, -, hl, hg⟩ := dropAll_spec order s
  rw [removeInstance_spec ho]
  refine ⟨h.drop (D := (· ∈ order)) hh hn (fun r p => ?_) hg, fun g => ?_⟩
  · simp [hl, and_comm]
  · simp [gatewayExists, lookup_gateway_dropAll]

theorem keeps_storeRequest (h : Listed s) {st : RequestState} {iv : InstanceView}
    {requestSet : Finset String} (hr : s.requestStates.lookup st.reqId = none)
    (hs : s.gatewayRequestSet.lookup st.gatewayId = some requestSet) :
    Keeps s (s.storeRequest st iv requestSet) := by
  refine ⟨⟨fun g r => ?_, fun r p hp => ?_⟩, fun g => ?_⟩
  · rw [gatewayHolds_storeRequest hs, h.gateway_iff, lookup_storeRequest]
    by_cases hre : r = st.reqId
    · subst hre
      simp [hr, storeRequest_heap_self, eq_comm]
    · simp only [hre, and_false, false_or, if_false]
      exact exists_congr fun p => and_congr_right fun hp => by rw [storeRequest_heap_of_lt (h.ref_lt r p hp)]
  · rw [lookup_storeRequest] at hp
    split at hp
    · cases hp
      exact Nat.lt_succ_self _
    · exact Nat.lt_succ_of_lt (h.ref_lt r p hp)
  · simp only [gatewayExists, storeRequest, lookup_insert_ite]
    split
    · next hg => rw [hg, hs]; rfl
    · rfl

theorem keeps_releaseRequestState (h : Listed s) {st : RequestState}
    (hok : ∀ p ∈ s.requestStates.lookup st.reqId, ∀ iv ∈ s.instanceViews.lookup st.instanceId,
      s.gatewayExists st.gatewayId = true → (s.heap p).gatewayId = st.gatewayId) :
    Keeps s (s.releaseRequestState st) := by
  rcases releaseRequestState_spec s st with he | ⟨iv, requestSet, -, hge, hiv, hs, he⟩
  · rw [he]
    exact ⟨h, fun _ => rfl⟩
  rw [he]
  refine ⟨h.drop (D := (· = st.reqId)) rfl rfl (fun r p => ?_) fun g r => ?_, fun g => ?_⟩
  · simp [lookup_erase_ite, and_comm]
  · -- the request is in no other set than that of its gateway
    by_cases hg : g = st.gatewayId
    · subst hg
      simp [GatewayHolds, hs, and_comm]
    · have hne : GatewayHolds s g r → r ≠ st.reqId := by
        rintro hgr rfl
        obtain ⟨p, hp, rfl⟩ := (h.gateway_iff g _).1 hgr
        exact hg (hok p hp iv hiv hge)
      simp only [GatewayHolds, lookup_insert_ite, if_neg hg] at hne ⊢
      exact ⟨fun hgr => ⟨hgr, hne hgr⟩, And.left⟩
  · simp only [gatewayExists, lookup_insert_ite]
    split
    · next hg => rw [hg, hs]; rfl
    · rfl

theorem listed_addGateway (h : Listed s) (g : String) : Listed (s.addGateway g) ∧
    ∀ g', (s.addGateway g).gatewayExists g' = true ↔ g' = g ∨ s.gatewayExists g' = true := by
  unfold addGateway
  split
  · next hn =>
    refine ⟨⟨fun g' r => ?_, h.ref_lt⟩, fun g' => ?_⟩
    · rw [← h.gateway_iff, GatewayHolds, GatewayHolds, lookup_insert_ite]
      by_cases hg : g' = g
      · subst hg
        simp [hn]
      · simp [hg]
    · rw [gatewayExists, gatewayExists, lookup_insert_ite]
      by_cases hg : g' = g <;> simp [hg]
  · next hs =>
    refine ⟨h, fun g' => ⟨.inr, ?_⟩⟩
    rintro (rfl | hg)
    · rw [gatewayExists, hs]
      rfl
    · exact hg

/-- **`RemoveGateway`** forgets the gateway and its requests, and leaves the others alone. -/
theorem listed_removeGateway (h : Listed s) {order : List String}
    (ho : Enumerates order (s.gatewayRequestIds g)) : Listed (s.removeGateway g order) ∧
      (∀ g', (s.removeGateway g order).gatewayExists g' = true ↔ g' ≠ g ∧ s.gatewayExists g' = true) ∧
      ∀ r p, s.requestStates.lookup r = some p → (s.heap p).gatewayId ≠ g →
        (s.removeGateway g order).requestStates.lookup r = some p := by
  have hm := fun r => mem_gatewayRequestIds (r := r) ho
  obtain ⟨hk, hl⟩ := foldl_spec _ (fun s => (s.heap, s.nextRef, s.gatewayRequestSet))
    (fun s r => by unfold LocalRealtimeState.reclaimRequest; split <;> rfl) lookup_reclaimRequest order s
  obtain ⟨hh, hn, hg⟩ : _ ∧ _ ∧ _ := by simpa only [Prod.mk.injEq] using hk
  rw [removeGateway_spec ho]
  refine ⟨h.drop (D := (· ∈ order)) hh hn (fun r p => ?_) fun g' r => ?_, fun g' => ?_, fun r p hp hne => ?_⟩
  · simp [hl, and_comm]
  · rw [GatewayHolds, hg, lookup_erase_ite, hm]
    by_cases hgg : g' = g
    · simp [hgg]
    · simp only [if_neg hgg]
      refine ⟨fun hr => ⟨hr, fun hr' => hgg ?_⟩, And.left⟩
      obtain ⟨p, hp, rfl⟩ := (h.gateway_iff g' r).1 hr
      obtain ⟨q, hq, rfl⟩ := (h.gateway_iff g r).1 hr'
      rw [Option.some.inj (hp.symm.trans hq)]
  · rw [gatewayExists, hg, lookup_erase_ite]
    by_cases hgg : g' = g <;> simp [hgg, gatewayExists]
  · rw [hl, if_neg, hp]
    rw [hm, h.gateway_iff]
    rintro ⟨q, hq, hqg⟩
    exact hne (Option.some.inj (hp.symm.trans hq) ▸ hqg)

/-! ### The invariant -/

/-- **The ledger.**  `exempt` are gateways whose set may still list requests that are no longer live;
it is empty between calls. -/
structure LedgerBut (exempt : String → Prop) (s : LocalRealtimeState) : Prop where
  view_iff : ∀ i r p, ViewHolds s i r p ↔
    s.requestStates.lookup r = some p ∧ (s.heap p).instanceId = i
  gateway_of_live : ∀ r p, s.requestStates.lookup r = some p →
    GatewayHolds s (s.heap p).gatewayId r
  live_of_gateway : ∀ g r, ¬ exempt g → GatewayHolds s g r →
    ∃ p, s.requestStates.lookup r = some p ∧ (s.heap p).gatewayId = g
  total_eq : ∀ i iv, s.instanceViews.lookup i = some iv → iv.numTokens = tokenSum s.heap iv
  /-- The global table is keyed by the request ids. -/
  reqId_eq : ∀ r p, s.requestStates.lookup r = some p → (s.heap p).reqId = r
  /-- Live references have been allocated. -/
  ref_lt : ∀ r p, s.requestStates.lookup r = some p → p < s.nextRef

def Ledger : LocalRealtimeState → Prop := LedgerBut fun _ => False

theorem Ledger.listed (h : Ledger s) : Listed s where
  gateway_iff := by
    intro g r
    constructor
    · exact h.live_of_gateway g r id
    · rintro ⟨p, hp, rfl⟩
      exact h.gateway_of_live r p hp
  ref_lt := h.ref_lt

/-- The rest of the ledger is about the views. -/
theorem Listed.ledger (h : Listed s) (hv : ∀ i r p, ViewHolds s i r p ↔
      s.requestStates.lookup r = some p ∧ (s.heap p).instanceId = i)
    (ht : ∀ i iv, s.instanceViews.lookup i = some iv → iv.numTokens = tokenSum s.heap iv)
    (hr : ∀ r p, s.requestStates.lookup r = some p → (s.heap p).reqId = r) : Ledger s :=
  ⟨hv, fun r p hp => (h.gateway_iff _ r).2 ⟨p, hp, rfl⟩, fun g r _ => (h.gateway_iff g r).1, ht, hr, h.ref_lt⟩

theorem LedgerBut.ledger (h : LedgerBut (fun _ => True) s) (hl : Listed s) : Ledger s :=
  hl.ledger h.view_iff h.total_eq h.reqId_eq

theorem Ledger.but (h : Ledger s) : LedgerBut (fun _ => True) s :=
  { h with live_of_gateway := fun _ _ hn => absurd trivial hn }

theorem Ledger.consistent (h : Ledger s) : Consistent s where
  view_iff := h.view_iff
  gateway_iff := h.listed.gateway_iff
  one_view := by
    intro i j r p q hi hj
    obtain ⟨hp, rfl⟩ := (h.view_iff i r p).1 hi
    obtain ⟨hq, rfl⟩ := (h.view_iff j r q).1 hj
    rw [some.inj (hp.symm.trans hq)]
  total_eq := h.total_eq

theorem ledger_newLocalRealtimeState : Ledger newLocalRealtimeState := by
  constructor <;> simp [ViewHolds, GatewayHolds, newLocalRealtimeState]

/-! ### Releasing one request -/

/-- **Releasing a live request from its own view and from the global table** keeps the ledger, up to
the set of its gateway, which still lists the request. -/
theorem LedgerBut.release {s' : LocalRealtimeState} (h : LedgerBut (fun _ => True) s)
    (hp : s.requestStates.lookup r = some p)
    (hiv : s.instanceViews.lookup (s.heap p).instanceId = some iv) (hok : NoClamp s.heap iv p)
    (hh : s'.heap = s.heap) (hn : s'.nextRef = s.nextRef)
    (hgl : s'.requestStates = s.requestStates.erase r) (hv : s'.instanceViews =
      s.instanceViews.insert (s.heap p).instanceId (iv.releaseRequestState s.heap r))
    (hk : ∀ g q, q ≠ r → GatewayHolds s g q → GatewayHolds s' g q) : LedgerBut (fun _ => True) s' := by
  have hl : ∀ q, s'.requestStates.lookup q = if q = r then none else s.requestStates.lookup q := by
    intro q
    rw [hgl]
    exact lookup_erase_ite _ _ _
  have hlive : ∀ q x, s'.requestStates.lookup q = some x → q ≠ r ∧ s.requestStates.lookup q = some x := by
    intro q x hx
    simpa [hl] using hx
  have hm : iv.requestStates.lookup r = some p := by
    obtain ⟨iv', hiv', hr⟩ := (h.view_iff _ r p).2 ⟨hp, rfl⟩
    cases hiv.symm.trans hiv'
    exact hr
  refine ⟨?_, ?_, fun _ _ hn => absurd trivial hn, ?_, ?_, ?_⟩
  · intro i q x
    rw [viewHolds_release hiv hv, h.view_iff, hl, hh]
    by_cases hq : q = r
    · subst hq
      simp only [if_true, reduceCtorEq, false_and, iff_false, and_true, not_and, not_not]
      rintro ⟨hx, rfl⟩
      cases hp.symm.trans hx
      rfl
    · simp [hq]
  · intro q x hx
    obtain ⟨hq, hx⟩ := hlive q x hx
    rw [hh]
    exact hk _ _ hq (h.gateway_of_live q x hx)
  · intro i iv' hiv'
    rw [hv, lookup_insert_ite] at hiv'
    rw [hh]
    split at hiv'
    · cases hiv'
      have hs := total_eq_add_erase (fun _ p => (s.heap p).numTokens) hm
      simp only [InstanceView.releaseRequestState, hm, tokenSum]
      rw [if_neg hok, h.total_eq _ _ hiv, tokenSum, hs]
      abel
    · exact h.total_eq i iv' hiv'
  · intro q x hx
    rw [hh]
    exact h.reqId_eq q x (hlive q x hx).2
  · intro q x hx
    rw [hn]
    exact h.ref_lt q x (hlive q x hx).2

/-! ### The calls that remove requests -/

theorem ledger_releaseRequestState (h : Ledger s) (hok : ReleaseOk s st) :
    Ledger (s.releaseRequestState st) := by
  rcases releaseRequestState_spec s st with he | ⟨iv, requestSet, hr, hge, hiv, hs, he⟩
  · rwa [he]
  obtain ⟨p, hp⟩ := isSome_iff_exists.1 hr
  obtain ⟨hi, hgw, hc⟩ := hok p hp iv hiv hge
  have hl := (keeps_releaseRequestState h.listed fun p hp iv hiv hge => (hok p hp iv hiv hge).2.1).1
  rw [he] at hl ⊢
  refine LedgerBut.ledger (h.but.release hp (by rw [hi]; exact hiv) hc rfl rfl rfl (by rw [hi])
    fun g q hq hg => ?_) hl
  obtain ⟨x, hx, hxg⟩ := h.live_of_gateway g q id hg
  exact (hl.gateway_iff g q).2 ⟨x, (Finmap.lookup_erase_ne hq).trans hx, hxg⟩

/-- One iteration of the loop of `RemoveGateway`. -/
theorem LedgerBut.reclaimRequest (h : LedgerBut (fun _ => True) s) (hok : ReclaimOk s r) :
    LedgerBut (fun _ => True) (s.reclaimRequest r) := by
  unfold LocalRealtimeState.reclaimRequest
  cases hp : s.requestStates.lookup r with
  | none => simpa using h
  | some p =>
    obtain ⟨iv, hiv, -⟩ := (h.view_iff _ r p).2 ⟨hp, rfl⟩
    simp only [hiv]
    exact h.release hp hiv (hok p hp iv hiv) rfl rfl rfl rfl fun _ _ _ => id

theorem LedgerBut.reclaimAll : ∀ (order : List String) {s : LocalRealtimeState},
    LedgerBut (fun _ => True) s → ReclaimAllOk s order →
      LedgerBut (fun _ => True) (order.foldl LocalRealtimeState.reclaimRequest s)
  | [], _, h, _ => h
  | _ :: rs, _, h, hok => LedgerBut.reclaimAll rs (h.reclaimRequest hok.1) hok.2

theorem ledger_removeGateway (h : Ledger s) (ho : Enumerates order (s.gatewayRequestIds g))
    (hok : ReclaimAllOk s order) : Ledger (s.removeGateway g order) := by
  have hb := LedgerBut.reclaimAll order h.but hok
  obtain ⟨hl, -, -⟩ := listed_removeGateway h.listed ho
  rw [removeGateway_spec ho] at hl ⊢
  exact hl.ledger hb.view_iff hb.total_eq hb.reqId_eq

theorem ledger_removeInstance (h : Ledger s) (ho : Enumerates order (s.instanceRequestIds i)) :
    Ledger (s.removeInstance i order) := by
  have hl := (keeps_removeInstance h.listed ho).1
  have hm : ∀ r p, s.requestStates.lookup r = some p → (r ∈ order ↔ (s.heap p).instanceId = i) := by
    intro r p hp
    rw [mem_instanceRequestIds ho]
    constructor
    · rintro ⟨x, hx⟩
      obtain ⟨hx, hi⟩ := (h.view_iff i r x).1 hx
      rw [some.inj (hp.symm.trans hx), hi]
    · exact fun hi => ⟨p, (h.view_iff i r p).2 ⟨hp, hi⟩⟩
  obtain ⟨hh, -, -, hlo, -⟩ := dropAll_spec order s
  rw [removeInstance_spec ho] at hl ⊢
  refine hl.ledger (fun j r p => ?_) (fun j jv hjv => ?_) fun r p hr => ?_
  · simp only [ViewHolds, hh, hlo, lookup_erase_ite]
    constructor
    · rintro ⟨jv, hjv, hp⟩
      split at hjv
      · cases hjv
      · next hj =>
        obtain ⟨hr, rfl⟩ := (h.view_iff j r p).1 ⟨jv, hjv, hp⟩
        exact ⟨by rwa [if_neg fun hin => hj ((hm r p hr).1 hin)], rfl⟩
    · rintro ⟨hr, rfl⟩
      split at hr
      · cases hr
      · next hno =>
        rw [if_neg fun hi => hno ((hm r p hr).2 hi)]
        exact (h.view_iff _ r p).2 ⟨hr, rfl⟩
  · simp only [lookup_erase_ite] at hjv
    simp only [hh]
    split at hjv
    · cases hjv
    · exact h.total_eq j jv hjv
  · simp only [hh, hlo] at hr ⊢
    split at hr
    · cases hr
    · exact h.reqId_eq r p hr

/-! ### The calls that add instances, gateways and requests -/

theorem ledger_insertView (h : Ledger s) (inst : LLMInstance) (hn : s.instanceViews.lookup i = none) :
    Ledger { s with instanceViews := s.instanceViews.insert i (newInstanceView inst) } := by
  refine { h with view_iff := fun j r p => ?_, total_eq := fun j iv hiv => ?_ }
  · have hv := h.view_iff j r p
    unfold ViewHolds at hv ⊢
    by_cases hj : j = i
    · subst hj
      simpa [hn, newInstanceView] using hv
    · simpa [hj] using hv
  · simp only [lookup_insert_ite] at hiv
    split at hiv
    · cases hiv
      rfl
    · exact h.total_eq j iv hiv

theorem ledger_addInstance {inst : LLMInstance} (h : Ledger s)
    (ho : Enumerates order (s.instanceRequestIds inst.id)) : Ledger (s.addInstance inst order) := by
  unfold addInstance
  cases hiv : s.instanceViews.lookup inst.id with
  | none => exact ledger_insertView h inst hiv
  | some old =>
    by_cases hv : old.version < inst.version
    · simp only [hv, if_true]
      exact ledger_insertView (ledger_removeInstance h ho) inst (lookup_removeInstance_self hiv order)
    · simpa [hv] using h

theorem ledger_addGateway (h : Ledger s) (g : String) : Ledger (s.addGateway g) := by
  have hl := (listed_addGateway h.listed g).1
  unfold addGateway at hl ⊢
  cases hs : s.gatewayRequestSet.lookup g with
  | some => simpa using h
  | none =>
    simp only [hs] at hl
    exact hl.ledger h.view_iff h.total_eq h.reqId_eq

theorem tokenSum_update (hno : ∀ r, iv.requestStates.lookup r ≠ some p) :
    tokenSum (update heap p st) iv = tokenSum heap iv := by
  refine total_congr fun r q hq => ?_
  have hqp : q ≠ p := by
    rintro rfl
    exact hno r hq
  rw [update_of_ne hqp]

section

variable {s : LocalRealtimeState} {st : RequestState} {iv : InstanceView}
  {requestSet : Finset String}

section

variable (h : Ledger s) (hn : s.requestStates.lookup st.reqId = none)
  (hiv : s.instanceViews.lookup st.instanceId = some iv)
include h hn hiv

theorem total_storeRequest (i : String) (jv : InstanceView)
    (hjv : (s.storeRequest st iv requestSet).instanceViews.lookup i = some jv) :
    jv.numTokens = tokenSum (s.storeRequest st iv requestSet).heap jv := by
  -- no reference of an old view is the new one, so old totals are unchanged
  have hs : ∀ j kv, s.instanceViews.lookup j = some kv →
      tokenSum (update s.heap s.nextRef st) kv = tokenSum s.heap kv := by
    intro j kv hkv
    refine tokenSum_update fun r hp => ?_
    exact (h.ref_lt r _ ((h.view_iff j r _).1 ⟨kv, hkv, hp⟩).1).ne rfl
  have hi : iv.requestStates.lookup st.reqId = none := by
    refine eq_none_iff_forall_not_mem.2 fun p hp => ?_
    cases hn.symm.trans ((h.view_iff _ _ p).1 ⟨iv, hiv, hp⟩).1
  simp only [storeRequest, lookup_insert_ite] at hjv ⊢
  split at hjv
  · cases hjv
    simp only [tokenSum, InstanceView.allocateRequestState, update_self, total_insert_of_none _ _ hi]
    rw [h.total_eq _ _ hiv, ← hs _ _ hiv]
    exact add_comm _ _
  · rw [h.total_eq i jv hjv, hs i jv hjv]

/-- **Allocating a new request on a known instance for a known gateway keeps the ledger.** -/
theorem ledger_storeRequest (hs : s.gatewayRequestSet.lookup st.gatewayId = some requestSet) :
    Ledger (s.storeRequest st iv requestSet) := by
  have hold : ∀ r p, s.requestStates.lookup r = some p →
      (s.storeRequest st iv requestSet).heap p = s.heap p :=
    fun r p hp => storeRequest_heap_of_lt (h.ref_lt r p hp)
  refine (keeps_storeRequest h.listed hn hs).1.ledger ?_ (total_storeRequest h hn hiv) ?_
  · intro i r p
    rw [viewHolds_storeRequest hiv, lookup_storeRequest]
    by_cases hr : r = st.reqId
    · subst hr
      simp only [and_true, if_true, some.injEq, h.view_iff, hn, reduceCtorEq, false_and]
      constructor
      · intro hp
        split at hp
        · rename_i hi
          subst hp hi
          exact ⟨rfl, by rw [storeRequest_heap_self]⟩
        · exact hp.elim
      · rintro ⟨rfl, hi⟩
        rw [storeRequest_heap_self] at hi
        rw [if_pos hi.symm]
    · simp only [hr, and_false, if_false, h.view_iff]
      exact and_congr_right fun hp => by rw [hold r p hp]
  · intro r p hp
    rw [lookup_storeRequest] at hp
    split at hp
    · rename_i hr
      cases hp
      rw [storeRequest_heap_self, hr]
    · rw [hold r p hp]
      exact h.reqId_eq r p hp

end

end

/-! ### The calls that change a request in place -/

/-- Changing an object without changing who it belongs to keeps the ledger, provided the totals
follow. -/
theorem Ledger.inPlace (h : Ledger s) (hk : ∀ p, SameOwner (t.heap p) (s.heap p))
    (hn : t.nextRef = s.nextRef) (hgl : t.requestStates = s.requestStates)
    (hgw : t.gatewayRequestSet = s.gatewayRequestSet) (hv : ∀ i r p, ViewHolds t i r p ↔ ViewHolds s i r p)
    (ht : ∀ i iv, t.instanceViews.lookup i = some iv → iv.numTokens = tokenSum t.heap iv) : Ledger t := by
  refine (h.listed.inPlace hk hn hgl hgw).ledger ?_ ht ?_
  · intro i r p
    rw [hv, h.view_iff, hgl, (hk p).2.1]
  · intro r p hp
    rw [hgl] at hp
    rw [(hk p).1]
    exact h.reqId_eq r p hp

theorem Ledger.key_unique (h : Ledger s) {j q : String} (hr : ViewHolds s i r p) (hq : ViewHolds s j q p) :
    r = q ∧ i = j := by
  obtain ⟨hr', hi⟩ := (h.view_iff i r p).1 hr
  obtain ⟨hq', hj⟩ := (h.view_iff j q p).1 hq
  exact ⟨(h.reqId_eq r p hr').symm.trans (h.reqId_eq q p hq'), hi.symm.trans hj⟩

theorem tokenSum_update_mem (heap : Heap) (st : RequestState) (hp : iv.requestStates.lookup r = some p)
    (ho : ∀ q, iv.requestStates.lookup q = some p → q = r) :
    tokenSum (update heap p st) iv = tokenSum heap iv + (st.numTokens - (heap p).numTokens) := by
  have hr : total (fun _ x => (update heap p st x).numTokens)
      (iv.requestStates.erase r) = total (fun _ x => (heap x).numTokens) (iv.requestStates.erase r) := by
    refine total_congr fun q x hx => ?_
    rw [lookup_erase_ite, ite_none_left_eq_some] at hx
    have hxp : x ≠ p := by
      rintro rfl
      exact hx.1 (ho q hx.2)
    rw [update_of_ne hxp]
  rw [tokenSum, tokenSum, total_eq_add_erase _ hp, total_eq_add_erase _ hp, hr, update_self]
  abel

theorem ledger_markPrefillComplete (h : Ledger s) (hex : s.markPrefillComplete st = .ok t) : Ledger t := by
  obtain ⟨iv, -, rfl, hc⟩ := markPrefillComplete_eq_ok hex
  refine h.inPlace (fun p => (hc p).1) rfl rfl rfl (fun _ _ _ => Iff.rfl) ?_
  intro i jv hjv
  rw [tokenSum, total_congr fun _ p _ => (hc p).2]
  exact h.total_eq i jv hjv

theorem ledger_updateRequestState (h : Ledger s) (hex : s.updateRequestState st = .ok t) : Ledger t := by
  obtain ⟨iv, p, hiv, hp, rfl | rfl, hk⟩ := updateRequestState_eq_ok hex
  · exact h
  have hh : ViewHolds s st.instanceId st.reqId p := ⟨iv, hiv, hp⟩
  refine h.inPlace hk rfl rfl rfl ?_ ?_
  · intro i r q
    simp only [ViewHolds, lookup_insert_ite]
    by_cases hi : i = st.instanceId
    · subst hi; simp [hiv]
    · simp [hi]
  · intro i jv hjv
    simp only [lookup_insert_ite] at hjv
    split at hjv
    · rename_i hi
      cases hjv
      subst hi
      have ho : ∀ q, iv.requestStates.lookup q = some p → q = st.reqId :=
        fun q hq => (h.key_unique ⟨iv, hiv, hq⟩ hh).1
      have hs := tokenSum_update_mem s.heap
        { s.heap p with numTokens := st.numTokens, updateTime := st.updateTime } hp ho
      rw [← h.total_eq _ _ hiv] at hs
      exact hs.symm
    · rename_i hi
      have hno : ∀ r, jv.requestStates.lookup r ≠ some p :=
        fun r hr => hi (h.key_unique ⟨jv, hjv, hr⟩ hh).2
      rw [tokenSum_update hno]
      exact h.total_eq i jv hjv

/-! ### Runs -/

theorem ledger_orKeep {r : Except LrsError LocalRealtimeState} (h : Ledger s)
    (hr : ∀ t, r = .ok t → Ledger t) : Ledger (orKeep s r) := by
  cases r with
  | error => exact h
  | ok t => exact hr t rfl

theorem exec_ledger {c : Call} (hok : CallOk s c) (hex : exec s c = some t) (h : Ledger s) : Ledger t := by
  cases c <;> simp only [exec, ite_none_right_eq_some, some.injEq] at hex
  case addInstance => exact hex.2 ▸ ledger_addInstance h hex.1
  case removeInstance => exact hex.2 ▸ ledger_removeInstance h hex.1
  case addGateway g => exact hex ▸ ledger_addGateway h g
  case removeGateway => exact hex.2 ▸ ledger_removeGateway h hex.1 hok
  case allocateRequestState =>
    refine hex ▸ ledger_orKeep h fun t ht => ?_
    obtain ⟨iv, requestSet, hn, hiv, hs, rfl⟩ := allocateRequestState_eq_ok ht
    exact ledger_storeRequest h hn hiv hs
  case updateRequestState => exact hex ▸ ledger_orKeep h fun t ht => ledger_updateRequestState h ht
  case markPrefillComplete => exact hex ▸ ledger_orKeep h fun t ht => ledger_markPrefillComplete h ht
  case releaseRequestState => exact hex ▸ ledger_releaseRequestState h hok

/-- **The indexes agree in every state that guarded calls reach from the empty state.** -/
theorem consistent_of_reaches {s : LocalRealtimeState}
    (h : Reaches exec CallOk newLocalRealtimeState s) : Consistent s :=
  (h.invariant ledger_newLocalRealtimeState fun _ _ _ hok hex => exec_ledger hok hex).consistent

/-- Two instances, a gateway, and one request on each instance. -/
def twoInstances : List Call :=
  [.addInstance ⟨1, "i1", "", .neutral, ⟨"10.0.0.1", 8000⟩, "", 0, 0, 0⟩ [],
    .addInstance ⟨1, "i2", "", .neutral, ⟨"10.0.0.2", 8000⟩, "", 0, 0, 0⟩ [],
    .addGateway "g",
    .allocateRequestState (newRequestState "r1" 5 "i1" "g" 0),
    .allocateRequestState (newRequestState "r2" 7 "i2" "g" 0)]

/-- A guarded run with an update, a matched release and the loss of the gateway. -/
theorem consistent_after_matched_release : ∃ s,
    Reaches exec CallOk newLocalRealtimeState s ∧ s.requestExists "r2" = true ∧ Consistent s :=
  Reaches.exists_and (l := twoInstances ++ [.updateRequestState (newRequestState "r2" 9 "i2" "g" 1),
    .releaseRequestState (newRequestState "r1" 0 "i1" "g" 2)]) (by decide) fun _ => consistent_of_reaches

/-- **A release that names another instance strands the request**: `r1` is gone from the global
table and still in the view of `i1`, so the indexes disagree. -/
theorem mismatched_release_leaves_stale_entry :
    ¬ ∀ s, Reaches exec free newLocalRealtimeState s → Consistent s := by
  intro ha
  have hr : ∃ s ∈ runAll exec free newLocalRealtimeState (twoInstances ++
      [.releaseRequestState (newRequestState "r1" 0 "i2" "g" 1)]), s.requestStates.lookup "r1" = none ∧
        ∃ iv ∈ s.instanceViews.lookup "i1", iv.requestStates.lookup "r1" = some 0 := by decide
  obtain ⟨s, hs, he, iv, hiv, hp⟩ := Reaches.of_exists hr
  cases he.symm.trans (((ha s hs).view_iff "i1" "r1" 0).1 ⟨iv, hiv, hp⟩).1

end Llumnix.Lrs
