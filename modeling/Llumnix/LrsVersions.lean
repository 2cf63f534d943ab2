/-
**Requests and instance versions.**

When an instance is added again with a newer version its old view goes, and with it go the requests; a view
never changes its version.

* `Bound` — **every request was allocated to the present version of its instance**, whatever calls were
  made.
-/

import Llumnix.LrsLedger

namespace Llumnix.Lrs

open FiniteMap Function Option LocalRealtimeState Nat

variable {s t : LocalRealtimeState} {ver : Ref → ℤ}
variable {i : String} {iv : InstanceView} {st : RequestState}
variable {requestSet : Finset String} {order : List String} {inst : LLMInstance}

def instOf (s : LocalRealtimeState) (i : String) : Option LLMInstance :=
  (s.instanceViews.lookup i).map (·.inst)

/-! ### Calls that change no instance -/

/-- **What a call does that changes no instance**: views keep their instance and version and get no new
request, objects keep their owner, and a live request stays in its views. -/
structure Frame (s t : LocalRealtimeState) : Prop where
  nextRef : t.nextRef = s.nextRef
  owner : ∀ p, (t.heap p).instanceId = (s.heap p).instanceId
  view : ∀ i, (t.instanceViews.lookup i = none ∧ s.instanceViews.lookup i = none) ∨
    ∃ iv iv', s.instanceViews.lookup i = some iv ∧ t.instanceViews.lookup i = some iv' ∧
      iv'.inst = iv.inst ∧ iv'.version = iv.version ∧
      ∀ r p, iv'.requestStates.lookup r = some p → iv.requestStates.lookup r = some p
  live : ∀ r p, t.requestStates.lookup r = some p → s.requestStates.lookup r = some p ∧
    ∀ i, ViewHolds s i r p → ViewHolds t i r p

theorem Frame.refl (s : LocalRealtimeState) : Frame s s where
  nextRef := rfl
  owner := fun _ => rfl
  view := fun i => by
    cases hiv : s.instanceViews.lookup i with
    | none => exact .inl ⟨rfl, rfl⟩
    | some iv => exact .inr ⟨iv, iv, rfl, rfl, rfl, rfl, fun _ _ => id⟩
  live := fun _ _ h => ⟨h, fun _ => id⟩

theorem Frame.trans {u : LocalRealtimeState} (h : Frame s t) (h' : Frame t u) : Frame s u where
  nextRef := h'.nextRef.trans h.nextRef
  owner := fun p => (h'.owner p).trans (h.owner p)
  view := fun i => by
    rcases h.view i with ⟨ht, hs⟩ | ⟨iv, iv', hs, ht, hin, hv, hsu⟩
    · rcases h'.view i with ⟨hu, -⟩ | ⟨iv₂, _, ht', -⟩
      · exact .inl ⟨hu, hs⟩
      · cases ht.symm.trans ht'
    · rcases h'.view i with ⟨-, ht'⟩ | ⟨iv₂, iv₃, ht', hu, hi', hv', hs'⟩ <;> cases ht.symm.trans ht'
      exact .inr ⟨iv, iv₃, hs, hu, hi'.trans hin, hv'.trans hv, fun r p hp => hsu r p (hs' r p hp)⟩
  live := fun r p hp => by
    obtain ⟨ht, hk⟩ := h'.live r p hp
    obtain ⟨hs, hk'⟩ := h.live r p ht
    exact ⟨hs, fun i hi => hk i (hk' i hi)⟩

theorem Frame.instOf (h : Frame s t) (i : String) : instOf t i = instOf s i := by
  rcases h.view i with ⟨ht, hs⟩ | ⟨iv, iv', hs, ht, hi, -, -⟩
  · rw [Lrs.instOf, Lrs.instOf, ht, hs]
  · rw [Lrs.instOf, Lrs.instOf, ht, hs, map_some, map_some, hi]

/-- Letting one view go of a request that also leaves the global table. -/
theorem frame_release {r : String} (hiv : s.instanceViews.lookup i = some iv) (hh : t.heap = s.heap)
    (hn : t.nextRef = s.nextRef)
    (hv : t.instanceViews = s.instanceViews.insert i (iv.releaseRequestState s.heap r))
    (ht : t.requestStates = s.requestStates.erase r) : Frame s t where
  nextRef := hn
  owner := fun p => by rw [hh]
  view := fun j => by
    rw [hv, lookup_insert_ite]
    by_cases hj : j = i
    · subst hj
      refine .inr ⟨iv, _, hiv, if_pos rfl, ?_, ?_, fun q p hp => ?_⟩
      · unfold InstanceView.releaseRequestState
        split <;> rfl
      · unfold InstanceView.releaseRequestState
        split <;> rfl
      · rw [lookup_releaseRequestState, ite_none_left_eq_some] at hp
        exact hp.2
    · rw [if_neg hj]
      exact (Frame.refl s).view j
  live := fun q p hp => by
    rw [ht, lookup_erase_ite, ite_none_left_eq_some] at hp
    exact ⟨hp.2, fun j hj => (viewHolds_release hiv hv j q p).2 ⟨hj, fun h => hp.1 h.2⟩⟩

variable (s st)

theorem frame_releaseRequestState : Frame s (s.releaseRequestState st) := by
  rcases releaseRequestState_spec s st with he | ⟨iv, requestSet, -, -, hiv, -, he⟩
  · rw [he]
    exact Frame.refl s
  · rw [he]
    exact frame_release hiv rfl rfl rfl rfl

theorem frame_reclaimRequest (r : String) : Frame s (s.reclaimRequest r) := by
  unfold reclaimRequest
  split
  · exact Frame.refl s
  rename_i p hp
  dsimp only
  cases hiv : s.instanceViews.lookup (s.heap p).instanceId with
  | some => exact frame_release hiv rfl rfl rfl rfl
  | none =>
    refine ⟨rfl, fun _ => rfl, (Frame.refl s).view, fun q p' hq => ?_⟩
    rw [lookup_erase_ite, ite_none_left_eq_some] at hq
    exact ⟨hq.2, fun _ => id⟩

theorem frame_removeGateway (g : String) (order : List String) : Frame s (s.removeGateway g order) := by
  -- the loop of `RemoveGateway`, one request after the other
  have hl : ∀ (order : List String) (s : LocalRealtimeState), Frame s (order.foldl reclaimRequest s) := by
    intro order
    induction order with
    | nil => exact Frame.refl
    | cons r order ih => exact fun s => (frame_reclaimRequest s r).trans (ih _)
  unfold removeGateway
  split
  · exact Frame.refl s
  · have h := hl order s
    exact ⟨h.nextRef, h.owner, h.view, h.live⟩

theorem frame_addGateway (g : String) : Frame s (s.addGateway g) := by
  unfold addGateway
  split
  · exact ⟨rfl, fun _ => rfl, (Frame.refl s).view, (Frame.refl s).live⟩
  · exact Frame.refl s

variable {s st}

theorem frame_inPlace (hiv : s.instanceViews.lookup i = some iv) (hn : t.nextRef = s.nextRef)
    (ho : ∀ p, (t.heap p).instanceId = (s.heap p).instanceId) (hv : t.instanceViews = s.instanceViews ∨
      ∃ n, t.instanceViews = s.instanceViews.insert i { iv with numTokens := n })
    (ht : t.requestStates = s.requestStates) : Frame s t := by
  have hl : ∀ j, t.instanceViews.lookup j = s.instanceViews.lookup j ∨
      (j = i ∧ ∃ n, t.instanceViews.lookup j = some { iv with numTokens := n }) := by
    intro j
    rcases hv with h | ⟨n, h⟩
    · exact .inl (by rw [h])
    · rw [h, lookup_insert_ite]
      by_cases hj : j = i
      · exact .inr ⟨hj, n, if_pos hj⟩
      · exact .inl (if_neg hj)
  refine ⟨hn, ho, fun j => ?_, fun r p hp => ⟨ht ▸ hp, fun j hj => ?_⟩⟩
  · rcases hl j with h | ⟨rfl, n, h⟩
    · rw [h]
      exact (Frame.refl s).view j
    · exact .inr ⟨iv, _, hiv, h, rfl, rfl, fun _ _ => id⟩
  · obtain ⟨iv', hiv', hp'⟩ := hj
    rcases hl j with h | ⟨rfl, n, h⟩
    · exact ⟨iv', h ▸ hiv', hp'⟩
    · cases hiv.symm.trans hiv'
      exact ⟨_, h, hp'⟩

theorem frame_updateRequestState (hex : s.updateRequestState st = .ok t) : Frame s t := by
  obtain ⟨iv, p, hiv, -, rfl | rfl, hk⟩ := updateRequestState_eq_ok hex
  · exact Frame.refl t
  · exact frame_inPlace hiv rfl (fun q => (hk q).2.1) (.inr ⟨_, rfl⟩) rfl

theorem frame_markPrefillComplete (hex : s.markPrefillComplete st = .ok t) : Frame s t := by
  obtain ⟨iv, hiv, rfl, hk⟩ := markPrefillComplete_eq_ok hex
  exact frame_inPlace hiv rfl (fun q => (hk q).1.2.1) (.inl rfl) rfl

/-! ### The invariant -/

/-- **Every request was allocated to the present version of its instance.**  `ver` tells for every
object to which version it was allocated. -/
structure Bound (ver : Ref → ℤ) (s : LocalRealtimeState) : Prop where
  version : ∀ i iv, s.instanceViews.lookup i = some iv → iv.version = iv.inst.version
  bound_eq : ∀ i iv r p, s.instanceViews.lookup i = some iv → iv.requestStates.lookup r = some p →
    ver p = iv.version
  ref_lt : ∀ i r p, ViewHolds s i r p → p < s.nextRef
  /-- A request of the global table is in the view of its instance. -/
  live : ∀ r p, s.requestStates.lookup r = some p → ViewHolds s (s.heap p).instanceId r p

theorem bound_newLocalRealtimeState (ver : Ref → ℤ) : Bound ver newLocalRealtimeState where
  version := fun i iv h => by cases h
  bound_eq := fun i iv r p h => by cases h
  ref_lt := fun i r p ⟨iv, h, _⟩ => by cases h
  live := fun r p h => by cases h

theorem Frame.bound (h : Frame s t) (hb : Bound ver s) : Bound ver t where
  version := fun i iv hiv => by
    rcases h.view i with ⟨ht, -⟩ | ⟨iv₀, iv', hs, ht, hi, hv, -⟩ <;> cases hiv.symm.trans ht
    rw [hv, hi]
    exact hb.version i iv₀ hs
  bound_eq := fun i iv r p hiv hp => by
    rcases h.view i with ⟨ht, -⟩ | ⟨iv₀, iv', hs, ht, -, hv, hsu⟩ <;> cases hiv.symm.trans ht
    rw [hv]
    exact hb.bound_eq i iv₀ r p hs (hsu r p hp)
  ref_lt := fun i r p ⟨iv, hiv, hp⟩ => by
    rw [h.nextRef]
    rcases h.view i with ⟨ht, -⟩ | ⟨iv₀, iv', hs, ht, -, -, hsu⟩ <;> cases hiv.symm.trans ht
    exact hb.ref_lt i r p ⟨iv₀, hs, hsu r p hp⟩
  live := fun r p hp => by
    obtain ⟨hs, hk⟩ := h.live r p hp
    rw [h.owner]
    exact hk _ (hb.live r p hs)

/-- An allocation binds the new object to the version of the view. -/
theorem bound_storeRequest (hiv : s.instanceViews.lookup st.instanceId = some iv) (hb : Bound ver s) :
    Bound (update ver s.nextRef iv.version) (s.storeRequest st iv requestSet) := by
  have hold : ∀ {i : String} {r : String} {p : Ref}, ViewHolds s i r p →
      update ver s.nextRef iv.version p = ver p := fun h =>
    update_of_ne (Nat.ne_of_lt (hb.ref_lt _ _ _ h)) _ _
  have hv : ∀ i iv', (s.storeRequest st iv requestSet).instanceViews.lookup i = some iv' →
      (i ≠ st.instanceId ∧ s.instanceViews.lookup i = some iv') ∨
        (i = st.instanceId ∧ iv'.inst = iv.inst ∧ iv'.version = iv.version ∧
          ∀ r p, iv'.requestStates.lookup r = some p →
            p = s.nextRef ∨ iv.requestStates.lookup r = some p) := by
    intro i iv' h
    simp only [storeRequest, lookup_insert_ite] at h
    split at h
    · next hi =>
      cases h
      refine .inr ⟨hi, rfl, rfl, fun r p hp => ?_⟩
      rw [InstanceView.allocateRequestState, lookup_insert_ite] at hp
      split at hp
      · exact .inl (some.inj hp).symm
      · exact .inr hp
    · next hi => exact .inl ⟨hi, h⟩
  refine ⟨fun i iv' h => ?_, fun i iv' r p h hp => ?_, fun i r p h => ?_, fun r p hp => ?_⟩
  · rcases hv i iv' h with ⟨-, h⟩ | ⟨-, hin, hve, -⟩
    · exact hb.version i iv' h
    · rw [hin, hve]
      exact hb.version _ iv hiv
  · rcases hv i iv' h with ⟨-, h⟩ | ⟨-, -, hve, hs⟩
    · rw [hold ⟨iv', h, hp⟩]
      exact hb.bound_eq i iv' r p h hp
    · rcases hs r p hp with rfl | hp
      · rw [update_self, hve]
      · rw [hold ⟨iv, hiv, hp⟩, hve]
        exact hb.bound_eq _ iv r p hiv hp
  · obtain ⟨iv', h, hp⟩ := h
    rcases hv i iv' h with ⟨-, h⟩ | ⟨-, -, -, hs⟩
    · exact lt_succ_of_lt (hb.ref_lt i r p ⟨iv', h, hp⟩)
    · rcases hs r p hp with rfl | hp
      · exact lt_succ_self _
      · exact lt_succ_of_lt (hb.ref_lt _ r p ⟨iv, hiv, hp⟩)
  · rw [viewHolds_storeRequest hiv]
    rw [lookup_storeRequest] at hp
    split at hp
    · next hr =>
      cases hp
      rw [storeRequest_heap_self, hr]
      simp
    · next hr =>
      have hl := hb.live r p hp
      rw [storeRequest_heap_of_lt (hb.ref_lt _ _ _ hl)]
      simp [hr, hl]

theorem bound_removeInstance (ho : Enumerates order (s.instanceRequestIds i)) (hb : Bound ver s) :
    Bound ver (s.removeInstance i order) := by
  obtain ⟨hh, hn, -, hlo, -⟩ := dropAll_spec order s
  have hl : ∀ j iv', (s.instanceViews.erase i).lookup j = some iv' → s.instanceViews.lookup j = some iv' := by
    intro j iv' h
    rw [lookup_erase_ite, ite_none_left_eq_some] at h
    exact h.2
  rw [removeInstance_spec ho]
  refine ⟨fun j iv' h => hb.version j iv' (hl j iv' h),
    fun j iv' r p h => hb.bound_eq j iv' r p (hl j iv' h), ?_, fun r p hp => ?_⟩
  · rintro j r p ⟨iv', h, hp⟩
    exact hn ▸ hb.ref_lt j r p ⟨iv', hl j iv' h, hp⟩
  simp only [hlo] at hp
  split at hp <;> try cases hp
  rename_i hr
  have hl := hb.live r p hp
  -- the loop ranges over all requests of the instance, so this is not one of them
  have hne : (s.heap p).instanceId ≠ i := fun h => hr ((mem_instanceRequestIds ho).2 ⟨p, h ▸ hl⟩)
  obtain ⟨iv', hiv', hp'⟩ := hl
  simp only [hh]
  exact ⟨iv', (Finmap.lookup_erase_ne hne).trans hiv', hp'⟩

theorem bound_insertView (hn : s.instanceViews.lookup inst.id = none) (hb : Bound ver s) : Bound ver
      { s with instanceViews := s.instanceViews.insert inst.id (newInstanceView inst) } := by
  have hl : ∀ j iv', (s.instanceViews.insert inst.id (newInstanceView inst)).lookup j =
      some iv' → iv' = newInstanceView inst ∨ s.instanceViews.lookup j = some iv' := by
    intro j iv' h
    rw [lookup_insert_ite] at h
    split at h
    · exact .inl (some.inj h).symm
    · exact .inr h
  refine ⟨fun j iv' h => ?_, fun j iv' r p h hp => ?_, ?_, fun r p hp => ?_⟩
  · rcases hl j iv' h with rfl | h
    · rfl
    · exact hb.version j iv' h
  · rcases hl j iv' h with rfl | h
    · cases hp
    · exact hb.bound_eq j iv' r p h hp
  · rintro j r p ⟨iv', h, hp⟩
    rcases hl j iv' h with rfl | h
    · cases hp
    · exact hb.ref_lt j r p ⟨iv', h, hp⟩
  · obtain ⟨iv', hiv', hp'⟩ := hb.live r p hp
    refine ⟨iv', ?_, hp'⟩
    have hne : (s.heap p).instanceId ≠ inst.id := fun h => by cases hn.symm.trans (h ▸ hiv')
    exact (Finmap.lookup_insert_of_ne _ hne).trans hiv'

theorem bound_addInstance (ho : Enumerates order (s.instanceRequestIds inst.id)) (hb : Bound ver s) :
    Bound ver (s.addInstance inst order) := by
  unfold addInstance
  cases hiv : s.instanceViews.lookup inst.id with
  | none => exact bound_insertView hiv hb
  | some old =>
    by_cases hv : old.version < inst.version
    · simp only [hv, if_true]
      exact bound_insertView (lookup_removeInstance_self hiv order) (bound_removeInstance ho hb)
    · simpa [hv] using hb

/-! ### What the calls do to the instances -/

theorem instOf_removeInstance (s : LocalRealtimeState) (i j : String) (order : List String) :
    instOf (s.removeInstance i order) j = if j = i then none else instOf s j := by
  unfold removeInstance
  cases hiv : s.instanceViews.lookup i with
  | none =>
    by_cases hj : j = i
    · subst hj
      simp [instOf, hiv]
    · simp [hj]
  | some =>
    obtain ⟨-, -, hv, -, -⟩ := dropAll_spec order s
    simp only [instOf, hv, lookup_erase_ite]
    split <;> rfl

theorem instOf_addInstance (hb : Bound ver s) (inst : LLMInstance) (order : List String) (j : String) :
    instOf (s.addInstance inst order) j = if j = inst.id then
        match instOf s inst.id with
        | none => some inst
        | some old => if old.version < inst.version then some inst else some old
      else instOf s j := by
  unfold addInstance
  cases hiv : s.instanceViews.lookup inst.id with
  | none =>
    have hn : instOf s inst.id = none := by simp [instOf, hiv]
    simp only [hn]
    rw [instOf, lookup_insert_ite]
    split <;> rfl
  | some old =>
  have hs : instOf s inst.id = some old.inst := by simp [instOf, hiv]
  simp only [hs, hb.version _ old hiv]
  split
  · rw [instOf, lookup_insert_ite]
    split
    · rfl
    · next hj => exact (instOf_removeInstance s inst.id j order).trans (if_neg hj)
  · split
    · next hj => rw [hj, hs]
    · rfl

theorem instOf_storeRequest (hiv : s.instanceViews.lookup st.instanceId = some iv) (j : String) :
    instOf (s.storeRequest st iv requestSet) j = instOf s j := by
  rw [instOf, storeRequest, lookup_insert_ite]
  split
  · next hj =>
    rw [hj, instOf, hiv]
    rfl
  · rfl

end Llumnix.Lrs
