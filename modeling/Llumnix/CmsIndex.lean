/-
**The reverse index of the local account.**

The editor of `Llumnix/CmsLocalAccount.lean` keeps, for every request, a list of the instances that have an
account for it.  The list is changed by four routines, one instance at a time, and the views that hold the
accounts come and go with the refreshes of the status.

* `indexConsistent_of_reaches` — **the index is consistent in every state that guarded calls reach**.
-/

import Llumnix.CmsLocalAccount

namespace Llumnix.Cms

open FiniteMap GuardedRun InstanceStatusLocalAccountEditor List Option

/-! ### The property -/

variable (s : Accounts)

/-- The view that is served for instance `i` has an account for request `r`. -/
def Holds (i r : String) : Prop :=
  ∃ ref v, s.instanceViews.lookup i = some ref ∧ s.heap.lookup ref = some v ∧
    (v.account r).isSome = true

/-- **The index lists exactly the instances whose view has an account**, once each, and has no empty entry. -/
structure IndexConsistent (s : Accounts) : Prop where
  listed : ∀ r i, i ∈ s.editor.instanceIds r ↔ Holds s i r
  nodup : ∀ r, (s.editor.instanceIds r).Nodup
  nonempty : ∀ r, s.editor.requestToInstanceIds.lookup r ≠ some []

/-! ### The guard -/

/-- The view that is served for an instance has no accounts. -/
def Accountless (instanceID : String) : Prop :=
  ∀ ref ∈ s.instanceViews.lookup instanceID, ∀ v ∈ s.heap.lookup ref,
    v.localAccount.requestLocalAccount.keys = ∅

/-- A view object is the one that is served under its own id. -/
def Served (ref : Ref) (v : InstanceView) : Prop :=
  s.instanceViews.lookup v.getInstanceId = some ref

/-- No view that is served has an account for the request, except possibly the given object. -/
def NoOther (ref : Ref) (requestId : String) : Prop :=
  ∀ i ∈ s.instanceViews.keys, ∀ ref' ∈ s.instanceViews.lookup i, ∀ v ∈ s.heap.lookup ref',
    (v.account requestId).isSome = true → ref' = ref

/-- **The calls that keep the index.** -/
def IndexOk : Action → Prop
  | .createView instanceID metadataInstanceId =>
    metadataInstanceId = instanceID ∧ s.instanceViews.lookup instanceID = none
  | .dropView instanceID => Accountless s instanceID
  | .add ref _ _ _ requestId _ =>
    ∀ v ∈ s.heap.lookup ref, v.account requestId = none → Served s ref v
  | .update _ _ _ _ => True
  | .revert ref _ _ requestId => NoOther s ref requestId
  | .remove _ => True

instance (s : Accounts) (ref : Ref) (v : InstanceView) : Decidable (Served s ref v) :=
  inferInstanceAs (Decidable (_ = _))

instance (s : Accounts) (instanceID : String) : Decidable (Accountless s instanceID) := by
  unfold Accountless
  infer_instance

instance (s : Accounts) (ref : Ref) (requestId : String) : Decidable (NoOther s ref requestId) := by
  unfold NoOther
  infer_instance

instance (s : Accounts) : ∀ a, Decidable (IndexOk s a) := by
  rintro (_ | _ | _ | _ | _ | _) <;> (dsimp only [IndexOk]; infer_instance)

/-! ### The index -/

/-- Lists without repetition, none of them empty. -/
structure Clean (e : InstanceStatusLocalAccountEditor) : Prop where
  nodup : ∀ r, (e.instanceIds r).Nodup
  nonempty : ∀ r, e.requestToInstanceIds.lookup r ≠ some []

/-- The entry for a list of instances: there is none if the list is empty. -/
def entryOf (ids : List String) : Option (List String) := if ids = [] then none else some ids

section

variable {e e' : InstanceStatusLocalAccountEditor} {reqID : String} {ids : List String}

variable (e e' reqID ids)

theorem entryOf_getD : (entryOf ids).getD [] = ids := by
  unfold entryOf
  split
  · next h => rw [h, getD_none]
  · rfl

theorem entryOf_ne_nil : entryOf ids ≠ some [] := by
  unfold entryOf
  split
  · exact nofun
  · next h => exact fun heq => h (some.inj heq)

/-- The editor `e'` has the index of `e` but for the entry of one request. -/
def Reindexed : Prop :=
  ∀ r, e'.requestToInstanceIds.lookup r =
    if r = reqID then entryOf ids else e.requestToInstanceIds.lookup r

variable {e e' reqID ids}

theorem Reindexed.instanceIds (h : Reindexed e e' reqID ids) (r : String) :
    e'.instanceIds r = if r = reqID then ids else e.instanceIds r := by
  rw [InstanceStatusLocalAccountEditor.instanceIds, h r]
  split
  · exact entryOf_getD ids
  · rfl

theorem Reindexed.clean (h : Reindexed e e' reqID ids) (hi : ids.Nodup) (hc : Clean e) : Clean e' where
  nodup := fun r => by
    rw [h.instanceIds]
    split
    · exact hi
    · exact hc.nodup r
  nonempty := fun r => by
    rw [h r]
    split
    · exact entryOf_ne_nil ids
    · exact hc.nonempty r

theorem reindexed_removeInstanceFromRequestIndex (e : InstanceStatusLocalAccountEditor)
    (reqID instanceID : String) : Reindexed e (e.removeInstanceFromRequestIndex reqID instanceID) reqID
      ((e.instanceIds reqID).erase instanceID) := by
  intro r
  unfold removeInstanceFromRequestIndex entryOf
  by_cases he : (e.instanceIds reqID).erase instanceID = []
  · rw [if_pos (isEmpty_iff.2 he), lookup_erase_ite, if_pos he]
  · rw [if_neg fun h => he (isEmpty_iff.1 h), lookup_insert_ite, if_neg he]

theorem Clean.lookup_eq_none (h : Clean e) {r : String} (hn : e.instanceIds r = []) :
    e.requestToInstanceIds.lookup r = none := by
  cases hl : e.requestToInstanceIds.lookup r with
  | none => rfl
  | some =>
    rw [InstanceStatusLocalAccountEditor.instanceIds, hl, getD_some] at hn
    exact absurd (hn ▸ hl) (h.nonempty r)

end

/-! ### The index as seen by one view -/

/-- **What the loops of the editor keep**: instance `i` is listed for the requests of its view, the others as
before. -/
structure Tracks (others : String → String → Prop) (i : String)
    (st : InstanceStatusLocalAccountEditor × InstanceView) : Prop where
  clean : Clean st.1
  name : st.2.getInstanceId = i
  self : ∀ r, i ∈ st.1.instanceIds r ↔ (st.2.account r).isSome = true
  other : ∀ r j, j ≠ i → (j ∈ st.1.instanceIds r ↔ others j r)

section

variable {others : String → String → Prop} {i : String} {e e' : InstanceStatusLocalAccountEditor}
  {v v' : InstanceView}
variable {st : InstanceStatusLocalAccountEditor × InstanceView}

theorem Tracks.of_same (h : Tracks others i (e, v))
    (hi : e'.requestToInstanceIds = e.requestToInstanceIds) (hn : v'.getInstanceId = v.getInstanceId)
    (hs : ∀ r, (v'.account r).isSome = (v.account r).isSome) : Tracks others i (e', v') := by
  have hid : ∀ r, e'.instanceIds r = e.instanceIds r := fun r => by
    rw [instanceIds, instanceIds, hi]
  refine ⟨⟨fun r => ?_, fun r => ?_⟩, hn.trans h.name, fun r => ?_, fun r j hj => ?_⟩
  · rw [hid]
    exact h.clean.nodup r
  · rw [hi]
    exact h.clean.nonempty r
  · rw [hid, hs]
    exact h.self r
  · rw [hid]
    exact h.other r j hj

theorem Tracks.ite {p : Prop} [Decidable p] {st' : InstanceStatusLocalAccountEditor × InstanceView}
    (h : Tracks others i st) (h' : Tracks others i st') : Tracks others i (if p then st else st') := by
  split
  · exact h
  · exact h'

/-- **Changing the entry of one request**, together with its account on the view. -/
theorem Tracks.of_change (h : Tracks others i (e, v)) (reqID : String) (ids : List String)
    (hi : Reindexed e e' reqID ids) (hid : ids.Nodup) (hn : v'.getInstanceId = v.getInstanceId)
    (hsa : ∀ r, r ≠ reqID → v'.account r = v.account r) (hs : i ∈ ids ↔ (v'.account reqID).isSome = true)
    (ho : ∀ j, j ≠ i → (j ∈ ids ↔ others j reqID)) : Tracks others i (e', v') where
  clean := hi.clean hid h.clean
  name := hn.trans h.name
  self := fun r => by
    dsimp only
    rw [hi.instanceIds]
    split
    · next hr => rw [hr, hs]
    · next hr => rw [hsa r hr, ← h.self r]
  other := fun r j hj => by
    dsimp only
    rw [hi.instanceIds]
    split
    · next hr => rw [hr, ho j hj]
    · exact h.other r j hj

theorem account_deleteAccount (v : InstanceView) (reqID r : String) :
    (v.deleteAccount reqID).account r = if r = reqID then none else v.account r :=
  lookup_erase_ite _ _ _

theorem account_setAccount (v : InstanceView) (reqID : String) (account : RequestLocalAccount)
    (r : String) :
    (v.setAccount reqID account).account r = if r = reqID then some account else v.account r :=
  lookup_insert_ite _ _ _ _

theorem tracks_deleteAccount (h : Tracks others i st) (reqID : String) :
    Tracks others i (st.1.removeInstanceFromRequestIndex reqID i, st.2.deleteAccount reqID) := by
  refine Tracks.of_change h reqID _ (reindexed_removeInstanceFromRequestIndex st.1 reqID i)
    ((h.clean.nodup reqID).erase i) rfl (fun r hr => ?_) ?_ fun j hj => ?_
  · rw [account_deleteAccount, if_neg hr]
  · rw [account_deleteAccount, if_pos rfl]
    exact iff_of_false (h.clean.nodup reqID).not_mem_erase Bool.false_ne_true
  · rw [mem_erase_of_ne hj]
    exact h.other reqID j hj

theorem isSome_setAccount {reqID : String} (hs : (v.account reqID).isSome = true)
    (account : RequestLocalAccount) (r : String) :
    ((v.setAccount reqID account).account r).isSome = (v.account r).isSome := by
  rw [account_setAccount]
  split
  · next hr =>
    rw [hr, hs]
    rfl
  · rfl

theorem tracks_deleteRequestLocalAccount (h : Tracks others i st) (reqID : String) (deleteRequest : Bool) :
    Tracks others i (st.1.deleteRequestLocalAccount st.2 i reqID deleteRequest) := by
  unfold deleteRequestLocalAccount
  split
  · exact h
  · next account _ =>
    have hs : Tracks others i
        (st.1, { st.2 with localAccount := decrementCounters st.2.localAccount account }) :=
      h.of_same rfl rfl fun _ => rfl
    cases deleteRequest with
    | true => exact tracks_deleteAccount hs reqID
    | false => exact hs

theorem tracks_updateRequest {recentWaitingReqs waitingReqs : Finset String} {now : String → BitVec 64}
    (h : Tracks others i st) (reqID : String) :
    Tracks others i (updateRequest recentWaitingReqs waitingReqs i now st reqID) := by
  cases ha : st.2.account reqID with
  | none => simpa only [updateRequest, ha] using h
  | some account =>
  simp only [updateRequest, ha]
  -- the three tests of the turn, one after the other
  have hs : Tracks others i (st.1, st.2.setAccount reqID { account with foundInCMS := true }) :=
    h.of_same rfl rfl fun r => isSome_setAccount (by rw [ha]; rfl) _ r
  have hc := fun p [Decidable p] => (tracks_deleteRequestLocalAccount hs reqID false).ite (p := p) h
  have hf := fun p q [Decidable p] [Decidable q] => (tracks_deleteAccount (hc p) reqID).ite (p := q) (hc p)
  exact (tracks_deleteRequestLocalAccount (hf _ _) reqID true).ite (hf _ _)

theorem tracks_updateInstanceStatusLocalAccount (h : Tracks others i (e, v)) (order : List String)
    (now : String → BitVec 64) : Tracks others i (e.updateInstanceStatusLocalAccount v i order now) := by
  have hl : ∀ recent waiting, Tracks others i (order.foldl (updateRequest recent waiting i now) (e, v)) :=
    fun _ _ => order.foldlRecOn _ h fun _ hst reqID _ => tracks_updateRequest hst reqID
  simp only [updateInstanceStatusLocalAccount]
  split
  · exact (hl _ _).of_same rfl rfl fun _ => rfl
  · exact hl _ _

theorem isSome_secondAdd {requestId : String} (hs : (v.account requestId).isSome = true)
    (localAccount : InstanceStatusLocalAccount)
    (hsa : localAccount.requestLocalAccount = v.localAccount.requestLocalAccount)
    (account : RequestLocalAccount) (r : String) :
    ((InstanceView.setAccount { v with localAccount := localAccount } requestId account).account
      r).isSome = (v.account r).isSome := by
  have ha : ∀ q, InstanceView.account { v with localAccount := localAccount } q =
      v.account q := fun q => congrArg (Finmap.lookup q) hsa
  rw [isSome_setAccount (by rw [ha, hs]), ha]

/-- A first add lists the instance, a second one changes counters only. -/
theorem tracks_addRequestLocalAccount (h : Tracks others i (e, v)) (inferType : InferType)
    (numTokens prefixHitNumTokens : BitVec 32) (requestId : String) (now : BitVec 64) :
    Tracks others i (e.addRequestLocalAccount v inferType numTokens prefixHitNumTokens requestId now) := by
  unfold addRequestLocalAccount
  cases ha : v.account requestId with
  | some =>
    exact h.ite (h.of_same rfl rfl fun r => isSome_secondAdd (by rw [ha]; rfl) _ rfl _ r)
  | none =>
  have hnw : i ∉ e.instanceIds requestId := by
    have := h.self requestId
    rw [this, ha]
    exact Bool.false_ne_true
  have hn : v.getInstanceId = i := h.name
  rw [hn]
  refine h.of_change requestId (e.instanceIds requestId ++ [i]) (fun r => ?_) ?_ rfl
    (fun r hr => ?_) ?_ fun j hj => ?_
  · have hne : e.instanceIds requestId ++ [i] ≠ [] := by simp
    rw [entryOf, if_neg hne]
    exact lookup_insert_ite _ _ _ _
  · refine nodup_append'.2 ⟨h.clean.nodup requestId, nodup_singleton i, ?_⟩
    exact fun j hj hj' => hnw (mem_singleton.1 hj' ▸ hj)
  · exact (account_setAccount _ _ _ _).trans (if_neg hr)
  · rw [account_setAccount, if_pos rfl]
    simp
  · rw [mem_append, mem_singleton, or_iff_left hj]
    exact h.other requestId j hj

end

/-! ### Runs -/

/-- The invariant: the index is consistent, and views are served under their own ids. -/
structure Indexed (s : Accounts) : Prop extends IndexConsistent s where
  named : ∀ i ref, s.instanceViews.lookup i = some ref →
    ∃ v, s.heap.lookup ref = some v ∧ v.getInstanceId = i
  fresh : ∀ ref v, s.heap.lookup ref = some v → ref < s.nextRef

section

variable {s : Accounts} {ref : Ref} {i : String} {v : InstanceView}
variable {r : InstanceStatusLocalAccountEditor × InstanceView} {requestId : String}

section

variable (h : Indexed s)
include h

theorem Indexed.clean : Clean s.editor := ⟨h.nodup, h.nonempty⟩

/-- The view that is served for an instance sees the index as it should be. -/
theorem Indexed.tracks (hvi : s.instanceViews.lookup i = some ref)
    (hv : s.heap.lookup ref = some v) : Tracks (Holds s) i (s.editor, v) where
  clean := h.clean
  name := by
    obtain ⟨v', hv', hn⟩ := h.named i ref hvi
    cases hv.symm.trans hv'
    exact hn
  self := fun r => by
    rw [h.listed]
    constructor
    · rintro ⟨ref', v', hr', hv', hs⟩
      cases hvi.symm.trans hr'
      cases hv.symm.trans hv'
      exact hs
    · exact fun hs => ⟨ref, v, hvi, hv, hs⟩
  other := fun r j _ => h.listed r j

theorem Indexed.served_inj {j : String} (hi : s.instanceViews.lookup i = some ref)
    (hj : s.instanceViews.lookup j = some ref) : j = i := by
  obtain ⟨v, hv, hn⟩ := h.named i ref hi
  obtain ⟨v', hv', hn'⟩ := h.named j ref hj
  cases hv.symm.trans hv'
  exact hn'.symm.trans hn

/-- The parts of the invariant that are not about the index, after an editor call. -/
theorem named_store (hv : s.heap.lookup ref = some v) (hn : r.2.getInstanceId = v.getInstanceId) :
    (∀ j ref', (s.store ref r).instanceViews.lookup j = some ref' →
      ∃ v', (s.store ref r).heap.lookup ref' = some v' ∧ v'.getInstanceId = j) ∧
    ∀ ref' v', (s.store ref r).heap.lookup ref' = some v' → ref' < (s.store ref r).nextRef := by
  constructor
  · intro j ref' hj
    obtain ⟨v', hv', hid⟩ := h.named j ref' hj
    rw [Accounts.store, lookup_insert_ite]
    split
    · next hr =>
      subst hr
      cases hv.symm.trans hv'
      exact ⟨r.2, rfl, hn.trans hid⟩
    · exact ⟨v', hv', hid⟩
  · intro ref' v' hv'
    rw [Accounts.store, lookup_insert_ite] at hv'
    split at hv'
    · next hr => exact hr ▸ h.fresh ref v hv
    · exact h.fresh ref' v' hv'

/-- **An editor call on a view that is served** keeps the invariant if it keeps what the view sees. -/
theorem Indexed.store (hvi : s.instanceViews.lookup i = some ref)
    (hv : s.heap.lookup ref = some v) (hr : Tracks (Holds s) i r) : Indexed (s.store ref r) := by
  have hn : r.2.getInstanceId = v.getInstanceId := hr.name.trans (h.tracks hvi hv).name.symm
  have hh : ∀ j q, Holds (s.store ref r) j q ↔
      if j = i then (r.2.account q).isSome = true else Holds s j q := by
    intro j q
    simp only [Holds, Accounts.store, lookup_insert_ite]
    by_cases hj : j = i
    · subst hj
      rw [if_pos rfl]
      constructor
      · rintro ⟨ref', v', hr', hv', hs⟩
        cases hvi.symm.trans hr'
        rw [if_pos rfl] at hv'
        cases hv'
        exact hs
      · exact fun hs => ⟨ref, r.2, hvi, if_pos rfl, hs⟩
    · rw [if_neg hj]
      have hne : ∀ ref', s.instanceViews.lookup j = some ref' → ref' ≠ ref := by
        rintro ref' hj' rfl
        exact hj (h.served_inj hvi hj')
      constructor
      · rintro ⟨ref', v', hr', hv', hs⟩
        rw [if_neg (hne ref' hr')] at hv'
        exact ⟨ref', v', hr', hv', hs⟩
      · rintro ⟨ref', v', hr', hv', hs⟩
        exact ⟨ref', v', hr', (if_neg (hne ref' hr')).trans hv', hs⟩
  refine ⟨⟨fun q j => ?_, hr.clean.nodup, hr.clean.nonempty⟩, (named_store h hv hn).1,
    (named_store h hv hn).2⟩
  rw [hh]
  split
  · next hj =>
    subst hj
    exact hr.self q
  · next hj => exact hr.other q j hj

theorem Indexed.store_same (hv : s.heap.lookup ref = some v)
    (hi : r.1.requestToInstanceIds = s.editor.requestToInstanceIds)
    (hn : r.2.getInstanceId = v.getInstanceId) (hsa : (∃ i, s.instanceViews.lookup i = some ref) →
      ∀ q, (r.2.account q).isSome = (v.account q).isSome) : Indexed (s.store ref r) := by
  by_cases hs : ∃ i, s.instanceViews.lookup i = some ref
  · obtain ⟨i, hvi⟩ := hs
    exact h.store hvi hv ((h.tracks hvi hv).of_same hi hn (hsa ⟨i, hvi⟩))
  have hid : ∀ q, r.1.instanceIds q = s.editor.instanceIds q := fun q => by
    rw [instanceIds, instanceIds, hi]
  have hh : ∀ j q, Holds (s.store ref r) j q ↔ Holds s j q := by
    intro j q
    simp only [Holds, Accounts.store, lookup_insert_ite]
    refine exists_congr fun ref' => exists_congr fun v' => ?_
    refine and_congr_right fun hr' => ?_
    rw [if_neg]
    rintro rfl
    exact hs ⟨j, hr'⟩
  refine ⟨⟨fun q j => ?_, fun q => ?_, fun q => ?_⟩, (named_store h hv hn).1, (named_store h hv hn).2⟩
  · rw [hh, ← h.listed q j]
    exact iff_of_eq (congrArg (j ∈ ·) (hid q))
  · exact (hid q).symm ▸ h.nodup q
  · change r.1.requestToInstanceIds.lookup q ≠ some []
    rw [hi]
    exact h.nonempty q

theorem indexed_revert (hv : s.heap.lookup ref = some v)
    (numTokens prefixHitNumTokens : BitVec 32) (hok : NoOther s ref requestId) :
    Indexed (s.store ref (s.editor.revertRequestPrefillLocalAccount v numTokens prefixHitNumTokens
      requestId)) := by
  -- whoever has the request is the object of the call
  have ho : ∀ j, Holds s j requestId → s.instanceViews.lookup j = some ref := by
    rintro j ⟨ref', v', hr', hv', hso⟩
    have hk : j ∈ s.instanceViews.keys := by
      rw [Finmap.mem_keys, ← Finmap.lookup_isSome, hr']
      rfl
    rw [← hok j hk ref' hr' v' hv' hso]
    exact hr'
  by_cases hs : ∃ i, s.instanceViews.lookup i = some ref
  · obtain ⟨i, hvi⟩ := hs
    -- the revert takes the whole entry of the request, in which nobody else is listed
    refine h.store hvi hv ((h.tracks hvi hv).of_change requestId [] (fun r => ?_) nodup_nil rfl (fun r hr => ?_) ?_
      fun j hj => iff_of_false not_mem_nil fun hh => hj (h.served_inj hvi (ho j hh)))
    · exact lookup_erase_ite _ _ _
    · exact (account_deleteAccount _ _ _).trans (if_neg hr)
    · rw [account_deleteAccount, if_pos rfl]
      simp
  have hn : s.editor.instanceIds requestId = [] := by
    refine eq_nil_iff_forall_not_mem.2 fun j hj => ?_
    exact hs ⟨j, ho j ((h.listed requestId j).1 hj)⟩
  refine h.store_same hv ?_ rfl fun hs' => absurd hs' hs
  refine Finmap.ext_lookup fun q => ?_
  refine (lookup_erase_ite _ _ _).trans ?_
  split
  · next hq => exact (hq ▸ h.clean.lookup_eq_none hn).symm
  · rfl

end

theorem indexed_removeTurn {st : List String × Accounts} (h : Indexed st.2) (n : Nat) :
    Indexed (Accounts.removeTurn requestId st n).2 := by
  unfold Accounts.removeTurn
  split
  · exact h
  rename_i instanceId _
  split
  · next hvi =>
    -- nobody is listed who has no view, so there is nothing to take out
    have hn : instanceId ∉ st.2.editor.instanceIds requestId := by
      rw [h.listed]
      rintro ⟨ref, v, hr, -⟩
      cases hvi.symm.trans hr
    have hi := reindexed_removeInstanceFromRequestIndex st.2.editor requestId instanceId
    rw [erase_of_not_mem hn] at hi
    have hid : ∀ q, (st.2.editor.removeInstanceFromRequestIndex requestId
        instanceId).instanceIds q = st.2.editor.instanceIds q := by
      intro q
      rw [hi.instanceIds]
      split
      · next hq => rw [hq]
      · rfl
    have hc := hi.clean (h.nodup requestId) h.clean
    refine ⟨⟨fun q j => ?_, hc.nodup, hc.nonempty⟩, h.named, h.fresh⟩
    exact (iff_of_eq (congrArg (j ∈ ·) (hid q))).trans (h.listed q j)
  · next ref hvi =>
    split
    · exact h
    · next v hv =>
      split
      · exact h.store hvi hv (tracks_deleteRequestLocalAccount (h.tracks hvi hv) requestId true)
      · exact h

theorem indexed_remove (h : Indexed s) (requestId : String) :
    Indexed (s.removeRequestLocalAccount requestId) :=
  List.foldlRecOn _ _ (motive := fun st : List String × Accounts => Indexed st.2) h
    fun _ hst n _ => indexed_removeTurn hst n

theorem indexed_createView (h : Indexed s) (hno : s.instanceViews.lookup i = none) :
    Indexed (s.createView i i) := by
  have hh : ∀ ref' v', s.heap.lookup ref' = some v' → (s.createView i i).heap.lookup ref' = some v' := by
    intro ref' v' hv'
    exact (Finmap.lookup_insert_of_ne _ (Nat.ne_of_lt (h.fresh ref' v' hv'))).trans hv'
  have hv : ∀ j, (s.createView i i).instanceViews.lookup j =
      if j = i then some s.nextRef else s.instanceViews.lookup j := fun j =>
    lookup_insert_ite _ _ _ _
  have hn : (s.createView i i).heap.lookup s.nextRef = some ⟨i, ⟨[], [], 0⟩, .empty⟩ :=
    Finmap.lookup_insert _
  refine ⟨⟨fun r j => ?_, h.nodup, h.nonempty⟩, fun j ref' hj => ?_, fun ref' v' hv' => ?_⟩
  · refine (h.listed r j).trans ?_
    simp only [Holds, hv]
    by_cases hj : j = i
    · subst hj
      refine iff_of_false ?_ ?_
      · rintro ⟨ref', v', hr', -⟩
        cases hno.symm.trans hr'
      · rintro ⟨ref', v', hr', hv', hs⟩
        rw [if_pos rfl] at hr'
        cases hr'
        cases hn.symm.trans hv'
        exact absurd hs Bool.false_ne_true
    · rw [if_neg hj]
      refine exists_congr fun ref' => ?_
      constructor
      · rintro ⟨v', hr', hv', hs⟩
        exact ⟨v', hr', hh ref' v' hv', hs⟩
      · rintro ⟨v', hr', hv', hs⟩
        obtain ⟨v₀, hv₀, -⟩ := h.named j ref' hr'
        obtain rfl := some.inj ((hh ref' v₀ hv₀).symm.trans hv')
        exact ⟨v₀, hr', hv₀, hs⟩
  · rw [hv] at hj
    split at hj
    · next hji =>
      cases hj
      exact ⟨_, hn, hji.symm⟩
    · obtain ⟨v', hv', hna⟩ := h.named j ref' hj
      exact ⟨v', hh ref' v' hv', hna⟩
  · rw [Accounts.createView, lookup_insert_ite] at hv'
    split at hv'
    · next hr => exact hr ▸ Nat.lt_succ_self _
    · exact Nat.lt_succ_of_lt (h.fresh ref' v' hv')

theorem indexed_dropView (h : Indexed s) (hok : Accountless s i) : Indexed (s.dropView i) := by
  have hv : ∀ j, (s.dropView i).instanceViews.lookup j =
      if j = i then none else s.instanceViews.lookup j := fun j => lookup_erase_ite _ _ _
  refine ⟨⟨fun r j => ?_, h.nodup, h.nonempty⟩, fun j ref' hj => ?_, h.fresh⟩
  · refine (h.listed r j).trans ?_
    simp only [Holds, hv]
    by_cases hj : j = i
    · subst hj
      refine iff_of_false ?_ (by simp)
      rintro ⟨ref', v', hr', hv', hs⟩
      have hk := hok ref' hr' v' hv'
      have hm : r ∈ v'.localAccount.requestLocalAccount.keys :=
        Finmap.mem_keys.2 (Finmap.lookup_isSome.1 hs)
      rw [hk] at hm
      exact absurd hm (Finset.notMem_empty r)
    · rw [if_neg hj]
      exact Iff.rfl
  · rw [hv] at hj
    split at hj
    · cases hj
    · exact h.named j ref' hj

end

theorem exec_indexed {s s' : Accounts} {a : Action} (hok : IndexOk s a) (hex : exec s a = some s')
    (h : Indexed s) : Indexed s' := by
  cases a with
  | createView =>
    obtain ⟨rfl, hn⟩ := hok
    cases hex
    exact indexed_createView h hn
  | dropView =>
    cases hex
    exact indexed_dropView h hok
  | add ref inferType numTokens prefixHitNumTokens requestId now =>
    obtain ⟨v, hv, rfl⟩ := map_eq_some_iff.1 hex
    cases ha : v.account requestId with
    | none => exact h.store (hok v hv ha) hv (tracks_addRequestLocalAccount (h.tracks (hok v hv ha) hv) ..)
    | some =>
      unfold addRequestLocalAccount
      simp only [ha]
      split
      · exact h.store_same hv rfl rfl fun _ _ => rfl
      · exact h.store_same hv rfl rfl fun _ q => isSome_secondAdd (by rw [ha]; rfl) _ rfl _ q
  | update instanceID status order now =>
    obtain ⟨ref, hvi, hex⟩ := bind_eq_some_iff.1 hex
    obtain ⟨v, hv, hex⟩ := bind_eq_some_iff.1 hex
    split at hex <;> cases hex
    have ht : Tracks (Holds s) instanceID (s.editor, { v with status := status }) :=
      (h.tracks hvi hv).of_same rfl rfl fun _ => rfl
    exact h.store hvi hv (tracks_updateInstanceStatusLocalAccount ht order now)
  | revert ref numTokens prefixHitNumTokens =>
    obtain ⟨v, hv, rfl⟩ := map_eq_some_iff.1 hex
    exact indexed_revert h hv numTokens prefixHitNumTokens hok
  | remove requestId =>
    cases hex
    exact indexed_remove h requestId

theorem indexed_init (stalenessSeconds : BitVec 32) (enableCacheAwareScheduling : Bool) :
    Indexed (Accounts.init stalenessSeconds enableCacheAwareScheduling) where
  listed := fun r i => by
    refine iff_of_false not_mem_nil ?_
    rintro ⟨ref, v, hr, -⟩
    cases hr
  nodup := fun _ => nodup_nil
  nonempty := fun _ => nofun
  named := fun i ref h => by cases h
  fresh := fun ref v h => by cases h

/-- **The index is consistent in every state that guarded calls reach.** -/
theorem indexConsistent_of_reaches {stalenessSeconds : BitVec 32}
    {enableCacheAwareScheduling : Bool} {s : Accounts}
    (h : Reaches exec IndexOk (Accounts.init stalenessSeconds enableCacheAwareScheduling) s) :
    IndexConsistent s :=
  (h.invariant (indexed_init _ _) fun _ _ _ hok hex => exec_indexed hok hex).toIndexConsistent

/-- A request on two instances; one of them confirms it, and the request is released. -/
def indexedRun : List Action :=
  [.createView "p" "p", .createView "d" "d",
    .add 0 .prefill 10 0 "r" 0, .add 1 .decode 10 0 "r" 0,
    .update "p" ⟨["r-0"], [], 0⟩ ["r"] (fun _ => 0)]

theorem indexConsistent_after_indexedRun :
    ∃ s, Reaches exec IndexOk (Accounts.init 60 false) s ∧ s.editor.instanceIds "r" = ["d"] ∧
      IndexConsistent s :=
  Reaches.exists_and (l := indexedRun) (by decide +kernel) fun _ => indexConsistent_of_reaches

/-- A request is dispatched to an instance, and the instance disappears. -/
def droppedRun : List Action :=
  [.createView "i" "i", .add 0 .prefill 10 0 "r" 0, .dropView "i"]

/-- **A dropped view stays listed**: its accounts are gone, and the index keeps the instance. -/
theorem dropped_view_stays_listed :
    ¬ ∀ s, Reaches exec free (Accounts.init 60 false) s → IndexConsistent s := by
  intro h
  have hru : ∃ s ∈ runAll exec free (Accounts.init 60 false) droppedRun,
      "i" ∈ s.editor.instanceIds "r" ∧ s.instanceViews.lookup "i" = none := by decide +kernel
  obtain ⟨s, hs, hl, hv⟩ := Reaches.of_exists hru
  obtain ⟨ref, v, hr, -⟩ := ((h s hs).listed "r" "i").1 hl
  cases hv.symm.trans hr

end Llumnix.Cms
