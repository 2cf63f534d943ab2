/-
**The views of the read client.**

The read client keeps statuses, views, and the views by type in tables that share objects with each other
and with the table of metadata.  They come apart in three ways.  A view keeps the metadata object it was
made with, but the table gets a new object when the value was missing for a while or when the instance left
and came back between two refreshes of the statuses.  The group of a view is the type the instance had when
the view was made.  And with `nil` in place of the metadata the refresh panics between making the status and
the view.

* `coherent_of_reaches` — **after every guarded refresh of the statuses the tables fit together**.
-/

import Llumnix.CmsClientSpec

namespace Llumnix.ReadClient

open FiniteMap GuardedRun CMSReadClient Option Finmap Nat

/-! ### The property -/

def InGroup (groups : Finmap fun _ : String => Finmap fun _ : String => Ref)
    (inferType id : String) (ref : Ref) : Prop :=
  ∃ views, groups.lookup inferType = some views ∧ views.lookup id = some ref

/-- **The tables fit together**: statuses and views have the same ids, a view has the metadata and the status
of its id, and the groups are the views by type, without empty groups. -/
structure Coherent (c : CMSReadClient) : Prop where
  sameIds : ∀ id, (c.instanceStatuses.lookup id).isSome = (c.instanceViews.lookup id).isSome
  current : ∀ id ref, c.instanceViews.lookup id = some ref →
    c.instanceMetadatas.lookup id = some (some (c.view ref).metadata) ∧
      c.instanceStatuses.lookup id = some (c.view ref).status
  grouped : ∀ inferType id ref, InGroup c.groupedInstanceViews inferType id ref ↔
    c.instanceViews.lookup id = some ref ∧
      (c.metadata (c.view ref).metadata).instanceType = inferType
  nonempty : ∀ inferType views, c.groupedInstanceViews.lookup inferType = some views →
    views.keys.card ≠ 0

/-- What a value leaves in the metadata object, if it is not missing. -/
def MetadataValue.content : MetadataValue → Option InstanceMetadata
  | .nil => none
  | .bytes m => some m
  | .garbled leftover => some leftover

def typeOf (c : CMSReadClient) (id : String) : Option String :=
  (c.instanceMetadatas.lookup id).join.map fun ref => (c.metadata ref).instanceType

/-- The instance has metadata, and a value does not change its type. -/
def KeepsType (c : CMSReadClient) (id : String) (value : MetadataValue) : Prop :=
  (typeOf c id).isSome = true ∧ value.content.map (·.instanceType) = typeOf c id

instance (c : CMSReadClient) (id : String) (value : MetadataValue) :
    Decidable (KeepsType c id value) := inferInstanceAs (Decidable (_ ∧ _))

/-- **The refreshes that keep the tables together.** -/
def CoherenceOk (s : State) : Action → Prop
  | .refreshMetadata (some r) _ => ∀ id ∈ r.instanceIDs,
      (s.client.instanceViews.lookup id).isSome = true → KeepsType s.client id (r.values id)
  | .refreshStatuses (some r) => ∀ id ∈ s.client.instanceIDs, (r.values id).isSome = true →
      s.client.instanceMetadatas.lookup id ≠ some none
  | _ => True

instance (s : State) : ∀ a, Decidable (CoherenceOk s a) := by
  intro a
  unfold CoherenceOk
  split <;> infer_instance

/-! ### Groups -/

section

variable {groups : Finmap fun _ : String => Finmap fun _ : String => Ref}

theorem inGroup_removeFromGroups (id inferType j : String) (ref : Ref) :
    InGroup (removeFromGroups groups id) inferType j ref ↔ InGroup groups inferType j ref ∧ j ≠ id := by
  simp only [InGroup, removeFromGroups, lookup_filterMapValues, bind_eq_some_iff]
  constructor
  · rintro ⟨views', ⟨views, hv, hk⟩, hj⟩
    split at hk <;> cases hk
    rw [lookup_erase_ite] at hj
    split at hj
    · cases hj
    · next hne => exact ⟨⟨views, hv, hj⟩, hne⟩
  · rintro ⟨⟨views, hv, hj⟩, hne⟩
    have hj' : (views.erase id).lookup j = some ref := (lookup_erase_ne hne).trans hj
    -- the group still has this view, so it stays
    have hc : (views.erase id).keys.card ≠ 0 := by
      refine Finset.card_ne_zero_of_mem (a := j) ?_
      rw [mem_keys, ← lookup_isSome, hj']
      rfl
    exact ⟨views.erase id, ⟨views, hv, if_neg hc⟩, hj'⟩

theorem inGroup_addToGroup {inferType id : String} {ref : Ref}
    (hne : ∀ inferType ref, ¬ InGroup groups inferType id ref) (inferType' j : String) (ref' : Ref) :
    InGroup (addToGroup groups inferType id ref) inferType' j ref' ↔
      (inferType' = inferType ∧ j = id ∧ ref' = ref) ∨ InGroup groups inferType' j ref' := by
  simp only [InGroup, addToGroup, lookup_insert_ite]
  by_cases ht : inferType' = inferType
  · subst ht
    simp only [if_true, some.injEq, exists_eq_left', lookup_insert_ite, true_and]
    by_cases hj : j = id
    · subst hj
      have hn : ∀ views, groups.lookup inferType' = some views → views.lookup j ≠ some ref' :=
        fun views hv hj => hne inferType' ref' ⟨views, hv, hj⟩
      simp only [if_true, some.injEq, true_and]
      constructor
      · exact fun h => .inl h.symm
      · rintro (h | ⟨views, hv, hj⟩)
        · exact h.symm
        · exact absurd hj (hn views hv)
    · cases hg : groups.lookup inferType' with
      | none | some => simp [hj]
  · simp [ht]

end

/-! ### The invariant -/

/-- **What every guarded refresh keeps.** Views and statuses go together; a view is in the group of the type
it was made with, and has the metadata object of its instance while that is announced. -/
structure Linked (c : CMSReadClient) : Prop extends Objects c where
  paired : ∀ id, c.instanceStatuses.lookup id =
    (c.instanceViews.lookup id).map fun ref => (c.view ref).status
  grouped : ∀ inferType id ref, InGroup c.groupedInstanceViews inferType id ref ↔
    c.instanceViews.lookup id = some ref ∧ (c.view ref).inst.inferType = inferType
  nonempty : ∀ inferType views, c.groupedInstanceViews.lookup inferType = some views →
    views.keys.card ≠ 0
  viewMade : ∀ id ref, c.instanceViews.lookup id = some ref → ref < c.nextRef
  announced : ∀ id, c.instanceMetadatas.lookup id ≠ none → id ∈ c.instanceIDs
  described : ∀ id ref, c.instanceViews.lookup id = some ref → id ∈ c.instanceIDs →
    c.instanceMetadatas.lookup id = some (some (c.view ref).metadata) ∧
      (c.metadata (c.view ref).metadata).instanceType = (c.view ref).inst.inferType

/-- Every view belongs to an instance that is announced. -/
def Present (c : CMSReadClient) : Prop :=
  ∀ id, c.instanceViews.lookup id ≠ none → id ∈ c.instanceIDs

section

variable {c c' : CMSReadClient} {id : String}
variable {order ids : List String}

section

variable (h : Linked c)
include h

theorem Linked.coherent (hp : Present c) : Coherent c where
  sameIds := fun id => by
    rw [h.paired, isSome_map]
  current := fun id ref hr => by
    have hid : id ∈ c.instanceIDs := hp id (by rw [hr]; exact nofun)
    refine ⟨(h.described id ref hr hid).1, ?_⟩
    rw [h.paired, hr]
    rfl
  grouped := fun inferType id ref => by
    rw [h.grouped]
    refine and_congr_right fun hr => ?_
    have hid : id ∈ c.instanceIDs := hp id (by rw [hr]; exact nofun)
    rw [(h.described id ref hr hid).2]
  nonempty := h.nonempty

/-- Changes that do not concern the tables: statuses get new contents, views are marked. -/
theorem Linked.of_same (hs : SameMetadata c c')
    (hst : c'.instanceStatuses = c.instanceStatuses) (hv : c'.instanceViews = c.instanceViews)
    (hg : c'.groupedInstanceViews = c.groupedInstanceViews)
    (hvi : ∀ ref, (c'.view ref).metadata = (c.view ref).metadata ∧
      (c'.view ref).status = (c.view ref).status ∧ (c'.view ref).inst = (c.view ref).inst) : Linked c' where
  toObjects := h.toObjects.congr hs.instanceMetadatas hs.nextRef
  paired := fun id => by
    simp only [hst, hv, (hvi _).2.1]
    exact h.paired id
  grouped := fun inferType id ref => by
    rw [hg, hv, (hvi ref).2.2]
    exact h.grouped inferType id ref
  nonempty := fun inferType views => by
    rw [hg]
    exact h.nonempty inferType views
  viewMade := fun id ref hr => by
    rw [hv] at hr
    exact lt_of_lt_of_le (h.viewMade id ref hr) hs.nextRef
  announced := fun id => by
    rw [hs.instanceMetadatas, hs.instanceIDs]
    exact h.announced id
  described := fun id ref hr hid => by
    rw [hv] at hr
    rw [hs.instanceIDs] at hid
    rw [hs.instanceMetadatas, hs.metadata, (hvi ref).1, (hvi ref).2.2]
    exact h.described id ref hr hid

theorem linked_dropInstance (id : String) : Linked (c.dropInstance id) := by
  have hv : ∀ j, (c.dropInstance id).instanceViews.lookup j =
      if j = id then none else c.instanceViews.lookup j := lookup_erase_ite _ _
  have hold : ∀ j ref, (c.dropInstance id).instanceViews.lookup j = some ref →
      c.instanceViews.lookup j = some ref := by
    intro j ref hr
    rw [hv] at hr
    split at hr
    · cases hr
    · exact hr
  refine ⟨⟨h.distinct, h.made⟩, fun j => ?_, fun inferType j ref => ?_, fun inferType views hg => ?_,
    fun j ref hr => h.viewMade j ref (hold j ref hr), h.announced,
    fun j ref hr => h.described j ref (hold j ref hr)⟩
  · refine (lookup_erase_ite _ _ _).trans ?_
    rw [hv]
    split
    · rfl
    · exact h.paired j
  · refine (inGroup_removeFromGroups id inferType j ref).trans ?_
    rw [h.grouped, hv]
    by_cases hj : j = id
    · simp [hj]
    · simp only [hj, if_false, ne_eq, not_false_eq_true, and_true]
      exact Iff.rfl
  · rw [dropInstance, removeFromGroups, lookup_filterMapValues, bind_eq_some_iff] at hg
    obtain ⟨views', -, hk⟩ := hg
    split at hk <;> cases hk
    next hc => exact hc

theorem linked_setReserved (role : Role) (id : String) : Linked (c.setReserved role id) := by
  refine h.of_same (sameMetadata_setReserved c role id) ?_ ?_ ?_ ?_ <;> cases role <;> first
    | rfl
    | exact fun _ => ⟨rfl, rfl, rfl⟩

theorem linked_release (id : String) (role : Role) : Linked (c.release id role) := by
  unfold release
  split
  · exact linked_setReserved h role ""
  · exact h

theorem linked_forgetStatus (id : String) : Linked (c.forgetStatus id) := by
  unfold forgetStatus
  split
  · exact h
  · exact linked_release (linked_release (linked_dropInstance h id) id .prefill) id .decode

theorem linked_writeStatus (ref : Ref) (st : InstanceStatus) : Linked (writeStatus c ref st) :=
  h.of_same ⟨rfl, rfl, rfl, rfl, rfl, le_refl _⟩ rfl rfl rfl fun _ => ⟨rfl, rfl, rfl⟩

theorem linked_reserve (role : Role) (id : String) : Linked (recover (c.reserve role id)) := by
  have hs := linked_setReserved h role id
  refine recover_reserve hs fun ref _ => ?_
  refine hs.of_same ⟨rfl, rfl, rfl, rfl, rfl, le_refl _⟩ rfl rfl rfl fun ref' => ?_
  by_cases hr : ref' = ref
  · subst hr
    simp [markView]
  · simp [markView, Function.update_of_ne hr]

/-- **A new view**: its instance had none, and has metadata. -/
theorem linked_createView {metadata : Ref} (hnn : c.instanceStatuses.lookup id = none)
    (hm : c.instanceMetadatas.lookup id = some (some metadata)) :
    Linked ((c.createStatus id).createView id metadata c.nextRef) := by
  have hn : c.instanceViews.lookup id = none := by
    have hp := h.paired id
    rw [hnn] at hp
    exact map_eq_none_iff.1 hp.symm
  have hno : ∀ inferType ref, ¬ InGroup c.groupedInstanceViews inferType id ref := by
    intro inferType ref hin
    cases hn.symm.trans (((h.grouped inferType id ref).1 hin).1)
  obtain ⟨hv, hst, hs, hk, hma⟩ := createView_spec c id metadata rfl h.viewMade
  have hold := fun j ref hr => (hk j ref hr).2
  have hsa := (sameMetadata_createStatus c id).trans
    (sameMetadata_createView (c.createStatus id) id metadata c.nextRef)
  refine ⟨h.toObjects.congr hsa.instanceMetadatas hsa.nextRef, fun j => ?_,
    fun inferType j ref => ?_, fun inferType views hg => ?_, hma, h.announced,
    fun j ref hr hj => ?_⟩
  · rw [hv, hst]
    split
    · rw [map_some, hs]
    · rw [h.paired]
      cases hr : c.instanceViews.lookup j with
      | none => rfl
      | some ref => rw [map_some, map_some, hold j ref hr]
  · refine (inGroup_addToGroup hno inferType j ref).trans ?_
    have hg := h.grouped inferType j ref
    rw [hg, hv]
    by_cases hj : j = id
    · subst hj
      rw [if_pos rfl, some.injEq, hn]
      constructor
      · rintro (⟨rfl, -, rfl⟩ | ⟨hr, -⟩)
        · exact ⟨rfl, congrArg (fun v : InstanceView => v.inst.inferType) hs⟩
        · cases hr
      · rintro ⟨rfl, rfl⟩
        rw [hs]
        exact .inl ⟨rfl, rfl, rfl⟩
    · rw [if_neg hj]
      constructor
      · rintro (⟨-, hj', -⟩ | ⟨hr, ht⟩)
        · exact absurd hj' hj
        · exact ⟨hr, by rw [hold j ref hr, ht]⟩
      · rintro ⟨hr, ht⟩
        rw [hold j ref hr] at ht
        exact .inr ⟨hr, ht⟩
  · change (addToGroup _ _ _ _).lookup _ = _ at hg
    rw [addToGroup, lookup_insert_ite] at hg
    split at hg
    · cases hg
      refine Finset.card_ne_zero_of_mem (a := id) ?_
      rw [mem_keys, ← lookup_isSome, lookup_insert]
      rfl
    · exact h.nonempty inferType views hg
  · rw [hv] at hr
    split at hr
    · next hjd =>
      cases hr
      rw [hs, hjd]
      exact ⟨hm, rfl⟩
    · rw [hold j ref hr]
      exact h.described j ref hr hj

end

/-! ### A refresh of the statuses -/

/-- **What a loop over the instances that have gone leaves**: entries of announced instances. -/
theorem announced_of_foldl {V : Type} (table : CMSReadClient → Finmap fun _ : String => V)
    {turn : CMSReadClient → String → CMSReadClient} (hi : ∀ c i, (turn c i).instanceIDs = c.instanceIDs)
    (ht : ∀ c i j, (table (turn c i)).lookup j =
      if j = i ∧ i ∉ c.instanceIDs then none else (table c).lookup j)
    (hor : Enumerates order (table c).keys) (id : String)
    (he : (table (order.foldl turn c)).lookup id ≠ none) : id ∈ c.instanceIDs := by
  have hlo : ∀ (order : List String) (c : CMSReadClient),
      (table (order.foldl turn c)).lookup id ≠ none → id ∉ c.instanceIDs →
        (table c).lookup id ≠ none ∧ id ∉ order := by
    intro order
    induction order with
    | nil => exact fun c he _ => ⟨he, List.not_mem_nil⟩
    | cons i order ih =>
    intro c he hid
    obtain ⟨hs, ho⟩ := ih (turn c i) he (by rw [hi]; exact hid)
    rw [ht] at hs
    split at hs
    · exact absurd rfl hs
    · next hn =>
      refine ⟨hs, fun hm => ?_⟩
      rcases List.mem_cons.1 hm with rfl | hm
      · exact hn ⟨rfl, hid⟩
      · exact ho hm
  by_contra hid
  obtain ⟨hl, ho⟩ := hlo order c he hid
  refine ho ((hor.2 id).2 ?_)
  rw [mem_keys, ← lookup_isSome]
  exact isSome_iff_ne_none.2 hl

theorem lookup_forgetStatus (c : CMSReadClient) (i j : String) :
    (c.forgetStatus i).instanceStatuses.lookup j =
      if j = i ∧ i ∉ c.instanceIDs then none else c.instanceStatuses.lookup j := by
  have hr : ∀ (c : CMSReadClient) (role : Role),
      (c.release i role).instanceStatuses = c.instanceStatuses := by
    intro c role
    unfold release
    cases role <;> split <;> rfl
  unfold forgetStatus instanceIDsSet
  by_cases hi : i ∈ c.instanceIDs
  · simp [hi]
  · rw [if_neg (by simpa using hi), hr, hr, dropInstance, lookup_erase_ite]
    simp [hi]

/-- **A guarded refresh of the statuses keeps the tables together**, and afterwards every view belongs to an
announced instance. -/
theorem linked_refreshStatuses (h : Linked c) {r : StatusRead}
    (ho : Enumerates r.order c.instanceStatuses.keys)
    (hok : ∀ id ∈ c.instanceIDs, (r.values id).isSome = true → c.instanceMetadatas.lookup id ≠ some none) :
    Linked (recover (c.refreshStatuses r)) ∧ Present (recover (c.refreshStatuses r)) := by
  have hsr : Linked { c with isAlive := true } :=
    h.of_same ⟨rfl, rfl, rfl, rfl, rfl, le_refl _⟩ rfl rfl rfl fun _ => ⟨rfl, rfl, rfl⟩
  obtain ⟨hl, hs⟩ := foldl_keeps (P := fun c' => Linked c' ∧ SameMetadata c c') r.order
    (fun c' i _ hc' => ⟨linked_forgetStatus hc'.1 i, hc'.2.trans (sameMetadata_forgetStatus c' i)⟩)
    { c with isAlive := true } ⟨hsr, ⟨rfl, rfl, rfl, rfl, rfl, le_refl _⟩⟩
  have hp : Present (r.order.foldl forgetStatus { c with isAlive := true }) := by
    intro id hv
    rw [hs.instanceIDs]
    refine announced_of_foldl instanceStatuses (c := { c with isAlive := true })
      (fun c i => (sameMetadata_forgetStatus c i).instanceIDs) lookup_forgetStatus ho _ ?_
    rw [hl.paired]
    exact fun hn => hv (map_eq_none_iff.1 hn)
  -- the turns of the second loop, of which none leaves a status without a view
  refine (recover_loop (P := fun c' => (Linked c' ∧ Present c') ∧ SameMetadata c c') c.instanceIDs
    ?_ _ ⟨⟨hl, hp⟩, hs⟩).1
  rintro c' i hi ⟨⟨hl, hp⟩, hs⟩
  refine ⟨?_, hs.trans (sameMetadata_updateStatus c' r i)⟩
  refine recover_updateStatus (P := fun c => Linked c ∧ Present c) ⟨hl, hp⟩
    (fun _ => ?_) (fun buffer hv _ hni => ?_) (fun buffer ref _ hn hm => ?_)
    fun c'' ref _ _ hc'' _ _ => ?_
  · refine ⟨linked_dropInstance hl i, fun j hj => hp j fun hn => hj ?_⟩
    refine (lookup_erase_ite _ _ _).trans ?_
    rw [hn, ite_self]
  · rw [hs.instanceMetadatas] at hni
    exact absurd hni (hok i hi (by rw [hv]; rfl))
  · refine ⟨linked_createView hl hn hm, fun j hj => ?_⟩
    change j ∈ c'.instanceIDs
    by_cases hji : j = i
    · rw [hji, hs.instanceIDs]
      exact hi
    · refine hp j fun hn' => hj ?_
      exact (lookup_insert_of_ne _ hji).trans hn'
  · exact ⟨linked_writeStatus hc''.1 ref _, hc''.2⟩

/-! ### A refresh of the metadata -/

/-- What the loops of a metadata refresh keep: an announced instance with a view keeps its metadata object and
type. -/
structure Describes (c : CMSReadClient) (ids : List String) (c' : CMSReadClient) : Prop
    extends Objects c', SameViews c c' where
  instanceIDs : c'.instanceIDs = ids
  nextRef : c.nextRef ≤ c'.nextRef
  described : ∀ id ref, c.instanceViews.lookup id = some ref → id ∈ ids →
    c'.instanceMetadatas.lookup id = some (some (c.view ref).metadata) ∧
      (c'.metadata (c.view ref).metadata).instanceType = (c.view ref).inst.inferType

theorem describes_forgetMetadata (h : Describes c ids c') (id : String) :
    Describes c ids (c'.forgetMetadata id) := by
  obtain ⟨hv, hi, ho, hn, hl⟩ := forgetMetadata_spec c' id
  refine ⟨h.toObjects.of_subset (fun j ref hj => ?_) (le_of_eq hn.symm),
    h.toSameViews.trans hv, hi.trans h.instanceIDs, hn ▸ h.nextRef,
    fun j ref hr hj => ?_⟩
  · rw [hl] at hj
    split at hj
    · cases hj
    · exact hj
  · have hs : ¬ (j = id ∧ id ∉ c'.instanceIDsSet) := by
      rintro ⟨rfl, hg⟩
      exact hg (List.mem_toFinset.2 (h.instanceIDs.symm ▸ hj))
    rw [hl, if_neg hs, ho]
    exact h.described j ref hr hj

/-- Writing the metadata of an instance: if it has a view, the type must stay. -/
theorem describes_writeMetadata (h : Describes c ids c') (id : String) (m : InstanceMetadata)
    (ht : ∀ ref, c.instanceViews.lookup id = some ref → m.instanceType = (c.view ref).inst.inferType) :
    Describes c ids (c'.writeMetadata id m) := by
  obtain ⟨ref₀, hl, ho, hot, hs, hn, -⟩ := writeMetadata_spec h.toObjects id m
  refine ⟨objects_writeMetadata h.toObjects id m, h.toSameViews.trans (sameViews_writeMetadata c' id m),
    (sameIndex_writeMetadata c' id m).2.2.trans h.instanceIDs, le_trans h.nextRef hn,
    fun j ref hr hj => ?_⟩
  obtain ⟨he, hold⟩ := h.described j ref hr hj
  rw [hl, ho]
  by_cases hji : j = id
  · subst hji
    have hsa := hs _ he
    rw [if_pos rfl, hsa, Function.update_self]
    exact ⟨rfl, ht ref hr⟩
  · rw [if_neg hji, Function.update_of_ne (hot j _ hji he)]
    exact ⟨he, hold⟩

theorem describes_updateMetadata (h : Describes c ids c') {values : String → MetadataValue}
    (hk : ∀ ref, c.instanceViews.lookup id = some ref → ∃ m, (values id).content = some m ∧
      m.instanceType = (c.view ref).inst.inferType) : Describes c ids (c'.updateMetadata values id) := by
  have hw : ∀ m, (values id).content = some m → Describes c ids (c'.writeMetadata id m) := by
    refine fun m hm => describes_writeMetadata h id m fun ref hr => ?_
    obtain ⟨m', hm', ht⟩ := hk ref hr
    exact some.inj (hm'.symm.trans hm) ▸ ht
  unfold updateMetadata
  cases hv : values id with
  | nil =>
    refine ⟨h.toObjects.unset id (.inr rfl) rfl, h.toSameViews.trans ⟨rfl, rfl, rfl, rfl, rfl, rfl⟩,
      h.instanceIDs, h.nextRef, fun j ref hr hj => ?_⟩
    have hji : j ≠ id := by
      rintro rfl
      obtain ⟨m, hm, -⟩ := hk ref hr
      rw [hv] at hm
      cases hm
    rw [lookup_insert_of_ne _ hji]
    exact h.described j ref hr hj
  | garbled m => exact hw m (by rw [hv]; rfl)
  | bytes m =>
  have hw := hw m (by rw [hv]; rfl)
  obtain ⟨hvi, hi, hme, ho, hn⟩ := moveIP_spec (c'.writeMetadata id m) id (c'.oldIP id) m.ipKvs
  refine ⟨hw.toObjects.congr hme (le_of_eq hn.symm), hw.toSameViews.trans hvi, hi.trans hw.instanceIDs,
    hn ▸ hw.nextRef, fun j ref hr hj => ?_⟩
  rw [hme, ho]
  exact hw.described j ref hr hj

theorem lookup_updateMetadata_of_ne (h : Objects c) (values : String → MetadataValue) {j : String}
    (hj : j ≠ id) :
    (c.updateMetadata values id).instanceMetadatas.lookup j = c.instanceMetadatas.lookup j := by
  have hw : ∀ m, (c.writeMetadata id m).instanceMetadatas.lookup j = c.instanceMetadatas.lookup j := by
    intro m
    obtain ⟨ref, hl, -⟩ := writeMetadata_spec h id m
    rw [hl, if_neg hj]
  unfold updateMetadata
  split
  · exact lookup_insert_of_ne _ hj
  · exact hw _
  · next m _ =>
    obtain ⟨-, -, hm, -⟩ := moveIP_spec (c.writeMetadata id m) id (c.oldIP id) m.ipKvs
    rw [hm]
    exact hw m

theorem linked_of_describes (h : Linked c) (hc' : Describes c ids c')
    (hk : ∀ id, c'.instanceMetadatas.lookup id ≠ none → id ∈ ids) : Linked c' where
  toObjects := hc'.toObjects
  paired := fun id => by
    rw [hc'.instanceStatuses, hc'.instanceViews, hc'.view]
    exact h.paired id
  grouped := fun inferType id ref => by
    rw [hc'.groupedInstanceViews, hc'.instanceViews, hc'.view]
    exact h.grouped inferType id ref
  nonempty := fun inferType views => by
    rw [hc'.groupedInstanceViews]
    exact h.nonempty inferType views
  viewMade := fun id ref hr => by
    rw [hc'.instanceViews] at hr
    exact lt_of_lt_of_le (h.viewMade id ref hr) hc'.nextRef
  announced := fun id he => hc'.instanceIDs ▸ hk id he
  described := fun id ref hr hid => by
    rw [hc'.instanceViews] at hr
    rw [hc'.instanceIDs] at hid
    rw [hc'.view]
    exact hc'.described id ref hr hid

theorem Linked.keepsType (h : Linked c) {value : MetadataValue} (hk : KeepsType c id value)
    {ref : Ref} (hr : c.instanceViews.lookup id = some ref) :
    (c.instanceMetadatas.lookup id = some (some (c.view ref).metadata) ∧
      (c.metadata (c.view ref).metadata).instanceType = (c.view ref).inst.inferType) ∧
    ∃ m, value.content = some m ∧ m.instanceType = (c.view ref).inst.inferType := by
  obtain ⟨hso, hs⟩ := hk
  obtain ⟨inferType, ht⟩ := isSome_iff_exists.1 hso
  rw [ht] at hs
  obtain ⟨m, hm, hmt⟩ := map_eq_some_iff.1 hs
  obtain ⟨ref', hr', ht'⟩ := map_eq_some_iff.1 ht
  have he : c.instanceMetadatas.lookup id = some (some ref') := join_eq_some_iff.1 hr'
  have hid : id ∈ c.instanceIDs := h.announced id (by rw [he]; exact nofun)
  obtain ⟨hme, hma⟩ := h.described id ref hr hid
  cases he.symm.trans hme
  exact ⟨⟨hme, hma⟩, m, hm, hmt.trans (ht'.symm.trans hma)⟩

/-- **A guarded refresh of the metadata keeps the tables together.** -/
theorem linked_refreshInstanceMetadata (h : Linked c) {r : MetadataRead}
    (ho : Enumerates order c.instanceMetadatas.keys)
    (hok : ∀ id ∈ r.instanceIDs, (c.instanceViews.lookup id).isSome = true →
      KeepsType c id (r.values id)) : Linked (c.refreshInstanceMetadata r order) := by
  have hke : ∀ id ref, c.instanceViews.lookup id = some ref → id ∈ r.instanceIDs → _ :=
    fun id ref hr hid => h.keepsType (hok id hid (by rw [hr]; rfl)) hr
  have hf := foldl_keeps (P := Describes c r.instanceIDs) order
    (fun c' i _ hc' => describes_forgetMetadata hc' i)
    { c with isAlive := true, instanceIDs := r.instanceIDs }
    ⟨h.toObjects.congr rfl (le_refl _), ⟨rfl, rfl, rfl, rfl, rfl, rfl⟩, rfl, le_refl _,
      fun id ref hr hid => (hke id ref hr hid).1⟩
  have hk := announced_of_foldl instanceMetadatas
    (c := { c with isAlive := true, instanceIDs := r.instanceIDs })
    (fun c' i => (forgetMetadata_spec c' i).2.1) (by
      intro c' i j
      obtain ⟨-, -, -, -, hl⟩ := forgetMetadata_spec c' i
      rw [hl, instanceIDsSet]
      simp only [List.mem_toFinset]) ho
  obtain ⟨hla, hk⟩ := foldl_keeps (P := fun c' => Describes c r.instanceIDs c' ∧
      ∀ id, c'.instanceMetadatas.lookup id ≠ none → id ∈ r.instanceIDs) r.instanceIDs (by
    rintro c' i hi ⟨hde, hk⟩
    refine ⟨describes_updateMetadata hde fun ref hr => (hke i ref hr hi).2, ?_⟩
    intro id he
    by_cases hii : id = i
    · exact hii ▸ hi
    · rw [lookup_updateMetadata_of_ne hde.toObjects r.values hii] at he
      exact hk id he) _ ⟨hf, hk⟩
  exact linked_of_describes h hla hk

end

/-! ### Runs -/

/-- **Every guarded step keeps the tables together**, and after a refresh of the statuses views belong to
announced instances. -/
theorem linked_exec {s t : State} {a : Action} (hok : CoherenceOk s a) (hex : exec s a = some t)
    (h : Linked s.client ∧ (s.phase = .idle false ∨ Present s.client)) :
    Linked t.client ∧ (t.phase = .idle false ∨ Present t.client) := by
  obtain ⟨hl, hp⟩ := h
  rcases exec_cases hex with rfl | ⟨r, order, rfl, ho, rfl⟩ | ⟨r, rfl, ho, -, hc, -⟩ |
    ⟨order, rfl, hph, -, rfl⟩
  · refine ⟨hl.of_same ⟨rfl, rfl, rfl, rfl, rfl, le_refl _⟩ rfl rfl rfl ?_, .inl rfl⟩
    exact fun _ => ⟨rfl, rfl, rfl⟩
  · exact ⟨linked_refreshInstanceMetadata hl ho hok, .inl rfl⟩
  · obtain ⟨hl', hp'⟩ := linked_refreshStatuses hl ho hok
    rw [hc]
    exact ⟨hl', .inr hp'⟩
  · have hp : Present s.client := by
      rcases hp with hi | hp
      · cases hph.symm.trans hi
      · exact hp
    refine (recover_setReservedInstance (P := fun c => Linked c ∧ Present c) ?_ ⟨hl, hp⟩).imp_right .inr
    rintro c role i ⟨hl, hp⟩
    refine ⟨linked_reserve hl role i, ?_⟩
    refine recover_reserve ?_ fun ref _ => ?_ <;> cases role <;> exact hp

theorem linked_start (enableAdaptivePD : Bool) : Linked (State.start enableAdaptivePD).client where
  distinct := fun i j ref h => by cases h
  made := fun i ref h => by cases h
  paired := fun id => rfl
  grouped := fun inferType id ref => by
    refine iff_of_false ?_ ?_
    · rintro ⟨views, hv, -⟩
      cases hv
    · rintro ⟨hr, -⟩
      cases hr
  nonempty := fun inferType views h => by cases h
  viewMade := fun id ref h => by cases h
  announced := fun id h => absurd rfl h
  described := fun id ref h => by cases h

/-- **After every guarded refresh of the statuses that could read them the tables fit together.** -/
theorem coherent_of_reaches {enableAdaptivePD : Bool} {s : State}
    (h : Reaches exec CoherenceOk (State.start enableAdaptivePD) s) (hphase : s.phase = .idle true) :
    Coherent s.client := by
  obtain ⟨hl, hp⟩ := h.invariant
    (I := fun s => Linked s.client ∧ (s.phase = .idle false ∨ Present s.client))
    ⟨linked_start _, .inl rfl⟩ fun _ _ _ hok hex => linked_exec hok hex
  refine hl.coherent ?_
  rcases hp with hi | hp
  · cases hphase.symm.trans hi
  · exact hp

/-- The status of an instance that is busy with nothing. -/
def sampleStatus (updateId timestampMs : Int) : InstanceStatus :=
  { InstanceStatus.initial with updateId := updateId, timestampMs := timestampMs }

/-- A refresh of the statuses in which the given instances have one. -/
def statusRead (ids : List String) (timestampMs : Int) (order : List String) : StatusRead where
  values := fun id => if id ∈ ids then some (sampleStatus timestampMs timestampMs) else none
  correction := fun _ => id
  recorderPanics := fun _ => false
  order := order

/-- A refresh of the metadata in which the given instances have a type. -/
def metadataRead (types : List (String × String)) : MetadataRead where
  instanceIDs := types.map Prod.fst
  values := fun id => .bytes
    { InstanceMetadata.empty with instanceType := ((types.find? (·.1 = id)).map Prod.snd).getD "" }

/-- Two instances appear, one loses its status and the other one leaves. -/
def coherentRun : List Action :=
  [.refreshMetadata (some (metadataRead [("p", "prefill"), ("d", "decode")])) [],
    .refreshStatuses (some (statusRead ["p", "d"] 1 [])),
    .refreshMetadata (some (metadataRead [("p", "prefill")])) ["p", "d"],
    .refreshStatuses (some (statusRead ["p"] 2 ["d", "p"]))]

theorem coherent_after_coherentRun :
    ∃ s, Reaches exec CoherenceOk (State.start false) s ∧ s.phase = .idle true ∧
      s.client.groupedInstanceViews.keys = {"prefill"} ∧ Coherent s.client := by
  have hru : ∃ s ∈ runAll exec CoherenceOk (State.start false) coherentRun,
      s.phase = .idle true ∧ s.client.groupedInstanceViews.keys = {"prefill"} := by decide +kernel
  obtain ⟨s, hs, hp, hg⟩ := Reaches.of_exists hru
  exact ⟨s, hs, hp, hg, coherent_of_reaches hs hp⟩

/-- The metadata of an instance has no value yet, and its status has one. -/
def orphanRun : List Action :=
  [.refreshMetadata (some ⟨["a"], fun _ => .nil⟩) [],
    .refreshStatuses (some (statusRead ["a"] 1 []))]

/-- **A status without a view**: the refresh makes the status, panics on the metadata, and recovers. -/
theorem status_without_view :
    ¬ ∀ s, Reaches exec free (State.start false) s → s.phase = .idle true → Coherent s.client := by
  intro h
  have hru : ∃ s ∈ runAll exec free (State.start false) orphanRun, s.phase = .idle true ∧
      (s.client.instanceStatuses.lookup "a").isSome = true ∧
        (s.client.instanceViews.lookup "a").isSome = false := by decide +kernel
  obtain ⟨s, hs, hp, hst, hv⟩ := Reaches.of_exists hru
  have hsa := (h s hs hp).sameIds "a"
  rw [hst, hv] at hsa
  cases hsa

end Llumnix.ReadClient
