/-
**How the refreshes of the read client are composed.**

The refreshes of `Llumnix/CmsClient.lean` are loops over loops, and a panic may end them anywhere.  This
module says once which elementary changes they are made of, with rules that carry a property of the client
through them: it is enough that the elementary changes keep it.
-/

import Llumnix.CmsClient

namespace Llumnix.ReadClient

open FiniteMap CMSReadClient Option Nat Function

variable {P : CMSReadClient → Prop} {c : CMSReadClient}
variable {i : String} {r : StatusRead} {c' c'' : CMSReadClient}

/-! ### Loops -/

/-- **A loop keeps what each of its turns keeps**, also if one of them panics. -/
theorem recover_loop {turn : CMSReadClient → String → Except CMSReadClient CMSReadClient}
    (ids : List String) (ht : ∀ c i, i ∈ ids → P c → P (recover (turn c i))) :
    ∀ c, P c → P (recover (loop turn ids c)) := by
  induction ids with
  | nil => exact fun c h => h
  | cons i ids ih =>
  intro c h
  have hf := ht c i List.mem_cons_self h
  rw [loop]
  split
  · next c' hc' =>
    rw [hc'] at hf
    exact hf
  · next c' hc' =>
    rw [hc'] at hf
    exact ih (fun c j hj => ht c j (List.mem_cons_of_mem _ hj)) c' hf

theorem foldl_keeps {turn : CMSReadClient → String → CMSReadClient} (ids : List String)
    (ht : ∀ c i, i ∈ ids → P c → P (turn c i)) : ∀ c, P c → P (ids.foldl turn c) :=
  fun _ h => ids.foldlRecOn turn h fun c hc i hi => ht c i hi hc

/-! ### Statuses -/

def writeStatus (c : CMSReadClient) (ref : Ref) (st : InstanceStatus) : CMSReadClient :=
  { c with status := update c.status ref st }

theorem recover_storeStatus {buffer : InstanceStatus} (hk : P c)
    (hw : ∀ ref, c.instanceStatuses.lookup i = some ref → (c.status ref).timestampMs < buffer.timestampMs →
        P (writeStatus c ref (mergeStatus (c.status ref) buffer (r.correction i)))) :
    P (recover (c.storeStatus i buffer r)) := by
  unfold storeStatus
  split
  · exact hk
  rename_i ref hr
  split
  · exact hk
  · next hn =>
    have hs := hw ref hr (Int.not_le.1 hn)
    split
    · exact hs
    · split
      · exact hs
      · exact hs

/-- **What a turn of the refresh can do**: drop the instance, make its status, make its view, store a status.
-/
theorem recover_updateStatus (hk : P c) (hdr : r.values i = none → P (c.dropInstance i))
    (ho : ∀ buffer, r.values i = some buffer → c.instanceStatuses.lookup i = none →
      c.instanceMetadatas.lookup i = some none → P (c.createStatus i))
    (hc : ∀ buffer ref, r.values i = some buffer → c.instanceStatuses.lookup i = none →
      c.instanceMetadatas.lookup i = some (some ref) → P ((c.createStatus i).createView i ref c.nextRef))
    (hw : ∀ c' ref buffer, r.values i = some buffer → P c' →
      c'.instanceStatuses.lookup i = some ref → (c'.status ref).timestampMs < buffer.timestampMs →
        P (writeStatus c' ref (mergeStatus (c'.status ref) buffer (r.correction i)))) :
    P (recover (c.updateStatus r i)) := by
  unfold updateStatus
  split
  · next hn => exact hdr hn
  rename_i buffer hs
  split
  · exact hk
  rename_i metadata hm
  unfold ensureView
  cases hst : c.instanceStatuses.lookup i with
  | some ref => exact recover_storeStatus hk fun ref => hw c ref buffer hs hk
  | none =>
    cases metadata with
    | none => exact ho buffer hs hst hm
    | some ref =>
      have hma := hc buffer ref hs hst hm
      exact recover_storeStatus hma fun ref => hw _ ref buffer hs hma

/-- **A refresh of the statuses keeps what its turns keep.** -/
theorem recover_refreshStatuses (hs : P { c with isAlive := true })
    (hf : ∀ c' i, i ∈ r.order → P c' → P (c'.forgetStatus i))
    (ht : ∀ c' i, i ∈ c.instanceIDs → P c' → P (recover (c'.updateStatus r i))) :
    P (recover (c.refreshStatuses r)) :=
  recover_loop _ ht _ (foldl_keeps _ hf _ hs)

/-- **A new view**: the tables get an entry for it, and the older views stay as they are. -/
theorem createView_spec (c : CMSReadClient) (id : String) (metadata : Ref)
    (hc' : c' = (c.createStatus id).createView id metadata c.nextRef)
    (hm : ∀ j ref, c.instanceViews.lookup j = some ref → ref < c.nextRef) :
    (∀ j, c'.instanceViews.lookup j = if j = id then some (c.nextRef + 1) else c.instanceViews.lookup j) ∧
    (∀ j, c'.instanceStatuses.lookup j = if j = id then some c.nextRef else c.instanceStatuses.lookup j) ∧
    c'.view (c.nextRef + 1) = ⟨metadata, c.nextRef, newViewInstance (c.metadata metadata), .unset⟩ ∧
    (∀ j ref, c.instanceViews.lookup j = some ref → ref ≠ c.nextRef + 1 ∧ c'.view ref = c.view ref) ∧
    ∀ j ref, c'.instanceViews.lookup j = some ref → ref < c'.nextRef := by
  subst hc'
  have hl : ∀ j, ((c.createStatus id).createView id metadata c.nextRef).instanceViews.lookup j =
      if j = id then some (c.nextRef + 1) else c.instanceViews.lookup j :=
    fun j => lookup_insert_ite _ _ _ _
  refine ⟨hl, fun j => lookup_insert_ite _ _ _ _, update_self _ _ _, fun j ref hr => ?_, fun j ref hr => ?_⟩
  · have hne : ref ≠ c.nextRef + 1 := Nat.ne_of_lt (Nat.lt_succ_of_lt (hm j ref hr))
    exact ⟨hne, update_of_ne hne _ _⟩
  · change ref < c.nextRef + 1 + 1
    rw [hl] at hr
    split at hr
    · cases hr
      exact lt_succ_self _
    · exact Nat.lt_succ_of_lt (Nat.lt_succ_of_lt (hm j ref hr))

/-! ### Roles leave the tables alone -/

structure SameTables (c c' : CMSReadClient) : Prop where
  instanceStatuses : c'.instanceStatuses = c.instanceStatuses
  status : c'.status = c.status
  instanceViews : c'.instanceViews = c.instanceViews
  view : c'.view = c.view
  nextRef : c'.nextRef = c.nextRef

theorem SameTables.refl (c : CMSReadClient) : SameTables c c := ⟨rfl, rfl, rfl, rfl, rfl⟩

theorem SameTables.trans (h : SameTables c c') (h' : SameTables c' c'') : SameTables c c'' where
  instanceStatuses := h'.instanceStatuses.trans h.instanceStatuses
  status := h'.status.trans h.status
  instanceViews := h'.instanceViews.trans h.instanceViews
  view := h'.view.trans h.view
  nextRef := h'.nextRef.trans h.nextRef

theorem setReserved_tables (c : CMSReadClient) (role : Role) (id : String) :
    SameTables c (c.setReserved role id) := by
  cases role <;> exact ⟨rfl, rfl, rfl, rfl, rfl⟩

theorem release_tables (c : CMSReadClient) (id : String) (role : Role) :
    SameTables c (c.release id role) := by
  unfold release
  split
  · exact setReserved_tables c role ""
  · exact SameTables.refl c

/-! ### The reservation -/

def markView (c : CMSReadClient) (ref : Ref) (role : Role) : CMSReadClient :=
  { c with
    view := update c.view ref { c.view ref with reservedInferType := role.inferType } }

theorem recover_reserve {role : Role} (ho : P (c.setReserved role i))
    (hm : ∀ ref, (c.setReserved role i).instanceViews.lookup i = some ref →
      P (markView (c.setReserved role i) ref role)) : P (recover (c.reserve role i)) := by
  unfold reserve
  dsimp only
  split
  · exact ho
  · next ref hr => exact hm ref hr

section

variable (hreserve : ∀ c role i, P c → P (recover (CMSReadClient.reserve c role i)))
include hreserve

theorem recover_reserveTurn {i : String} (h : P c) : P (recover (c.reserveTurn i)) := by
  have hf : P (recover (if (c.statusOf i).decodeIdle && c.reservedDecodeInstance = ""
      then c.reserve .decode i else .ok c)) := by
    split
    · exact hreserve c .decode i h
    · exact h
  unfold reserveTurn
  dsimp only
  split
  · next c' hc' =>
    rw [hc'] at hf
    exact hf
  · next c' hc' =>
    rw [hc'] at hf
    split
    · exact hreserve c' .prefill i hf
    · exact hf

/-- The client after a scan, whether it panicked, stopped early or saw everything. -/
def recoverScan : Except CMSReadClient (CMSReadClient × Option Scan) → CMSReadClient
  | .error c => c
  | .ok (c, _) => c

theorem recoverScan_scanStatuses (ids : List String) :
    ∀ (c : CMSReadClient) (scan : Scan), P c → P (recoverScan (scanStatuses ids c scan)) := by
  induction ids with
  | nil => exact fun c scan h => h
  | cons i ids ih =>
  intro c scan h
  have ht := recover_reserveTurn hreserve (i := i) h
  rw [scanStatuses]
  split
  · next c' hc' =>
    rw [hc'] at ht
    exact ht
  · next c' hc' =>
    rw [hc'] at ht
    split
    · exact ht
    · exact ih c' _ ht

theorem recover_fallBack {role : Role} {i : String} (h : P c) : P (recover (c.fallBack role i)) := by
  unfold fallBack
  split
  · exact hreserve c role i h
  · exact h

/-- **The reservation keeps what reserving an instance keeps.** -/
theorem recover_setReservedInstance {order : List String} (h : P c) :
    P (recover (c.setReservedInstance order)) := by
  unfold setReservedInstance
  split
  · exact h
  have hs := recoverScan_scanStatuses hreserve order c .start h
  split
  · next c' hc' =>
    rw [hc'] at hs
    exact hs
  · next c' hc' =>
    rw [hc'] at hs
    exact hs
  rename_i c' scan hc'
  rw [hc'] at hs
  have hde : P (recover (c'.fallBack .decode scan.leastBusyDecodeInstanceId)) :=
    recover_fallBack hreserve hs
  split
  · next c'' hc'' =>
    rw [hc''] at hde
    exact hde
  · next c'' hc'' =>
    rw [hc''] at hde
    exact recover_fallBack hreserve hde

end

/-! ### Metadata -/

/-- The metadata, the index of addresses and the list of ids are the same. -/
structure SameMetadata (c c' : CMSReadClient) : Prop where
  instanceIDs : c'.instanceIDs = c.instanceIDs
  instanceMetadatas : c'.instanceMetadatas = c.instanceMetadatas
  metadata : c'.metadata = c.metadata
  ipToInstanceIDs : c'.ipToInstanceIDs = c.ipToInstanceIDs
  instanceIDToIP : c'.instanceIDToIP = c.instanceIDToIP
  nextRef : c.nextRef ≤ c'.nextRef

theorem SameMetadata.refl (c : CMSReadClient) : SameMetadata c c := ⟨rfl, rfl, rfl, rfl, rfl, le_refl _⟩

theorem SameMetadata.trans (h : SameMetadata c c') (h' : SameMetadata c' c'') : SameMetadata c c'' where
  instanceIDs := h'.instanceIDs.trans h.instanceIDs
  instanceMetadatas := h'.instanceMetadatas.trans h.instanceMetadatas
  metadata := h'.metadata.trans h.metadata
  ipToInstanceIDs := h'.ipToInstanceIDs.trans h.ipToInstanceIDs
  instanceIDToIP := h'.instanceIDToIP.trans h.instanceIDToIP
  nextRef := le_trans h.nextRef h'.nextRef

theorem sameMetadata_setReserved (c : CMSReadClient) (role : Role) (i : String) :
    SameMetadata c (c.setReserved role i) := by
  cases role <;> exact ⟨rfl, rfl, rfl, rfl, rfl, le_refl _⟩

section

variable (c : CMSReadClient) (i : String)

theorem sameMetadata_dropInstance : SameMetadata c (c.dropInstance i) := ⟨rfl, rfl, rfl, rfl, rfl, le_refl _⟩

theorem sameMetadata_release (role : Role) : SameMetadata c (c.release i role) := by
  unfold release
  split
  · exact sameMetadata_setReserved c role ""
  · exact SameMetadata.refl c

theorem sameMetadata_forgetStatus : SameMetadata c (c.forgetStatus i) := by
  unfold forgetStatus
  split
  · exact SameMetadata.refl c
  · exact ((sameMetadata_dropInstance c i).trans (sameMetadata_release _ i .prefill)).trans
      (sameMetadata_release _ i .decode)

theorem sameMetadata_createStatus : SameMetadata c (c.createStatus i) := ⟨rfl, rfl, rfl, rfl, rfl, le_succ _⟩

theorem sameMetadata_createView (metadata status : Ref) :
    SameMetadata c (c.createView i metadata status) := ⟨rfl, rfl, rfl, rfl, rfl, le_succ _⟩

end

variable (c r)

theorem sameMetadata_updateStatus (i : String) : SameMetadata c (recover (c.updateStatus r i)) := by
  refine recover_updateStatus (SameMetadata.refl c) (fun _ => sameMetadata_dropInstance c i)
    (fun _ _ _ _ => sameMetadata_createStatus c i) (fun _ ref _ _ _ => ?_) fun c' ref _ _ h _ _ => ?_
  · exact (sameMetadata_createStatus c i).trans (sameMetadata_createView _ i ref _)
  · exact h.trans ⟨rfl, rfl, rfl, rfl, rfl, le_refl _⟩

/-- **A refresh of the statuses does not touch the metadata.** -/
theorem sameMetadata_refreshStatuses : SameMetadata c (recover (c.refreshStatuses r)) := by
  refine recover_refreshStatuses ?_ (fun c' i _ h => ?_) fun c' i _ h => ?_
  · exact ⟨rfl, rfl, rfl, rfl, rfl, le_refl _⟩
  · exact h.trans (sameMetadata_forgetStatus c' i)
  · exact h.trans (sameMetadata_updateStatus c' r i)

theorem sameMetadata_reserve (role : Role) (i : String) : SameMetadata c (recover (c.reserve role i)) := by
  have hs := sameMetadata_setReserved c role i
  exact recover_reserve hs fun ref _ => hs.trans ⟨rfl, rfl, rfl, rfl, rfl, le_refl _⟩

theorem sameMetadata_setReservedInstance (order : List String) :
    SameMetadata c (recover (c.setReservedInstance order)) :=
  recover_setReservedInstance (fun c' role i h => h.trans (sameMetadata_reserve c' role i))
    (SameMetadata.refl c)

variable {c r}

/-! ### Metadata objects -/

/-- Different instances have different metadata objects, all of them made before. -/
structure Objects (c : CMSReadClient) : Prop where
  distinct : ∀ i j ref, c.instanceMetadatas.lookup i = some (some ref) →
    c.instanceMetadatas.lookup j = some (some ref) → i = j
  made : ∀ i ref, c.instanceMetadatas.lookup i = some (some ref) → ref < c.nextRef

section

variable {c' : CMSReadClient}

theorem Objects.of_subset (h : Objects c) (hs : ∀ i ref, c'.instanceMetadatas.lookup i = some (some ref) →
      c.instanceMetadatas.lookup i = some (some ref)) (hn : c.nextRef ≤ c'.nextRef) : Objects c' where
  distinct := fun i j ref hi hj => h.distinct i j ref (hs i ref hi) (hs j ref hj)
  made := fun i ref hi => lt_of_lt_of_le (h.made i ref (hs i ref hi)) hn

theorem Objects.congr (h : Objects c) (hm : c'.instanceMetadatas = c.instanceMetadatas)
    (hn : c.nextRef ≤ c'.nextRef) : Objects c' :=
  h.of_subset (fun _ _ hi => hm ▸ hi) hn

theorem Objects.unset (h : Objects c) (id : String)
    (hm : c'.instanceMetadatas = c.instanceMetadatas.erase id ∨
      c'.instanceMetadatas = c.instanceMetadatas.insert id none)
    (hn : c'.nextRef = c.nextRef) : Objects c' := by
  refine h.of_subset (fun i ref hi => ?_) (le_of_eq hn.symm)
  rcases hm with hm | hm
  all_goals
    simp only [hm, lookup_erase_ite, lookup_insert_ite] at hi
    split at hi
    · cases hi
    · exact hi

/-- **Writing the metadata of an instance** changes one object, which no other instance has. -/
theorem writeMetadata_spec (h : Objects c) (id : String) (m : InstanceMetadata) :
    ∃ ref, (∀ j, (c.writeMetadata id m).instanceMetadatas.lookup j =
        if j = id then some (some ref) else c.instanceMetadatas.lookup j) ∧
      (c.writeMetadata id m).metadata = update c.metadata ref m ∧
      (∀ j ref', j ≠ id → c.instanceMetadatas.lookup j = some (some ref') → ref' ≠ ref) ∧
      (∀ ref', c.instanceMetadatas.lookup id = some (some ref') → ref' = ref) ∧
      c.nextRef ≤ (c.writeMetadata id m).nextRef ∧ ref < (c.writeMetadata id m).nextRef := by
  unfold writeMetadata
  split
  · next ref hr =>
    refine ⟨ref, fun j => ?_, rfl, fun j ref' hj hr' heq => ?_, fun ref' hr' => ?_,
      le_refl _, h.made id ref hr⟩
    · split
      · next hj => rw [hj, hr]
      · rfl
    · exact hj (h.distinct j id ref (heq ▸ hr') hr)
    · exact (some.inj (some.inj (hr.symm.trans hr'))).symm
  · next hn =>
    refine ⟨c.nextRef, fun j => lookup_insert_ite _ _ _ _, rfl, fun j ref' _ hr' heq => ?_,
      fun ref' hr' => absurd hr' (hn ref'), le_succ _, lt_succ_self _⟩
    exact absurd (h.made j ref' hr') (heq ▸ lt_irrefl _)

theorem objects_writeMetadata (h : Objects c) (id : String) (m : InstanceMetadata) :
    Objects (c.writeMetadata id m) := by
  obtain ⟨ref, hl, -, ho, -, hn, hm⟩ := writeMetadata_spec h id m
  refine ⟨fun i j ref' hi hj => ?_, fun i ref' hi => ?_⟩
  · rw [hl] at hi hj
    split at hi
    · next hid =>
      cases hi
      split at hj
      · next hjd => rw [hid, hjd]
      · next hjd => exact absurd rfl (ho j ref hjd hj)
    · next hid =>
      split at hj
      · cases hj
        exact absurd rfl (ho i ref hid hi)
      · exact h.distinct i j ref' hi hj
  · rw [hl] at hi
    split at hi
    · cases hi
      exact hm
    · exact lt_of_lt_of_le (h.made i ref' hi) hn

theorem sameIndex_writeMetadata (c : CMSReadClient) (id : String) (m : InstanceMetadata) :
    (c.writeMetadata id m).ipToInstanceIDs = c.ipToInstanceIDs ∧
      (c.writeMetadata id m).instanceIDToIP = c.instanceIDToIP ∧
      (c.writeMetadata id m).instanceIDs = c.instanceIDs := by
  unfold writeMetadata
  split <;> exact ⟨rfl, rfl, rfl⟩

end

/-! ### The parts of a refresh of the metadata -/

/-- The statuses, the views and the reserved instances are the same. -/
structure SameViews (c c' : CMSReadClient) : Prop where
  instanceStatuses : c'.instanceStatuses = c.instanceStatuses
  status : c'.status = c.status
  instanceViews : c'.instanceViews = c.instanceViews
  view : c'.view = c.view
  groupedInstanceViews : c'.groupedInstanceViews = c.groupedInstanceViews
  reservedInstance : c'.reservedInstance = c.reservedInstance

theorem SameViews.refl (c : CMSReadClient) : SameViews c c := ⟨rfl, rfl, rfl, rfl, rfl, rfl⟩

theorem SameViews.trans (h : SameViews c c') (h' : SameViews c' c'') : SameViews c c'' where
  instanceStatuses := h'.instanceStatuses.trans h.instanceStatuses
  status := h'.status.trans h.status
  instanceViews := h'.instanceViews.trans h.instanceViews
  view := h'.view.trans h.view
  groupedInstanceViews := h'.groupedInstanceViews.trans h.groupedInstanceViews
  reservedInstance := h'.reservedInstance.trans h.reservedInstance

/-- Only the index of addresses differs. -/
structure SameObjects (c c' : CMSReadClient) : Prop extends SameViews c c' where
  instanceIDs : c'.instanceIDs = c.instanceIDs
  instanceMetadatas : c'.instanceMetadatas = c.instanceMetadatas
  metadata : c'.metadata = c.metadata
  instanceIDToIP : c'.instanceIDToIP = c.instanceIDToIP
  nextRef : c'.nextRef = c.nextRef

theorem SameObjects.refl (c : CMSReadClient) : SameObjects c c :=
  ⟨SameViews.refl c, rfl, rfl, rfl, rfl, rfl⟩

theorem sameObjects_add (c : CMSReadClient) (ip id : String) :
    SameObjects c (c.addToIpToInstanceIDsMap ip id) := by
  unfold addToIpToInstanceIDsMap
  split <;> exact ⟨⟨rfl, rfl, rfl, rfl, rfl, rfl⟩, rfl, rfl, rfl, rfl, rfl⟩

theorem sameObjects_remove (c : CMSReadClient) (ip id : String) :
    SameObjects c (c.removeFromIp2InstanceIDsMap ip id) := by
  unfold removeFromIp2InstanceIDsMap
  split
  · exact SameObjects.refl c
  · split
    · exact SameObjects.refl c
    · split <;> exact ⟨⟨rfl, rfl, rfl, rfl, rfl, rfl⟩, rfl, rfl, rfl, rfl, rfl⟩

theorem SameObjects.trans (h : SameObjects c c') (h' : SameObjects c' c'') : SameObjects c c'' where
  toSameViews := h.toSameViews.trans h'.toSameViews
  instanceIDs := h'.instanceIDs.trans h.instanceIDs
  instanceMetadatas := h'.instanceMetadatas.trans h.instanceMetadatas
  metadata := h'.metadata.trans h.metadata
  instanceIDToIP := h'.instanceIDToIP.trans h.instanceIDToIP
  nextRef := h'.nextRef.trans h.nextRef

variable (c)

theorem sameObjects_unlist (id : String) : SameObjects c (c.unlist id) := by
  unfold unlist
  split
  · exact sameObjects_remove c _ id
  · split
    · exact sameObjects_remove c _ id
    · exact SameObjects.refl c

theorem forgetMetadata_spec (id : String) :
    SameViews c (c.forgetMetadata id) ∧ (c.forgetMetadata id).instanceIDs = c.instanceIDs ∧
      (c.forgetMetadata id).metadata = c.metadata ∧ (c.forgetMetadata id).nextRef = c.nextRef ∧
      ∀ j, (c.forgetMetadata id).instanceMetadatas.lookup j =
        if j = id ∧ id ∉ c.instanceIDsSet then none else c.instanceMetadatas.lookup j := by
  unfold forgetMetadata
  split
  · next hm => exact ⟨SameViews.refl c, rfl, rfl, rfl, fun j => (if_neg fun h => h.2 hm).symm⟩
  · next hg =>
    have hs := sameObjects_unlist c id
    refine ⟨⟨hs.instanceStatuses, hs.status, hs.instanceViews, hs.view,
      hs.groupedInstanceViews, hs.reservedInstance⟩, hs.instanceIDs, hs.metadata,
      hs.nextRef, fun j => ?_⟩
    rw [lookup_erase_ite]
    simp [hg]

theorem sameViews_writeMetadata (id : String) (m : InstanceMetadata) :
    SameViews c (c.writeMetadata id m) := by
  unfold writeMetadata
  split <;> exact ⟨rfl, rfl, rfl, rfl, rfl, rfl⟩

theorem moveIP_spec (id oldIP newIP : String) :
    SameViews c (c.moveIP id oldIP newIP) ∧ (c.moveIP id oldIP newIP).instanceIDs = c.instanceIDs ∧
      (c.moveIP id oldIP newIP).instanceMetadatas = c.instanceMetadatas ∧
      (c.moveIP id oldIP newIP).metadata = c.metadata ∧ (c.moveIP id oldIP newIP).nextRef = c.nextRef := by
  unfold moveIP
  split
  · have hs := (sameObjects_remove c oldIP id).trans (sameObjects_add _ newIP id)
    exact ⟨⟨hs.instanceStatuses, hs.status, hs.instanceViews, hs.view,
      hs.groupedInstanceViews, hs.reservedInstance⟩, hs.instanceIDs,
      hs.instanceMetadatas, hs.metadata, hs.nextRef⟩
  · split <;> exact ⟨⟨rfl, rfl, rfl, rfl, rfl, rfl⟩, rfl, rfl, rfl, rfl⟩

theorem sameViews_refreshInstanceMetadata (r : MetadataRead)
    (order : List String) : SameViews c (c.refreshInstanceMetadata r order) ∧
      c.nextRef ≤ (c.refreshInstanceMetadata r order).nextRef := by
  have hw : ∀ (c' : CMSReadClient) i m, c'.nextRef ≤ (c'.writeMetadata i m).nextRef := by
    intro c' i m
    unfold writeMetadata
    split
    · exact le_refl _
    · exact le_succ _
  refine foldl_keeps (P := fun c' => SameViews c c' ∧ c.nextRef ≤ c'.nextRef) _ ?_ _
    (foldl_keeps (P := fun c' => SameViews c c' ∧ c.nextRef ≤ c'.nextRef) order ?_ _
      ⟨⟨rfl, rfl, rfl, rfl, rfl, rfl⟩, le_refl _⟩)
  · rintro c' i - ⟨hv, hn⟩
    unfold updateMetadata
    split
    · exact ⟨hv.trans ⟨rfl, rfl, rfl, rfl, rfl, rfl⟩, hn⟩
    · exact ⟨hv.trans (sameViews_writeMetadata c' i _), le_trans hn (hw c' i _)⟩
    · next m _ =>
      obtain ⟨hm, -, -, -, hn'⟩ := moveIP_spec (c'.writeMetadata i m) i (c'.oldIP i) m.ipKvs
      refine ⟨(hv.trans (sameViews_writeMetadata c' i m)).trans hm, ?_⟩
      rw [hn']
      exact le_trans hn (hw c' i m)
  · rintro c' i - ⟨hv, hn⟩
    obtain ⟨hsa, -, -, hn', -⟩ := forgetMetadata_spec c' i
    exact ⟨hv.trans hsa, hn'.symm ▸ hn⟩

variable {c}

/-! ### Steps -/

/-- **What a step is**: a failed read, a refresh of the metadata, or one of the parts of a refresh of the
statuses. -/
theorem exec_cases {s t : State} {a : Action} (hex : exec s a = some t) :
    (t = ⟨{ s.client with isAlive := false }, .idle false⟩) ∨
    (∃ r order, a = .refreshMetadata (some r) order ∧ Enumerates order s.client.instanceMetadatas.keys ∧
      t = ⟨s.client.refreshInstanceMetadata r order, .idle false⟩) ∨
    (∃ r, a = .refreshStatuses (some r) ∧ Enumerates r.order s.client.instanceStatuses.keys ∧
      s.phase ≠ .reserving ∧ t.client = recover (s.client.refreshStatuses r) ∧
      (t.phase = .idle true ∨ (t.phase = .reserving ∧ s.client.refreshStatuses r = .ok t.client))) ∨
    (∃ order, a = .setReserved order ∧ s.phase = .reserving ∧
      Enumerates order s.client.instanceStatuses.keys ∧
      t = ⟨recover (s.client.setReservedInstance order), .idle true⟩) := by
  cases a with
  | refreshMetadata r order =>
    simp only [exec] at hex
    split at hex
    · cases hex
    · exact .inl (some.inj hex).symm
    · split at hex
      · next ho => exact .inr (.inl ⟨_, order, rfl, ho, (some.inj hex).symm⟩)
      · cases hex
  | refreshStatuses r =>
    simp only [exec] at hex
    split at hex
    · cases hex
    · exact .inl (some.inj hex).symm
    rename_i hp
    have hi : s.phase ≠ .reserving := by rw [hp]; exact nofun
    split at hex <;> try cases hex
    rename_i ho
    refine .inr (.inr (.inl ⟨_, rfl, ho, hi, ?_⟩))
    split at hex
    · next c hc =>
      cases hex
      exact ⟨by rw [hc]; rfl, .inl rfl⟩
    · next c hc =>
      cases hex
      refine ⟨by rw [hc]; rfl, ?_⟩
      dsimp only
      split
      · exact .inr ⟨rfl, hc⟩
      · exact .inl rfl
  | setReserved order =>
  simp only [exec] at hex
  split at hex
  · cases hex
  · next hp =>
    split at hex
    · next ho =>
      exact .inr (.inr (.inr ⟨order, rfl, hp, ho, (some.inj hex).symm⟩))
    · cases hex

end Llumnix.ReadClient
