/-
**The index from addresses to instances.**

To credit a hit in the prefix cache to instances, the read client keeps an index from the addresses of their
KV stores to the instances, and a map back.  A refresh of the metadata changes both step by step.  If a
value is missing for a while, the object is forgotten, its address is not, and nothing remembers that the
index has to be cleaned.  A value that cannot be decoded changes the address in the object and leaves the
index alone.

* `ipConsistent_of_reaches` — **the index is consistent in every state that guarded refreshes reach**.
-/

import Llumnix.CmsClientSpec

namespace Llumnix.ReadClient

open FiniteMap GuardedRun CMSReadClient Finmap Finset Nat

/-! ### The property -/

def HasIP (c : CMSReadClient) (id ip : String) : Prop :=
  ∃ ref, c.instanceMetadatas.lookup id = some (some ref) ∧ (c.metadata ref).ipKvs = ip

def idsAt (c : CMSReadClient) (ip : String) : Finset String := (c.ipToInstanceIDs.lookup ip).getD ∅

/-- **The index lists the instances at their present addresses.**  The empty string is no address. -/
structure IpConsistent (c : CMSReadClient) : Prop where
  listed : ∀ ip id, id ∈ idsAt c ip ↔ ip ≠ "" ∧ HasIP c id ip
  reverse : ∀ id ip, c.instanceIDToIP.lookup id = some ip ↔ ip ≠ "" ∧ HasIP c id ip
  nonempty : ∀ ip, c.ipToInstanceIDs.lookup ip ≠ some ∅
  /-- A hit on some addresses is credited to the instances that are there. -/
  credited : ∀ ips id, id ∈ c.getInstanceIDsByIPs ips ↔ ∃ ip ∈ ips, ip ≠ "" ∧ HasIP c id ip

/-- A value that a refresh may read for an instance whose metadata has the given address. -/
def ValueOk (ip : String) : MetadataValue → Prop
  | .nil => ip = ""
  | .garbled leftover => leftover.ipKvs = ip
  | .bytes _ => True

instance (ip : String) : ∀ value, Decidable (ValueOk ip value) := by
  intro value
  unfold ValueOk
  split <;> infer_instance

/-- **The refreshes that keep the index**: only an instance without an address misses a value, and a value
that cannot be decoded leaves the address as it was. -/
def IpOk (s : State) : Action → Prop
  | .refreshMetadata (some r) _ =>
    ∀ id ∈ r.instanceIDs, ValueOk (s.client.oldIP id) (r.values id)
  | _ => True

instance (s : State) : ∀ a, Decidable (IpOk s a) := by
  rintro (⟨_ | r, _⟩ | _ | _) <;> (dsimp only [IpOk]; infer_instance)

/-! ### The index -/

section

variable {c c' : CMSReadClient} {ip id : String}

theorem hasIP_iff (hip : ip ≠ "") : HasIP c id ip ↔ c.oldIP id = ip := by
  unfold HasIP oldIP
  split
  · next ref hr =>
    constructor
    · rintro ⟨ref', hr', heq⟩
      cases hr.symm.trans hr'
      exact heq
    · exact fun heq => ⟨ref, hr, heq⟩
  · next hn =>
    refine iff_of_false ?_ fun heq => hip heq.symm
    rintro ⟨ref, hr, -⟩
    exact hn ref hr

theorem mem_idsAt_add (c : CMSReadClient) (ip id ip' id' : String) :
    id' ∈ idsAt (c.addToIpToInstanceIDsMap ip id) ip' ↔
      (ip ≠ "" ∧ ip' = ip ∧ id' = id) ∨ id' ∈ idsAt c ip' := by
  unfold addToIpToInstanceIDsMap
  by_cases hip : ip = ""
  · simp [hip]
  · rw [if_neg hip, idsAt, lookup_insert_ite]
    by_cases hip' : ip' = ip
    · subst hip'
      simp [hip, idsAt]
    · simp [hip', idsAt]

/-- A set that becomes empty is dropped, which reads the same. -/
theorem idsAt_remove (hip : ip ≠ "") (ip' : String) : idsAt (c.removeFromIp2InstanceIDsMap ip id) ip' =
    if ip' = ip then (idsAt c ip).erase id else idsAt c ip' := by
  rw [removeFromIp2InstanceIDsMap, if_neg hip]
  cases hi : c.ipToInstanceIDs.lookup ip with
  | none => obtain rfl | hip' := eq_or_ne ip' ip <;> simp [idsAt, *]
  | some ids =>
    dsimp only
    split
    · next hc => obtain rfl | hip' := eq_or_ne ip' ip <;> simp [idsAt, card_eq_zero.1 hc, *]
    · obtain rfl | hip' := eq_or_ne ip' ip <;> simp [idsAt, *]

theorem mem_idsAt_remove (c : CMSReadClient) (ip id ip' id' : String) :
    id' ∈ idsAt (c.removeFromIp2InstanceIDsMap ip id) ip' ↔
      id' ∈ idsAt c ip' ∧ ¬ (ip ≠ "" ∧ ip' = ip ∧ id' = id) := by
  by_cases hip : ip = ""
  · simp [removeFromIp2InstanceIDsMap, hip]
  · rw [idsAt_remove hip]
    by_cases hip' : ip' = ip <;> simp [hip, hip', and_comm]

theorem nonempty_add (h : ∀ ip, c.ipToInstanceIDs.lookup ip ≠ some ∅) (ip id : String) :
    ∀ ip', (c.addToIpToInstanceIDsMap ip id).ipToInstanceIDs.lookup ip' ≠ some ∅ := by
  intro ip'
  unfold addToIpToInstanceIDsMap
  split
  · exact h ip'
  · dsimp only
    rw [lookup_insert_ite]
    split
    · exact fun heq => insert_ne_empty id _ (Option.some.inj heq)
    · exact h ip'

theorem nonempty_remove (h : ∀ ip, c.ipToInstanceIDs.lookup ip ≠ some ∅) (ip id : String) :
    ∀ ip', (c.removeFromIp2InstanceIDsMap ip id).ipToInstanceIDs.lookup ip' ≠ some ∅ := by
  intro ip'
  unfold removeFromIp2InstanceIDsMap
  split
  · exact h ip'
  split
  · exact h ip'
  rename_i ids _
  split
  · dsimp only
    rw [lookup_erase_ite]
    split
    · exact nofun
    · exact h ip'
  · next hc =>
    rw [lookup_insert_ite]
    split
    · exact fun heq => hc (card_eq_zero.2 (Option.some.inj heq))
    · exact h ip'

theorem oldIP_of_none (h : ∀ ref, c.instanceMetadatas.lookup id ≠ some (some ref)) : c.oldIP id = "" := by
  unfold oldIP
  split
  · next ref hr => exact absurd hr (h ref)
  · rfl

theorem oldIP_congr (he : c'.instanceMetadatas.lookup id = c.instanceMetadatas.lookup id)
    (ho : c'.metadata = c.metadata) : c'.oldIP id = c.oldIP id := by
  unfold oldIP
  rw [he, ho]

theorem oldIP_of_some {ref : Ref} (h : c.instanceMetadatas.lookup id = some (some ref)) :
    c.oldIP id = (c.metadata ref).ipKvs := by
  unfold oldIP
  rw [h]

end

/-! ### The invariant -/

/-- The index and the map back follow the addresses in the metadata. -/
structure Mapped (c : CMSReadClient) : Prop extends Objects c where
  listed : ∀ ip id, id ∈ idsAt c ip ↔ ip ≠ "" ∧ c.oldIP id = ip
  reverse : ∀ id, c.instanceIDToIP.lookup id = if c.oldIP id = "" then none else some (c.oldIP id)
  nonempty : ∀ ip, c.ipToInstanceIDs.lookup ip ≠ some ∅

section

variable {c c' : CMSReadClient} {id : String}

theorem mem_getInstanceIDsByIPs (c : CMSReadClient) (ips : List String) (id : String) :
    id ∈ c.getInstanceIDsByIPs ips ↔ ∃ ip ∈ ips, id ∈ idsAt c ip := by
  have hf : ∀ (ips : List String) (ids : Finset String),
      id ∈ ips.foldl (fun ids ip => ids ∪ (c.ipToInstanceIDs.lookup ip).getD ∅) ids ↔
        id ∈ ids ∨ ∃ ip ∈ ips, id ∈ idsAt c ip := by
    intro ips
    induction ips with
    | nil => simp
    | cons ip ips ih =>
      intro ids
      rw [List.foldl_cons, ih, Finset.mem_union, List.exists_mem_cons_iff, or_assoc]
      rfl
  rw [getInstanceIDsByIPs, hf]
  simp

theorem Mapped.ipConsistent (h : Mapped c) : IpConsistent c where
  listed := fun ip id => by
    rw [h.listed]
    exact and_congr_right fun hip => (hasIP_iff hip).symm
  reverse := fun id ip => by
    rw [h.reverse]
    split
    · next he =>
      refine iff_of_false nofun ?_
      rintro ⟨hip, hh⟩
      exact hip (((hasIP_iff hip).1 hh).symm.trans he)
    · next hne =>
      rw [Option.some.injEq]
      constructor
      · rintro rfl
        exact ⟨hne, (hasIP_iff hne).2 rfl⟩
      · rintro ⟨hip, hh⟩
        exact (hasIP_iff hip).1 hh
  nonempty := h.nonempty
  credited := fun ips id => by
    rw [mem_getInstanceIDsByIPs]
    refine exists_congr fun ip => and_congr_right fun _ => ?_
    rw [h.listed]
    exact and_congr_right fun hip => (hasIP_iff hip).symm

/-- **Moving one instance to another address**, in the metadata, in the index and in the map back. -/
theorem Mapped.of_move (h : Mapped c) (ho : Objects c') (id newIP : String)
    (hip : ∀ j, c'.oldIP j = if j = id then newIP else c.oldIP j)
    (hi : ∀ ip j, j ∈ idsAt c' ip ↔ if j = id then ip ≠ "" ∧ newIP = ip else j ∈ idsAt c ip)
    (hr : ∀ j, c'.instanceIDToIP.lookup j =
      if j = id then (if newIP = "" then none else some newIP) else c.instanceIDToIP.lookup j)
    (hn : ∀ ip, c'.ipToInstanceIDs.lookup ip ≠ some ∅) : Mapped c' where
  toObjects := ho
  listed := fun ip j => by
    rw [hi, hip]
    split
    · exact Iff.rfl
    · exact h.listed ip j
  reverse := fun j => by
    rw [hr, hip]
    split
    · rfl
    · exact h.reverse j
  nonempty := hn

theorem Mapped.mem_idsAt_removed (h : Mapped c) (id ip j : String) :
    j ∈ idsAt (c.removeFromIp2InstanceIDsMap (c.oldIP id) id) ip ↔ j ≠ id ∧ j ∈ idsAt c ip := by
  rw [mem_idsAt_remove, h.listed]
  by_cases hj : j = id
  · subst hj
    refine iff_of_false ?_ fun hm => hm.1 rfl
    rintro ⟨⟨hip, rfl⟩, hn⟩
    exact hn ⟨hip, rfl, rfl⟩
  · simp [hj]

/-- The address that the first loop removes is the one in the metadata. -/
theorem Mapped.unlist_eq (h : Mapped c) (id : String) :
    c.unlist id = c.removeFromIp2InstanceIDsMap (c.oldIP id) id := by
  have hold : (c.instanceIDToIP.lookup id).getD "" = c.oldIP id := by
    rw [h.reverse]
    split
    · next he => rw [he, Option.getD_none]
    · rfl
  unfold unlist
  rw [hold]
  by_cases he : c.oldIP id = ""
  · -- there is no address, so neither branch removes anything
    have hn : c.removeFromIp2InstanceIDsMap "" id = c := if_pos rfl
    rw [if_neg (not_not.2 he), he, hn]
    split
    · next ref hr => rw [← oldIP_of_some hr, he, hn]
    · rfl
  · rw [if_pos he]

theorem mapped_forgetMetadata (h : Mapped c) (id : String) : Mapped (c.forgetMetadata id) := by
  unfold forgetMetadata
  split
  · exact h
  rw [h.unlist_eq]
  have hs := sameObjects_remove c (c.oldIP id) id
  refine h.of_move (h.toObjects.unset id (.inl rfl) hs.nextRef) id "" (fun j => ?_)
    (fun ip j => ?_) (fun j => ?_) (nonempty_remove h.nonempty (c.oldIP id) id)
  · split
    · next hj =>
      refine oldIP_of_none fun ref => ?_
      rw [hj, lookup_erase]
      exact nofun
    · next hj => exact oldIP_congr (lookup_erase_ne hj) hs.metadata
  · refine (h.mem_idsAt_removed id ip j).trans ?_
    split
    · next hj => exact iff_of_false (fun hm => hm.1 hj) fun hip => hip.1 hip.2.symm
    · next hj => exact and_iff_right hj
  · exact (lookup_erase_ite _ _ _).trans (by simp)

theorem mapped_nil (h : Mapped c) (hip : c.oldIP id = "") :
    Mapped { c with instanceMetadatas := c.instanceMetadatas.insert id none } := by
  refine h.of_move (h.toObjects.unset id (.inr rfl) rfl) id "" (fun j => ?_) (fun ip j => ?_)
    (fun j => ?_) h.nonempty
  · split
    · next hj =>
      refine oldIP_of_none fun ref => ?_
      rw [hj, lookup_insert]
      exact nofun
    · next hj => exact oldIP_congr (lookup_insert_of_ne _ hj) rfl
  · split
    · next hj =>
      subst hj
      exact (h.listed ip j).trans (by rw [hip])
    · exact Iff.rfl
  · split
    · next hj =>
      subst hj
      exact (h.reverse j).trans (if_pos hip)
    · rfl

theorem oldIP_writeMetadata (h : Objects c) (id : String) (m : InstanceMetadata) (j : String) :
    (c.writeMetadata id m).oldIP j = if j = id then m.ipKvs else c.oldIP j := by
  obtain ⟨ref, hl, ho, hot, -⟩ := writeMetadata_spec h id m
  split
  · next hj =>
    rw [oldIP_of_some ((hl j).trans (if_pos hj)), ho, Function.update_self]
  · next hj =>
    have he := (hl j).trans (if_neg hj)
    by_cases hs : ∃ ref', c.instanceMetadatas.lookup j = some (some ref')
    · obtain ⟨ref', hr'⟩ := hs
      rw [oldIP_of_some hr', oldIP_of_some (he.trans hr'), ho, Function.update_of_ne (hot j ref' hj hr')]
    · push Not at hs
      rw [oldIP_of_none hs, oldIP_of_none fun ref' => he ▸ hs ref']

theorem mapped_writeMetadata (h : Mapped c) {m : InstanceMetadata} (hip : m.ipKvs = c.oldIP id) :
    Mapped (c.writeMetadata id m) := by
  obtain ⟨hi, hr, -⟩ := sameIndex_writeMetadata c id m
  have hold : ∀ j, (c.writeMetadata id m).oldIP j = c.oldIP j := by
    intro j
    rw [oldIP_writeMetadata h.toObjects]
    split
    · next hj => rw [hj, hip]
    · rfl
  refine ⟨objects_writeMetadata h.toObjects id m, fun ip j => ?_, fun j => ?_, fun ip => ?_⟩
  · rw [idsAt, hi, hold]
    exact h.listed ip j
  · rw [hr, hold]
    exact h.reverse j
  · rw [hi]
    exact h.nonempty ip

theorem lookup_setInstanceIP (c : CMSReadClient) (id newIP j : String) :
    (c.setInstanceIP id newIP).instanceIDToIP.lookup j =
      if j = id then (if newIP = "" then none else some newIP) else c.instanceIDToIP.lookup j := by
  unfold setInstanceIP
  dsimp only
  split
  · exact lookup_erase_ite _ _ _
  · exact lookup_insert_ite _ _ _ _

theorem mapped_setInstanceIP (h : Mapped c) (hip : c.oldIP id = "") : Mapped (c.setInstanceIP id "") := by
  refine h.of_move (h.toObjects.congr rfl (le_refl _)) id "" (fun j => ?_)
    (fun ip j => ?_) (lookup_setInstanceIP c id "") h.nonempty
  · split
    · next hj =>
      rw [hj]
      exact (oldIP_congr rfl rfl).trans hip
    · exact oldIP_congr rfl rfl
  · split
    · next hj =>
      subst hj
      exact (h.listed ip j).trans (by rw [hip])
    · exact Iff.rfl

/-- **Moving an instance to the address of its new metadata.** -/
theorem oldIP_moveIP (c : CMSReadClient) (id ip ip' j : String) :
    (c.moveIP id ip ip').oldIP j = c.oldIP j := by
  have hs := (sameObjects_remove c ip id).trans (sameObjects_add _ ip' id)
  unfold moveIP
  split
  · exact oldIP_congr (congrArg (lookup j) hs.instanceMetadatas) hs.metadata
  · split <;> rfl

theorem mapped_moveIP (h : Mapped c) (id : String) (m : InstanceMetadata) :
    Mapped ((c.writeMetadata id m).moveIP id (c.oldIP id) m.ipKvs) := by
  have hip := oldIP_moveIP (c.writeMetadata id m) id (c.oldIP id) m.ipKvs
  unfold moveIP at hip ⊢
  by_cases hmo : m.ipKvs = c.oldIP id
  · have hs := mapped_writeMetadata h hmo
    rw [if_neg (not_not.2 hmo)]
    split
    · next he =>
      refine mapped_setInstanceIP hs ?_
      rw [oldIP_writeMetadata h.toObjects, if_pos rfl, he]
    · exact hs
  · rw [if_pos hmo] at hip ⊢
    obtain ⟨hi, hr, -⟩ := sameIndex_writeMetadata c id m
    have hre := sameObjects_remove (c.writeMetadata id m) (c.oldIP id) id
    have hm := hre.trans (sameObjects_add _ m.ipKvs id)
    refine h.of_move ?_ id m.ipKvs (fun j => ?_) (fun ip j => ?_) (fun j => ?_) ?_
    · exact (objects_writeMetadata h.toObjects id m).congr hm.instanceMetadatas (le_of_eq hm.nextRef.symm)
    · rw [hip, oldIP_writeMetadata h.toObjects]
    · -- taken out at the old address, put in at the new one
      have hold : idsAt (c.writeMetadata id m) ip = idsAt c ip := by rw [idsAt, hi]; rfl
      refine (mem_idsAt_add _ _ _ _ _).trans ?_
      rw [mem_idsAt_remove, hold]
      split
      · next hj =>
        subst hj
        rw [h.listed]
        constructor
        · rintro (⟨hip, rfl, -⟩ | ⟨⟨hip, rfl⟩, hn⟩)
          · exact ⟨hip, rfl⟩
          · exact absurd ⟨hip, rfl, rfl⟩ hn
        · rintro ⟨hip, rfl⟩
          exact .inl ⟨hip, rfl, rfl⟩
      · next hj => simp [hj]
    · rw [lookup_setInstanceIP, hm.instanceIDToIP, hr]
    · refine nonempty_add (nonempty_remove (fun ip => ?_) _ _) _ _
      rw [hi]
      exact h.nonempty ip

/-- **One turn of the loop over the values**: no other instance moves. -/
theorem mapped_updateMetadata (h : Mapped c) {values : String → MetadataValue}
    (hok : ValueOk (c.oldIP id) (values id)) : Mapped (c.updateMetadata values id) ∧
      ∀ j, j ≠ id → (c.updateMetadata values id).oldIP j = c.oldIP j := by
  unfold updateMetadata
  cases hv : values id with
  | nil =>
    rw [hv] at hok
    exact ⟨mapped_nil h hok, fun j hj => oldIP_congr (lookup_insert_of_ne _ hj) rfl⟩
  | garbled =>
    rw [hv] at hok
    refine ⟨mapped_writeMetadata h hok, fun j hj => ?_⟩
    rw [oldIP_writeMetadata h.toObjects, if_neg hj]
  | bytes m =>
  refine ⟨mapped_moveIP h id m, fun j hj => ?_⟩
  rw [oldIP_moveIP, oldIP_writeMetadata h.toObjects, if_neg hj]

end

/-! ### Runs -/

/-- **A guarded refresh of the metadata keeps the index.** -/
theorem mapped_refreshInstanceMetadata {c : CMSReadClient} (h : Mapped c) {r : MetadataRead}
    (order : List String) (hok : ∀ id ∈ r.instanceIDs, ValueOk (c.oldIP id) (r.values id)) :
    Mapped (c.refreshInstanceMetadata r order) := by
  -- the first loop leaves the instances alone that are still there
  obtain ⟨hm, -, hold⟩ := foldl_keeps (P := fun c' => Mapped c' ∧ c'.instanceIDs = r.instanceIDs ∧
      ∀ id ∈ r.instanceIDs, c'.oldIP id = c.oldIP id) order (by
    rintro c' i - ⟨hm, his, hold⟩
    refine ⟨mapped_forgetMetadata hm i, ?_, fun id hid => ?_⟩
    · unfold forgetMetadata
      split
      · exact his
      · rw [hm.unlist_eq]
        exact (sameObjects_remove c' _ i).instanceIDs.trans his
    · rw [← hold id hid]
      unfold forgetMetadata
      split
      · rfl
      · next hg =>
        rw [hm.unlist_eq]
        refine oldIP_congr (lookup_erase_ne ?_) (sameObjects_remove c' _ i).metadata
        rintro rfl
        exact hg (List.mem_toFinset.2 (his.symm ▸ hid))) { c with isAlive := true, instanceIDs := r.instanceIDs }
    ⟨⟨h.toObjects.congr rfl (le_refl _), h.listed, h.reverse, h.nonempty⟩, rfl, fun _ _ => rfl⟩
  refine (foldl_keeps (P := fun c' => Mapped c' ∧
    ∀ id ∈ r.instanceIDs, ValueOk (c'.oldIP id) (r.values id)) r.instanceIDs
      (fun c' i hi hc' => ?_) _ ⟨hm, fun id hid => hold id hid ▸ hok id hid⟩).1
  obtain ⟨hm, hok⟩ := hc'
  obtain ⟨hn, ho⟩ := mapped_updateMetadata hm (hok i hi)
  refine ⟨hn, fun id hid => ?_⟩
  by_cases hii : id = i
  · subst hii
    unfold updateMetadata
    cases hv : r.values id with
    | nil =>
      refine oldIP_of_none fun ref => ?_
      rw [lookup_insert]
      exact nofun
    | garbled => rw [ValueOk, oldIP_writeMetadata hm.toObjects, if_pos rfl]
    | bytes => trivial
  · rw [ho id hii]
    exact hok id hid

theorem Mapped.of_sameMetadata {c c' : CMSReadClient} (h : Mapped c) (hs : SameMetadata c c') :
    Mapped c' where
  toObjects := h.toObjects.congr hs.instanceMetadatas hs.nextRef
  listed := fun ip id => by
    rw [idsAt, hs.ipToInstanceIDs, oldIP_congr (congrArg (lookup id) hs.instanceMetadatas) hs.metadata]
    exact h.listed ip id
  reverse := fun id => by
    rw [hs.instanceIDToIP, oldIP_congr (congrArg (lookup id) hs.instanceMetadatas) hs.metadata]
    exact h.reverse id
  nonempty := fun ip => by
    rw [hs.ipToInstanceIDs]
    exact h.nonempty ip

theorem mapped_exec {s t : State} {a : Action} (hok : IpOk s a) (hex : exec s a = some t)
    (h : Mapped s.client) : Mapped t.client := by
  rcases exec_cases hex with rfl | ⟨r, order, rfl, -, rfl⟩ | ⟨r, rfl, -, -, hc, -⟩ | ⟨order, rfl, -, -, rfl⟩
  · exact h.of_sameMetadata ⟨rfl, rfl, rfl, rfl, rfl, le_refl _⟩
  · exact mapped_refreshInstanceMetadata h order hok
  · rw [hc]
    exact h.of_sameMetadata (sameMetadata_refreshStatuses _ r)
  · exact h.of_sameMetadata (sameMetadata_setReservedInstance _ order)

theorem mapped_start (enableAdaptivePD : Bool) : Mapped (State.start enableAdaptivePD).client where
  distinct := fun i j ref h => by cases h
  made := fun i ref h => by cases h
  listed := fun ip id => by
    refine iff_of_false (notMem_empty id) ?_
    rintro ⟨hip, rfl⟩
    exact hip rfl
  reverse := fun id => rfl
  nonempty := fun ip => nofun

/-- **The index is consistent in every state that guarded refreshes reach.** -/
theorem ipConsistent_of_reaches {enableAdaptivePD : Bool} {s : State}
    (h : Reaches exec IpOk (State.start enableAdaptivePD) s) : IpConsistent s.client :=
  Mapped.ipConsistent (h.invariant (mapped_start _) fun _ _ _ hok hex => mapped_exec hok hex)

def metadataAt (ip : String) : InstanceMetadata := { InstanceMetadata.empty with ipKvs := ip }

/-- An instance moves, and another one appears at its old address. -/
def movingRun : List Action :=
  [.refreshMetadata (some ⟨["a", "a"], fun _ => .bytes (metadataAt "10.0.0.1")⟩) [],
    .refreshMetadata (some ⟨["a", "b"], fun id =>
      .bytes (metadataAt (if id = "a" then "10.0.0.2" else "10.0.0.1"))⟩) ["a"]]

theorem ipConsistent_after_movingRun : ∃ s, Reaches exec IpOk (State.start false) s ∧
      s.client.getInstanceIDsByIPs ["10.0.0.1"] = {"b"} ∧ IpConsistent s.client :=
  Reaches.exists_and (l := movingRun) (by decide +kernel) fun _ => ipConsistent_of_reaches

/-- The value of an instance is missing once, and then it is there with another address. -/
def missingRun : List Action :=
  [.refreshMetadata (some ⟨["a"], fun _ => .bytes (metadataAt "10.0.0.1")⟩) [],
    .refreshMetadata (some ⟨["a"], fun _ => .nil⟩) ["a"],
    .refreshMetadata (some ⟨["a"], fun _ => .bytes (metadataAt "10.0.0.2")⟩) ["a"]]

/-- **A missing value stays listed**: a hit on the old address is still credited to the instance. -/
theorem missing_value_stays_listed :
    ¬ ∀ s, Reaches exec free (State.start false) s → IpConsistent s.client := by
  intro h
  have hr : ∃ s ∈ runAll exec free (State.start false) missingRun,
      s.client.oldIP "a" = "10.0.0.2" ∧ "a" ∈ idsAt s.client "10.0.0.1" := by decide +kernel
  obtain ⟨s, hs, hip, hl⟩ := Reaches.of_exists hr
  obtain ⟨hne, hh⟩ := ((h s hs).listed "10.0.0.1" "a").1 hl
  rw [hasIP_iff hne, hip] at hh
  exact absurd hh (by decide)

end Llumnix.ReadClient
