/-
**The reserved instances of adaptive PD.**

Under adaptive PD one instance is reserved for prefill and one for decode.  After a refresh of the statuses
the read client fills a role that is free: a scan takes the first instance that has nothing to do in the
other stage, and if there is none the least busy one.  A reserved instance loses its role when its id is no
longer announced, but not when its status is missing, which takes its view as well.  And only the scan for
prefill looks at what the other role has, so both roles may fall back to the same instance.

* `reservedSound_of_reaches` — **the reservation is sound in every state that guarded refreshes reach**.
-/

import Llumnix.CmsCoherence

namespace Llumnix.ReadClient

open FiniteMap GuardedRun CMSReadClient Option List Nat

/-! ### The property -/

/-- **The reservation is sound.** -/
structure ReservedSound (c : CMSReadClient) : Prop where
  marked : ∀ role, c.reservedInstance role ≠ "" → ∃ ref,
    c.instanceViews.lookup (c.reservedInstance role) = some ref ∧
      (c.view ref).reservedInferType = role.inferType
  alone : ∀ role, c.reservedInstance role ≠ "" → ∀ id ref, c.instanceViews.lookup id = some ref →
    (c.view ref).reservedInferType = role.inferType → id = c.reservedInstance role
  different : c.reservedPrefillInstance ≠ "" → c.reservedDecodeInstance ≠ "" →
    c.reservedPrefillInstance ≠ c.reservedDecodeInstance

/-- An instance with a status has a name and metadata, and a reserved one that is still announced has a
status. -/
def StatusesOk (c : CMSReadClient) (r : StatusRead) : Prop :=
  (∀ id ∈ c.instanceIDs, (r.values id).isSome = true →
    id ≠ "" ∧ c.instanceMetadatas.lookup id ≠ some none) ∧
  ∀ id ∈ c.instanceIDs, id ≠ "" →
    (id = c.reservedPrefillInstance ∨ id = c.reservedDecodeInstance) → (r.values id).isSome = true

/-- Decode is taken, or there are no instances, or one has nothing to prefill and the one reserved for prefill
has. -/
def DecodeOk (c : CMSReadClient) : Prop :=
  c.reservedDecodeInstance ≠ "" ∨ c.instanceStatuses.keys = ∅ ∨
    (∃ id ∈ c.instanceStatuses.keys, (c.statusOf id).decodeIdle = true) ∧
      (c.reservedPrefillInstance = "" ∨ (c.statusOf c.reservedPrefillInstance).decodeIdle = false)

/-- **The refreshes that keep the reservation sound.** -/
def ReserveOk (s : State) : Action → Prop
  | .refreshStatuses (some r) => StatusesOk s.client r
  | .setReserved _ => DecodeOk s.client
  | _ => True

instance (c : CMSReadClient) (r : StatusRead) : Decidable (StatusesOk c r) :=
  inferInstanceAs (Decidable (_ ∧ _))

instance (c : CMSReadClient) : Decidable (DecodeOk c) :=
  inferInstanceAs (Decidable (_ ∨ _ ∨ _))

instance (s : State) : ∀ a, Decidable (ReserveOk s a) := by
  rintro (_ | ⟨_ | r⟩ | _) <;> (dsimp only [ReserveOk]; infer_instance)

/-! ### The invariant -/

/-- **What every guarded refresh keeps**: a view has a role exactly if its instance is the reserved one. -/
structure Reserving (c : CMSReadClient) : Prop where
  paired : ∀ id, (c.instanceStatuses.lookup id).isSome = (c.instanceViews.lookup id).isSome
  named : c.instanceStatuses.lookup "" = none
  distinct : ∀ i j ref, c.instanceViews.lookup i = some ref → c.instanceViews.lookup j = some ref →
    i = j
  viewMade : ∀ id ref, c.instanceViews.lookup id = some ref → ref < c.nextRef
  marked : ∀ role, c.reservedInstance role ≠ "" → ∃ ref,
    c.instanceViews.lookup (c.reservedInstance role) = some ref ∧
      (c.view ref).reservedInferType = role.inferType
  alone : ∀ role id ref, c.instanceViews.lookup id = some ref →
    (c.view ref).reservedInferType = role.inferType → c.reservedInstance role = id

theorem Role.inferType_ne_unset (role : Role) : role.inferType ≠ .unset := by
  cases role <;> exact nofun

theorem Role.inferType_injective {role role' : Role} (h : role.inferType = role'.inferType) :
    role = role' := by
  cases role <;> cases role' <;> first
    | rfl
    | cases h

section

variable {c c' : CMSReadClient} {id : String}
variable {rest : List String} {scan : Scan}

theorem Reserving.reservedSound (h : Reserving c) : ReservedSound c where
  marked := h.marked
  alone := fun role _ id ref hre hr => (h.alone role id ref hre hr).symm
  different := fun (hp : c.reservedInstance .prefill ≠ "") _ heq => by
    have hs : c.reservedInstance .prefill = c.reservedInstance .decode := heq
    obtain ⟨ref, hre, hr⟩ := h.marked .prefill hp
    -- the view would have both roles
    obtain ⟨ref', hre', hr'⟩ := h.marked .decode (hs ▸ hp)
    rw [hs] at hre
    cases hre.symm.trans hre'
    exact absurd (Role.inferType_injective (hr.symm.trans hr')) nofun

theorem Reserving.noView (h : Reserving c) : c.instanceViews.lookup "" = none := by
  have hp := h.paired ""
  rw [h.named] at hp
  exact not_isSome_iff_eq_none.1 (by rw [← hp]; exact Bool.false_ne_true)

theorem Reserving.of_same (h : Reserving c) (hs : c'.instanceStatuses = c.instanceStatuses)
    (hv : c'.instanceViews = c.instanceViews) (hvi : c'.view = c.view)
    (hr : c'.reservedInstance = c.reservedInstance) (hn : c.nextRef ≤ c'.nextRef) : Reserving c' where
  paired := by
    rw [hs, hv]
    exact h.paired
  named := by
    rw [hs]
    exact h.named
  distinct := by
    rw [hv]
    exact h.distinct
  viewMade := fun id ref hre => by
    rw [hv] at hre
    exact lt_of_lt_of_le (h.viewMade id ref hre) hn
  marked := by
    rw [hr, hv, hvi]
    exact h.marked
  alone := by
    rw [hr, hv, hvi]
    exact h.alone

theorem reservedInstance_setReserved (c : CMSReadClient) (role role' : Role) (id : String) :
    (c.setReserved role id).reservedInstance role' =
      if role' = role then id else c.reservedInstance role' := by
  cases role <;> cases role' <;> rfl

/-- **An instance goes**: its status, its view and its role. -/
theorem Reserving.of_drop (h : Reserving c) (id : String) (hs : ∀ j, c'.instanceStatuses.lookup j =
      if j = id then none else c.instanceStatuses.lookup j)
    (hl : ∀ j, c'.instanceViews.lookup j = if j = id then none else c.instanceViews.lookup j)
    (hv : c'.view = c.view) (hn : c'.nextRef = c.nextRef) (hre : ∀ role, c'.reservedInstance role =
      if c.reservedInstance role = id then "" else c.reservedInstance role) : Reserving c' := by
  have hsu : ∀ {j ref}, c'.instanceViews.lookup j = some ref →
      j ≠ id ∧ c.instanceViews.lookup j = some ref := by
    intro j ref hr
    rw [hl] at hr
    split at hr
    · cases hr
    · next hj => exact ⟨hj, hr⟩
  refine ⟨fun j => ?_, ?_, fun i j ref hi hj => h.distinct i j ref (hsu hi).2 (hsu hj).2,
    fun j ref hr => hn ▸ h.viewMade j ref (hsu hr).2, fun role hro => ?_,
    fun role j ref hr hm => ?_⟩
  · rw [hl, hs]
    split
    · rfl
    · exact h.paired j
  · rw [hs, h.named, ite_self]
  · rw [hre] at hro ⊢
    split at hro
    · exact absurd rfl hro
    · next ho =>
      obtain ⟨ref, hr, hm⟩ := h.marked role hro
      refine ⟨ref, ?_, hv ▸ hm⟩
      rw [if_neg ho, hl, if_neg ho]
      exact hr
  · obtain ⟨hj, hr⟩ := hsu hr
    rw [hv] at hm
    rw [hre, h.alone role j ref hr hm, if_neg hj]

theorem reserving_dropInstance (h : Reserving c) (id : String)
    (hf : ∀ role, c.reservedInstance role ≠ "" → c.reservedInstance role ≠ id) :
    Reserving (c.dropInstance id) := by
  refine h.of_drop id (fun j => lookup_erase_ite _ _ _) (fun j => lookup_erase_ite _ _ _) rfl rfl
    fun role => ?_
  split
  · next hid => exact not_not.1 fun hr => hf role hr hid
  · rfl

theorem reservedInstance_release (c : CMSReadClient) (id : String) (role role' : Role) :
    (c.release id role).reservedInstance role' =
      if role' = role ∧ c.reservedInstance role' = id then "" else c.reservedInstance role' := by
  unfold release
  by_cases hr : role' = role
  · subst hr
    by_cases hid : c.reservedInstance role' = id
    · rw [if_pos hid, reservedInstance_setReserved, if_pos rfl, if_pos ⟨rfl, hid⟩]
    · rw [if_neg hid, if_neg (fun h => hid h.2)]
  · split
    · rw [reservedInstance_setReserved, if_neg hr, if_neg fun h => hr h.1]
    · rw [if_neg fun h => hr h.1]

theorem reservedInstance_forgetStatus (c : CMSReadClient) (id : String) (role : Role) :
    (c.forgetStatus id).reservedInstance role = c.reservedInstance role ∨
      (c.forgetStatus id).reservedInstance role = "" := by
  unfold forgetStatus
  split
  · exact .inl rfl
  · rw [reservedInstance_release]
    split
    · exact .inr rfl
    · rw [reservedInstance_release]
      split
      · exact .inr rfl
      · exact .inl rfl

/-- **An instance that has gone loses its roles with its view.** -/
theorem reserving_forgetStatus (h : Reserving c) (id : String) : Reserving (c.forgetStatus id) := by
  unfold forgetStatus
  split
  · exact h
  have ht := (release_tables (c.dropInstance id) id .prefill).trans
    (release_tables ((c.dropInstance id).release id .prefill) id .decode)
  refine h.of_drop id (fun j => ?_) (fun j => ?_) ht.view ht.nextRef fun role => ?_
  · rw [ht.instanceStatuses]
    exact lookup_erase_ite _ _ _
  · rw [ht.instanceViews]
    exact lookup_erase_ite _ _ _
  cases role with
  | prefill =>
    rw [reservedInstance_release, if_neg (fun h => Role.noConfusion h.1), reservedInstance_release]
    simp only [true_and]
    rfl
  | decode =>
    rw [reservedInstance_release, reservedInstance_release (c.dropInstance id),
      if_neg (c := Role.decode = .prefill ∧ _) (fun h => Role.noConfusion h.1)]
    simp only [true_and]
    rfl

theorem reserving_createView (h : Reserving c) (hid : id ≠ "")
    (hno : c.instanceStatuses.lookup id = none) (metadata : Ref) :
    Reserving ((c.createStatus id).createView id metadata c.nextRef) := by
  obtain ⟨hl, hs, hse, hold, hma⟩ := createView_spec c id metadata rfl h.viewMade
  have hne := congrArg InstanceView.reservedInferType hse
  have hn : c.instanceViews.lookup id = none := by
    have hp := h.paired id
    rw [hno] at hp
    exact not_isSome_iff_eq_none.1 (by rw [← hp]; exact Bool.false_ne_true)
  refine ⟨fun j => ?_, ?_, fun i j ref hi hj => ?_, hma, fun role hro => ?_, fun role j ref hr hm => ?_⟩
  · rw [hl, hs]
    split
    · rfl
    · exact h.paired j
  · rw [hs, if_neg (Ne.symm hid), h.named]
  · rw [hl] at hi hj
    split at hi
    · next hi' =>
      cases hi
      split at hj
      · next hj' => exact hi'.trans hj'.symm
      · exact absurd rfl (hold j _ hj).1
    · split at hj
      · cases hj
        exact absurd rfl (hold i _ hi).1
      · exact h.distinct i j ref hi hj
  · obtain ⟨ref, hr, hm⟩ := h.marked role hro
    refine ⟨ref, ?_, (congrArg InstanceView.reservedInferType (hold _ ref hr).2).trans hm⟩
    rw [hl]
    refine (if_neg fun hid => ?_).trans hr
    have hv : c.instanceViews.lookup (c.reservedInstance role) = none := hid ▸ hn
    cases hv.symm.trans hr
  · rw [hl] at hr
    split at hr
    · cases hr
      exact absurd (hm.symm.trans hne) role.inferType_ne_unset
    · rw [(hold j ref hr).2] at hm
      exact h.alone role j ref hr hm

/-- **Reserving an instance for a role that is free**, if it has no other role. -/
theorem reserve_ok (h : Reserving c) {role : Role}
    (hid : (c.instanceStatuses.lookup id).isSome = true) (hf : c.reservedInstance role = "")
    (ho : ∀ role', c.reservedInstance role' = id → role' = role) :
    ∃ c', c.reserve role id = .ok c' ∧ Reserving c' ∧
      c'.instanceStatuses = c.instanceStatuses ∧ c'.status = c.status ∧
      ∀ role', c'.reservedInstance role' = if role' = role then id else c.reservedInstance role' := by
  obtain ⟨ref, hre⟩ := isSome_iff_exists.1 ((h.paired id).symm.trans hid)
  have ht := setReserved_tables c role id
  have hr := fun role' => reservedInstance_setReserved c role role' id
  refine ⟨markView (c.setReserved role id) ref role, ?_, ?_, ht.instanceStatuses,
    ht.status, fun role' => ?_⟩
  · unfold reserve
    have hv : (c.setReserved role id).instanceViews.lookup id = some ref := by
      rw [ht.instanceViews]
      exact hre
    simp only [hv]
    rfl
  · have hl : (markView (c.setReserved role id) ref role).instanceViews = c.instanceViews :=
      ht.instanceViews
    have hma : ((markView (c.setReserved role id) ref role).view ref).reservedInferType =
        role.inferType := by
      unfold markView
      dsimp only
      rw [Function.update_self]
    have hold : ∀ ref', ref' ≠ ref →
        (markView (c.setReserved role id) ref role).view ref' = c.view ref' := fun ref' hne =>
      (Function.update_of_ne hne _ _).trans (congrFun ht.view ref')
    refine ⟨fun j => ?_, ?_, hl ▸ h.distinct, fun j ref' hr' => ?_, fun role' hro' => ?_,
      fun role' j ref' hr' hm => ?_⟩
    · rw [hl]
      exact (congrArg (fun t => (Finmap.lookup j t).isSome) ht.instanceStatuses).trans (h.paired j)
    · exact (congrArg (Finmap.lookup "") ht.instanceStatuses).trans h.named
    · rw [hl] at hr'
      exact lt_of_lt_of_eq (h.viewMade j ref' hr') ht.nextRef.symm
    · rw [hl]
      change (c.setReserved role id).reservedInstance role' ≠ "" at hro'
      change ∃ ref', c.instanceViews.lookup ((c.setReserved role id).reservedInstance role') = _ ∧ _
      rw [hr] at hro' ⊢
      by_cases hro : role' = role
      · rw [if_pos hro]
        exact ⟨ref, hre, hro ▸ hma⟩
      · rw [if_neg hro] at hro' ⊢
        obtain ⟨ref', hr', hm⟩ := h.marked role' hro'
        refine ⟨ref', hr', ?_⟩
        rw [hold ref' fun heq => hro (ho role' (h.distinct _ _ ref' hr' (heq ▸ hre)))]
        exact hm
    · rw [hl] at hr'
      change (c.setReserved role id).reservedInstance role' = j
      rw [hr]
      by_cases hne : ref' = ref
      · subst hne
        rw [if_pos (Role.inferType_injective (hm.symm.trans hma))]
        exact h.distinct id j ref' hre hr'
      rw [hold ref' hne] at hm
      have ha := h.alone role' j ref' hr' hm
      split
      · next hro =>
        -- the role was free, and no view is filed under the empty string
        rw [hro, hf] at ha
        rw [← ha, h.noView] at hr'
        cases hr'
      · exact ha
  · exact hr role'

/-! ### A refresh of the statuses -/

/-- What the loops of a refresh keep.  A role is lost on the way, but no other instance gets it. -/
structure Refreshing (c c' : CMSReadClient) : Prop extends Reserving c', SameMetadata c c' where
  roles : ∀ role, c'.reservedInstance role = c.reservedInstance role ∨ c'.reservedInstance role = ""

theorem refreshing_forgetStatus (h : Refreshing c c') (id : String) :
    Refreshing c (c'.forgetStatus id) := by
  refine ⟨reserving_forgetStatus h.toReserving id,
    h.toSameMetadata.trans (sameMetadata_forgetStatus c' id), fun role => ?_⟩
  rcases reservedInstance_forgetStatus c' id role with hr | hr
  · rw [hr]
    exact h.roles role
  · exact .inr hr

theorem refreshing_updateStatus (h : Refreshing c c') {r : StatusRead} (hok : StatusesOk c r)
    (hid : id ∈ c.instanceIDs) : Refreshing c (recover (c'.updateStatus r id)) := by
  obtain ⟨hv, hk⟩ := hok
  have hbo : Reserving (recover (c'.updateStatus r id)) ∧
      (recover (c'.updateStatus r id)).reservedInstance = c'.reservedInstance := by
    refine recover_updateStatus (P := fun c'' => Reserving c'' ∧ c''.reservedInstance = c'.reservedInstance)
      ⟨h.toReserving, rfl⟩ (fun hn => ?_) (fun buffer hb _ hn => ?_)
      (fun buffer ref hb hno _ => ?_) fun c'' ref _ _ hc'' _ _ => ?_
    · refine ⟨reserving_dropInstance h.toReserving id fun role hr hs => ?_, rfl⟩
      -- the guard gives a reserved instance a value
      rcases h.roles role with hsa | he
      · rw [hsa] at hr hs
        have hre : id = c.reservedPrefillInstance ∨ id = c.reservedDecodeInstance := by
          cases role with
          | prefill => exact .inl hs.symm
          | decode => exact .inr hs.symm
        have hso := hk id hid (hs ▸ hr) hre
        rw [hn] at hso
        cases hso
      · exact hr he
    · rw [h.instanceMetadatas] at hn
      exact absurd hn (hv id hid (by rw [hb]; rfl)).2
    · have hna := (hv id hid (by rw [hb]; rfl)).1
      exact ⟨reserving_createView h.toReserving hna hno ref, rfl⟩
    · exact ⟨hc''.1.of_same rfl rfl rfl rfl (le_refl _), hc''.2⟩
  refine ⟨hbo.1, h.toSameMetadata.trans (sameMetadata_updateStatus c' r id), ?_⟩
  rw [hbo.2]
  exact h.roles

/-- **A guarded refresh of the statuses keeps the reservation**, whether or not it panics. -/
theorem reserving_refreshStatuses (h : Reserving c) {r : StatusRead} (hok : StatusesOk c r) :
    Reserving (recover (c.refreshStatuses r)) := by
  have hs : Refreshing c { c with isAlive := true } :=
    ⟨h.of_same rfl rfl rfl rfl (le_refl _), ⟨rfl, rfl, rfl, rfl, rfl, le_refl _⟩, fun _ => .inl rfl⟩
  exact (recover_refreshStatuses (P := Refreshing c) hs (fun _ i _ hc' => refreshing_forgetStatus hc' i)
    fun _ _ hi hc' => refreshing_updateStatus hc' hok hi).toReserving

/-! ### The scan -/

/-- **What a turn of the scan keeps**, with the instances `rest` still to come: decode is reserved or will be,
on an instance that is neither the one reserved for prefill nor the one to fall back to. -/
structure ScanInv (rest : List String) (c : CMSReadClient) (scan : Scan) : Prop
    extends Reserving c where
  nodup : rest.Nodup
  known : ∀ id ∈ rest, (c.instanceStatuses.lookup id).isSome = true
  decode : c.reservedDecodeInstance ≠ "" ∨ ∃ id ∈ rest, (c.statusOf id).decodeIdle = true
  apart : c.reservedDecodeInstance = "" → ∀ id ∈ rest, (c.statusOf id).decodeIdle = true →
    c.reservedPrefillInstance ≠ id
  least : scan.leastBusyPrefillInstanceId ≠ "" →
    (c.instanceStatuses.lookup scan.leastBusyPrefillInstanceId).isSome = true ∧
      scan.leastBusyPrefillInstanceId ≠ c.reservedDecodeInstance ∧
      scan.leastBusyPrefillInstanceId ∉ rest

theorem decodeTurn_ok (h : ScanInv (id :: rest) c scan) :
    ∃ c', (if (c.statusOf id).decodeIdle && c.reservedDecodeInstance = "" then c.reserve .decode id
        else .ok c) = .ok c' ∧ Reserving c' ∧ c'.instanceStatuses = c.instanceStatuses ∧
      c'.status = c.status ∧ c'.reservedPrefillInstance = c.reservedPrefillInstance ∧
      (c'.reservedDecodeInstance = id ∨ c'.reservedDecodeInstance = c.reservedDecodeInstance ∧
        (c.reservedDecodeInstance = "" → (c.statusOf id).decodeIdle = false)) := by
  by_cases hc : ((c.statusOf id).decodeIdle && c.reservedDecodeInstance = "") = true
  · rw [if_pos hc]
    obtain ⟨hi, hf⟩ := Bool.and_eq_true_iff.1 hc
    have hf : c.reservedInstance .decode = "" := of_decide_eq_true hf
    obtain ⟨c', hc', hr, hs, hst, hro⟩ := reserve_ok h.toReserving (h.known id mem_cons_self) hf (by
      rintro (_ | _) hsa
      · exact absurd hsa (h.apart hf id mem_cons_self hi)
      · rfl)
    exact ⟨c', hc', hr, hs, hst, hro .prefill, .inl (hro .decode)⟩
  · rw [if_neg hc]
    refine ⟨c, rfl, h.toReserving, rfl, rfl, rfl, .inr ⟨rfl, fun hf => ?_⟩⟩
    simpa [hf] using hc

theorem reserveTurn_ok (h : ScanInv (id :: rest) c scan) :
    ∃ c', c.reserveTurn id = .ok c' ∧ Reserving c' ∧ c'.instanceStatuses = c.instanceStatuses ∧
      c'.status = c.status ∧
      (c'.reservedPrefillInstance = id ∨ c'.reservedPrefillInstance = c.reservedPrefillInstance) ∧
      (c'.reservedDecodeInstance = id ∨ c'.reservedDecodeInstance = c.reservedDecodeInstance ∧
        (c.reservedDecodeInstance = "" → (c.statusOf id).decodeIdle = false)) := by
  obtain ⟨c₁, hc₁, hr, hs, hst, hp, hde⟩ := decodeTurn_ok h
  unfold reserveTurn
  simp only [hc₁]
  split
  · next hc =>
    simp only [Bool.and_eq_true, decide_eq_true_eq] at hc
    obtain ⟨⟨-, hf⟩, hne⟩ := hc
    have hid : (c₁.instanceStatuses.lookup id).isSome = true := hs ▸ h.known id mem_cons_self
    have hf : c₁.reservedInstance .prefill = "" := hf
    obtain ⟨c₂, hc₂, hr₂, hs₂, hst₂, hro⟩ := reserve_ok hr hid hf (by
      rintro (_ | _) hsa
      · rfl
      · exact absurd hsa.symm hne)
    refine ⟨c₂, hc₂, hr₂, hs₂.trans hs, hst₂.trans hst, .inl (hro .prefill), ?_⟩
    have hsa : c₂.reservedDecodeInstance = c₁.reservedDecodeInstance := hro .decode
    rw [hsa]
    exact hde
  · exact ⟨c₁, rfl, hr, hs, hst, .inr hp, hde⟩

theorem statusOf_congr (hs : c'.instanceStatuses = c.instanceStatuses)
    (hst : c'.status = c.status) : c'.statusOf = c.statusOf := by
  funext j
  unfold statusOf
  rw [hs, hst]

theorem ScanInv.turn (h : ScanInv (id :: rest) c scan) : ∃ c', c.reserveTurn id = .ok c' ∧
      ScanInv rest c' (scan.see c'.reservedDecodeInstance id (c'.statusOf id)) := by
  obtain ⟨c', hc', hr, hst, hss, hp, hde⟩ := reserveTurn_ok h
  obtain ⟨hid, hno⟩ := nodup_cons.1 h.nodup
  have hsa := statusOf_congr hst hss
  have hn : id ≠ "" := by
    rintro rfl
    have hk := h.known "" mem_cons_self
    rw [h.named] at hk
    cases hk
  refine ⟨c', hc', hr, hno, fun j hj => ?_, ?_, fun hf j hj hi => ?_, fun hl => ?_⟩
  · rw [hst]
    exact h.known j (mem_cons_of_mem _ hj)
  · rcases hde with hs | ⟨hold, hb⟩
    · exact .inl (hs ▸ hn)
    rw [hold, hsa]
    by_cases hf : c.reservedDecodeInstance = ""
    · -- this instance was not the one, so it is still to come
      obtain hse | ⟨j, hj, hi⟩ := h.decode
      · exact absurd hf hse
      · rcases mem_cons.1 hj with rfl | hj
        · rw [hb hf] at hi
          cases hi
        · exact .inr ⟨j, hj, hi⟩
    · exact .inl hf
  · rw [hsa] at hi
    rcases hde with hs | ⟨hold, -⟩
    · exact absurd (hs.symm.trans hf) hn
    · rcases hp with hs | hsa
      · rw [hs]
        rintro rfl
        exact hid hj
      · rw [hsa]
        exact h.apart (hold.symm.trans hf) j (mem_cons_of_mem _ hj) hi
  · simp only [Scan.see] at hl ⊢
    split at hl
    · next hc =>
      rw [if_pos hc]
      exact ⟨hst ▸ h.known id mem_cons_self, hc.2, hid⟩
    next hc =>
    rw [if_neg hc]
    obtain ⟨hk, hne, hre⟩ := h.least hl
    refine ⟨hst ▸ hk, ?_, fun hm => hre (mem_cons_of_mem _ hm)⟩
    rcases hde with hs | ⟨hsa, -⟩
    · rw [hs]
      exact fun heq => hre (heq ▸ mem_cons_self)
    · rw [hsa]
      exact hne

/-- **The whole scan**, which ends early or has seen every instance. -/
theorem scanStatuses_ok : ∀ (rest : List String) (c : CMSReadClient) (scan : Scan),
    ScanInv rest c scan → ∃ c' scan', scanStatuses rest c scan = .ok (c', scan') ∧ Reserving c' ∧
      ∀ scan'' ∈ scan', ScanInv [] c' scan'' := by
  intro rest
  induction rest with
  | nil =>
    intro c scan h
    exact ⟨c, some scan, rfl, h.toReserving, fun scan'' hs => some.inj hs ▸ h⟩
  | cons id rest ih =>
  intro c scan h
  obtain ⟨c', hc', hi⟩ := h.turn
  simp only [scanStatuses, hc']
  split
  · exact ⟨c', none, rfl, hi.toReserving, fun scan'' hs => by cases hs⟩
  · exact ih c' _ hi

/-- **Setting the reserved instances keeps the reservation sound.** -/
theorem reserving_setReservedInstance (h : Reserving c) {order : List String}
    (ho : Enumerates order c.instanceStatuses.keys) (hok : DecodeOk c) :
    Reserving (recover (c.setReservedInstance order)) := by
  have hm : ∀ {id}, id ∈ order ↔ (c.instanceStatuses.lookup id).isSome = true := by
    intro id
    rw [ho.2, Finmap.mem_keys, Finmap.lookup_isSome]
  unfold setReservedInstance
  split
  · exact h
  by_cases hem : order = []
  · subst hem
    simp only [scanStatuses, fallBack, Scan.start, ne_eq, not_true_eq_false, and_false, if_false]
    exact h
  have hin : ScanInv order c .start := by
    refine ⟨h, ho.1, fun id hid => hm.1 hid, ?_, fun hf id hid hi hsa => ?_, fun hl => absurd rfl hl⟩
    · rcases hok with hs | hn | ⟨⟨id, hid, hi⟩, -⟩
      · exact .inl hs
      · obtain ⟨id, hid⟩ := exists_mem_of_ne_nil order hem
        rw [ho.2, hn] at hid
        cases hid
      · exact .inr ⟨id, (ho.2 id).2 hid, hi⟩
    · rcases hok with hs | hn | ⟨-, hn | hb⟩
      · exact hs hf
      · rw [ho.2, hn] at hid
        cases hid
      · have hk := hm.1 hid
        rw [← hsa, hn, h.named] at hk
        cases hk
      · rw [hsa, hi] at hb
        cases hb
  obtain ⟨c', scan', hsc, hr, he⟩ := scanStatuses_ok order c .start hin
  rw [hsc]
  cases scan' with
  | none => exact hr
  | some scan =>
  have he := he scan rfl
  -- every instance has been seen, so decode is reserved
  have hs : c'.reservedDecodeInstance ≠ "" := by
    rcases he.decode with hs | ⟨id, hid, -⟩
    · exact hs
    · cases hid
  have hde : c'.fallBack .decode scan.leastBusyDecodeInstanceId = .ok c' := if_neg fun hf => hs hf.1
  simp only [hde]
  unfold fallBack
  split
  · next hf =>
    obtain ⟨hk, hne, -⟩ := he.least hf.2
    obtain ⟨c'', hc'', hr'', -⟩ := reserve_ok hr hk hf.1 (by
      rintro (_ | _) hsa
      · rfl
      · exact absurd hsa.symm hne)
    rw [hc'']
    exact hr''
  · exact hr

end

/-! ### Runs -/

theorem reserving_start (enableAdaptivePD : Bool) : Reserving (State.start enableAdaptivePD).client where
  paired := fun id => rfl
  named := rfl
  distinct := fun i j ref h => by cases h
  viewMade := fun id ref h => by cases h
  marked := fun role h => by
    cases role <;> exact absurd rfl h
  alone := fun role id ref h => by cases h

theorem reserving_exec {s t : State} {a : Action} (hok : ReserveOk s a) (hex : exec s a = some t)
    (h : Reserving s.client) : Reserving t.client := by
  rcases exec_cases hex with rfl | ⟨r, order, rfl, -, rfl⟩ | ⟨r, rfl, -, -, hc, -⟩ |
    ⟨order, rfl, -, ho, rfl⟩
  · exact h.of_same rfl rfl rfl rfl (le_refl _)
  · obtain ⟨hv, hn⟩ := sameViews_refreshInstanceMetadata s.client r order
    exact h.of_same hv.instanceStatuses hv.instanceViews hv.view hv.reservedInstance hn
  · rw [hc]
    exact reserving_refreshStatuses h hok
  · exact reserving_setReservedInstance h ho hok

/-- **The reservation is sound after every guarded refresh.** -/
theorem reservedSound_of_reaches {enableAdaptivePD : Bool} {s : State}
    (h : Reaches exec ReserveOk (State.start enableAdaptivePD) s) : ReservedSound s.client :=
  (h.invariant (I := fun s => Reserving s.client) (reserving_start _)
    fun _ _ _ hok hex => reserving_exec hok hex).reservedSound

/-- A refresh of the statuses in which the given instances have tokens to prefill. -/
def prefillingRead (tokens : List (String × BitVec 32)) (timestampMs : Int) (order : List String) :
    StatusRead :=
  { statusRead [] timestampMs order with
    values := fun id => (tokens.find? (·.1 = id)).map fun entry =>
      { sampleStatus timestampMs timestampMs with
        numUncomputedTokensAllWaitingPrefills := entry.2 } }

/-- Three instances appear and two of them are reserved.  Then the one for decode leaves. -/
def reservedRun : List Action :=
  [.refreshMetadata (some (metadataRead [("a", "neutral"), ("b", "neutral"), ("c", "neutral")])) [],
    .refreshStatuses (some (prefillingRead [("a", 0), ("b", 5), ("c", 0)] 1 [])),
    .setReserved ["a", "b", "c"],
    .refreshMetadata (some (metadataRead [("b", "neutral"), ("c", "neutral")])) ["a", "b", "c"],
    .refreshStatuses (some (prefillingRead [("b", 5), ("c", 0)] 2 ["a", "b", "c"])),
    .setReserved ["b", "c"]]

theorem reservedSound_after_reservedRun :
    ∃ s, Reaches exec ReserveOk (State.start true) s ∧ s.phase = .idle true ∧
      s.client.reservedPrefillInstance = "b" ∧ s.client.reservedDecodeInstance = "c" ∧
      ReservedSound s.client := by
  have hru : ∃ s ∈ runAll exec ReserveOk (State.start true) reservedRun, s.phase = .idle true ∧
      s.client.reservedPrefillInstance = "b" ∧ s.client.reservedDecodeInstance = "c" := by decide +kernel
  obtain ⟨s, hs, hph, hp, hde⟩ := Reaches.of_exists hru
  exact ⟨s, hs, hph, hp, hde, reservedSound_of_reaches hs⟩

/-- The instance that is reserved for decode loses its status. -/
def lostStatusRun : List Action :=
  [.refreshMetadata (some (metadataRead [("a", "neutral"), ("b", "neutral")])) [],
    .refreshStatuses (some (prefillingRead [("a", 0), ("b", 0)] 1 [])),
    .setReserved ["a", "b"],
    .refreshStatuses (some (prefillingRead [("b", 0)] 2 ["a", "b"])),
    .setReserved ["b"]]

/-- **A reserved instance without a view**: its status and its view are dropped, and its role is
not. -/
theorem reserved_without_view : ¬ ∀ enableAdaptivePD s, Reaches exec free (State.start enableAdaptivePD) s →
      s.phase ≠ .reserving → ReservedSound s.client := by
  intro h
  have hru : ∃ s ∈ runAll exec free (State.start true) lostStatusRun, s.phase = .idle true ∧
      s.client.reservedInstance .decode = "a" ∧ s.client.instanceViews.lookup "a" = none := by decide +kernel
  obtain ⟨s, hs, hp, hr, hv⟩ := Reaches.of_exists hru
  have hso := h true s hs (by rw [hp]; exact nofun)
  obtain ⟨ref, hre, -⟩ := hso.marked .decode (by rw [hr]; decide)
  rw [hr, hv] at hre
  cases hre

end Llumnix.ReadClient
