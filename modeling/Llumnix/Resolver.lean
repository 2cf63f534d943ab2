/-
**The resolver of backend instances.**

A resolver polls Redis for the pods that announce themselves, turns what it reads into a list of instances,
compares the list with the one before and tells its observers what was added and what was removed.  This
module models `DiffSets` of `pkg/resolver/utils.go` and the list that `redisResolver.refresh` computes.

* `diffSets_spec` — **what the difference is**, for a list with distinct keys.

`DiffSets` collects the removed items by ranging over a map, so their order is an argument here.
-/

import Llumnix.FiniteMap
import Llumnix.InstanceTypes

namespace Llumnix.Resolver

open FiniteMap List

/-! ### Announcements -/

structure InstanceDiscoveryInfo where
  instanceType : InferType
  version : Int
  model : String
  entrypointIp : String
  entrypointPort : Int
  kvTransferIp : String
  kvTransferPort : Int
  dpRank : Int
  dpSize : Int
  deriving DecidableEq

structure PodDiscoveryInfo where
  podName : String
  timestampMs : Int
  instances : List InstanceDiscoveryInfo
  deriving DecidableEq

/-- The instance that a pod announces. -/
def toLLMInstance (podName : String) (info : InstanceDiscoveryInfo) : LLMInstance where
  version := info.version
  ID := podName ++ "_dp" ++ toString info.dpRank
  model := info.model
  inferType := info.instanceType
  endpoint := ⟨info.entrypointIp, info.entrypointPort⟩
  auxIp := info.kvTransferIp
  auxPort := info.kvTransferPort
  dpRank := info.dpRank
  dpSize := info.dpSize

/-- The loop of `redisResolver.refresh`: missing, undecodable and expired pods are skipped, and so are
the instances of other types than the resolver looks for. -/
def newInstances (inferType : InferType) (statusTTLMs now : Int)
    (podInfos : List (Option PodDiscoveryInfo)) : List LLMInstance :=
  podInfos.flatMap fun
  | none => []
  | some podInfo =>
    if podInfo.timestampMs < now - statusTTLMs then []
    else (podInfo.instances.filter fun info =>
      info.instanceType = inferType ∨ inferType = .all).map (toLLMInstance podInfo.podName)

/-! ### Differences -/

section

variable {α : Type} (key : α → String)

variable (old : List α)

/-- The map of the old items; of items with the same key the last one stays. -/
def oldMap : Finmap fun _ : String => α :=
  old.foldl (fun m item => m.insert (key item) item) ∅

/-- One turn of the loop of `DiffSets` over the new items. -/
def diffTurn (turn : List α × Finmap fun _ : String => α) (item : α) :
    List α × Finmap fun _ : String => α :=
  if (turn.2.lookup (key item)).isSome then (turn.1, turn.2.erase (key item))
  else (turn.1 ++ [item], turn.2)

/-- `DiffSets`: the items that were added, and a map of those that were removed. -/
def diffSets (new : List α) : List α × Finmap fun _ : String => α :=
  new.foldl (diffTurn key) ([], oldMap key old)

/-- The list holds the items of the map, in the order of some iteration. -/
def Lists (m : Finmap fun _ : String => α) (items : List α) : Prop :=
  Enumerates (items.map key) m.keys ∧ ∀ item ∈ items, m.lookup (key item) = some item

instance [DecidableEq α] (m : Finmap fun _ : String => α) (items : List α) :
    Decidable (Lists key m items) :=
  inferInstanceAs (Decidable (_ ∧ _))

theorem lookup_oldMap (k : String) : (oldMap key old).lookup k = old.reverse.find? (key · = k) := by
  induction old using reverseRecOn with
  | nil => rfl
  | append_singleton old item ih =>
    rw [oldMap, foldl_concat, ← oldMap, lookup_insert_ite, ih, reverse_concat, find?_cons]
    by_cases hk : k = key item <;> simp [hk, eq_comm]

theorem diffTurn_spec (turn : List α × Finmap fun _ : String => α) (item : α) :
    (diffTurn key turn item).1 = turn.1 ++ [item].filter (fun item => (turn.2.lookup (key item)).isNone) ∧
      ∀ k, (diffTurn key turn item).2.lookup k = if k = key item then none else turn.2.lookup k := by
  unfold diffTurn
  cases hl : turn.2.lookup (key item) with
  | some => simp [hl, lookup_erase_ite]
  | none =>
    refine ⟨by simp [hl], fun k => ?_⟩
    obtain rfl | hk := eq_or_ne k (key item)
    · simp [hl]
    · simp [hk]

/-- The loop over new items with distinct keys: an item is new if the map does not know it, and the
map loses the keys of the new items. -/
theorem foldl_diffTurn (new : List α) (turn : List α × Finmap fun _ : String => α) (hn : (new.map key).Nodup) :
    (new.foldl (diffTurn key) turn).1 =
        turn.1 ++ new.filter (fun item => (turn.2.lookup (key item)).isNone) ∧
      ∀ k, (new.foldl (diffTurn key) turn).2.lookup k =
        if k ∈ new.map key then none else turn.2.lookup k := by
  induction new generalizing turn with
  | nil => simp
  | cons item new ih =>
    rw [map_cons, nodup_cons] at hn
    obtain ⟨ha, hl⟩ := diffTurn_spec key turn item
    obtain ⟨iha, ihl⟩ := ih (diffTurn key turn item) hn.2
    rw [foldl_cons]
    refine ⟨?_, fun k => ?_⟩
    · -- the keys are distinct, so the first turn does not touch what the later ones look up
      have ho : ∀ y ∈ new, key y ≠ key item := fun y hy h => hn.1 (h ▸ mem_map_of_mem hy)
      have hf : new.filter (fun y => ((diffTurn key turn item).2.lookup (key y)).isNone) =
          new.filter fun y => (turn.2.lookup (key y)).isNone :=
        filter_congr fun y hy => by rw [hl, if_neg (ho y hy)]
      rw [iha, ha, hf, append_assoc, ← filter_append, singleton_append]
    · rw [ihl, hl, map_cons]
      by_cases hk : k = key item <;> simp [hk]

/-- **What the difference is**, for new items with distinct keys: the new items whose key is not old,
and the old items whose key is not new. -/
theorem diffSets_spec {old new removed : List α} (hn : (new.map key).Nodup)
    (hr : Lists key (diffSets key old new).2 removed) :
    (diffSets key old new).1 = new.filter (fun item => key item ∉ old.map key) ∧ (removed.map key).Nodup ∧
      (∀ k, k ∈ removed.map key ↔ k ∈ old.map key ∧ k ∉ new.map key) ∧ ∀ item ∈ removed, item ∈ old := by
  obtain ⟨ha, hlo⟩ := foldl_diffTurn key new ([], oldMap key old) hn
  obtain ⟨⟨hdi, hke⟩, hi⟩ := hr
  refine ⟨?_, hdi, fun k => ?_, fun item him => ?_⟩
  · rw [diffSets, ha, nil_append]
    refine filter_congr fun item _ => Bool.eq_iff_iff.2 ?_
    simp [lookup_oldMap]
  · rw [hke, Finmap.mem_keys, ← Finmap.lookup_isSome, diffSets, hlo, lookup_oldMap]
    split <;> simp_all
  · have hf := hi item him
    rw [diffSets, hlo, lookup_oldMap] at hf
    split at hf
    · cases hf
    · exact mem_reverse.1 (mem_of_find?_eq_some hf)

/-- **A list is the previous one, plus what was added, minus what was removed.** -/
theorem count_diff {old new removed : List α} (hold : (old.map key).Nodup)
    (hn : (new.map key).Nodup) (hr : Lists key (diffSets key old new).2 removed) (k : String) :
    (new.map key).count k + (removed.map key).count k =
      (old.map key).count k + ((diffSets key old new).1.map key).count k := by
  obtain ⟨ha, hdi, hk, -⟩ := diffSets_spec key hn hr
  have hdi' : ((diffSets key old new).1.map key).Nodup := by
    rw [ha]
    exact (filter_sublist.map key).nodup hn
  have hm : k ∈ (diffSets key old new).1.map key ↔ k ∈ new.map key ∧ k ∉ old.map key := by
    rw [ha]
    grind
  rw [hn.count, hdi.count, hold.count, hdi'.count]
  simp only [hk, hm]
  by_cases h₁ : k ∈ new.map key <;> by_cases h₂ : k ∈ old.map key <;> simp [h₁, h₂]

end

end Llumnix.Resolver
