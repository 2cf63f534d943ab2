/-
**Finite maps with totals, and the orders in which they are iterated.**

Programs keep their state in hash maps: they look keys up, insert and delete, iterate over a map in an order
the language leaves unspecified, and keep running counters that are meant to be sums over the entries.
Mathlib's `Finmap` supplies the map itself; this module adds, over arbitrary key and value types:

* `FiniteMap.total` — the sum of a weight over the entries of a map, in any commutative monoid;
* `FiniteMap.mapValues`, `FiniteMap.filterMapValues`, `FiniteMap.eraseAll` — bulk changes;
* `FiniteMap.Enumerates` — a list is one of the possible iteration orders of a set of keys.
-/

import Mathlib

namespace FiniteMap

open Option Multiset
open Finmap (ext_lookup lookup_erase lookup_erase_ne lookup_insert lookup_insert_of_ne mem_lookup_iff)

universe u v w

variable {K : Type u} {V : Type v} {A : Type w} [DecidableEq K]
variable {m : Finmap fun _ : K => V} {W : Type w}

/-! ### Insertion and deletion -/

theorem insert_erase_self {k : K} {x : V} (h : m.lookup k = some x) : (m.erase k).insert k x = m := by
  refine ext_lookup fun j => ?_
  by_cases hj : j = k
  · subst hj
    rw [lookup_insert, h]
  · rw [lookup_insert_of_ne _ hj, lookup_erase_ne hj]

theorem insert_erase (m : Finmap fun _ : K => V) (k : K) (x : V) :
    (m.erase k).insert k x = m.insert k x := by
  refine ext_lookup fun j => ?_
  by_cases hj : j = k
  · subst hj
    rw [lookup_insert, lookup_insert]
  · rw [lookup_insert_of_ne _ hj, lookup_erase_ne hj, lookup_insert_of_ne _ hj]

theorem erase_of_none {k : K} (h : m.lookup k = none) : m.erase k = m := by
  refine ext_lookup fun j => ?_
  by_cases hj : j = k
  · subst hj
    rw [lookup_erase, h]
  · rw [lookup_erase_ne hj]

theorem lookup_insert_ite (m : Finmap fun _ : K => V) (k j : K) (x : V) :
    (m.insert k x).lookup j = if j = k then some x else m.lookup j := by
  by_cases hj : j = k
  · subst hj
    rw [lookup_insert, if_pos rfl]
  · rw [lookup_insert_of_ne _ hj, if_neg hj]

theorem lookup_erase_ite (m : Finmap fun _ : K => V) (k j : K) :
    (m.erase k).lookup j = if j = k then none else m.lookup j := by
  by_cases hj : j = k
  · subst hj
    rw [lookup_erase, if_pos rfl]
  · rw [lookup_erase_ne hj, if_neg hj]

/-! ### Totals -/

section

variable [AddCommMonoid A]
variable {m : Finmap fun _ : K => V}

/-- **The total of a weight over a map**: the sum of `f k x` over the entries `k ↦ x`. -/
def total (f : K → V → A) (m : Finmap fun _ : K => V) : A :=
  (m.entries.map fun e => f e.1 e.2).sum

omit [DecidableEq K] in
@[simp] theorem total_empty (f : K → V → A) : total f (∅ : Finmap fun _ : K => V) = 0 := rfl

theorem total_insert_of_none (f : K → V → A) {k : K} (x : V) (h : m.lookup k = none) :
    total f (m.insert k x) = f k x + total f m := by
  have hk : k ∉ m := Finmap.lookup_eq_none.1 h
  simp [total, Finmap.entries_insert_of_notMem hk]

theorem total_eq_add_erase (f : K → V → A) {k : K} {x : V} (h : m.lookup k = some x) :
    total f m = f k x + total f (m.erase k) := by
  conv_lhs => rw [← insert_erase_self h]
  exact total_insert_of_none f x (lookup_erase k m)

/-- Inserting at any key: the old entry of the key is dropped, the new one is added. -/
theorem total_insert (f : K → V → A) (m : Finmap fun _ : K => V) (k : K) (x : V) :
    total f (m.insert k x) = f k x + total f (m.erase k) := by
  rw [← insert_erase, total_insert_of_none f x (lookup_erase k m)]

theorem total_congr {f g : K → V → A} (h : ∀ k x, m.lookup k = some x → f k x = g k x) :
    total f m = total g m := by
  refine congrArg sum (map_congr rfl ?_)
  rintro ⟨k, x⟩ he
  exact h k x (mem_lookup_iff.2 he)

theorem total_eq_zero {f : K → V → A} (h : ∀ k x, m.lookup k = some x → f k x = 0) : total f m = 0 := by
  refine sum_eq_zero fun y hy => ?_
  obtain ⟨⟨k, x⟩, he, rfl⟩ := mem_map.1 hy
  exact h k x (mem_lookup_iff.2 he)

omit [DecidableEq K] in
theorem map_total {B : Type*} [AddCommMonoid B] (g : A →+ B) (f : K → V → A)
    (m : Finmap fun _ : K => V) : g (total f m) = total (fun k x => g (f k x)) m := by
  rw [total, map_multiset_sum, Multiset.map_map]
  rfl

/-- **The keys of a set are deleted**: their weights leave the total. -/
theorem total_eq_sum_add (f : K → V → A) (ks : Finset K) {m' : Finmap fun _ : K => V}
    (h : ∀ k, m'.lookup k = if k ∈ ks then none else m.lookup k) :
    total f m = (∑ k ∈ ks, ((m.lookup k).map (f k)).getD 0) + total f m' := by
  induction ks using Finset.induction_on generalizing m with
  | empty =>
    have hs : m' = m := ext_lookup fun k => by simpa using h k
    rw [hs, Finset.sum_empty, zero_add]
  | insert a ks ha ih =>
  have hr : ∀ k, m'.lookup k = if k ∈ ks then none else (m.erase a).lookup k := by
    intro k
    rw [h, lookup_erase_ite]
    by_cases hk : k = a <;> simp [hk]
  have hke : ∀ k ∈ ks, ((m.erase a).lookup k).map (f k) = (m.lookup k).map (f k) := by
    intro k hk
    rw [lookup_erase_ite, if_neg (ne_of_mem_of_not_mem hk ha)]
  have hsu : (∑ k ∈ ks, (((m.erase a).lookup k).map (f k)).getD 0) =
      ∑ k ∈ ks, ((m.lookup k).map (f k)).getD 0 :=
    Finset.sum_congr rfl fun k hk => by rw [hke k hk]
  rw [Finset.sum_insert ha, add_assoc, ← hsu, ← ih hr]
  cases hx : m.lookup a with
  | none => rw [erase_of_none hx, map_none, getD_none, zero_add]
  | some => rw [total_eq_add_erase f hx, map_some, getD_some]

end

theorem total_nonneg [AddCommMonoid A] [PartialOrder A] [IsOrderedAddMonoid A] {f : K → V → A}
    (h : ∀ k x, m.lookup k = some x → 0 ≤ f k x) : 0 ≤ total f m := by
  refine sum_nonneg fun y hy => ?_
  obtain ⟨⟨k, x⟩, he, rfl⟩ := mem_map.1 hy
  exact h k x (mem_lookup_iff.2 he)

/-! ### Corresponding entries -/

section

variable {W : Type w} {R R' : V → W → Prop} {x : Option V} {y : Option W}

theorem exists_of_rel {v : V} (h : Option.Rel R x y) (hx : x = some v) : ∃ v', y = some v' ∧ R v v' := by
  cases h with
  | some h =>
    cases hx
    exact ⟨_, rfl, h⟩
  | none => cases hx

theorem exists_of_rel_right {v' : W} (h : Option.Rel R x y) (hy : y = some v') :
    ∃ v, x = some v ∧ R v v' := by
  cases h with
  | some h =>
    cases hy
    exact ⟨_, rfl, h⟩
  | none => cases hy

theorem rel_mono (h : Option.Rel R x y) (hi : ∀ v v', x = some v → R v v' → R' v v') :
    Option.Rel R' x y := by
  cases h with
  | some h => exact .some (hi _ _ rfl h)
  | none => exact .none

end

/-! ### Bulk changes -/

def mapValues {W : Type w} (f : V → W) (m : Finmap fun _ : K => V) : Finmap fun _ : K => W where
  entries := m.entries.map fun e => ⟨e.1, f e.2⟩
  nodupKeys := by
    have h := m.nodupKeys
    rw [← Multiset.nodup_keys] at h ⊢
    simpa [Multiset.keys, Multiset.map_map, Function.comp_def] using h

theorem lookup_mapValues (f : V → W) (m : Finmap fun _ : K => V) (k : K) :
    (mapValues f m).lookup k = (m.lookup k).map f := by
  refine ext fun y => ?_
  rw [← mem_def, mem_lookup_iff, map_eq_some_iff]
  constructor
  · intro h
    obtain ⟨⟨j, x⟩, hx, he⟩ := mem_map.1 h
    obtain ⟨rfl, rfl⟩ := he
    exact ⟨x, mem_lookup_iff.2 hx, rfl⟩
  · rintro ⟨x, hx, rfl⟩
    exact mem_map.2 ⟨⟨k, x⟩, mem_lookup_iff.1 hx, rfl⟩

omit [DecidableEq K] in
theorem keys_filterMap_le (f : V → Option W) (s : Multiset (Σ _ : K, V)) :
    keys (s.filterMap fun e => (f e.2).map fun y => (⟨e.1, y⟩ : Σ _ : K, W)) ≤ keys s := by
  induction s using Multiset.induction_on with
  | empty => simp
  | cons e s ih =>
  cases h : f e.2 with
  | none =>
    rw [filterMap_cons_none _ _ (by rw [h]; rfl)]
    exact ih.trans (by simpa [keys] using le_cons_self _ _)
  | some =>
    rw [filterMap_cons_some _ _ _ (by rw [h]; rfl)]
    simpa [keys] using ih

/-- Rewriting the values of a map, and dropping the entries without a new value. -/
def filterMapValues {W : Type w} (f : V → Option W) (m : Finmap fun _ : K => V) :
    Finmap fun _ : K => W where
  entries := m.entries.filterMap fun e => (f e.2).map fun y => ⟨e.1, y⟩
  nodupKeys := by
    have h := m.nodupKeys
    rw [← Multiset.nodup_keys] at h ⊢
    exact Multiset.nodup_of_le (keys_filterMap_le f m.entries) h

theorem lookup_filterMapValues (f : V → Option W) (m : Finmap fun _ : K => V) (k : K) :
    (filterMapValues f m).lookup k = (m.lookup k).bind f := by
  refine ext fun y => ?_
  rw [← mem_def, mem_lookup_iff, bind_eq_some_iff]
  constructor
  · intro h
    obtain ⟨⟨j, x⟩, hx, he⟩ := (mem_filterMap _ _).1 h
    obtain ⟨y', hy', he⟩ := map_eq_some_iff.1 he
    obtain ⟨rfl, rfl⟩ := he
    exact ⟨x, mem_lookup_iff.2 hx, hy'⟩
  · rintro ⟨x, hx, hy⟩
    exact (mem_filterMap _ _).2 ⟨⟨k, x⟩, mem_lookup_iff.1 hx, map_eq_some_iff.2 ⟨y, hy, rfl⟩⟩

def eraseAll (m : Finmap fun _ : K => V) (ks : List K) : Finmap fun _ : K => V :=
  ks.foldl (fun m k => m.erase k) m

theorem lookup_eraseAll (m : Finmap fun _ : K => V) (ks : List K) (j : K) :
    (eraseAll m ks).lookup j = if j ∈ ks then none else m.lookup j := by
  induction ks generalizing m with
  | nil => simp [eraseAll]
  | cons k ks ih =>
    have hs : eraseAll m (k :: ks) = eraseAll (m.erase k) ks := rfl
    rw [hs, ih, lookup_erase_ite]
    by_cases hj : j ∈ ks
    · simp [hj]
    · by_cases hk : j = k <;> simp [hj, hk]

/-! ### Iteration orders -/

/-- **`order` is a possible iteration order of the keys `s`**: every key once, in any order. -/
def Enumerates (order : List K) (s : Finset K) : Prop :=
  order.Nodup ∧ ∀ k, k ∈ order ↔ k ∈ s

instance (order : List K) (s : Finset K) : Decidable (Enumerates order s) :=
  decidable_of_iff (order.Nodup ∧ order.toFinset = s) (by
    simp [Enumerates, Finset.ext_iff])

end FiniteMap
