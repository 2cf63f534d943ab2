/-
**Reading a list page by page.**

A client asks for the items that follow the last one it has got, until no more are left.  The collection is
fixed, but it is arranged anew for every request, sorted by a rank that several items may share.

* `Pagination.exhaustive_iff` — **the client gets every item exactly once, whatever the arrangements,
  exactly if no page but the last one ends with an item whose rank another item has.**
-/

import Mathlib

namespace Pagination

open List Equiv Nat

variable {α K R : Type*} [DecidableEq K] [LinearOrder R] (key : α → K) (rank : α → R)

/-! ### The client -/

/-- The items in some order of descending rank. -/
structure Arranges (items l : List α) : Prop where
  perm : l.Perm items
  sorted : l.Pairwise fun x y => rank y ≤ rank x

/-- What follows the item with the given key; everything, if there is none to follow. -/
def after : Option K → List α → List α
  | none, l => l
  | some k, l => (l.dropWhile fun x => key x ≠ k).tail

/-- **What the client collects** with at most `fuel` requests for pages of `limit` items; the items are
arranged as `choice n` for the request number `n`. -/
def collect (limit : ℕ) : ℕ → (ℕ → List α) → Option K → Option (List α)
  | 0, _, _ => none
  | fuel + 1, choice, k =>
    let rest := after key k (choice 0)
    if limit < rest.length then
      match (rest.take limit).getLast? with
      | none => none
      | some x =>
        (collect limit fuel (fun n => choice (n + 1)) (some (key x))).map (rest.take limit ++ ·)
    else some rest

/-- **The client gets every item exactly once**, however the items are arranged for its requests. -/
def Exhaustive (items : List α) (limit : ℕ) : Prop :=
  ∀ choice : ℕ → List α, (∀ n, Arranges rank items (choice n)) →
    ∃ fuel out, collect key limit fuel choice none = some out ∧ out.Perm items

/-- **No page but the last one ends with an item whose rank another item has.** -/
def Separated (items : List α) (limit : ℕ) : Prop :=
  ∀ u x v, Arranges rank items (u ++ x :: v) → limit ∣ u.length + 1 → v ≠ [] →
    ∀ y ∈ items, rank y = rank x → y = x

variable {key rank} {items l : List α} {limit : ℕ}
variable {v : List α} {x : α} {k : Option K}
variable {u w : List α} {fuel : ℕ} {choice : ℕ → List α}

omit [DecidableEq K] in
theorem Arranges.nodup_keys (h : Arranges rank items l) (hk : (items.map key).Nodup) : (l.map key).Nodup :=
  (h.perm.map key).nodup_iff.2 hk

theorem after_of_split (hk : ((u ++ x :: v).map key).Nodup) :
    after key (some (key x)) (u ++ x :: v) = v := by
  have hu : ∀ y ∈ u, decide (key y ≠ key x) = true := by
    intro y hy
    rw [map_append, map_cons, nodup_append'] at hk
    refine decide_eq_true fun heq => hk.2.2 (mem_map_of_mem hy) ?_
    rw [heq]
    exact mem_cons_self
  rw [after, dropWhile_append_of_pos hu, dropWhile_cons_of_neg (by simp), tail_cons]

omit [DecidableEq K] in
theorem exists_page (hli : 0 < limit) {rest : List α} (h : limit ≤ rest.length) :
    ∃ w x v, rest = w ++ x :: v ∧ w.length + 1 = limit ∧ (limit < rest.length → v ≠ []) := by
  have hl : limit - 1 < rest.length := by omega
  refine ⟨rest.take (limit - 1), rest[limit - 1], rest.drop limit, ?_, ?_, ?_⟩
  · have hdr := drop_eq_getElem_cons hl
    rw [show limit - 1 + 1 = limit by omega] at hdr
    rw [← hdr, take_append_drop]
  · rw [length_take]
    omega
  · intro hm hn
    rw [drop_eq_nil_iff] at hn
    omega

theorem collect_more (hr : after key k (choice 0) = w ++ x :: v) (hl : w.length + 1 = limit) (hv : v ≠ []) :
    collect key limit (fuel + 1) choice k =
      (collect key limit fuel (fun n => choice (n + 1)) (some (key x))).map (w ++ x :: ·) := by
  have hm : limit < (w ++ x :: v).length := by
    have := length_pos_iff.2 hv
    simp only [length_append, length_cons]
    omega
  have ht : (w ++ x :: v).take limit = w ++ [x] := by
    rw [← hl, append_cons, take_left' (by simp)]
  rw [collect]
  simp only [hr, if_pos hm, ht, getLast?_append, getLast?_singleton, Option.some_or]
  congr 1
  funext out
  simp

theorem collect_last (hl : (after key k (choice 0)).length ≤ limit) :
    collect key limit (fuel + 1) choice k = some (after key k (choice 0)) := by
  rw [collect]
  exact if_neg (by omega)

/-! ### Separated ranks -/

theorem filter_of_split (hn : (u ++ x :: v).Nodup) (h : Arranges rank items (u ++ x :: v))
    (ho : ∀ y ∈ items, rank y = rank x → y = x) : (u ++ x :: v).filter (fun y => rank y < rank x) = v := by
  have hs := pairwise_append.1 h.sorted
  have hu : u.filter (fun y => rank y < rank x) = [] := by
    rw [filter_eq_nil_iff]
    intro y hy
    simpa using hs.2.2 y hy x mem_cons_self
  have hv : v.filter (fun y => rank y < rank x) = v := by
    rw [filter_eq_self]
    intro y hy
    have hle : rank y ≤ rank x := (pairwise_cons.1 hs.2.1).1 y hy
    refine decide_eq_true (lt_of_le_of_ne hle fun heq => ?_)
    have hyx := ho y (h.perm.mem_iff.1 (by simp [hy])) heq
    rw [nodup_append'] at hn
    exact (nodup_cons.1 hn.2.1).1 (hyx ▸ hy)
  rw [filter_append, hu, filter_cons_of_neg (by simp), hv, nil_append]

/-- **Where the client stands between two requests**: whatever the arrangement, full pages are behind it,
and the same items are before it. -/
def Settled (key : α → K) (rank : α → R) (items : List α) (limit : ℕ) (k : Option K) (rem : List α) :
    Prop :=
  ∀ l, Arranges rank items l → ∃ u, l = u ++ after key k l ∧ limit ∣ u.length ∧ (after key k l).Perm rem

theorem settled_none : Settled key rank items limit none items :=
  fun _ h => ⟨[], rfl, dvd_zero _, h.perm⟩

theorem Settled.next {rem : List α} (h : Settled key rank items limit k rem)
    (hse : Separated rank items limit) (hk : (items.map key).Nodup) (hl : Arranges rank items l)
    (hr : after key k l = w ++ x :: v) (hli : w.length + 1 = limit) (hv : v ≠ []) :
    Settled key rank items limit (some (key x)) v := by
  obtain ⟨u, hs, hdv, -⟩ := h l hl
  have hl' : l = (u ++ w) ++ x :: v := by rw [hs, hr, append_assoc]
  have hp : limit ∣ (u ++ w).length + 1 := by
    rw [length_append, add_assoc, hli]
    exact dvd_add hdv (dvd_refl _)
  subst hl'
  have ho := hse (u ++ w) x v hl hp hv
  intro l' hl'
  -- the item is somewhere in the other arrangement, and the same items follow it there
  have hx : x ∈ l' := hl'.perm.mem_iff.2 (hl.perm.mem_iff.1 (by simp))
  obtain ⟨u', v', rfl⟩ := append_of_mem hx
  have hf : v'.Perm v := by
    rw [← filter_of_split (hl'.nodup_keys hk).of_map hl' ho,
      ← filter_of_split (hl.nodup_keys hk).of_map hl ho]
    exact (hl'.perm.trans hl.perm.symm).filter _
  rw [after_of_split (hl'.nodup_keys hk)]
  refine ⟨u' ++ [x], by simp, ?_, hf⟩
  have hle := (hl'.perm.trans hl.perm.symm).length_eq
  simp only [length_append, length_cons, hf.length_eq] at hle
  have hsa : (u' ++ [x]).length = (u ++ w).length + 1 := by
    simp only [length_append, length_cons, length_nil]
    omega
  rw [hsa]
  exact hp

/-- **From a settled position the client gets what is before it.** -/
theorem exists_collect (hl : 0 < limit) (hse : Separated rank items limit)
    (hk : (items.map key).Nodup) : ∀ (fuel : ℕ) (choice : ℕ → List α) (k : Option K) (rem : List α),
    (∀ n, Arranges rank items (choice n)) → Settled key rank items limit k rem → rem.length < fuel →
      ∃ out, collect key limit fuel choice k = some out ∧ out.Perm rem := by
  intro fuel
  induction fuel with
  | zero =>
    intro choice k rem _ _ hf
    exact absurd hf (not_lt_zero _)
  | succ fuel ih =>
  intro choice k rem hc hs hf
  obtain ⟨u, -, -, hp⟩ := hs (choice 0) (hc 0)
  by_cases hm : limit < (after key k (choice 0)).length
  · obtain ⟨w, x, v, hr, hw, hv⟩ := exists_page hl (le_of_lt hm)
    have hv := hv hm
    have hn := hs.next hse hk (hc 0) hr hw hv
    rw [hr] at hp
    have hle := hp.length_eq
    simp only [length_append, length_cons] at hle
    obtain ⟨out, ho, hsa⟩ := ih _ (some (key x)) v (fun n => hc (n + 1)) hn (by omega)
    refine ⟨w ++ x :: out, ?_, ?_⟩
    · rw [collect_more hr hw hv, ho, Option.map_some]
    · exact ((hsa.cons x).append_left w).trans hp
  · exact ⟨_, collect_last (by omega), hp⟩

/-! ### Shared ranks -/

theorem collect_const (hli : 0 < limit) (hk : (l.map key).Nodup) : ∀ (fuel : ℕ)
    (choice : ℕ → List α) (k : Option K) (u out : List α), (∀ n, choice n = l) → l = u ++ after key k l →
      collect key limit fuel choice k = some out → out = after key k l := by
  intro fuel
  induction fuel with
  | zero =>
    intro choice k u out _ _ ho
    cases ho
  | succ fuel ih =>
  intro choice k u out hc hs ho
  by_cases hm : limit < (after key k l).length
  · obtain ⟨w, x, v, hr, hw, hv⟩ := exists_page hli (le_of_lt hm)
    have hv := hv hm
    rw [collect_more (by rw [hc 0, hr]) hw hv] at ho
    obtain ⟨out', ho', rfl⟩ := Option.map_eq_some_iff.1 ho
    have hl : l = (u ++ w) ++ x :: v := by
      rw [append_assoc, ← hr]
      exact hs
    have ha : after key (some (key x)) l = v := by
      rw [hl]
      exact after_of_split (hl ▸ hk)
    have hn := ih _ (some (key x)) (u ++ w ++ [x]) out' (fun n => hc (n + 1))
      (by rw [ha]; simpa using hl) ho'
    rw [hn, ha, hr]
  · rw [collect_last (by rw [hc 0]; omega), hc 0] at ho
    exact (Option.some.inj ho).symm

/-- A client that gets one arrangement for some pages, and another one from then on. -/
theorem collect_switch (hli : 0 < limit) {l' : List α} (hk : (l.map key).Nodup)
    (hk' : (l'.map key).Nodup) : ∀ (m fuel : ℕ) (choice : ℕ → List α) (k : Option K)
      (p u v out : List α) (x : α), (∀ n ≤ m, choice n = l) → (∀ n, m < n → choice n = l') →
      l = p ++ after key k l → after key k l = u ++ x :: v → u.length + 1 = (m + 1) * limit → v ≠ [] →
      x ∈ l' → collect key limit fuel choice k = some out →
        out = u ++ x :: after key (some (key x)) l' := by
  intro m
  induction m with
  | zero =>
    intro fuel choice k p u v out x hb ha _ hr hu hv hx ho
    cases fuel with
    | zero => cases ho
    | succ fuel =>
    have hw : u.length + 1 = limit := by rw [hu, zero_add, one_mul]
    rw [collect_more (by rw [hb 0 (le_refl 0), hr]) hw hv] at ho
    obtain ⟨out', ho', rfl⟩ := Option.map_eq_some_iff.1 ho
    obtain ⟨u', v', rfl⟩ := append_of_mem hx
    have hf := after_of_split hk'
    have hc := collect_const hli hk' fuel _ (some (key x)) (u' ++ [x]) out'
      (fun n => ha (n + 1) (succ_pos n)) (by rw [hf]; simp) ho'
    rw [hc]
  | succ m ih =>
  intro fuel choice k p u v out x hb ha hs hr hu hv hx ho
  cases fuel with
  | zero => cases ho
  | succ fuel =>
    -- the first page ends before `x`
    have hlo : limit ≤ u.length := by
      rw [add_mul, one_mul, add_mul, one_mul] at hu
      omega
    obtain ⟨w, z, u', rfl, hw, -⟩ := exists_page hli hlo
    have hr' : after key k l = w ++ z :: (u' ++ x :: v) := by rw [hr]; simp
    rw [collect_more (by rw [hb 0 (zero_le _), hr']) hw (by simp)] at ho
    obtain ⟨out', ho', rfl⟩ := Option.map_eq_some_iff.1 ho
    have hl : l = (p ++ w) ++ z :: (u' ++ x :: v) := by
      rw [append_assoc, ← hr']
      exact hs
    have hf : after key (some (key z)) l = u' ++ x :: v := by
      rw [hl]
      exact after_of_split (hl ▸ hk)
    have hle : u'.length + 1 = (m + 1) * limit := by
      simp only [length_append, length_cons] at hu
      rw [add_mul (m + 1), one_mul] at hu
      omega
    have hne := ih fuel _ (some (key z)) (p ++ w ++ [z]) u' v out' x
      (fun n hn => hb (n + 1) (by omega)) (fun n hn => ha (n + 1) (by omega))
      (by rw [hf]; simpa using hl) hf hle hv hx ho'
    rw [hne]
    simp

section

variable [DecidableEq α]
variable {x y : α}
variable {u : List α}

theorem Arranges.swap (h : Arranges rank items l) (hn : items.Nodup) (hx : x ∈ items)
    (hy : y ∈ items) (hxy : rank y = rank x) : Arranges rank items (l.map (Equiv.swap x y)) := by
  have hr : ∀ z, rank (Equiv.swap x y z) = rank z := by
    intro z
    by_cases hzx : z = x
    · rw [hzx, swap_apply_left, hxy]
    · by_cases hzy : z = y
      · rw [hzy, swap_apply_right, hxy]
      · rw [swap_apply_of_ne_of_ne hzx hzy]
  constructor
  · have hl : l.Nodup := h.perm.nodup_iff.2 hn
    rw [perm_ext_iff_of_nodup (hl.map (Equiv.swap x y).injective) hn]
    intro z
    rw [mem_map]
    constructor
    · rintro ⟨a, ha, rfl⟩
      rw [swap_apply_def]
      split
      · exact hy
      · split
        · exact hx
        · exact h.perm.mem_iff.1 ha
    · intro hz
      refine ⟨Equiv.swap x y z, h.perm.mem_iff.2 ?_, swap_apply_self _ _ _⟩
      rw [swap_apply_def]
      split
      · exact hy
      · split
        · exact hx
        · exact hz
  · rw [pairwise_map]
    simp only [hr]
    exact h.sorted

theorem after_swap (hl : l = u ++ y :: v) (hk : ((l.map (Equiv.swap x y)).map key).Nodup) :
    after key (some (key x)) (l.map (swap x y)) = v.map (swap x y) := by
  subst hl
  rw [map_append, map_cons, swap_apply_right] at hk ⊢
  exact after_of_split hk

/-- If a page ends with an item and another item of that rank trades places with it, the client gets the
other item twice or not at all. -/
theorem not_perm_swap (hn : items.Nodup) (hp : (u ++ x :: v).Perm items)
    (hk : (((u ++ x :: v).map (swap x y)).map key).Nodup) (hy : y ∈ items) (hne : y ≠ x) :
    ¬ (u ++ x :: after key (some (key x)) ((u ++ x :: v).map (swap x y))).Perm items := by
  intro hou
  have hl : (u ++ x :: v).Nodup := hp.nodup_iff.2 hn
  have hm : y ∈ u ∨ y ∈ v := by
    have := hp.mem_iff.2 hy
    simp only [mem_append, mem_cons] at this
    tauto
  have ho := hou.nodup_iff.2 hn
  rw [nodup_append'] at ho
  rcases hm with hu | hv
  · -- what has been collected comes again
    obtain ⟨u₁, u₂, rfl⟩ := append_of_mem hu
    have hs : (u₁ ++ y :: u₂) ++ x :: v = u₁ ++ y :: (u₂ ++ x :: v) := by simp
    refine ho.2.2 hu (mem_cons_of_mem _ ?_)
    rw [after_swap hs hk, mem_map]
    exact ⟨x, by simp, swap_apply_left x y⟩
  · -- what was still to come has been passed over
    obtain ⟨v₁, v₂, rfl⟩ := append_of_mem hv
    have hs : u ++ x :: (v₁ ++ y :: v₂) = (u ++ x :: v₁) ++ y :: v₂ := by simp
    have hm := hou.mem_iff.2 hy
    rw [after_swap hs hk, mem_append, mem_cons, mem_map] at hm
    rw [nodup_append'] at hl
    rcases hm with hu | hyx | ⟨z, hz, hzy⟩
    · exact hl.2.2 hu (mem_cons_of_mem _ hv)
    · exact hne hyx
    · have hzx : z = x := by
        rw [← swap_apply_self x y z, hzy, swap_apply_right]
      subst hzx
      exact (nodup_cons.1 hl.2.1).1 (by simp [hz])

/-- **The client gets every item exactly once, in every arrangement, exactly if no page but the last ends with
an item whose rank another item has.** -/
theorem exhaustive_iff (hli : 0 < limit) (hk : (items.map key).Nodup) :
    Exhaustive key rank items limit ↔ Separated rank items limit := by
  constructor
  · intro he u x v hl ⟨m, hm⟩ hv y hy hr
    by_contra hne
    have hno : items.Nodup := hk.of_map
    have hx : x ∈ items := hl.perm.mem_iff.1 (by simp)
    have hs := hl.swap hno hx hy hr
    obtain ⟨m, rfl⟩ : ∃ n, m = n + 1 := by
      cases m with
      | zero => rw [mul_zero] at hm; omega
      | succ n => exact ⟨n, rfl⟩
    obtain ⟨fuel, out, ho, hp⟩ := he
      (fun n => if n ≤ m then u ++ x :: v else (u ++ x :: v).map (swap x y)) fun n => by
        split
        · exact hl
        · exact hs
    have hc := collect_switch hli (hl.nodup_keys hk) (hs.nodup_keys hk) m fuel _ none
      [] u v out x (fun n hn => if_pos hn) (fun n hn => if_neg (by omega)) rfl rfl
      (by rw [hm, mul_comm]) hv (hs.perm.mem_iff.2 hx) ho
    rw [hc] at hp
    exact not_perm_swap hno hl.perm (hs.nodup_keys hk) hy hne hp
  · intro hse choice hch
    obtain ⟨out, ho, hp⟩ := exists_collect hli hse hk (items.length + 1) choice none items
      hch settled_none (lt_succ_self _)
    exact ⟨_, out, ho, hp⟩

end

end Pagination
