/-
**The request queue of the gateway.**

Tasks wait in a heap that is ordered by priority and, within a priority, by a counter that every push
increases.  To its users it is two queues: a pop takes the oldest task of high priority, or else the oldest
normal one.

* `refines_two_queues` — **the heap answers as the two queues do**.
-/

import Mathlib

namespace Llumnix.RequestQueue

open List Option Int

/-! ### The queue -/

structure Item (Task : Type) where
  priority : Int
  index : Int
  task : Task
  deriving DecidableEq

variable {Task : Type}

def Item.lessCompare (x y : Item Task) : Bool :=
  if x.priority ≠ y.priority then decide (x.priority < y.priority) else decide (x.index < y.index)

/-- **`container/heap`**: a slice that satisfies the heap property keeps it, and gives up a least element, if
the order is a strict weak order. -/
structure Heap (α : Type) (less : α → α → Bool) where
  push : List α → α → List α
  pop : List α → Option (α × List α)
  Valid : List α → Prop
  valid_nil : Valid []
  push_perm (l : List α) (x : α) : (push l x).Perm (x :: l)
  pop_isSome (l : List α) : l ≠ [] → (pop l).isSome
  pop_perm (l : List α) (x : α) (rest : List α) : pop l = some (x, rest) → (x :: rest).Perm l
  push_valid [IsStrictWeakOrder α fun a b => less a b = true] (l : List α) (x : α) :
    Valid l → Valid (push l x)
  pop_valid [IsStrictWeakOrder α fun a b => less a b = true] (l : List α) (x : α) (rest : List α) :
    Valid l → pop l = some (x, rest) → Valid rest
  pop_least [IsStrictWeakOrder α fun a b => less a b = true] (l : List α) (x : α) (rest : List α) :
    Valid l → pop l = some (x, rest) → ∀ y ∈ l, less y x = false

structure PriorityQueue (Task : Type) where
  h : List (Item Task) := []
  ready : Bool := true
  /-- An `int64`, which does not wrap before `2 ^ 63` pushes. -/
  nextIndex : Int := 0

/-- The calls before `Close`. -/
inductive Op (Task : Type)
  | push (task : Task) (isHigherPriority : Bool)
  | tryPop
  | waitPop

variable (H : Heap (Item Task) Item.lessCompare)

variable (pq : PriorityQueue Task)

def PriorityQueue.push (task : Task) (isHigherPriority : Bool) : PriorityQueue Task :=
  let item : Item Task := ⟨if isHigherPriority then 0 else 1, pq.nextIndex, task⟩
  { pq with h := H.push pq.h item, nextIndex := pq.nextIndex + 1 }

/-- `heap.Pop` on the items. -/
def PriorityQueue.pop : PriorityQueue Task × Option Task :=
  match H.pop pq.h with
  | some (item, rest) => ({ pq with h := rest }, some item.task)
  | none => (pq, none)

/-- `TryPop`; `nil` is `none`. -/
def PriorityQueue.tryPop : PriorityQueue Task × Option Task :=
  if pq.ready = false ∨ pq.h.length = 0 then (pq, none) else pq.pop H

/-- `WaitPop`, which returns nothing as long as it waits. -/
def PriorityQueue.waitPop : Option (PriorityQueue Task × Option Task) :=
  if pq.ready = true ∧ pq.h.length = 0 then none
  else if pq.ready = false then some (pq, none)
  else some (pq.pop H)

def PriorityQueue.step : Op Task → Option (PriorityQueue Task × List (Option Task))
  | .push task isHigherPriority => some (pq.push H task isHigherPriority, [])
  | .tryPop => some ((pq.tryPop H).1, [(pq.tryPop H).2])
  | .waitPop => (pq.waitPop H).map fun r => (r.1, [r.2])

/-! ### Two queues -/

/-- **What the queue is for**: a list of tasks per priority, the oldest first. -/
structure TwoQueues (Task : Type) where
  high : List Task := []
  normal : List Task := []

def TwoQueues.pop : TwoQueues Task → Option (TwoQueues Task × Task)
  | ⟨t :: high, normal⟩ => some (⟨high, normal⟩, t)
  | ⟨[], t :: normal⟩ => some (⟨[], normal⟩, t)
  | ⟨[], []⟩ => none

def TwoQueues.step (s : TwoQueues Task) : Op Task → Option (TwoQueues Task × List (Option Task))
  | .push task true => some ({ s with high := s.high ++ [task] }, [])
  | .push task false => some ({ s with normal := s.normal ++ [task] }, [])
  | .tryPop =>
    match s.pop with
    | some (s', t) => some (s', [some t])
    | none => some (s, [none])
  | .waitPop => s.pop.map fun r => (r.1, [some r.2])

/-- A sequence of calls, and what they return. -/
def run {S : Type} (step : S → Op Task → Option (S × List (Option Task))) :
    S → List (Op Task) → Option (S × List (Option Task))
  | s, [] => some (s, [])
  | s, op :: ops => do
    let (s₁, out) ← step s op
    let (s₂, outs) ← run step s₁ ops
    return (s₂, out ++ outs)

/-! ### The simulation -/

theorem Item.lessCompare_iff {x y : Item Task} : x.lessCompare y = true ↔
    x.priority < y.priority ∨ x.priority = y.priority ∧ x.index < y.index := by
  unfold lessCompare
  split <;> simp only [decide_eq_true_eq] <;> omega

instance : IsStrictWeakOrder (Item Task) fun x y => x.lessCompare y = true where
  irrefl x := by
    rw [Item.lessCompare_iff]
    omega
  trans x y z := by
    simp only [Item.lessCompare_iff]
    omega
  incomp_trans x y z := by
    simp only [Item.lessCompare_iff]
    omega

/-- The heap holds the tasks of the two queues, in this order. -/
structure Simulates (pq : PriorityQueue Task) (s : TwoQueues Task) (high normal : List (Item Task)) :
    Prop where
  valid : H.Valid pq.h
  ready : pq.ready = true
  perm : pq.h.Perm (high ++ normal)
  sorted : (high ++ normal).Pairwise fun x y => x.lessCompare y = true
  highTasks : high.map Item.task = s.high
  normalTasks : normal.map Item.task = s.normal
  highPriority : ∀ x ∈ high, x.priority = 0
  normalPriority : ∀ x ∈ normal, x.priority = 1
  index : ∀ x ∈ pq.h, x.index < pq.nextIndex

variable {H}

section

variable {pq : PriorityQueue Task} {s : TwoQueues Task} {high normal : List (Item Task)}

section

variable (h : Simulates H pq s high normal)
include h

theorem Simulates.push (task : Task) (isHigherPriority : Bool) :
    ∃ s' high' normal', s.step (.push task isHigherPriority) = some (s', []) ∧
      Simulates H (pq.push H task isHigherPriority) s' high' normal' := by
  have hp := H.push_perm pq.h ⟨if isHigherPriority then 0 else 1, pq.nextIndex, task⟩
  have hv := H.push_valid pq.h ⟨if isHigherPriority then 0 else 1, pq.nextIndex, task⟩ h.valid
  have hs := pairwise_append.1 h.sorted
  have hold : ∀ x ∈ high ++ normal, x.index < pq.nextIndex := fun x hx => h.index x (h.perm.symm.subset hx)
  have hi : ∀ x ∈ (pq.push H task isHigherPriority).h, x.index < pq.nextIndex + 1 := by
    intro x hx
    rcases mem_cons.1 (hp.subset hx) with rfl | hx
    · exact Int.lt_succ _
    · exact Int.lt_trans (h.index x hx) (Int.lt_succ _)
  cases isHigherPriority with
  | true =>
    refine ⟨_, high ++ [⟨0, pq.nextIndex, task⟩], normal, rfl, hv, h.ready, ?_, ?_, by simp [h.highTasks],
      h.normalTasks, ?_, h.normalPriority, hi⟩
    · rw [append_assoc]
      exact hp.trans ((h.perm.cons _).trans perm_middle.symm)
    · rw [append_assoc, singleton_append]
      refine pairwise_append.2 ⟨hs.1, pairwise_cons.2 ⟨fun y hy => ?_, hs.2.1⟩, ?_⟩
      · exact Item.lessCompare_iff.2 (.inl ((h.normalPriority y hy).symm ▸ zero_lt_one))
      · intro x hx
        refine forall_mem_cons.2 ⟨?_, hs.2.2 x hx⟩
        exact Item.lessCompare_iff.2 (.inr ⟨h.highPriority x hx, hold x (mem_append_left _ hx)⟩)
    · simpa [or_imp, forall_and] using h.highPriority
  | false =>
  refine ⟨_, high, normal ++ [⟨1, pq.nextIndex, task⟩], rfl, hv, h.ready, ?_, ?_, h.highTasks,
    by simp [h.normalTasks], h.highPriority, ?_, hi⟩
  · rw [← append_assoc]
    exact hp.trans ((h.perm.cons _).trans (perm_append_singleton _ _).symm)
  · rw [← append_assoc]
    refine pairwise_append.2 ⟨h.sorted, pairwise_singleton _ _, fun x hx y hy => ?_⟩
    rw [mem_singleton.1 hy, Item.lessCompare_iff]
    rcases mem_append.1 hx with hx' | hx'
    · exact .inl ((h.highPriority x hx').symm ▸ zero_lt_one)
    · exact .inr ⟨h.normalPriority x hx', hold x hx⟩
  · simpa [or_imp, forall_and] using h.normalPriority

/-- **A pop takes the first item.** -/
theorem Simulates.pop_eq {item : Item Task} {rest : List (Item Task)} (hi : high ++ normal = item :: rest) :
    pq.h.length ≠ 0 ∧ ∃ left, H.pop pq.h = some (item, left) ∧ left.Perm rest ∧ H.Valid left ∧
      ∀ x ∈ left, x.index < pq.nextIndex := by
  have hne : pq.h ≠ [] := by
    intro hn
    have hl := h.perm.length_eq
    simp [hn, hi] at hl
  obtain ⟨⟨x, left⟩, hp⟩ := isSome_iff_exists.1 (H.pop_isSome _ hne)
  have hpe : (x :: left).Perm (item :: rest) := (H.pop_perm _ _ _ hp).trans (hi ▸ h.perm)
  have hx : x = item := by
    by_contra hne
    have hm : x ∈ rest := (mem_cons.1 (hpe.subset mem_cons_self)).resolve_left hne
    have hs := h.sorted
    rw [hi] at hs
    have hles := (pairwise_cons.1 hs).1 x hm
    cases hles.symm.trans (H.pop_least _ _ _ h.valid hp item (h.perm.symm.subset (hi ▸ mem_cons_self)))
  subst hx
  refine ⟨fun hl => hne (eq_nil_of_length_eq_zero hl), left, hp, hpe.cons_inv,
    H.pop_valid _ _ _ h.valid hp, fun y hy => h.index y ?_⟩
  exact (H.pop_perm _ _ _ hp).subset (mem_cons_of_mem _ hy)

theorem Simulates.pop :
    (pq.h.length = 0 ∧ s.pop = none) ∨ pq.h.length ≠ 0 ∧ ∃ s' t high' normal', s.pop = some (s', t) ∧
      (pq.pop H).2 = some t ∧ Simulates H (pq.pop H).1 s' high' normal' := by
  obtain ⟨tasks, tasks'⟩ := s
  cases high with
  | cons item high =>
    obtain ⟨hne, left, hp, hpe, hv, hi⟩ := h.pop_eq rfl
    obtain rfl : item.task :: high.map Item.task = tasks := h.highTasks
    refine .inr ⟨hne, ⟨_, _⟩, _, high, normal, rfl, by simp [PriorityQueue.pop, hp], ?_⟩
    simp only [PriorityQueue.pop, hp]
    exact ⟨hv, h.ready, hpe, (pairwise_cons.1 h.sorted).2, rfl, h.normalTasks,
      fun x hx => h.highPriority x (mem_cons_of_mem _ hx), h.normalPriority, hi⟩
  | nil =>
  obtain rfl : [] = tasks := h.highTasks
  cases normal with
  | cons item normal =>
    obtain ⟨hne, left, hp, hpe, hv, hi⟩ := h.pop_eq rfl
    obtain rfl : item.task :: normal.map Item.task = tasks' := h.normalTasks
    refine .inr ⟨hne, ⟨_, _⟩, _, [], normal, rfl, by simp [PriorityQueue.pop, hp], ?_⟩
    simp only [PriorityQueue.pop, hp]
    exact ⟨hv, h.ready, hpe, (pairwise_cons.1 h.sorted).2, rfl, rfl, h.highPriority,
      fun x hx => h.normalPriority x (mem_cons_of_mem _ hx), hi⟩
  | nil =>
    obtain rfl : [] = tasks' := h.normalTasks
    exact .inl ⟨h.perm.length_eq, rfl⟩

/-- **One call**: both sides wait, or both return the same. -/
theorem Simulates.step (op : Op Task) :
    (pq.step H op = none ∧ s.step op = none) ∨ ∃ pq' s' out high' normal',
      pq.step H op = some (pq', out) ∧ s.step op = some (s', out) ∧ Simulates H pq' s' high' normal' := by
  cases op with
  | push task isHigherPriority =>
    obtain ⟨s', high', normal', hs, h'⟩ := h.push task isHigherPriority
    exact .inr ⟨_, s', [], high', normal', rfl, hs, h'⟩
  | tryPop =>
    right
    rcases h.pop with ⟨he, hs⟩ | ⟨hne, s', t, high', normal', hs, ht, h'⟩
    · exact ⟨pq, s, [none], high, normal, by simp [PriorityQueue.step, PriorityQueue.tryPop, he],
        by simp [TwoQueues.step, hs], h⟩
    · exact ⟨_, s', [some t], high', normal',
        by simp [PriorityQueue.step, PriorityQueue.tryPop, h.ready, hne, ht], by simp [TwoQueues.step, hs], h'⟩
  | waitPop =>
    rcases h.pop with ⟨he, hs⟩ | ⟨hne, s', t, high', normal', hs, ht, h'⟩
    · exact .inl ⟨by simp [PriorityQueue.step, PriorityQueue.waitPop, h.ready, he],
        by simp [TwoQueues.step, hs]⟩
    · exact .inr ⟨_, s', [some t], high', normal',
        by simp [PriorityQueue.step, PriorityQueue.waitPop, h.ready, hne, ht], by simp [TwoQueues.step, hs], h'⟩

end

end

/-- **The heap answers as the two queues do**, for every sequence of calls: the same calls wait, the same
tasks are returned, and the same tasks are still held. -/
theorem refines_two_queues (H : Heap (Item Task) Item.lessCompare) (ops : List (Op Task)) :
    (run (PriorityQueue.step H) {} ops).map Prod.snd = (run TwoQueues.step {} ops).map Prod.snd ∧
      ∀ pq out s, run (PriorityQueue.step H) {} ops = some (pq, out) →
        run TwoQueues.step {} ops = some (s, out) → (pq.h.map Item.task).Perm (s.high ++ s.normal) := by
  have hru : ∀ (ops : List (Op Task)) pq s high normal, Simulates H pq s high normal →
      (run (PriorityQueue.step H) pq ops = none ∧ run TwoQueues.step s ops = none) ∨
        ∃ pq' s' out high' normal', run (PriorityQueue.step H) pq ops = some (pq', out) ∧
          run TwoQueues.step s ops = some (s', out) ∧ Simulates H pq' s' high' normal' := by
    intro ops
    induction ops with
    | nil => exact fun pq s high normal h => .inr ⟨pq, s, [], high, normal, rfl, rfl, h⟩
    | cons op ops ih =>
    intro pq s high normal h
    rcases h.step op with ⟨hst, hs'⟩ | ⟨pq₁, s₁, out, high₁, normal₁, hst, hs', h₁⟩
    · exact .inl ⟨by simp [run, hst], by simp [run, hs']⟩
    · rcases ih pq₁ s₁ high₁ normal₁ h₁ with ⟨hr, hr'⟩ | ⟨pq₂, s₂, outs, high₂, normal₂, hr, hr', h₂⟩
      · exact .inl ⟨by simp [run, hst, hr], by simp [run, hs', hr']⟩
      · exact .inr ⟨pq₂, s₂, out ++ outs, high₂, normal₂, by simp [run, hst, hr],
          by simp [run, hs', hr'], h₂⟩
  have hi : Simulates H ({} : PriorityQueue Task) {} [] [] :=
    ⟨H.valid_nil, rfl, .nil, .nil, rfl, rfl, by simp, by simp, by simp⟩
  rcases hru ops {} {} [] [] hi with ⟨h, h'⟩ | ⟨pq, s, out, high, normal, h, h', hsi⟩
  · rw [h, h']
    exact ⟨rfl, by simp⟩
  · rw [h, h']
    refine ⟨rfl, fun pq' out' s' hpq hs => ?_⟩
    cases hpq
    cases hs
    rw [← hsi.highTasks, ← hsi.normalTasks, ← map_append]
    exact hsi.perm.map _

theorem exists_least {l : List (Item Task)} (h : l ≠ []) : ∃ x ∈ l, ∀ y ∈ l, y.lessCompare x = false := by
  obtain ⟨m, hm⟩ := ne_none_iff_exists'.1
    (mt (argmin_eq_none (f := fun x : Item Task => toLex (x.priority, x.index))).1 h)
  refine ⟨m, argmin_mem hm, fun y hy => ?_⟩
  have hle := le_of_mem_argmin hy hm
  rw [Prod.Lex.toLex_le_toLex] at hle
  rw [Bool.eq_false_iff, Ne, Item.lessCompare_iff]
  omega

/-- The contract of the heap can be met: look for a least item. -/
def plainHeap : Heap (Item Nat) Item.lessCompare where
  push l x := x :: l
  pop l := (l.find? fun x => l.all fun y => !y.lessCompare x).map fun x => (x, l.erase x)
  Valid _ := True
  valid_nil := trivial
  push_perm _ _ := .refl _
  pop_isSome l hl := by
    obtain ⟨x, hx, hle⟩ := exists_least hl
    rw [isSome_map, List.find?_isSome]
    exact ⟨x, hx, by simpa using hle⟩
  pop_perm l x rest h := by
    obtain ⟨m, hm, ⟨⟩⟩ := map_eq_some_iff.1 h
    exact (List.perm_cons_erase (List.mem_of_find?_eq_some hm)).symm
  push_valid _ _ _ := trivial
  pop_valid _ _ _ _ _ := trivial
  pop_least l x rest _ h y hy := by
    obtain ⟨m, hm, ⟨⟩⟩ := map_eq_some_iff.1 h
    have hle := List.find?_some hm
    rw [List.all_eq_true] at hle
    simpa using hle y hy

end Llumnix.RequestQueue
