/-
**The worker pool of the gateway.**

`QueueWorkerPool` (`pkg/gateway/queue/worker_pool.go`) runs tasks from a priority queue on a fixed number of
goroutines.  `Dispatch` tests the length of the queue and then pushes, in two critical sections.  A worker
counts itself as busy before it runs a task and takes the count back when the task returns; a panic ends the
goroutine, which starts another one in its place, and leaves the count as it is.

* `workers_sound` — no worker is lost and no task is started twice; **the busy count is that of the workers
  that run a task as long as no task has panicked**;
* `capacity_sound` — a refusal has its reason, and **the queue keeps to its capacity if nobody finds a
  place that others are about to take**.
-/

import Llumnix.GuardedRun
import Llumnix.RequestQueue

namespace Llumnix.RequestQueue

open GuardedRun Function Multiset

/-- A goroutine of the pool: in `waitDequeue`, with a task in hand, between the two updates of the busy count,
or between a panic and its replacement. Tasks are named by their push. -/
inductive Goroutine
  | waiting
  | holding (task : ℕ)
  | running (task : ℕ)
  | crashed
  deriving DecidableEq

/-- A call of `Dispatch`. -/
inductive Dispatcher
  | idle
  | testing (isHighPriority : Bool)
  | pushing (isHighPriority : Bool)
  | accepted
  | refused
  deriving DecidableEq

structure Pool where
  started : Bool := false
  pq : PriorityQueue ℕ := {}
  busyWorkers : ℤ := 0
  workers : Multiset Goroutine := 0
  dispatchers : ℕ → Dispatcher := fun _ => .idle
  /-- The number of tasks pushed, and those that have been started. -/
  pushed : ℕ := 0
  begun : Multiset ℕ := 0

inductive Action
  | start
  | stop
  | close
  | call (d : ℕ) (isHighPriority : Bool)
  | test (d : ℕ)
  | push (d : ℕ)
  | dequeue
  | begin (task : ℕ)
  | finish (task : ℕ)
  | panics (task : ℕ)
  | restart
  deriving DecidableEq

/-- A goroutine goes on. -/
def Pool.move (s : Pool) (g g' : Goroutine) : Option Pool :=
  if g ∈ s.workers then some { s with workers := g' ::ₘ s.workers.erase g } else none

/-- A goroutine returns. -/
def Pool.leave (s : Pool) (g : Goroutine) : Option Pool :=
  if g ∈ s.workers then some { s with workers := s.workers.erase g } else none

def Pool.set (s : Pool) (d : ℕ) (st : Dispatcher) : Pool :=
  { s with dispatchers := update s.dispatchers d st }

/-- **One step of the pool.**  `Start` is called once. -/
def exec (H : Heap (Item ℕ) Item.lessCompare) (capacity workerSize : ℕ) (s : Pool) : Action → Option Pool
  | .start =>
    if s.started then none
    else some { s with started := true, workers := s.workers + replicate workerSize .waiting }
  | .stop => some { s with started := false }
  | .close => some { s with pq := { s.pq with ready := false } }
  | .call d high =>
    if s.dispatchers d = .idle then some (s.set d (if s.started then .testing high else .refused)) else none
  | .test d =>
    match s.dispatchers d with
    | .testing high => some (s.set d (if capacity ≤ s.pq.h.length then .refused else .pushing high))
    | _ => none
  | .push d =>
    match s.dispatchers d with
    | .pushing high =>
      some { s.set d .accepted with pq := s.pq.push H s.pushed high, pushed := s.pushed + 1 }
    | _ => none
  | .dequeue =>
    match s.pq.waitPop H with
    | some (pq, some task) => { s with pq := pq }.move .waiting (.holding task)
    | some (_, none) => s.leave .waiting
    | none => none
  | .begin task =>
    if s.started then
      { s with busyWorkers := s.busyWorkers + 1, begun := task ::ₘ s.begun }.move
        (.holding task) (.running task)
    else s.leave (.holding task)
  | .finish task => { s with busyWorkers := s.busyWorkers - 1 }.move (.running task) .waiting
  | .panics task => s.move (.running task) .crashed
  | .restart => s.move .crashed .waiting

/-- The tasks that a goroutine has yet to start. -/
def Goroutine.held : Goroutine → Multiset ℕ
  | .holding task => {task}
  | _ => 0

def Goroutine.busy : Goroutine → ℤ
  | .running _ => 1
  | _ => 0

def PriorityQueue.tasks (pq : PriorityQueue ℕ) : Multiset ℕ := ↑(pq.h.map Item.task)

def Pool.held (s : Pool) : Multiset ℕ := (s.workers.map Goroutine.held).sum

/-- **The workers that run a task.** -/
def Pool.executing (s : Pool) : ℤ := (s.workers.map Goroutine.busy).sum

section

variable {H : Heap (Item ℕ) Item.lessCompare} {capacity workerSize : ℕ} {s t : Pool} {a : Action}

theorem PriorityQueue.tasks_push (pq : PriorityQueue ℕ) (task : ℕ) (high : Bool) :
    (pq.push H task high).tasks = task ::ₘ pq.tasks :=
  coe_eq_coe.2 ((H.push_perm _ _).map Item.task)

theorem PriorityQueue.tasks_of_waitPop {pq pq' : PriorityQueue ℕ} {task : ℕ}
    (h : pq.waitPop H = some (pq', some task)) : pq.tasks = task ::ₘ pq'.tasks ∧ pq'.ready = true := by
  simp only [waitPop, pop] at h
  split at h
  · cases h
  · split at h
    · cases h
    · rename_i hr
      split at h <;> cases h
      rename_i hp
      exact ⟨coe_eq_coe.2 ((H.pop_perm _ _ _ hp).map Item.task).symm, by simpa using hr⟩

/-- An open queue gives nothing only to those it keeps waiting. -/
theorem PriorityQueue.closed_of_waitPop {pq pq' : PriorityQueue ℕ} (h : pq.waitPop H = some (pq', none)) :
    pq.ready = false := by
  by_contra hr
  rw [Bool.not_eq_false] at hr
  simp only [waitPop, pop, hr, true_and, Bool.true_eq_false, if_false] at h
  split at h
  · cases h
  · rename_i hl
    have hp := H.pop_isSome pq.h (by simpa using hl)
    split at h
    · cases h
    · simp_all

theorem Pool.move_eq_some {g g' : Goroutine} (h : s.move g g' = some t) :
    ∃ rest, s.workers = g ::ₘ rest ∧ t = { s with workers := g' ::ₘ rest } := by
  unfold Pool.move at h
  split at h <;> cases h
  rename_i hm
  exact ⟨_, (cons_erase hm).symm, rfl⟩

/-- **Every task is in one place, and the goroutines are as many as were started.** -/
structure Pool.Placed (workerSize : ℕ) (s : Pool) : Prop where
  tasks : s.pq.tasks + s.held + s.begun = range s.pushed
  size : s.workers.card = if s.started then workerSize else 0
  ready : s.pq.ready = true

/-- A goroutine goes on with the tasks of `g'` in place of those of `g`. -/
theorem placed_move {g g' : Goroutine} (hm : s.move g g' = some t)
    (ht : s.pq.tasks + s.held + g'.held + s.begun = range s.pushed + g.held)
    (hs : s.workers.card = if s.started then workerSize else 0) (hr : s.pq.ready = true) :
    t.Placed workerSize := by
  obtain ⟨rest, hw, rfl⟩ := Pool.move_eq_some hm
  rw [hw, card_cons] at hs
  refine ⟨?_, by rwa [card_cons], hr⟩
  simp only [Pool.held, hw, map_cons, sum_cons] at ht ⊢
  rw [← add_left_inj g.held, ← ht]
  abel

/-- The steps before `Stop`. -/
abbrev Action.Early (a : Action) : Prop := a ≠ .stop ∧ a ≠ .close

theorem placed_exec (ha : a.Early) (hex : exec H capacity workerSize s a = some t)
    (h : s.Placed workerSize) : t.Placed workerSize := by
  obtain ⟨ht, hs, hr⟩ := h
  cases a with
  | stop => exact absurd rfl ha.1
  | close => exact absurd rfl ha.2
  | start =>
    simp only [exec] at hex
    split at hex <;> cases hex
    rename_i hst
    rw [if_neg hst, card_eq_zero] at hs
    refine ⟨?_, by simp [hs], hr⟩
    simpa [Pool.held, hs, Goroutine.held] using ht
  | call | test =>
    simp only [exec] at hex
    split at hex <;> cases hex
    exact ⟨ht, hs, hr⟩
  | push d =>
    simp only [exec] at hex
    split at hex <;> cases hex
    refine ⟨?_, hs, hr⟩
    rw [range_succ, ← ht, ← cons_add, ← cons_add,
      ← PriorityQueue.tasks_push s.pq s.pushed]
    rfl
  | dequeue =>
    simp only [exec] at hex
    split at hex
    · rename_i hp
      obtain ⟨hq, hr'⟩ := PriorityQueue.tasks_of_waitPop hp
      refine placed_move hex ?_ hs hr'
      rw [← ht, hq, ← singleton_add]
      simp only [Goroutine.held, Pool.held]
      abel
    · rename_i hp
      simp [PriorityQueue.closed_of_waitPop hp] at hr
    · cases hex
  | begin task =>
    simp only [exec] at hex
    split at hex
    · refine placed_move hex ?_ hs hr
      rw [← ht, ← singleton_add]
      simp only [Goroutine.held, Pool.held]
      abel
    · rename_i hst
      rw [if_neg hst, card_eq_zero] at hs
      simp [Pool.leave, hs] at hex
  | finish | panics | restart => exact placed_move hex (by simpa [Goroutine.held, Pool.held] using ht) hs hr

theorem busy_move {g g' : Goroutine} (hm : s.move g g' = some t)
    (hb : s.busyWorkers + g.busy = s.executing + g'.busy) : t.busyWorkers = t.executing := by
  obtain ⟨rest, hw, rfl⟩ := Pool.move_eq_some hm
  rw [Pool.executing, hw, map_cons, sum_cons] at hb
  rw [Pool.executing, map_cons, sum_cons]
  linarith

theorem busy_leave {g : Goroutine} (hl : s.leave g = some t) (hg : g.busy = 0)
    (hb : s.busyWorkers = s.executing) : t.busyWorkers = t.executing := by
  unfold Pool.leave at hl
  split at hl <;> cases hl
  rename_i hm
  rw [Pool.executing, ← cons_erase hm, map_cons, sum_cons, hg, zero_add] at hb
  exact hb

/-- Only a panic leaves the count behind. -/
theorem busy_exec (ha : ∀ task, a ≠ .panics task) (hex : exec H capacity workerSize s a = some t)
    (h : s.busyWorkers = s.executing) : t.busyWorkers = t.executing := by
  cases a with
  | start =>
    simp only [exec] at hex
    split at hex <;> cases hex
    simpa [Pool.executing, Goroutine.busy] using h
  | dequeue =>
    simp only [exec] at hex
    split at hex
    · exact busy_move hex (by simpa [Goroutine.busy, Pool.executing] using h)
    · exact busy_leave hex rfl h
    · cases hex
  | begin task =>
    simp only [exec] at hex
    split at hex
    · exact busy_move hex (by simpa [Goroutine.busy, Pool.executing] using h)
    · exact busy_leave hex rfl h
  | finish | restart => exact busy_move hex (by simpa [Goroutine.busy, Pool.executing] using h)
  | panics task => exact absurd rfl (ha task)
  | _ =>
    simp only [exec] at hex
    (repeat' split at hex) <;> cases hex <;> exact h

/-- **What a step does to the queue and to the calls of `Dispatch`.** -/
theorem queue_exec (hex : exec H capacity workerSize s a = some t) :
    t.dispatchers = s.dispatchers ∧ t.pq.h.length ≤ s.pq.h.length ∨
    (∃ d st, t.dispatchers = update s.dispatchers d st ∧ t.pq = s.pq ∧
      (∀ high, st = .pushing high → a = .test d ∧ s.pq.h.length < capacity) ∧
      (st = .refused → s.started = false ∨ capacity ≤ s.pq.h.length)) ∨
    ∃ d high, s.dispatchers d = .pushing high ∧ t.dispatchers = update s.dispatchers d .accepted ∧
      t.pq.h.length = s.pq.h.length + 1 := by
  cases a with
  | call d | test d =>
    simp only [exec] at hex
    split at hex <;> cases hex
    refine .inr (.inl ⟨d, _, rfl, rfl, ?_, ?_⟩) <;> split <;> simp_all
  | push d =>
    simp only [exec] at hex
    split at hex <;> cases hex
    rename_i high hd
    exact .inr (.inr ⟨d, high, hd, rfl, (H.push_perm _ _).length_eq⟩)
  | dequeue =>
    simp only [exec] at hex
    split at hex
    · rename_i hp
      obtain ⟨rest, hw, rfl⟩ := Pool.move_eq_some hex
      have hc := congrArg card (PriorityQueue.tasks_of_waitPop hp).1
      simp only [PriorityQueue.tasks, coe_card, List.length_map, card_cons] at hc
      exact .inl ⟨rfl, by simp only; omega⟩
    · simp only [Pool.leave] at hex
      split at hex <;> cases hex
      exact .inl ⟨rfl, le_rfl⟩
    · cases hex
  | _ =>
    simp only [exec, Pool.move, Pool.leave] at hex
    (repeat' split at hex) <;> cases hex <;> exact .inl ⟨rfl, le_rfl⟩

/-- The dispatchers that are about to push are all in `pushing`. -/
def Pool.Pushing (s : Pool) (pushing : Finset ℕ) : Prop :=
  ∀ d high, s.dispatchers d = .pushing high → d ∈ pushing

/-- There is room for the tasks that are about to be pushed. -/
def Pool.Room (capacity : ℕ) (s : Pool) : Prop :=
  ∃ pushing, s.Pushing pushing ∧ s.pq.h.length + pushing.card ≤ capacity

/-- A test that finds a free place is made when fewer dispatchers are about to push than places are free. -/
def Apart (capacity : ℕ) (s : Pool) (a : Action) : Prop :=
  ∀ d, a = .test d → s.pq.h.length < capacity →
    ∃ pushing, s.Pushing pushing ∧ s.pq.h.length + pushing.card < capacity

theorem room_exec (ha : Apart capacity s a) (hex : exec H capacity workerSize s a = some t)
    (h : s.Room capacity) : t.Room capacity := by
  obtain ⟨hd, hl⟩ | ⟨d, st, hd, hq, hp, -⟩ | ⟨d, high, hp, hd, hl⟩ := queue_exec hex
  · obtain ⟨pushing, hs, hc⟩ := h
    exact ⟨pushing, fun i high hi => hs i high (hd ▸ hi), by omega⟩
  · by_cases hst : ∃ high, st = .pushing high
    · obtain ⟨high, rfl⟩ := hst
      obtain ⟨rfl, hlt⟩ := hp high rfl
      obtain ⟨pushing, hs, hc⟩ := ha d rfl hlt
      refine ⟨insert d pushing, fun i high hi => ?_, ?_⟩
      · rw [hd, update_apply] at hi
        split at hi
        · next he => exact he ▸ Finset.mem_insert_self _ _
        · exact Finset.mem_insert_of_mem (hs i high hi)
      · have := Finset.card_insert_le d pushing
        rw [hq]
        omega
    · obtain ⟨pushing, hs, hc⟩ := h
      refine ⟨pushing, fun i high hi => ?_, hq ▸ hc⟩
      rw [hd, update_apply] at hi
      split at hi
      · exact absurd ⟨high, hi⟩ hst
      · exact hs i high hi
  · obtain ⟨pushing, hs, hc⟩ := h
    have hm := hs d high hp
    refine ⟨pushing.erase d, fun i high hi => ?_, ?_⟩
    · rw [hd, update_apply] at hi
      split at hi
      · cases hi
      · next hne => exact Finset.mem_erase.2 ⟨hne, hs i high hi⟩
    · have := Finset.card_erase_add_one hm
      omega

end

/-! ### The pool -/

variable (H : Heap (Item ℕ) Item.lessCompare) (capacity workerSize : ℕ)

/-- **No worker is lost and no task is started twice before `Stop`, and the busy count is that of the workers
that run a task as long as no task has panicked.** -/
theorem workers_sound :
    (∀ s, Reaches (exec H capacity workerSize) (fun _ a => a.Early) {} s →
      (s.started = true → s.workers.card = workerSize) ∧ s.begun.Nodup) ∧
    ∀ s, Reaches (exec H capacity workerSize) (fun _ a => ∀ task, a ≠ .panics task) {} s →
      s.busyWorkers = s.executing := by
  constructor <;> intro s h
  · obtain ⟨ht, hs, -⟩ := h.invariant (I := Pool.Placed workerSize) ⟨rfl, rfl, rfl⟩
      fun _ _ _ ha hex => placed_exec ha hex
    refine ⟨fun hst => by rw [hs, if_pos hst], ?_⟩
    exact nodup_of_le (le_add_left _ _) (ht ▸ nodup_range _)
  · exact h.invariant (I := fun s => s.busyWorkers = s.executing) rfl
      fun _ _ _ ha hex => busy_exec ha hex

/-- A task panics, and with nothing running one worker counts as busy. -/
theorem busy_after_panic : ∃ s, Reaches (exec plainHeap 1 1) (fun _ a => a.Early) {} s ∧
    s.executing = 0 ∧ s.busyWorkers = 1 := by
  apply Reaches.of_exists
    (l := [.start, .call 0 true, .test 0, .push 0, .dequeue, .begin 0, .panics 0, .restart])
  decide +kernel

/-- **A refusal has its reason, and the queue keeps to its capacity if nobody finds a place that others are
about to take.** -/
theorem capacity_sound :
    (∀ s a t d, exec H capacity workerSize s a = some t → s.dispatchers d ≠ .refused →
      t.dispatchers d = .refused → s.started = false ∨ capacity ≤ s.pq.h.length) ∧
    ∀ s, Reaches (exec H capacity workerSize) (Apart capacity) {} s → s.pq.h.length ≤ capacity := by
  constructor
  · intro s a t i hex hn hr
    obtain ⟨hd, -⟩ | ⟨d, st, hd, -, -, hst⟩ | ⟨d, high, -, hd, -⟩ := queue_exec hex <;> rw [hd] at hr
    · exact absurd hr hn
    · rw [update_apply] at hr
      split at hr
      · exact hst hr
      · exact absurd hr hn
    · rw [update_apply] at hr
      split at hr
      · cases hr
      · exact absurd hr hn
  · intro s h
    obtain ⟨pushing, -, hc⟩ :=
    h.invariant (I := Pool.Room capacity) ⟨∅, by simp [Pool.Pushing], Nat.zero_le _⟩
      fun _ _ _ ha hex => room_exec ha hex
    omega

/-- Two dispatchers find room for one task, and both push. -/
theorem queue_overfull : ∃ s, Reaches (exec plainHeap 1 1) free {} s ∧ s.pq.h.length = 2 := by
  apply Reaches.of_exists (l := [.start, .call 0 true, .call 1 true, .test 0, .test 1, .push 0, .push 1])
  decide +kernel

end Llumnix.RequestQueue
