/-
**What a goroutine knows about a task under its lock.**

A goroutine that has moved a task under its lock relies on the task being there several commands later, and
one that has read `validating` in the hash relies on the task being in that set.  As long as critical
sections are kept apart this is so.

* `Custodial.step` — **this is kept by every command** that is no move from a set to itself, unless the
  update that marks a failed task is refused and the task is moved nevertheless.
-/

import Llumnix.BatchLocks

namespace Llumnix.Batch

open GuardedRun Interaction Processes Function Option

variable {w : World}

/-! ### What a goroutine knows under the lock -/

/-- What a phase says about the store. -/
def Phase.Holds (w : World) : Phase → Prop
  | .placed taskID status | .changed taskID status => taskID ∈ w.taskSets status
  | .marked taskID status mark =>
    taskID ∈ w.taskSets status ∧ ∀ task ∈ w.tasks taskID, task.status = mark
  | _ => True

structure Custodial (w : World) (φ : Proc → Phase) : Prop where
  /-- A hash that says `validating` tells the truth. -/
  validating : ∀ taskID, ∀ task ∈ w.tasks taskID, task.status = .validating →
    taskID ∈ w.taskSets .validating
  holds : ∀ i, (φ i).Holds w

section

variable {w w' : World} {g : Phase}

theorem Phase.Holds.congr (h : g.Holds w) (ht : ∀ t, g.Inside t → w'.tasks t = w.tasks t)
    (hs : ∀ t st, g.Inside t → t ∈ w.taskSets st → t ∈ w'.taskSets st) : g.Holds w' := by
  cases g with
  | placed t st | changed t st => exact hs t st rfl h
  | marked t st =>
    refine ⟨hs t st rfl h.1, ?_⟩
    rw [ht t rfl]
    exact h.2
  | _ => trivial

theorem Phase.Holds.member {t : String} (h : g.Holds w) (hin : g.Inside t) (hg : g ≠ .locked t) :
    w.Member t := by
  cases g with
  | placed t' st | changed t' st => exact hin ▸ ⟨st, h⟩
  | marked t' st => exact hin ▸ ⟨st, h.1⟩
  | locked => exact absurd (congrArg Phase.locked hin) hg
  | _ => exact hin.elim

end

section

variable {w w' : World} {φ : Proc → Phase} {i : Proc}
variable {r : Remote} {ch : Choice} {taskID : String} {task : BatchTask}

theorem Custodial.others (h : Custodial w φ) (hx : Exclusive w φ) (hm : Membership w φ)
    (ha : (φ i).AllowedRemote r) (hw : w' = w ∨ w' = effect w r) {j : Proc} (hji : j ≠ i) :
    (φ j).Holds w' := by
  rcases hw with rfl | rfl
  · exact h.holds j
  by_cases hl : ∃ t, φ j = .locked t
  · obtain ⟨t, ht⟩ := hl
    rw [ht]
    trivial
  · have hu : ∀ t, (φ j).Inside t → r.subject ≠ some t := fun t hin =>
      hx.untouched hm ha ((h.holds j).member hin fun ht => hl ⟨t, ht⟩) hin hji
    exact (h.holds j).congr (fun t hin => tasks_effect (hu t hin))
      fun t st hin => (mem_taskSets_effect (hu t hin)).2

theorem tasks_of_getTask (h : answer w ch (.getTask taskID) = some (.ok task)) :
    w.tasks taskID = some task := by
  simp only [answer, some.injEq] at h
  unfold orError at h
  split at h <;> cases h
  next hs => exact hs

theorem Custodial.reads (h : Custodial w φ) (ht : w.tasks taskID = some task) :
    ((φ i).reads taskID task.status).Holds w := by
  unfold Phase.reads
  split
  · next hr => exact h.validating taskID task ht hr.2
  · exact h.holds i

def Cmd.marksFailure : Cmd → Bool
  | .remote (.updateTaskFailure ..) => true
  | _ => false

/-- The marking of a failed task is not refused. -/
def MarkDone (c : Cmd) (ch : Choice) : Prop := c.marksFailure = true → ch.refused = false

instance (c : Cmd) (ch : Choice) : Decidable (MarkDone c ch) :=
  inferInstanceAs (Decidable (_ → _))

theorem Custodial.own (h : Custodial w φ) {x : Except String r.Val} (ha : (φ i).AllowedRemote r)
    (hse : (Cmd.remote r).selfMove = false) (hm : MarkDone (.remote r) ch)
    (hs : Batch.step w (.remote r) ch = some (w', x)) : ((φ i).afterRemote r x).Holds w' := by
  have hk : r.subject = none → (φ i).Holds w' := by
    intro hr
    have hne : ∀ t, r.subject ≠ some t := fun t ht => by rw [hr] at ht; cases ht
    rcases eq_or_eq_effect hs with rfl | rfl
    · exact h.holds i
    · exact (h.holds i).congr (fun t _ => tasks_effect (hne t))
        fun t st _ => (mem_taskSets_effect (hne t)).2
  have hi := h.holds i
  cases r with
  | hsetTask =>
    obtain ⟨uuid, hg, -⟩ := ha
    rw [hg]
    cases x <;> trivial
  | saddPending => cases x <;> trivial
  | acquireTaskLock =>
    rcases x with e | _ | _
    · exact hk rfl
    · exact hk rfl
    · trivial
  | releaseTaskLock => trivial
  | getTask =>
    cases x with
    | error => exact hk rfl
    | ok =>
      obtain ⟨rfl, hx⟩ := step_remote_ok hs
      exact h.reads (tasks_of_getTask hx)
  | getTaskStatus =>
    cases x with
    | error => exact hk rfl
    | ok =>
      obtain ⟨rfl, hx⟩ := step_remote_ok hs
      simp only [answer, some.injEq, orError] at hx
      split at hx <;> cases hx
      next hs =>
        obtain ⟨task, hta, rfl⟩ := map_eq_some_iff.1 hs
        exact h.reads hta
  | updateTaskFailure taskID =>
    obtain rfl := eq_effect_of_not_refused hs (hm rfl)
    have hg : φ i = .placed taskID .validating := ha
    rw [hg] at hi
    refine ⟨hi, fun task hta => ?_⟩
    simp only [effect, update_self, mem_def, map_eq_some_iff] at hta
    obtain ⟨stored, -, rfl⟩ := hta
    rfl
  | updateTaskFields taskID task =>
    rcases ha with hg | ⟨hg, hc⟩
    · -- the hash may now say anything, but the task has not moved
      rw [Phase.afterRemote, if_pos hg]
      rw [hg] at hi
      rcases eq_or_eq_effect hs with rfl | rfl <;> exact hi
    · rw [Phase.afterRemote, if_neg (by rw [hg]; exact fun heq => by cases heq)]
      rw [hg] at hi
      cases x with
      | error => trivial
      | ok =>
        obtain ⟨rfl, -⟩ := step_remote_ok hs
        refine ⟨hi, fun stored hst => ?_⟩
        simp only [effect, update_self, mem_def, map_eq_some_iff] at hst
        obtain ⟨before, -, rfl⟩ := hst
        exact hc
  | moveTaskAndUpdateStatus taskID fromSet toSet =>
    have hne : fromSet ≠ toSet := by simpa [Cmd.selfMove] using hse
    cases x with
    | error => trivial
    | ok =>
      obtain ⟨rfl, hx⟩ := step_remote_ok hs
      have hme : taskID ∈ w.taskSets fromSet := by simpa [answer, moveScript_snd hne] using hx
      change taskID ∈ (effect w _).taskSets toSet
      rw [taskSets_move, mem_moveScript hne, if_pos ⟨rfl, hme⟩]
      exact .inl rfl
  | moveTask => trivial
  | _ => exact hk rfl

theorem stampStatus_status (task : BatchTask) (toSet : BatchTaskStatus) (now : Int) :
    (stampStatus task toSet now).status = toSet := by
  cases toSet <;> rfl

theorem tasks_move {fromSet toSet : BatchTaskStatus} {now : Int} (hne : fromSet ≠ toSet) :
    (effect w (.moveTaskAndUpdateStatus taskID fromSet toSet now)).tasks taskID
      = if taskID ∈ w.taskSets fromSet then (w.tasks taskID).map fun task => stampStatus task toSet now
        else w.tasks taskID := by
  simp only [effect, moveScript_snd hne, decide_eq_true_eq]
  split
  · exact update_self ..
  · rfl

/-- A hash that says `validating` tells the truth after every command about its task. -/
theorem Custodial.validating_effect (h : Custodial w φ) (ha : (φ i).AllowedRemote r)
    (hse : (Cmd.remote r).selfMove = false) (ht : (effect w r).tasks taskID = some task)
    (hst : task.status = .validating) : taskID ∈ (effect w r).taskSets .validating := by
  by_cases hs : r.subject = some taskID
  · have hi := h.holds i
    cases r with
    | hsetTask =>
      cases hs
      obtain ⟨uuid, -, -, hp⟩ := ha
      simp only [effect, update_self, some.injEq] at ht
      subst ht
      cases hp.symm.trans hst
    | saddPending =>
      cases hs
      exact mem_taskSets_saddPending.2 (.inr (h.validating _ task ht hst))
    | updateTaskFailure =>
      cases hs
      simp only [effect, update_self, map_eq_some_iff] at ht
      obtain ⟨stored, -, rfl⟩ := ht
      cases hst
    | updateTaskFields =>
      cases hs
      rcases ha with hg | ⟨hg, hc⟩
      · rw [hg] at hi
        exact hi
      · simp only [effect, update_self, map_eq_some_iff] at ht
        obtain ⟨stored, -, rfl⟩ := ht
        cases hc.symm.trans hst
    | moveTaskAndUpdateStatus t fromSet toSet now =>
      cases hs
      have hne : fromSet ≠ toSet := by simpa [Cmd.selfMove] using hse
      rw [taskSets_move, mem_moveScript hne]
      rw [tasks_move hne] at ht
      split at ht
      · rename_i hm
        obtain ⟨stored, -, rfl⟩ := map_eq_some_iff.1 ht
        rw [stampStatus_status] at hst
        rw [if_pos ⟨rfl, hm⟩]
        exact .inl hst.symm
      · rename_i hm
        rw [if_neg fun hmo => hm hmo.2]
        exact h.validating _ task ht hst
    | moveTask =>
      cases hs
      obtain ⟨hg, -, hte⟩ := ha
      rw [hg] at hi
      -- the hash has been marked with the status the task moves to
      rw [← hi.2 task ht, hst] at hte
      cases hte
    | _ => cases hs
  · rw [tasks_effect hs] at ht
    rw [mem_taskSets_effect hs]
    exact h.validating taskID task ht hst

theorem Custodial.step (h : Custodial w φ) (hx : Exclusive w φ) (hm : Membership w φ) {c : Cmd}
    {x : c.Resp} (ha : (φ i).Allowed c) (hse : c.selfMove = false) (hma : MarkDone c ch)
    (hs : step w c ch = some (w', x)) : Custodial w' (update φ i ((φ i).after c x)) := by
  cases c with
  | remote r =>
    have hw := eq_or_eq_effect hs
    constructor
    · intro t task ht hst
      rcases hw with rfl | rfl
      · exact h.validating t task ht hst
      · exact h.validating_effect ha hse ht hst
    · intro j
      rw [update_apply]
      split
      · exact h.own ha hse hma hs
      · next hji => exact h.others hx hm ha hw hji
  | newUUID =>
    obtain ⟨-, rfl, rfl⟩ := step_newUUID hs
    refine ⟨h.validating, fun j => ?_⟩
    rw [update_apply]
    split
    · have hi := h.holds i
      cases hg : φ i <;> rw [hg] at hi <;> exact hi
    · exact h.holds j
  | _ =>
    cases hs
    rw [Phase.after, update_eq_self]
    exact ⟨h.validating, h.holds⟩

theorem Custodial.forget (h : Custodial w φ) (i : Proc) : Custodial w (update φ i .outside) := by
  refine ⟨h.validating, fun j => ?_⟩
  rw [update_apply]
  split
  · trivial
  · exact h.holds j

end

theorem custodial_of_noTasks (h : w.NoTasks) : Custodial w fun _ => .outside := by
  refine ⟨fun t task ht => ?_, fun _ => trivial⟩
  rw [h.tasks t] at ht
  cases ht

/-! ### All invariants together -/

/-- What is known about tasks and their locks. -/
structure Kept (w : World) (φ : Proc → Phase) : Prop where
  membership : Membership w φ
  exclusive : Exclusive w φ
  custodial : Custodial w φ

theorem kept_of_noTasks (h : w.NoTasks) : Kept w fun _ => .outside :=
  ⟨membership_of_noTasks h, exclusive_idle w, custodial_of_noTasks h⟩

theorem Kept.step {w' : World} {φ : Proc → Phase} {i : Proc} (h : Kept w φ) {c : Cmd} {ch : Choice}
    {x : c.Resp} (ha : (φ i).Allowed c) (hse : c.selfMove = false) (hm : MarkDone c ch)
    (hs : step w c ch = some (w', x)) : Kept w' (update φ i ((φ i).after c x)) :=
  ⟨h.membership.step ha hse hs, h.exclusive.step ha hs,
    h.custodial.step h.exclusive h.membership ha hse hm hs⟩

theorem Kept.forget {φ : Proc → Phase} (h : Kept w φ) (i : Proc) : Kept w (update φ i .outside) :=
  ⟨h.membership.forget i, h.exclusive.forget i, h.custodial.forget i⟩

theorem Kept.tick {σ : System} (h : Kept σ.store (σ.phase custodies)) {ms : Nat}
    (hok : LocksKept σ (.env ms)) (ht : tick σ.store ms = some w) : Kept w (σ.phase custodies) := by
  refine ⟨?_, h.exclusive.tick hok ht, ?_⟩
  · cases ht
    exact ⟨h.membership.unique, h.membership.used, h.membership.fresh, h.membership.drawn_inj,
      h.membership.added, h.membership.created⟩
  · cases ht
    exact ⟨h.custodial.validating, fun i => (h.custodial.holds i).congr (fun _ _ => rfl) fun _ _ _ hm => hm⟩

end Llumnix.Batch
