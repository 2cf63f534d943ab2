/-
**The move scripts of the batch store, on the keys of Redis.**

`MoveTaskAndUpdateStatusAtomically`, `MoveTaskAtomically` and `MoveShardAtomically` of `redis_store.go` run
the same script on the keys of two sets; the first one then writes to the hash of the task.  An empty set
and a missing one are the same; the keys of sets hold sets and those of tasks hashes.

* `exact_iff_differ` — **a move is exact exactly when its two statuses differ**: with the same set twice it
  removes what it has added.
-/

import Llumnix.BatchStore

namespace Llumnix.Batch.Script

open Function

/-- The sets and the hashes of Redis, by their keys. -/
structure Content where
  sets : String → Finset String
  hashes : String → String → Option String

def getTaskSetKey (set : BatchTaskStatus) : String := "tasks:" ++ set.string

variable (c : Content) (taskID : String)

def getShardSetKey (status : ShardStatus) : String :=
  "task:" ++ taskID ++ ":files:" ++ status.string

def getTaskKey : String := "task:" ++ taskID

/-- The field that is stamped besides `updated_at`. -/
def stampField : BatchTaskStatus → Option String
  | .inProgress => some "in_progress_at"
  | .finalizing => some "finalizing_at"
  | .completed => some "completed_at"
  | .failed => some "failed_at"
  | .expired => some "expired_at"
  | .cancelling => some "cancelling_at"
  | .cancelled => some "cancelled_at"
  | .validating | .finalize | .pending => none

/-- The hash after the `HSET`s of the script; the time of going in progress is written once. -/
def stamp (hash : String → Option String) (toSet : BatchTaskStatus) (now field : String) : Option String :=
  if field = "status" then some toSet.string
  else if field = "updated_at" then some now
  else if stampField toSet = some field ∧ ¬(toSet = .inProgress ∧ (hash field).isSome) then some now
  else hash field

/-- What the scripts share; the flag says that no error is reported. -/
def move (id fromKey toKey : String) : Content × Bool :=
  let r := moveScript c.sets id fromKey toKey
  ({ c with sets := r.1 }, r.2)

def moveTaskAndUpdateStatusAtomically (fromSet toSet : BatchTaskStatus) (now : String) : Content × Bool :=
  let r := move c taskID (getTaskSetKey fromSet) (getTaskSetKey toSet)
  if r.2 then
    ({ r.1 with
        hashes := update c.hashes (getTaskKey taskID) (stamp (c.hashes (getTaskKey taskID)) toSet now) }, true)
  else r

def moveTaskAtomically (fromSet toSet : BatchTaskStatus) : Content × Bool :=
  move c taskID (getTaskSetKey fromSet) (getTaskSetKey toSet)

def moveShardAtomically (shardID : String) (fromStatus toStatus : ShardStatus) : Content × Bool :=
  move c shardID (getShardSetKey taskID fromStatus) (getShardSetKey taskID toStatus)

/-- **An exact move**: an error and no change, or the id has moved and nothing else has changed but the fields
that the script may write. -/
def Exact (id fromKey toKey : String) (differ : Prop) (writes : String → String → Prop)
    (r : Content × Bool) : Prop :=
  r = (c, false) ∨ r.2 = true ∧ id ∈ r.1.sets toKey ∧ (differ → id ∉ r.1.sets fromKey) ∧
    (∀ key j, j ≠ id ∨ key ≠ fromKey ∧ key ≠ toKey → (j ∈ r.1.sets key ↔ j ∈ c.sets key)) ∧
    ∀ key field, ¬writes key field → r.1.hashes key field = c.hashes key field

/-- Whatever is written to the hashes, the shared script decides. -/
theorem exact_iff_of {c : Content} {id fromKey toKey : String} {differ : Prop}
    {writes : String → String → Prop} {r : Content × Bool} (hk : differ ↔ fromKey ≠ toKey)
    (hs : r.1.sets = (moveScript c.sets id fromKey toKey).1)
    (hr : r.2 = (moveScript c.sets id fromKey toKey).2) (hf : r.2 = false → r.1.hashes = c.hashes)
    (hw : ∀ key field, ¬writes key field → r.1.hashes key field = c.hashes key field) :
    Exact c id fromKey toKey differ writes r ↔ differ := by
  obtain ⟨⟨sets, hashes⟩, ok⟩ := r
  dsimp only at hs hr hf hw
  by_cases hne : fromKey = toKey
  · subst hne
    simp [moveScript] at hs hr
    simp [hk, Exact, hs, hr]
  · refine iff_of_true ?_ (hk.2 hne)
    by_cases hm : id ∈ c.sets fromKey
    · refine .inr ⟨by simp [hr, moveScript_snd hne, hm], ?_, fun _ => ?_, fun key j hj => ?_, hw⟩
      · simp [hs, mem_moveScript hne, hm]
      · simp [hs, mem_moveScript hne, hm, hne]
      · simp only [hs, mem_moveScript hne]
        grind
    · rw [moveScript_of_notMem hne hm] at hs hr
      exact .inl (by rw [hr, hs, hf hr])

theorem ne_iff_getTaskSetKey {a b : BatchTaskStatus} : a ≠ b ↔ getTaskSetKey a ≠ getTaskSetKey b := by
  cases a <;> cases b <;> decide

/-- The scripts are exact for different statuses, and for no others. -/
theorem exact_iff_differ (c : Content) :
    (∀ taskID fromSet toSet now, let r := moveTaskAndUpdateStatusAtomically c taskID fromSet toSet now
      (Exact c taskID (getTaskSetKey fromSet) (getTaskSetKey toSet) (fromSet ≠ toSet)
          (fun key field => key = getTaskKey taskID ∧
            (field = "status" ∨ field = "updated_at" ∨ stampField toSet = some field)) r ∧
        (r.2 = true → r.1.hashes (getTaskKey taskID) "status" = some toSet.string)) ↔ fromSet ≠ toSet) ∧
    (∀ taskID fromSet toSet, Exact c taskID (getTaskSetKey fromSet) (getTaskSetKey toSet) (fromSet ≠ toSet)
      (fun _ _ => False) (moveTaskAtomically c taskID fromSet toSet) ↔ fromSet ≠ toSet) ∧
    ∀ taskID shardID fromStatus toStatus, Exact c shardID (getShardSetKey taskID fromStatus)
      (getShardSetKey taskID toStatus) (fromStatus ≠ toStatus) (fun _ _ => False)
      (moveShardAtomically c taskID shardID fromStatus toStatus) ↔ fromStatus ≠ toStatus := by
  refine ⟨fun t a b now => ?_, fun t a b => ?_, fun t i a b => ?_⟩
  · unfold moveTaskAndUpdateStatusAtomically
    by_cases h : (move c t (getTaskSetKey a) (getTaskSetKey b)).2 = true
    · simp only [h, if_true, update_self, stamp, implies_true, and_true]
      refine exact_iff_of ne_iff_getTaskSetKey rfl h.symm nofun fun key field hw => ?_
      by_cases hkey : key = getTaskKey t
      · subst hkey
        simp only [true_and, not_or] at hw
        simp [stamp, hw]
      · simp [hkey]
    · simp only [h, Bool.false_eq_true, if_false, false_implies, and_true]
      exact exact_iff_of (r := move c _ _ _) ne_iff_getTaskSetKey rfl rfl (fun _ => rfl) fun _ _ _ => rfl
  · exact exact_iff_of ne_iff_getTaskSetKey rfl rfl (fun _ => rfl) fun _ _ _ => rfl
  · refine exact_iff_of ?_ rfl rfl (fun _ => rfl) fun _ _ _ => rfl
    simp only [getShardSetKey, ne_eq, String.append_right_inj]
    cases a <;> cases b <;> decide

/-- A validating task that is moved to where it is: the script reports success, and the task is in no set. -/
theorem moved_onto_itself : ¬Exact ⟨fun _ => {"t"}, fun _ _ => none⟩ "t" "tasks:validating" "tasks:validating"
    (BatchTaskStatus.validating ≠ .validating) (fun _ _ => False)
    (moveTaskAtomically ⟨fun _ => {"t"}, fun _ _ => none⟩ "t" .validating .validating) := by
  simp [Exact, moveTaskAtomically, move, moveScript, getTaskSetKey, BatchTaskStatus.string]

end Llumnix.Batch.Script
