/-
**The custody of a task: creation, lock, and the writes in between.**

A handler draws a UUID, writes the hash of the new task and adds it to the pending set.  Everybody else
takes the lock of a task, may read its hash, and then writes: a stamped move is one script, and the other
writes of the hash are followed by a move.  Then the lock is given back.

* `program_follows` — **every turn of every goroutine follows this**, whatever the store answers.

The phases say what a goroutine has done; what this means for the store depends on how locks expire.
-/

import Llumnix.BatchFootprint

namespace Llumnix.Batch

open Interaction Interaction.Prog Follows

/-! ### The protocol -/

/-- Where a goroutine stands. -/
inductive Phase
  | outside
  /-- It has drawn a UUID, and holds no lock. -/
  | drawn (uuid : String)
  | hashed (uuid : String)
  | added (taskID : String)
  | locked (taskID : String)
  /-- Under the lock, it has moved the task to this set, or has read that the task is validating. -/
  | placed (taskID : String) (status : BatchTaskStatus)
  /-- Under the lock, it has written a status it had loaded earlier to the hash of a task in this
  set. -/
  | changed (taskID : String) (status : BatchTaskStatus)
  /-- Under the lock, it has written `mark` to the hash of a task that is still in the set `status`. -/
  | marked (taskID : String) (status mark : BatchTaskStatus)
  deriving DecidableEq

variable (γ : Gateway) (instanceID : String) (g : Phase)

namespace Phase

/-- No lock, and nothing being created. -/
def Free : Prop := g = .outside ∨ ∃ uuid, g = .drawn uuid

/-- The lock is held, and the hash is not ahead of the set. -/
def Holding (taskID : String) : Prop :=
  g = .locked taskID ∨ ∃ status, g = .placed taskID status

/-- The hash has been written and the move that goes with it has not been issued. -/
def Unsettled : Phase → String → Prop
  | .changed t _, taskID | .marked t _ _, taskID => t = taskID
  | _, _ => False

/-- The goroutine believes that it holds the lock of the task. -/
def Inside : Phase → String → Prop
  | .locked t, taskID | .placed t _, taskID | .changed t _, taskID | .marked t _ _, taskID => t = taskID
  | _, _ => False

/-- What a remote command may be issued for, in a phase. -/
def AllowedRemote : Remote → Prop
  | .hsetTask task => ∃ uuid, g = .drawn uuid ∧ task.id = "batch_" ++ uuid ∧ task.status = .pending
  | .saddPending taskID => ∃ uuid, g = .hashed uuid ∧ taskID = "batch_" ++ uuid
  | .acquireTaskLock _ _ expiration => g.Free ∧ 0 < expiration
  | .extendTaskLock _ _ expiration => 0 < expiration
  | .releaseTaskLock taskID _ => g.Holding taskID
  | .updateTaskFailure taskID _ _ => g = .placed taskID .validating
  | .updateTaskFields taskID task =>
    g = .placed taskID .validating ∨ g = .placed taskID .finalize ∧ task.status = .completed
  | .moveTaskAndUpdateStatus taskID fromSet toSet _ =>
    (g.Holding taskID ∨ g = .changed taskID fromSet) ∧
      (toSet = .expired ∨ fromSet ≠ toSet ∧ fromSet.terminal = false)
  | .moveTask taskID fromSet toSet =>
    g = .marked taskID fromSet toSet ∧ fromSet.terminal = false ∧ toSet.terminal = true
  | _ => True

def Allowed : Cmd → Prop
  | .remote r => g.AllowedRemote r
  | .reply (.created task) => g = .added task.id
  | _ => True

def draw (uuid : String) : Phase :=
  match g with
  | .outside | .drawn _ | .hashed _ | .added _ => .drawn uuid
  | g => g

/-- After reading the status of a task. -/
def reads (taskID : String) (status : BatchTaskStatus) : Phase :=
  if g = .locked taskID ∧ status = .validating then .placed taskID .validating else g

def afterRemote : (r : Remote) → Except String r.Val → Phase
  | .hsetTask _, .ok _ => match g with
    | .drawn uuid => .hashed uuid
    | g => g
  | .hsetTask _, .error _ => .outside
  | .saddPending taskID, .ok _ => .added taskID
  | .saddPending _, .error _ => .outside
  | .acquireTaskLock taskID _ _, .ok true => .locked taskID
  | .releaseTaskLock _ _, _ => .outside
  | .getTask taskID, .ok task => g.reads taskID task.status
  | .getTaskStatus taskID, .ok status => g.reads taskID status
  | .updateTaskFailure taskID _ _, _ => .marked taskID .validating .failed
  | .updateTaskFields taskID _, x =>
    if g = .placed taskID .validating then .changed taskID .validating
    else if x.isOk then .marked taskID .finalize .completed else .locked taskID
  | .moveTaskAndUpdateStatus taskID _ toSet _, .ok _ => .placed taskID toSet
  | .moveTaskAndUpdateStatus taskID _ _ _, .error _ => .locked taskID
  | .moveTask taskID _ _, _ => .locked taskID
  | _, _ => g

def after : (c : Cmd) → c.Resp → Phase
  | .remote r, x => g.afterRemote r x
  | .newUUID, uuid => g.draw uuid
  | .timeNow, _ | .httpDo _, _ | .tickerFired, _ | .reply _, _ => g

end Phase

/-- **The protocol of custody.**  A turn ends without a lock. -/
def custody : Protocol Cmd Cmd.Resp Phase where
  start := .outside
  allowed := Phase.Allowed
  advance := Phase.after
  final g := ∀ taskID, ¬ g.Inside taskID

/-- Everybody is subject to it. -/
abbrev custodies : Proc → Protocol Cmd Cmd.Resp Phase := fun _ => custody

variable {g : Phase} {taskID : String} {α : Type} {p : GatewayM α} {status : BatchTaskStatus}

/-- The lock of the task is held before `p`, as far as anything is known, and after it. -/
abbrev Holds (taskID : String) (g : Phase) (p : GatewayM α) : Prop :=
  Follows custody (fun g' _ => g'.Holding taskID) g p

/-- `p` ends without a lock. -/
abbrev Leaves (g : Phase) (p : GatewayM α) : Prop := Follows custody (fun g' _ => custody.final g') g p

theorem Phase.Free.final (h : g.Free) : custody.final g := by
  rcases h with rfl | ⟨uuid, rfl⟩ <;> exact fun _ hin => hin

/-! ### Quiet parts -/

theorem allowed_of_quiet {c : Cmd} (hc : c.taskLevel = false) (g : Phase) : g.Allowed c := by
  cases c with
  | remote r => cases r <;> trivial
  | reply => cases hc
  | _ => trivial

/-- All that a quiet command does to a phase: a UUID is drawn, or the status of a task is read. -/
theorem after_of_quiet {c : Cmd} (hc : c.taskLevel = false) (g : Phase) (x : c.Resp) :
    g.after c x = g ∨ (∃ uuid, g.after c x = g.draw uuid) ∨
      ∃ taskID status, g.after c x = g.reads taskID status := by
  cases c with
  | newUUID => exact .inr (.inl ⟨x, rfl⟩)
  | remote r =>
    cases r with
    | getTask | getTaskStatus =>
      cases x
      · exact .inl rfl
      · exact .inr (.inr ⟨_, _, rfl⟩)
    | _ => first | exact .inl rfl | cases hc
  | reply => cases hc
  | _ => exact .inl rfl

theorem Phase.Free.draw (h : g.Free) (uuid : String) : (g.draw uuid).Free := by
  rcases h with rfl | ⟨u, rfl⟩ <;> exact .inr ⟨uuid, rfl⟩

theorem Phase.Free.reads (h : g.Free) (taskID : String) (status : BatchTaskStatus) :
    (g.reads taskID status).Free := by
  rcases h with rfl | ⟨u, rfl⟩
  · exact .inl rfl
  · exact .inr ⟨u, rfl⟩

theorem Phase.Holding.draw (h : g.Holding taskID) (uuid : String) : g.draw uuid = g := by
  rcases h with rfl | ⟨status, rfl⟩ <;> rfl

theorem Phase.Holding.reads (h : g.Holding taskID) (t : String) (status : BatchTaskStatus) :
    (g.reads t status).Holding taskID := by
  unfold Phase.reads
  split
  · rename_i hr
    rcases h with rfl | ⟨st, rfl⟩
    · obtain ⟨hl, -⟩ := hr
      cases hl
      exact .inr ⟨_, rfl⟩
    · cases hr.1
  · exact h

theorem Quiet.free (hg : g.Free) (hp : Quiet p) : Follows custody (fun g' _ => g'.Free) g p := by
  refine Uses.follows_of (M := Phase.Free) ?_ hg hp
  intro g c hg hc
  refine ⟨allowed_of_quiet hc g, fun x => ?_⟩
  change (g.after c x).Free
  rcases after_of_quiet hc g x with h | ⟨uuid, h⟩ | ⟨t, status, h⟩ <;> rw [h]
  · exact hg
  · exact hg.draw uuid
  · exact hg.reads t status

theorem Quiet.holding (hg : g.Holding taskID) (hp : Quiet p) : Holds taskID g p := by
  refine Uses.follows_of (M := fun g : Phase => g.Holding taskID) ?_ hg hp
  intro g c hg hc
  refine ⟨allowed_of_quiet hc g, fun x => ?_⟩
  change (g.after c x).Holding taskID
  rcases after_of_quiet hc g x with h | ⟨uuid, h⟩ | ⟨t, status, h⟩ <;> rw [h]
  · exact hg
  · rw [hg.draw uuid]
    exact hg
  · exact hg.reads t status

theorem Quiet.placed (hp : Quiet p) :
    Follows custody (fun g' _ => g' = .placed taskID status) (.placed taskID status) p := by
  refine Uses.follows ?_ hp
  intro c hc
  refine ⟨allowed_of_quiet hc _, fun x => ?_⟩
  rcases after_of_quiet hc (.placed taskID status) x with h | ⟨uuid, h⟩ | ⟨t, st, h⟩
  · exact h
  · exact h
  · exact h.trans (if_neg (fun hr => by cases hr.1))

/-! ### Moves and locks -/

section

variable {g : Phase} {taskID : String} {fromSet toSet : BatchTaskStatus}

section

variable (hg : g.Holding taskID ∨ g = .changed taskID fromSet)
  (hs : toSet = .expired ∨ fromSet ≠ toSet ∧ fromSet.terminal = false)
include hg hs

/-- A stamped move under the lock: the task has been placed, or nothing is known. -/
theorem follows_move :
    Follows custody (fun g' x => g' = if x.isOk then .placed taskID toSet else .locked taskID) g
      (moveTaskAndUpdateStatusAtomically taskID fromSet toSet) := by
  refine ⟨trivial, fun now => ⟨⟨hg, hs⟩, fun x => ?_⟩⟩
  cases x <;> rfl

theorem follows_move_holding : Holds taskID g (moveTaskAndUpdateStatusAtomically taskID fromSet toSet) := by
  refine mono ?_ (follows_move hg hs)
  rintro g' x rfl
  split
  · exact .inr ⟨toSet, rfl⟩
  · exact .inl rfl

end

theorem follows_release (hg : g.Holding taskID) :
    Leaves g (logged (call (.releaseTaskLock taskID instanceID))) :=
  ⟨hg, fun _ _ hin => hin⟩

end

/-! ### The handlers -/

theorem custody_createTask {task : BatchTask} {uuid : String} (hid : task.id = "batch_" ++ uuid)
    (hs : task.status = .pending) :
    Follows custody (fun g' x => custody.final g' ∧ (x.isOk → g' = .added task.id)) (.drawn uuid)
      (createTask task) := by
  refine issue ⟨uuid, rfl, hid, hs⟩ fun x => ?_
  cases x with
  | error => exact ⟨fun _ hin => hin, fun h => by cases h⟩
  | ok =>
  refine issue trivial fun y => ?_
  cases y with
  | error => exact ⟨fun _ hin => hin, fun h => by cases h⟩
  | ok =>
    refine ⟨⟨uuid, rfl, hid⟩, fun z => ?_⟩
    cases z with
    | error => exact ⟨fun _ hin => hin, fun h => by cases h⟩
    | ok => exact ⟨fun _ hin => hin, fun _ => rfl⟩

theorem error_of_checkCreateRequest {request : CreateRequest} {r : Reply}
    (h : checkCreateRequest request = some r) : ∃ text code, r = .error text code := by
  unfold checkCreateRequest at h
  repeat' split at h
  all_goals cases h
  all_goals exact ⟨_, _, rfl⟩

theorem follows_replyError {Q : Phase → Unit → Prop} {text : String} {code : Nat} (h : Q g ()) :
    Follows custody Q g (reply (.error text code)) :=
  ⟨trivial, fun _ => h⟩

theorem custody_handleCreateBatchTask (request : CreateRequest) :
    Leaves .outside (handleCreateBatchTask request) := by
  unfold handleCreateBatchTask
  split
  · rename_i r hr
    obtain ⟨text, code, rfl⟩ := error_of_checkCreateRequest hr
    exact follows_replyError (Phase.Free.final (.inl rfl))
  refine issue trivial fun x => ?_
  cases x with
  | error => exact follows_replyError (Phase.Free.final (.inl rfl))
  | ok =>
  refine issue trivial fun uuid => ?_
  split
  · exact follows_replyError (Phase.Free.final (.inr ⟨uuid, rfl⟩))
  · refine issue trivial fun now => ?_
    refine bind_of (custody_createTask rfl rfl) fun g' y hy => ?_
    cases y with
    | error => exact follows_replyError hy.1
    | ok =>
      obtain rfl := hy.2 rfl
      exact ⟨rfl, fun _ _ hin => hin⟩

theorem not_terminal_of_cancellable (h : cancellable status = true) :
    status ≠ .cancelling ∧ status.terminal = false := by
  cases status <;> simp_all [cancellable, BatchTaskStatus.terminal]

/-- The cancel handler under the lock: only validating and in-progress tasks are moved. -/
theorem custody_cancelLocked (taskID : String) : Holds taskID (.locked taskID) (cancelLocked taskID) := by
  refine bind_of (Quiet.holding (.inl rfl) (quiet_call rfl)) fun g x hg => ?_
  cases x with
  | error => exact follows_replyError hg
  | ok taskStatus =>
  dsimp only
  split
  · exact follows_replyError hg
  rename_i hc
  have hs := not_terminal_of_cancellable (not_not.1 hc)
  refine bind_of (follows_move_holding (.inl hg) (.inr hs)) fun g y hg => ?_
  cases y with
  | error => exact follows_replyError hg
  | ok =>
    refine bind_of (Quiet.holding hg (quiet_call rfl)) fun g z hg => ?_
    cases z with
    | error => exact follows_replyError hg
    | ok => exact ⟨trivial, fun _ => hg⟩

theorem custody_cancelBatchTaskHandler (taskID : String) :
    Leaves .outside (cancelBatchTaskHandler instanceID taskID) := by
  refine bind_of (Quiet.free (.inl rfl) (quiet_call rfl)) fun g x hg => ?_
  cases x with
  | error => exact follows_replyError hg.final
  | ok =>
  dsimp only
  split
  · exact follows_replyError hg.final
  · refine issue ⟨hg, by decide⟩ fun y => ?_
    rcases y with e | _ | _
    · exact follows_replyError hg.final
    · exact follows_replyError hg.final
    · exact bind_of (custody_cancelLocked taskID) fun g _ hg => follows_release instanceID hg

/-! ### The validating reactor -/

/-- A file that is refused fails the task; one that is accepted leaves it where it is. -/
theorem custody_validateInputFile (taskID : String) (fileLines : List Bytes) :
    Follows custody (fun g' x => if x.isOk then g' = .placed taskID .validating else g'.Holding taskID)
      (.placed taskID .validating) (validateInputFile γ taskID fileLines).run := by
  unfold validateInputFile
  split
  · exact rfl
  · refine issue trivial fun now => ?_
    refine issue rfl fun _ => ?_
    exact issue ⟨rfl, rfl, rfl⟩ fun _ => .inl rfl

theorem follows_orFail_holding {message : String} {x : GatewayM (Except String α)} (h : Holds taskID g x) :
    Holds taskID g (orFail message x).run := by
  refine follows_orFail_last (mono ?_ h)
  intro g' r hg'
  cases r with
  | ok | error => exact hg'

theorem custody_finishValidating (taskID : String) (task : BatchTask) (lineCount : Nat) :
    Holds taskID (.placed taskID .validating) (finishValidating taskID task lineCount).run := by
  refine issue trivial fun now => ?_
  refine issue (.inl rfl) fun _ => ?_
  exact follows_orFail_holding (follows_move_holding (.inr (if_pos rfl)) (.inr ⟨by decide, rfl⟩))

theorem custody_validateAndShard (taskID : String) (task : BatchTask) :
    Holds taskID (.placed taskID .validating) (validateAndShard γ taskID task).run := by
  refine follows_orFail_of (Quiet.placed (quiet_readLines _)) (by rintro _ _ rfl; exact .inr ⟨_, rfl⟩) ?_
  rintro g inputFileLines rfl
  refine bindE_of (custody_validateInputFile γ taskID inputFileLines) (fun _ _ h => h) ?_
  intro g _ hx
  obtain rfl : g = .placed taskID .validating := hx
  refine liftE (mono ?_ (Quiet.placed (quiet_shardLinesFrom _ _ _ _ _ _)))
  rintro g y rfl
  rcases y with (e | _ | _) | ⟨lineCount, shards⟩
  · exact .inr ⟨_, rfl⟩
  · exact .inr ⟨_, rfl⟩
  · exact .inr ⟨_, rfl⟩
  · exact custody_finishValidating _ _ _

/-- A fresh task is moved; a recovered one has been read to be validating already. -/
theorem custody_enterValidating (hg : g.Holding taskID)
    (hr : status = .validating → g = .placed taskID .validating) :
    Follows custody (fun g' x => if x.isOk then g' = .placed taskID .validating else g'.Holding taskID) g
      (enterValidating taskID status).run := by
  unfold enterValidating
  split
  · refine follows_orFail_last (mono ?_ (follows_move (.inl hg) (.inr ⟨by decide, rfl⟩)))
    rintro g' x rfl
    cases x with
    | ok => exact rfl
    | error => exact .inl rfl
  · rename_i hv
    obtain rfl := hr (not_not.1 hv)
    refine mono ?_ (Quiet.placed (uses_annotate (quiet_cleanupTaskShardMeta taskID)))
    rintro g' x rfl
    cases x with
    | ok => exact rfl
    | error => exact .inr ⟨_, rfl⟩

theorem custody_processValidatingTask (taskID : String) : Holds taskID (.locked taskID)
      (processValidatingTask γ taskID).run := by
  refine follows_orFail ⟨trivial, fun x => ?_⟩
  cases x with
  | error => exact .inl rfl
  | ok task =>
  have hg : ((Phase.locked taskID).reads taskID task.status).Holding taskID :=
    Phase.Holding.reads (.inl rfl) _ _
  refine bindE_of (custody_enterValidating hg fun h => if_pos ⟨rfl, h⟩) (fun _ _ h => h) ?_
  intro g _ hy
  obtain rfl : g = .placed taskID .validating := hy
  exact custody_validateAndShard γ taskID task

theorem custody_validateLocked (taskID : String) :
    Leaves (.locked taskID) (validateLocked γ instanceID taskID) :=
  bind (follows_logged (mono (fun _ _ hg => follows_release instanceID hg)
    (custody_processValidatingTask γ taskID)))

/-- The search for a task to recover ends with its lock, or without any. -/
theorem custody_recoverStaleTask (taskIDs : List String) (hg : g.Free) :
    Follows custody (fun g' x => match x with
      | some taskID => g' = .locked taskID
      | none => g'.Free) g (recoverStaleTask instanceID taskIDs) := by
  induction taskIDs generalizing g with
  | nil => exact hg
  | cons taskID taskIDs ih =>
  refine bind_of (Quiet.free hg (quiet_call rfl)) fun g x hg => ?_
  cases x with
  | error => exact ih hg
  | ok =>
  refine bind_of (Quiet.free hg quiet_timeNow) fun g now hg => ?_
  split
  · refine issue ⟨hg, by decide⟩ fun y => ?_
    rcases y with e | _ | _
    · exact ih hg
    · exact ih hg
    · exact rfl
  · exact ih hg

theorem custody_processSingleValidatingTask : Leaves .outside (processSingleValidatingTask γ instanceID) := by
  refine bind_of (Quiet.free (.inl rfl) (quiet_call rfl)) fun g x hg => ?_
  cases x with
  | ok taskID =>
    refine issue ⟨hg, by decide⟩ fun y => ?_
    rcases y with e | _ | _
    · exact hg.final
    · exact hg.final
    · exact custody_validateLocked γ instanceID taskID
  | error e =>
  refine bind_of (M := fun g' x => match x with
    | some taskID => g' = .locked taskID
    | none => g'.Free) ?_ fun g y hy => ?_
  · refine bind_of (Quiet.free hg (quiet_call rfl)) fun g z hg => ?_
    cases z with
    | error => exact hg
    | ok taskIDs => exact custody_recoverStaleTask instanceID taskIDs hg
  · cases y with
    | none => exact Phase.Free.final hy
    | some taskID =>
      obtain rfl : g = .locked taskID := hy
      exact custody_validateLocked γ instanceID taskID

/-! ### The in-progress reactor -/

theorem custody_checkShardsAndMoveToFinalizing (taskID : String) (hg : g.Free) : Leaves g
      (checkShardsAndMoveToFinalizing instanceID taskID) := by
  refine bind_of (Quiet.free hg (quiet_call rfl)) fun g x hg => ?_
  rcases x with e | _ | _
  · exact hg.final
  · exact hg.final
  · refine issue ⟨hg, by decide⟩ fun y => ?_
    rcases y with e | _ | _
    · exact hg.final
    · exact hg.final
    · refine bind_of (follows_move_holding (.inl (.inl rfl)) (.inr ⟨by decide, rfl⟩)) fun g moved hg => ?_
      exact bind_of (follows_release instanceID hg) fun _ _ h => h

theorem custody_processSingleInProgressTask (worker : Worker) :
    Leaves .outside (processSingleInProgressTask γ worker) := by
  refine bind_of (Quiet.free (.inl rfl) (quiet_call rfl)) fun g x hg => ?_
  cases x with
  | error => exact hg.final
  | ok taskID =>
  refine bind_of (Quiet.free hg (quiet_call rfl)) fun g y hg => ?_
  rcases y with e | _ | _
  · exact hg.final
  · refine bind_of (Quiet.free hg (quiet_processTaskShards γ worker taskID)) fun g z hg => ?_
    cases z with
    | error => exact hg.final
    | ok => exact follows_logged (custody_checkShardsAndMoveToFinalizing worker.1 taskID hg)
  · exact hg.final

/-! ### The finalizing reactor -/

section

variable {α β : Type} {taskID message : String} {status : BatchTaskStatus}

theorem follows_quiet_placed {x : Attempt α} {f : α → Attempt β} (hx : Quiet x.run)
    (hf : ∀ a, Holds taskID (.placed taskID status) (f a).run) :
    Holds taskID (.placed taskID status) (x >>= f).run := by
  refine bindE (mono ?_ (Quiet.placed hx))
  rintro g r rfl
  cases r with
  | ok a => exact hf a
  | error => exact .inr ⟨status, rfl⟩

theorem follows_quiet_lift {x : GatewayM α} {f : α → Attempt β} (hx : Quiet x)
    (hf : ∀ a, Holds taskID (.placed taskID status) (f a).run) :
    Holds taskID (.placed taskID status) ((ExceptT.lift x : Attempt α) >>= f).run := by
  refine liftE (mono ?_ (Quiet.placed hx))
  rintro g a rfl
  exact hf a

end

/-- The hash is marked as completed first, and the task is moved then. -/
theorem custody_completeTask (taskID : String) (task : BatchTask) (outputFileID errorFileID : String)
    (outputPosition errorPosition : Nat) (counts : RequestCounts) :
    Holds taskID (.placed taskID .finalize)
      (completeTask taskID task outputFileID errorFileID outputPosition errorPosition counts).run := by
  refine follows_quiet_lift quiet_timeNow fun now => ?_
  refine follows_quiet_placed (uses_orFail (quiet_createFile _)) fun _ => ?_
  refine follows_quiet_placed (quiet_createErrorFile _ _ _ _) fun _ => ?_
  refine follows_orFail ⟨.inr ⟨rfl, rfl⟩, fun x => ?_⟩
  cases x with
  | error => exact .inl (if_neg (fun h => by cases h))
  | ok =>
    have hm : ∀ task', (Phase.placed taskID .finalize).afterRemote
        (.updateTaskFields taskID task') (.ok ()) = .marked taskID .finalize .completed :=
      fun _ => if_neg (fun h => by cases h)
    exact ⟨⟨hm _, rfl, rfl⟩, fun _ => .inl rfl⟩

theorem custody_collectResults (taskID : String) : Holds taskID (.placed taskID .finalize)
      (collectResults taskID).run := by
  refine follows_quiet_placed (uses_orFail (quiet_call rfl)) fun task => ?_
  refine follows_quiet_placed (uses_orFail (quiet_call rfl)) fun shardIDs => ?_
  refine follows_quiet_placed (uses_orFail (quiet_call rfl)) fun keys => ?_
  refine follows_quiet_lift quiet_newUUID fun outputUUID => ?_
  refine follows_quiet_lift quiet_newUUID fun errorUUID => ?_
  refine follows_quiet_placed (quiet_deleteFinalFiles _ _) fun _ => ?_
  refine follows_quiet_placed (quiet_appendShards _ _ _ _ _ _ _ _) fun r => ?_
  exact custody_completeTask _ _ _ _ _ _ _

theorem custody_processFinalizingTask (taskID : String) : Holds taskID (.locked taskID)
      (processFinalizingTask taskID).run := by
  refine follows_orFail_of (follows_move (.inl (.inl rfl)) (.inr ⟨by decide, rfl⟩))
    (by rintro _ _ rfl; exact .inl rfl) ?_
  rintro g _ rfl
  exact custody_collectResults taskID

theorem custody_finalizeLocked (taskID : String) :
    Leaves (.locked taskID) (finalizeLocked instanceID taskID) := by
  refine bind_of (custody_processFinalizingTask taskID) fun g x hg => ?_
  have hc : Leaves g (do
      logged (cleanupTaskShardMeta taskID).run
      logged (call (.releaseTaskLock taskID instanceID))) :=
    bind_of (Quiet.holding hg (uses_logged (quiet_cleanupTaskShardMeta taskID)))
      fun _ _ hg => follows_release instanceID hg
  rcases x with (e | _ | _) | _
  · exact hc
  · exact hc
  · exact follows_release instanceID hg
  · exact hc

theorem custody_processSingleFinalizingTask : Leaves .outside (processSingleFinalizingTask instanceID) := by
  refine bind_of (Quiet.free (.inl rfl) (quiet_call rfl)) fun g x hg => ?_
  cases x with
  | error => exact hg.final
  | ok taskID =>
    refine issue ⟨hg, by decide⟩ fun y => ?_
    rcases y with e | _ | _
    · exact hg.final
    · exact hg.final
    · exact custody_finalizeLocked instanceID taskID

/-! ### The cancelling reactor -/

theorem custody_keepAlive (taskID : String) (g : Phase) :
    Follows custody (fun g' _ => g' = g) g (keepAlive instanceID taskID) := by
  refine issue trivial fun ticks => ?_
  induction ticks with
  | zero => exact rfl
  | succ n ih =>
    have he : 0 < defaultLockExpiration := by decide
    exact issue he fun _ => ih

theorem custody_cancelTask (taskID : String) : ∀ {g : Phase}, g.Holding taskID →
      Holds taskID g (cancelTask taskID).run := by
  intro g hg
  refine bindE_of (Quiet.holding hg (uses_annotate (quiet_handleShardCancellation taskID)))
    (fun _ _ h => h) ?_
  intro g _ hg
  refine bindE_of (Quiet.holding hg (uses_annotate (quiet_cleanupTaskShardMeta taskID)))
    (fun _ _ h => h) ?_
  intro g _ hg
  exact follows_orFail_holding (follows_move_holding (.inl hg) (.inr ⟨by decide, rfl⟩))

theorem custody_processSingleCancellingTask : Leaves .outside (processSingleCancellingTask instanceID) := by
  refine bind_of (Quiet.free (.inl rfl) (quiet_call rfl)) fun g x hg => ?_
  cases x with
  | error => exact hg.final
  | ok taskID =>
  refine issue ⟨hg, by decide⟩ fun y => ?_
  rcases y with e | _ | _
  · exact hg.final
  · exact hg.final
  refine bind_of (M := fun g' _ => g'.Holding taskID) ?_ fun _ _ hg => follows_release instanceID hg
  refine bind_of (Quiet.holding (.inl rfl) (quiet_call rfl)) fun g x hg => ?_
  cases x with
  | error => exact hg
  | ok =>
  refine bind_of (Quiet.holding hg (quiet_call rfl)) fun g x hg => ?_
  cases x with
  | error => exact hg
  | ok =>
    dsimp only
    split
    · exact hg
    · exact follows_logged (alongside (custody_keepAlive instanceID taskID) (custody_cancelTask taskID hg))

/-! ### The expiring reactor -/

theorem custody_processExpiredTask (taskID : String) (hg : g.Free) :
    Follows custody (fun g' _ => g'.Free) g (processExpiredTask instanceID taskID) := by
  refine issue ⟨hg, by decide⟩ fun y => ?_
  rcases y with e | _ | _
  · exact hg
  · exact hg
  · refine bind_of (M := fun g' _ => g'.Holding taskID) ?_ fun g result hg =>
      issue hg fun _ => .inl rfl
    refine follows_orFail_of (Quiet.holding (.inl rfl) (quiet_call rfl)) (fun _ _ h => h) ?_
    intro g _ hg
    exact follows_orFail_holding (follows_move_holding (.inl hg) (.inl rfl))

theorem custody_expireAll (taskIDs : List String) (hg : g.Free) :
    Follows custody (fun g' _ => g'.Free) g (expireAll instanceID taskIDs) := by
  induction taskIDs generalizing g with
  | nil => exact hg
  | cons taskID taskIDs ih =>
    exact bind_of (follows_logged (custody_processExpiredTask instanceID taskID hg)) fun _ _ hg => ih hg

theorem custody_processExpiredTasks : Leaves .outside (processExpiredTasks instanceID) := by
  refine bind_of (Quiet.free (.inl rfl) (quiet_getExpiredTasks _)) fun g x hg => ?_
  cases x with
  | error => exact hg.final
  | ok taskIDs => exact mono (fun _ _ hg => hg.final) (custody_expireAll instanceID taskIDs hg)

/-! ### All goroutines -/

theorem program_follows (i : Proc) (j : Input) :
    (program γ i j).Follows custody (fun g _ => custody.final g) custody.start := by
  cases i with
  | validator instanceID => exact custody_processSingleValidatingTask γ instanceID
  | worker instanceID workerID => exact custody_processSingleInProgressTask γ (instanceID, workerID)
  | finalizer instanceID => exact custody_processSingleFinalizingTask instanceID
  | canceller instanceID => exact custody_processSingleCancellingTask instanceID
  | expirer instanceID => exact custody_processExpiredTasks instanceID
  | handler instanceID =>
    cases j with
    | turn => exact Phase.Free.final (.inl rfl)
    | create request => exact custody_handleCreateBatchTask request
    | cancel taskID => exact custody_cancelBatchTaskHandler instanceID taskID

end Llumnix.Batch
