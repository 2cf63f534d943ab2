/-
**Which parts of the batch programs leave tasks alone.**

The status of a task is written by few commands: its creation, the two updates of its hash, the two move
scripts, and the task lock around them.  This module names them and shows, function by function, which parts
of `Llumnix/BatchReactor.lean` use none, with the rules for the error idioms of the source.
-/

import Llumnix.BatchLines

namespace Llumnix.Batch

open Interaction Interaction.Prog Uses Follows

/-! ### Error idioms -/

variable (γ : Gateway) (worker : Worker) (taskID shardID : String) (keys : List ObjectKey)

section

variable {G α β ε : Type} {P : Protocol Cmd Cmd.Resp G} {g : G}
variable {message : String} {x : GatewayM (Except String α)}

theorem follows_orFail {Q : G → Except Failure β → Prop} {f : α → Attempt β}
    (h : Follows P (fun g' r => match r with
      | .ok a => Follows P Q g' (f a).run
      | .error e => Q g' (.error (.err (message ++ e)))) g x) :
    Follows P Q g (orFail message x >>= f).run := by
  refine bindE (bind (mono ?_ h))
  intro g' r hr
  cases r with
  | ok | error => exact hr

theorem follows_orFail_of {M : G → Except String α → Prop} {Q : G → Except Failure β → Prop}
    {f : α → Attempt β} (hx : Follows P M g x)
    (he : ∀ g' e, M g' (.error e) → Q g' (.error (.err (message ++ e))))
    (hf : ∀ g' a, M g' (.ok a) → Follows P Q g' (f a).run) : Follows P Q g (orFail message x >>= f).run := by
  refine follows_orFail (hx.mono fun g' r hr => ?_)
  cases r with
  | error e => exact he g' e hr
  | ok a => exact hf g' a hr

theorem follows_try {r : Remote} {Q : G → Except Failure β → Prop} {f : r.Val → Attempt β}
    (ha : P.allowed g (.remote r))
    (he : ∀ e, Q (P.advance g (.remote r) (.error e)) (.error (.err (message ++ e))))
    (hf : ∀ a, Follows P Q (P.advance g (.remote r) (.ok a)) (f a).run) :
    Follows P Q g (orFail message (call r) >>= f).run := by
  refine follows_orFail ⟨ha, fun x => ?_⟩
  cases x with
  | error e => exact he e
  | ok a => exact hf a

theorem follows_orFail_last {Q : G → Except Failure α → Prop} (h : Follows P (fun g' r => match r with
      | .ok a => Q g' (.ok a)
      | .error e => Q g' (.error (.err (message ++ e)))) g x) : Follows P Q g (orFail message x).run := by
  refine bind (mono ?_ h)
  intro g' r hr
  cases r with
  | ok | error => exact hr

theorem follows_logged {Q : G → Unit → Prop} {x : GatewayM (Except ε α)}
    (h : Follows P (fun g' _ => Q g' ()) g x) : Follows P Q g (logged x) :=
  bind h

theorem follows_deleteFilesFrom (fuel : Nat) (keys : List ObjectKey)
    (ha : ∀ keys' ⊆ keys, P.allowed g (.remote (.deleteObjects keys')))
    (hs : ∀ keys' x, P.advance g (.remote (.deleteObjects keys')) x = g) :
    Follows P (fun g' _ => g' = g) g (deleteFilesFrom fuel keys) := by
  induction fuel generalizing keys with
  | zero => exact rfl
  | succ fuel ih =>
  rw [deleteFilesFrom]
  split
  · exact rfl
  · refine issue (ha _ (List.take_subset _ _)) fun x => ?_
    rw [hs]
    cases x with
    | error => exact rfl
    | ok =>
      exact ih _ fun keys' hk => ha _ (List.Subset.trans hk (List.drop_subset _ _))

variable {N : Cmd → Prop}

theorem uses_orFail (h : Uses N x) : Uses N (orFail message x).run :=
  follows_orFail_last (mono (fun _ r _ => by cases r <;> trivial) h)

theorem uses_annotate {x : Attempt α} (h : Uses N x.run) : Uses N (annotate message x).run := by
  refine bind (mono (fun _ r _ => ?_) h)
  rcases r with (_ | _ | _) | _ <;> trivial

theorem uses_logged {x : GatewayM (Except ε α)} (h : Uses N x) : Uses N (logged x) := follows_logged h

end

/-! ### Commands that concern tasks -/

/-- Commands that write the hash of a task, a status set, or a task lock. -/
def Remote.taskLevel : Remote → Bool
  | .hsetTask _ | .saddPending _ | .updateTaskFailure .. | .updateTaskFields ..
  | .moveTaskAndUpdateStatus .. | .moveTask .. | .acquireTaskLock .. | .releaseTaskLock ..
  | .extendTaskLock .. => true
  | _ => false

/-- The same among all commands, with the answers to clients. -/
def Cmd.taskLevel : Cmd → Bool
  | .remote r => r.taskLevel
  | .reply _ => true
  | .newUUID | .timeNow | .httpDo _ | .tickerFired => false

/-- **A program that leaves tasks alone.** -/
def Quiet {α : Type} (p : GatewayM α) : Prop := Uses (fun c => c.taskLevel = false) p

theorem quiet_call {r : Remote} (h : r.taskLevel = false) : Quiet (call r) := uses_issue h

theorem quiet_timeNow : Quiet timeNow := uses_issue rfl

theorem quiet_newUUID : Quiet newUUID := uses_issue rfl

/-! ### The quiet parts -/

theorem quiet_readLines (key : ObjectKey) : Quiet (readLines key) := by
  refine bind (quiet_call rfl) fun x => ?_
  rcases x with e | _ | content <;> exact uses_ret _

theorem quiet_writeLines (key : ObjectKey) (lines : List Bytes) : Quiet (writeLines key lines) := by
  refine bind (quiet_call rfl) fun x => ?_
  rcases x with e | _ <;> exact uses_ret _

theorem quiet_deleteFiles : Quiet (deleteFiles keys) :=
  mono (fun _ _ _ => trivial) (follows_deleteFilesFrom _ _ (fun _ _ => rfl) fun _ _ => rfl)

theorem quiet_appendToObject (source destination : ObjectKey) (position : Nat) :
    Quiet (appendToObject source destination position) := by
  refine bind (quiet_call rfl) fun x => ?_
  rcases x with e | _ | body
  · exact uses_ret _
  · exact uses_ret _
  · refine bind (quiet_call rfl) fun y => ?_
    rcases y with e | next <;> exact uses_ret _

theorem quiet_createFile (file : File) : Quiet (createFile file) := by
  refine bind (quiet_call rfl) fun x => ?_
  cases x with
  | error => exact uses_ret _
  | ok => exact quiet_call rfl

theorem quiet_removeShardInfo (status : ShardStatus) : Quiet (removeShardInfo taskID status) := by
  refine bind (quiet_call rfl) fun x => ?_
  cases x with
  | error => exact uses_ret _
  | ok => exact quiet_call rfl

theorem quiet_selectExpired (now : Int) (taskIDs : List String) : Quiet (selectExpired now taskIDs) := by
  induction taskIDs with
  | nil => exact uses_ret _
  | cons taskID taskIDs ih =>
    refine bind (quiet_call rfl) fun x => ?_
    cases x with
    | error => exact ih
    | ok => exact bind ih fun _ => uses_ret _

theorem quiet_getExpiredTasksIn (now : Int) (statuses : List BatchTaskStatus) :
    Quiet (getExpiredTasksIn now statuses) := by
  induction statuses with
  | nil => exact uses_ret _
  | cons status statuses ih =>
  refine bind (quiet_call rfl) fun x => ?_
  cases x with
  | error => exact uses_ret _
  | ok taskIDs =>
    refine bind (quiet_selectExpired now taskIDs) fun expired => ?_
    refine bind ih fun y => ?_
    cases y <;> exact uses_ret _

theorem quiet_getExpiredTasks (statuses : List BatchTaskStatus) : Quiet (getExpiredTasks statuses) :=
  bind quiet_timeNow fun now => quiet_getExpiredTasksIn now statuses

theorem quiet_cleanupShardOSSFiles : Quiet (cleanupShardOSSFiles taskID).run := by
  refine bindE (uses_orFail (quiet_call rfl)) fun inputObjects => ?_
  refine bindE (uses_orFail (quiet_call rfl)) fun outputObjects => ?_
  exact uses_orFail (quiet_deleteFiles _)

theorem quiet_cleanupShardSets (statuses : List ShardStatus) :
    Quiet (cleanupShardSets taskID statuses).run := by
  induction statuses with
  | nil => exact uses_ret _
  | cons status statuses ih =>
    exact bindE (uses_orFail (quiet_removeShardInfo taskID status)) fun _ => ih

theorem quiet_cleanupTaskShardMeta : Quiet (cleanupTaskShardMeta taskID).run :=
  bindE (quiet_cleanupShardOSSFiles taskID) fun _ => quiet_cleanupShardSets taskID _

theorem quiet_createFileShard (lines : List Bytes) : Quiet (createFileShard taskID shardID lines).run := by
  refine bindE (uses_orFail (quiet_writeLines _ lines)) fun _ => ?_
  refine liftE quiet_timeNow fun now => ?_
  refine bindE (uses_orFail (quiet_call rfl)) fun _ => ?_
  exact uses_orFail (quiet_call rfl)

theorem quiet_shardLinesFrom (lines : List Bytes) (shardIndex lineCount : Nat) (current : List Bytes) :
    Quiet (shardLinesFrom γ taskID shardIndex lineCount current lines).run := by
  induction lines generalizing shardIndex lineCount current with
  | nil =>
    rw [shardLinesFrom]
    split
    · exact uses_ret _
    · exact bindE (quiet_createFileShard _ _ _) fun _ => uses_ret _
  | cons line lines ih =>
  simp only [shardLinesFrom, taskStatusChanged, Bool.false_eq_true, if_false]
  split
  · exact ih _ _ _
  · split
    · exact bindE (quiet_createFileShard _ _ _) fun _ => ih _ _ _
    · exact ih _ _ _

theorem quiet_processLines (task : BatchTask) (taskID : String) (lines : List Bytes) :
    Quiet (processLines γ task taskID [] [] lines).run :=
  mono (fun _ _ _ => trivial) (follows_processLines ⟨rfl, fun _ => rfl⟩
    (fun _ => ⟨rfl, fun _ => rfl⟩) lines answers_nil)

theorem quiet_writeIfAny (message : String) (key : ObjectKey) (lines : List Bytes) :
    Quiet (writeIfAny message key lines).run := by
  unfold writeIfAny
  split
  · exact uses_ret _
  · exact uses_orFail (quiet_writeLines _ _)

theorem quiet_writeShardResult (outputLines errorLines : List Bytes) :
    Quiet (writeShardResult taskID shardID outputLines errorLines).run := by
  refine bindE (quiet_writeIfAny _ _ _) fun _ => ?_
  refine bindE (quiet_writeIfAny _ _ _) fun _ => ?_
  refine bindE (uses_orFail (quiet_call rfl)) fun shard => ?_
  refine liftE quiet_timeNow fun now => ?_
  exact uses_orFail (quiet_call rfl)

theorem quiet_processShard : Quiet (processShard γ taskID shardID).run := by
  refine bindE (uses_orFail (quiet_call rfl)) fun inProgress => ?_
  split
  · refine bindE (uses_orFail (quiet_call rfl)) fun task => ?_
    refine bindE (uses_orFail (quiet_deleteFiles _)) fun _ => ?_
    refine bindE (uses_orFail (quiet_readLines _)) fun lines => ?_
    exact bindE (quiet_processLines _ _ _ _) fun r => quiet_writeShardResult _ _ _ _
  · exact uses_ret _

theorem quiet_recoverShard (shardIDs : List String) : Quiet (recoverShard worker taskID shardIDs) := by
  induction shardIDs with
  | nil => exact uses_ret _
  | cons shardID shardIDs ih =>
    refine bind (quiet_call rfl) fun x => ?_
    rcases x with e | _ | _
    · exact ih
    · exact ih
    · exact uses_ret _

theorem quiet_processAndComplete : Quiet (processAndComplete γ taskID shardID).run := by
  refine liftE (quiet_processShard γ taskID shardID) fun x => ?_
  rcases x with (e | _ | _) | _
  · exact uses_ret _
  · exact uses_orFail (quiet_call rfl)
  · exact uses_ret _
  · exact uses_orFail (quiet_call rfl)

theorem quiet_processLockedShard : Quiet (processLockedShard γ worker taskID shardID) :=
  bind (quiet_processAndComplete γ taskID shardID) fun _ =>
    bind (uses_logged (quiet_call rfl)) fun _ => uses_ret _

theorem quiet_processTaskShards : Quiet (processTaskShards γ worker taskID) := by
  refine bind (quiet_call rfl) fun x => ?_
  cases x with
  | ok =>
    refine bind (quiet_call rfl) fun y => ?_
    rcases y with e | _ | _
    · exact uses_ret _
    · exact uses_ret _
    · refine bind (quiet_call rfl) fun z => ?_
      cases z with
      | ok => exact quiet_processLockedShard _ _ _ _
      | error => exact bind (uses_logged (quiet_call rfl)) fun _ => uses_ret _
  | error e =>
  refine bind ?_ fun y => ?_
  · refine bind (quiet_call rfl) fun z => ?_
    cases z with
    | error => exact uses_ret _
    | ok => exact bind (quiet_recoverShard _ _ _) fun _ => uses_ret _
  · rcases y with e | _ | shardID
    · exact uses_ret _
    · exact uses_ret _
    · refine bind (quiet_call rfl) fun z => ?_
      rcases z with e | _ | _
      · exact uses_ret _
      · exact uses_ret _
      · exact quiet_processLockedShard _ _ _ _

theorem quiet_appendIfListed (source destination : ObjectKey)
    (position : Nat) : Quiet (appendIfListed keys source destination position).run := by
  unfold appendIfListed
  split
  · exact uses_orFail (quiet_appendToObject _ _ _)
  · exact uses_ret _

theorem quiet_appendShards (output error : ObjectKey)
    (shardIDs : List String) (outputPosition errorPosition : Nat) (counts : RequestCounts) :
    Quiet (appendShards taskID keys output error outputPosition errorPosition counts shardIDs).run := by
  induction shardIDs generalizing outputPosition errorPosition counts with
  | nil => exact uses_ret _
  | cons shardID shardIDs ih =>
  refine bindE (quiet_appendIfListed _ _ _ _) fun outputPosition => ?_
  refine bindE (quiet_appendIfListed _ _ _ _) fun errorPosition => ?_
  refine liftE (quiet_call rfl) fun x => ?_
  rcases x with e | ⟨id, createdAt, _ | c, updatedAt⟩
  · exact uses_ret _
  · exact uses_ret _
  · exact ih _ _ _

theorem quiet_deleteFinalFiles (output error : ObjectKey) : Quiet (deleteFinalFiles output error).run := by
  refine liftE (quiet_deleteFiles _) fun x => ?_
  cases x with
  | ok => exact uses_ret _
  | error =>
    dsimp only
    split
    · exact uses_ret _
    · exact uses_ret _

theorem quiet_createErrorFile (errorFileID : String) (errorPosition : Nat) (now : Int)
    (task : BatchTask) : Quiet (createErrorFile errorFileID errorPosition now task).run := by
  unfold createErrorFile
  split
  · exact uses_orFail (quiet_createFile _)
  · exact uses_ret _

theorem quiet_failPendingShards (shardIDs : List String) : Quiet (failPendingShards taskID shardIDs) := by
  induction shardIDs with
  | nil => exact uses_ret _
  | cons shardID shardIDs ih => exact bind (uses_logged (quiet_call rfl)) fun _ => ih

theorem quiet_handleShardCancellation : Quiet (handleShardCancellation taskID).run := by
  refine bindE (uses_orFail (quiet_call rfl)) fun shardIDs => ?_
  refine liftE (quiet_failPendingShards taskID shardIDs) fun _ => ?_
  refine bindE (uses_orFail (quiet_call rfl)) fun inProgressShardIDs => ?_
  split
  · exact uses_ret _
  · exact uses_ret _

end Llumnix.Batch
