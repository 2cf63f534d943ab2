/-
**The shared store of the batch service: Redis and the object store.**

Gateways coordinate through one Redis and one object store.  This module models both as a `World`, and every
atomic step a gateway takes on them, or on its own clock and network, as a command: the methods of
`redis_store.go` that are one Redis command or one script, the calls of `oss_client.go`, and the few local
steps whose outcome is not the program's to choose.

A remote command can fail in two ways: it was not executed, or it was executed and the answer got lost.
Whatever Redis and the object store are free to choose is part of the choice that comes with the step.
-/

import Llumnix.BatchTypes
import Llumnix.FiniteMap

namespace Llumnix.Batch

open FiniteMap Function

/-! ### The world -/

/-- A lock: who holds it, and until when (milliseconds on the clock of Redis). -/
structure Lock (O : Type) where
  owner : O
  deadline : Nat
  deriving DecidableEq

/-- `DefaultLockExpiration`, in milliseconds. -/
def defaultLockExpiration : Nat := 300000

variable {O : Type} (now : Nat)

/-- The lock as Redis shows it: a key past its deadline is gone. -/
def live (lock : Option (Lock O)) : Option (Lock O) :=
  lock.filter fun l => decide (now < l.deadline)

/-- The answer of `TTL`: the time left, rounded to seconds. -/
def ttlSeconds (lock : Lock O) : Nat := (lock.deadline - now + 500) / 1000

/-- The value of a shard lock, `instanceID:workerID`.  Worker ids are numerals, so the text determines
the pair. -/
abbrev Worker := String × Nat

/-- What a handler writes to its client. -/
inductive Reply
  | error (text : String) (code : Nat)
  | created (task : BatchTask)
  /-- The task as it is after a cancel request. -/
  | shown (task : BatchTask)
  deriving DecidableEq

/-- **Everything the gateways share**, and what their clients have been told. -/
structure World where
  /-- The clock of Redis, in milliseconds. -/
  now : Nat
  /-- `task:<id>`. -/
  tasks : String → Option BatchTask
  /-- `tasks:<status>`. -/
  taskSets : BatchTaskStatus → Finset String
  /-- `tasks:all`. -/
  globalTasks : Finset String
  /-- `file:<id>`. -/
  files : String → Option File
  /-- `files:all`. -/
  fileSet : Finset String
  /-- `task:lock:<id>`. -/
  taskLocks : String → Option (Lock String)
  /-- `shard:lock:<task>:<shard>`. -/
  shardLocks : String → String → Option (Lock Worker)
  /-- `task:<id>:files:<status>`. -/
  shardSets : String → ShardStatus → Finset String
  /-- `shard:<task>:<shard>`. -/
  shards : String → String → Option FileShard
  objects : Finmap fun _ : ObjectKey => Bytes
  usedIDs : Finset String
  replies : List Reply

def World.empty : World where
  now := 0
  tasks _ := none
  taskSets _ := ∅
  globalTasks := ∅
  files _ := none
  fileSet := ∅
  taskLocks _ := none
  shardLocks _ _ := none
  shardSets _ _ := ∅
  shards _ _ := none
  objects := ∅
  usedIDs := ∅
  replies := []

variable (w : World) (taskID : String)

def World.setShardSets (sets : ShardStatus → Finset String) : World :=
  { w with shardSets := update w.shardSets taskID sets }

def World.setShardLock (shardID : String) (lock : Option (Lock Worker)) : World :=
  { w with
    shardLocks := update w.shardLocks taskID
      (update (w.shardLocks taskID) shardID lock) }

def World.setTaskLock (lock : Option (Lock String)) : World :=
  { w with taskLocks := update w.taskLocks taskID lock }

/-- The lock of a task, as Redis shows it. -/
def World.taskLock : Option (Lock String) :=
  live w.now (w.taskLocks taskID)

/-- The lock of a shard, as Redis shows it. -/
def World.shardLock (shardID : String) : Option (Lock Worker) :=
  live w.now (w.shardLocks taskID shardID)

/-! ### Scripts -/

section

variable {T : Type} [DecidableEq T]

/-- What the move scripts share: add to the destination, remove from the source, undo the addition if nothing
was removed. The flag says whether the id was in the source. -/
def moveScript (sets : T → Finset String) (id : String) (fromSet toSet : T) :
    (T → Finset String) × Bool :=
  let added := decide (id ∉ sets toSet)
  let sets := update sets toSet (insert id (sets toSet))
  let removed := decide (id ∈ sets fromSet)
  let sets := update sets fromSet ((sets fromSet).erase id)
  if removed then (sets, true)
  else (if added then update sets toSet ((sets toSet).erase id) else sets, false)

variable {sets : T → Finset String} {id : String} {fromSet toSet : T}
variable {st : T} {j : String}

/-- Moving a member: it ends up in the destination and nowhere else new. -/
theorem moveScript_of_mem (hne : fromSet ≠ toSet) (h : id ∈ sets fromSet) : moveScript sets id fromSet toSet
      = (update (update sets toSet (insert id (sets toSet))) fromSet ((sets fromSet).erase id), true) := by
  simp [moveScript, update_of_ne hne, h]

theorem moveScript_of_notMem (hne : fromSet ≠ toSet) (h : id ∉ sets fromSet) :
    moveScript sets id fromSet toSet = (sets, false) := by
  have he : (sets fromSet).erase id = sets fromSet := Finset.erase_eq_of_notMem h
  simp only [moveScript, update_of_ne hne, h, decide_false, Bool.false_eq_true, if_false,
    he, Prod.mk.injEq, and_true]
  funext st
  by_cases hto : st = toSet
  · subst hto
    by_cases hm : id ∈ sets st <;> simp [hm, update_of_ne hne.symm]
  · by_cases hf : st = fromSet <;> by_cases hm : id ∈ sets toSet <;> simp [hm, hf, update_of_ne hto, hne]

theorem moveScript_snd (hne : fromSet ≠ toSet) :
    (moveScript sets id fromSet toSet).2 = decide (id ∈ sets fromSet) := by
  by_cases h : id ∈ sets fromSet
  · simp [moveScript_of_mem hne h, h]
  · simp [moveScript_of_notMem hne h, h]

/-- **The sets after a move** between different sets. -/
theorem mem_moveScript (hne : fromSet ≠ toSet) : j ∈ (moveScript sets id fromSet toSet).1 st ↔
      if j = id ∧ id ∈ sets fromSet then st = toSet ∨ st ≠ fromSet ∧ id ∈ sets st else j ∈ sets st := by
  by_cases h : id ∈ sets fromSet
  · rw [moveScript_of_mem hne h]
    by_cases hf : st = fromSet
    · subst hf
      by_cases hj : j = id <;> simp [hj, h, hne]
    by_cases hto : st = toSet
    · subst hto
      by_cases hj : j = id <;> simp [hj, h, hf]
    · by_cases hj : j = id <;> simp [hj, h, hf, hto]
  · rw [moveScript_of_notMem hne h]
    simp [h]

theorem mem_update_insert (hj : j ≠ id) :
    j ∈ update sets toSet (insert id (sets toSet)) st ↔ j ∈ sets st := by
  rw [update_apply]
  split
  · rename_i hst
    rw [Finset.mem_insert, hst]
    exact or_iff_right hj
  · exact Iff.rfl

theorem mem_update_erase (hj : j ≠ id) :
    j ∈ update sets fromSet ((sets fromSet).erase id) st ↔ j ∈ sets st := by
  rw [update_apply]
  split
  · rename_i hst
    rw [Finset.mem_erase, hst]
    exact and_iff_right hj
  · exact Iff.rfl

theorem mem_moveScript_of_ne (hj : j ≠ id) : j ∈ (moveScript sets id fromSet toSet).1 st ↔ j ∈ sets st := by
  simp only [moveScript]
  split
  · rw [mem_update_erase hj, mem_update_insert hj]
  · split
    · rw [mem_update_erase hj, mem_update_erase hj, mem_update_insert hj]
    · rw [mem_update_erase hj, mem_update_insert hj]

theorem mem_of_mem_moveScript (hne : fromSet ≠ toSet) (hst : st ≠ toSet)
    (h : j ∈ (moveScript sets id fromSet toSet).1 st) : j ∈ sets st := by
  rw [mem_moveScript hne] at h
  split at h
  · rename_i hm
    rcases h with h | h
    · exact absurd h hst
    · exact hm.1 ▸ h.2
  · exact h

theorem exists_mem_moveScript (hne : fromSet ≠ toSet) (j : String) :
    (∃ st, j ∈ (moveScript sets id fromSet toSet).1 st) ↔ ∃ st, j ∈ sets st := by
  simp only [mem_moveScript hne]
  split
  · rename_i hm
    obtain ⟨rfl, hme⟩ := hm
    exact ⟨fun _ => ⟨fromSet, hme⟩, fun _ => ⟨toSet, .inl rfl⟩⟩
  · exact Iff.rfl

theorem unique_moveScript (hne : fromSet ≠ toSet)
    (h : ∀ j st st', j ∈ sets st → j ∈ sets st' → st = st') (j : String) (st st' : T)
    (hst : j ∈ (moveScript sets id fromSet toSet).1 st)
    (hst' : j ∈ (moveScript sets id fromSet toSet).1 st') : st = st' := by
  rw [mem_moveScript hne] at hst hst'
  split at hst
  · rename_i hm
    obtain ⟨rfl, hme⟩ := hm
    rw [if_pos ⟨rfl, hme⟩] at hst'
    -- the id was in the source only, so it is in the destination only
    have ho : ∀ s, s = toSet ∨ s ≠ fromSet ∧ j ∈ sets s → s = toSet := by
      rintro s (rfl | ⟨hf, hs⟩)
      · rfl
      · exact absurd (h _ _ _ hs hme) hf
    rw [ho st hst, ho st' hst']
  · rename_i hm
    rw [if_neg hm] at hst'
    exact h _ _ _ hst hst'

end

/-- The fields that `MoveTaskAndUpdateStatusAtomically` writes. -/
def stampStatus (task : BatchTask) (toSet : BatchTaskStatus) (now : Int) : BatchTask :=
  let task := { task with status := toSet, updatedAt := some now }
  match toSet with
  | .inProgress => { task with inProgressAt := task.inProgressAt.or (some now) }
  | .finalizing => { task with finalizingAt := some now }
  | .completed => { task with completedAt := some now }
  | .failed => { task with failedAt := some now }
  | .expired => { task with expiredAt := some now }
  | .cancelling => { task with cancellingAt := some now }
  | .cancelled => { task with cancelledAt := some now }
  | .validating | .finalize | .pending => task

/-- The fields that `UpdateTaskFailure` writes. -/
def stampFailure (task : BatchTask) (batchErr : BatchErrors) (now : Int) : BatchTask :=
  { task with
    status := .failed
    errors := some batchErr
    failedAt := some now
    updatedAt := some now }

/-- The fields that `UpdateTaskFields` writes: those present in the given object, and its status whatever it
is. -/
def mergeFields (stored task : BatchTask) : BatchTask :=
  { stored with
    updatedAt := task.updatedAt
    requestCounts := task.requestCounts.or stored.requestCounts
    outputFileID := task.outputFileID.or stored.outputFileID
    errorFileID := task.errorFileID.or stored.errorFileID
    outputExpiresAfter := task.outputExpiresAfter.or stored.outputExpiresAfter
    status := task.status
    inProgressAt := task.inProgressAt.or stored.inProgressAt
    finalizingAt := task.finalizingAt.or stored.finalizingAt
    completedAt := task.completedAt.or stored.completedAt
    failedAt := task.failedAt.or stored.failedAt
    expiredAt := task.expiredAt.or stored.expiredAt
    cancellingAt := task.cancellingAt.or stored.cancellingAt
    cancelledAt := task.cancelledAt.or stored.cancelledAt }

/-! ### Remote commands -/

/-- The commands to Redis and to the object store, each of them atomic. -/
inductive Remote
  /-- `HSET file:<id>`, the first half of `CreateFile`. -/
  | hsetFile (file : File)
  | addFileToSet (fileID : String)
  | getFile (fileID : String)
  /-- `HSET task:<id>`, the first step of `CreateTask`. -/
  | hsetTask (task : BatchTask)
  | addTaskToGlobalSet (taskID : String)
  /-- `SADD tasks:pending`, the last step of `CreateTask`. -/
  | saddPending (taskID : String)
  | getTask (taskID : String)
  | getTaskStatus (taskID : String)
  | getTaskExpiresAt (taskID : String)
  | updateTaskFailure (taskID : String) (batchErr : BatchErrors) (now : Int)
  | updateTaskFields (taskID : String) (task : BatchTask)
  /-- `MoveTaskAndUpdateStatusAtomically`. -/
  | moveTaskAndUpdateStatus (taskID : String) (fromSet toSet : BatchTaskStatus) (now : Int)
  /-- `MoveTaskAtomically`. -/
  | moveTask (taskID : String) (fromSet toSet : BatchTaskStatus)
  | getTasksInStatus (status : BatchTaskStatus)
  | getTaskInStatus (status : BatchTaskStatus)
  | taskInSet (status : BatchTaskStatus) (taskID : String)
  | createOrUpdateFileShard (taskID shardID : String) (shard : FileShard)
  | getFileShard (taskID shardID : String)
  | addShardToPendingList (taskID shardID : String)
  /-- `MoveShardAtomically`. -/
  | moveShard (taskID shardID : String) (fromStatus toStatus : ShardStatus)
  | getShardsInStatus (taskID : String) (status : ShardStatus)
  | getShardInStatus (taskID : String) (status : ShardStatus)
  | checkIfAllShardsAreCompleted (taskID : String)
  /-- `DEL` of a shard set and of the hashes of the given shards, the last step of `RemoveShardInfo`. -/
  | delShardInfo (taskID : String) (shardIDs : List String) (status : ShardStatus)
  | acquireTaskLock (taskID instanceID : String) (expiration : Nat)
  | releaseTaskLock (taskID instanceID : String)
  | extendTaskLock (taskID instanceID : String) (expiration : Nat)
  | acquireShardLock (taskID shardID : String) (worker : Worker) (expiration : Nat)
  | acquireOrRecoverShardLock (taskID shardID : String) (worker : Worker) (expiration : Nat)
  | releaseShardLock (taskID shardID : String) (worker : Worker)
  /-- `GetObject`; an object that does not exist answers with nothing. -/
  | getObject (key : ObjectKey)
  | putObject (key : ObjectKey) (content : Bytes)
  /-- `DeleteObjects`: deletes the given objects that exist, and reports all that were given. -/
  | deleteObjects (keys : List ObjectKey)
  /-- `ListObjectsWithPrefix` for the shard inputs of a task. -/
  | listShardInputs (taskID : String)
  /-- `ListObjectsWithPrefix` for the shard outputs of a task. -/
  | listShardOutputs (taskID : String)
  | appendObject (key : ObjectKey) (content : Bytes) (position : Nat)
  deriving DecidableEq

/-- What a remote command answers when it succeeds. -/
@[reducible] def Remote.Val : Remote → Type
  | .getFile _ => File
  | .getTask _ => BatchTask
  | .getTaskStatus _ => BatchTaskStatus
  | .getTaskExpiresAt _ => Int
  | .getTasksInStatus _ => List String
  | .getTaskInStatus _ => String
  | .taskInSet .. => Bool
  | .getFileShard .. => FileShard
  | .getShardsInStatus .. => List String
  | .getShardInStatus .. => String
  | .checkIfAllShardsAreCompleted _ => Bool
  | .acquireTaskLock .. => Bool
  | .acquireShardLock .. => Bool
  | .acquireOrRecoverShardLock .. => Bool
  | .getObject _ => Option Bytes
  | .deleteObjects _ => Nat
  | .listShardInputs _ => List ObjectKey
  | .listShardOutputs _ => List ObjectKey
  | .appendObject .. => Nat
  | _ => Unit

/-- `SET key owner NX PX expiration`. -/
def setNX (lock : Option (Lock O)) (owner : O) (expiration : Nat) : Option (Lock O) :=
  match live now lock with
  | some l => some l
  | none => some ⟨owner, now + expiration⟩

/-- The lock after the script of `AcquireOrRecoverShardLock`, and whether it answers `1`. -/
def recover (lock : Option (Lock Worker)) (worker : Worker) (expiration : Nat) :
    Option (Lock Worker) × Bool :=
  match live now lock with
  | none => (some ⟨worker, now + expiration⟩, true)
  | some l =>
    if l.owner = worker then (some ⟨worker, now + expiration⟩, true)
    else if ttlSeconds now l = 0 then (some ⟨worker, now + expiration⟩, true)
    else (some l, false)

/-- The lock after the scripts that release a lock. -/
def releaseLock [DecidableEq O] (now : Nat) (lock : Option (Lock O)) (owner : O) : Option (Lock O) :=
  (live now lock).filter fun l => decide (l.owner ≠ owner)

/-- The lock after the scripts that extend a lock. -/
def extendLock [DecidableEq O] (now : Nat) (lock : Option (Lock O)) (owner : O)
    (expiration : Nat) : Option (Lock O) :=
  (live now lock).map fun l => if l.owner = owner then ⟨owner, now + expiration⟩ else l

/-- **What a remote command does.** Task hashes are never deleted and only updated once created, so an update
that meets no hash need not create one. -/
def effect : Remote → World
  | .hsetFile file => { w with files := update w.files file.id (some file) }
  | .addFileToSet fileID => { w with fileSet := insert fileID w.fileSet }
  | .hsetTask task => { w with tasks := update w.tasks task.id (some task) }
  | .addTaskToGlobalSet taskID => { w with globalTasks := insert taskID w.globalTasks }
  | .saddPending taskID =>
    { w with taskSets := update w.taskSets .pending (insert taskID (w.taskSets .pending)) }
  | .updateTaskFailure taskID batchErr now =>
    { w with
      tasks := update w.tasks taskID
        ((w.tasks taskID).map fun task => stampFailure task batchErr now) }
  | .updateTaskFields taskID task =>
    { w with
      tasks := update w.tasks taskID
        ((w.tasks taskID).map fun stored => mergeFields stored task) }
  | .moveTaskAndUpdateStatus taskID fromSet toSet now =>
    let moved := moveScript w.taskSets taskID fromSet toSet
    if moved.2 then
      { w with
        taskSets := moved.1
        tasks := update w.tasks taskID
          ((w.tasks taskID).map fun task => stampStatus task toSet now) }
    else { w with taskSets := moved.1 }
  | .moveTask taskID fromSet toSet =>
    { w with taskSets := (moveScript w.taskSets taskID fromSet toSet).1 }
  | .createOrUpdateFileShard taskID shardID shard =>
    { w with
      shards := update w.shards taskID
        (update (w.shards taskID) shardID (some shard)) }
  | .addShardToPendingList taskID shardID =>
    w.setShardSets taskID (update (w.shardSets taskID) .pending
      (insert shardID (w.shardSets taskID .pending)))
  | .moveShard taskID shardID fromStatus toStatus =>
    w.setShardSets taskID (moveScript (w.shardSets taskID) shardID fromStatus toStatus).1
  | .delShardInfo taskID shardIDs status =>
    { w.setShardSets taskID (update (w.shardSets taskID) status ∅) with
      shards := update w.shards taskID fun shardID =>
        if shardID ∈ shardIDs then none else w.shards taskID shardID }
  | .acquireTaskLock taskID instanceID expiration =>
    w.setTaskLock taskID (setNX w.now (w.taskLocks taskID) instanceID expiration)
  | .releaseTaskLock taskID instanceID =>
    w.setTaskLock taskID (releaseLock w.now (w.taskLocks taskID) instanceID)
  | .extendTaskLock taskID instanceID expiration =>
    w.setTaskLock taskID (extendLock w.now (w.taskLocks taskID) instanceID expiration)
  | .acquireShardLock taskID shardID worker expiration =>
    w.setShardLock taskID shardID (setNX w.now (w.shardLocks taskID shardID) worker expiration)
  | .acquireOrRecoverShardLock taskID shardID worker expiration =>
    w.setShardLock taskID shardID (recover w.now (w.shardLocks taskID shardID) worker expiration).1
  | .releaseShardLock taskID shardID worker =>
    w.setShardLock taskID shardID (releaseLock w.now (w.shardLocks taskID shardID) worker)
  | .putObject key content => { w with objects := w.objects.insert key content }
  | .deleteObjects keys => { w with objects := eraseAll w.objects keys }
  | .appendObject key content position =>
    if ((w.objects.lookup key).getD []).length = position then
      { w with objects := w.objects.insert key ((w.objects.lookup key).getD [] ++ content) }
    else w
  | .getFile _ | .getTask _ | .getTaskStatus _ | .getTaskExpiresAt _ | .getTasksInStatus _
  | .getTaskInStatus _ | .taskInSet .. | .getFileShard .. | .getShardsInStatus ..
  | .getShardInStatus .. | .checkIfAllShardsAreCompleted _ | .getObject _ | .listShardInputs _
  | .listShardOutputs _ => w

theorem now_effect (r : Remote) : (effect w r).now = w.now := by
  cases r <;> try rfl
  all_goals
    simp only [effect]
    split <;> rfl

/-! ### Answers and failures -/

inductive Fault
  | refused
  /-- The command was executed, but its answer was lost. -/
  | lost
  deriving DecidableEq

/-- `http.Response`: the status, what could be read of the body, and the error that ended the reading. -/
structure HttpResponse where
  statusCode : Nat
  body : Bytes
  readError : Option String
  deriving DecidableEq

structure HttpRequest where
  url : String
  requestID : String
  token : Option String
  body : Bytes
  deriving DecidableEq

/-- **Everything about a step that the program does not decide.** -/
structure Choice where
  fault : Option (Fault × String) := none
  /-- The order in which the members of a set are listed. -/
  order : List String := []
  /-- The order in which objects are listed. -/
  keys : List ObjectKey := []
  pick : String := ""
  uuid : String := ""
  /-- What the clock of the gateway shows, in Unix milliseconds. -/
  clock : Int := 0
  http : Except String HttpResponse := .error ""
  /-- How often a ticker has fired since it was last asked. -/
  ticks : Nat := 0

/-- The answer to a random pick: an error if the set is empty. -/
def pickMember (s : Finset String) (pick noMember : String) : Option (Except String String) :=
  if s = ∅ then some (.error noMember) else if pick ∈ s then some (.ok pick) else none

/-- The answer to a listing. -/
def listMembers (s : Finset String) (order : List String) : Option (Except String (List String)) :=
  if Enumerates order s then some (.ok order) else none

/-- The answer to a listing of objects.  `ListObjectsWithPrefix` asks for pages of 1000; they are taken to be of
one moment. -/
def listKeys (objects : Finmap fun _ : ObjectKey => Bytes) (under : ObjectKey → Bool)
    (keys : List ObjectKey) : Option (Except String (List ObjectKey)) :=
  if Enumerates keys (objects.keys.filter fun key => under key) then some (.ok keys) else none

/-- A value that may be missing. -/
def orError {α : Type} (o : Option α) (missing : String) : Except String α :=
  match o with
  | some a => .ok a
  | none => .error missing

/-- **What a remote command that goes through answers.**  `none` means that the choice does not fit. -/
def answer (ch : Choice) : (r : Remote) → Option (Except String r.Val)
  | .getFile fileID => some (orError (w.files fileID) ("file not found: " ++ fileID))
  | .getTask taskID => some (orError (w.tasks taskID) ("task not found: " ++ taskID))
  | .getTaskStatus taskID => some (orError ((w.tasks taskID).map BatchTask.status) "redis: nil")
  | .getTaskExpiresAt taskID => some (orError ((w.tasks taskID).map BatchTask.expiresAt) "redis: nil")
  | .moveTaskAndUpdateStatus taskID fromSet toSet _ =>
    some (if (moveScript w.taskSets taskID fromSet toSet).2 then .ok ()
      else .error ("Task " ++ taskID ++ " not found in set tasks:" ++ fromSet.string))
  | .moveTask taskID fromSet toSet =>
    some (if (moveScript w.taskSets taskID fromSet toSet).2 then .ok ()
      else .error ("Task " ++ taskID ++ " not found in set tasks:" ++ fromSet.string))
  | .getTasksInStatus status => listMembers (w.taskSets status) ch.order
  | .getTaskInStatus status => pickMember (w.taskSets status) ch.pick "no tasks in set"
  | .taskInSet status taskID => some (.ok (decide (taskID ∈ w.taskSets status)))
  | .getFileShard taskID shardID => some (orError (w.shards taskID shardID)
      "failed to parse created_at: strconv.ParseInt: parsing \"\": invalid syntax")
  | .moveShard taskID shardID fromStatus toStatus =>
    some (if (moveScript (w.shardSets taskID) shardID fromStatus toStatus).2 then .ok ()
      else .error ("Shard " ++ shardID ++ " not found in status task:" ++ taskID ++ ":files:"
        ++ fromStatus.string))
  | .getShardsInStatus taskID status => listMembers (w.shardSets taskID status) ch.order
  | .getShardInStatus taskID status =>
    pickMember (w.shardSets taskID status) ch.pick ("no shards in status " ++ status.string)
  | .checkIfAllShardsAreCompleted taskID =>
    some (.ok (decide (w.shardSets taskID .pending = ∅ ∧ w.shardSets taskID .inProgress = ∅)))
  | .acquireTaskLock taskID _ _ => some (.ok (w.taskLock taskID).isNone)
  | .acquireShardLock taskID shardID _ _ => some (.ok (w.shardLock taskID shardID).isNone)
  | .acquireOrRecoverShardLock taskID shardID worker expiration =>
    some (.ok (recover w.now (w.shardLocks taskID shardID) worker expiration).2)
  | .getObject key => some (.ok (w.objects.lookup key))
  | .deleteObjects keys => some (.ok keys.length)
  | .listShardInputs taskID => listKeys w.objects (ObjectKey.underInput taskID) ch.keys
  | .listShardOutputs taskID => listKeys w.objects (ObjectKey.underOutput taskID) ch.keys
  | .appendObject key content position =>
    some (if ((w.objects.lookup key).getD []).length = position then .ok (position + content.length)
      else .error "PositionNotEqualToLength")
  | .hsetFile _ | .addFileToSet _ | .hsetTask _ | .addTaskToGlobalSet _ | .saddPending _
  | .updateTaskFailure .. | .updateTaskFields .. | .createOrUpdateFileShard ..
  | .addShardToPendingList .. | .delShardInfo .. | .releaseTaskLock .. | .extendTaskLock ..
  | .releaseShardLock .. | .putObject .. => some (.ok ())

/-! ### All commands -/

/-- The steps of a gateway: remote commands and the local steps it does not control. -/
inductive Cmd
  | remote (r : Remote)
  | newUUID
  | timeNow
  | httpDo (request : HttpRequest)
  /-- How often the keep-alive ticker has fired since the last step of the goroutine it belongs to. -/
  | tickerFired
  | reply (r : Reply)

@[reducible] def Cmd.Resp : Cmd → Type
  | .remote r => Except String r.Val
  | .newUUID => String
  | .timeNow => Int
  | .httpDo _ => Except String HttpResponse
  | .tickerFired => Nat
  | .reply _ => Unit

/-- **One step of a gateway.**  UUIDs do not repeat. -/
def step : (c : Cmd) → Choice → Option (World × c.Resp)
  | .remote r, ch =>
    match ch.fault with
    | none => (answer w ch r).map fun a => (effect w r, a)
    | some (.refused, message) => some (w, .error message)
    | some (.lost, message) => some (effect w r, .error message)
  | .newUUID, ch =>
    if ch.uuid ∈ w.usedIDs then none
    else some ({ w with usedIDs := insert ch.uuid w.usedIDs }, ch.uuid)
  | .timeNow, ch => some (w, ch.clock)
  | .httpDo _, ch => some (w, ch.http)
  | .tickerFired, ch => some (w, ch.ticks)
  | .reply r, _ => some ({ w with replies := r :: w.replies }, ())

variable {w w' : World} {r : Remote} {ch : Choice} {a : Except String r.Val}

/-- **What a remote command can lead to**: it was refused, its answer was lost, or it went through. -/
theorem step_remote (h : step w (.remote r) ch = some (w', a)) :
    (w' = w ∧ ∃ e, a = .error e) ∨ (w' = effect w r ∧ ∃ e, a = .error e) ∨
      (w' = effect w r ∧ answer w ch r = some a) := by
  simp only [step] at h
  split at h
  · obtain ⟨x, hx, ⟨⟩⟩ := Option.map_eq_some_iff.1 h
    exact .inr (.inr ⟨rfl, hx⟩)
  · cases h
    exact .inl ⟨rfl, _, rfl⟩
  · cases h
    exact .inr (.inl ⟨rfl, _, rfl⟩)

theorem eq_or_eq_effect (h : step w (.remote r) ch = some (w', a)) : w' = w ∨ w' = effect w r := by
  rcases step_remote h with ⟨hw, -⟩ | ⟨hw, -⟩ | ⟨hw, -⟩
  · exact .inl hw
  · exact .inr hw
  · exact .inr hw

theorem step_remote_ok {v : r.Val} (h : step w (.remote r) ch = some (w', .ok v)) :
    w' = effect w r ∧ answer w ch r = some (.ok v) := by
  rcases step_remote h with ⟨-, e, he⟩ | ⟨-, e, he⟩ | hok
  · cases he
  · cases he
  · exact hok

theorem step_newUUID {x : Cmd.newUUID.Resp} (h : step w .newUUID ch = some (w', x)) :
    ch.uuid ∉ w.usedIDs ∧ x = ch.uuid ∧ w' = { w with usedIDs := insert ch.uuid w.usedIDs } := by
  simp only [step] at h
  split at h <;> cases h
  next hf => exact ⟨hf, rfl, rfl⟩

theorem taskSets_move (w : World) (taskID : String) (fromSet toSet : BatchTaskStatus) (now : Int) :
    (effect w (.moveTaskAndUpdateStatus taskID fromSet toSet now)).taskSets
      = (moveScript w.taskSets taskID fromSet toSet).1 := by
  simp only [effect]
  split <;> rfl

/-- **What any command does to the world**: a remote one is executed or not, the others draw a UUID or answer
a client. -/
theorem step_cases {c : Cmd} {x : c.Resp} (h : step w c ch = some (w', x)) :
    (∃ r, c = .remote r ∧ (w' = w ∨ w' = effect w r)) ∨
      ∃ usedIDs replies, w' = { w with usedIDs := usedIDs, replies := replies } := by
  cases c with
  | remote r => exact .inl ⟨r, rfl, eq_or_eq_effect h⟩
  | newUUID =>
    obtain ⟨-, rfl, rfl⟩ := step_newUUID h
    exact .inr ⟨_, _, rfl⟩
  | _ =>
    cases h
    exact .inr ⟨_, _, rfl⟩

def Choice.refused (ch : Choice) : Bool :=
  match ch.fault with
  | some (.refused, _) => true
  | _ => false

theorem eq_effect_of_not_refused (h : step w (.remote r) ch = some (w', a)) (hch : ch.refused = false) :
    w' = effect w r := by
  simp only [step] at h
  split at h
  · obtain ⟨x, -, ⟨⟩⟩ := Option.map_eq_some_iff.1 h
    rfl
  · next hf => simp [Choice.refused, hf] at hch
  · cases h
    rfl

def Choice.lost (ch : Choice) : Bool :=
  match ch.fault with
  | some (.lost, _) => true
  | _ => false

/-- A remote command whose answer is not lost was refused, or it went through. -/
theorem eq_or_answer_of_not_lost (h : step w (.remote r) ch = some (w', a)) (hch : ch.lost = false) :
    w' = w ∨ w' = effect w r ∧ answer w ch r = some a := by
  simp only [step] at h
  split at h
  · obtain ⟨x, hx, ⟨⟩⟩ := Option.map_eq_some_iff.1 h
    exact .inr ⟨rfl, hx⟩
  · cases h
    exact .inl rfl
  · next hf => simp [Choice.lost, hf] at hch

/-- Time passes: `ms` milliseconds on the clock of Redis. -/
def tick (w : World) (ms : Nat) : Option World := some { w with now := w.now + ms }

end Llumnix.Batch
