/-
**The duties of workers and finalizers.**

A worker takes a shard under its lock, removes what an earlier attempt has left, answers every line, stores
output lines, error lines and counts, and records the shard as completed.  The finalizer moves the task out
of the way, appends the results of the completed shards to two files, adds up the counts, completes the
task, and cleans up.  Both are one protocol here, with everything in the phases that a later step relies on.

* `onDuty_follows` — **every turn of a worker and of a finalizer follows it**, whatever is answered.
-/

import Llumnix.BatchFootprint
import Llumnix.BatchLines

namespace Llumnix.Batch

open Interaction Interaction.Prog Follows List

/-! ### Duties -/

/-- How far the finalizer is with a shard. -/
inductive Stage
  | output
  | fetchedOutput (body : Bytes)
  | error
  | fetchedError (body : Bytes)
  | counts
  deriving DecidableEq

/-- What the finalizer has collected of a task. -/
structure Collection where
  taskID : String
  /-- The record of the task as it was loaded. -/
  task : BatchTask
  keys : List ObjectKey
  /-- The UUIDs that the two files are named after. -/
  outputUUID : String
  errorUUID : String
  /-- The shards that are in the files. -/
  collected : List String
  /-- The shards that are not. -/
  remaining : List String
  errorPosition : Nat
  counts : RequestCounts
  stage : Stage

/-- Where a worker or a finalizer stands. -/
inductive Duty
  | idle
  /-- The lock of a pending shard has been taken. -/
  | locked (taskID shardID : String)
  /-- The lock of a shard in progress has been taken over. -/
  | recovered (taskID shardID : String)
  | working (taskID shardID : String)
  /-- Earlier results have been removed. -/
  | cleared (taskID shardID : String)
  /-- The lines have been read, and these results have been stored. -/
  | writing (taskID shardID : String) (lines outputLines errorLines : List Bytes)
  /-- The counts have been stored, too. -/
  | counted (taskID shardID : String)
  /-- The task was not in progress any more. -/
  | skipped (taskID shardID : String)
  | finished (taskID shardID : String)
  | allDone (taskID : String)
  | picked (taskID : String)
  | holding (taskID : String)
  | moved (taskID : String)
  | loaded (taskID : String) (task : BatchTask)
  | listed (taskID : String) (task : BatchTask) (shardIDs : List String)
  | keyed (taskID : String) (task : BatchTask) (shardIDs : List String) (keys : List ObjectKey)
  | named (taskID : String) (task : BatchTask) (shardIDs : List String) (keys : List ObjectKey)
      (outputUUID : String)
  | collecting (c : Collection)
  /-- The finalization is over, one way or the other; these objects are to be deleted. -/
  | ending (taskID : String) (keys : List ObjectKey)

namespace Collection

variable (c : Collection)

def outputFileID : String := "batch_output_" ++ c.outputUUID

def errorFileID : String := "batch_error_" ++ c.errorUUID

/-- The output of the shard is in its file, or there is none. -/
def OutputDone (shardID : String) : Prop :=
  c.stage = .error ∨ c.stage = .output ∧ ObjectKey.shardOutput c.taskID shardID ∉ c.keys

/-- The errors of the shard are in their file, or there are none. -/
def ErrorDone (shardID : String) : Prop :=
  c.stage = .counts ∨ c.OutputDone shardID ∧ ObjectKey.shardError c.taskID shardID ∉ c.keys

def fetched (key : ObjectKey) (body : Option Bytes) : Collection :=
  match key, body with
  | .shardOutput _ _, some body => { c with stage := .fetchedOutput body }
  | .shardOutput _ _, none => { c with stage := .error }
  | .shardError _ _, some body => { c with stage := .fetchedError body }
  | .shardError _ _, none => { c with stage := .counts }
  | _, _ => c

def appended (next : Nat) : Collection :=
  match c.stage with
  | .fetchedOutput _ => { c with stage := .error }
  | .fetchedError _ => { c with stage := .counts, errorPosition := next }
  | _ => c

def counted (shardID : String) (counts : RequestCounts) : Collection :=
  { c with
    collected := c.collected ++ [shardID]
    remaining := c.remaining.tail
    counts := ⟨c.counts.total + counts.total, c.counts.completed + counts.completed,
      c.counts.failed + counts.failed⟩
    stage := .output }

end Collection

variable (d : Duty) (taskID : String)

namespace Duty

/-- The worker believes that it holds the lock of the shard. -/
def Window (shardID : String) : Prop :=
  match d with
  | .locked t s | .recovered t s | .working t s | .cleared t s | .writing t s _ _ _ | .counted t s
  | .skipped t s | .finished t s => t = taskID ∧ s = shardID
  | _ => False

/-- **The worker is processing the shard.** -/
def Processing (shardID : String) : Prop :=
  match d with
  | .working t s | .cleared t s | .writing t s _ _ _ | .counted t s | .skipped t s =>
    t = taskID ∧ s = shardID
  | _ => False

/-- The finalizer has moved the task and has not completed it or given up yet. -/
def Gathering : Prop :=
  match d with
  | .moved t | .loaded t _ | .listed t _ _ | .keyed t _ _ _ | .named t _ _ _ _ => t = taskID
  | .collecting c => c.taskID = taskID
  | _ => False

def Over : Prop := ∃ keys, d = .ending taskID keys

/-- The finalizer has tried to move the task. -/
def Finalizing : Prop := d.Gathering taskID ∨ d.Over taskID

/-- What a remote command may be issued for.  Only a worker takes shards, only others finalize. -/
def AllowedRemote (codec : Codec) (worker : Option Worker) (d : Duty) : Remote → Prop
  | .acquireShardLock _ _ w expiration | .acquireOrRecoverShardLock _ _ w expiration =>
    d = .idle ∧ some w = worker ∧ expiration = defaultLockExpiration
  | .releaseShardLock taskID shardID w => some w = worker ∧ d.Window taskID shardID
  | .taskInSet _ taskID => match d with
      | .working t _ => t = taskID
      | _ => True
  | .getTask taskID => match d with
      | .moved t => t = taskID
      | _ => True
  | .getShardsInStatus taskID _ => match d with
      | .loaded t _ => t = taskID
      | _ => True
  | .listShardInputs taskID | .listShardOutputs taskID => d.Finalizing taskID
  | .moveShard taskID shardID fromStatus toStatus =>
    d = .locked taskID shardID ∧ fromStatus = .pending ∧ toStatus = .inProgress ∨
      (d = .counted taskID shardID ∨ d = .skipped taskID shardID) ∧ fromStatus = .inProgress ∧
        toStatus = .completed
  | .createOrUpdateFileShard taskID shardID shard => ∃ lines outputLines errorLines,
      d = .writing taskID shardID lines outputLines errorLines ∧
        Answers codec taskID lines outputLines errorLines ∧ shard.requestCounts = some
          ⟨outputLines.length + errorLines.length, outputLines.length, errorLines.length⟩
  | .putObject key content => ∃ taskID shardID lines result,
      result ≠ [] ∧ (∀ line ∈ result, newline ∉ line) ∧ content = joinLines result ∧
        (key = .shardOutput taskID shardID ∧ d = .writing taskID shardID lines [] [] ∨
          key = .shardError taskID shardID ∧
            ∃ outputLines, d = .writing taskID shardID lines outputLines [])
  | .deleteObjects keys =>
    (∃ taskID shardID, (d = .working taskID shardID ∨ d = .cleared taskID shardID) ∧
      ∀ key ∈ keys, key = .shardOutput taskID shardID ∨ key = .shardError taskID shardID) ∨
    (∃ c, d = .collecting c ∧ c.collected = [] ∧ c.stage = .output ∧
      ∀ key ∈ keys, key = .file c.outputFileID ∨ key = .file c.errorFileID) ∨
    ∃ taskID others, d = .ending taskID others ∧ ∀ key ∈ keys, key ∈ others
  | .getObject key => match d with
      | .collecting c => ∃ shardID rest, c.remaining = shardID :: rest ∧
          (key = .shardOutput c.taskID shardID ∧ c.stage = .output ∨
            key = .shardError c.taskID shardID ∧ c.OutputDone shardID)
      | _ => True
  | .appendObject key content position => ∃ c, d = .collecting c ∧
      (c.stage = .fetchedOutput content ∧ key = .file c.outputFileID ∨
        c.stage = .fetchedError content ∧ key = .file c.errorFileID ∧ position = c.errorPosition)
  | .getFileShard taskID shardID => match d with
      | .collecting c => c.taskID = taskID ∧ ∃ rest, c.remaining = shardID :: rest ∧
          c.ErrorDone shardID
      | _ => True
  | .updateTaskFields taskID task => ∃ c, d = .collecting c ∧ c.taskID = taskID ∧
      c.remaining = [] ∧ c.stage = .output ∧ task.status = .completed ∧
      task.outputFileID = some c.outputFileID ∧ task.requestCounts = some c.counts ∧
      task.errorFileID = if c.errorPosition > 0 then some c.errorFileID else c.task.errorFileID
  | .moveTaskAndUpdateStatus taskID fromSet toSet _ =>
    d = .allDone taskID ∧ fromSet = .inProgress ∧ toSet = .finalizing ∨
      d = .holding taskID ∧ fromSet = .finalizing ∧ toSet = .finalize
  | .moveTask taskID fromSet toSet =>
    ∃ keys, d = .ending taskID keys ∧ fromSet = .finalize ∧ toSet = .completed
  | .delShardInfo taskID _ _ => ∃ keys, d = .ending taskID keys
  | .acquireTaskLock taskID _ _ => d = .allDone taskID ∨ d = .picked taskID
  | .getTaskInStatus status => d = .idle ∧ (status = .finalizing → worker = none)
  | .hsetTask _ | .saddPending _ | .updateTaskFailure .. | .addShardToPendingList ..
  | .extendTaskLock .. => False
  | _ => True

def Allowed (codec : Codec) (worker : Option Worker) (d : Duty) : Cmd → Prop
  | .remote r => d.AllowedRemote codec worker r
  | _ => True

/-- Giving up a finalization, with these objects to delete. -/
def giveUp (keys : List ObjectKey) : Duty :=
  match d with
  | .moved t | .loaded t _ | .listed t _ _ | .keyed t _ _ _ | .named t _ _ _ _ => .ending t keys
  | .collecting c => .ending c.taskID keys
  | .ending t others => .ending t (others ++ keys)
  | d => d

/-- After looking up whether the task is in progress. -/
def sees (inProgress : Bool) : Duty :=
  match d with
  | .recovered t s => if t = taskID ∧ inProgress = true then .working t s else d
  | .working t s => if inProgress then d else .skipped t s
  | d => d

def afterRemote : (r : Remote) → Except String r.Val → Duty
  | .acquireShardLock taskID shardID _ _, .ok true => .locked taskID shardID
  | .acquireOrRecoverShardLock taskID shardID _ _, .ok true => .recovered taskID shardID
  | .releaseShardLock .., _ | .releaseTaskLock .., _ => .idle
  | .moveShard taskID shardID _ .inProgress, .ok _ => .working taskID shardID
  | .moveShard taskID shardID _ .completed, _ => .finished taskID shardID
  | .taskInSet .inProgress taskID, .ok inProgress => d.sees taskID inProgress
  | .deleteObjects keys, .ok _ => match d with
      | .working t s =>
        if ObjectKey.shardOutput t s ∈ keys ∧ ObjectKey.shardError t s ∈ keys then .cleared t s
        else d
      | d => d
  | .getObject key, .ok body => match d, body with
      | .cleared t s, some body =>
        if key = .shardInput t s then .writing t s (nonEmptyLines (splitLines body)) [] [] else d
      | .collecting c, body => .collecting (c.fetched key body)
      | d, _ => d
  | .putObject key content, .ok _ => match d, key with
      | .writing t s lines _ errs, .shardOutput _ _ => .writing t s lines (splitLines content) errs
      | .writing t s lines outs _, .shardError _ _ => .writing t s lines outs (splitLines content)
      | d, _ => d
  | .putObject .., .error _ => match d with
      | .writing t s _ _ _ => .working t s
      | d => d
  | .createOrUpdateFileShard taskID shardID _, .ok _ => .counted taskID shardID
  | .createOrUpdateFileShard taskID shardID _, .error _ => .working taskID shardID
  | .checkIfAllShardsAreCompleted taskID, .ok true => .allDone taskID
  | .getTaskInStatus .finalizing, .ok taskID => .picked taskID
  | .acquireTaskLock .., .ok true => match d with
      | .picked t => .holding t
      | d => d
  | .moveTaskAndUpdateStatus taskID _ .finalize _, .ok _ => .moved taskID
  | .moveTaskAndUpdateStatus taskID _ .finalize _, .error _ => .ending taskID []
  | .getTask _, .ok task => match d with
      | .moved t => .loaded t task
      | d => d
  | .getShardsInStatus _ .completed, .ok shardIDs => match d with
      | .loaded t task => .listed t task shardIDs
      | d => d
  | .listShardOutputs _, .ok keys => match d with
      | .listed t task shardIDs => .keyed t task shardIDs keys
      | d => d.giveUp keys
  | .listShardOutputs _, .error _ => d.giveUp []
  | .listShardInputs _, x => d.giveUp (x.toOption.getD [])
  | .appendObject .., .ok next => match d with
      | .collecting c => .collecting (c.appended next)
      | d => d
  | .appendObject .., .error _ => d.giveUp []
  | .getFileShard _ shardID, .ok shard => match d, shard.requestCounts with
      | .collecting c, some counts => .collecting (c.counted shardID counts)
      | d, _ => d
  | .updateTaskFields taskID _, _ => .ending taskID []
  | _, _ => d

def after : (c : Cmd) → c.Resp → Duty
  | .remote r, x => d.afterRemote r x
  | .newUUID, uuid => match d with
      | .keyed t task shardIDs keys => .named t task shardIDs keys uuid
      | .named t task shardIDs keys outputUUID => .collecting
          { taskID := t
            task := task
            keys := keys
            outputUUID := outputUUID
            errorUUID := uuid
            collected := []
            remaining := shardIDs
            errorPosition := 0
            counts := ⟨0, 0, 0⟩
            stage := .output }
      | d => d
  | .timeNow, _ | .httpDo _, _ | .tickerFired, _ | .reply _, _ => d

end Duty

/-- **The protocol of workers and finalizers.** -/
def duty (γ : Gateway) (worker : Option Worker) : Protocol Cmd Cmd.Resp Duty where
  start := .idle
  allowed := Duty.Allowed γ.codec worker
  advance := Duty.after
  final _ := True

/-! ### Transitions -/

variable {d : Duty}
variable {worker : Option Worker} {i : Proc}

theorem Duty.Finalizing.giveUp {taskID : String} (h : d.Finalizing taskID) (keys : List ObjectKey) :
    ∃ others, d.giveUp keys = .ending taskID (others ++ keys) ∧
      ∀ key ∈ others, ∃ keys', d = .ending taskID keys' ∧ key ∈ keys' := by
  rcases h with h | ⟨others, rfl⟩
  · refine ⟨[], ?_, fun key hk => by cases hk⟩
    cases d <;> first | exact h.elim | (cases h; rfl)
  · exact ⟨others, rfl, fun key hk => ⟨others, rfl, hk⟩⟩

def Remote.writesResult : Remote → Bool
  | .putObject .. | .createOrUpdateFileShard .. | .appendObject .. => true
  | _ => false

/-- **How a duty changes** with the answer to a command that it allows. -/
inductive Duty.Moves (codec : Codec) (worker : Option Worker) :
    Duty → (r : Remote) → Except String r.Val → Duty → Prop
  | stay {d : Duty} {r : Remote} {x : Except String r.Val} (hr : r.writesResult = false) :
      Moves codec worker d r x d
  | lock {t s : String} {w : Worker} (hw : some w = worker) : Moves codec worker .idle
      (.acquireShardLock t s w defaultLockExpiration) (.ok true) (.locked t s)
  | recover {t s : String} {w : Worker} (hw : some w = worker) : Moves codec worker .idle
      (.acquireOrRecoverShardLock t s w defaultLockExpiration) (.ok true) (.recovered t s)
  | releaseShard {d : Duty} {t s : String} {w : Worker} (x : Except String Unit) (hd : d.Window t s)
      (hw : some w = worker) : Moves codec worker d (.releaseShardLock t s w) x .idle
  | releaseTask {d : Duty} {t instanceID : String} (x : Except String Unit) :
      Moves codec worker d (.releaseTaskLock t instanceID) x .idle
  | begin {t s : String} : Moves codec worker (.locked t s) (.moveShard t s .pending .inProgress)
      (.ok ()) (.working t s)
  | resume {t s : String} : Moves codec worker (.recovered t s) (.taskInSet .inProgress t) (.ok true)
      (.working t s)
  | skip {t s : String} : Moves codec worker (.working t s) (.taskInSet .inProgress t) (.ok false)
      (.skipped t s)
  | clear {t s : String} {keys : List ObjectKey} {n : Nat} (houtput : .shardOutput t s ∈ keys)
      (herror : .shardError t s ∈ keys) :
      Moves codec worker (.working t s) (.deleteObjects keys) (.ok n) (.cleared t s)
  | read {t s : String} {body : Bytes} : Moves codec worker (.cleared t s)
      (.getObject (.shardInput t s)) (.ok (some body))
      (.writing t s (nonEmptyLines (splitLines body)) [] [])
  | storeOutput {t s : String} {lines result : List Bytes} (hne : result ≠ []) :
      Moves codec worker (.writing t s lines [] []) (.putObject (.shardOutput t s) (joinLines result))
        (.ok ()) (.writing t s lines result [])
  | storeError {t s : String} {lines outputLines result : List Bytes} (hne : result ≠ []) :
      Moves codec worker (.writing t s lines outputLines [])
        (.putObject (.shardError t s) (joinLines result)) (.ok ())
        (.writing t s lines outputLines result)
  | failStore {t s : String} {lines outs errs : List Bytes} {key : ObjectKey} {content : Bytes}
      {e : String} : Moves codec worker (.writing t s lines outs errs) (.putObject key content)
        (.error e) (.working t s)
  | count {t s : String} {lines outs errs : List Bytes} {shard : FileShard}
      (hanswers : Answers codec t lines outs errs)
      (hcounts : shard.requestCounts = some ⟨outs.length + errs.length, outs.length, errs.length⟩) :
      Moves codec worker (.writing t s lines outs errs) (.createOrUpdateFileShard t s shard) (.ok ())
        (.counted t s)
  | failCount {t s : String} {lines outs errs : List Bytes} {shard : FileShard} {e : String} :
      Moves codec worker (.writing t s lines outs errs) (.createOrUpdateFileShard t s shard) (.error e)
        (.working t s)
  | finish {d : Duty} {t s : String} (x : Except String Unit)
      (hd : d = .counted t s ∨ d = .skipped t s) :
      Moves codec worker d (.moveShard t s .inProgress .completed) x (.finished t s)
  | allDone {d : Duty} {t : String} :
      Moves codec worker d (.checkIfAllShardsAreCompleted t) (.ok true) (.allDone t)
  | pick {t : String} (hworker : worker = none) :
      Moves codec worker .idle (.getTaskInStatus .finalizing) (.ok t) (.picked t)
  | hold {t instanceID : String} {expiration : Nat} : Moves codec worker (.picked t)
      (.acquireTaskLock t instanceID expiration) (.ok true) (.holding t)
  | move {t : String} {now : Int} : Moves codec worker (.holding t)
      (.moveTaskAndUpdateStatus t .finalizing .finalize now) (.ok ()) (.moved t)
  | failMove {t e : String} {now : Int} : Moves codec worker (.holding t)
      (.moveTaskAndUpdateStatus t .finalizing .finalize now) (.error e) (.ending t [])
  | load {t : String} {task : BatchTask} :
      Moves codec worker (.moved t) (.getTask t) (.ok task) (.loaded t task)
  | list {t : String} {task : BatchTask} {shardIDs : List String} :
      Moves codec worker (.loaded t task) (.getShardsInStatus t .completed) (.ok shardIDs)
        (.listed t task shardIDs)
  | key {t : String} {task : BatchTask} {shardIDs : List String} {keys : List ObjectKey} :
      Moves codec worker (.listed t task shardIDs) (.listShardOutputs t) (.ok keys)
        (.keyed t task shardIDs keys)
  | giveUpInputs {d : Duty} {t : String} {others : List ObjectKey}
      (x : Except String (List ObjectKey)) (hd : d.Finalizing t)
      (hothers : ∀ key ∈ others, ∃ keys, d = .ending t keys ∧ key ∈ keys) :
      Moves codec worker d (.listShardInputs t) x (.ending t (others ++ x.toOption.getD []))
  | giveUpOutputs {d : Duty} {t : String} {others : List ObjectKey}
      (x : Except String (List ObjectKey)) (hd : d.Finalizing t)
      (hothers : ∀ key ∈ others, ∃ keys, d = .ending t keys ∧ key ∈ keys) :
      Moves codec worker d (.listShardOutputs t) x (.ending t (others ++ x.toOption.getD []))
  | fetch {c : Collection} {key : ObjectKey} {body : Option Bytes} {s : String} {rest : List String}
      (hc : c.remaining = s :: rest)
      (hkey : key = .shardOutput c.taskID s ∧ c.stage = .output ∨
        key = .shardError c.taskID s ∧ c.OutputDone s) :
      Moves codec worker (.collecting c) (.getObject key) (.ok body) (.collecting (c.fetched key body))
  | append {c : Collection} {key : ObjectKey} {content : Bytes} {position next : Nat}
      (hkey : c.stage = .fetchedOutput content ∧ key = .file c.outputFileID ∨
        c.stage = .fetchedError content ∧ key = .file c.errorFileID ∧ position = c.errorPosition) :
      Moves codec worker (.collecting c) (.appendObject key content position) (.ok next)
        (.collecting (c.appended next))
  | failAppend {c : Collection} {key : ObjectKey} {content : Bytes} {position : Nat} {e : String} :
      Moves codec worker (.collecting c) (.appendObject key content position) (.error e)
        (.ending c.taskID [])
  | add {c : Collection} {s : String} {rest : List String} {shard : FileShard}
      {counts : RequestCounts} (hc : c.remaining = s :: rest) (hdone : c.ErrorDone s)
      (hcounts : shard.requestCounts = some counts) :
      Moves codec worker (.collecting c) (.getFileShard c.taskID s) (.ok shard)
        (.collecting (c.counted s counts))
  | complete {c : Collection} {task : BatchTask} (x : Except String Unit) :
      Moves codec worker (.collecting c) (.updateTaskFields c.taskID task) x (.ending c.taskID [])

/-- **Every answer to an allowed command is one of these transitions.** -/
theorem Duty.moves_afterRemote {codec : Codec} {r : Remote} (ha : d.AllowedRemote codec worker r)
    (x : Except String r.Val) : Moves codec worker d r x (d.afterRemote r x) := by
  cases r with
  | acquireShardLock | acquireOrRecoverShardLock =>
    obtain ⟨rfl, hw, rfl⟩ := ha
    rcases x with e | _ | _ <;> try exact .stay rfl
    first | exact .lock hw | exact .recover hw
  | releaseShardLock => exact .releaseShard x ha.2 ha.1
  | releaseTaskLock => exact .releaseTask x
  | moveShard =>
    rcases ha with ⟨rfl, rfl, rfl⟩ | ⟨hd, rfl, rfl⟩
    · rcases x with e | ⟨⟩ <;> try exact .stay rfl
      exact .begin
    · exact .finish x hd
  | taskInSet status t =>
    rcases x with e | inProgress <;> cases status <;> try exact .stay rfl
    cases d <;> try exact .stay rfl
    · change Moves codec worker _ _ _ (if _ then _ else _)
      split
      · rename_i hs
        obtain ⟨rfl, rfl⟩ := hs
        exact .resume
      · exact .stay rfl
    · obtain rfl : _ = t := ha
      cases inProgress with
      | true => exact .stay rfl
      | false => exact .skip
  | deleteObjects keys =>
    rcases x with e | n <;> try exact .stay rfl
    cases d <;> try exact .stay rfl
    change Moves codec worker _ _ _ (if _ then _ else _)
    split
    · next hke => exact .clear hke.1 hke.2
    · exact .stay rfl
  | getObject key =>
    rcases x with e | body
    · exact .stay rfl
    cases d with
    | cleared t s =>
      cases body with
      | none => exact .stay rfl
      | some body =>
      change Moves codec worker _ _ _ (if _ then _ else _)
      split
      · rename_i hk
        subst hk
        exact .read
      · exact .stay rfl
    | collecting =>
      obtain ⟨s, rest, hc, hk⟩ := ha
      exact .fetch hc hk
    | _ => exact .stay rfl
  | putObject =>
    obtain ⟨t, s, lines, result, hne, hline, rfl, ⟨rfl, rfl⟩ | ⟨rfl, outs, rfl⟩⟩ := ha
    · rcases x with e | ⟨⟩
      · exact .failStore
      · change Moves codec worker _ _ _ (.writing t s lines (splitLines (joinLines result)) [])
        rw [splitLines_joinLines hne hline]
        exact .storeOutput hne
    · rcases x with e | ⟨⟩
      · exact .failStore
      · change Moves codec worker _ _ _ (.writing t s lines outs (splitLines (joinLines result)))
        rw [splitLines_joinLines hne hline]
        exact .storeError hne
  | createOrUpdateFileShard =>
    obtain ⟨lines, outs, errs, rfl, han, hco⟩ := ha
    rcases x with e | ⟨⟩
    · exact .failCount
    · exact .count han hco
  | checkIfAllShardsAreCompleted =>
    rcases x with e | _ | _ <;> try exact .stay rfl
    exact .allDone
  | getTaskInStatus status =>
    obtain ⟨rfl, hwo⟩ := ha
    cases status <;> try exact .stay rfl
    rcases x with e | t <;> try exact .stay rfl
    exact .pick (hwo rfl)
  | acquireTaskLock =>
    rcases x with e | _ | _ <;> try exact .stay rfl
    rcases ha with rfl | rfl
    · exact .stay rfl
    · exact .hold
  | moveTaskAndUpdateStatus =>
    rcases ha with ⟨rfl, rfl, rfl⟩ | ⟨rfl, rfl, rfl⟩
    · exact .stay rfl
    · rcases x with e | ⟨⟩
      · exact .failMove
      · exact .move
  | getTask t =>
    rcases x with e | task <;> try exact .stay rfl
    cases d <;> try exact .stay rfl
    obtain rfl : _ = t := ha
    exact .load
  | getShardsInStatus t status =>
    cases status <;> try exact .stay rfl
    rcases x with e | shardIDs <;> try exact .stay rfl
    cases d <;> try exact .stay rfl
    obtain rfl : _ = t := ha
    exact .list
  | listShardInputs =>
    obtain ⟨others, hg, ho⟩ := Finalizing.giveUp ha (x.toOption.getD [])
    change Moves codec worker d _ x (d.giveUp (x.toOption.getD []))
    rw [hg]
    exact .giveUpInputs x ha ho
  | listShardOutputs t =>
    -- listing for the collection, or for the clean-up
    by_cases hl : ∃ task shardIDs keys, d = .listed t task shardIDs ∧ x = .ok keys
    · obtain ⟨task, shardIDs, keys, rfl, rfl⟩ := hl
      exact .key
    have haf : d.afterRemote (.listShardOutputs t) x = d.giveUp (x.toOption.getD []) := by
      rcases x with e | keys
      · rfl
      · cases d <;> try rfl
        obtain rfl | ⟨_, h⟩ := ha
        · exact absurd ⟨_, _, _, rfl, rfl⟩ hl
        · cases h
    obtain ⟨others, hg, ho⟩ := Finalizing.giveUp ha (x.toOption.getD [])
    rw [haf, hg]
    exact .giveUpOutputs x ha ho
  | appendObject key content position =>
    obtain ⟨c, rfl, hk⟩ := ha
    rcases x with e | next
    · exact .failAppend
    · exact .append hk
  | getFileShard =>
    rcases x with e | ⟨id, createdAt, _ | counts, updatedAt⟩
    · exact .stay rfl
    · cases d <;> exact .stay rfl
    · cases d <;> try exact .stay rfl
      obtain ⟨rfl, rest, hc, hdo⟩ := ha
      exact .add hc hdo rfl
  | updateTaskFields =>
    obtain ⟨c, rfl, rfl, -⟩ := ha
    exact .complete x
  | _ => exact .stay rfl

/-! ### The worker -/

section

variable {γ : Gateway} {worker : Worker} {taskID shardID : String}
variable {message : String}

/-- A part of `processShard` ends: the lock is still there, only an error is flagged, and a good end is in the
duty `d'`. -/
def Ends {α : Type} (taskID shardID : String) (d' d : Duty) (x : Except Failure α) : Prop :=
  d.Window taskID shardID ∧ match x with
    | .ok _ => d = d'
    | .error e => e ≠ .statusChanged

theorem duty_deleteFiles :
    Follows (duty γ (some worker)) (Ends taskID shardID (.cleared taskID shardID)) (.working taskID shardID)
      (orFail message (deleteFiles [.shardOutput taskID shardID, .shardError taskID shardID])).run := by
  refine follows_orFail_last (issue (.inl ⟨taskID, shardID, .inl rfl, fun key hk => ?_⟩) fun x => ?_)
  · simpa using hk
  cases x with
  | error => exact ⟨⟨rfl, rfl⟩, nofun⟩
  | ok deleted =>
  refine of_eq (if_pos ⟨by simp, by simp⟩) ?_
  refine mono ?_ (follows_deleteFilesFrom _ _ (fun keys' hke => ?_) fun _ x => ?_)
  · rintro d x rfl
    cases x with
    | ok => exact ⟨⟨rfl, rfl⟩, rfl⟩
    | error => exact ⟨⟨rfl, rfl⟩, nofun⟩
  · exact .inl ⟨_, _, .inr rfl, fun key hk => by
      simpa using mem_of_mem_drop (hke hk)⟩
  · cases x <;> rfl

theorem duty_writeIfAny {d' : Duty} {key : ObjectKey} {result : List Bytes}
    (hd : d.Window taskID shardID) (hn : result = [] → d' = d)
    (hp : result ≠ [] → d.AllowedRemote γ.codec (some worker) (.putObject key (joinLines result)))
    (hok : result ≠ [] → d.afterRemote (.putObject key (joinLines result)) (.ok ()) = d')
    (he : ∀ e, (d.afterRemote (.putObject key (joinLines result)) (.error e)).Window taskID shardID)
    (hd' : d'.Window taskID shardID) :
    Follows (duty γ (some worker)) (Ends taskID shardID d') d (writeIfAny message key result).run := by
  unfold writeIfAny
  split
  · next hem => exact ⟨hd, (hn (isEmpty_iff.1 hem)).symm⟩
  · rename_i hne
    have hne : result ≠ [] := fun heq => hne (isEmpty_iff.2 heq)
    refine follows_orFail_last (issue (hp hne) fun x => ?_)
    rcases x with e | ⟨⟩
    · exact ⟨he e, nofun⟩
    · have ha := hok hne
      exact ⟨by rw [← ha] at hd'; exact hd', ha⟩

theorem duty_writeShardResult {lines outputLines errorLines : List Bytes}
    (h : Answers γ.codec taskID lines outputLines errorLines) :
    Follows (duty γ (some worker)) (Ends taskID shardID (.counted taskID shardID))
      (.writing taskID shardID lines [] [])
      (writeShardResult taskID shardID outputLines errorLines).run := by
  obtain ⟨ho, he⟩ := h.newline_notMem
  refine bindE_of (M := Ends taskID shardID (.writing taskID shardID lines outputLines []))
    (duty_writeIfAny ⟨rfl, rfl⟩ (fun hn => by rw [hn]) (fun hne => ?_) (fun hne => ?_)
      (fun e => ⟨rfl, rfl⟩) ⟨rfl, rfl⟩) (fun _ _ h => h) ?_
  · exact ⟨taskID, shardID, lines, outputLines, hne, ho, rfl, .inl ⟨rfl, rfl⟩⟩
  · change Duty.writing taskID shardID lines (splitLines (joinLines outputLines)) [] = _
    rw [splitLines_joinLines hne ho]
  rintro d _ ⟨hd, hx⟩
  obtain rfl : d = _ := hx
  refine bindE_of (M := Ends taskID shardID (.writing taskID shardID lines outputLines errorLines))
    (duty_writeIfAny ⟨rfl, rfl⟩ (fun hn => by rw [hn]) (fun hne => ?_) (fun hne => ?_)
      (fun e => ⟨rfl, rfl⟩) ⟨rfl, rfl⟩) (fun _ _ h => h) ?_
  · exact ⟨taskID, shardID, lines, errorLines, hne, he, rfl, .inr ⟨rfl, outputLines, rfl⟩⟩
  · change Duty.writing taskID shardID lines outputLines (splitLines (joinLines errorLines)) = _
    rw [splitLines_joinLines hne he]
  rintro d _ ⟨hd, hx⟩
  obtain rfl : d = _ := hx
  refine follows_try trivial (fun _ => ⟨⟨rfl, rfl⟩, nofun⟩) fun _ => ?_
  refine issue trivial fun now => ?_
  refine follows_orFail_last (issue ⟨lines, outputLines, errorLines, rfl, h, rfl⟩ fun z => ?_)
  cases z with
  | error => exact ⟨⟨rfl, rfl⟩, nofun⟩
  | ok => exact ⟨⟨rfl, rfl⟩, rfl⟩

/-- **`processShard`**: after a good end the results are stored, or the task was not in progress any more. -/
theorem duty_processShard :
    Follows (duty γ (some worker)) (fun d x => d.Window taskID shardID ∧ match x with
        | .ok _ => d = .counted taskID shardID ∨ d = .skipped taskID shardID
        | .error e => e ≠ .statusChanged) (.working taskID shardID)
      (processShard γ taskID shardID).run := by
  refine follows_orFail (issue rfl fun x => ?_)
  rcases x with e | _ | _
  · exact ⟨⟨rfl, rfl⟩, nofun⟩
  · exact ⟨⟨rfl, rfl⟩, .inr rfl⟩
  refine follows_try trivial (fun _ => ⟨⟨rfl, rfl⟩, nofun⟩) fun _ => ?_
  refine bindE_of duty_deleteFiles (fun _ _ h => h) ?_
  rintro d _ ⟨hd, hx⟩
  obtain rfl : d = _ := hx
  refine follows_orFail (issue trivial fun z => ?_)
  rcases z with e | _ | content
  · exact ⟨⟨rfl, rfl⟩, nofun⟩
  · exact ⟨⟨rfl, rfl⟩, nofun⟩
  refine of_eq (if_pos rfl) ?_
  refine bindE (mono ?_ (follows_processLines ⟨trivial, fun _ => rfl⟩
    (fun _ => ⟨trivial, fun _ => rfl⟩) _ answers_nil))
  rintro d x ⟨rfl, ⟨outputLines, errorLines⟩, rfl, ha⟩
  refine mono ?_ (duty_writeShardResult ha)
  rintro d x ⟨hd, hx⟩
  cases x with
  | error => exact ⟨hd, hx⟩
  | ok => exact ⟨hd, .inl hx⟩

theorem duty_processAndComplete :
    Follows (duty γ (some worker)) (fun d _ => d.Window taskID shardID) (.working taskID shardID)
      (processAndComplete γ taskID shardID).run := by
  refine liftE (mono ?_ duty_processShard)
  rintro d x ⟨hd, hx⟩
  rcases x with (e | _ | _) | _
  · exact hd
  · exact absurd rfl hx
  · exact hd
  · refine follows_orFail_last (issue (.inr ⟨hx, rfl, rfl⟩) fun y => ?_)
    cases y with
    | ok | error => exact ⟨rfl, rfl⟩

theorem duty_processLockedShard :
    Follows (duty γ (some worker)) (fun d _ => d = .idle) (.working taskID shardID)
      (processLockedShard γ worker taskID shardID) :=
  bind_of duty_processAndComplete fun _ _ hd => issue ⟨rfl, hd⟩ fun _ => rfl

theorem duty_recoverShard (shardIDs : List String) :
    Follows (duty γ (some worker)) (fun d x => d = x.elim .idle (.recovered taskID)) .idle
      (recoverShard worker taskID shardIDs) := by
  induction shardIDs with
  | nil => exact rfl
  | cons shardID shardIDs ih =>
    refine issue ⟨rfl, rfl, rfl⟩ fun x => ?_
    rcases x with e | _ | _
    · exact ih
    · exact ih
    · exact rfl

/-- A failover that leads nowhere keeps the lock it has taken over. -/
theorem duty_processTaskShards :
    Follows (duty γ (some worker)) (fun d _ => d = .idle ∨ ∃ s, d = .recovered taskID s) .idle
      (processTaskShards γ worker taskID) := by
  refine issue trivial fun x => ?_
  cases x with
  | ok =>
    refine issue ⟨rfl, rfl, rfl⟩ fun y => ?_
    rcases y with e | _ | _
    · exact .inl rfl
    · exact .inl rfl
    · refine issue (.inl ⟨rfl, rfl, rfl⟩) fun z => ?_
      cases z with
      | ok => exact mono (fun _ _ hd => .inl hd) duty_processLockedShard
      | error => exact issue ⟨rfl, rfl, rfl⟩ fun _ => .inl rfl
  | error e =>
  refine bind_of (M := fun d x => d = x.toOption.join.elim .idle (.recovered taskID)) ?_ fun d y hy => ?_
  · refine issue trivial fun z => ?_
    cases z with
    | error => exact rfl
    | ok shardIDs =>
      refine bind_of (duty_recoverShard shardIDs) fun d x hx => ?_
      cases x with
      | none | some => exact hx
  · rcases y with e | _ | shardID
    · exact .inl hy
    · exact .inl hy
    obtain rfl : d = .recovered taskID shardID := hy
    refine issue trivial fun z => ?_
    rcases z with e | _ | _
    · exact .inr ⟨shardID, rfl⟩
    · refine .inr ⟨shardID, ?_⟩
      exact if_neg fun h => by cases h.2
    · exact of_eq (if_pos ⟨rfl, rfl⟩) (mono (fun _ _ hd => .inl hd) duty_processLockedShard)

theorem duty_checkShardsAndMoveToFinalizing (instanceID : String) :
    Follows (duty γ (some worker)) (fun _ _ => True) d
      (checkShardsAndMoveToFinalizing instanceID taskID) := by
  refine issue trivial fun x => ?_
  rcases x with e | _ | _
  · trivial
  · trivial
  · refine issue (.inl rfl) fun y => ?_
    rcases y with e | _ | _
    · trivial
    · trivial
    · refine issue trivial fun now => ?_
      refine issue (.inl ⟨rfl, rfl, rfl⟩) fun z => ?_
      exact issue trivial fun _ => trivial

theorem worker_follows (γ : Gateway) (worker : Worker) :
    Follows (duty γ (some worker)) (fun _ _ => True) .idle (processSingleInProgressTask γ worker) := by
  refine issue ⟨rfl, nofun⟩ fun x => ?_
  cases x with
  | error => trivial
  | ok =>
  refine issue trivial fun y => ?_
  rcases y with e | _ | _
  · trivial
  · refine bind_of duty_processTaskShards fun d z _ => ?_
    cases z with
    | error => trivial
    | ok => exact follows_logged (duty_checkShardsAndMoveToFinalizing worker.1)
  · trivial

end

/-! ### The finalizer -/

section

variable {γ : Gateway} {worker : Option Worker}
variable {c : Collection} {d : Duty}
variable {shardID taskID : String} {rest : List String}

theorem duty_appendOutput {position : Nat} (hc : c.remaining = shardID :: rest) (hs : c.stage = .output) :
    Follows (duty γ worker) (fun d x => match x with
        | .ok _ => ∃ stage, d = .collecting { c with stage := stage } ∧
            { c with stage := stage : Collection }.OutputDone shardID
        | .error _ => d.Finalizing c.taskID) (.collecting c)
      (appendIfListed c.keys (.shardOutput c.taskID shardID) (.file c.outputFileID) position).run := by
  unfold appendIfListed
  split
  · refine follows_orFail_last (issue ⟨shardID, rest, hc, .inl ⟨rfl, hs⟩⟩ fun x => ?_)
    rcases x with e | _ | body
    · exact .inl rfl
    · exact ⟨.error, rfl, .inl rfl⟩
    · refine issue ⟨_, rfl, .inl ⟨rfl, rfl⟩⟩ fun y => ?_
      cases y with
      | error => exact .inr ⟨[], rfl⟩
      | ok => exact ⟨.error, rfl, .inl rfl⟩
  · next hl => exact ⟨c.stage, rfl, .inr ⟨hs, hl⟩⟩

/-- The other kind is appended, and the position in its file is kept. -/
theorem duty_appendError (hc : c.remaining = shardID :: rest) (ho : c.OutputDone shardID) :
    Follows (duty γ worker) (fun d x => match x with
        | .ok position => ∃ stage, d = .collecting { c with stage := stage, errorPosition := position } ∧
              { c with stage := stage, errorPosition := position : Collection }.ErrorDone shardID
        | .error _ => d.Finalizing c.taskID) (.collecting c)
      (appendIfListed c.keys (.shardError c.taskID shardID) (.file c.errorFileID) c.errorPosition).run := by
  unfold appendIfListed
  split
  · refine follows_orFail_last (issue ⟨shardID, rest, hc, .inr ⟨rfl, ho⟩⟩ fun x => ?_)
    rcases x with e | _ | body
    · exact .inl rfl
    · exact ⟨.counts, rfl, .inl rfl⟩
    · refine issue ⟨_, rfl, .inr ⟨rfl, rfl, rfl⟩⟩ fun y => ?_
      cases y with
      | error => exact .inr ⟨[], rfl⟩
      | ok => exact ⟨.counts, rfl, .inl rfl⟩
  · next hl => exact ⟨c.stage, rfl, .inr ⟨ho, hl⟩⟩

/-- Everything about a collection but its progress. -/
def Collection.SameTask (c c' : Collection) : Prop :=
  c'.taskID = c.taskID ∧ c'.task = c.task ∧ c'.outputUUID = c.outputUUID ∧
    c'.errorUUID = c.errorUUID

/-- **The loop over the completed shards collects all of them.** -/
theorem duty_appendShards (shardIDs : List String) (position : Nat) (hr : c.remaining = shardIDs)
    (hs : c.stage = .output) :
    Follows (duty γ worker) (fun d x => match x with
        | .ok r => ∃ c', d = .collecting c' ∧ c'.remaining = [] ∧ c'.stage = .output ∧
            c.SameTask c' ∧ r.2.1 = c'.errorPosition ∧ r.2.2 = c'.counts
        | .error _ => d.Finalizing c.taskID) (.collecting c)
      (appendShards c.taskID c.keys (.file c.outputFileID) (.file c.errorFileID) position
        c.errorPosition c.counts shardIDs).run := by
  induction shardIDs generalizing c position with
  | nil => exact ⟨c, rfl, hr, hs, ⟨rfl, rfl, rfl, rfl⟩, rfl, rfl⟩
  | cons shardID shardIDs ih =>
  simp only [appendShards, taskStatusChanged, Bool.false_eq_true, if_false]
  refine bindE (mono ?_ (duty_appendOutput hr hs))
  intro d x hx
  cases x with
  | error => exact hx
  | ok position' =>
  obtain ⟨stage, rfl, ho⟩ := hx
  refine bindE_of (duty_appendError (c := { c with stage := stage }) hr ho) (fun _ _ h => h) ?_
  intro d errorPosition hx
  obtain ⟨stage', rfl, he⟩ := hx
  refine liftE (issue ⟨rfl, shardIDs, hr, he⟩ fun y => ?_)
  rcases y with e | ⟨id, createdAt, _ | counts, updatedAt⟩
  · exact .inl rfl
  · exact .inl rfl
  -- the next turn of the loop starts from the collection with this shard in it
  refine follows_ret.2 (mono ?_ (ih (c := { c with
    stage := .output
    errorPosition := errorPosition
    collected := c.collected ++ [shardID]
    remaining := c.remaining.tail
    counts := ⟨c.counts.total + counts.total, c.counts.completed + counts.completed,
      c.counts.failed + counts.failed⟩ }) position' (by rw [hr]; rfl) rfl))
  intro d x hx
  cases x with
  | error | ok => exact hx

theorem duty_deleteFinalFiles (hc : c.collected = []) (hs : c.stage = .output) :
    Follows (duty γ worker) (fun d _ => d = .collecting c) (.collecting c)
      (deleteFinalFiles (.file c.outputFileID) (.file c.errorFileID)).run := by
  refine liftE (mono ?_ (follows_deleteFilesFrom _ _ (fun keys' hk => ?_) fun _ x => ?_))
  · rintro d x rfl
    cases x with
    | ok => exact rfl
    | error =>
      dsimp only
      split
      · exact rfl
      · exact rfl
  · exact .inr (.inl ⟨c, rfl, hc, hs, fun key hke => by simpa using hk hke⟩)
  · cases x <;> rfl

theorem duty_createFile (file : File) :
    Follows (duty γ worker) (fun d' _ => d' = d) d (createFile file) := by
  refine issue trivial fun x => ?_
  cases x with
  | error => exact rfl
  | ok =>
    refine ⟨trivial, fun y => ?_⟩
    cases y <;> exact rfl

theorem duty_createErrorFile (errorFileID : String) (errorPosition : Nat) (now : Int) (task : BatchTask) :
    Follows (duty γ worker) (fun d' _ => d' = d) d
      (createErrorFile errorFileID errorPosition now task).run := by
  unfold createErrorFile
  split
  · refine follows_orFail_last (mono ?_ (duty_createFile _))
    rintro d' x hd'
    cases x <;> exact hd'
  · exact rfl

theorem duty_completeTask (position : Nat) (hr : c.remaining = []) (hs : c.stage = .output) :
    Follows (duty γ worker) (fun d _ => d.Finalizing c.taskID) (.collecting c)
      (completeTask c.taskID c.task c.outputFileID c.errorFileID position c.errorPosition
        c.counts).run := by
  refine issue trivial fun now => ?_
  refine follows_orFail_of (duty_createFile _) (by rintro _ _ rfl; exact .inl rfl) ?_
  rintro d _ rfl
  refine bindE_of (duty_createErrorFile _ _ _ _) (by rintro _ _ rfl; exact .inl rfl) ?_
  rintro d _ rfl
  refine follows_try ⟨c, rfl, rfl, hr, hs, rfl, rfl, rfl, rfl⟩ (fun _ => .inr ⟨[], rfl⟩) fun _ => ?_
  refine ⟨⟨[], rfl, rfl, rfl⟩, fun z => ?_⟩
  cases z <;> exact .inr ⟨[], rfl⟩

theorem duty_collectResults (taskID : String) :
    Follows (duty γ worker) (fun d _ => d.Finalizing taskID) (.moved taskID)
      (collectResults taskID).run := by
  refine follows_try rfl (fun _ => .inl rfl) fun _ => ?_
  refine follows_try rfl (fun _ => .inl rfl) fun shardIDs => ?_
  refine follows_try (.inl rfl) (fun _ => .inr ⟨[], rfl⟩) fun _ => ?_
  refine issue trivial fun outputUUID => ?_
  refine issue trivial fun errorUUID => ?_
  refine bindE_of (duty_deleteFinalFiles rfl rfl) (by rintro _ _ rfl; exact .inl rfl) ?_
  rintro d _ rfl
  refine bindE_of (duty_appendShards shardIDs 0 rfl rfl) (fun _ _ h => h) ?_
  intro d r hx
  obtain ⟨position, errorPosition, counts⟩ := r
  obtain ⟨c', rfl, hr, hs, ⟨rfl, rfl, ho, he⟩, rfl, rfl⟩ := hx
  cases ho
  cases he
  exact duty_completeTask position hr hs

theorem duty_cleanupShardSets {keys : List ObjectKey} (statuses : List ShardStatus) :
    Follows (duty γ worker) (fun d _ => d = .ending taskID keys) (.ending taskID keys)
      (cleanupShardSets taskID statuses).run := by
  induction statuses with
  | nil => exact rfl
  | cons status statuses ih =>
  refine follows_orFail (issue trivial fun x => ?_)
  refine of_eq (h := .ending taskID keys) (by cases status <;> cases x <;> rfl) ?_
  cases x with
  | error => exact rfl
  | ok =>
    refine ⟨⟨keys, rfl⟩, fun y => ?_⟩
    cases y with
    | error => exact rfl
    | ok => exact ih

/-- **The clean-up** deletes what it has listed. -/
theorem duty_cleanupTaskShardMeta (hd : d.Finalizing taskID) :
    Follows (duty γ worker) (fun d' _ => d'.Finalizing taskID) d (cleanupTaskShardMeta taskID).run := by
  refine bindE (follows_orFail (issue hd fun x => ?_))
  obtain ⟨others, hg, -⟩ := hd.giveUp (x.toOption.getD [])
  refine of_eq hg ?_
  cases x with
  | error => exact .inr ⟨_, rfl⟩
  | ok =>
  refine follows_try (.inr ⟨_, rfl⟩) (fun _ => .inr ⟨_, rfl⟩) fun _ => ?_
  refine follows_orFail_last (mono ?_ (follows_deleteFilesFrom _ _
    (fun keys' hk => .inr (.inr ⟨taskID, _, rfl, fun key hke => ?_⟩)) fun _ x => ?_))
  · rintro d x rfl
    cases x with
    | error => exact .inr ⟨_, rfl⟩
    | ok => exact mono (fun d _ hd => .inr ⟨_, hd⟩) (duty_cleanupShardSets _)
  · rw [append_assoc]
    exact mem_append_right _ (hk hke)
  · cases x <;> rfl

theorem duty_finalizeLocked (instanceID taskID : String) :
    Follows (duty γ worker) (fun _ _ => True) (.holding taskID) (finalizeLocked instanceID taskID) := by
  refine bind_of (M := fun d _ => d.Finalizing taskID) ?_ fun d x hd => ?_
  · refine follows_orFail (issue trivial fun now => ⟨.inr ⟨rfl, rfl, rfl⟩, fun x => ?_⟩)
    cases x with
    | error => exact .inr ⟨[], rfl⟩
    | ok => exact duty_collectResults taskID
  have hc : Follows (duty γ worker) (fun _ _ => True) d (do
      logged (cleanupTaskShardMeta taskID).run
      logged (call (.releaseTaskLock taskID instanceID))) :=
    bind (follows_logged (mono (fun _ _ _ => ⟨trivial, fun _ => trivial⟩) (duty_cleanupTaskShardMeta hd)))
  rcases x with (e | _ | _) | _
  · exact hc
  · exact hc
  · exact ⟨trivial, fun _ => trivial⟩
  · exact hc

theorem finalizer_follows (γ : Gateway) (instanceID : String) :
    Follows (duty γ none) (fun _ _ => True) .idle (processSingleFinalizingTask instanceID) := by
  refine issue ⟨rfl, fun _ => rfl⟩ fun x => ?_
  cases x with
  | error => trivial
  | ok taskID =>
    refine issue (.inr rfl) fun y => ?_
    rcases y with e | _ | _
    · trivial
    · trivial
    · exact duty_finalizeLocked instanceID taskID

end

/-! ### The goroutines -/

/-- The name under which a goroutine takes shards. -/
def Proc.asWorker : Proc → Option Worker
  | .worker instanceID workerID => some (instanceID, workerID)
  | _ => none

theorem eq_of_asWorker {j : Proc} {worker : Worker} (hi : some worker = i.asWorker)
    (hj : some worker = j.asWorker) : i = j := by
  cases i <;> cases hi
  cases j <;> cases hj
  rfl

def Proc.onDuty : Proc → Bool
  | .worker .. | .finalizer _ => true
  | _ => false

abbrev duties (γ : Gateway) : Proc → Protocol Cmd Cmd.Resp Duty := fun i => duty γ i.asWorker

theorem onDuty_follows (γ : Gateway) (hi : i.onDuty = true) (j : Input) :
    (program γ i j).Follows (duties γ i) (fun d _ => (duties γ i).final d) (duties γ i).start := by
  cases i with
  | worker instanceID workerID => exact worker_follows γ (instanceID, workerID)
  | finalizer instanceID => exact finalizer_follows γ instanceID
  | _ => cases hi

end Llumnix.Batch
