/-
**The reactors and handlers of the batch service, as programs over the store.**

A translation of `pkg/gateway/batch/reactor.go` and of the create and cancel handlers in `handlers.go` into
programs over the commands of `Llumnix/BatchStore.lean`.  Every Redis command, every call to the object
store and every request to the inference service is one command; what lies between two commands is pure.
Sleeping is left out: a process may be delayed at any point anyway.

Errors are values, as in the source; the texts they are wrapped in are kept.
-/

import Llumnix.BatchStore
import Llumnix.Processes

namespace Llumnix.Batch

open Interaction

/-! ### Programs and errors -/

abbrev GatewayM (α : Type) : Type := Prog Cmd Cmd.Resp α

def call (r : Remote) : GatewayM (Except String r.Val) := Prog.issue (Cmd.remote r)

def newUUID : GatewayM String := Prog.issue Cmd.newUUID

/-- `time.Now`, in Unix milliseconds. -/
def timeNow : GatewayM Int := Prog.issue Cmd.timeNow

def httpDo (request : HttpRequest) : GatewayM (Except String HttpResponse) :=
  Prog.issue (Cmd.httpDo request)

def unix (ms : Int) : Int := ms / 1000

/-- Writing the response of a handler. -/
def reply (r : Reply) : GatewayM Unit := Prog.issue (Cmd.reply r)

/-- How a function of the source ends other than well. -/
inductive Failure
  | err (message : String)
  | statusChanged
  | panic
  deriving DecidableEq

abbrev Attempt (α : Type) : Type := ExceptT Failure (Prog Cmd Cmd.Resp) α

/-- `if err != nil { return fmt.Errorf(message + "%v", err) }`. -/
def orFail {α : Type} (message : String) (x : GatewayM (Except String α)) : Attempt α :=
  ExceptT.mk do
    match ← x with
    | .ok a => return .ok a
    | .error e => return .error (.err (message ++ e))

/-- The same for a function that can end in other ways. -/
def annotate {α : Type} (message : String) (x : Attempt α) : Attempt α :=
  ExceptT.mk do
    match ← x.run with
    | .error (.err e) => return .error (.err (message ++ e))
    | y => return y

/-- Running a part whose failure is only logged. -/
def logged {ε α : Type} (x : GatewayM (Except ε α)) : GatewayM Unit := do
  let _ ← x
  return ()

/-- What the batch service of a gateway is configured with.  The flags are natural numbers: with a negative
number of retries no request is sent, and the source reads the status of a nil response. -/
structure Gateway where
  codec : Codec
  port : Nat
  batchLinesPerShard : Nat
  batchRequestRetryTimes : Nat

/-- The flag that the two `start…LockRenewalAndStatusMonitoring` would raise. Both stop their ticker in a
deferred call of their own, so the goroutine they launch waits for ever: it extends no lock and raises no
flag. -/
def taskStatusChanged : Bool := false

/-! ### Object store -/

def readLines (key : ObjectKey) : GatewayM (Except String (List Bytes)) := do
  match ← call (.getObject key) with
  | .error e => return .error ("failed to get object from OSS: " ++ e)
  | .ok none => return .error "failed to get object from OSS: NoSuchKey"
  | .ok (some content) => return .ok (splitLines content)

def writeLines (key : ObjectKey) (lines : List Bytes) : GatewayM (Except String Unit) := do
  match ← call (.putObject key (joinLines lines)) with
  | .error e => return .error ("failed to upload file to OSS: " ++ e)
  | .ok () => return .ok ()

/-- The loop of `DeleteFiles`: a thousand paths at a time, going on after as many as were reported deleted. -/
def deleteFilesFrom : Nat → List ObjectKey → GatewayM (Except String Unit)
  | 0, _ => return .ok ()
  | fuel + 1, keys =>
    if keys.isEmpty then return .ok ()
    else do
      match ← call (.deleteObjects (keys.take 1000)) with
      | .error e => return .error ("failed to delete batch of files from OSS: " ++ e)
      | .ok deleted => deleteFilesFrom fuel (keys.drop deleted)

def deleteFiles (keys : List ObjectKey) : GatewayM (Except String Unit) :=
  deleteFilesFrom keys.length keys

/-- `AppendToObject`: a source that does not exist is skipped. -/
def appendToObject (source destination : ObjectKey) (position : Nat) :
    GatewayM (Except String Nat) := do
  match ← call (.getObject source) with
  | .error e => return .error ("failed to download object from OSS: " ++ e)
  | .ok none => return .ok position
  | .ok (some body) =>
    match ← call (.appendObject destination body position) with
    | .error e => return .error ("failed to append object to OSS: " ++ e)
    | .ok next => return .ok next

/-! ### Redis methods of several commands -/

def createFile (file : File) : GatewayM (Except String Unit) := do
  match ← call (.hsetFile file) with
  | .error e => return .error e
  | .ok () => call (.addFileToSet file.id)

variable (codec : Codec) (γ : Gateway) (worker : Worker) (instanceID taskID shardID : String)
variable (task : BatchTask)

def createTask : GatewayM (Except String Unit) := do
  match ← call (.hsetTask task) with
  | .error e => return .error e
  | .ok () =>
    match ← call (.addTaskToGlobalSet task.id) with
    | .error e => return .error e
    | .ok () => call (.saddPending task.id)

/-- `MoveTaskAndUpdateStatusAtomically`, with the time it stamps. -/
def moveTaskAndUpdateStatusAtomically (fromSet toSet : BatchTaskStatus) : GatewayM (Except String Unit) := do
  let now ← timeNow
  call (.moveTaskAndUpdateStatus taskID fromSet toSet (unix now))

/-- `UpdateTaskFailure`, with the time it stamps. -/
def updateTaskFailure (batchErr : BatchErrors) : GatewayM (Except String Unit) := do
  let now ← timeNow
  call (.updateTaskFailure taskID batchErr (unix now))

def removeShardInfo (status : ShardStatus) : GatewayM (Except String Unit) := do
  match ← call (.getShardsInStatus taskID status) with
  | .error e => return .error e
  | .ok shardIDs => call (.delShardInfo taskID shardIDs status)

/-- The inner loop of `GetExpiredTasks`: tasks that cannot be read are skipped. -/
def selectExpired (now : Int) : List String → GatewayM (List String)
  | [] => return []
  | taskID :: taskIDs => do
      match ← call (.getTaskExpiresAt taskID) with
      | .error _ => selectExpired now taskIDs
      | .ok expiresAt =>
        let rest ← selectExpired now taskIDs
        return if expiresAt * 1000 < now then taskID :: rest else rest

/-- The outer loop of `GetExpiredTasks`. -/
def getExpiredTasksIn (now : Int) : List BatchTaskStatus → GatewayM (Except String (List String))
  | [] => return .ok []
  | status :: statuses => do
      match ← call (.getTasksInStatus status) with
      | .error e => return .error e
      | .ok taskIDs =>
        let expired ← selectExpired now taskIDs
        match ← getExpiredTasksIn now statuses with
        | .error e => return .error e
        | .ok rest => return .ok (expired ++ rest)

def getExpiredTasks (statuses : List BatchTaskStatus) : GatewayM (Except String (List String)) := do
  let now ← timeNow
  getExpiredTasksIn now statuses

/-! ### Clean-up -/

def cleanupShardOSSFiles : Attempt Unit := do
  let inputObjects ← orFail ("failed to list objects for task " ++ taskID ++ ": ")
    (call (.listShardInputs taskID))
  let outputObjects ← orFail ("failed to list objects for task " ++ taskID ++ ": ")
    (call (.listShardOutputs taskID))
  orFail ("Failed to delete files for task " ++ taskID ++ ": ")
    (deleteFiles (inputObjects ++ outputObjects))

/-- The loop of `cleanupShardMeta`. -/
def cleanupShardSets (taskID : String) : List ShardStatus → Attempt Unit
  | [] => return ()
  | status :: statuses => do
      orFail "Failed to clean shard meta: " (removeShardInfo taskID status)
      cleanupShardSets taskID statuses

def cleanupShardMeta : Attempt Unit :=
  cleanupShardSets taskID [.pending, .inProgress, .completed, .failed]

def cleanupTaskShardMeta : Attempt Unit := do
  cleanupShardOSSFiles taskID
  cleanupShardMeta taskID

/-! ### Validating -/

/-- The endpoints that `ValidateBatchFile` accepts in a request line. -/
def lineEndpoints : List String := ["/v1/responses", "/v1/chat/completions", "/v1/completions"]

/-- The checks of `ValidateBatchFile` on one line that is not blank; `lineNumber` counts such lines. -/
def validateLine (lineNumber : Nat) (line : Bytes) : Except String Unit :=
  if lineNumber ≥ 50000 then
    .error ("file line count exceeds maximum allowed lines of 50000. Current line count: "
      ++ toString lineNumber)
  else
    match codec.unmarshalRequest line with
    | .error e => .error ("invalid JSON format at line " ++ toString lineNumber ++ ": " ++ e)
    | .ok request =>
      if request.customID = "" then
        .error ("missing custom_id at line " ++ toString lineNumber)
      else if request.method = "" then
        .error ("missing method at line " ++ toString lineNumber)
      else if request.method ≠ "POST" then
        .error ("invalid method '" ++ request.method ++ "' at line " ++ toString lineNumber
          ++ ", expected 'POST'")
      else if request.url = "" then
        .error ("missing url at line " ++ toString lineNumber)
      else if request.url ∉ lineEndpoints then
        .error ("invalid url '" ++ request.url ++ "' at line " ++ toString lineNumber
          ++ ", must be one of '/v1/responses', '/v1/chat/completions', or '/v1/completions'")
      else if request.body.isNone then
        .error ("missing body at line " ++ toString lineNumber)
      else .ok ()

/-- The loop of `ValidateBatchFile`. -/
def validateLines (codec : Codec) : Nat → List Bytes → Except String Unit
  | _, [] => .ok ()
  | lineNumber, line :: lines =>
    if (trimSpace line).isEmpty then validateLines codec lineNumber lines
    else
      match validateLine codec lineNumber (trimSpace line) with
      | .error e => .error e
      | .ok () => validateLines codec (lineNumber + 1) lines

def validateBatchFile (fileLines : List Bytes) : Except String Unit :=
  validateLines codec 0 fileLines

/-- `validateInputFile`: an invalid file fails the task. -/
def validateInputFile (fileLines : List Bytes) : Attempt Unit :=
  match validateBatchFile γ.codec fileLines with
  | .ok () => return ()
  | .error e => do
      logged (updateTaskFailure taskID ⟨[⟨"validation_error", e⟩]⟩)
      logged (call (.moveTask taskID .validating .failed))
      throw (.err ("batch file validation failed: " ++ e))

def createFileShard (lines : List Bytes) : Attempt Unit := do
  orFail "failed to write shard file to OSS: " (writeLines (.shardInput taskID shardID) lines)
  let now ← (timeNow : GatewayM Int)
  orFail "failed to create file shard: " (call (.createOrUpdateFileShard taskID shardID
    { id := shardID
      createdAt := unix now
      requestCounts := some ⟨lines.length, 0, 0⟩
      updatedAt := unix now }))
  orFail "failed to add shard to pending list: " (call (.addShardToPendingList taskID shardID))

/-- The loop of `shardInputFile`, which returns the numbers of lines and of shards; `currentShardLines` is
being filled. -/
def shardLinesFrom (γ : Gateway) (taskID : String) (shardIndex lineCount : Nat)
    (currentShardLines : List Bytes) : List Bytes → Attempt (Nat × Nat)
  | [] =>
    if currentShardLines.isEmpty then return (lineCount, shardIndex)
    else do
      createFileShard taskID (toString shardIndex) currentShardLines
      return (lineCount, shardIndex + 1)
  | line :: lines =>
    if (trimSpace line).isEmpty then
      shardLinesFrom γ taskID shardIndex lineCount currentShardLines lines
    else if taskStatusChanged then throw .statusChanged
    else if (currentShardLines ++ [trimSpace line]).length ≥ γ.batchLinesPerShard then do
      createFileShard taskID (toString shardIndex) (currentShardLines ++ [trimSpace line])
      shardLinesFrom γ taskID (shardIndex + 1) (lineCount + 1) [] lines
    else
      shardLinesFrom γ taskID shardIndex (lineCount + 1) (currentShardLines ++ [trimSpace line]) lines

def shardInputFile (inputFileLines : List Bytes) : Attempt (Nat × Nat) :=
  shardLinesFrom γ taskID 0 0 [] inputFileLines

/-- The end of `processValidatingTask`. The object that is written back carries the status the task had when
it was loaded. -/
def finishValidating (lineCount : Nat) : Attempt Unit := do
  let now ← (timeNow : GatewayM Int)
  logged (call (.updateTaskFields taskID { task with
    requestCounts := some ⟨lineCount, 0, 0⟩
    updatedAt := some (unix now) }))
  orFail "failed to move task to in_progress set and update status atomically: "
    (moveTaskAndUpdateStatusAtomically taskID .validating .inProgress)

/-- The body of `processValidatingTask` once the task is in the `validating` set. -/
def validateAndShard : Attempt Unit := do
  let inputFileLines ← orFail "" (readLines (.file task.inputFileID))
  validateInputFile γ taskID inputFileLines
  match ← ExceptT.lift (shardInputFile γ taskID inputFileLines).run with
  | .error .statusChanged => return ()
  | .error (.err e) => throw (.err ("failed to shard input file: " ++ e))
  | .error .panic => throw .panic
  | .ok (lineCount, _) => finishValidating taskID task lineCount

/-- The beginning of `processValidatingTask`: a fresh task is moved to `validating`, a recovered one is
cleaned up. -/
def enterValidating (status : BatchTaskStatus) : Attempt Unit :=
  if status ≠ .validating then
    orFail "failed to move task to validating set and update status atomically: "
      (moveTaskAndUpdateStatusAtomically taskID .pending .validating)
  else annotate ("failed to cleanup task " ++ taskID ++ " shard info: ") (cleanupTaskShardMeta taskID)

def processValidatingTask : Attempt Unit := do
  let task ← orFail "failed to get task: " (call (.getTask taskID))
  enterValidating taskID task.status
  validateAndShard γ taskID task

/-- The loop of `handleValidatingFailover`. -/
def recoverStaleTask (instanceID : String) : List String → GatewayM (Option String)
  | [] => return none
  | taskID :: taskIDs => do
      match ← call (.getTask taskID) with
      | .error _ => recoverStaleTask instanceID taskIDs
      | .ok task =>
        let now ← timeNow
        if now - task.updatedAt.getD 0 * 1000 > defaultLockExpiration then
          match ← call (.acquireTaskLock taskID instanceID defaultLockExpiration) with
          | .ok true => return some taskID
          | _ => recoverStaleTask instanceID taskIDs
        else recoverStaleTask instanceID taskIDs

def handleValidatingFailover : GatewayM (Option String) := do
  match ← call (.getTasksInStatus .validating) with
  | .error _ => return none
  | .ok taskIDs => recoverStaleTask instanceID taskIDs

/-- The part of `processSingleValidatingTask` that runs under the task lock, with its deferred
release. -/
def validateLocked : GatewayM Unit := do
  logged (processValidatingTask γ taskID).run
  logged (call (.releaseTaskLock taskID instanceID))

def processSingleValidatingTask : GatewayM Unit := do
  match ← call (.getTaskInStatus .pending) with
  | .error _ =>
    match ← handleValidatingFailover instanceID with
    | some taskID => validateLocked γ instanceID taskID
    | none => return ()
  | .ok taskID =>
    match ← call (.acquireTaskLock taskID instanceID defaultLockExpiration) with
    | .ok true => validateLocked γ instanceID taskID
    | _ => return ()

/-! ### In progress -/

def createResponse (customID requestID : String)
    (resp : Option HttpResponse) (respBody : Bytes) (errMessage : String) :
    Bytes × Option BatchRequestError :=
  let batchError : Option BatchRequestError :=
    if errMessage ≠ "" then some ⟨"request_error", errMessage⟩ else none
  match codec.marshalResponse
      { id := taskID
        customID := customID
        response := some ⟨resp.elim 0 HttpResponse.statusCode, requestID, respBody⟩
        error := batchError } with
  | .ok responseLine => (responseLine, batchError)
  | .error marshalErr =>
    let batchError : BatchRequestError :=
      ⟨"marshal_error", "failed to marshal response: " ++ marshalErr⟩
    (((codec.marshalResponse
        { id := taskID
          customID := customID
          response := none
          error := some batchError }).toOption).getD [], some batchError)

/-- The retry loop of `processRequest`: the answer of the last attempt made. -/
def sendWithRetry (request : HttpRequest) : Nat → GatewayM (Except String HttpResponse)
  | 0 => httpDo request
  | retries + 1 => do
      match ← httpDo request with
      | .ok resp => if resp.statusCode < 500 then return .ok resp else sendWithRetry request retries
      | .error _ => sendWithRetry request retries

/-- What `processRequest` makes of the last answer. -/
def responseOf (customID requestID : String)
    (answer : Except String HttpResponse) : Bytes × Option BatchRequestError :=
  match answer with
  | .error e => createResponse codec taskID customID requestID none [] e
  | .ok resp =>
    if resp.statusCode ≥ 500 then
      createResponse codec taskID customID requestID (some resp) []
        ("server error: " ++ toString resp.statusCode)
    else
      createResponse codec taskID customID requestID (some resp) resp.body
        (resp.readError.elim "" fun e => "failed to read response: " ++ e)

/-- `processRequest`: the response line, and whether it is an error. -/
def processRequest (line : Bytes) (task : BatchTask) (taskID : String) : GatewayM (Bytes × Bool) := do
  let requestID ← newUUID
  match γ.codec.unmarshalRequest line with
  | .error e =>
    let r := createResponse γ.codec taskID ((γ.codec.extractCustomID line).getD "") requestID none []
      ("unexpected parsing error: " ++ e)
    return (r.1, r.2.isSome)
  | .ok request =>
    let answer ← sendWithRetry
      { url := "http://127.0.0.1:" ++ toString γ.port ++ task.endpoint
        requestID := requestID
        token := task.token.map fun token => "Bearer " ++ token
        body := request.body.getD [] } γ.batchRequestRetryTimes
    let r := responseOf γ.codec taskID request.customID requestID answer
    return (r.1, r.2.isSome)

/-- The loop of `processShard` over the lines of the shard. -/
def processLines (γ : Gateway) (task : BatchTask) (taskID : String) (outputLines errorLines : List Bytes) :
    List Bytes → Attempt (List Bytes × List Bytes)
  | [] => return (outputLines, errorLines)
  | line :: lines =>
    if taskStatusChanged then throw .statusChanged
    else if line.isEmpty then processLines γ task taskID outputLines errorLines lines
    else do
      let (responseLine, isError) ← processRequest γ line task taskID
      if isError then
        processLines γ task taskID outputLines (errorLines ++ [responseLine]) lines
      else processLines γ task taskID (outputLines ++ [responseLine]) errorLines lines

/-- Uploading the response lines of one kind, if there are any. -/
def writeIfAny (message : String) (key : ObjectKey) (lines : List Bytes) : Attempt Unit :=
  if lines.isEmpty then return () else orFail message (writeLines key lines)

/-- The end of `processShard`: upload the response lines and store the counts. -/
def writeShardResult (outputLines errorLines : List Bytes) : Attempt Unit := do
  writeIfAny "failed to write output file to OSS: " (.shardOutput taskID shardID) outputLines
  writeIfAny "failed to write output error file to OSS: " (.shardError taskID shardID) errorLines
  let shard ← orFail "failed to get shard: " (call (.getFileShard taskID shardID))
  let now ← (timeNow : GatewayM Int)
  orFail "failed to update shard: " (call (.createOrUpdateFileShard taskID shardID
    { shard with
      requestCounts := some
        ⟨outputLines.length + errorLines.length, outputLines.length, errorLines.length⟩
      updatedAt := unix now }))

/-- `processShard`: a shard whose task has left `in_progress` is skipped, which counts as success. -/
def processShard : Attempt Unit := do
  let inProgress ← orFail "failed to check if task is in in_progress set: "
    (call (.taskInSet .inProgress taskID))
  if inProgress then
    let task ← orFail "failed to get task: " (call (.getTask taskID))
    orFail "failed to clean files on OSS: "
      (deleteFiles [.shardOutput taskID shardID, .shardError taskID shardID])
    let lines ← orFail "failed to read shard file from OSS: "
      (readLines (.shardInput taskID shardID))
    let (outputLines, errorLines) ← processLines γ task taskID [] [] lines
    writeShardResult taskID shardID outputLines errorLines
  else return ()

/-- The loop of `handleInProgressShardFailover`. -/
def recoverShard (worker : Worker) (taskID : String) : List String → GatewayM (Option String)
  | [] => return none
  | shardID :: shardIDs => do
      match ← call (.acquireOrRecoverShardLock taskID shardID worker defaultLockExpiration) with
      | .ok true => return some shardID
      | _ => recoverShard worker taskID shardIDs

def handleInProgressShardFailover : GatewayM (Except Failure (Option String)) := do
  match ← call (.getShardsInStatus taskID .inProgress) with
  | .error e => return .error (.err ("failed to get in-progress shards: " ++ e))
  | .ok shardIDs => return .ok (← recoverShard worker taskID shardIDs)

/-- The part of `processTaskShards` after the deferred release has been installed. -/
def processAndComplete : Attempt Unit := do
  match ← ExceptT.lift (processShard γ taskID shardID).run with
  | .error .statusChanged => orFail "" (call (.moveShard taskID shardID .inProgress .failed))
  | .error (.err e) =>
    throw (.err ("failed to process shard " ++ shardID ++ " of task " ++ taskID ++ ": " ++ e))
  | .error .panic => throw .panic
  | .ok () =>
    orFail ("failed to move shard " ++ shardID ++ " of task " ++ taskID ++ " to completed: ")
      (call (.moveShard taskID shardID .inProgress .completed))

/-- The same, with the release. -/
def processLockedShard : GatewayM (Except Failure Unit) := do
  let result ← (processAndComplete γ taskID shardID).run
  logged (call (.releaseShardLock taskID shardID worker))
  return result

/-- `processTaskShards`: take a pending shard, or recover one that is in progress and whose lock is
gone. -/
def processTaskShards : GatewayM (Except Failure Unit) := do
  match ← call (.getShardInStatus taskID .pending) with
  | .ok shardID =>
    match ← call (.acquireShardLock taskID shardID worker defaultLockExpiration) with
    | .ok true =>
      match ← call (.moveShard taskID shardID .pending .inProgress) with
      | .ok () => processLockedShard γ worker taskID shardID
      | .error e => do
          logged (call (.releaseShardLock taskID shardID worker))
          return .error (.err ("failed to move shard " ++ shardID ++ " of task " ++ taskID
            ++ " to in_progress: " ++ e))
    | _ => return .ok ()
  | .error _ =>
    match ← handleInProgressShardFailover worker taskID with
    | .ok (some shardID) =>
      match ← call (.taskInSet .inProgress taskID) with
      | .ok true => processLockedShard γ worker taskID shardID
      | _ => return .ok ()
    | _ => return .ok ()

def checkShardsAndMoveToFinalizing : GatewayM (Except String Bool) := do
  match ← call (.checkIfAllShardsAreCompleted taskID) with
  | .error e => return .error e
  | .ok false => return .ok false
  | .ok true =>
    match ← call (.acquireTaskLock taskID instanceID defaultLockExpiration) with
    | .ok true => do
        let moved ← moveTaskAndUpdateStatusAtomically taskID .inProgress .finalizing
        logged (call (.releaseTaskLock taskID instanceID))
        return moved.map fun _ => true
    | _ => return .ok false

def processSingleInProgressTask : GatewayM Unit := do
  match ← call (.getTaskInStatus .inProgress) with
  | .error _ => return ()
  | .ok taskID =>
    match ← call (.taskInSet .validating taskID) with
    | .ok false =>
      match ← processTaskShards γ worker taskID with
      | .ok () => logged (checkShardsAndMoveToFinalizing worker.1 taskID)
      | .error _ => return ()
    | _ => return ()

/-! ### Finalizing -/

/-- Appending one kind of result of a shard to a final file, if the shard has it. -/
def appendIfListed (keys : List ObjectKey) (source destination : ObjectKey) (position : Nat) :
    Attempt Nat :=
  if source ∈ keys then orFail "failed to read shard output file: "
    (appendToObject source destination position)
  else return position

/-- The loop of `processFinalizingTask`. A shard record that cannot be read is a nil dereference. -/
def appendShards (taskID : String) (keys : List ObjectKey) (output error : ObjectKey)
    (outputPosition errorPosition : Nat) (counts : RequestCounts) :
    List String → Attempt (Nat × Nat × RequestCounts)
  | [] => return (outputPosition, errorPosition, counts)
  | shardID :: shardIDs =>
    if taskStatusChanged then throw .statusChanged
    else do
      let outputPosition ← appendIfListed keys (.shardOutput taskID shardID) output outputPosition
      let errorPosition ← appendIfListed keys (.shardError taskID shardID) error errorPosition
      match ← (call (.getFileShard taskID shardID) : GatewayM _) with
      | .ok { requestCounts := some c, .. } =>
        appendShards taskID keys output error outputPosition errorPosition
          ⟨counts.total + c.total, counts.completed + c.completed, counts.failed + c.failed⟩
          shardIDs
      | _ => throw .panic

def resultFile (fileID filename : String) (bytes : Nat) (now : Int) (task : BatchTask) : File where
  id := fileID
  object := "file"
  bytes := bytes
  createdAt := now
  expiresAt := task.outputExpiresAfter.elim 0 fun after => now + after.seconds
  filename := filename
  purpose := "batch_output"

/-- The record of the error file, if there is one. -/
def createErrorFile (errorFileID : String) (errorPosition : Nat) (now : Int) (task : BatchTask) :
    Attempt Unit :=
  if errorPosition > 0 then
    orFail "failed to create error file record: "
      (createFile (resultFile errorFileID "error.jsonl" errorPosition now task))
  else return ()

/-- The end of `processFinalizingTask`: record the result files and complete the task. -/
def completeTask (outputFileID errorFileID : String)
    (outputPosition errorPosition : Nat) (counts : RequestCounts) : Attempt Unit := do
  let now ← (timeNow : GatewayM Int)
  orFail "failed to create output file record: "
    (createFile (resultFile outputFileID "output.jsonl" outputPosition (unix now) task))
  createErrorFile errorFileID errorPosition (unix now) task
  orFail "failed to update task fields and status: " (call (.updateTaskFields taskID { task with
    completedAt := some (unix now)
    outputFileID := some outputFileID
    updatedAt := some (unix now)
    status := .completed
    requestCounts := some counts
    errorFileID := if errorPosition > 0 then some errorFileID else task.errorFileID }))
  logged (call (.moveTask taskID .finalize .completed))

/-- Making room for the final files; an error that mentions `NoSuchKey` is taken for a file that does
not exist. -/
def deleteFinalFiles (output error : ObjectKey) : Attempt Unit := do
  match ← (deleteFiles [output, error] : GatewayM _) with
  | .error e =>
    if "NoSuchKey".toList <:+: e.toList then return ()
    else throw (.err ("failed to delete: " ++ e))
  | .ok () => return ()

/-- `processFinalizingTask` once the task is in the `finalize` set. -/
def collectResults : Attempt Unit := do
  let task ← orFail "failed to get task: " (call (.getTask taskID))
  let shardIDs ← orFail "failed to get completed shards: " (call (.getShardsInStatus taskID .completed))
  let keys ← orFail "failed to list prefix: " (call (.listShardOutputs taskID))
  let outputFileID := "batch_output_" ++ (← (newUUID : GatewayM String))
  let errorFileID := "batch_error_" ++ (← (newUUID : GatewayM String))
  deleteFinalFiles (.file outputFileID) (.file errorFileID)
  let (outputPosition, errorPosition, counts) ←
    appendShards taskID keys (.file outputFileID) (.file errorFileID) 0 0 ⟨0, 0, 0⟩ shardIDs
  completeTask taskID task outputFileID errorFileID outputPosition errorPosition counts

def processFinalizingTask : Attempt Unit := do
  orFail "failed to move task to finalize set: "
    (moveTaskAndUpdateStatusAtomically taskID .finalizing .finalize)
  collectResults taskID

/-- The part of `processSingleFinalizingTask` under the task lock. A panic skips the clean-up, but not the
deferred release. -/
def finalizeLocked : GatewayM Unit := do
  match ← (processFinalizingTask taskID).run with
  | .error .panic => logged (call (.releaseTaskLock taskID instanceID))
  | _ => do
      logged (cleanupTaskShardMeta taskID).run
      logged (call (.releaseTaskLock taskID instanceID))

def processSingleFinalizingTask : GatewayM Unit := do
  match ← call (.getTaskInStatus .finalizing) with
  | .error _ => return ()
  | .ok taskID =>
    match ← call (.acquireTaskLock taskID instanceID defaultLockExpiration) with
    | .ok true => finalizeLocked instanceID taskID
    | _ => return ()

/-! ### Cancelling -/

/-- `ExtendTaskLock`, as often as the ticker has fired. -/
def extendTimes (instanceID taskID : String) : Nat → GatewayM Unit
  | 0 => return ()
  | n + 1 => do
      logged (call (.extendTaskLock taskID instanceID defaultLockExpiration))
      extendTimes instanceID taskID n

/-- The keep-alive goroutine of `processCancellingTask`, between two steps of the main one. -/
def keepAlive : GatewayM Unit := do
  extendTimes instanceID taskID (← Prog.issue Cmd.tickerFired)

/-- The loop of `handleShardCancellation`. -/
def failPendingShards (taskID : String) : List String → GatewayM Unit
  | [] => return ()
  | shardID :: shardIDs => do
      logged (call (.moveShard taskID shardID .pending .failed))
      failPendingShards taskID shardIDs

def handleShardCancellation : Attempt Unit := do
  let shardIDs ← orFail "failed to get pending shards: " (call (.getShardsInStatus taskID .pending))
  failPendingShards taskID shardIDs
  let inProgressShardIDs ← orFail "failed to get in-progress shards: "
    (call (.getShardsInStatus taskID .inProgress))
  if inProgressShardIDs ≠ [] then
    throw (.err ("task " ++ taskID ++ " has " ++ toString inProgressShardIDs.length
      ++ " in-progress shards that must complete before cancellation can proceed"))

/-- `processCancellingTask`, the main goroutine. -/
def cancelTask : Attempt Unit := do
  annotate "failed to handle file cancellation: " (handleShardCancellation taskID)
  annotate "failed to clean up cancelling task files: " (cleanupTaskShardMeta taskID)
  orFail "failed to move task to cancelled set: "
    (moveTaskAndUpdateStatusAtomically taskID .cancelling .cancelled)

def processCancellingTask : GatewayM (Except Failure Unit) :=
  Prog.alongside (keepAlive instanceID taskID) (cancelTask taskID).run

/-- The part of `processSingleCancellingTask` between taking the lock and its deferred release. -/
def cancelUnlessActive : GatewayM Unit := do
  match ← call (.taskInSet .validating taskID) with
  | .ok inValidating =>
    match ← call (.taskInSet .inProgress taskID) with
    | .ok inProgress =>
      if inValidating || inProgress then return ()
      else logged (processCancellingTask instanceID taskID)
    | .error _ => return ()
  | .error _ => return ()

def processSingleCancellingTask : GatewayM Unit := do
  match ← call (.getTaskInStatus .cancelling) with
  | .error _ => return ()
  | .ok taskID =>
    match ← call (.acquireTaskLock taskID instanceID defaultLockExpiration) with
    | .ok true => do
        cancelUnlessActive instanceID taskID
        logged (call (.releaseTaskLock taskID instanceID))
    | _ => return ()

/-! ### Expiring -/

/-- The part of `processExpiredTask` under the task lock: the source set is whatever status the hash
names now. -/
def expireLocked : Attempt Unit := do
  let taskStatus ← orFail ("failed to get task " ++ taskID ++ " stats: ") (call (.getTaskStatus taskID))
  orFail ("failed to move task from " ++ taskStatus.string ++ " to expired: ")
    (moveTaskAndUpdateStatusAtomically taskID taskStatus .expired)

def processExpiredTask : GatewayM (Except Failure Unit) := do
  match ← call (.acquireTaskLock taskID instanceID defaultLockExpiration) with
  | .ok true => do
      let result ← (expireLocked taskID).run
      logged (call (.releaseTaskLock taskID instanceID))
      return result
  | _ => return .error (.err "failed to lock task")

/-- The loop of `processExpiredTasks`. -/
def expireAll (instanceID : String) : List String → GatewayM Unit
  | [] => return ()
  | taskID :: taskIDs => do
      logged (processExpiredTask instanceID taskID)
      expireAll instanceID taskIDs

def processExpiredTasks : GatewayM Unit := do
  match ← getExpiredTasks [.pending, .validating, .inProgress, .finalizing] with
  | .error _ => return ()
  | .ok expiredTaskIDs => expireAll instanceID expiredTaskIDs

/-! ### Handlers -/

/-- The decoded body of a create request, and the bearer token of its header. -/
structure CreateRequest where
  inputFileID : String
  endpoint : String
  completionWindow : String
  outputExpiresAfter : Option OutputExpiresAfter
  token : Option String
  deriving DecidableEq

def taskEndpoints : List String :=
  ["/v1/responses", "/v1/chat/completions", "/v1/embeddings", "/v1/completions"]

variable (request : CreateRequest)

/-- The checks of `handleCreateBatchTask` before it looks up the input file. -/
def checkCreateRequest : Option Reply :=
  if request.outputExpiresAfter.any fun after => after.anchor ≠ "created_at" then
    some (.error "output_expires_after.anchor must be 'created_at'" 400)
  else if request.outputExpiresAfter.any fun after =>
      after.seconds < 3600 || after.seconds > 2592000 then
    some (.error "output_expires_after.seconds must be between 3600 (1 hour) and 2592000 (30 days)" 400)
  else if request.inputFileID = "" then some (.error "input_file_id is required" 400)
  else if request.endpoint = "" then some (.error "endpoint is required" 400)
  else if request.endpoint ∉ taskEndpoints then
    some (.error ("endpoint must be one of '/v1/responses', '/v1/chat/completions', "
      ++ "'/v1/embeddings', or '/v1/completions'") 400)
  else none

/-- The task that `handleCreateBatchTask` builds; a completion window of `24h` is all there is. -/
def newTask (taskID : String) (now : Int) : BatchTask where
  id := taskID
  endpoint := request.endpoint
  errors := none
  inputFileID := request.inputFileID
  status := .pending
  outputFileID := none
  errorFileID := none
  createdAt := now
  inProgressAt := none
  expiresAt := now + 86400
  finalizingAt := none
  completedAt := none
  failedAt := none
  expiredAt := none
  cancellingAt := none
  cancelledAt := none
  requestCounts := some ⟨0, 0, 0⟩
  outputExpiresAfter := request.outputExpiresAfter
  updatedAt := some now
  token := request.token

def stripInternalFields : BatchTask :=
  { task with outputExpiresAfter := none, updatedAt := none, token := none }

/-- `handleCreateBatchTask`, from the decoded request on. -/
def handleCreateBatchTask : GatewayM Unit :=
  match checkCreateRequest request with
  | some r => reply r
  | none => do
      match ← call (.getFile request.inputFileID) with
      | .error e => reply (.error ("File not found: " ++ e) 400)
      | .ok _ => do
          let taskID := "batch_" ++ (← newUUID)
          if request.completionWindow ≠ "" ∧ request.completionWindow ≠ "24h" then
            reply (.error "completion_window must be '24h'" 400)
          else do
            let now ← timeNow
            match ← createTask (newTask request taskID (unix now)) with
            | .error e => reply (.error ("Failed to create batch task: " ++ e) 500)
            | .ok () => reply (.created (stripInternalFields (newTask request taskID (unix now))))

/-- Only tasks in validating or in_progress status can be cancelled. -/
def cancellable (status : BatchTaskStatus) : Bool :=
  status == .validating || status == .inProgress

/-- The part of `CancelBatchTaskHandler` under the task lock. -/
def cancelLocked : GatewayM Unit := do
  match ← call (.getTaskStatus taskID) with
  | .error e => reply (.error ("Task not found: " ++ e) 404)
  | .ok taskStatus =>
    if ¬ cancellable taskStatus then
      reply (.error "Task cannot be cancelled in current status" 400)
    else do
      match ← moveTaskAndUpdateStatusAtomically taskID taskStatus .cancelling with
      | .error e => reply (.error ("Failed to move task to cancelling set: " ++ e) 500)
      | .ok () =>
        match ← call (.getTask taskID) with
        | .error e => reply (.error ("Task details not found: " ++ e) 404)
        | .ok task => reply (.shown (stripInternalFields task))

def cancelBatchTaskHandler : GatewayM Unit := do
  match ← call (.getTaskStatus taskID) with
  | .error e => reply (.error ("Task not found: " ++ e) 404)
  | .ok taskStatus =>
    if ¬ cancellable taskStatus then
      reply (.error "Task cannot be cancelled in current status" 400)
    else do
      match ← call (.acquireTaskLock taskID instanceID defaultLockExpiration) with
      | .error e => reply (.error ("Failed to acquire task lock: " ++ e) 500)
      | .ok false => reply (.error "Task is currently being processed by another instance" 409)
      | .ok true => do
          cancelLocked taskID
          logged (call (.releaseTaskLock taskID instanceID))

/-! ### The gateways -/

/-- The goroutines of the gateways: one of each reactor per instance, in-progress reactors as configured, and
one per request. -/
inductive Proc
  | validator (instanceID : String)
  | worker (instanceID : String) (workerID : Nat)
  | finalizer (instanceID : String)
  | canceller (instanceID : String)
  | expirer (instanceID : String)
  | handler (instanceID : String) (connection : Nat)
  deriving DecidableEq

/-- What a goroutine is asked to do: another turn of its loop, or a request. -/
inductive Input
  | turn
  | create (request : CreateRequest)
  | cancel (taskID : String)
  deriving DecidableEq

def program : Proc → Input → GatewayM Unit
  | .validator instanceID, _ => processSingleValidatingTask γ instanceID
  | .worker instanceID workerID, _ => processSingleInProgressTask γ (instanceID, workerID)
  | .finalizer instanceID, _ => processSingleFinalizingTask instanceID
  | .canceller instanceID, _ => processSingleCancellingTask instanceID
  | .expirer instanceID, _ => processExpiredTasks instanceID
  | .handler _ _, .create request => handleCreateBatchTask request
  | .handler instanceID _, .cancel taskID => cancelBatchTaskHandler instanceID taskID
  | .handler _ _, .turn => return ()

/-- **The batch service of any number of gateways** over one world. -/
def machine : Processes.Machine World Cmd Cmd.Resp Proc Input Choice Nat where
  program := program γ
  step := step
  env := tick

abbrev System : Type := Processes.Config World Cmd Cmd.Resp Proc

abbrev Event : Type := Processes.Action Proc Input Choice Nat

/-! ### A small instance -/

/-- A gateway for concrete runs: a line is a request with itself as body, a response is encoded as its body.
-/
def sampleGateway : Gateway where
  codec :=
    { unmarshalRequest := fun line => .ok ⟨"id", "POST", "/v1/completions", some line⟩
      extractCustomID := fun _ => none
      marshalResponse := fun r => .ok ((r.response.elim [] RespData.body).filter (· ≠ newline))
      newline_notMem := by
        intro r line h
        cases h
        simp }
  port := 8080
  batchLinesPerShard := 2
  batchRequestRetryTimes := 0

def sampleWorld (content : Bytes) : World :=
  { World.empty with
    files := fun fileID => if fileID = "f" then
      some ⟨"f", "file", content.length, 0, 0, "in.jsonl", "batch"⟩ else none
    objects := Finmap.singleton (.file "f") content }

/-- A request to process that file. -/
def sampleRequest : CreateRequest := ⟨"f", "/v1/completions", "24h", none, none⟩

def steps (i : Proc) (choices : List Choice) : List Event := choices.map (.run i)

/-- A goroutine begins a turn and makes some steps. -/
def turn (i : Proc) (j : Input) (choices : List Choice) : List Event := .spawn i j :: steps i choices

/-- Steps with nothing to choose. -/
def plain (n : Nat) : List Choice := List.replicate n {}

/-- The task `batch_1` is created. -/
def sampleCreation : List Event :=
  turn (.handler "a" 0) (.create sampleRequest) (plain 1 ++ { uuid := "1" } :: plain 5)

/-- The task is validated; its file is empty, so there are no shards. -/
def sampleValidation : List Event :=
  turn (.validator "a") .turn ({ pick := "batch_1" } :: plain 10)

/-- A worker finds nothing left to do and moves the task on. -/
def sampleWork : List Event :=
  turn (.worker "a" 0) .turn ({ pick := "batch_1" } :: plain 8)

def sampleFinalization : List Event :=
  turn (.finalizer "a") .turn ({ pick := "batch_1" } :: plain 6 ++
    [{ uuid := "2" }, { uuid := "3" }] ++ plain 17)

/-- A validated task with three lines in two shards. -/
def sampleSharded : World :=
  { World.empty with
    tasks := fun taskID => if taskID = "batch_1" then
      some { newTask sampleRequest "batch_1" 0 with status := .inProgress } else none
    taskSets := fun status => if status = .inProgress then {"batch_1"} else ∅
    shardSets := fun taskID status => if taskID = "batch_1" ∧ status = .pending then {"0", "1"} else ∅
    shards := fun taskID shardID => if taskID = "batch_1" then some ⟨shardID, 0, none, 0⟩ else none
    objects := Finmap.insert (.shardInput "batch_1" "1") [122, 10]
      (Finmap.singleton (.shardInput "batch_1" "0") [120, 10, 121, 10])
    usedIDs := {"1"} }

/-- A worker takes a pending shard of that task. -/
def takeShard : List Event :=
  turn (.worker instanceID 0) .turn ({ pick := "batch_1" } :: {} :: { pick := shardID } :: plain 2)

/-- It answers the lines of the shard, one for each request id, completes the shard and looks whether all are.
-/
def finishShard (requestIDs : List String) : List Event :=
  steps (.worker instanceID 0) (plain 4 ++
    requestIDs.flatMap (fun requestID => [{ uuid := requestID }, { http := .ok ⟨200, [97], none⟩ }])
      ++ plain 7)

/-- A worker finds no pending shard, and lists the shards in progress. -/
def listInProgress : List Event :=
  turn (.worker instanceID 0) .turn ({ pick := "batch_1" } :: plain 2 ++ [{ order := ["0", "1"] }])

/-- It takes over the lock of the first one, and looks whether the task is in progress. -/
def takeOverListed : List Event := steps (.worker instanceID 0) (plain 2)

/-- The expiring reactor of an instance lists the pending task `batch_1` as expired. -/
def listExpired : List Event :=
  turn (.expirer instanceID) .turn ({ clock := 90000000 } :: { order := ["batch_1"] } :: plain 4)

/-- It takes the lock of the task, reads its status, moves it to `expired` and gives the lock back. -/
def expireListed : List Event :=
  steps (.expirer instanceID) (plain 5)

end Llumnix.Batch
