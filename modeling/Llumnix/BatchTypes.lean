/-
**Tasks, shards, files and line files of the batch service.**

The data of `pkg/gateway/batch`: the records of `types.go`, the keys of the objects in the object store
(`getFileOSSPath` and its siblings in `reactor.go`) and the line format of `oss_client.go`.

Records are typed: the decimal and JSON encodings of their fields in a Redis hash are not modelled here.
Fields of a task that are only stored and shown (`object`, `model`, `completion_window`, `usage`,
`metadata`) are left out.
-/

import Mathlib.Data.Finset.Basic

namespace Llumnix.Batch

/-! ### Statuses -/

/-- `BatchTaskStatus`: a status is also the name of the set of the tasks that have it. -/
inductive BatchTaskStatus
  | validating
  | failed
  | inProgress
  | finalizing
  | finalize
  | completed
  | expired
  | cancelling
  | cancelled
  | pending
  deriving DecidableEq

def BatchTaskStatus.string : BatchTaskStatus → String
  | validating => "validating"
  | failed => "failed"
  | inProgress => "in_progress"
  | finalizing => "finalizing"
  | finalize => "finalize"
  | completed => "completed"
  | expired => "expired"
  | cancelling => "cancelling"
  | cancelled => "cancelled"
  | pending => "pending"

def BatchTaskStatus.all : List BatchTaskStatus :=
  [validating, failed, inProgress, finalizing, finalize, completed, expired, cancelling, cancelled,
    pending]

theorem BatchTaskStatus.mem_all (status : BatchTaskStatus) : status ∈ BatchTaskStatus.all := by
  cases status <;> decide

def BatchTaskStatus.terminal : BatchTaskStatus → Bool
  | completed | failed | cancelled | expired => true
  | validating | inProgress | finalizing | finalize | cancelling | pending => false

inductive ShardStatus
  | pending
  | inProgress
  | completed
  | failed
  deriving DecidableEq

def ShardStatus.string : ShardStatus → String
  | pending => "pending"
  | inProgress => "in_progress"
  | completed => "completed"
  | failed => "failed"

/-! ### Records -/

structure RequestCounts where
  total : Nat
  completed : Nat
  failed : Nat
  deriving DecidableEq

/-- `BatchError`, with the fields that are ever set. -/
structure BatchError where
  code : String
  message : String
  deriving DecidableEq

structure BatchErrors where
  data : List BatchError
  deriving DecidableEq

structure OutputExpiresAfter where
  anchor : String
  seconds : Int
  deriving DecidableEq

/-- `BatchTask`: the hash of a task, and the object it is loaded into.  Times are Unix seconds. -/
structure BatchTask where
  id : String
  endpoint : String
  errors : Option BatchErrors
  inputFileID : String
  status : BatchTaskStatus
  outputFileID : Option String
  errorFileID : Option String
  createdAt : Int
  inProgressAt : Option Int
  expiresAt : Int
  finalizingAt : Option Int
  completedAt : Option Int
  failedAt : Option Int
  expiredAt : Option Int
  cancellingAt : Option Int
  cancelledAt : Option Int
  requestCounts : Option RequestCounts
  outputExpiresAfter : Option OutputExpiresAfter
  updatedAt : Option Int
  token : Option String
  deriving DecidableEq

structure FileShard where
  id : String
  createdAt : Int
  requestCounts : Option RequestCounts
  updatedAt : Int
  deriving DecidableEq

structure File where
  id : String
  object : String
  bytes : Nat
  createdAt : Int
  expiresAt : Int
  filename : String
  purpose : String
  deriving DecidableEq

/-! ### Objects -/

/-- The paths of the object store. Ids hold a UUID or are numerals, so paths built for different purposes
never coincide; a prefix listing is a listing by purpose. -/
inductive ObjectKey
  /-- `getFileOSSPath`. -/
  | file (fileID : String)
  /-- `getShardFileInputOSSPath`. -/
  | shardInput (taskID shardID : String)
  /-- `getShardFileOutputOSSPath`. -/
  | shardOutput (taskID shardID : String)
  /-- `getShardFileOutputErrorOSSPath`. -/
  | shardError (taskID shardID : String)
  deriving DecidableEq

/-- The path lies under `getShardFileInputOSSPrefix(taskID)`. -/
def ObjectKey.underInput (taskID : String) : ObjectKey → Bool
  | shardInput t _ => t == taskID
  | _ => false

/-- The path lies under `getShardFileOutputOSSPrefix(taskID)`. -/
def ObjectKey.underOutput (taskID : String) : ObjectKey → Bool
  | shardOutput t _ => t == taskID
  | shardError t _ => t == taskID
  | _ => false

/-! ### Line files -/

/-- The content of an object, or a line of it. -/
abbrev Bytes := List UInt8

def newline : UInt8 := 10

/-- The UTF-8 encodings of the characters that `unicode.IsSpace` accepts. -/
def spaceEncodings : List Bytes :=
  [[9], [10], [11], [12], [13], [32], [0xC2, 0x85], [0xC2, 0xA0], [0xE1, 0x9A, 0x80],
   [0xE2, 0x80, 0x80], [0xE2, 0x80, 0x81], [0xE2, 0x80, 0x82], [0xE2, 0x80, 0x83],
   [0xE2, 0x80, 0x84], [0xE2, 0x80, 0x85], [0xE2, 0x80, 0x86], [0xE2, 0x80, 0x87],
   [0xE2, 0x80, 0x88], [0xE2, 0x80, 0x89], [0xE2, 0x80, 0x8A], [0xE2, 0x80, 0xA8],
   [0xE2, 0x80, 0xA9], [0xE2, 0x80, 0xAF], [0xE2, 0x81, 0x9F], [0xE3, 0x80, 0x80]]

/-- Dropping leading occurrences of the given encodings; every turn drops at least one byte. -/
def trimLeading (encodings : List Bytes) : Nat → Bytes → Bytes
  | 0, line => line
  | fuel + 1, line =>
    match encodings.find? fun e => e.isPrefixOf line with
    | some e => trimLeading encodings fuel (line.drop e.length)
    | none => line

def trimSpace (line : Bytes) : Bytes :=
  let left := trimLeading spaceEncodings line.length line
  (trimLeading (spaceEncodings.map List.reverse) left.length left.reverse).reverse

/-- The split of `ReadLines`: at every newline, without the empty rest after the last one. -/
def splitLines (content : Bytes) : List Bytes :=
  let lines := content.splitOn newline
  if lines.getLast? = some [] then lines.dropLast else lines

/-- The content that `WriteLines` uploads. -/
def joinLines (lines : List Bytes) : Bytes :=
  [newline].intercalate lines ++ [newline]

/-! ### Requests and responses -/

structure SingleLineRequest where
  customID : String
  method : String
  url : String
  body : Option Bytes
  deriving DecidableEq

structure BatchRequestError where
  code : String
  message : String
  deriving DecidableEq

structure RespData where
  statusCode : Nat
  requestID : String
  body : Bytes
  deriving DecidableEq

structure SingleLineResponse where
  id : String
  customID : String
  response : Option RespData
  error : Option BatchRequestError
  deriving DecidableEq

/-- **The JSON encoding**, as far as the batch service relies on it: an encoded response is one line. -/
structure Codec where
  /-- `json.Unmarshal` into a `SingleLineRequest`. -/
  unmarshalRequest : Bytes → Except String SingleLineRequest
  /-- The `custom_id` of a line that is not a well-formed request, if it has one. -/
  extractCustomID : Bytes → Option String
  /-- `json.Marshal` of a response.  It fails when the body is not JSON. -/
  marshalResponse : SingleLineResponse → Except String Bytes
  /-- An encoded response holds no newline. -/
  newline_notMem : ∀ response line, marshalResponse response = .ok line → newline ∉ line

end Llumnix.Batch
