/-
**Inference types, scheduling modes and LLM instances.**

The vocabulary that the gateway and the scheduler share: `pkg/consts/consts.go` (inference types and
scheduling stages, which the source spells as string constants) and `pkg/types` (`endpoint.go`,
`llm_instance.go`, `scheduling_request.go`).
-/

import Mathlib

namespace Llumnix

/-- `consts.InferType`: the role of an instance.  `unset` is the empty string, the value of a field
that was never assigned. -/
inductive InferType
  | neutral
  | prefill
  | decode
  | all
  | unset
  deriving DecidableEq

def InferType.string : InferType → String
  | neutral => "neutral"
  | prefill => "prefill"
  | decode => "decode"
  | all => "all"
  | unset => ""

inductive SchedulingStage
  | prefill
  | decode
  deriving DecidableEq

inductive SchedulingMode
  | neutral
  | pdBatch
  | pdStaged
  deriving DecidableEq

structure Endpoint where
  host : String
  port : Int
  deriving DecidableEq

/-- `Endpoint.String`: `host:port`. -/
def Endpoint.string (ep : Endpoint) : String := ep.host ++ ":" ++ toString ep.port

structure LLMInstance where
  version : Int
  ID : String
  model : String
  inferType : InferType
  endpoint : Endpoint
  auxIp : String
  auxPort : Int
  dpRank : Int
  dpSize : Int
  deriving DecidableEq

namespace LLMInstance

/-- `LLMInstance.String`: the parts that identify a worker, joined by hyphens. -/
def string (w : LLMInstance) : String :=
  let kind : List String :=
    if w.model ≠ "" ∧ w.inferType ≠ .unset then [w.model ++ "|" ++ w.inferType.string]
    else if w.model ≠ "" then [w.model]
    else if w.inferType ≠ .unset then [w.inferType.string]
    else []
  let endpoint : List String := if w.endpoint.string ≠ "" then [w.endpoint.string] else []
  let auxIp : List String := if w.auxIp ≠ "" then [w.auxIp] else []
  let auxPort : List String := if 0 < w.auxPort then [toString w.auxPort] else []
  let dp : List String :=
    if 0 < w.dpSize then [toString w.dpRank ++ "/" ++ toString w.dpSize] else []
  "-".intercalate (kind ++ endpoint ++ auxIp ++ auxPort ++ dp)

/-- `LLMInstance.Id`: the configured identifier, or the string representation, which the source caches in the
`ID` field. -/
def id (w : LLMInstance) : String := if w.ID = "" then w.string else w.ID

end LLMInstance

abbrev SchedulingResult := List LLMInstance

/-- `SchedulingResult.GetInstanceByInferType`: the first instance with the given role. -/
def SchedulingResult.getInstanceByInferType (sr : SchedulingResult) (inferType : InferType) :
    Option LLMInstance :=
  sr.find? fun w => w.inferType = inferType

end Llumnix
