/-
**The scheduler's local realtime state.**

In lite mode the scheduler remembers, for every request that a gateway has been given an instance for, which
instance holds it, which gateway answers for it and how many tokens it accounts for
(`pkg/lrs/local_realtime_state.go`).  The state is three indexes over the same requests: a global table, one
view per instance with a running token total, and one request set per gateway.

The two tables hold pointers to the same `RequestState` object, and an update through a view is seen through
the global table: here the tables hold references, and a heap maps a reference to the object.  Every caller
builds its argument with `NewRequestState`, so the object an allocation stores is new.  Token counts are Go
`int64`s, modelled by `BitVec 64` with signed comparison.  Calls that range over a Go map take the iteration
order as an argument.
-/

import Llumnix.FiniteMap
import Llumnix.GuardedRun
import Llumnix.InstanceTypes

namespace Llumnix.Lrs

open FiniteMap Function

/-! ### Data -/

/-- The address of a `RequestState` object. -/
abbrev Ref := ℕ

structure RequestState where
  reqId : String
  instanceId : String
  gatewayId : String
  numTokens : BitVec 64
  prefillCompleted : Bool
  updateTime : ℤ
  deriving DecidableEq

abbrev Heap := Ref → RequestState

/-- `NewRequestState`, called at time `now`. -/
def newRequestState (reqId : String) (numTokens : BitVec 64) (instanceId gatewayId : String)
    (now : ℤ) : RequestState where
  reqId := reqId
  instanceId := instanceId
  gatewayId := gatewayId
  numTokens := numTokens
  prefillCompleted := false
  updateTime := now

/-- `InstanceView`: the requests an instance holds and the running total of their tokens. -/
structure InstanceView where
  inst : LLMInstance
  version : ℤ
  numTokens : BitVec 64
  requestStates : Finmap fun _ : String => Ref

def newInstanceView (inst : LLMInstance) : InstanceView where
  inst := inst
  version := inst.version
  numTokens := 0
  requestStates := ∅

/-- `LocalRealtimeState`, with the heap its references point into. -/
structure LocalRealtimeState where
  heap : Heap
  nextRef : Ref
  requestStates : Finmap fun _ : String => Ref
  instanceViews : Finmap fun _ : String => InstanceView
  gatewayRequestSet : Finmap fun _ : String => Finset String

variable (s : LocalRealtimeState) (st : RequestState) (reqId instanceId gatewayId : String)

def newLocalRealtimeState : LocalRealtimeState where
  heap := fun _ => newRequestState "" 0 "" "" 0
  nextRef := 0
  requestStates := ∅
  instanceViews := ∅
  gatewayRequestSet := ∅

/-- The errors of `pkg/consts` that this file returns. -/
inductive LrsError
  | requestExits
  | requestNotExits
  | requestGatewayChanged
  | endpointNotFound
  | gatewayNotFound
  deriving DecidableEq

/-! ### The methods of an instance view -/

namespace InstanceView

def allocateRequestState (heap : Heap) (iv : InstanceView) (p : Ref) : InstanceView :=
  { iv with
    requestStates := iv.requestStates.insert (heap p).reqId p
    numTokens := iv.numTokens + (heap p).numTokens }

/-- `InstanceView.MarkPrefillComplete`: the object the view holds is changed in place. -/
def markPrefillComplete (heap : Heap) (iv : InstanceView) (st : RequestState) : Heap :=
  match iv.requestStates.lookup st.reqId with
  | none => heap
  | some p => update heap p { heap p with prefillCompleted := true }

/-- `InstanceView.UpdateRequestState`: the token count of a request only grows.  A report of a
smaller count is dropped without an error. -/
def updateRequestState (heap : Heap) (iv : InstanceView) (st : RequestState) :
    Except LrsError (Heap × InstanceView) :=
  match iv.requestStates.lookup st.reqId with
  | none => .error .requestNotExits
  | some p =>
    if st.gatewayId ≠ (heap p).gatewayId then .error .requestGatewayChanged
    else
      let addedNum := st.numTokens - (heap p).numTokens
      if addedNum.slt 0 then .ok (heap, iv)
      else .ok (update heap p
            { heap p with numTokens := st.numTokens, updateTime := st.updateTime },
          { iv with numTokens := iv.numTokens + addedNum })

/-- `InstanceView.ReleaseRequestState`.  A total below the request's own count is set to zero. -/
def releaseRequestState (heap : Heap) (iv : InstanceView) (reqId : String) : InstanceView :=
  match iv.requestStates.lookup reqId with
  | none => iv
  | some p =>
    { iv with
      numTokens := if iv.numTokens.slt (heap p).numTokens then 0
        else iv.numTokens - (heap p).numTokens
      requestStates := iv.requestStates.erase reqId }

end InstanceView

/-! ### The methods of the state -/

namespace LocalRealtimeState

def requestExists : Bool :=
  (s.requestStates.lookup reqId).isSome

def gatewayExists : Bool :=
  (s.gatewayRequestSet.lookup gatewayId).isSome

/-- The keys `removeInstance` ranges over. -/
def instanceRequestIds : Finset String :=
  match s.instanceViews.lookup instanceId with
  | none => ∅
  | some iv => iv.requestStates.keys

/-- The keys `RemoveGateway` ranges over. -/
def gatewayRequestIds : Finset String :=
  (s.gatewayRequestSet.lookup gatewayId).getD ∅

/-- The loop body of `removeInstance`: the request leaves every gateway's set and the global
table. -/
def dropRequest : LocalRealtimeState :=
  { s with
    gatewayRequestSet := mapValues (fun requestSet => requestSet.erase reqId) s.gatewayRequestSet
    requestStates := s.requestStates.erase reqId }

def removeInstance (order : List String) : LocalRealtimeState :=
  match s.instanceViews.lookup instanceId with
  | none => s
  | some _ =>
    let s := order.foldl dropRequest s
    { s with instanceViews := s.instanceViews.erase instanceId }

/-- `AddInstance`: an instance that is known with an older version is removed first; one that is
known with the same or a newer version is left alone. -/
def addInstance (inst : LLMInstance) (order : List String) : LocalRealtimeState :=
  match s.instanceViews.lookup inst.id with
  | none => { s with instanceViews := s.instanceViews.insert inst.id (newInstanceView inst) }
  | some old =>
    if old.version < inst.version then
      let s := s.removeInstance inst.id order
      { s with instanceViews := s.instanceViews.insert inst.id (newInstanceView inst) }
    else s

def addGateway : LocalRealtimeState :=
  match s.gatewayRequestSet.lookup gatewayId with
  | none => { s with gatewayRequestSet := s.gatewayRequestSet.insert gatewayId ∅ }
  | some _ => s

/-- The loop body of `RemoveGateway`: the request leaves its instance's view and the global
table. -/
def reclaimRequest : LocalRealtimeState :=
  match s.requestStates.lookup reqId with
  | none => s
  | some p =>
    let id := (s.heap p).instanceId
    let views :=
      match s.instanceViews.lookup id with
      | none => s.instanceViews
      | some iv => s.instanceViews.insert id (iv.releaseRequestState s.heap reqId)
    { s with instanceViews := views, requestStates := s.requestStates.erase reqId }

def removeGateway (order : List String) : LocalRealtimeState :=
  match s.gatewayRequestSet.lookup gatewayId with
  | none => s
  | some _ =>
    let s := order.foldl reclaimRequest s
    { s with gatewayRequestSet := s.gatewayRequestSet.erase gatewayId }

/-- The three insertions of `AllocateRequestState`, into the view `iv` and the set `requestSet`. The new
object is stored at the next free address. -/
def storeRequest (iv : InstanceView) (requestSet : Finset String) : LocalRealtimeState where
  heap := update s.heap s.nextRef st
  nextRef := s.nextRef + 1
  requestStates := s.requestStates.insert st.reqId s.nextRef
  gatewayRequestSet := s.gatewayRequestSet.insert st.gatewayId (insert st.reqId requestSet)
  instanceViews := s.instanceViews.insert st.instanceId
    (iv.allocateRequestState (update s.heap s.nextRef st) s.nextRef)

def allocateRequestState : Except LrsError LocalRealtimeState :=
  if s.requestExists st.reqId then .error .requestExits
  else if s.instanceViews.keys.card = 0 then .error .endpointNotFound
  else
    match s.instanceViews.lookup st.instanceId, s.gatewayRequestSet.lookup st.gatewayId with
    | none, _ => .error .endpointNotFound
    | some _, none => .error .gatewayNotFound
    | some iv, some requestSet => .ok (s.storeRequest st iv requestSet)

def updateRequestState : Except LrsError LocalRealtimeState :=
  if ¬ s.requestExists st.reqId then .error .requestNotExits
  else
    match s.instanceViews.lookup st.instanceId with
    | none => .error .endpointNotFound
    | some iv =>
      if ¬ s.gatewayExists st.gatewayId then .error .gatewayNotFound
      else
        match iv.updateRequestState s.heap st with
        | .error e => .error e
        | .ok (heap, iv) =>
          .ok { s with heap := heap, instanceViews := s.instanceViews.insert st.instanceId iv }

def markPrefillComplete : Except LrsError LocalRealtimeState :=
  if ¬ s.requestExists st.reqId then .error .requestNotExits
  else
    match s.instanceViews.lookup st.instanceId with
    | none => .error .requestNotExits
    | some iv =>
      if ¬ s.gatewayExists st.gatewayId then .error .gatewayNotFound
      else .ok { s with heap := iv.markPrefillComplete s.heap st }

/-- `LocalRealtimeState.ReleaseRequestState`.  The instance and the gateway named by the caller are
only checked to exist; the request is removed from *their* indexes and from the global table. -/
def releaseRequestState : LocalRealtimeState :=
  if ¬ s.requestExists st.reqId then s
  else
    match s.instanceViews.lookup st.instanceId, s.gatewayRequestSet.lookup st.gatewayId with
    | none, _ => s
    | some _, none => s
    | some iv, some requestSet =>
      { s with
        instanceViews := s.instanceViews.insert st.instanceId (iv.releaseRequestState s.heap st.reqId)
        requestStates := s.requestStates.erase st.reqId
        gatewayRequestSet := s.gatewayRequestSet.insert st.gatewayId (requestSet.erase st.reqId) }

end LocalRealtimeState

/-! ### Calls -/

/-- The calls a scheduler makes on its local realtime state, with arbitrary arguments. -/
inductive Call
  | addInstance (inst : LLMInstance) (order : List String)
  | removeInstance (instanceId : String) (order : List String)
  | addGateway (gatewayId : String)
  | removeGateway (gatewayId : String) (order : List String)
  | allocateRequestState (st : RequestState)
  | updateRequestState (st : RequestState)
  | markPrefillComplete (st : RequestState)
  | releaseRequestState (st : RequestState)

/-- A call that fails leaves the state as it was. -/
def orKeep : Except LrsError LocalRealtimeState → LocalRealtimeState
  | .error _ => s
  | .ok t => t

/-- One call.  It is impossible only if its iteration order is not one of the map it ranges over. -/
def exec : Call → Option LocalRealtimeState
  | .addInstance inst order =>
    if Enumerates order (s.instanceRequestIds inst.id) then some (s.addInstance inst order)
    else none
  | .removeInstance id order =>
    if Enumerates order (s.instanceRequestIds id) then some (s.removeInstance id order) else none
  | .addGateway id => some (s.addGateway id)
  | .removeGateway id order =>
    if Enumerates order (s.gatewayRequestIds id) then some (s.removeGateway id order) else none
  | .allocateRequestState st => some (orKeep s (s.allocateRequestState st))
  | .updateRequestState st => some (orKeep s (s.updateRequestState st))
  | .markPrefillComplete st => some (orKeep s (s.markPrefillComplete st))
  | .releaseRequestState st => some (s.releaseRequestState st)

end Llumnix.Lrs
