/-
**The client of the local realtime state.**

The scheduler keeps one local realtime state for neutral instances, one for prefill and one for decode
instances, and reaches them through a client (`pkg/lrs/lrs_client.go`), which picks the state by the
inference type.  Discovery adds and removes instances, keep-alive connections add and remove gateways, and
the handlers of the service allocate, update and release requests.
-/

import Llumnix.LrsState

namespace Llumnix.Lrs

open FiniteMap

/-- The three states of the client. -/
inductive Store
  | neutral
  | prefill
  | decode
  deriving DecidableEq

structure Client where
  state : Store → LocalRealtimeState

def newClient : Client := ⟨fun _ => newLocalRealtimeState⟩

inductive ClientError
  | noMatchInferType
  | refused (e : LrsError)
  deriving DecidableEq

/-- The state that `AddInstance` and `RemoveInstance` work on: every type but prefill and decode counts
as neutral. -/
def storeOf : InferType → Store
  | .prefill => .prefill
  | .decode => .decode
  | _ => .neutral

/-- `getLocalRealtimeState`: here only the three types themselves are known. -/
def getLocalRealtimeState : InferType → Option Store
  | .prefill => some .prefill
  | .decode => some .decode
  | .neutral => some .neutral
  | _ => none

variable (c : Client) (inferType : InferType) (st : RequestState)

namespace Client

def modify (k : Store) (s : LocalRealtimeState) : Client :=
  ⟨Function.update c.state k s⟩

@[simp] theorem modify_state_self (k : Store) (s : LocalRealtimeState) :
    (c.modify k s).state k = s := Function.update_self _ _ _

theorem modify_state_of_ne {k j : Store} (h : j ≠ k) (s : LocalRealtimeState) :
    (c.modify k s).state j = c.state j := Function.update_of_ne h _ _

def addInstance (inst : LLMInstance) (order : List String) : Client :=
  c.modify (storeOf inst.inferType) ((c.state (storeOf inst.inferType)).addInstance inst order)

def removeInstance (instanceId : String) (order : List String) : Client :=
  c.modify (storeOf inferType) ((c.state (storeOf inferType)).removeInstance instanceId order)

def addGateway (gatewayId : String) : Client :=
  ⟨fun k => (c.state k).addGateway gatewayId⟩

/-- `RemoveGateway`; the loop of every state has an order of its own. -/
def removeGateway (gatewayId : String) (order : Store → List String) : Client :=
  ⟨fun k => (c.state k).removeGateway gatewayId (order k)⟩

def onState (f : LocalRealtimeState → Except LrsError LocalRealtimeState) : Except ClientError Client :=
  match getLocalRealtimeState inferType with
  | none => .error .noMatchInferType
  | some k =>
    match f (c.state k) with
    | .error e => .error (.refused e)
    | .ok s => .ok (c.modify k s)

/-- `AllocateRequestState`: a missing type counts as neutral. -/
def allocateRequestState : Except ClientError Client :=
  c.onState (if inferType = .unset then .neutral else inferType) fun s => s.allocateRequestState st

def updateRequestState : Except ClientError Client :=
  c.onState inferType fun s => s.updateRequestState st

def markPrefillComplete : Except ClientError Client :=
  c.onState inferType fun s => s.markPrefillComplete st

def releaseRequestState : Client :=
  match getLocalRealtimeState inferType with
  | none => c
  | some k => c.modify k ((c.state k).releaseRequestState st)

end Client

/-- The calls of the handlers and of the keep-alive connections. -/
inductive ClientCall
  | addGateway (gatewayId : String)
  | removeGateway (gatewayId : String) (order : Store → List String)
  | allocateRequestState (inferType : InferType) (st : RequestState)
  | updateRequestState (inferType : InferType) (st : RequestState)
  | markPrefillComplete (inferType : InferType) (st : RequestState)
  | releaseRequestState (inferType : InferType) (st : RequestState)

def Client.orKeep : Except ClientError Client → Client
  | .error _ => c
  | .ok c' => c'

/-- One call.  It is impossible only if an iteration order is not one of the map it ranges over. -/
def Client.exec : ClientCall → Option Client
  | .addGateway gatewayId => some (c.addGateway gatewayId)
  | .removeGateway gatewayId order =>
    if Enumerates (order .neutral) ((c.state .neutral).gatewayRequestIds gatewayId) ∧
        Enumerates (order .prefill) ((c.state .prefill).gatewayRequestIds gatewayId) ∧
        Enumerates (order .decode) ((c.state .decode).gatewayRequestIds gatewayId) then
      some (c.removeGateway gatewayId order)
    else none
  | .allocateRequestState inferType st => some (c.orKeep (c.allocateRequestState inferType st))
  | .updateRequestState inferType st => some (c.orKeep (c.updateRequestState inferType st))
  | .markPrefillComplete inferType st => some (c.orKeep (c.markPrefillComplete inferType st))
  | .releaseRequestState inferType st => some (c.releaseRequestState inferType st)

end Llumnix.Lrs
