/-
**The read client of the cluster metadata store.**

A scheduler in full mode learns about its instances from Redis: one loop refreshes their metadata, another
one their status.  Between them they keep a table of metadata, a table of statuses, a table of views that
combine both, the views by instance type, an index from the addresses of the KV store to instances, and
under adaptive PD the ids of the two reserved instances.  This module models `refreshInstanceMetadata`,
`refreshInstanceStatus` and `setReservedInstance` of `pkg/cms/cms_read_client.go`.

Metadata, statuses and views are objects that the tables share by reference.  A refresh that panics is
recovered, and what it has done so far stays: a function that can panic returns the client either way, as an
error or as a value.  What Redis returns, the order of every loop over a map and what an undecodable value
leaves behind are arguments.
-/

import Llumnix.FiniteMap
import Llumnix.GuardedRun
import Llumnix.InstanceTypes

namespace Llumnix.ReadClient

open FiniteMap Function

/-! ### Objects -/

abbrev Ref := Nat

/-- `InstanceMetadata`, as far as the client reads it.  The type of an instance may be any string. -/
structure InstanceMetadata where
  instanceType : String
  ip : String
  apiServerPort : Int
  ipKvt : String
  kvtPort : Int
  ipKvs : String
  dpRank : Int
  dataParallelSize : Int
  deriving DecidableEq

def InstanceMetadata.empty : InstanceMetadata := ⟨"", "", 0, "", 0, "", 0, 0⟩

/-- The fields of `InstanceStatus` that the client passes on unread. Ratios and durations are given by their
bits. -/
structure StatusDetails where
  instanceId : String
  stepId : BitVec 32
  recentWaitingRequests : List String
  waitingRequests : List String
  numWaitingRequests : BitVec 32
  numRunningRequests : BitVec 32
  numTotalGpuTokens : BitVec 32
  numUsedGpuTokens : BitVec 32
  numUncomputedTokensHybridSchedulerWaitingPrefills : BitVec 32
  numUnallocatedTokensHybridSchedulerWaitingDecodes : BitVec 32
  hybridSchedulerWaitingToDecodeTokensNum : BitVec 32
  numUncomputedTokensSchedulerWaitingPrefills : BitVec 32
  schedulerWaitingToDecodeTokensNum : BitVec 32
  numUnallocatedTokensSchedulerRunningPrefills : BitVec 32
  schedulerRunningToDecodeTokensNum : BitVec 32
  numTokensLoadingRequests : BitVec 32
  numMigrateInReqs : BitVec 32
  numMigrateOutReqs : BitVec 32
  numAvailableMigrateInSlots : BitVec 32
  numAvailableMigrateOutSlots : BitVec 32
  numMigrateInTokens : BitVec 32
  numMigrateOutTokens : BitVec 32
  numAvailableMigrateInTokens : BitVec 32
  numAvailableMigrateOutTokens : BitVec 32
  kvCacheUsageRatioMigrateIn : BitVec 64
  kvCacheUsageRatioMigrateOut : BitVec 64
  availableKvCacheUsageRatioMigrateIn : BitVec 64
  availableKvCacheUsageRatioMigrateOut : BitVec 64
  profilingId : BitVec 32
  stepDuration : BitVec 64
  numScheduledPrefillTokens : BitVec 32
  deriving DecidableEq

/-- The details of an instance that has reported nothing yet. -/
def StatusDetails.initial : StatusDetails where
  instanceId := ""
  stepId := BitVec.intMin 32
  recentWaitingRequests := []
  waitingRequests := []
  numWaitingRequests := 0
  numRunningRequests := 0
  numTotalGpuTokens := 0
  numUsedGpuTokens := 0
  numUncomputedTokensHybridSchedulerWaitingPrefills := 0
  numUnallocatedTokensHybridSchedulerWaitingDecodes := 0
  hybridSchedulerWaitingToDecodeTokensNum := 0
  numUncomputedTokensSchedulerWaitingPrefills := 0
  schedulerWaitingToDecodeTokensNum := 0
  numUnallocatedTokensSchedulerRunningPrefills := 0
  schedulerRunningToDecodeTokensNum := 0
  numTokensLoadingRequests := 0
  numMigrateInReqs := 0
  numMigrateOutReqs := 0
  numAvailableMigrateInSlots := 0
  numAvailableMigrateOutSlots := 0
  numMigrateInTokens := 0
  numMigrateOutTokens := 0
  numAvailableMigrateInTokens := 0
  numAvailableMigrateOutTokens := 0
  kvCacheUsageRatioMigrateIn := 0
  kvCacheUsageRatioMigrateOut := 0
  availableKvCacheUsageRatioMigrateIn := 0
  availableKvCacheUsageRatioMigrateOut := 0
  profilingId := BitVec.intMin 32
  stepDuration := 0
  numScheduledPrefillTokens := 0

/-- `InstanceStatus`: the fields that the client reads, and the details. -/
structure InstanceStatus where
  updateId : Int
  timestampMs : Int
  schedulable : Bool
  hybridSchedulerWaitingToDecodeRequestsNum : BitVec 32
  numLoadingRequests : BitVec 32
  schedulerWaitingToDecodeRequestsNum : BitVec 32
  schedulerRunningToDecodeRequestsNum : BitVec 32
  numUncomputedTokensAllWaitingPrefills : BitVec 32
  numUncomputedTokensSchedulerRunningPrefills : BitVec 32
  details : StatusDetails
  deriving DecidableEq

/-- The status of an instance that has reported nothing yet: every id and every time is newer. -/
def InstanceStatus.initial : InstanceStatus :=
  ⟨-2 ^ 31, -2 ^ 63, false, 0, 0, 0, 0, 0, 0, .initial⟩

/-- The instance of a view, as the client makes it up from the metadata. -/
structure ViewInstance where
  endpoint : Endpoint
  auxIp : String
  auxPort : Int
  inferType : String
  dpRank : Int
  dpSize : Int
  ID : String
  deriving DecidableEq

def newViewInstance (m : InstanceMetadata) : ViewInstance where
  endpoint := ⟨m.ip, m.apiServerPort⟩
  auxIp := m.ipKvt
  auxPort := m.kvtPort
  inferType := m.instanceType
  dpRank := m.dpRank
  dpSize := m.dataParallelSize
  ID := m.ip ++ "_instance" ++ toString m.dpRank ++ "_" ++ toString m.dataParallelSize

/-- `InstanceView`, without the local account, which `Llumnix/CmsLocalAccount.lean` models. -/
structure InstanceView where
  metadata : Ref
  status : Ref
  inst : ViewInstance
  reservedInferType : InferType

/-- `CMSReadClient`.  The tables hold references, and the functions next to them the objects. -/
structure CMSReadClient where
  instanceIDs : List String
  /-- The entry of an instance whose metadata has no value is `nil`. -/
  instanceMetadatas : Finmap fun _ : String => Option Ref
  metadata : Ref → InstanceMetadata
  instanceStatuses : Finmap fun _ : String => Ref
  status : Ref → InstanceStatus
  instanceViews : Finmap fun _ : String => Ref
  view : Ref → InstanceView
  groupedInstanceViews : Finmap fun _ : String => Finmap fun _ : String => Ref
  ipToInstanceIDs : Finmap fun _ : String => Finset String
  instanceIDToIP : Finmap fun _ : String => String
  nextRef : Ref
  isAlive : Bool
  enableAdaptivePD : Bool
  reservedPrefillInstance : String
  reservedDecodeInstance : String

def newCMSReadClient (enableAdaptivePD : Bool) : CMSReadClient where
  instanceIDs := []
  instanceMetadatas := ∅
  metadata := fun _ => .empty
  instanceStatuses := ∅
  status := fun _ => .initial
  instanceViews := ∅
  view := fun _ => ⟨0, 0, newViewInstance .empty, .unset⟩
  groupedInstanceViews := ∅
  ipToInstanceIDs := ∅
  instanceIDToIP := ∅
  nextRef := 0
  isAlive := true
  enableAdaptivePD := enableAdaptivePD
  reservedPrefillInstance := ""
  reservedDecodeInstance := ""

variable (st : InstanceStatus) (groups : Finmap fun _ : String => Finmap fun _ : String => Ref)
variable (c : CMSReadClient) (ip instanceID : String)

namespace CMSReadClient

/-- `instanceIDsSet`, which is assigned together with `instanceIDs`. -/
def instanceIDsSet : Finset String := c.instanceIDs.toFinset

/-! ### The index of addresses -/

def addToIpToInstanceIDsMap : CMSReadClient :=
  if ip = "" then c
  else { c with
    ipToInstanceIDs :=
      c.ipToInstanceIDs.insert ip (insert instanceID ((c.ipToInstanceIDs.lookup ip).getD ∅)) }

def removeFromIp2InstanceIDsMap : CMSReadClient :=
  if ip = "" then c
  else
    match c.ipToInstanceIDs.lookup ip with
    | none => c
    | some instanceIDs =>
      if (instanceIDs.erase instanceID).card = 0 then
        { c with ipToInstanceIDs := c.ipToInstanceIDs.erase ip }
      else
        { c with ipToInstanceIDs := c.ipToInstanceIDs.insert ip (instanceIDs.erase instanceID) }

def getInstanceIDsByIPs (ips : List String) : Finset String :=
  ips.foldl (fun instanceIDs ip => instanceIDs ∪ (c.ipToInstanceIDs.lookup ip).getD ∅) ∅

/-! ### Metadata -/

end CMSReadClient

/-- What Redis has for the metadata of an instance. Decoding clears the object first, even if it fails then.
-/
inductive MetadataValue
  | nil
  | bytes (m : InstanceMetadata)
  | garbled (leftover : InstanceMetadata)

/-- What a refresh of the metadata reads: the ids of the scan, perhaps with repetitions, and the values. -/
structure MetadataRead where
  instanceIDs : List String
  values : String → MetadataValue

namespace CMSReadClient

/-- Taking an instance that has gone out of the index: the map back says where it is, or else its
metadata. -/
def unlist : CMSReadClient :=
  if (c.instanceIDToIP.lookup instanceID).getD "" ≠ "" then
    c.removeFromIp2InstanceIDsMap ((c.instanceIDToIP.lookup instanceID).getD "") instanceID
  else
    match c.instanceMetadatas.lookup instanceID with
    | some (some ref) => c.removeFromIp2InstanceIDsMap (c.metadata ref).ipKvs instanceID
    | _ => c

/-- One turn of the loop that removes the metadata of instances that have gone. -/
def forgetMetadata : CMSReadClient :=
  if instanceID ∈ c.instanceIDsSet then c
  else { c.unlist instanceID with
    instanceMetadatas := c.instanceMetadatas.erase instanceID
    instanceIDToIP := c.instanceIDToIP.erase instanceID }

/-- The address in the metadata that an instance has, or the empty string. -/
def oldIP : String :=
  match c.instanceMetadatas.lookup instanceID with
  | some (some ref) => (c.metadata ref).ipKvs
  | _ => ""

/-- The metadata object of an instance, which is made if there is none, gets a new content. -/
def writeMetadata (m : InstanceMetadata) : CMSReadClient :=
  match c.instanceMetadatas.lookup instanceID with
  | some (some ref) => { c with metadata := update c.metadata ref m }
  | _ => { c with
      instanceMetadatas := c.instanceMetadatas.insert instanceID (some c.nextRef)
      metadata := update c.metadata c.nextRef m
      nextRef := c.nextRef + 1 }

/-- The map back gets the new address of an instance, or loses the instance. -/
def setInstanceIP (newIP : String) : CMSReadClient :=
  { c with
    instanceIDToIP :=
      if newIP = "" then c.instanceIDToIP.erase instanceID
      else c.instanceIDToIP.insert instanceID newIP }

/-- Moving an instance from one address to another. -/
def moveIP (oldIP newIP : String) : CMSReadClient :=
  if newIP ≠ oldIP then
    ((c.removeFromIp2InstanceIDsMap oldIP instanceID).addToIpToInstanceIDsMap newIP
      instanceID).setInstanceIP instanceID newIP
  else if newIP = "" then c.setInstanceIP instanceID ""
  else c

/-- One turn of the loop over the values. A value that cannot be decoded changes the object, not the index. -/
def updateMetadata (values : String → MetadataValue) (c : CMSReadClient) (instanceID : String) :
    CMSReadClient :=
  match values instanceID with
  | .nil => { c with instanceMetadatas := c.instanceMetadatas.insert instanceID none }
  | .garbled leftover => c.writeMetadata instanceID leftover
  | .bytes m => (c.writeMetadata instanceID m).moveIP instanceID (c.oldIP instanceID) m.ipKvs

/-- `refreshInstanceMetadata`, after Redis has answered; `order` is the order of the first loop. -/
def refreshInstanceMetadata (r : MetadataRead) (order : List String) : CMSReadClient :=
  r.instanceIDs.foldl (updateMetadata r.values)
    (order.foldl forgetMetadata { c with isAlive := true, instanceIDs := r.instanceIDs })

end CMSReadClient

/-! ### Statuses and views -/

/-- What a refresh of the statuses depends on. -/
structure StatusRead where
  /-- What Redis has for the status of an instance: nothing, or what decoding leaves in the buffer, successful
  or not. -/
  values : String → Option InstanceStatus
  /-- What the local account makes of the number of waiting prefill tokens of an instance. -/
  correction : String → BitVec 32 → BitVec 32
  /-- The recorder of scheduling metrics, a callback of the policy, panics. -/
  recorderPanics : String → Bool
  /-- The order of the loop over the statuses. -/
  order : List String

/-- The two roles an instance can be reserved for. -/
inductive Role
  | prefill
  | decode
  deriving DecidableEq

def Role.inferType : Role → InferType
  | .prefill => .prefill
  | .decode => .decode

namespace CMSReadClient

/-- The instance that is reserved for a role; the empty string if there is none. -/
def reservedInstance : Role → String
  | .prefill => c.reservedPrefillInstance
  | .decode => c.reservedDecodeInstance

def setReserved (role : Role) (instanceID : String) : CMSReadClient :=
  match role with
  | .prefill => { c with reservedPrefillInstance := instanceID }
  | .decode => { c with reservedDecodeInstance := instanceID }

/-- Deleting an instance from all groups, and the groups that are empty then. -/
def removeFromGroups : Finmap fun _ : String => Finmap fun _ : String => Ref :=
  filterMapValues (fun views =>
    if (views.erase instanceID).keys.card = 0 then none else some (views.erase instanceID)) groups

def dropInstance : CMSReadClient :=
  { c with
    instanceStatuses := c.instanceStatuses.erase instanceID
    instanceViews := c.instanceViews.erase instanceID
    groupedInstanceViews := removeFromGroups c.groupedInstanceViews instanceID }

/-- Clearing the reserved instance of a role if it is the given one. -/
def release (role : Role) : CMSReadClient :=
  if c.reservedInstance role = instanceID then c.setReserved role "" else c

/-- One turn of the loop that drops the instances that have gone. -/
def forgetStatus : CMSReadClient :=
  if instanceID ∈ c.instanceIDsSet then c
  else ((c.dropInstance instanceID).release instanceID .prefill).release instanceID .decode

/-- The new view of an instance goes into its group. -/
def addToGroup (inferType instanceID : String) (ref : Ref) :
    Finmap fun _ : String => Finmap fun _ : String => Ref :=
  groups.insert inferType (((groups.lookup inferType).getD ∅).insert instanceID ref)

def createStatus : CMSReadClient :=
  { c with
    instanceStatuses := c.instanceStatuses.insert instanceID c.nextRef
    status := update c.status c.nextRef .initial
    nextRef := c.nextRef + 1 }

/-- An instance gets a view that combines the two objects. -/
def createView (metadata status : Ref) : CMSReadClient :=
  { c with
    instanceViews := c.instanceViews.insert instanceID c.nextRef
    view := update c.view c.nextRef
      ⟨metadata, status, newViewInstance (c.metadata metadata), .unset⟩
    groupedInstanceViews := addToGroup c.groupedInstanceViews (c.metadata metadata).instanceType
      instanceID c.nextRef
    nextRef := c.nextRef + 1 }

/-- An instance without a status gets one, and then a view, unless its metadata is `nil`. -/
def ensureView (metadata : Option Ref) : Except CMSReadClient CMSReadClient :=
  match c.instanceStatuses.lookup instanceID with
  | some _ => .ok c
  | none =>
    match metadata with
    | none => .error (c.createStatus instanceID)
    | some ref => .ok ((c.createStatus instanceID).createView instanceID ref c.nextRef)

/-- The status after the buffer has been merged into it: only the time and the flag, unless the update is
newer. -/
def mergeStatus (old buffer : InstanceStatus) (correction : BitVec 32 → BitVec 32) : InstanceStatus :=
  if buffer.updateId ≤ old.updateId then
    { old with timestampMs := buffer.timestampMs, schedulable := buffer.schedulable }
  else
    { buffer with
      numUncomputedTokensAllWaitingPrefills :=
        correction buffer.numUncomputedTokensAllWaitingPrefills }

/-- The rest of a turn: the status is stored, then the metrics of the view are recorded, which needs a
view. -/
def storeStatus (buffer : InstanceStatus) (r : StatusRead) : Except CMSReadClient CMSReadClient :=
  match c.instanceStatuses.lookup instanceID with
  | none => .error c
  | some ref =>
    if buffer.timestampMs ≤ (c.status ref).timestampMs then .ok c
    else
      let c' := { c with
        status := update c.status ref
          (mergeStatus (c.status ref) buffer (r.correction instanceID)) }
      match c.instanceViews.lookup instanceID with
      | none => .error c'
      | some _ => if r.recorderPanics instanceID then .error c' else .ok c'

/-- One turn of the loop over the values. -/
def updateStatus (r : StatusRead) (c : CMSReadClient) (instanceID : String) :
    Except CMSReadClient CMSReadClient :=
  match r.values instanceID with
  | none => .ok (c.dropInstance instanceID)
  | some buffer =>
    match c.instanceMetadatas.lookup instanceID with
    | none => .ok c
    | some metadata =>
      match c.ensureView instanceID metadata with
      | .error c => .error c
      | .ok c => c.storeStatus instanceID buffer r

/-- A loop that ends at the first panic. -/
def loop (turn : CMSReadClient → String → Except CMSReadClient CMSReadClient) :
    List String → CMSReadClient → Except CMSReadClient CMSReadClient
  | [], c => .ok c
  | instanceID :: rest, c =>
    match turn c instanceID with
    | .error c => .error c
    | .ok c => loop turn rest c

/-- `refreshInstanceStatus` after Redis has answered, without the reservation. -/
def refreshStatuses (r : StatusRead) : Except CMSReadClient CMSReadClient :=
  loop (updateStatus r) c.instanceIDs (r.order.foldl forgetStatus { c with isAlive := true })

/-! ### The reservation -/

def statusOf : InstanceStatus :=
  match c.instanceStatuses.lookup instanceID with
  | some ref => c.status ref
  | none => .initial

/-- Reserving an instance: the id is stored first, then its view is marked. -/
def reserve (role : Role) (instanceID : String) : Except CMSReadClient CMSReadClient :=
  let c := c.setReserved role instanceID
  match c.instanceViews.lookup instanceID with
  | none => .error c
  | some ref =>
    .ok { c with
      view := update c.view ref { c.view ref with reservedInferType := role.inferType } }

end CMSReadClient

def InstanceStatus.decodeBatchSize : BitVec 32 :=
  st.hybridSchedulerWaitingToDecodeRequestsNum + st.numLoadingRequests +
    st.schedulerWaitingToDecodeRequestsNum + st.schedulerRunningToDecodeRequestsNum

def InstanceStatus.prefillTokensNum : BitVec 32 :=
  st.numUncomputedTokensAllWaitingPrefills + st.numUncomputedTokensSchedulerRunningPrefills

/-- The instance has nothing to prefill. -/
def InstanceStatus.decodeIdle : Bool :=
  0 ≤ st.decodeBatchSize.toInt && st.prefillTokensNum == 0

/-- The instance has nothing to decode. -/
def InstanceStatus.prefillIdle : Bool :=
  0 ≤ st.prefillTokensNum.toInt && st.decodeBatchSize == 0

/-- The least busy instances that the scan has seen so far. -/
structure Scan where
  leastDecodeBatchSize : BitVec 32
  leastPrefillTokensNum : BitVec 32
  leastBusyDecodeInstanceId : String
  leastBusyPrefillInstanceId : String

def Scan.start : Scan := ⟨BitVec.intMax 32, BitVec.intMax 32, "", ""⟩

def Scan.see (scan : Scan) (reservedDecodeInstance instanceID : String) (st : InstanceStatus) :
    Scan :=
  let decode := st.decodeBatchSize.toInt < scan.leastDecodeBatchSize.toInt
  let prefill := st.prefillTokensNum.toInt < scan.leastPrefillTokensNum.toInt ∧
    instanceID ≠ reservedDecodeInstance
  { leastDecodeBatchSize := if decode then st.decodeBatchSize else scan.leastDecodeBatchSize
    leastPrefillTokensNum := if prefill then st.prefillTokensNum else scan.leastPrefillTokensNum
    leastBusyDecodeInstanceId := if decode then instanceID else scan.leastBusyDecodeInstanceId
    leastBusyPrefillInstanceId := if prefill then instanceID else scan.leastBusyPrefillInstanceId }

namespace CMSReadClient

def bothReserved : Bool :=
  c.reservedPrefillInstance ≠ "" && c.reservedDecodeInstance ≠ ""

/-- The two tests of the scan.  Only the second one looks at what the other role has. -/
def reserveTurn : Except CMSReadClient CMSReadClient :=
  let st := c.statusOf instanceID
  match (if st.decodeIdle && c.reservedDecodeInstance = "" then c.reserve .decode instanceID
    else .ok c) with
  | .error c => .error c
  | .ok c =>
    if st.prefillIdle && c.reservedPrefillInstance = "" && instanceID ≠ c.reservedDecodeInstance
    then c.reserve .prefill instanceID
    else .ok c

/-- The scan over the statuses, which stops when both instances are found. -/
def scanStatuses : List String → CMSReadClient → Scan →
    Except CMSReadClient (CMSReadClient × Option Scan)
  | [], c, scan => .ok (c, some scan)
  | instanceID :: rest, c, scan =>
    match c.reserveTurn instanceID with
    | .error c => .error c
    | .ok c =>
      if c.bothReserved then .ok (c, none)
      else scanStatuses rest c
        (scan.see c.reservedDecodeInstance instanceID (c.statusOf instanceID))

/-- Falling back to the least busy instance of a role. -/
def fallBack (role : Role) (instanceID : String) : Except CMSReadClient CMSReadClient :=
  if c.reservedInstance role = "" ∧ instanceID ≠ "" then c.reserve role instanceID else .ok c

/-- `setReservedInstance`; `order` is the order of the scan. -/
def setReservedInstance (order : List String) : Except CMSReadClient CMSReadClient :=
  if c.bothReserved then .ok c
  else
    match scanStatuses order c .start with
    | .error c => .error c
    | .ok (c, none) => .ok c
    | .ok (c, some scan) =>
      match c.fallBack .decode scan.leastBusyDecodeInstanceId with
      | .error c => .error c
      | .ok c => c.fallBack .prefill scan.leastBusyPrefillInstanceId

end CMSReadClient

/-! ### The two loops -/

/-- Where the client is. -/
inductive Phase
  /-- No refresh is running; the flag tells whether the last one refreshed the statuses. -/
  | idle (refreshed : Bool)
  /-- A refresh of the statuses is about to set the reserved instances. -/
  | reserving
  deriving DecidableEq

structure State where
  client : CMSReadClient
  phase : Phase

def State.start (enableAdaptivePD : Bool) : State := ⟨newCMSReadClient enableAdaptivePD, .idle false⟩

/-- The steps of the loops, with the choices of the environment. `none` stands for a failed read. -/
inductive Action
  | refreshMetadata (r : Option MetadataRead) (order : List String)
  | refreshStatuses (r : Option StatusRead)
  /-- The second part of a refresh of the statuses.  The client is locked in between. -/
  | setReserved (order : List String)

/-- What is left of a computation, whether it has panicked or not. -/
def recover : Except CMSReadClient CMSReadClient → CMSReadClient
  | .error c => c
  | .ok c => c

def exec (s : State) : Action → Option State
  | .refreshMetadata r order =>
    match s.phase, r with
    | .reserving, _ => none
    | .idle _, none => some ⟨{ s.client with isAlive := false }, .idle false⟩
    | .idle _, some r =>
      if Enumerates order s.client.instanceMetadatas.keys then
        some ⟨s.client.refreshInstanceMetadata r order, .idle false⟩
      else none
  | .refreshStatuses r =>
    match s.phase, r with
    | .reserving, _ => none
    | .idle _, none => some ⟨{ s.client with isAlive := false }, .idle false⟩
    | .idle _, some r =>
      if Enumerates r.order s.client.instanceStatuses.keys then
        match s.client.refreshStatuses r with
        | .error c => some ⟨c, .idle true⟩
        | .ok c => some ⟨c, if c.enableAdaptivePD then .reserving else .idle true⟩
      else none
  | .setReserved order =>
    match s.phase with
    | .idle _ => none
    | .reserving =>
      if Enumerates order s.client.instanceStatuses.keys then
        some ⟨recover (s.client.setReservedInstance order), .idle true⟩
      else none

end Llumnix.ReadClient
