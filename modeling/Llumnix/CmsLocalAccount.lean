/-
**The scheduler's local account of dispatched requests.**

From the moment the scheduler dispatches a request to an instance until the status of the instance shows the
request, the scheduler keeps it in a local account.  This module models
`pkg/cms/instance_status_local_account.go`: the account of one instance, the editor that changes accounts
and keeps a reverse index from requests to instances, and the system formed by the editor and the instance
views of the read client.

* `trimRequestID_decorated_iff` — **which ids come back** from every decorated form.

View objects are reached through references, because a scheduling pass may still hold a view that a refresh
has dropped.  `int32` and `int64` values are bit vectors; the iteration over the accounts of an instance has
an order that is an argument of the action, and reads the clock anew at every request.
-/

import Llumnix.FiniteMap
import Llumnix.GuardedRun
import Llumnix.InstanceTypes

namespace Llumnix.Cms

open FiniteMap

/-! ### Request ids -/

/-- `trimSuffix`: cut at the first `+` if there is one, else at the last `-`. -/
def trimSuffix (requestID : String) : String :=
  if '+' ∈ requestID.toList then
    String.ofList (requestID.toList.takeWhile (· != '+'))
  else if '-' ∈ requestID.toList then
    String.ofList ((requestID.toList.reverse.dropWhile (· != '-')).drop 1).reverse
  else requestID

/-- `trimRequestID`: drop what the engine puts before and after the id of the scheduler. -/
def trimRequestID (requestID : String) : String :=
  if "cmpl-".toList.isPrefixOf requestID.toList then
    trimSuffix (String.ofList (requestID.toList.drop 5))
  else if "chatcmpl-".toList.isPrefixOf requestID.toList then
    trimSuffix (String.ofList (requestID.toList.drop 9))
  else trimSuffix requestID

def trimRequestIDsToList (rawRequestIDs : List String) : List String :=
  rawRequestIDs.map trimRequestID

def trimRequestIDsToSets (rawRequestIDs : List String) : Finset String :=
  (rawRequestIDs.map trimRequestID).toFinset

section

open List

/-- What the engine may put before a request id. -/
def enginePrefixes : List String := ["cmpl-", "chatcmpl-"]

/-- What it puts after one. -/
def IsSuffix (s : String) : Prop :=
  ∃ c ∈ ['-', '+'], ∃ rest, s.toList = c :: rest ∧ '-' ∉ rest ∧ '+' ∉ rest

theorem trimRequestID_prefixed {p : String} (hp : p ∈ enginePrefixes) (id : String) :
    trimRequestID (p ++ id) = trimSuffix id := by
  rcases mem_pair.1 hp with rfl | rfl <;> simp [trimRequestID]

theorem trimRequestID_bare {id : String} (h : ∀ p ∈ enginePrefixes, ¬ p.toList <+: id.toList) :
    trimRequestID id = trimSuffix id := by
  simp only [trimRequestID, isPrefixOf_iff_prefix]
  rw [if_neg (h _ mem_cons_self), if_neg (h "chatcmpl-" (by simp [enginePrefixes]))]

theorem trimSuffix_spec (id : String) :
    (trimSuffix id).toList.length ≤ id.toList.length ∧ '+' ∉ (trimSuffix id).toList := by
  unfold trimSuffix
  split
  · rw [String.toList_ofList]
    exact ⟨(takeWhile_sublist _).length_le, fun hm => by simpa using mem_takeWhile_imp hm⟩
  · next hp =>
    split
    · rw [String.toList_ofList, length_reverse, ← id.toList.length_reverse]
      have hs := (drop_sublist 1 _).trans (dropWhile_sublist (l := id.toList.reverse) (· != '-'))
      exact ⟨hs.length_le, fun hm => hp (mem_reverse.1 (hs.mem (mem_reverse.1 hm)))⟩
    · exact ⟨le_rfl, hp⟩

theorem trimSuffix_append {r s : String} (hp : '+' ∉ r.toList) (hs : IsSuffix s) : trimSuffix (r ++ s) = r := by
  obtain ⟨c, hc, rest, hs, hm, hpr⟩ := hs
  have hne {x : Char} {l : List Char} (hx : x ∉ l) : ∀ a ∈ l, (a != x) = true :=
    fun a ha => by simpa using ne_of_mem_of_not_mem ha hx
  rcases mem_pair.1 hc with rfl | rfl
  · simp [trimSuffix, hs, hp, hpr, dropWhile_append_of_pos (hne (mt mem_reverse.1 hm))]
  · simp [trimSuffix, hs, takeWhile_append_of_pos (hne hp)]

/-- The last letter of a prefix is its only separator, so it begins a decorated id only with that separator.
-/
theorem prefix_of_prefix_append {p r rest : List Char} {c : Char} (hc : c ∈ ['-', '+'])
    (hp : p.getLast? = some '-') (hu : ∀ x ∈ p.dropLast, x ∉ ['-', '+'])
    (h : p <+: r ++ c :: rest) : p <+: r ++ ['-'] := by
  induction r generalizing p with
  | nil => rcases p with _ | ⟨x, _ | ⟨y, p⟩⟩ <;> grind
  | cons y r ih => rcases p with _ | ⟨x, _ | ⟨y, p⟩⟩ <;> grind

/-- **The id behind a decorated one.** -/
theorem trimRequestID_decorated_iff (r : String) :
    (∀ p ∈ "" :: enginePrefixes, ∀ s, IsSuffix s → trimRequestID (p ++ r ++ s) = r) ↔
      '+' ∉ r.toList ∧ ∀ p ∈ enginePrefixes, ¬ p.toList <+: r.toList ++ ['-'] := by
  have hw : ∀ p ∈ enginePrefixes, 1 < p.toList.length ∧ p.toList.getLast? = some '-' ∧
      ∀ x ∈ p.toList.dropLast, x ∉ ['-', '+'] := by simp [enginePrefixes]
  constructor
  · intro h
    have hs : IsSuffix "-" := ⟨'-', by simp, [], rfl, by simp, by simp⟩
    refine ⟨?_, fun p hp ⟨t, ht⟩ => ?_⟩
    · have h := h "cmpl-" (by simp [enginePrefixes]) "-" hs
      rw [String.append_assoc, trimRequestID_prefixed mem_cons_self] at h
      exact h ▸ (trimSuffix_spec _).2
    · have he : r ++ "-" = p ++ String.ofList t := by
        rw [← String.toList_inj]
        simpa using ht.symm
      have h := h "" mem_cons_self "-" hs
      rw [String.empty_append, he, trimRequestID_prefixed hp] at h
      have hl := h ▸ (trimSuffix_spec (String.ofList t)).1
      have hle := congrArg length ht
      have hp := (hw p hp).1
      simp only [String.toList_ofList, length_append, length_singleton] at hl hle
      omega
  · rintro ⟨hp, hb⟩ p hpm s hs
    have ht := trimSuffix_append hp hs
    rcases mem_cons.1 hpm with rfl | hpm
    · obtain ⟨c, hc, rest, hs, -⟩ := hs
      rw [String.empty_append, trimRequestID_bare, ht]
      intro p hp hpre
      rw [String.toList_append, hs] at hpre
      exact hb p hp (prefix_of_prefix_append hc (hw p hp).2.1 (hw p hp).2.2 hpre)
    · rw [String.append_assoc, trimRequestID_prefixed hpm, ht]

theorem id_cut_at_plus : trimRequestID ("" ++ "a+b" ++ "-0") ≠ "a+b" := by decide

end

/-! ### Accounts -/

/-- `RequestLocalAccount`: one dispatched request on one instance. -/
structure RequestLocalAccount where
  scheduleTimestampMs : BitVec 64
  inferType : InferType
  numTokens : BitVec 32
  numUncomputedTokens : BitVec 32
  foundInCMS : Bool
  deriving DecidableEq

/-- `InstanceStatusLocalAccount`: the accounts of an instance and its running counters. -/
structure InstanceStatusLocalAccount where
  requestLocalAccount : Finmap fun _ : String => RequestLocalAccount
  numInflightDispatchPrefillRequests : BitVec 32
  numInflightDispatchDecodeRequests : BitVec 32
  numInflightDispatchRequests : BitVec 32
  numUncomputedTokensInflightDispatchPrefillRequests : BitVec 32
  numTokensInflightDispatchDecodeRequests : BitVec 32

def InstanceStatusLocalAccount.empty : InstanceStatusLocalAccount where
  requestLocalAccount := ∅
  numInflightDispatchPrefillRequests := 0
  numInflightDispatchDecodeRequests := 0
  numInflightDispatchRequests := 0
  numUncomputedTokensInflightDispatchPrefillRequests := 0
  numTokensInflightDispatchDecodeRequests := 0

/-- The part of `InstanceStatus` that the editor reads and corrects. -/
structure InstanceStatus where
  recentWaitingRequests : List String
  waitingRequests : List String
  numUncomputedTokensAllWaitingPrefills : BitVec 32
  deriving DecidableEq

/-- `InstanceView`, as far as the editor uses it. -/
structure InstanceView where
  metadataInstanceId : String
  status : InstanceStatus
  localAccount : InstanceStatusLocalAccount

variable (localAccount : InstanceStatusLocalAccount) (instanceView : InstanceView)

def InstanceView.getInstanceId : String :=
  instanceView.metadataInstanceId

def InstanceView.account (reqID : String) : Option RequestLocalAccount :=
  instanceView.localAccount.requestLocalAccount.lookup reqID

/-- `instanceView.RequestLocalAccount[reqID] = &account`. -/
def InstanceView.setAccount (reqID : String) (account : RequestLocalAccount) : InstanceView :=
  { instanceView with
    localAccount := { instanceView.localAccount with
      requestLocalAccount := instanceView.localAccount.requestLocalAccount.insert reqID account } }

/-- `delete(instanceView.RequestLocalAccount, reqID)`. -/
def InstanceView.deleteAccount (reqID : String) : InstanceView :=
  { instanceView with
    localAccount := { instanceView.localAccount with
      requestLocalAccount := instanceView.localAccount.requestLocalAccount.erase reqID } }

/-! ### The editor -/

structure InstanceStatusLocalAccountEditor where
  instanceStatusRequestLocalAccountStalenessSeconds : BitVec 32
  enableCacheAwareScheduling : Bool
  /-- For every request, the instances that hold an account for it. -/
  requestToInstanceIds : Finmap fun _ : String => List String

variable (e : InstanceStatusLocalAccountEditor) (instanceView : InstanceView)

def newInstanceStatusLocalAccountEditor (stalenessSeconds : BitVec 32)
    (enableCacheAwareScheduling : Bool) : InstanceStatusLocalAccountEditor where
  instanceStatusRequestLocalAccountStalenessSeconds := stalenessSeconds
  enableCacheAwareScheduling := enableCacheAwareScheduling
  requestToInstanceIds := ∅

namespace InstanceStatusLocalAccountEditor

/-- Reading the index: an absent request reads as the empty list. -/
def instanceIds (reqID : String) : List String :=
  (e.requestToInstanceIds.lookup reqID).getD []

/-- `removeInstanceFromRequestIndex`: drop the first occurrence of the instance, and an entry that gets empty.
-/
def removeInstanceFromRequestIndex (reqID instanceID : String) : InstanceStatusLocalAccountEditor :=
  if ((e.instanceIds reqID).erase instanceID).isEmpty then
    { e with requestToInstanceIds := e.requestToInstanceIds.erase reqID }
  else
    { e with requestToInstanceIds :=
        e.requestToInstanceIds.insert reqID ((e.instanceIds reqID).erase instanceID) }

/-- The counters of a view after one account has been settled. -/
def decrementCounters (account : RequestLocalAccount) : InstanceStatusLocalAccount :=
  let prefill := account.inferType = .prefill ∨ account.inferType = .neutral
  let decode := account.inferType = .decode ∨ account.inferType = .neutral
  { localAccount with
    numInflightDispatchPrefillRequests :=
      if prefill then localAccount.numInflightDispatchPrefillRequests - 1
      else localAccount.numInflightDispatchPrefillRequests
    numUncomputedTokensInflightDispatchPrefillRequests :=
      if prefill then localAccount.numUncomputedTokensInflightDispatchPrefillRequests
        - account.numUncomputedTokens
      else localAccount.numUncomputedTokensInflightDispatchPrefillRequests
    numInflightDispatchDecodeRequests :=
      if decode then localAccount.numInflightDispatchDecodeRequests - 1
      else localAccount.numInflightDispatchDecodeRequests
    numTokensInflightDispatchDecodeRequests :=
      if decode then localAccount.numTokensInflightDispatchDecodeRequests - account.numTokens
      else localAccount.numTokensInflightDispatchDecodeRequests
    numInflightDispatchRequests := localAccount.numInflightDispatchRequests - 1 }

/-- `deleteRequestLocalAccount`: settle the counters of a request and, if asked to, forget it. -/
def deleteRequestLocalAccount (instanceID reqID : String) (deleteRequest : Bool) :
    InstanceStatusLocalAccountEditor × InstanceView :=
  match instanceView.account reqID with
  | none => (e, instanceView)
  | some account =>
    let settled := { instanceView with
      localAccount := decrementCounters instanceView.localAccount account }
    if deleteRequest then
      (e.removeInstanceFromRequestIndex reqID instanceID, settled.deleteAccount reqID)
    else (e, settled)

/-- The account has not shown up in the status for `stalenessSeconds` or longer. -/
def isStale (account : RequestLocalAccount) (now : BitVec 64) : Bool :=
  (e.instanceStatusRequestLocalAccountStalenessSeconds.signExtend 64).sle
    ((now - account.scheduleTimestampMs).sdiv 1000)

/-- One turn of the loop in `updateInstanceStatusLocalAccount`. The second test sees the flag that the first
one may have set. -/
def updateRequest (recentWaitingReqs waitingReqs : Finset String) (instanceID : String)
    (now : String → BitVec 64) (st : InstanceStatusLocalAccountEditor × InstanceView)
    (reqID : String) : InstanceStatusLocalAccountEditor × InstanceView :=
  match st.2.account reqID with
  | none => st
  | some account =>
    let newlyFound : Bool := !account.foundInCMS && decide (reqID ∈ recentWaitingReqs)
    let found := account.foundInCMS || newlyFound
    let st := if newlyFound then
        st.1.deleteRequestLocalAccount
          (st.2.setAccount reqID { account with foundInCMS := true }) instanceID reqID false
      else st
    let st := if found && decide (reqID ∉ waitingReqs) then
        (st.1.removeInstanceFromRequestIndex reqID instanceID, st.2.deleteAccount reqID)
      else st
    if !found && decide (reqID ∉ waitingReqs) && st.1.isStale account (now reqID) then
      st.1.deleteRequestLocalAccount st.2 instanceID reqID true
    else st

/-- The uncomputed tokens of the listed requests that have an account. -/
def waitingUncomputedTokens (waitingReqList : List String) : BitVec 32 :=
  waitingReqList.foldl (fun sum reqID =>
    match instanceView.account reqID with
    | some account => sum + account.numUncomputedTokens
    | none => sum) 0

/-- `updateInstanceStatusLocalAccount`: confirm what the status shows, drop what it no longer needs, give up
on what it never showed, and correct the waiting tokens. `order` is the order of the loop, `now` what the
clock shows at each account. -/
def updateInstanceStatusLocalAccount (instanceID : String) (order : List String)
    (now : String → BitVec 64) : InstanceStatusLocalAccountEditor × InstanceView :=
  let recentWaitingReqs := trimRequestIDsToSets instanceView.status.recentWaitingRequests
  let waitingReqs := trimRequestIDsToSets instanceView.status.waitingRequests
  let st := order.foldl (updateRequest recentWaitingReqs waitingReqs instanceID now)
    (e, instanceView)
  let waitingReqList := trimRequestIDsToList instanceView.status.waitingRequests
  if e.enableCacheAwareScheduling && !waitingReqList.isEmpty then
    (st.1, { st.2 with
      status := { st.2.status with
        numUncomputedTokensAllWaitingPrefills := waitingUncomputedTokens st.2 waitingReqList } })
  else st

/-- The counters of a view after the counters of one stage, or of both, have been raised. -/
def incrementCounters (inferType : InferType)
    (numTokens numUncomputedTokens : BitVec 32) : InstanceStatusLocalAccount :=
  let prefill := inferType = .prefill ∨ inferType = .neutral
  let decode := inferType = .decode ∨ inferType = .neutral
  { localAccount with
    numInflightDispatchPrefillRequests :=
      if prefill then localAccount.numInflightDispatchPrefillRequests + 1
      else localAccount.numInflightDispatchPrefillRequests
    numUncomputedTokensInflightDispatchPrefillRequests :=
      if prefill then localAccount.numUncomputedTokensInflightDispatchPrefillRequests
        + numUncomputedTokens
      else localAccount.numUncomputedTokensInflightDispatchPrefillRequests
    numInflightDispatchDecodeRequests :=
      if decode then localAccount.numInflightDispatchDecodeRequests + 1
      else localAccount.numInflightDispatchDecodeRequests
    numTokensInflightDispatchDecodeRequests :=
      if decode then localAccount.numTokensInflightDispatchDecodeRequests + numTokens
      else localAccount.numTokensInflightDispatchDecodeRequests }

/-- The tokens of a request that the prefix cache of the instance does not cover. -/
def uncomputedTokens (numTokens prefixHitNumTokens : BitVec 32) : BitVec 32 :=
  if e.enableCacheAwareScheduling then numTokens - prefixHitNumTokens else numTokens

/-- `addRequestLocalAccount`. A second add for a request is skipped, or adds its own stage and marks the
account as holding both. -/
def addRequestLocalAccount
    (inferType : InferType) (numTokens prefixHitNumTokens : BitVec 32) (requestId : String)
    (now : BitVec 64) : InstanceStatusLocalAccountEditor × InstanceView :=
  let numUncomputedTokens := e.uncomputedTokens numTokens prefixHitNumTokens
  let raised := { instanceView with
    localAccount :=
      incrementCounters instanceView.localAccount inferType numTokens numUncomputedTokens }
  match instanceView.account requestId with
  | some existing =>
    if existing.inferType = inferType ∨ existing.inferType = .neutral then (e, instanceView)
    else (e, raised.setAccount requestId { existing with inferType := .neutral })
  | none =>
    let first : InstanceView := { raised with
      localAccount := { raised.localAccount with
        numInflightDispatchRequests := raised.localAccount.numInflightDispatchRequests + 1 } }
    ({ e with
        requestToInstanceIds := e.requestToInstanceIds.insert requestId
          (e.instanceIds requestId ++ [instanceView.getInstanceId]) },
      first.setAccount requestId
        { scheduleTimestampMs := now
          inferType := inferType
          numTokens := numTokens
          numUncomputedTokens := numUncomputedTokens
          foundInCMS := false })

/-- `revertRequestPrefillLocalAccount`: undo the prefill add of a request for which no decode instance
was found. -/
def revertRequestPrefillLocalAccount (numTokens prefixHitNumTokens : BitVec 32) (requestId : String) :
    InstanceStatusLocalAccountEditor × InstanceView :=
  let lowered : InstanceView := { instanceView with
    localAccount := { instanceView.localAccount with
      numInflightDispatchPrefillRequests :=
        instanceView.localAccount.numInflightDispatchPrefillRequests - 1
      numUncomputedTokensInflightDispatchPrefillRequests :=
        instanceView.localAccount.numUncomputedTokensInflightDispatchPrefillRequests
          - e.uncomputedTokens numTokens prefixHitNumTokens } }
  ({ e with requestToInstanceIds := e.requestToInstanceIds.erase requestId },
    lowered.deleteAccount requestId)

end InstanceStatusLocalAccountEditor

/-! ### The accounts of all instances -/

abbrev Ref := Nat

/-- The editor, the view objects and the views the read client currently serves. -/
structure Accounts where
  editor : InstanceStatusLocalAccountEditor
  /-- The view objects, among them those that a refresh has dropped. -/
  heap : Finmap fun _ : Ref => InstanceView
  nextRef : Ref
  instanceViews : Finmap fun _ : String => Ref

/-- A read client that has seen no instance yet. -/
def Accounts.init (stalenessSeconds : BitVec 32) (enableCacheAwareScheduling : Bool) :
    Accounts where
  editor := newInstanceStatusLocalAccountEditor stalenessSeconds enableCacheAwareScheduling
  heap := ∅
  nextRef := 0
  instanceViews := ∅

variable (s : Accounts)

namespace Accounts

def store (ref : Ref) (r : InstanceStatusLocalAccountEditor × InstanceView) : Accounts :=
  { s with editor := r.1, heap := s.heap.insert ref r.2 }

/-- What `append(ids[:i], ids[i+1:]...)` leaves in the backing array: the last cell keeps its content. -/
def spliceBacking (backing : List String) (len : Nat) (instanceID : String) : List String :=
  if instanceID ∈ backing.take len then
    (backing.take len).erase instanceID ++ backing.drop (len - 1)
  else backing

/-- One turn of the loop in `removeRequestLocalAccount`. The index entry shares the backing array of the slice
the loop ranges over: removing an instance shifts the cells that the loop has yet to read. -/
def removeTurn (requestId : String) (st : List String × Accounts) (i : Nat) :
    List String × Accounts :=
  match st.1[i]? with
  | none => st
  | some instanceId =>
    let backing := spliceBacking st.1 (st.2.editor.instanceIds requestId).length instanceId
    match st.2.instanceViews.lookup instanceId with
    | none =>
      (backing, { st.2 with
        editor := st.2.editor.removeInstanceFromRequestIndex requestId instanceId })
    | some ref =>
      match st.2.heap.lookup ref with
      | none => st
      | some instanceView =>
        if (instanceView.account requestId).isSome then
          (backing, st.2.store ref
            (st.2.editor.deleteRequestLocalAccount instanceView instanceId requestId true))
        else st

def removeRequestLocalAccount (requestId : String) : Accounts :=
  let instanceIds := s.editor.instanceIds requestId
  ((List.range instanceIds.length).foldl (removeTurn requestId) (instanceIds, s)).2

/-- The part of `refreshInstanceStatus` that creates the view of an instance. -/
def createView (instanceID metadataInstanceId : String) : Accounts :=
  { s with
    heap := s.heap.insert s.nextRef
      { metadataInstanceId := metadataInstanceId
        status := ⟨[], [], 0⟩
        localAccount := .empty }
    nextRef := s.nextRef + 1
    instanceViews := s.instanceViews.insert instanceID s.nextRef }

/-- The part of `refreshInstanceStatus` that drops the view of an instance. -/
def dropView (instanceID : String) : Accounts :=
  { s with instanceViews := s.instanceViews.erase instanceID }

end Accounts

/-- The calls that change accounts, with every choice of the environment as an argument. -/
inductive Action
  /-- A refresh meets an instance that has no view. -/
  | createView (instanceID metadataInstanceId : String)
  /-- A refresh finds that an instance has gone. -/
  | dropView (instanceID : String)
  /-- `AddRequestLocalAccount` on a view object. -/
  | add (ref : Ref) (inferType : InferType) (numTokens prefixHitNumTokens : BitVec 32)
      (requestId : String) (now : BitVec 64)
  /-- A refresh stores a newer status of an instance and updates its account. -/
  | update (instanceID : String) (status : InstanceStatus) (order : List String)
      (now : String → BitVec 64)
  /-- `RevertRequestPrefillLocalAccount` on a view object. -/
  | revert (ref : Ref) (numTokens prefixHitNumTokens : BitVec 32) (requestId : String)
  | remove (requestId : String)

/-- **What a call does.** It is impossible if it names a view that does not exist, or an iteration order that
is not one of its map. -/
def exec : Action → Option Accounts
  | .createView instanceID metadataInstanceId => some (s.createView instanceID metadataInstanceId)
  | .dropView instanceID => some (s.dropView instanceID)
  | .add ref inferType numTokens prefixHitNumTokens requestId now =>
    (s.heap.lookup ref).map fun instanceView => s.store ref
      (s.editor.addRequestLocalAccount instanceView inferType numTokens prefixHitNumTokens
        requestId now)
  | .update instanceID status order now =>
    (s.instanceViews.lookup instanceID).bind fun ref =>
      (s.heap.lookup ref).bind fun instanceView =>
        if Enumerates order instanceView.localAccount.requestLocalAccount.keys then
          some (s.store ref (s.editor.updateInstanceStatusLocalAccount
            { instanceView with status := status } instanceID order now))
        else none
  | .revert ref numTokens prefixHitNumTokens requestId =>
    (s.heap.lookup ref).map fun instanceView => s.store ref
      (s.editor.revertRequestPrefillLocalAccount instanceView numTokens prefixHitNumTokens
        requestId)
  | .remove requestId => some (s.removeRequestLocalAccount requestId)

end Llumnix.Cms
