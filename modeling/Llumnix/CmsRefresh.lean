/-
**A refresh of the statuses, with everything it stores.**

`Llumnix/CmsClient.lean` leaves three things to its environment: what decoding leaves of a payload, what the
local account of an instance makes of its status, and the samples for the predictor of the time to the first
token.  This module models `refreshInstanceStatus` of `pkg/cms/cms_read_client.go` with all three.

* `Books.updateStatus_spec` — **a turn is one of `Llumnix/CmsClient.lean`**, and when it adds a sample;
* `updateStatus_onSlot` — **a turn changes the slot of its own instance, and no other one**;
* `Books.refreshStatuses_turn` — **a refresh, for one instance**.
-/

import Llumnix.CmsCoherence
import Llumnix.CmsWaiting

namespace Llumnix.ReadClient

open FiniteMap GuardedRun CMSReadClient Option Function

/-! ### Decoding -/

/-- `proto.Unmarshal`: whether it succeeds, and the message afterwards. Unless it merges, it resets the
message first. -/
structure Unmarshal (Bytes : Type) where
  decode : Bytes → InstanceStatus → Bool × InstanceStatus
  resets : ∀ bytes m m', decode bytes m = decode bytes m'

variable (enableAdaptivePD : Bool) (editor : Cms.InstanceStatusLocalAccountEditor) {Bytes : Type}

/-- What is in the buffer after a payload has been decoded. -/
def Unmarshal.content (U : Unmarshal Bytes) (bytes : Bytes) : InstanceStatus :=
  (U.decode bytes .initial).2

theorem Unmarshal.content_eq (U : Unmarshal Bytes) (bytes : Bytes)
    (m : InstanceStatus) : (U.decode bytes m).2 = U.content bytes := by
  rw [content, U.resets bytes m .initial]

/-- The message after `proto.Reset`. -/
def InstanceStatus.zero : InstanceStatus :=
  ⟨0, 0, false, 0, 0, 0, 0, 0, 0, { StatusDetails.initial with stepId := 0, profilingId := 0 }⟩

/-! ### The state -/

/-- A sample of the predictor, with the instance and profiling id of its payload; the duration is given by its
bits. -/
structure Sample where
  instanceID : String
  profilingId : BitVec 32
  numScheduledPrefillTokens : BitVec 32
  stepDuration : BitVec 64
  deriving DecidableEq

structure Features where
  enableInstanceStatusLocalAccount : Bool
  enablePredictorEnhancedScheduling : Bool

/-- What a refresh of the statuses depends on. -/
structure StatusInput (Bytes : Type) where
  /-- What Redis has for the status of an instance. -/
  values : String → Option Bytes
  order : List String
  /-- The order of the loop over the requests of an instance, and what the clock shows in it. -/
  accountOrder : String → List String
  now : String → String → BitVec 64
  recorderPanics : String → Bool

/-- **The client with everything a refresh stores.** -/
structure Books where
  client : CMSReadClient
  statusUnmarshalBuffer : InstanceStatus
  accounts : Ref → Cms.InstanceStatusLocalAccount
  instanceStatusLocalAccountEditor : Cms.InstanceStatusLocalAccountEditor
  /-- The samples of `TTFTPredictor`. -/
  samples : List Sample

/-! ### A turn of the loop -/

/-- `duration <= 0.0`, on the bits of the number: it is not `NaN`, and has a sign or is zero. -/
def leZero (bits : BitVec 64) : Bool :=
  let magnitude := bits &&& 0x7FFFFFFFFFFFFFFF#64
  !(0x7FF0000000000000#64).ult magnitude && (bits.msb || magnitude == 0)

namespace Books

/-- A view as the editor sees it, which is given the id and does not ask the view for it. -/
def editorView (status : InstanceStatus) (account : Cms.InstanceStatusLocalAccount) : Cms.InstanceView where
  metadataInstanceId := ""
  status := ⟨status.details.recentWaitingRequests, status.details.waitingRequests,
    status.numUncomputedTokensAllWaitingPrefills⟩
  localAccount := account

/-- `updateInstanceStatusLocalAccount`, on the view of an instance. -/
def updateLocalAccount (r : StatusInput Bytes) (b : Books) (instanceID : String) (view : Ref) : Books :=
  let ref := (b.client.view view).status
  let status := b.client.status ref
  let edited := b.instanceStatusLocalAccountEditor.updateInstanceStatusLocalAccount
    (editorView status (b.accounts view)) instanceID (r.accountOrder instanceID) (r.now instanceID)
  { b with
    client := writeStatus b.client ref { status with
      numUncomputedTokensAllWaitingPrefills :=
        edited.2.status.numUncomputedTokensAllWaitingPrefills }
    accounts := update b.accounts view edited.2.localAccount
    instanceStatusLocalAccountEditor := edited.1 }

/-- `addSampleToTTFTPredictor`; `profilingId` is the one of the payload. -/
def addSampleToTTFTPredictor (b : Books) (instanceID : String) (view : Ref)
    (profilingId : BitVec 32) : Books :=
  let details := (b.client.status (b.client.view view).status).details
  if (b.client.view view).inst.inferType ≠ "prefill" then b
  else if details.numScheduledPrefillTokens = 0 ∨ leZero details.stepDuration then b
  else { b with
    samples := b.samples ++
      [⟨instanceID, profilingId, details.numScheduledPrefillTokens, details.stepDuration⟩] }

/-- The payload does not bring a new profiling id. -/
def sameProfile (buffer old : InstanceStatus) : Bool :=
  buffer.details.profilingId = -1 || buffer.details.profilingId.sle old.details.profilingId

/-- What a turn does with the view after the status has been stored. -/
def followUp (f : Features) (r : StatusInput Bytes) (b : Books) (instanceID : String)
    (view : Ref) (updateInstanceStatus updateTTFTPredictor : Bool) (profilingId : BitVec 32) : Books :=
  let b := if f.enableInstanceStatusLocalAccount && updateInstanceStatus then
    b.updateLocalAccount r instanceID view else b
  if f.enablePredictorEnhancedScheduling && updateTTFTPredictor then
    b.addSampleToTTFTPredictor instanceID view profilingId else b

/-- The buffer is merged into a status, and cleared. -/
def mergeBuffer (b : Books) (ref : Ref) : Books :=
  { b with
    client := writeStatus b.client ref (mergeStatus (b.client.status ref) b.statusUnmarshalBuffer id)
    statusUnmarshalBuffer := .zero }

/-- The rest of a turn, when the payload has been decoded. -/
def storeStatus (f : Features) (r : StatusInput Bytes) (b : Books)
    (instanceID : String) : Except Books Books :=
  match b.client.instanceStatuses.lookup instanceID with
  | none => .error b
  | some ref =>
    let old := b.client.status ref
    let buffer := b.statusUnmarshalBuffer
    if buffer.timestampMs ≤ old.timestampMs then .ok b
    else
      let updateInstanceStatus : Bool := !decide (buffer.updateId ≤ old.updateId)
      let updateTTFTPredictor : Bool := !sameProfile buffer old
      let b := b.mergeBuffer ref
      -- all that follows needs the view
      match b.client.instanceViews.lookup instanceID with
      | none => .error b
      | some view =>
        let b := b.followUp f r instanceID view updateInstanceStatus updateTTFTPredictor
          buffer.details.profilingId
        if r.recorderPanics instanceID then .error b else .ok b

/-- A view that is about to be made has an empty account. -/
def newAccount (b : Books) (instanceID : String) : Ref → Cms.InstanceStatusLocalAccount :=
  match b.client.instanceStatuses.lookup instanceID with
  | none => update b.accounts (b.client.nextRef + 1) .empty
  | some _ => b.accounts

/-- **One turn of the loop over the payloads.**  An error of decoding is reported, and nothing else. -/
def updateStatus (U : Unmarshal Bytes) (f : Features) (r : StatusInput Bytes)
    (b : Books) (instanceID : String) : Except Books Books :=
  match r.values instanceID with
  | none => .ok { b with client := b.client.dropInstance instanceID }
  | some bytes =>
    match b.client.instanceMetadatas.lookup instanceID with
    | none => .ok b
    | some metadata =>
      match b.client.ensureView instanceID metadata with
      | .error c => .error { b with client := c }
      | .ok c =>
        storeStatus f r { b with
          client := c
          accounts := b.newAccount instanceID
          statusUnmarshalBuffer := (U.decode bytes b.statusUnmarshalBuffer).2 } instanceID

/-- A loop that ends at the first panic. -/
def loop (turn : Books → String → Except Books Books) : List String → Books → Except Books Books
  | [], b => .ok b
  | instanceID :: rest, b =>
    match turn b instanceID with
    | .error b => .error b
    | .ok b => loop turn rest b

/-- The refresh before the loop over the payloads. -/
def forgetStatuses (r : StatusInput Bytes) (b : Books) : Books :=
  { b with client := r.order.foldl forgetStatus { b.client with isAlive := true } }

/-- **`refreshInstanceStatus`** after Redis has answered, without the reservation and the fit. -/
def refreshStatuses (U : Unmarshal Bytes) (f : Features) (r : StatusInput Bytes)
    (b : Books) : Except Books Books :=
  loop (updateStatus U f r) b.client.instanceIDs (b.forgetStatuses r)

/-- What is left of a computation, whether it has panicked or not. -/
def recover : Except Books Books → Books
  | .error b => b
  | .ok b => b

/-- The client in the result of a computation. -/
def clientOf : Except Books Books → Except CMSReadClient CMSReadClient
  | .error b => .error b.client
  | .ok b => .ok b.client

theorem recover_clientOf (e : Except Books Books) :
    ReadClient.recover (clientOf e) = (recover e).client := by
  cases e <;> rfl

end Books

/-! ### Status objects -/

/-- Different instances have different status objects. -/
structure StatusObjects (c : CMSReadClient) : Prop where
  distinct : ∀ i j ref, c.instanceStatuses.lookup i = some ref →
    c.instanceStatuses.lookup j = some ref → i = j
  made : ∀ i ref, c.instanceStatuses.lookup i = some ref → ref < c.nextRef

section

variable {c c' : CMSReadClient} {id : String}

theorem StatusObjects.of_subset (h : StatusObjects c)
    (hs : ∀ i ref, c'.instanceStatuses.lookup i = some ref → c.instanceStatuses.lookup i = some ref)
    (hn : c.nextRef ≤ c'.nextRef) : StatusObjects c' where
  distinct := fun i j ref hi hj => h.distinct i j ref (hs i ref hi) (hs j ref hj)
  made := fun i ref hi => Nat.lt_of_lt_of_le (h.made i ref (hs i ref hi)) hn

theorem StatusObjects.congr (h : StatusObjects c) (hs : c'.instanceStatuses = c.instanceStatuses)
    (hn : c.nextRef ≤ c'.nextRef) : StatusObjects c' :=
  h.of_subset (fun _ _ hi => hs ▸ hi) hn

theorem StatusObjects.insert (h : StatusObjects c) (hl : ∀ j, c'.instanceStatuses.lookup j =
      if j = id then some c.nextRef else c.instanceStatuses.lookup j)
    (hne : c.nextRef < c'.nextRef) : StatusObjects c' := by
  have hc : ∀ j ref, c'.instanceStatuses.lookup j = some ref →
      (j = id ∧ ref = c.nextRef) ∨ (c.instanceStatuses.lookup j = some ref ∧ ref < c.nextRef) := by
    intro j ref hr
    rw [hl] at hr
    split at hr
    · next hj => exact .inl ⟨hj, (some.inj hr).symm⟩
    · exact .inr ⟨hr, h.made j ref hr⟩
  refine ⟨fun i j ref hi hj => ?_, fun j ref hr => ?_⟩
  · rcases hc i ref hi with ⟨hi, hn⟩ | ⟨hi, hold⟩
    · rcases hc j ref hj with ⟨hj, -⟩ | ⟨-, hold⟩
      · exact hi.trans hj.symm
      · exact absurd hn (Nat.ne_of_lt hold)
    · rcases hc j ref hj with ⟨-, hn⟩ | ⟨hj, -⟩
      · exact absurd hn (Nat.ne_of_lt hold)
      · exact h.distinct i j ref hi hj
  · rcases hc j ref hr with ⟨-, hn⟩ | ⟨-, hold⟩
    · exact hn ▸ hne
    · exact Nat.lt_trans hold hne

theorem statusOf_eq (hl : c'.instanceStatuses.lookup id = c.instanceStatuses.lookup id)
    (hs : ∀ ref, c.instanceStatuses.lookup id = some ref → c'.status ref = c.status ref) :
    c'.statusOf id = c.statusOf id := by
  unfold statusOf
  rw [hl]
  cases hr : c.instanceStatuses.lookup id with
  | none => rfl
  | some ref => exact hs ref hr

/-- A new status is the one that counts for an instance without a status. -/
theorem statusOf_insert (h : StatusObjects c) (hn : c.instanceStatuses.lookup id = none)
    (hl : ∀ j, c'.instanceStatuses.lookup j =
      if j = id then some c.nextRef else c.instanceStatuses.lookup j)
    (hs : c'.status = update c.status c.nextRef .initial) (j : String) :
    c'.statusOf j = c.statusOf j := by
  by_cases hj : j = id
  · subst hj
    unfold statusOf
    rw [hl, if_pos rfl, hn, hs]
    exact update_self _ _ _
  · refine statusOf_eq ((hl j).trans (if_neg hj)) fun ref hr => ?_
    rw [hs]
    exact update_of_ne (Nat.ne_of_lt (h.made j ref hr)) _ _

theorem statusObjects_updateStatus (h : StatusObjects c) (r : StatusRead) (i : String) :
    StatusObjects (recover (c.updateStatus r i)) := by
  have hcr : ∀ j, (c.createStatus i).instanceStatuses.lookup j =
      if j = i then some c.nextRef else c.instanceStatuses.lookup j := fun j => lookup_insert_ite _ _ _ _
  refine recover_updateStatus h (fun _ => h.of_subset (fun j ref hj => ?_) (Nat.le_refl _))
    (fun _ _ _ _ => h.insert hcr (Nat.lt_succ_self _))
    (fun _ _ _ _ _ => h.insert hcr (Nat.lt_succ_of_lt (Nat.lt_succ_self _)))
    fun _ _ _ _ hc' _ _ => hc'.congr rfl (Nat.le_refl _)
  have hl : (c.instanceStatuses.erase i).lookup j = some ref := hj
  rw [lookup_erase_ite] at hl
  split at hl
  · cases hl
  · exact hl

theorem statusObjects_forgetStatus (h : StatusObjects c) (i : String) :
    StatusObjects (c.forgetStatus i) := by
  refine h.of_subset (fun j ref hj => ?_) (sameMetadata_forgetStatus c i).nextRef
  rw [lookup_forgetStatus] at hj
  split at hj
  · cases hj
  · exact hj

theorem statusObjects_setReservedInstance (h : StatusObjects c) (order : List String) :
    StatusObjects (recover (c.setReservedInstance order)) := by
  refine recover_setReservedInstance (fun c' role i hc' => ?_) h
  have ht := setReserved_tables c' role i
  have hs := hc'.congr ht.instanceStatuses (Nat.le_of_eq ht.nextRef.symm)
  exact recover_reserve hs fun _ _ => hs.congr rfl (Nat.le_refl _)

theorem statusObjects_start (enableAdaptivePD : Bool) :
    StatusObjects (State.start enableAdaptivePD).client where
  distinct := fun i j ref h => by cases h
  made := fun i ref h => by cases h

end

/-! ### A view has the status of its id -/

/-- **A view has the status of its id.** -/
def Attached (c : CMSReadClient) : Prop :=
  ∀ id view, c.instanceViews.lookup id = some view →
    c.instanceStatuses.lookup id = some (c.view view).status ∧ view < c.nextRef

section

variable {c c' : CMSReadClient}

section

variable (h : Attached c)
include h

theorem Attached.of_subset
    (hsu : ∀ id view, c'.instanceViews.lookup id = some view → c.instanceViews.lookup id = some view ∧
      c'.instanceStatuses.lookup id = c.instanceStatuses.lookup id)
    (hv : ∀ view, (c'.view view).status = (c.view view).status) (hn : c.nextRef ≤ c'.nextRef) :
    Attached c' := by
  intro id view hid
  obtain ⟨hold, hs⟩ := hsu id view hid
  obtain ⟨ha, hm⟩ := h id view hold
  rw [hs, hv]
  exact ⟨ha, Nat.lt_of_lt_of_le hm hn⟩

theorem attached_dropInstance (i : String) : Attached (c.dropInstance i) := by
  refine h.of_subset (fun id view hid => ?_) (fun _ => rfl) (Nat.le_refl _)
  have hv : (c.instanceViews.erase i).lookup id = some view := hid
  rw [lookup_erase_ite] at hv
  split at hv
  · cases hv
  · next hne => exact ⟨hv, (lookup_erase_ite _ _ _).trans (if_neg hne)⟩

theorem attached_createStatus {i : String}
    (hn : c.instanceStatuses.lookup i = none) : Attached (c.createStatus i) := by
  refine h.of_subset (fun id view hid => ⟨hid, ?_⟩) (fun _ => rfl) (Nat.le_succ _)
  have hne : id ≠ i := by
    rintro rfl
    rw [(h id view hid).1] at hn
    cases hn
  exact (lookup_insert_ite _ _ _ _).trans (if_neg hne)

theorem attached_createView (i : String) (metadata : Ref) :
    Attached ((c.createStatus i).createView i metadata c.nextRef) := by
  obtain ⟨hv, hs, hn, hold, hm⟩ := createView_spec c i metadata rfl fun id view hid => (h id view hid).2
  intro id view hid
  refine ⟨?_, hm id view hid⟩
  rw [hv] at hid
  rw [hs]
  split at hid
  · next hi =>
    cases hid
    rw [if_pos hi, hn]
  · next hi =>
    rw [if_neg hi, (hold id view hid).2]
    exact (h id view hid).1

theorem attached_updateStatus (r : StatusRead) (i : String) : Attached (recover (c.updateStatus r i)) :=
  recover_updateStatus h (fun _ => attached_dropInstance h i) (fun _ _ hn _ => attached_createStatus h hn)
    (fun _ _ _ _ _ => attached_createView h i _)
    fun _ _ _ _ hc' _ _ => hc'.of_subset (fun _ _ hid => ⟨hid, rfl⟩) (fun _ => rfl) (Nat.le_refl _)

theorem attached_of_sameTables (hs : SameTables c c') : Attached c' := by
  refine h.of_subset (fun id view hid => ?_) (fun view => ?_) (Nat.le_of_eq hs.nextRef.symm)
  · rw [hs.instanceViews] at hid
    exact ⟨hid, by rw [hs.instanceStatuses]⟩
  · rw [hs.view]

theorem attached_forgetStatus (i : String) : Attached (c.forgetStatus i) := by
  unfold forgetStatus
  split
  · exact h
  · exact attached_of_sameTables (attached_dropInstance h i)
      ((release_tables _ i .prefill).trans (release_tables _ i .decode))

theorem attached_setReservedInstance (order : List String) :
    Attached (recover (c.setReservedInstance order)) := by
  refine recover_setReservedInstance (fun c' role i hc' => ?_) h
  have hs := attached_of_sameTables hc' (setReserved_tables c' role i)
  refine recover_reserve hs fun view _ => ?_
  refine hs.of_subset (fun _ _ hid => ⟨hid, rfl⟩) (fun view' => ?_) (Nat.le_refl _)
  by_cases hv : view' = view
  · subst hv
    simp [markView]
  · simp [markView, hv]

theorem attached_refreshInstanceMetadata (r : MetadataRead) (order : List String) :
    Attached (c.refreshInstanceMetadata r order) := by
  obtain ⟨hv, hn⟩ := sameViews_refreshInstanceMetadata c r order
  refine h.of_subset (fun id view hid => ?_) (fun view => ?_) hn
  · rw [hv.instanceViews] at hid
    exact ⟨hid, by rw [hv.instanceStatuses]⟩
  · rw [hv.view]

end

theorem attached_start : Attached (State.start enableAdaptivePD).client := by
  intro id view hid
  cases hid

end

/-- What the tables of a client always satisfy. -/
structure Sound (c : CMSReadClient) : Prop where
  attached : Attached c
  objects : StatusObjects c

theorem Sound.view_ne {c : CMSReadClient} (h : Sound c) {i j : String} (hij : i ≠ j) {view view' : Ref}
    (hi : c.instanceViews.lookup i = some view) (hj : c.instanceViews.lookup j = some view') :
    view ≠ view' := by
  rintro rfl
  exact hij (h.objects.distinct i j _ (h.attached i view hi).1 (h.attached j view hj).1)

/-- A new status is an initial one, so nothing about a status changes when it is made. -/
theorem ensureView_spec {c c' : CMSReadClient} (h : Sound c) {i : String} {metadata : Option Ref}
    (he : c.ensureView i metadata = .ok c') : Sound c' ∧ ∀ j, c'.statusOf j = c.statusOf j := by
  unfold ensureView at he
  split at he
  · cases he
    exact ⟨h, fun _ => rfl⟩
  · next hn =>
    split at he <;> cases he
    have hl := fun j => lookup_insert_ite c.instanceStatuses i j c.nextRef
    exact ⟨⟨attached_createView h.attached i _, h.objects.insert hl (by simp [createView, createStatus])⟩,
      statusOf_insert h.objects hn hl rfl⟩

/-! ### What is stored for an instance -/

/-- **What is stored for an instance**: its status, and its view with the local account. -/
def Books.entry (b : Books) (id : String) : Option InstanceStatus ×
    Option (InstanceMetadata × ViewInstance × InferType × Cms.InstanceStatusLocalAccount) :=
  ((b.client.instanceStatuses.lookup id).map b.client.status,
    (b.client.instanceViews.lookup id).map fun view =>
      (b.client.metadata (b.client.view view).metadata, (b.client.view view).inst,
        (b.client.view view).reservedInferType, b.accounts view))

/-- The local account in the turn of an instance; empty for a new status, and none without a view. -/
def Books.accountOf (b : Books) (id : String) : Option Cms.InstanceStatusLocalAccount :=
  if (b.entry id).1.isNone then some .empty else (b.entry id).2.map (·.2.2.2)

/-- The number of waiting tokens of a payload, with the correction of a local account. -/
def Books.tokens (f : Features) (editor : Cms.InstanceStatusLocalAccountEditor) (p : InstanceStatus)
    (account : Cms.InstanceStatusLocalAccount) : BitVec 32 :=
  if f.enableInstanceStatusLocalAccount ∧ editor.enableCacheAwareScheduling ∧
      p.details.waitingRequests ≠ [] then
    Cms.InstanceStatusLocalAccountEditor.waitingUncomputedTokens (editorView p account)
      (Cms.trimRequestIDsToList p.details.waitingRequests)
  else p.numUncomputedTokensAllWaitingPrefills

/-- **What becomes of the waiting tokens of a payload**: with local accounts and cache-aware scheduling, those
of the waiting requests as far as the account knows them. -/
def Books.waitingTokens (f : Features) (b : Books) (id : String) (p : InstanceStatus) : BitVec 32 :=
  (b.accountOf id).elim p.numUncomputedTokensAllWaitingPrefills
    (tokens f b.instanceStatusLocalAccountEditor p)

/-! ### A turn, on the tables -/

/-- What a turn knows of an instance: its status, and whether it has a view. -/
structure Slot where
  status : Option InstanceStatus
  viewed : Bool

def slotOf (c : CMSReadClient) (id : String) : Slot :=
  ⟨(c.instanceStatuses.lookup id).map c.status, (c.instanceViews.lookup id).isSome⟩

/-- What a turn reads, as the tables see it. -/
def StatusInput.read (r : StatusInput Bytes) (U : Unmarshal Bytes) (f : Features) (b : Books) :
    StatusRead where
  values := fun id => (r.values id).map U.content
  correction := fun id tokens => (r.values id).elim tokens fun bytes => b.waitingTokens f id (U.content bytes)
  recorderPanics := r.recorderPanics
  order := r.order

namespace Books

variable {Bytes : Type} (U : Unmarshal Bytes) (f : Features) (r : StatusInput Bytes)

/-- **A turn has added a sample**: the payload has a newer time and a new profiling id, the values are those
stored. -/
structure Adds (f : Features) (i : String) (old buffer : InstanceStatus) (b b' : Books) : Prop where
  enabled : f.enablePredictorEnhancedScheduling = true
  newer : old.timestampMs < buffer.timestampMs
  profile : sameProfile buffer old = false
  samples : b'.samples = b.samples ++ [⟨i, buffer.details.profilingId,
    (mergeStatus old buffer id).details.numScheduledPrefillTokens,
    (mergeStatus old buffer id).details.stepDuration⟩]

/-- The status after the local account has corrected it, if the update is a new one. -/
def afterAccount (f : Features) (b : Books) (view : Ref) (merged : InstanceStatus)
    (updateInstanceStatus : Bool) : InstanceStatus :=
  if updateInstanceStatus then { merged with
    numUncomputedTokensAllWaitingPrefills :=
      tokens f b.instanceStatusLocalAccountEditor merged (b.accounts view) } else merged

/-- What follows on a status that has been stored: the local account corrects it, and then it may be
sampled. -/
theorem followUp_spec {b : Books} {c : CMSReadClient} {ref view : Ref} {merged : InstanceStatus}
    (hcl : b.client = writeStatus c ref merged) (hv : (c.view view).status = ref)
    (i : String) (updateInstanceStatus updateTTFTPredictor : Bool) (profilingId : BitVec 32) {b' : Books}
    (hb' : b' = b.followUp f r i view updateInstanceStatus updateTTFTPredictor profilingId) :
    b'.client = writeStatus c ref (b.afterAccount f view merged updateInstanceStatus) ∧
      (b'.samples = b.samples ∨
        ((f.enablePredictorEnhancedScheduling = true ∧ updateTTFTPredictor = true) ∧
          b'.samples = b.samples ++ [⟨i, profilingId, merged.details.numScheduledPrefillTokens,
            merged.details.stepDuration⟩])) := by
  -- first the local account
  obtain ⟨edited, he, hc, hs⟩ : ∃ edited : Books,
      edited = (if f.enableInstanceStatusLocalAccount && updateInstanceStatus then
        b.updateLocalAccount r i view else b) ∧
      edited.client = writeStatus c ref (b.afterAccount f view merged updateInstanceStatus) ∧
      edited.samples = b.samples := by
    refine ⟨_, rfl, ?_⟩
    cases updateInstanceStatus with
    | false => simp [hcl, afterAccount]
    | true =>
    by_cases hf : f.enableInstanceStatusLocalAccount
    · simp [hf, updateLocalAccount, hcl, writeStatus, hv, Cms.numUncomputedTokens_update, tokens,
        editorView, afterAccount]
    · simp [hf, hcl, tokens, afterAccount]
  have hde : (edited.client.status (edited.client.view view).status).details = merged.details := by
    simp only [hc, writeStatus, hv, update_self, afterAccount]
    split <;> rfl
  rw [hb', followUp, ← he, ← hs]
  split
  · next hp =>
    simp only [Bool.and_eq_true] at hp
    simp only [addSampleToTTFTPredictor, hde]
    split
    · exact ⟨hc, .inl rfl⟩
    · split
      · exact ⟨hc, .inl rfl⟩
      · exact ⟨hc, .inr ⟨hp, rfl⟩⟩
  · exact ⟨hc, .inl rfl⟩

theorem accountOf_of_some {b : Books} {i : String} {ref : Ref}
    (hr : b.client.instanceStatuses.lookup i = some ref) :
    b.accountOf i = (b.client.instanceViews.lookup i).map b.accounts := by
  simp [accountOf, entry, hr, Function.comp_def]

theorem storeStatus_spec (b : Books) (i : String)
    (ha : ∀ view, b.client.instanceViews.lookup i = some view →
      b.client.instanceStatuses.lookup i = some (b.client.view view).status) (read : StatusRead)
    (hp : read.recorderPanics i = r.recorderPanics i)
    (hc : ∀ n, read.correction i n = b.waitingTokens f i b.statusUnmarshalBuffer) :
    clientOf (b.storeStatus f r i) = b.client.storeStatus i b.statusUnmarshalBuffer read ∧
      ((recover (b.storeStatus f r i)).samples = b.samples ∨
        Adds f i (b.client.statusOf i) b.statusUnmarshalBuffer b (recover (b.storeStatus f r i))) := by
  unfold storeStatus CMSReadClient.storeStatus statusOf
  cases hre : b.client.instanceStatuses.lookup i with
  | none => exact ⟨rfl, .inl rfl⟩
  | some ref =>
  by_cases hold : b.statusUnmarshalBuffer.timestampMs ≤ (b.client.status ref).timestampMs
  · simp only [if_pos hold]
    exact ⟨rfl, .inl rfl⟩
  simp only [if_neg hold]
  have hac := accountOf_of_some hre
  cases hv : b.client.instanceViews.lookup i with
  | none =>
    have hm : read.correction i b.statusUnmarshalBuffer.numUncomputedTokensAllWaitingPrefills =
        b.statusUnmarshalBuffer.numUncomputedTokensAllWaitingPrefills := by
      simp [hc, waitingTokens, hac, hv]
    simp only [mergeBuffer, mergeStatus, hm, writeStatus, hv]
    exact ⟨rfl, .inl rfl⟩
  | some view =>
  obtain ⟨hcl, hsa⟩ := followUp_spec f r (b := b.mergeBuffer ref) rfl
    (some.inj ((ha view hv).symm.trans hre)) i
    (!decide (b.statusUnmarshalBuffer.updateId ≤ (b.client.status ref).updateId))
    (!sameProfile b.statusUnmarshalBuffer (b.client.status ref))
    b.statusUnmarshalBuffer.details.profilingId rfl
  have hme : (b.mergeBuffer ref).afterAccount f view
      (mergeStatus (b.client.status ref) b.statusUnmarshalBuffer id)
      (!decide (b.statusUnmarshalBuffer.updateId ≤ (b.client.status ref).updateId)) =
      mergeStatus (b.client.status ref) b.statusUnmarshalBuffer (read.correction i) := by
    have hw : b.waitingTokens f i b.statusUnmarshalBuffer =
        tokens f b.instanceStatusLocalAccountEditor b.statusUnmarshalBuffer (b.accounts view) := by
      simp [waitingTokens, hac, hv]
    by_cases hu : b.statusUnmarshalBuffer.updateId ≤ (b.client.status ref).updateId <;>
      simp [afterAccount, mergeStatus, hu, hc, hw, mergeBuffer]
  rw [hme] at hcl
  have hl : (b.mergeBuffer ref).client.instanceViews.lookup i = some view := hv
  refine ⟨?_, ?_⟩
  · cases hpa : r.recorderPanics i <;> simp [hl, hp, hpa, clientOf, hcl, writeStatus]
  have hr : ∀ b' : Books, recover (if r.recorderPanics i = true then .error b' else .ok b') = b' := by
    intro b'
    split <;> rfl
  simp only [hl, hr]
  refine hsa.imp_right fun h => ⟨h.1.1, Int.not_le.1 hold, ?_, h.2⟩
  have hp := h.1.2
  simpa using hp

/-- The books before the status of an instance is stored. -/
def prepared (b : Books) (i : String) (c : CMSReadClient) (buffer : InstanceStatus) : Books :=
  { b with client := c, accounts := b.newAccount i, statusUnmarshalBuffer := buffer }

theorem accountOf_prepared {b : Books} {i : String} {metadata : Option Ref} {c : CMSReadClient}
    (he : b.client.ensureView i metadata = .ok c) (buffer : InstanceStatus) :
    (b.prepared i c buffer).accountOf i = b.accountOf i := by
  unfold ensureView at he
  split at he
  · next ref hr =>
    cases he
    simp [accountOf, entry, prepared, newAccount, hr]
  · next hn =>
    split at he <;> cases he
    simp [accountOf, entry, prepared, newAccount, createView, createStatus, hn]

/-- **A turn is one of the tables**, with the correction that the local account makes, and may add a
sample. -/
theorem updateStatus_spec {b : Books} (h : Sound b.client) (i : String) :
    clientOf (b.updateStatus U f r i) = b.client.updateStatus (r.read U f b) i ∧
      ((recover (b.updateStatus U f r i)).samples = b.samples ∨ ∃ bytes, r.values i = some bytes ∧
        Adds f i (b.client.statusOf i) (U.content bytes) b (recover (b.updateStatus U f r i))) := by
  unfold updateStatus CMSReadClient.updateStatus
  cases hv : r.values i with
  | none =>
    simp only [StatusInput.read, hv]
    exact ⟨rfl, .inl rfl⟩
  | some bytes =>
  have hva : (r.read U f b).values i = some (U.content bytes) := by simp [StatusInput.read, hv]
  simp only [hva]
  cases hm : b.client.instanceMetadatas.lookup i with
  | none => exact ⟨rfl, .inl rfl⟩
  | some metadata =>
  cases he : b.client.ensureView i metadata with
  | error =>
    simp only [he]
    exact ⟨rfl, .inl rfl⟩
  | ok c =>
  obtain ⟨hat, hst⟩ := ensureView_spec h he
  simp only [he]
  rw [U.content_eq]
  obtain ⟨hc, hs⟩ := storeStatus_spec f r (b.prepared i c (U.content bytes)) i
    (fun view hvi => (hat.attached i view hvi).1) (r.read U f b) rfl fun n => by
      rw [waitingTokens, accountOf_prepared he]
      simp [StatusInput.read, hv, waitingTokens, prepared]
  have hst : (b.prepared i c (U.content bytes)).client.statusOf i = b.client.statusOf i := hst i
  rw [hst] at hs
  exact ⟨hc, hs.imp_right fun ha => ⟨bytes, rfl, ha.enabled, ha.newer, ha.profile, ha.samples⟩⟩

theorem client_updateStatus {b : Books} (h : Sound b.client) (i : String) :
    (recover (b.updateStatus U f r i)).client =
      ReadClient.recover (b.client.updateStatus (r.read U f b) i) := by
  rw [← recover_clientOf, (updateStatus_spec U f r h i).1]

/-- **What a loop leaves**: `P` goes from turn to turn, and `Q` is what it has come to at each of them. -/
theorem recover_loop_of_ok {turn : Books → String → Except Books Books} {P Q : Books → Prop}
    (ids : List String) (hq : ∀ b, P b → Q b)
    (ht : ∀ b i, i ∈ ids → P b → Q (recover (turn b i)) ∧ ∀ b', turn b i = .ok b' → P b') :
    ∀ b, P b → Q (recover (loop turn ids b)) := by
  induction ids with
  | nil => exact hq
  | cons i ids ih =>
  intro b h
  obtain ⟨hf, hok⟩ := ht b i List.mem_cons_self h
  rw [loop]
  split
  · next b' hb' =>
    rw [hb'] at hf
    exact hf
  · next b' hb' => exact ih (fun b j hj => ht b j (List.mem_cons_of_mem _ hj)) b' (hok b' hb')

/-- **A loop over the books keeps what each of its turns keeps.** -/
theorem recover_loop {turn : Books → String → Except Books Books} {P : Books → Prop}
    (ids : List String) (ht : ∀ b i, i ∈ ids → P b → P (recover (turn b i))) :
    ∀ b, P b → P (recover (loop turn ids b)) := by
  refine recover_loop_of_ok ids (fun _ h => h) fun b i hi h => ⟨ht b i hi h, fun b' hb' => ?_⟩
  have hf := ht b i hi h
  rwa [hb'] at hf

end Books

/-! ### One instance at a time -/

/-- **A turn, on the slot of its instance**; `metadata` is its entry, and tells whether there is an object. -/
def Slot.turn (payload : Option InstanceStatus) (metadata : Option Bool) (recorderPanics : Bool)
    (correction : BitVec 32 → BitVec 32) (x : Slot) : Except Slot Slot :=
  match payload, metadata with
  | none, _ => .ok ⟨none, false⟩
  | some _, none => .ok x
  | some buffer, some described =>
    if x.status.isNone && !described then .error ⟨some .initial, x.viewed⟩
    else
      let viewed := x.status.isNone || x.viewed
      let old := x.status.getD .initial
      if buffer.timestampMs ≤ old.timestampMs then .ok ⟨some old, viewed⟩
      else if !viewed || recorderPanics then .error ⟨some (mergeStatus old buffer correction), viewed⟩
      else .ok ⟨some (mergeStatus old buffer correction), viewed⟩

def Slot.recover : Except Slot Slot → Slot
  | .error x => x
  | .ok x => x

theorem timestampMs_mergeStatus (old buffer : InstanceStatus) (correction : BitVec 32 → BitVec 32) :
    (mergeStatus old buffer correction).timestampMs = buffer.timestampMs := by
  unfold mergeStatus
  split <;> rfl

/-- **What a payload does to a slot**: a status may be made, and a payload with a newer time is merged into
it. -/
theorem Slot.turn_some (x : Slot) (buffer : InstanceStatus) (metadata : Option Bool)
    (recorderPanics : Bool) (correction : BitVec 32 → BitVec 32) {y : Slot}
    (hy : y = Slot.recover (x.turn (some buffer) metadata recorderPanics correction)) :
    y.status = x.status ∨ y.status = some (x.status.getD .initial) ∨
      ((x.status.getD .initial).timestampMs < buffer.timestampMs ∧
        y.status = some (mergeStatus (x.status.getD .initial) buffer correction)) := by
  subst hy
  cases metadata with
  | none => exact .inl rfl
  | some described =>
  simp only [turn]
  split
  · next hn =>
    cases hs : x.status <;> simp_all [Slot.recover]
  · split
    · exact .inr (.inl rfl)
    · next hold =>
      refine .inr (.inr ⟨Int.not_le.1 hold, ?_⟩)
      split <;> rfl

section

variable {c c' : CMSReadClient} {i : String}

theorem statusOf_eq_getD (c : CMSReadClient) (i : String) :
    c.statusOf i = (slotOf c i).status.getD .initial := by
  unfold statusOf slotOf
  cases c.instanceStatuses.lookup i <;> rfl

theorem slotOf_writeStatus (h : StatusObjects c) {ref : Ref}
    (hr : c.instanceStatuses.lookup i = some ref) (st : InstanceStatus) (j : String) :
    slotOf (writeStatus c ref st) j = if j = i then ⟨some st, (slotOf c i).viewed⟩ else slotOf c j := by
  by_cases hj : j = i
  · subst hj
    simp [slotOf, writeStatus, hr]
  · simp only [slotOf, writeStatus, hj, if_false, Slot.mk.injEq, and_true]
    refine map_congr fun ref' hr' => update_of_ne ?_ _ _
    exact fun heq => hj (h.distinct j i ref' hr' (heq ▸ hr))

theorem slotOf_createStatus (h : StatusObjects c) (i j : String) :
    slotOf (c.createStatus i) j = if j = i then ⟨some .initial, (slotOf c i).viewed⟩ else slotOf c j := by
  by_cases hj : j = i
  · subst hj
    simp [slotOf, createStatus]
  · simp only [slotOf, createStatus, lookup_insert_ite, hj, if_false, Slot.mk.injEq, and_true]
    exact map_congr fun ref hr => update_of_ne (Nat.ne_of_lt (h.made j ref hr)) _ _

theorem slotOf_createView (c : CMSReadClient) (i : String) (metadata status : Ref) (j : String) :
    slotOf (c.createView i metadata status) j =
      if j = i then ⟨(slotOf c i).status, true⟩ else slotOf c j := by
  by_cases hj : j = i
  · subst hj
    simp [slotOf, createView]
  · simp [slotOf, createView, hj]

theorem slotOf_dropInstance (c : CMSReadClient) (i j : String) :
    slotOf (c.dropInstance i) j = if j = i then ⟨none, false⟩ else slotOf c j := by
  by_cases hj : j = i <;> simp [slotOf, dropInstance, lookup_erase_ite, hj]

/-- The result of a computation on the tables is the one on the slot of an instance. -/
structure OnSlot (i : String) (c : CMSReadClient) (e : Except CMSReadClient CMSReadClient)
    (x : Except Slot Slot) : Prop where
  isOk : e.isOk = x.isOk
  slot : ∀ j, slotOf (recover e) j = if j = i then Slot.recover x else slotOf c j

theorem storeStatus_onSlot (h : StatusObjects c) {ref : Ref}
    (hr : c.instanceStatuses.lookup i = some ref) (buffer : InstanceStatus) (r : StatusRead)
    (described : Bool) : OnSlot i c (c.storeStatus i buffer r)
      ((slotOf c i).turn (some buffer) (some described) (r.recorderPanics i) (r.correction i)) := by
  have hs : slotOf c i = ⟨some (c.status ref), (c.instanceViews.lookup i).isSome⟩ := by
    simp [slotOf, hr]
  have hw := slotOf_writeStatus h hr (mergeStatus (c.status ref) buffer (r.correction i))
  rw [hs] at hw
  unfold storeStatus Slot.turn
  simp only [hr, hs, isNone_some, Bool.false_and, Bool.false_eq_true, if_false, getD_some, Bool.false_or]
  split
  · refine ⟨rfl, fun j => ?_⟩
    by_cases hj : j = i <;> simp [recover, Slot.recover, hj, hs]
  · cases hv : c.instanceViews.lookup i <;> cases hp : r.recorderPanics i <;>
      exact ⟨rfl, by simpa [recover, Slot.recover, hv, writeStatus] using hw⟩

/-- **A turn changes the slot of its instance, and no other one.** -/
theorem updateStatus_onSlot (h : StatusObjects c) (r : StatusRead) (i : String) :
    OnSlot i c (c.updateStatus r i) ((slotOf c i).turn (r.values i)
      ((c.instanceMetadatas.lookup i).map isSome) (r.recorderPanics i) (r.correction i)) := by
  unfold updateStatus
  cases hva : r.values i with
  | none => exact ⟨rfl, slotOf_dropInstance c i⟩
  | some buffer =>
  cases hm : c.instanceMetadatas.lookup i with
  | none =>
    refine ⟨rfl, fun j => ?_⟩
    by_cases hj : j = i <;> simp [recover, Slot.recover, Slot.turn, hj]
  | some metadata =>
  cases hs : c.instanceStatuses.lookup i with
  | some =>
    simp only [ensureView, hs, map_some]
    exact storeStatus_onSlot h hs buffer r _
  | none =>
  have hn : (slotOf c i).status = none := by simp [slotOf, hs]
  have hc := slotOf_createStatus h i
  cases metadata with
  | none =>
    simp only [ensureView, hs, map_some, Slot.turn, hn]
    exact ⟨rfl, hc⟩
  | some ref =>
  simp only [ensureView, hs, map_some]
  have hv := slotOf_createView (c.createStatus i) i ref c.nextRef
  have ho : StatusObjects ((c.createStatus i).createView i ref c.nextRef) :=
    h.insert (fun j => lookup_insert_ite _ _ _ _) (Nat.lt_succ_of_lt (Nat.lt_succ_self _))
  obtain ⟨hok, hsl⟩ := storeStatus_onSlot ho ((lookup_insert_ite _ _ _ _).trans (if_pos rfl)) buffer r true
  have ht : (slotOf ((c.createStatus i).createView i ref c.nextRef) i).turn (some buffer)
      (some true) (r.recorderPanics i) (r.correction i) = (slotOf c i).turn (some buffer)
      (some true) (r.recorderPanics i) (r.correction i) := by
    simp [hv, hc, Slot.turn, hn]
  rw [ht] at hok hsl
  refine ⟨hok, fun j => ?_⟩
  rw [hsl, hv, hc, hc]
  split <;> rfl

end

section

variable {Bytes : Type} {U : Unmarshal Bytes} {f : Features} {r : StatusInput Bytes} {b : Books}

def Books.turnOf (U : Unmarshal Bytes) (f : Features) (r : StatusInput Bytes) (b : Books) (id : String) :
    Except Slot Slot :=
  (slotOf b.client id).turn ((r.values id).map U.content)
    ((b.client.instanceMetadatas.lookup id).map Option.isSome) (r.recorderPanics id)
    ((r.read U f b).correction id)

/-- **A turn of the books, on slots.** -/
theorem Books.updateStatus_onSlot (h : Sound b.client) (i : String) :
    OnSlot i b.client (clientOf (b.updateStatus U f r i)) (b.turnOf U f r i) := by
  rw [(updateStatus_spec U f r h i).1]
  exact ReadClient.updateStatus_onSlot h.objects (r.read U f b) i

theorem Books.slotOf_updateStatus (h : Sound b.client) (i j : String) :
    slotOf (recover (b.updateStatus U f r i)).client j =
      if j = i then Slot.recover (b.turnOf U f r i) else slotOf b.client j := by
  rw [← recover_clientOf]
  exact (updateStatus_onSlot h i).slot j

theorem Books.sound_updateStatus (h : Sound b.client) (i : String) :
    Sound (recover (b.updateStatus U f r i)).client := by
  rw [client_updateStatus U f r h]
  exact ⟨attached_updateStatus h.attached _ i, statusObjects_updateStatus h.objects _ i⟩

theorem Books.slotOf_eq (b : Books) (id : String) :
    slotOf b.client id = ⟨(b.entry id).1, (b.entry id).2.isSome⟩ := by
  simp [slotOf, entry]

/-- **What the books have for an instance beside its status is left alone**, and so is the setting of the
editor. -/
structure Books.Frame (id : String) (b b' : Books) : Prop where
  view : (b'.entry id).2 = (b.entry id).2
  enableCacheAwareScheduling : b'.instanceStatusLocalAccountEditor.enableCacheAwareScheduling =
    b.instanceStatusLocalAccountEditor.enableCacheAwareScheduling

theorem Books.frame_followUp {id : String} {view : Ref} (hne : b.client.instanceViews.lookup id ≠ some view)
    (i : String) (updateInstanceStatus updateTTFTPredictor : Bool) (profilingId : BitVec 32) :
    b.Frame id (b.followUp f r i view updateInstanceStatus updateTTFTPredictor profilingId) := by
  have hs : ∀ b' : Books, b.Frame id b' → b.Frame id (b'.addSampleToTTFTPredictor i view profilingId) := by
    intro b' h
    unfold addSampleToTTFTPredictor
    dsimp only
    split_ifs <;> exact ⟨h.view, h.enableCacheAwareScheduling⟩
  have ha : b.Frame id (b.updateLocalAccount r i view) := by
    refine ⟨map_congr fun view' hv => ?_, Cms.enableCacheAwareScheduling_update _ _ _ _ _⟩
    have hv' : view' ≠ view := fun heq => hne (heq ▸ hv)
    simp [updateLocalAccount, writeStatus, hv']
  unfold followUp
  dsimp only
  split_ifs
  · exact hs _ ha
  · exact hs _ ⟨rfl, rfl⟩
  · exact ha
  · exact ⟨rfl, rfl⟩

theorem Books.frame_storeStatus (h : Sound b.client) {i id : String} (hid : id ≠ i) :
    b.Frame id (recover (b.storeStatus f r i)) := by
  unfold storeStatus
  split
  · exact ⟨rfl, rfl⟩
  next ref _ =>
  dsimp only
  split
  · exact ⟨rfl, rfl⟩
  split
  · exact ⟨rfl, rfl⟩
  · next view hv =>
    have hne : (b.mergeBuffer ref).client.instanceViews.lookup id ≠ some view :=
      fun hl => h.view_ne hid hl hv rfl
    obtain ⟨hvi, hc⟩ := frame_followUp (f := f) (r := r) hne i
      (!decide (b.statusUnmarshalBuffer.updateId ≤ (b.client.status ref).updateId))
      (!sameProfile b.statusUnmarshalBuffer (b.client.status ref))
      b.statusUnmarshalBuffer.details.profilingId
    split <;> exact ⟨hvi, hc⟩

/-- **A turn leaves what is stored for other instances alone.** -/
theorem Books.frame_updateStatus (h : Sound b.client) {i id : String} (hid : id ≠ i) :
    b.Frame id (recover (b.updateStatus U f r i)) := by
  unfold updateStatus
  split
  · refine ⟨?_, rfl⟩
    have hl : (b.client.instanceViews.erase i).lookup id = b.client.instanceViews.lookup id := by
      rw [lookup_erase_ite, if_neg hid]
    simp [recover, entry, dropInstance, hl]
  split
  · exact ⟨rfl, rfl⟩
  split
  · next he =>
    unfold ensureView at he
    split at he
    · cases he
    · split at he <;> cases he
      exact ⟨rfl, rfl⟩
  · next bytes _ _ _ _ _ c he =>
    have hst := frame_storeStatus (f := f) (r := r)
      (b := b.prepared i c (U.decode bytes b.statusUnmarshalBuffer).2) (ensureView_spec h he).1 hid
    refine ⟨hst.view.trans ?_, hst.enableCacheAwareScheduling⟩
    unfold ensureView at he
    split at he
    · next hr =>
      cases he
      simp [entry, prepared, newAccount, hr]
    · next hr =>
      split at he <;> cases he
      next metadata _ =>
      obtain ⟨hv, -, -, hold, -⟩ := createView_spec b.client i metadata rfl
        fun id view hid => (h.attached id view hid).2
      simp only [entry, prepared, newAccount, hr, hv, if_neg hid]
      refine map_congr fun view hvi => ?_
      obtain ⟨hne, hvw⟩ := hold id view hvi
      rw [hvw, update_of_ne hne]
      rfl

theorem Books.entry_updateStatus (h : Sound b.client) {i id : String} (hid : id ≠ i) :
    (recover (b.updateStatus U f r i)).entry id = b.entry id :=
  Prod.ext (congrArg Slot.status ((slotOf_updateStatus h i id).trans (if_neg hid)))
    (frame_updateStatus h hid).view

theorem Books.instanceMetadatas_updateStatus (h : Sound b.client) (i : String) :
    (recover (b.updateStatus U f r i)).client.instanceMetadatas = b.client.instanceMetadatas := by
  rw [client_updateStatus U f r h]
  exact (sameMetadata_updateStatus b.client _ i).instanceMetadatas

theorem Books.sound_forgetStatuses (r : StatusInput Bytes) (h : Sound b.client) :
    Sound (b.forgetStatuses r).client :=
  foldl_keeps (P := Sound) r.order (fun _ i _ hc =>
    ⟨attached_forgetStatus hc.attached i, statusObjects_forgetStatus hc.objects i⟩) _
    ⟨attached_of_sameTables h.attached ⟨rfl, rfl, rfl, rfl, rfl⟩, h.objects.congr rfl (Nat.le_refl _)⟩

/-- The first loop does not drop an instance that is still there. -/
theorem Books.entry_forgetStatuses (r : StatusInput Bytes) (h : Sound b.client) {id : String}
    (hk : (slotOf b.client id).status.isSome = true → id ∈ b.client.instanceIDs) :
    (b.forgetStatuses r).entry id = b.entry id := by
  refine (foldl_keeps (P := fun c => (c.instanceIDs = b.client.instanceIDs ∧ Attached c) ∧
      { b with client := c }.entry id = b.entry id) r.order (fun c i _ hc => ?_)
    { b.client with isAlive := true } ⟨⟨rfl, attached_of_sameTables h.attached ⟨rfl, rfl, rfl, rfl, rfl⟩⟩, rfl⟩).2
  obtain ⟨⟨hi, ha⟩, he⟩ := hc
  have hsa := sameMetadata_forgetStatus c i
  refine ⟨⟨hsa.instanceIDs.trans hi, attached_forgetStatus ha i⟩, ?_⟩
  by_cases hg : i ∈ c.instanceIDsSet
  · rw [forgetStatus, if_pos hg]
    exact he
  have hme := hsa.metadata
  rw [forgetStatus, if_neg hg] at hme ⊢
  have ht := (release_tables (c.dropInstance i) i .prefill).trans (release_tables _ i .decode)
  rw [← he]
  simp only [entry, hme, ht.instanceStatuses, ht.status, ht.instanceViews, ht.view]
  by_cases hid : id = i
  · -- it has gone, so it has no status, and then no view either
    subst hid
    have hn : c.instanceStatuses.lookup id = none := by
      rw [instanceIDsSet, List.mem_toFinset, hi] at hg
      have hs := mt hk hg
      rw [slotOf_eq, ← he] at hs
      simpa [entry] using hs
    have hv : c.instanceViews.lookup id = none := by
      refine eq_none_iff_forall_ne_some.2 fun view hv => ?_
      cases hn.symm.trans (ha id view hv).1
    simp [dropInstance, hn, hv]
  · simp [dropInstance, hid]

theorem Books.slotOf_forgetStatuses (r : StatusInput Bytes) (h : Sound b.client) {id : String}
    (hk : (slotOf b.client id).status.isSome = true → id ∈ b.client.instanceIDs) :
    (b.forgetStatuses r).client.instanceMetadatas = b.client.instanceMetadatas ∧
      slotOf (b.forgetStatuses r).client id = slotOf b.client id := by
  refine ⟨foldl_keeps (P := fun c => c.instanceMetadatas = b.client.instanceMetadatas) r.order
    (fun c i _ hc => (sameMetadata_forgetStatus c i).instanceMetadatas.trans hc)
    { b.client with isAlive := true } rfl, ?_⟩
  rw [slotOf_eq, slotOf_eq, entry_forgetStatuses r h hk]

/-! ### A refresh, for one instance -/

def Books.samplesOf (b : Books) (id : String) : List Sample :=
  b.samples.filter fun x => x.instanceID = id

/-- Nothing about the instance has changed, nor has the setting of the editor. -/
structure Books.Untouched (id : String) (b b' : Books) : Prop where
  entry : b'.entry id = b.entry id
  samplesOf : b'.samplesOf id = b.samplesOf id
  enableCacheAwareScheduling : b'.instanceStatusLocalAccountEditor.enableCacheAwareScheduling =
    b.instanceStatusLocalAccountEditor.enableCacheAwareScheduling

/-- The instance has the same status and the same samples. -/
structure Books.Same (id : String) (b b' : Books) : Prop where
  statusOf : b'.client.statusOf id = b.client.statusOf id
  samplesOf : b'.samplesOf id = b.samplesOf id

variable {id : String} {bytes : Bytes}

theorem Books.statusOf_eq_entry (b : Books) (id : String) :
    b.client.statusOf id = (b.entry id).1.getD .initial := by
  rw [statusOf_eq_getD, slotOf_eq]

theorem Books.Untouched.same {b' : Books} (h : b.Untouched id b') : b.Same id b' :=
  ⟨by rw [statusOf_eq_entry, statusOf_eq_entry, h.entry], h.samplesOf⟩

theorem Books.Untouched.trans {b' b'' : Books} (h : b.Untouched id b') (h' : b'.Untouched id b'') :
    b.Untouched id b'' where
  entry := h'.entry.trans h.entry
  samplesOf := h'.samplesOf.trans h.samplesOf
  enableCacheAwareScheduling := h'.enableCacheAwareScheduling.trans h.enableCacheAwareScheduling

theorem Books.Same.trans {b' b'' : Books} (h : b.Same id b') (h' : b'.Same id b'') : b.Same id b'' :=
  ⟨h'.statusOf.trans h.statusOf, h'.samplesOf.trans h.samplesOf⟩

theorem Books.Untouched.waitingTokens_eq {b' : Books} (h : b.Untouched id b') (p : InstanceStatus) :
    b'.waitingTokens f id p = b.waitingTokens f id p := by
  simp only [waitingTokens, accountOf, h.entry]
  congr 1
  funext account
  simp only [tokens, h.enableCacheAwareScheduling]

theorem Books.untouched_updateStatus (h : Sound b.client) {i : String} (hid : id ≠ i) :
    b.Untouched id (recover (b.updateStatus U f r i)) := by
  refine ⟨entry_updateStatus h hid, ?_, (frame_updateStatus h hid).enableCacheAwareScheduling⟩
  obtain ⟨-, hs | ⟨_, -, ha⟩⟩ := updateStatus_spec U f r h i
  · rw [Books.samplesOf, hs, Books.samplesOf]
  · rw [Books.samplesOf, ha.samples, List.filter_append]
    simp [Books.samplesOf, hid.symm]

/-- A payload that is not newer does nothing. -/
theorem Books.same_of_le (h : Sound b.client) (hv : r.values id = some bytes)
    (hle : (U.content bytes).timestampMs ≤ (b.client.statusOf id).timestampMs) :
    b.Same id (recover (b.updateStatus U f r id)) := by
  have hlt := Int.not_lt.2 hle
  refine ⟨?_, ?_⟩
  · rw [statusOf_eq_getD] at hlt
    rw [statusOf_eq_getD, slotOf_updateStatus h, if_pos rfl, turnOf, hv, statusOf_eq_getD]
    rcases (slotOf b.client id).turn_some (U.content bytes) _ _ _ rfl with hs | hs | ⟨hn, -⟩
    · rw [map_some, hs]
    · rw [map_some, hs, getD_some]
    · exact absurd hn hlt
  · obtain ⟨-, hs | ⟨bytes', hv', ha⟩⟩ := updateStatus_spec U f r h id
    · rw [Books.samplesOf, hs, Books.samplesOf]
    · cases hv.symm.trans hv'
      exact absurd ha.newer hlt

/-- After a turn that has not panicked the payload is not newer any more, unless there is no metadata. -/
theorem Books.timestampMs_le_of_ok (h : Sound b.client) (hv : r.values id = some bytes) {b' : Books}
    (hok : b.updateStatus U f r id = .ok b') : b' = b ∨
      (U.content bytes).timestampMs ≤ (b'.client.statusOf id).timestampMs := by
  cases hm : b.client.instanceMetadatas.lookup id with
  | none =>
    rw [updateStatus, hv, hm] at hok
    exact .inl (Except.ok.inj hok).symm
  | some metadata =>
  obtain ⟨hi, hs⟩ := updateStatus_onSlot (U := U) (f := f) (r := r) h id
  rw [hok, clientOf] at hi hs
  have hs : slotOf b'.client id = Slot.recover (b.turnOf U f r id) := (hs id).trans (if_pos rfl)
  refine .inr ?_
  rw [statusOf_eq_getD, hs]
  rw [turnOf, hv, hm, map_some, map_some, Slot.turn] at hi ⊢
  dsimp only at hi ⊢
  split_ifs at hi ⊢ with hno hold hpa
  · cases hi
  · exact hold
  · cases hi
  · simp [Slot.recover, timestampMs_mergeStatus]

/-- **A refresh, for one instance**: its own turn, which it comes to with nothing changed, if at all, is the
only one that matters. -/
theorem Books.refreshStatuses_turn (h : Sound b.client) (hv : r.values id = some bytes)
    (hk : (slotOf b.client id).status.isSome = true → id ∈ b.client.instanceIDs) :
    ∃ b₁, Sound b₁.client ∧ b.Untouched id b₁ ∧
      (b₁.Same id (recover (b.refreshStatuses U f r)) ∨
        (recover (b₁.updateStatus U f r id)).Same id (recover (b.refreshStatuses U f r))) := by
  refine recover_loop_of_ok (P := fun b' => Sound b'.client ∧ (b.Untouched id b' ∨
      (U.content bytes).timestampMs ≤ (b'.client.statusOf id).timestampMs ∧
      ∃ b₁, Sound b₁.client ∧ b.Untouched id b₁ ∧ (recover (b₁.updateStatus U f r id)).Same id b'))
    (Q := fun b' => ∃ b₁, Sound b₁.client ∧ b.Untouched id b₁ ∧
      (b₁.Same id b' ∨ (recover (b₁.updateStatus U f r id)).Same id b'))
    b.client.instanceIDs ?_ ?_ _ ⟨sound_forgetStatuses r h, .inl ⟨entry_forgetStatuses r h hk, rfl, rfl⟩⟩
  · rintro b' ⟨hs, hu | ⟨-, b₁, hs₁, hu, hsa⟩⟩
    · exact ⟨b', hs, hu, .inl ⟨rfl, rfl⟩⟩
    · exact ⟨b₁, hs₁, hu, .inr hsa⟩
  · rintro b' i - ⟨hs, hb'⟩
    have hso : ∀ b'', b'.updateStatus U f r i = .ok b'' → Sound b''.client := fun b'' hok => by
      have hs := sound_updateStatus (U := U) (f := f) (r := r) hs i
      rwa [hok] at hs
    rcases hb' with hu | ⟨hle, b₁, hs₁, hu, hsa⟩
    · by_cases hi : id = i
      · subst hi
        refine ⟨⟨b', hs, hu, .inr ⟨rfl, rfl⟩⟩, fun b'' hok => ⟨hso b'' hok, ?_⟩⟩
        rcases timestampMs_le_of_ok hs hv hok with rfl | hle
        · exact .inl hu
        · exact .inr ⟨hle, b', hs, hu, by rw [hok]; exact ⟨rfl, rfl⟩⟩
      · have hu' := hu.trans (untouched_updateStatus (U := U) (f := f) (r := r) hs hi)
        refine ⟨⟨_, sound_updateStatus hs i, hu', .inl ⟨rfl, rfl⟩⟩, fun b'' hok => ⟨hso b'' hok, .inl ?_⟩⟩
        rwa [hok] at hu'
    · -- the turn of the instance is over
      have hsa' : b'.Same id (recover (b'.updateStatus U f r i)) := by
        by_cases hi : id = i
        · exact hi ▸ same_of_le hs hv hle
        · exact (untouched_updateStatus hs hi).same
      refine ⟨⟨b₁, hs₁, hu, .inr (hsa.trans hsa')⟩, fun b'' hok => ⟨hso b'' hok, .inr ?_⟩⟩
      rw [hok] at hsa'
      exact ⟨hsa'.statusOf.symm ▸ hle, b₁, hs₁, hu, hsa.trans hsa'⟩

end

/-! ### Refreshes in a row -/

/-- The books between the refreshes.  The payloads of the statuses that have been read so far are kept
along. -/
structure Session where
  books : Books
  phase : Phase
  payloads : List (String × InstanceStatus)

def Session.start : Session :=
  ⟨⟨newCMSReadClient enableAdaptivePD, .zero, fun _ => .empty, editor, []⟩, .idle false, []⟩

/-- The steps: a refresh of one table, of the statuses with everything it stores, or any edit of the local
accounts between two refreshes. -/
inductive Move (Bytes : Type)
  | tables (a : Action)
  | refreshStatuses (r : StatusInput Bytes)
  | editAccounts (accounts : Ref → Cms.InstanceStatusLocalAccount)
      (editor : Cms.InstanceStatusLocalAccountEditor)

def StatusInput.payloads {Bytes : Type} (r : StatusInput Bytes) (U : Unmarshal Bytes)
    (instanceIDs : List String) : List (String × InstanceStatus) :=
  instanceIDs.filterMap fun id => (r.values id).map fun bytes => (id, U.content bytes)

def Session.exec {Bytes : Type} (U : Unmarshal Bytes) (f : Features) (s : Session) :
    Move Bytes → Option Session
  | .tables (.refreshStatuses (some _)) => none
  | .tables a => (ReadClient.exec ⟨s.books.client, s.phase⟩ a).map fun t =>
    { s with books := { s.books with client := t.client }, phase := t.phase }
  | .refreshStatuses r =>
    if s.phase ≠ .reserving ∧ Enumerates r.order s.books.client.instanceStatuses.keys then
      let payloads := s.payloads ++ r.payloads U s.books.client.instanceIDs
      match s.books.refreshStatuses U f r with
      | .error b => some ⟨b, .idle true, payloads⟩
      | .ok b => some ⟨b, if b.client.enableAdaptivePD then .reserving else .idle true, payloads⟩
    else none
  | .editAccounts accounts editor =>
    if s.phase = .reserving then none
    else some { s with
      books := { s.books with accounts := accounts, instanceStatusLocalAccountEditor := editor } }

section

variable {Bytes : Type} {U : Unmarshal Bytes} {f : Features} {s t : Session} {a : Move Bytes}

/-- **What a step is**: a refresh of the statuses, or one that leaves statuses and samples alone. -/
theorem Session.exec_cases (hex : s.exec U f a = some t) :
    (∃ r, a = .refreshStatuses r ∧ t.books = Books.recover (s.books.refreshStatuses U f r) ∧
      t.payloads = s.payloads ++ r.payloads U s.books.client.instanceIDs) ∨
    (t.books.samples = s.books.samples ∧ t.payloads = s.payloads ∧
      (Sound s.books.client → Sound t.books.client) ∧
      ∀ id, slotOf t.books.client id = slotOf s.books.client id) := by
  cases a with
  | refreshStatuses r =>
    simp only [exec] at hex
    split at hex
    · split at hex <;> cases hex <;> simp_all [Books.recover]
    · cases hex
  | editAccounts =>
    simp only [exec] at hex
    split at hex <;> cases hex
    exact .inr ⟨rfl, rfl, fun h => h, fun _ => rfl⟩
  | tables a =>
  have hst : ∃ u, ReadClient.exec ⟨s.books.client, s.phase⟩ a = some u ∧
      t = { s with books := { s.books with client := u.client }, phase := u.phase } ∧
      ∀ r, a ≠ .refreshStatuses (some r) := by
    rcases a with ⟨r, order⟩ | ⟨_ | r⟩ | ⟨order⟩
    case refreshStatuses.some => cases hex
    all_goals
      obtain ⟨u, hu, hb⟩ := map_eq_some_iff.1 hex
      exact ⟨u, hu, hb.symm, nofun⟩
  obtain ⟨u, hu, rfl, hne⟩ := hst
  have hk : (Sound s.books.client → Sound u.client) ∧
      ∀ id, slotOf u.client id = slotOf s.books.client id := by
    rcases ReadClient.exec_cases hu with rfl | ⟨r, order, rfl, -, rfl⟩ | ⟨r, rfl, -⟩ |
      ⟨order, rfl, -, -, rfl⟩
    · exact ⟨fun h => ⟨h.attached, h.objects.congr rfl (Nat.le_refl _)⟩, fun _ => rfl⟩
    · obtain ⟨hv, hn⟩ := sameViews_refreshInstanceMetadata s.books.client r order
      refine ⟨fun h => ⟨attached_refreshInstanceMetadata h.attached r order,
        h.objects.congr hv.instanceStatuses hn⟩, fun id => ?_⟩
      simp [slotOf, hv.instanceStatuses, hv.status, hv.instanceViews]
    · exact absurd rfl (hne r)
    · refine ⟨fun h => ⟨attached_setReservedInstance h.attached order,
        statusObjects_setReservedInstance h.objects order⟩, fun id => ?_⟩
      refine recover_setReservedInstance (P := fun c => slotOf c id = slotOf s.books.client id)
        (fun c role i hc => ?_) rfl
      have hs : slotOf (c.setReserved role i) id = slotOf s.books.client id := by
        have ht := setReserved_tables c role i
        simpa [slotOf, ht.instanceStatuses, ht.status, ht.instanceViews] using hc
      exact recover_reserve (P := fun c => slotOf c id = slotOf s.books.client id) hs fun _ _ => hs
  exact .inr ⟨rfl, rfl, hk.1, hk.2⟩

theorem Session.sound_exec (hex : s.exec U f a = some t) (h : Sound s.books.client) :
    Sound t.books.client := by
  rcases exec_cases hex with ⟨r, rfl, hbo, -⟩ | ⟨-, -, hs, -⟩
  · rw [hbo]
    exact Books.recover_loop (P := fun b => Sound b.client) _
      (fun b i _ hb => Books.sound_updateStatus hb i) _ (Books.sound_forgetStatuses r h)
  · exact hs h

theorem Session.sound_start : Sound (Session.start enableAdaptivePD editor).books.client :=
  ⟨attached_start _, statusObjects_start _⟩

end

/-! ### Plain payloads -/

def plainUnmarshal : Unmarshal InstanceStatus := ⟨fun bytes _ => (true, bytes), fun _ _ _ => rfl⟩

/-- A refresh in which one instance has a payload. -/
def singleInput (payload : InstanceStatus) (order : List String) : StatusInput InstanceStatus where
  values := fun id => if id = "a" then some payload else none
  order := order
  accountOrder := fun _ => ["r"]
  now := fun _ _ => 0
  recorderPanics := fun _ => false

end Llumnix.ReadClient
