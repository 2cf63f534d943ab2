/-
**The in-flight counters of an instance are sums over its unconfirmed accounts.**

`Llumnix/CmsLocalAccount.lean` keeps, for every instance, five running counters of what was dispatched to it
and has not yet shown up in its status, raised and lowered one request at a time by four routines.

* `Tally.of_change` — **replacing one account while moving the counters by the difference of its shares
  keeps the tally**; every editor call is a chain of such changes.
-/

import Llumnix.CmsLocalAccount

namespace Llumnix.Cms

open FiniteMap GuardedRun InstanceStatusLocalAccountEditor Option InstanceStatusLocalAccount Accounts List BitVec

variable {a : RequestLocalAccount} {la : InstanceStatusLocalAccount} {s : Accounts} {requestId : String}

/-! ### The property -/

inductive Counter
  | dispatch
  | prefill
  | decode
  | prefillTokens
  | decodeTokens
  deriving DecidableEq

/-- A statement about all counters can be checked by looking at each of them. -/
instance (p : Counter → Prop) [DecidablePred p] : Decidable (∀ c, p c) :=
  decidable_of_iff (p .dispatch ∧ p .prefill ∧ p .decode ∧ p .prefillTokens ∧ p .decodeTokens)
    ⟨fun h c => by cases c <;> simp [h], fun h => ⟨h _, h _, h _, h _, h _⟩⟩

def InstanceStatusLocalAccount.counter (la : InstanceStatusLocalAccount) : Counter → BitVec 32
  | .dispatch => la.numInflightDispatchRequests
  | .prefill => la.numInflightDispatchPrefillRequests
  | .decode => la.numInflightDispatchDecodeRequests
  | .prefillTokens => la.numUncomputedTokensInflightDispatchPrefillRequests
  | .decodeTokens => la.numTokensInflightDispatchDecodeRequests

/-- What dispatching one stage of a request adds to the counters of the stages. -/
def stageShare (inferType : InferType) (numTokens numUncomputedTokens : BitVec 32) :
    Counter → BitVec 32
  | .dispatch => 0
  | .prefill => if inferType = .prefill ∨ inferType = .neutral then 1 else 0
  | .decode => if inferType = .decode ∨ inferType = .neutral then 1 else 0
  | .prefillTokens =>
    if inferType = .prefill ∨ inferType = .neutral then numUncomputedTokens else 0
  | .decodeTokens => if inferType = .decode ∨ inferType = .neutral then numTokens else 0

/-- **What one account stands for**: a dispatched request, a prefill or decode request or both, and its
tokens. -/
def share (a : RequestLocalAccount) : Counter → BitVec 32
  | .dispatch => 1
  | c => stageShare a.inferType a.numTokens a.numUncomputedTokens c

/-- The share of an account that is still unconfirmed. -/
def due (c : Counter) (a : RequestLocalAccount) : Int :=
  if a.foundInCMS then 0 else (share a c).toInt

/-- **The sum of the shares of the unconfirmed accounts.** -/
def outstanding (c : Counter) (accounts : Finmap fun _ : String => RequestLocalAccount) : Int :=
  total (fun _ a => due c a) accounts

structure Conserved (la : InstanceStatusLocalAccount) : Prop where
  /-- Every counter is the sum over the unconfirmed accounts. -/
  counter_eq : ∀ c, (la.counter c).toInt = outstanding c la.requestLocalAccount
  nonneg : ∀ c, 0 ≤ (la.counter c).toInt
  zero : (∀ reqID a, la.requestLocalAccount.lookup reqID = some a → a.foundInCMS = true) →
    ∀ c, la.counter c = 0

/-! ### The guard -/

/-- The counters can be raised by `extra` without overflowing. -/
def Fits (la : InstanceStatusLocalAccount) (extra : Counter → BitVec 32) : Prop :=
  ∀ c, (la.counter c).toInt + (extra c).toInt < 2 ^ 31

instance (la : InstanceStatusLocalAccount) (extra : Counter → BitVec 32) :
    Decidable (Fits la extra) := by
  unfold Fits
  infer_instance

/-- An add for a request that already has the account `existing` is skipped, or brings the other stage of the
same unconfirmed request. -/
def SecondAddOk (la : InstanceStatusLocalAccount) (existing : RequestLocalAccount)
    (inferType : InferType) (numTokens numUncomputedTokens : BitVec 32) : Prop :=
  (existing.inferType = inferType ∨ existing.inferType = .neutral) ∨
    (existing.foundInCMS = false ∧
      (existing.inferType = .prefill ∧ inferType = .decode ∧ existing.numTokens = numTokens ∨
        existing.inferType = .decode ∧ inferType = .prefill ∧
          existing.numUncomputedTokens = numUncomputedTokens) ∧
      Fits la (stageShare inferType numTokens numUncomputedTokens))

instance (la : InstanceStatusLocalAccount) (existing : RequestLocalAccount)
    (inferType : InferType) (numTokens numUncomputedTokens : BitVec 32) :
    Decidable (SecondAddOk la existing inferType numTokens numUncomputedTokens) :=
  inferInstanceAs (Decidable (_ ∨ _))

/-- The first add for a request brings token counts that are not negative. -/
def FirstAddOk (la : InstanceStatusLocalAccount) (inferType : InferType)
    (numTokens numUncomputedTokens : BitVec 32) : Prop :=
  0 ≤ numTokens.toInt ∧ 0 ≤ numUncomputedTokens.toInt ∧
    Fits la (share ⟨0, inferType, numTokens, numUncomputedTokens, false⟩)

instance (la : InstanceStatusLocalAccount) (inferType : InferType)
    (numTokens numUncomputedTokens : BitVec 32) :
    Decidable (FirstAddOk la inferType numTokens numUncomputedTokens) :=
  inferInstanceAs (Decidable (_ ∧ _))

def AddOk (instanceView : InstanceView) (inferType : InferType)
    (numTokens numUncomputedTokens : BitVec 32) (requestId : String) : Prop :=
  (∀ existing ∈ instanceView.account requestId,
    SecondAddOk instanceView.localAccount existing inferType numTokens numUncomputedTokens) ∧
  (instanceView.account requestId = none →
    FirstAddOk instanceView.localAccount inferType numTokens numUncomputedTokens)

instance (instanceView : InstanceView) (inferType : InferType)
    (numTokens numUncomputedTokens : BitVec 32) (requestId : String) :
    Decidable (AddOk instanceView inferType numTokens numUncomputedTokens requestId) :=
  inferInstanceAs (Decidable (_ ∧ _))

/-- The guard on removals: no view that the index lists for the request has confirmed it. -/
def RemoveOk (s : Accounts) (requestId : String) : Prop :=
  ∀ instanceId ∈ s.editor.instanceIds requestId, ∀ ref ∈ s.instanceViews.lookup instanceId,
    ∀ instanceView ∈ s.heap.lookup ref, ∀ a ∈ instanceView.account requestId,
      a.foundInCMS = false

instance (s : Accounts) (requestId : String) : Decidable (RemoveOk s requestId) := by
  unfold RemoveOk
  infer_instance

def ActionOk (s : Accounts) : Action → Prop
  | .add ref inferType numTokens prefixHitNumTokens requestId _ =>
    ∀ instanceView ∈ s.heap.lookup ref, AddOk instanceView inferType numTokens
      (s.editor.uncomputedTokens numTokens prefixHitNumTokens) requestId
  | .revert .. => False
  | .remove requestId => RemoveOk s requestId
  | .createView .. | .dropView .. | .update .. => True

instance (s : Accounts) (a : Action) : Decidable (ActionOk s a) := by
  unfold ActionOk
  split <;> infer_instance

/-! ### Counters and shares -/

variable (a la)

theorem counter_decrementCounters (a : RequestLocalAccount)
    (c : Counter) : (decrementCounters la a).counter c = la.counter c - share a c := by
  cases c with
  | dispatch => rfl
  | prefill | decode | prefillTokens | decodeTokens =>
    simp only [decrementCounters, counter, share, stageShare]
    split <;> simp

theorem counter_incrementCounters (inferType : InferType)
    (numTokens numUncomputedTokens : BitVec 32) (c : Counter) :
    (incrementCounters la inferType numTokens numUncomputedTokens).counter c
      = la.counter c + stageShare inferType numTokens numUncomputedTokens c := by
  cases c with
  | dispatch => exact (add_zero _).symm
  | prefill | decode | prefillTokens | decodeTokens =>
    simp only [incrementCounters, counter, stageShare]
    split <;> simp

/-- An account whose token counts are not negative. -/
def Sound : Prop :=
  0 ≤ a.numTokens.toInt ∧ 0 ≤ a.numUncomputedTokens.toInt

variable {a la}

theorem share_nonneg (h : Sound a) (c : Counter) : 0 ≤ (share a c).toInt := by
  obtain ⟨hn, hu⟩ := h
  cases c with
  | dispatch => exact (by decide : (0 : Int) ≤ (1 : BitVec 32).toInt)
  | prefill | decode | prefillTokens | decodeTokens =>
    simp only [share, stageShare]
    split
    · first | assumption | decide
    · decide

theorem due_nonneg (h : Sound a) (c : Counter) : 0 ≤ due c a := by
  rw [due]
  split
  · exact le_rfl
  · exact share_nonneg h c

/-- The share of a request that may be absent. -/
def dueOf (c : Counter) (o : Option RequestLocalAccount) : Int :=
  o.elim 0 (due c)

/-! ### The tally -/

/-- **The inductive invariant.** The counters agree with the sums modulo `2 ^ 32`, and these are non-negative
and below `2 ^ 31`. -/
structure Tally (la : InstanceStatusLocalAccount) : Prop where
  balanced : ∀ c, la.counter c = BitVec.ofInt 32 (outstanding c la.requestLocalAccount)
  sound : ∀ reqID a, la.requestLocalAccount.lookup reqID = some a → Sound a
  fits : ∀ c, outstanding c la.requestLocalAccount < 2 ^ 31

theorem tally_empty : Tally .empty where
  balanced c := by cases c <;> rfl
  sound reqID a h := by simp [empty] at h
  fits c := by simp [empty, outstanding]

def setOrErase (accounts : Finmap fun _ : String => RequestLocalAccount) (reqID : String) :
    Option RequestLocalAccount → Finmap fun _ : String => RequestLocalAccount
  | some a => accounts.insert reqID a
  | none => accounts.erase reqID

section

variable (c : Counter) (accounts : Finmap fun _ : String => RequestLocalAccount) (reqID : String)
  (o : Option RequestLocalAccount)

theorem lookup_setOrErase (j : String) :
    (setOrErase accounts reqID o).lookup j = if j = reqID then o else accounts.lookup j := by
  cases o with
  | none => exact lookup_erase_ite accounts reqID j
  | some a => exact lookup_insert_ite accounts reqID j a

/-- A sum over all accounts, with the account of one request split off. -/
theorem outstanding_split :
    outstanding c accounts = dueOf c (accounts.lookup reqID) + outstanding c (accounts.erase reqID) := by
  cases h : accounts.lookup reqID with
  | none => rw [erase_of_none h, dueOf, elim_none, zero_add]
  | some a => exact total_eq_add_erase (fun _ a => due c a) h

theorem outstanding_setOrErase :
    outstanding c (setOrErase accounts reqID o) = dueOf c o + outstanding c (accounts.erase reqID) := by
  cases o with
  | none => simp [setOrErase, dueOf]
  | some a => exact total_insert (fun _ a => due c a) accounts reqID a

end

theorem outstanding_nonneg (c : Counter) {accounts : Finmap fun _ : String => RequestLocalAccount}
    (h : ∀ reqID a, accounts.lookup reqID = some a → Sound a) : 0 ≤ outstanding c accounts :=
  total_nonneg fun reqID a ha => due_nonneg (h reqID a ha) c

/-- **One account is replaced, and every counter moves by the difference of the shares.** -/
theorem Tally.of_change {la' : InstanceStatusLocalAccount} (h : Tally la) (reqID : String)
    (o : Option RequestLocalAccount)
    (ha : la'.requestLocalAccount = setOrErase la.requestLocalAccount reqID o)
    (hc : ∀ c, la'.counter c = la.counter c
      + BitVec.ofInt 32 (dueOf c o - dueOf c (la.requestLocalAccount.lookup reqID)))
    (hso : ∀ a, o = some a → Sound a) (hr : ∀ c, outstanding c la.requestLocalAccount
      + (dueOf c o - dueOf c (la.requestLocalAccount.lookup reqID)) < 2 ^ 31) : Tally la' := by
  have hs (c : Counter) : outstanding c la'.requestLocalAccount = outstanding c la.requestLocalAccount
      + (dueOf c o - dueOf c (la.requestLocalAccount.lookup reqID)) := by
    rw [ha, outstanding_setOrErase, outstanding_split c la.requestLocalAccount reqID]
    omega
  refine ⟨fun c => ?_, fun j a hj => ?_, fun c => ?_⟩
  · rw [hc, hs, BitVec.ofInt_add, h.balanced]
  · rw [ha, lookup_setOrErase] at hj
    split at hj
    · exact hso a hj
    · exact h.sound j a hj
  · rw [hs]
    exact hr c

/-- The tally gives the property: the sums are in range, so the counters are the sums. -/
theorem Tally.conserved (h : Tally la) : Conserved la := by
  have heq (c : Counter) : (la.counter c).toInt = outstanding c la.requestLocalAccount := by
    have hl := outstanding_nonneg c h.sound
    have hh := h.fits c
    rw [h.balanced, toInt_ofInt]
    exact Int.bmod_eq_of_le (by omega) (by omega)
  refine ⟨heq, fun c => heq c ▸ outstanding_nonneg c h.sound, fun hal c => ?_⟩
  have hz : outstanding c la.requestLocalAccount = 0 :=
    total_eq_zero fun reqID a ha => by rw [due, hal reqID a ha, if_pos rfl]
  rw [h.balanced, hz]
  rfl

/-! ### Changes of one account -/

section

variable {la : InstanceStatusLocalAccount} {reqID : String} {a : RequestLocalAccount}
variable {inferType : InferType} {numTokens numUncomputedTokens : BitVec 32}

/-- Lowering the counters by the share of an unconfirmed account, while the account is confirmed or
deleted. -/
theorem Tally.settle (h : Tally la) (ha : la.requestLocalAccount.lookup reqID = some a)
    (hn : a.foundInCMS = false) (o : Option RequestLocalAccount) (hz : ∀ c, dueOf c o = 0)
    (hs : ∀ a', o = some a' → Sound a') : Tally { decrementCounters la a with
      requestLocalAccount := setOrErase la.requestLocalAccount reqID o } := by
  have hdu (c : Counter) : dueOf c (la.requestLocalAccount.lookup reqID) = (share a c).toInt := by
    rw [ha, dueOf, elim_some, due, hn, if_neg (by simp)]
  refine h.of_change reqID o rfl (fun c => ?_) hs (fun c => ?_)
  · rw [hdu, hz, zero_sub, ofInt_neg, ofInt_toInt, ← sub_eq_add_neg]
    exact counter_decrementCounters la a c
  · have hsh := share_nonneg (h.sound reqID a ha) c
    have hf := h.fits c
    rw [hdu, hz]
    omega

theorem Tally.erase_found (h : Tally la) (ha : la.requestLocalAccount.lookup reqID = some a)
    (hf : a.foundInCMS = true) :
    Tally { la with requestLocalAccount := la.requestLocalAccount.erase reqID } := by
  have hdu (c : Counter) : dueOf c (la.requestLocalAccount.lookup reqID) = 0 := by
    rw [ha, dueOf, elim_some, due, hf, if_pos rfl]
  refine h.of_change reqID none rfl (fun c => ?_) (by simp) (fun c => ?_)
  · rw [hdu]
    exact (add_zero _).symm
  · have hfi := h.fits c
    rw [hdu, dueOf, elim_none]
    omega

theorem Tally.first_add (h : Tally la) {now : BitVec 64} (hno : la.requestLocalAccount.lookup reqID = none)
    (hok : FirstAddOk la inferType numTokens numUncomputedTokens) :
    Tally { incrementCounters la inferType numTokens numUncomputedTokens with
      numInflightDispatchRequests := la.numInflightDispatchRequests + 1
      requestLocalAccount := la.requestLocalAccount.insert reqID
        ⟨now, inferType, numTokens, numUncomputedTokens, false⟩ } := by
  obtain ⟨hn, hu, hf⟩ := hok
  have hdu (c : Counter) : dueOf c (la.requestLocalAccount.lookup reqID) = 0 := by
    rw [hno, dueOf, elim_none]
  have hne (c : Counter) : dueOf c (some ⟨now, inferType, numTokens, numUncomputedTokens, false⟩)
      = (share ⟨0, inferType, numTokens, numUncomputedTokens, false⟩ c).toInt := by
    cases c <;> rfl
  refine h.of_change reqID (some _) rfl (fun c => ?_) ?_ (fun c => ?_)
  · rw [hdu, hne, sub_zero, ofInt_toInt]
    have hin := counter_incrementCounters la inferType numTokens numUncomputedTokens c
    cases c with
    | dispatch => rfl
    | _ => exact hin
  · intro a ha
    cases ha
    exact ⟨hn, hu⟩
  · have hr := hf c
    rw [h.conserved.counter_eq] at hr
    rw [hdu, hne]
    omega

theorem Tally.second_add (h : Tally la) (ha : la.requestLocalAccount.lookup reqID = some a)
    (ho : ¬ (a.inferType = inferType ∨ a.inferType = .neutral))
    (hok : SecondAddOk la a inferType numTokens numUncomputedTokens) :
    Tally { incrementCounters la inferType numTokens numUncomputedTokens with
      requestLocalAccount := la.requestLocalAccount.insert reqID { a with inferType := .neutral } } := by
  obtain ⟨hn, hs, hf⟩ := hok.resolve_left ho
  have hdi (c : Counter) : dueOf c (some { a with inferType := .neutral })
      - dueOf c (la.requestLocalAccount.lookup reqID)
        = (stageShare inferType numTokens numUncomputedTokens c).toInt := by
    rcases hs with ⟨hi, rfl, rfl⟩ | ⟨hi, rfl, rfl⟩ <;>
      cases c <;> simp [ha, dueOf, due, hn, share, stageShare, hi]
  refine h.of_change reqID (some _) rfl (fun c => ?_) ?_ (fun c => ?_)
  · rw [hdi, ofInt_toInt]
    exact counter_incrementCounters la inferType numTokens numUncomputedTokens c
  · intro a' ha'
    cases ha'
    exact h.sound reqID a ha
  · have hr := hf c
    rw [h.conserved.counter_eq] at hr
    rw [hdi]
    exact hr

end

/-! ### The editor keeps the tally -/

section

variable {e : InstanceStatusLocalAccountEditor} {v : InstanceView}
variable {instanceID reqID : String}

theorem tally_deleteRequestLocalAccount (h : Tally v.localAccount)
    (hn : ∀ a, v.account reqID = some a → a.foundInCMS = false) :
    Tally (e.deleteRequestLocalAccount v instanceID reqID true).2.localAccount := by
  unfold deleteRequestLocalAccount
  cases ha : v.account reqID with
  | none => exact h
  | some a => exact h.settle ha (hn a ha) none (fun _ => rfl) (by simp)

theorem tally_confirm (h : Tally v.localAccount) (instanceID : String) {a : RequestLocalAccount}
    (ha : v.account reqID = some a) (hn : a.foundInCMS = false) :
    let r := e.deleteRequestLocalAccount (v.setAccount reqID { a with foundInCMS := true })
      instanceID reqID false
    Tally r.2.localAccount ∧ r.2.account reqID = some { a with foundInCMS := true } := by
  have hl : (v.setAccount reqID { a with foundInCMS := true }).account reqID
      = some { a with foundInCMS := true } :=
    Finmap.lookup_insert _
  simp only [deleteRequestLocalAccount, hl]
  exact ⟨h.settle ha hn (some { a with foundInCMS := true }) (fun _ => rfl)
    (fun a' ha' => by cases ha'; exact h.sound reqID a ha), hl⟩

theorem tally_updateRequest {recentWaitingReqs waitingReqs : Finset String} {now : String → BitVec 64}
    {st : InstanceStatusLocalAccountEditor × InstanceView} (h : Tally st.2.localAccount) (reqID : String) :
    Tally (updateRequest recentWaitingReqs waitingReqs instanceID now st reqID).2.localAccount := by
  cases ha : st.2.account reqID with
  | none => simpa only [updateRequest, ha] using h
  | some a =>
  simp only [updateRequest, ha]
  cases hf : a.foundInCMS with
  | true =>
    split
    · exact h.erase_found ha hf
    · exact h
  | false =>
  by_cases hr : reqID ∈ recentWaitingReqs
  · -- the request shows up for the first time, so the account counts as found from here on
    obtain ⟨hc, hl⟩ := tally_confirm (e := st.1) (v := st.2) h instanceID ha hf
    simp only [hr, decide_true, Bool.not_false, Bool.true_and, Bool.or_true, if_true,
      Bool.not_true, Bool.false_and, Bool.false_eq_true, if_false]
    split
    · exact hc.erase_found hl rfl
    · exact hc
  · simp only [hr, decide_false, Bool.not_false, Bool.and_false, Bool.or_false,
      Bool.false_and, Bool.true_and, Bool.false_eq_true, if_false]
    split
    · refine tally_deleteRequestLocalAccount h fun a' ha' => ?_
      cases ha.symm.trans ha'
      exact hf
    · exact h

theorem tally_updateInstanceStatusLocalAccount (h : Tally v.localAccount) (instanceID : String)
    (order : List String) (now : String → BitVec 64) :
    Tally (e.updateInstanceStatusLocalAccount v instanceID order now).2.localAccount := by
  have hl : ∀ recent waiting,
      Tally (order.foldl (updateRequest recent waiting instanceID now) (e, v)).2.localAccount :=
    fun _ _ => order.foldlRecOn (motive := fun st : _ × InstanceView => Tally st.2.localAccount) _ h
      fun _ hst reqID _ => tally_updateRequest hst reqID
  simp only [updateInstanceStatusLocalAccount]
  split
  · exact hl _ _
  · exact hl _ _

end

/-! ### Runs -/

/-- Every view object, served or dropped, has its tally. -/
def Tallied (s : Accounts) : Prop :=
  ∀ ref v, s.heap.lookup ref = some v → Tally v.localAccount

theorem tallied_store (h : Tallied s) {ref : Ref} {r : InstanceStatusLocalAccountEditor × InstanceView}
    (hr : Tally r.2.localAccount) : Tallied (s.store ref r) := by
  intro ref' v hv
  rw [store, lookup_insert_ite] at hv
  split at hv
  · cases hv
    exact hr
  · exact h ref' v hv

theorem mem_of_mem_spliceBacking {backing : List String} {len : Nat} {instanceID i : String}
    (h : i ∈ spliceBacking backing len instanceID) : i ∈ backing := by
  rw [spliceBacking] at h
  split at h
  · rcases mem_append.1 h with h | h
    · exact mem_of_mem_take (mem_of_mem_erase h)
    · exact mem_of_mem_drop h
  · exact h

/-- What the removal loop keeps: the tally, and that the views it may still visit have not confirmed
the request. -/
structure Removing (requestId : String) (st : List String × Accounts) : Prop where
  tallied : Tallied st.2
  unconfirmed : ∀ instanceId ∈ st.1, ∀ ref ∈ st.2.instanceViews.lookup instanceId,
    ∀ v ∈ st.2.heap.lookup ref, ∀ a ∈ v.account requestId, a.foundInCMS = false

theorem removing_removeTurn {st : List String × Accounts} (h : Removing requestId st) (i : Nat) :
    Removing requestId (removeTurn requestId st i) := by
  cases hi : st.1[i]? with
  | none => simpa only [removeTurn, hi] using h
  | some instanceId =>
  have hm : instanceId ∈ st.1 := mem_of_getElem? hi
  cases hvi : st.2.instanceViews.lookup instanceId with
  | none =>
    simp only [removeTurn, hi, hvi]
    exact ⟨h.tallied, fun j hj => h.unconfirmed j (mem_of_mem_spliceBacking hj)⟩
  | some ref =>
  cases hv : st.2.heap.lookup ref with
  | none => simpa only [removeTurn, hi, hvi, hv] using h
  | some v =>
  simp only [removeTurn, hi, hvi, hv]
  split
  · have hn := h.unconfirmed instanceId hm ref hvi v hv
    refine ⟨tallied_store h.tallied (tally_deleteRequestLocalAccount (h.tallied ref v hv) hn), ?_⟩
    intro j hj ref' hr' v' hv' a ha
    rw [mem_def, store, lookup_insert_ite] at hv'
    split at hv'
    · -- the view this turn has changed holds no account of the request any more
      cases hv'
      unfold deleteRequestLocalAccount at ha
      split at ha
      · next hn => cases hn.symm.trans ha
      · cases (Finmap.lookup_erase _ _).symm.trans ha
    · exact h.unconfirmed j (mem_of_mem_spliceBacking hj) ref' hr' v' hv' a ha
  · exact h

/-- **The removal loop keeps the tally**, whichever cells it gets to read. -/
theorem tallied_removeRequestLocalAccount (h : Tallied s) (hok : RemoveOk s requestId) :
    Tallied (s.removeRequestLocalAccount requestId) := by
  have hs : Removing requestId (s.editor.instanceIds requestId, s) := ⟨h, hok⟩
  exact (foldlRecOn _ _ hs fun _ hst i _ => removing_removeTurn hst i).tallied

theorem exec_tallied (s : Accounts) (a : Action) (s' : Accounts) (hok : ActionOk s a)
    (hex : exec s a = some s') (h : Tallied s) : Tallied s' := by
  cases a with
  | createView =>
    cases hex
    intro ref v hv
    rw [createView, lookup_insert_ite] at hv
    split at hv
    · cases hv
      exact tally_empty
    · exact h ref v hv
  | dropView =>
    cases hex
    exact h
  | add ref =>
    obtain ⟨v, hv, rfl⟩ := map_eq_some_iff.1 hex
    obtain ⟨hs, hf⟩ := hok v hv
    refine tallied_store h ?_
    unfold addRequestLocalAccount
    cases ha : v.account _ with
    | none => exact (h ref v hv).first_add ha (hf ha)
    | some existing =>
      dsimp only
      split
      · exact h ref v hv
      · exact (h ref v hv).second_add ha ‹_› (hs existing ha)
  | update instanceID status order now =>
    obtain ⟨ref, -, hex⟩ := bind_eq_some_iff.1 hex
    obtain ⟨v, hv, hex⟩ := bind_eq_some_iff.1 hex
    split at hex <;> cases hex
    have ht : Tally { v with status := status }.localAccount := h ref v hv
    exact tallied_store h (tally_updateInstanceStatusLocalAccount ht instanceID order now)
  | revert => exact hok.elim
  | remove =>
    cases hex
    exact tallied_removeRequestLocalAccount h hok

theorem tallied_init (stalenessSeconds : BitVec 32) (enableCacheAwareScheduling : Bool) :
    Tallied (.init stalenessSeconds enableCacheAwareScheduling) := by
  intro ref v hv
  simp [init] at hv

/-- **Conservation.** In every guarded run, the counters of every view, served or not, are the sums over its
unconfirmed accounts. -/
theorem conserved_of_reaches {stalenessSeconds : BitVec 32} {enableCacheAwareScheduling : Bool}
    {s : Accounts}
    (h : Reaches exec ActionOk (.init stalenessSeconds enableCacheAwareScheduling) s)
    {ref : Ref} {v : InstanceView} (hv : s.heap.lookup ref = some v) : Conserved v.localAccount :=
  (h.invariant (tallied_init _ _) exec_tallied ref v hv).conserved

/-- A batched request on one instance, statuses that show it waiting and no longer do, and the removal of
another request. -/
def sameInstanceRun : List Action :=
  [.createView "i" "i",
   .add 0 .prefill 10 4 "r" 1000,
   .add 0 .decode 10 4 "r" 1001,
   .add 0 .neutral 7 0 "q" 1002,
   .update "i" ⟨["cmpl-r-0"], ["cmpl-r-0"], 10⟩ ["r", "q"] (fun _ => 1003),
   .remove "q"]

/-- The run goes through, and leaves the confirmed request with all counters back at zero. -/
theorem conserved_after_sameInstanceRun :
    ∃ s v, Reaches exec ActionOk (.init 60 true) s ∧ s.heap.lookup 0 = some v ∧
      v.account "r" = some ⟨1000, .neutral, 10, 6, true⟩ ∧ Conserved v.localAccount := by
  have hru : ∃ s ∈ runAll exec ActionOk (.init 60 true) sameInstanceRun,
      ∃ v ∈ s.heap.lookup 0, v.account "r" = some ⟨1000, .neutral, 10, 6, true⟩ := by decide
  obtain ⟨s, hs, v, hv, hr⟩ := Reaches.of_exists hru
  exact ⟨s, v, hs, hv, hr, conserved_of_reaches hs hv⟩

/-- **A reverted prefill stays counted as dispatched**: the account is gone, and the count is still one. -/
theorem revert_strands_dispatch_count : ¬ ∀ s, Reaches exec free (.init 60 false) s →
      ∀ ref v, s.heap.lookup ref = some v → Conserved v.localAccount := by
  intro hal
  have hr : ∃ s ∈ runAll exec free (.init 60 false)
      [.createView "i" "i", .add 0 .prefill 10 0 "r" 1000, .revert 0 10 0 "r"],
        ∃ v ∈ s.heap.lookup 0, v.localAccount.numInflightDispatchRequests = 1 ∧
          v.localAccount.requestLocalAccount.keys = ∅ := by decide
  obtain ⟨s, hs, v, hv, hc, hk⟩ := Reaches.of_exists hr
  have hz := (hal s hs 0 v hv).zero (fun reqID a ha => by
    have hm : reqID ∈ v.localAccount.requestLocalAccount.keys :=
      Finmap.mem_keys.2 (Finmap.mem_iff.2 ⟨a, ha⟩)
    simp [hk] at hm) .dispatch
  exact absurd (hc.symm.trans hz) (by decide)

end Llumnix.Cms
