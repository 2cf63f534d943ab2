/-
**The correction of the waiting tokens.**

With cache-aware scheduling the editor of `Llumnix/CmsLocalAccount.lean` replaces the number of uncomputed
tokens of the waiting prefills, which the instance reports, by what the accounts say.  It is meant to count
every waiting prefill once, but it adds up the raw entries of the list, whatever the type of their account.

* `countsOnce_iff` — **the correction is right if the surplus entries carry no tokens**.
-/

import Llumnix.CmsIndex

namespace Llumnix.Cms

open FiniteMap InstanceStatusLocalAccountEditor

variable {e : InstanceStatusLocalAccountEditor} {v : InstanceView} {r i : String} {order : List String}
  {now : String → BitVec 64} {recent waiting : Finset String}

/-- The uncomputed tokens of a request, if it has an account that satisfies `p`. -/
def tokensIf (p : InferType → Bool) (v : InstanceView) (r : String) : BitVec 32 :=
  (v.account r).elim 0 fun a => if p a.inferType then a.numUncomputedTokens else 0

def countsAsPrefill (t : InferType) : Bool := t = .prefill || t = .neutral

/-- **Every waiting prefill counts once**: the corrected number is the sum over the distinct listed requests
that still have a prefill or neutral account. -/
def CountsOnce (waitingRequests : List String) (v : InstanceView) : Prop :=
  v.status.numUncomputedTokensAllWaitingPrefills =
    ∑ r ∈ trimRequestIDsToSets waitingRequests, tokensIf countsAsPrefill v r

/-- The tokens that the code adds beyond that: of an entry that comes again, and of an account of another
type. -/
def surplus (v : InstanceView) : List String → BitVec 32
  | [] => 0
  | r :: rest => surplus v rest +
      if r ∈ rest then tokensIf (fun _ => true) v r else tokensIf (! countsAsPrefill ·) v r

theorem account_deleteRequestLocalAccount_of_ne {q : String} (hr : r ≠ q) (d : Bool) :
    (e.deleteRequestLocalAccount v i q d).2.account r = v.account r := by
  unfold deleteRequestLocalAccount
  split
  · rfl
  · cases d with
    | false => rfl
    | true => exact (account_deleteAccount _ _ _).trans (if_neg hr)

/-- **No turn of the update takes an account that is listed**, and none changes its type or tokens. -/
theorem tokensIf_updateRequest (hr : r ∈ waiting) (p : InferType → Bool)
    (st : InstanceStatusLocalAccountEditor × InstanceView) (q : String) :
    tokensIf p (updateRequest recent waiting i now st q).2 r = tokensIf p st.2 r := by
  cases ha : st.2.account q with
  | none => simp only [updateRequest, ha]
  | some account =>
  simp only [updateRequest, ha]
  by_cases hq : r = q
  · subst hq
    simp only [hr, not_true_eq_false, decide_false, Bool.and_false, Bool.false_and, Bool.false_eq_true,
      if_false]
    split
    · have hs := account_setAccount st.2 r { account with foundInCMS := true } r
      rw [if_pos rfl] at hs
      have hd : (st.1.deleteRequestLocalAccount (st.2.setAccount r { account with foundInCMS := true })
          i r false).2.account r = some { account with foundInCMS := true } := by
        rw [deleteRequestLocalAccount, hs]
        exact hs
      rw [tokensIf, hd, tokensIf, ha]
      rfl
    · rfl
  · unfold tokensIf
    congr 1
    split_ifs <;> simp [account_deleteRequestLocalAccount_of_ne hq, account_deleteAccount,
      account_setAccount, hq]

theorem tokensIf_foldl (hr : r ∈ waiting) (p : InferType → Bool) (order : List String)
    (st : InstanceStatusLocalAccountEditor × InstanceView) :
    tokensIf p (order.foldl (updateRequest recent waiting i now) st).2 r = tokensIf p st.2 r :=
  order.foldlRecOn _ (motive := fun st' : InstanceStatusLocalAccountEditor × InstanceView =>
    tokensIf p st'.2 r = tokensIf p st.2 r) rfl fun st' hst q _ =>
      (tokensIf_updateRequest hr p st' q).trans hst

theorem waitingUncomputedTokens_eq (v : InstanceView) (l : List String) :
    waitingUncomputedTokens v l = (l.map (tokensIf (fun _ => true) v)).sum := by
  rw [List.sum_eq_foldl, List.foldl_map, waitingUncomputedTokens]
  congr 1
  funext sum q
  unfold tokensIf
  cases v.account q <;> simp

theorem sum_tokens_eq (v : InstanceView) (l : List String) : (l.map (tokensIf (fun _ => true) v)).sum =
      ∑ r ∈ l.toFinset, tokensIf countsAsPrefill v r + surplus v l := by
  induction l with
  | nil => simp [surplus]
  | cons r l ih =>
  have ht : tokensIf (fun _ => true) v r =
      tokensIf countsAsPrefill v r + tokensIf (! countsAsPrefill ·) v r := by
    unfold tokensIf
    cases v.account r with
    | none => rfl
    | some a => cases hc : countsAsPrefill a.inferType <;> simp [hc]
  rw [List.map_cons, List.sum_cons, ih, List.toFinset_cons, surplus]
  split
  · next hm =>
      rw [Finset.insert_eq_of_mem (List.mem_toFinset.2 hm)]
      abel
  · next hm =>
      rw [Finset.sum_insert (mt List.mem_toFinset.1 hm), ht]
      abel

/-- No turn touches the status, or the setting of the editor. -/
theorem updateRequest_frame (st : InstanceStatusLocalAccountEditor × InstanceView) (q : String) :
    (updateRequest recent waiting i now st q).2.status = st.2.status ∧
      (updateRequest recent waiting i now st q).1.enableCacheAwareScheduling =
        st.1.enableCacheAwareScheduling := by
  have hr (e : InstanceStatusLocalAccountEditor) :
      (e.removeInstanceFromRequestIndex q i).enableCacheAwareScheduling = e.enableCacheAwareScheduling := by
    unfold removeInstanceFromRequestIndex
    split <;> rfl
  have hd (e : InstanceStatusLocalAccountEditor) (v : InstanceView) (d : Bool) :
      (e.deleteRequestLocalAccount v i q d).2.status = v.status ∧
        (e.deleteRequestLocalAccount v i q d).1.enableCacheAwareScheduling =
          e.enableCacheAwareScheduling := by
    unfold deleteRequestLocalAccount
    split
    · exact ⟨rfl, rfl⟩
    · cases d
      · exact ⟨rfl, rfl⟩
      · exact ⟨rfl, hr e⟩
  unfold updateRequest
  split
  · exact ⟨rfl, rfl⟩
  · dsimp only
    split_ifs <;> simp [hd, hr, InstanceView.deleteAccount, InstanceView.setAccount]

theorem foldl_updateRequest_frame (order : List String) (st : InstanceStatusLocalAccountEditor × InstanceView) :
    (order.foldl (updateRequest recent waiting i now) st).2.status = st.2.status ∧
      (order.foldl (updateRequest recent waiting i now) st).1.enableCacheAwareScheduling =
        st.1.enableCacheAwareScheduling :=
  order.foldlRecOn _ (motive := fun st' : InstanceStatusLocalAccountEditor × InstanceView =>
    st'.2.status = st.2.status ∧ st'.1.enableCacheAwareScheduling = st.1.enableCacheAwareScheduling)
    ⟨rfl, rfl⟩ fun st' hst q _ =>
      ⟨(updateRequest_frame st' q).1.trans hst.1, (updateRequest_frame st' q).2.trans hst.2⟩

theorem enableCacheAwareScheduling_update (e : InstanceStatusLocalAccountEditor) (v : InstanceView)
    (i : String) (order : List String) (now : String → BitVec 64) :
    (e.updateInstanceStatusLocalAccount v i order now).1.enableCacheAwareScheduling =
      e.enableCacheAwareScheduling := by
  unfold updateInstanceStatusLocalAccount
  dsimp only
  split <;> exact (foldl_updateRequest_frame order (e, v)).2

/-- **What the update makes of the reported number**: with cache-aware scheduling, the tokens of the waiting
accounts. -/
theorem numUncomputedTokens_update (e : InstanceStatusLocalAccountEditor) (v : InstanceView) (i : String)
    (order : List String) (now : String → BitVec 64) :
    (e.updateInstanceStatusLocalAccount v i order now).2.status.numUncomputedTokensAllWaitingPrefills =
      if e.enableCacheAwareScheduling ∧ v.status.waitingRequests ≠ [] then
        waitingUncomputedTokens v (trimRequestIDsToList v.status.waitingRequests)
      else v.status.numUncomputedTokensAllWaitingPrefills := by
  simp only [updateInstanceStatusLocalAccount, trimRequestIDsToList, List.isEmpty_map, Bool.and_eq_true,
    Bool.not_eq_true', List.isEmpty_eq_false_iff, ne_eq, waitingUncomputedTokens_eq]
  split
  · exact congrArg List.sum (List.map_congr_left fun r hr =>
      tokensIf_foldl (List.mem_toFinset.2 hr) _ order (e, v))
  · exact congrArg _ (foldl_updateRequest_frame order (e, v)).1

/-- **When the correction counts every waiting prefill once.** -/
theorem countsOnce_iff (he : e.enableCacheAwareScheduling = true) (hw : v.status.waitingRequests ≠ []) :
    CountsOnce v.status.waitingRequests (e.updateInstanceStatusLocalAccount v i order now).2 ↔
      surplus v (trimRequestIDsToList v.status.waitingRequests) = 0 := by
  have hs : ∀ r ∈ trimRequestIDsToSets v.status.waitingRequests,
      tokensIf countsAsPrefill (e.updateInstanceStatusLocalAccount v i order now).2 r =
        tokensIf countsAsPrefill v r := by
    intro r hr
    unfold updateInstanceStatusLocalAccount
    dsimp only
    split <;> exact tokensIf_foldl hr _ order (e, v)
  rw [CountsOnce, numUncomputedTokens_update, if_pos ⟨he, hw⟩, waitingUncomputedTokens_eq, sum_tokens_eq,
    Finset.sum_congr rfl hs]
  exact add_eq_left

def waitingView (waitingRequests : List String) : InstanceView where
  metadataInstanceId := "i"
  status := ⟨[], waitingRequests, 0⟩
  localAccount := { InstanceStatusLocalAccount.empty with
    requestLocalAccount := (∅ : Finmap _).insert "r" ⟨0, .prefill, 9, 5, true⟩ }

/-- A request with an account waits with one that has none. -/
theorem countsOnce_two : CountsOnce ["cmpl-r-0", "chatcmpl-q-1"]
    ((newInstanceStatusLocalAccountEditor 60 true).updateInstanceStatusLocalAccount
      (waitingView ["cmpl-r-0", "chatcmpl-q-1"]) "i" ["r"] (fun _ => 0)).2 :=
  (countsOnce_iff (v := waitingView ["cmpl-r-0", "chatcmpl-q-1"]) rfl (by decide)).2 (by decide +kernel)

/-- **Two engine ids of one request are counted twice**: the parallel samples of a request. -/
theorem samples_counted_twice : ¬ ∀ (e : InstanceStatusLocalAccountEditor) (v : InstanceView) i order now,
    e.enableCacheAwareScheduling = true → v.status.waitingRequests ≠ [] →
    Enumerates order v.localAccount.requestLocalAccount.keys →
    CountsOnce v.status.waitingRequests (e.updateInstanceStatusLocalAccount v i order now).2 := by
  intro h
  have hc := h (newInstanceStatusLocalAccountEditor 60 true) (waitingView ["cmpl-r-0", "cmpl-r-1"]) "i"
    ["r"] (fun _ => 0) rfl (by decide) (by decide)
  revert hc
  unfold CountsOnce
  decide +kernel

end Llumnix.Cms
