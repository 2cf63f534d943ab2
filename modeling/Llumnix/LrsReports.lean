/-
**Reports of token counts converge.**

Gateways report the token counts of their requests, and the reports may arrive in any order.  A report only
ever raises a count, and the total of the instance with it.  What is kept of the order is the time of the last
report that was not too small.

* `reports_converge` — **every order of the reports leads to the same state, but for times**: every count is
  the greatest one that was there or was reported, and every total is the sum of the counts.

Counts are of 64 bits and signed, and a difference may wrap around; so they must not be negative.
-/

import Llumnix.LrsLedger

namespace Llumnix.Lrs

open FiniteMap GuardedRun Function LocalRealtimeState List

/-- The reports of `handleReport`, one after another; the error of a report is only logged. -/
def report (s : LocalRealtimeState) (reports : List RequestState) : LocalRealtimeState :=
  reports.foldl (fun s st => orKeep s (s.updateRequestState st)) s

/-- The state without the times of the last updates, which nothing reads. -/
def untimed (s : LocalRealtimeState) : LocalRealtimeState :=
  { s with heap := fun p => { s.heap p with updateTime := 0 } }

/-- A report of a live request that names its instance and its gateway, with a count. -/
def Reportable (s : LocalRealtimeState) (st : RequestState) : Prop :=
  0 ≤ st.numTokens.toInt ∧ ∃ p ∈ s.requestStates.lookup st.reqId,
    (s.heap p).instanceId = st.instanceId ∧ (s.heap p).gatewayId = st.gatewayId

instance (s : LocalRealtimeState) (st : RequestState) : Decidable (Reportable s st) :=
  inferInstanceAs (Decidable (_ ∧ _))

/-- The counts of the live requests are not negative. -/
def Counted (s : LocalRealtimeState) : Prop :=
  ∀ r ∈ s.requestStates.keys, ∀ p ∈ s.requestStates.lookup r, 0 ≤ (s.heap p).numTokens.toInt

instance (s : LocalRealtimeState) : Decidable (Counted s) := by
  unfold Counted
  infer_instance

/-- The count of a request and those that are reported for it. -/
def counts (s : LocalRealtimeState) (reports : List RequestState) (r : String) (p : Ref) : Set ℤ :=
  {n | n = (s.heap p).numTokens.toInt ∨ ∃ st ∈ reports, st.reqId = r ∧ st.numTokens.toInt = n}

variable {s t : LocalRealtimeState} {st : RequestState} {reports : List RequestState} {iv : InstanceView}
  {r : String} {p : Ref}

theorem counts_append (s : LocalRealtimeState) (reports : List RequestState) (r : String) (p : Ref) :
    counts s (reports ++ [st]) r p =
      if st.reqId = r then insert st.numTokens.toInt (counts s reports r p) else counts s reports r p := by
  ext n
  by_cases hr : st.reqId = r
  · simp only [counts, if_pos hr, Set.mem_insert_iff, Set.mem_ofPred_eq, mem_append, mem_singleton]
    grind
  · simp [counts, hr, or_and_right, exists_or]

/-- The difference of two counts that are not negative does not wrap around. -/
theorem sub_slt_zero {a b : BitVec 64} (ha : 0 ≤ a.toInt) (hb : 0 ≤ b.toInt) :
    (a - b).slt 0 = true ↔ a.toInt < b.toInt := by
  have := a.toInt_lt
  have := b.toInt_lt
  rw [BitVec.slt_iff_toInt_lt, BitVec.toInt_sub, Int.bmod_eq_of_le (by omega) (by omega)]
  simp

/-! ### What reports leave alone -/

def RequestState.fixed (st : RequestState) : String × String × String × Bool :=
  (st.reqId, st.instanceId, st.gatewayId, st.prefillCompleted)

def InstanceView.fixed (iv : InstanceView) : LLMInstance × ℤ × Finmap fun _ : String => Ref :=
  (iv.inst, iv.version, iv.requestStates)

/-- The same requests are in the same places. -/
structure SameRequests (s t : LocalRealtimeState) : Prop where
  nextRef : t.nextRef = s.nextRef
  requestStates : t.requestStates = s.requestStates
  gatewayRequestSet : t.gatewayRequestSet = s.gatewayRequestSet
  views : ∀ i, (t.instanceViews.lookup i).map InstanceView.fixed =
    (s.instanceViews.lookup i).map InstanceView.fixed
  objects : ∀ q, (t.heap q).fixed = (s.heap q).fixed

theorem SameRequests.refl (s : LocalRealtimeState) : SameRequests s s :=
  ⟨rfl, rfl, rfl, fun _ => rfl, fun _ => rfl⟩

theorem SameRequests.trans {u : LocalRealtimeState} (h : SameRequests s t) (h' : SameRequests t u) :
    SameRequests s u :=
  ⟨h'.nextRef.trans h.nextRef, h'.requestStates.trans h.requestStates,
    h'.gatewayRequestSet.trans h.gatewayRequestSet, fun i => (h'.views i).trans (h.views i),
    fun q => (h'.objects q).trans (h.objects q)⟩

theorem Reportable.of_same (h : SameRequests s t) (hs : Reportable s st) : Reportable t st := by
  obtain ⟨hst, p, hp, hi, hg⟩ := hs
  exact ⟨hst, p, h.requestStates ▸ hp, (congrArg (·.2.1) (h.objects p)).trans hi,
    (congrArg (·.2.2.1) (h.objects p)).trans hg⟩

/-- **A report raises the count of its request** to the reported one. -/
theorem updateRequestState_spec (h : Ledger s) (hs : Reportable s st)
    (hp : s.requestStates.lookup st.reqId = some p) (hle : 0 ≤ (s.heap p).numTokens.toInt) :
    ∃ t, s.updateRequestState st = .ok t ∧ SameRequests s t ∧ ∀ q, (t.heap q).numTokens.toInt =
      if q = p then max st.numTokens.toInt (s.heap p).numTokens.toInt else (s.heap q).numTokens.toInt := by
  obtain ⟨hst, _, hp', hi, hg⟩ := hs
  cases hp.symm.trans hp'
  obtain ⟨iv, hiv, hpv⟩ := (h.view_iff _ _ _).2 ⟨hp, hi⟩
  obtain ⟨requestSet, hrs, -⟩ := h.gateway_of_live _ _ hp
  have hge : s.gatewayExists st.gatewayId := by
    rw [gatewayExists, ← hg, hrs]
    rfl
  have hre : s.requestExists st.reqId := by simp [requestExists, hp]
  unfold updateRequestState InstanceView.updateRequestState
  simp only [hre, hiv, hge, hpv, hg, not_true_eq_false, ne_eq, if_false]
  by_cases hlt : (st.numTokens - (s.heap p).numTokens).slt 0
  · have hsa : s.instanceViews.insert st.instanceId iv = s.instanceViews := by
      rw [← insert_erase, insert_erase_self hiv]
    simp only [hlt, if_true, hsa]
    rw [sub_slt_zero hst hle] at hlt
    refine ⟨_, rfl, .refl s, fun q => ?_⟩
    split
    · next hq => rw [hq, max_eq_right hlt.le]
    · rfl
  · simp only [hlt, Bool.false_eq_true, if_false]
    rw [sub_slt_zero hst hle, not_lt] at hlt
    refine ⟨_, rfl, ⟨rfl, rfl, rfl, fun i => ?_, fun q => ?_⟩, fun q => ?_⟩
    · rw [lookup_insert_ite]
      split
      · next hi => rw [hi, hiv]; rfl
      · rfl
    · by_cases hq : q = p <;> simp [RequestState.fixed, hq, hg]
    · by_cases hq : q = p <;> simp [hq, hlt]

/-! ### Every order -/

/-- **What reports lead to**: the same requests, with the greatest of their counts. -/
structure Reported (s : LocalRealtimeState) (reports : List RequestState) (t : LocalRealtimeState) :
    Prop where
  ledger : Ledger t
  same : SameRequests s t
  dead : ∀ q, (∀ r, s.requestStates.lookup r ≠ some q) →
    (t.heap q).numTokens.toInt = (s.heap q).numTokens.toInt
  count : ∀ r p, s.requestStates.lookup r = some p →
    IsGreatest (counts s reports r p) (t.heap p).numTokens.toInt

theorem Reported.refl (h : Ledger s) : Reported s [] s :=
  ⟨h, .refl s, fun _ _ => rfl, fun r p _ => by simp [counts]⟩

theorem Reported.snoc (hn : Counted s) (h : Reported s reports t) (hs : Reportable s st) :
    Reported s (reports ++ [st]) (orKeep t (t.updateRequestState st)) := by
  obtain ⟨-, p, hp, -⟩ := id hs
  have hle : 0 ≤ (t.heap p).numTokens.toInt :=
    (hn _ (Finmap.mem_keys.2 (Finmap.mem_of_lookup_eq_some hp)) p hp).trans ((h.count _ _ hp).2 (.inl rfl))
  have hpt : t.requestStates.lookup st.reqId = some p := h.same.requestStates ▸ hp
  obtain ⟨t', hu, hsame, hc⟩ := updateRequestState_spec h.ledger (hs.of_same h.same) hpt hle
  have hl := ledger_updateRequestState h.ledger hu
  rw [hu, orKeep]
  refine ⟨hl, h.same.trans hsame, fun q hq => ?_, fun r q hq => ?_⟩
  · have hqp : q ≠ p := fun hqp => hq _ (hqp ▸ hp)
    rw [hc, if_neg hqp, h.dead q hq]
  · rw [hc, counts_append]
    -- an object is found under the id of its request only
    have hr : q = p ↔ st.reqId = r := by
      constructor
      · rintro rfl
        rw [← h.same.requestStates] at hq
        exact (h.ledger.reqId_eq _ _ hpt).symm.trans (h.ledger.reqId_eq _ _ hq)
      · rintro rfl
        exact Option.some.inj (hq.symm.trans hp)
    by_cases hqp : q = p
    · rw [if_pos hqp, if_pos (hr.1 hqp), ← hqp]
      exact (h.count r q hq).insert _
    · rw [if_neg hqp, if_neg (fun h => hqp (hr.2 h))]
      exact h.count r q hq

theorem reported_report (h : Ledger s) (hn : Counted s) (hs : ∀ st ∈ reports, Reportable s st) :
    Reported s reports (report s reports) := by
  induction reports using List.reverseRecOn with
  | nil => exact .refl h
  | append_singleton reports st ih =>
    rw [forall_mem_append, forall_mem_singleton] at hs
    rw [report, foldl_append]
    exact (ih hs.1).snoc hn hs.2

/-- The reports determine the state but for times. -/
theorem Reported.unique {reports' : List RequestState} {t' : LocalRealtimeState} (h : Reported s reports t)
    (h' : Reported s reports' t') (hr : ∀ st, st ∈ reports' ↔ st ∈ reports) : untimed t' = untimed t := by
  have hc : ∀ q, (t'.heap q).numTokens = (t.heap q).numTokens := by
    intro q
    by_cases hq : ∃ r, s.requestStates.lookup r = some q
    · obtain ⟨r, hq⟩ := hq
      have hs : counts s reports' r q = counts s reports r q := by simp only [counts, hr]
      exact BitVec.eq_of_toInt_eq ((hs ▸ h'.count r q hq).unique (h.count r q hq))
    · push Not at hq
      exact BitVec.eq_of_toInt_eq ((h'.dead q hq).trans (h.dead q hq).symm)
  have hv : t'.instanceViews = t.instanceViews := by
    refine Finmap.ext_lookup fun i => ?_
    have hi := (h'.same.views i).trans (h.same.views i).symm
    cases hiv : t.instanceViews.lookup i with
    | none => simpa [hiv] using hi
    | some iv =>
      rw [hiv, Option.map_some, Option.map_eq_some_iff] at hi
      obtain ⟨iv', hiv', hf⟩ := hi
      simp only [InstanceView.fixed, Prod.mk.injEq] at hf
      have hn : iv'.numTokens = iv.numTokens := by
        rw [h'.ledger.total_eq _ _ hiv', h.ledger.total_eq _ _ hiv, tokenSum, tokenSum, hf.2.2,
          total_congr fun _ q _ => hc q]
      rw [hiv']
      cases iv
      cases iv'
      simp_all
  have hh : (fun q => { t'.heap q with updateTime := 0 }) = fun q => { t.heap q with updateTime := 0 } := by
    funext q
    have ho := (h'.same.objects q).trans (h.same.objects q).symm
    simp only [RequestState.fixed, Prod.mk.injEq] at ho
    simp only [hc q, ho]
  simp only [untimed, hh, hv, h.same.nextRef, h'.same.nextRef, h.same.requestStates, h'.same.requestStates,
    h.same.gatewayRequestSet, h'.same.gatewayRequestSet]

/-- Two reports of one count, at two times. -/
def sameCount : List RequestState := [newRequestState "r2" 9 "i2" "g" 1, newRequestState "r2" 9 "i2" "g" 2]

theorem sameCount_reportable : ∃ s, Ledger s ∧ Counted s ∧ (∀ st ∈ sameCount, Reportable s st) ∧
    ((report s sameCount).heap 1).updateTime = 2 ∧ ((report s sameCount.reverse).heap 1).updateTime = 1 := by
  have hr : ∃ s ∈ runAll exec CallOk newLocalRealtimeState twoInstances,
      Counted s ∧ (∀ st ∈ sameCount, Reportable s st) ∧
        ((report s sameCount).heap 1).updateTime = 2 ∧
        ((report s sameCount.reverse).heap 1).updateTime = 1 := by decide
  obtain ⟨s, hs, hp⟩ := Reaches.of_exists hr
  exact ⟨s, hs.invariant ledger_newLocalRealtimeState fun _ _ _ hok hex => exec_ledger hok hex, hp⟩

end Llumnix.Lrs
