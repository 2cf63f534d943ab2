/-
**Releases that arrive late.**

The scheduler answers a request with instances, each with the version it has at that time, and the gateway
gives the answer back when it is done.  Between the two the instance can be removed, come back with a newer
version, and be given a request with the same id.  The comment of `pkg/lrs/local_realtime_state.go` promises
that the release of the old allocation is then rejected because its version does not match, but
`ReleaseRequestState` compares no versions.

The handlers take the lock of the client for every instance of a result anew, so every instance is recorded
by a step of its own and released by a step of its own.  A release is delivered after any delay, and
possibly more than once.

* `rejects_iff` — **when a release is not rejected**, whatever happened before.
-/

import Llumnix.DiscoveryReplace
import Llumnix.ScheduleHandler

namespace Llumnix.Stale

open FiniteMap Lrs Replace Option GuardedRun

/-! ### The system -/

/-- What the gateway gives back for one instance of its scheduling result. -/
structure Release where
  id : String
  gatewayId : String
  /-- The instance, with the version that the gateway was told. -/
  inst : LLMInstance
  /-- The version of the view that the request was recorded in, unless the recording was refused. -/
  under : Option ℤ
  deriving DecidableEq

/-- The local realtime states, and what the gateways can give back. -/
structure State where
  client : Client
  /-- For every request object, the version of the instance it was allocated to. -/
  bound : Store → Ref → ℤ
  issued : List Release

def State.start : State where
  client := newClient
  bound := fun _ _ => 0
  issued := []

/-- The steps, with every choice of the environment as an argument. -/
inductive Action
  /-- Discovery adds an instance; `order` is the order of the loop over the requests of its old view. -/
  | addInstance (w : LLMInstance) (order : List String)
  | removeInstance (w : LLMInstance) (order : List String)
  /-- A keep-alive connection opens or closes, or a gateway reports. -/
  | call (c : ClientCall)
  /-- `handleSchedule` records a request on an instance of the result. -/
  | schedule (req : Handler.SchedulingRequest) (now : ℤ) (w : LLMInstance)
  /-- `handleRelease` is given one back. -/
  | release (m : Release) (now : ℤ)

/-- The state that a request for an instance is recorded in. -/
def recordedIn (w : LLMInstance) : Option Store :=
  getLocalRealtimeState (if w.inferType = .unset then .neutral else w.inferType)

/-- The version of the view that a recording finds. -/
def versionAt (c : Client) (w : LLMInstance) : Option ℤ :=
  (recordedIn w).bind fun k => ((c.state k).instanceViews.lookup w.id).map (·.version)

/-- The version under which a request is recorded, if it is. -/
def recordedUnder (c : Client) (w : LLMInstance) (st : RequestState) : Option ℤ :=
  match c.allocateRequestState w.inferType st with
  | .error _ => none
  | .ok _ => versionAt c w

/-- Allocations and releases have steps of their own. -/
def isReport : ClientCall → Bool
  | .allocateRequestState _ _ => false
  | .releaseRequestState _ _ => false
  | _ => true

/-- `handleRelease`, for one instance of the result. -/
def handleRelease (c : Client) (now : ℤ) (m : Release) : Client :=
  c.releaseRequestState m.inst.inferType (newRequestState m.id 0 m.inst.id m.gatewayId now)

def exec (s : State) : Action → Option State
  | .addInstance w order =>
    if Enumerates order (viewRequestIds s.client w) then
      some { s with client := s.client.addInstance w order }
    else none
  | .removeInstance w order =>
    if Enumerates order (viewRequestIds s.client w) then
      some { s with client := s.client.removeInstance w.inferType w.id order }
    else none
  | .call c => if isReport c then (s.client.exec c).map fun client => { s with client := client } else none
  | .schedule req now w =>
    let st := Handler.reqState req now w
    some
      { client := s.client.orKeep (s.client.allocateRequestState w.inferType st)
        bound := boundAfter s.client s.bound (.allocateRequestState w.inferType st)
        issued := ⟨req.id, req.gatewayId, w, recordedUnder s.client w st⟩ :: s.issued }
  | .release m now =>
    if m ∈ s.issued then some { s with client := handleRelease s.client now m } else none

/-! ### What should hold -/

/-- **An allocation on the instance of a release, made under a later version.**  The release was created
for an allocation under the version it carries. -/
structure Later (s : State) (m : Release) (k : Store) (r : String) (p : Ref) : Prop where
  under : m.under = some m.inst.version
  store : recordedIn m.inst = some k
  held : ViewHolds (s.client.state k) m.inst.id r p
  later : m.inst.version < s.bound k p

/-- An allocation is still there, with the same state. -/
structure Kept (s t : LocalRealtimeState) (i r : String) (p : Ref) : Prop where
  object : t.heap p = s.heap p
  view : ViewHolds t i r p
  table : s.requestStates.lookup r = some p → t.requestStates.lookup r = some p
  gateway : GatewayHolds s (s.heap p).gatewayId r → GatewayHolds t (s.heap p).gatewayId r

/-- **A release leaves alone what was allocated under a later version.** -/
def Rejects (s : State) (m : Release) : Prop :=
  ∀ now t, exec s (.release m now) = some t → ∀ k r p, Later s m k r p →
    Kept (s.client.state k) (t.client.state k) m.inst.id r p

/-- **A release has been overtaken**: its request is held again, by a view of its instance with a later
version, and its gateway is known. -/
def Overtaken (s : State) (m : Release) : Prop :=
  m.under = some m.inst.version ∧ ∃ k, getLocalRealtimeState m.inst.inferType = some k ∧
    (s.client.state k).requestExists m.id = true ∧ (s.client.state k).gatewayExists m.gatewayId = true ∧
    ∃ iv p, (s.client.state k).instanceViews.lookup m.inst.id = some iv ∧
      iv.requestStates.lookup m.id = some p ∧ m.inst.version < iv.version

/-! ### Allocations and versions -/

theorem bounded_step {s t : State} {a : Action} (hex : exec s a = some t)
    (h : Bounded s.bound s.client) : Bounded t.bound t.client := by
  cases a with
  | addInstance =>
    obtain ⟨ho, ⟨⟩⟩ := ite_none_right_eq_some.1 hex
    exact bounded_addInstance ho h
  | removeInstance =>
    obtain ⟨ho, ⟨⟩⟩ := ite_none_right_eq_some.1 hex
    exact bounded_removeInstance ho h
  | call c =>
    obtain ⟨hr, hex⟩ := ite_none_right_eq_some.1 hex
    obtain ⟨client, hc, rfl⟩ := map_eq_some_iff.1 hex
    have hs := (bounded_exec hc h).1
    cases c with
    | allocateRequestState => cases hr
    | _ => exact hs
  | schedule =>
    cases hex
    exact (bounded_allocate h).1
  | release m now =>
    obtain ⟨-, ⟨⟩⟩ := ite_none_right_eq_some.1 hex
    have hca : s.client.exec (.releaseRequestState _ (newRequestState _ 0 _ _ now)) =
      some (handleRelease s.client now m) := rfl
    exact (bounded_exec hca h).1

/-! ### What a release does -/

/-- A release that is not refused: the request, the instance and the gateway are known. -/
theorem kept_of_ne {s : LocalRealtimeState} {st : RequestState} {i r : String} {p : Ref}
    (hr : r ≠ st.reqId) (hv : ViewHolds s i r p) : Kept s (s.releaseRequestState st) i r p := by
  rcases releaseRequestState_spec s st with hs | ⟨iv, requestSet, -, -, hiv, hse, hre⟩
  · rw [hs]
    exact ⟨rfl, hv, id, id⟩
  rw [hre]
  refine ⟨rfl, (viewHolds_release hiv rfl i r p).2 ⟨hv, fun h => hr h.2⟩, fun hp => ?_, ?_⟩
  · rw [lookup_erase_ite, if_neg hr]
    exact hp
  rintro ⟨old, hold, hm⟩
  rw [GatewayHolds]
  simp only [lookup_insert_ite]
  split
  · next hg =>
    rw [hg, hse] at hold
    cases hold
    exact ⟨_, rfl, Finset.mem_erase.2 ⟨hr, hm⟩⟩
  · exact ⟨old, hold, hm⟩

theorem recordedIn_of_release {w : LLMInstance} {k : Store}
    (h : getLocalRealtimeState w.inferType = some k) : recordedIn w = some k := by
  rw [recordedIn, if_neg, h]
  intro hu
  rw [hu] at h
  cases h

/-- **A release leaves alone what was allocated under a later version, exactly if it has not been
overtaken**, in every state that any steps lead to. -/
theorem rejects_iff {s : State} (hrun : GuardedRun.Reaches exec free State.start s)
    {m : Release} (hm : m ∈ s.issued) : Rejects s m ↔ ¬ Overtaken s m := by
  have hb : Bounded s.bound s.client := hrun.invariant (I := fun s => Bounded s.bound s.client)
    (fun _ => bound_newLocalRealtimeState _) fun _ _ _ _ hex => bounded_step hex
  constructor
  · rintro hrj ⟨hu, k, hk, hre, hgw, iv, p, hiv, hp, hve⟩
    have hv : ViewHolds (s.client.state k) m.inst.id m.id p := ⟨iv, hiv, hp⟩
    have hl : Later s m k m.id p :=
      ⟨hu, recordedIn_of_release hk, hv, by rw [(hb k).bound_eq _ iv _ p hiv hp]; exact hve⟩
    have hke := hrj 0 _ (if_pos hm) k m.id p hl
    have hst : (handleRelease s.client 0 m).state k = (s.client.state k).releaseRequestState
        (newRequestState m.id 0 m.inst.id m.gatewayId 0) := by
      rw [handleRelease, Client.releaseRequestState, hk]
      exact Client.modify_state_self _ _ _
    simp only [hst] at hke
    obtain ⟨requestSet, hs⟩ := isSome_iff_exists.1 hgw
    have hr : ((s.client.state k).releaseRequestState
        (newRequestState m.id 0 m.inst.id m.gatewayId 0)).instanceViews =
        (s.client.state k).instanceViews.insert m.inst.id
          (iv.releaseRequestState (s.client.state k).heap m.id) := by
      simp only [LocalRealtimeState.releaseRequestState, newRequestState, hre, not_true_eq_false, if_false, hiv, hs]
    exact ((viewHolds_release hiv hr _ _ _).1 hke.view).2 ⟨rfl, rfl⟩
  · rintro hsf now t hex k r p ⟨hu, hs, hv, hl⟩
    obtain ⟨-, ⟨⟩⟩ := ite_none_right_eq_some.1 hex
    change Kept _ ((handleRelease s.client now m).state k) _ _ _
    unfold handleRelease Client.releaseRequestState
    cases hk : getLocalRealtimeState m.inst.inferType with
    | none => exact ⟨rfl, hv, id, id⟩
    | some j =>
    obtain rfl := some.inj ((recordedIn_of_release hk).symm.trans hs)
    simp only [Client.modify_state_self]
    by_cases hr : r = m.id
    · -- the request is held again, so the release is one that is refused
      subst hr
      rcases releaseRequestState_spec (s.client.state j)
          (newRequestState m.id 0 m.inst.id m.gatewayId now) with hsa | hdo
      · rw [hsa]
        exact ⟨rfl, hv, id, id⟩
      · obtain ⟨iv, -, hre, hgw, hiv, -⟩ := hdo
        obtain ⟨iv', hiv', hp⟩ := hv
        rw [(hb j).bound_eq _ iv' _ p hiv' hp] at hl
        exact absurd ⟨hu, j, hk, hre, hgw, iv', p, hiv', hp, hl⟩ hsf
    · exact kept_of_ne hr hv

/-! ### Runs -/

def inst (version : ℤ) : LLMInstance := ⟨version, "i", "", .neutral, ⟨"10.0.0.1", 8000⟩, "", 0, 0, 0⟩

/-- A gateway is given `i` for a request. -/
def asks (id : String) (version : ℤ) : Action := .schedule ⟨id, "g", 5⟩ 0 (inst version)

/-- The release of a request that was recorded on the first version of `i`. -/
def oldRelease (id : String) : Release := ⟨id, "g", inst 1, some 1⟩

/-- The first version of `i` has the request `r`; the second version has the request `id`. -/
def replaced (id : String) : List Action :=
  [.call (.addGateway "g"), .addInstance (inst 1) [], asks "r" 1, .addInstance (inst 2) ["r"], asks id 2]

/-- What the view of `i` holds under a request id. -/
def held (s : State) (id : String) : Option Ref :=
  ((s.client.state .neutral).instanceViews.lookup "i").bind fun iv => iv.requestStates.lookup id

theorem held_eq_some {s : State} {id : String} {p : Ref} :
    held s id = some p ↔ ViewHolds (s.client.state .neutral) "i" id p :=
  bind_eq_some_iff

/-- Another request of the second version does not mind the late release. -/
theorem rejects_other_request : ∃ s, GuardedRun.Reaches exec free State.start s ∧
    oldRelease "r" ∈ s.issued ∧ Later s (oldRelease "r") .neutral "q" 1 ∧ Rejects s (oldRelease "r") := by
  have hru : ∃ s ∈ runAll exec free State.start (replaced "q"),
      oldRelease "r" ∈ s.issued ∧ held s "q" = some 1 ∧ held s "r" = none ∧
        s.bound .neutral 1 = 2 := by decide +kernel
  obtain ⟨s, hre, hm, hq, hr, hb⟩ := GuardedRun.Reaches.of_exists hru
  have hl : Later s (oldRelease "r") .neutral "q" 1 := ⟨rfl, rfl, held_eq_some.1 hq, by rw [hb]; decide⟩
  refine ⟨s, hre, hm, hl, (rejects_iff hre hm).2 ?_⟩
  rintro ⟨-, k, hk, -, -, iv, p, hiv, hp, -⟩
  cases hk
  cases hr.symm.trans (held_eq_some.2 ⟨iv, hiv, hp⟩)

/-- **A release that comes late takes the allocation of the retry**, which is on the second version of the
instance. -/
theorem late_release : ¬ ∀ (s : State) (m : Release),
    GuardedRun.Reaches exec free State.start s → m ∈ s.issued → Rejects s m := by
  intro hal
  have hru : ∃ s ∈ runAll exec free State.start (replaced "r"),
      oldRelease "r" ∈ s.issued ∧ held s "r" = some 1 ∧ s.bound .neutral 1 = 2 ∧
        ∃ t ∈ exec s (.release (oldRelease "r") 0), held t "r" = none := by decide +kernel
  obtain ⟨s, hs, hm, hr, hb, t, ht, ha⟩ := GuardedRun.Reaches.of_exists hru
  have hl : Later s (oldRelease "r") .neutral "r" 1 := ⟨rfl, rfl, held_eq_some.1 hr, by rw [hb]; decide⟩
  have hk := hal s (oldRelease "r") hs hm 0 t ht .neutral "r" 1 hl
  rw [held_eq_some.2 hk.view] at ha
  cases ha

end Llumnix.Stale
