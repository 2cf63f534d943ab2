/-
**The status of an instance over time.**

The read client takes over what is newer.  A payload whose time is not newer is ignored; one whose update id
is not newer brings its time and its flag, and nothing else; any other one replaces the whole status.  Then,
with local accounts and cache-aware scheduling, the number of tokens that wait for prefill is replaced by
what the local account knows of the requests that wait (`Books.waitingTokens`).

* `statusOf_advances` — **the status of an instance advances along every run, to payloads that the local
  account of that moment has corrected**.
-/

import Llumnix.CmsRefresh

namespace Llumnix.ReadClient

open GuardedRun CMSReadClient Option Int

/-! ### Advancing -/

/-- All of a status but its time and its flag. -/
def InstanceStatus.body (st : InstanceStatus) : InstanceStatus :=
  { st with timestampMs := 0, schedulable := false }

/-- **The status has advanced** while these payloads came in. -/
structure Advances (payloads : List InstanceStatus) (old new : InstanceStatus) : Prop where
  timestampMs : old.timestampMs ≤ new.timestampMs
  newer : new ≠ old → old.timestampMs < new.timestampMs
  updateId : old.updateId ≤ new.updateId
  single : new.body ≠ old.body → old.updateId < new.updateId ∧ ∃ p ∈ payloads, new.body = p.body

theorem Advances.refl (payloads : List InstanceStatus) (st : InstanceStatus) : Advances payloads st st where
  timestampMs := le_refl _
  newer := fun h => absurd rfl h
  updateId := le_refl _
  single := fun h => absurd rfl h

variable {payloads : List InstanceStatus}

theorem Advances.of_eq {old new : InstanceStatus} (h : new = old) : Advances payloads old new :=
  h ▸ .refl _ _

theorem Advances.mono {payloads' : List InstanceStatus} {old new : InstanceStatus}
    (h : Advances payloads old new) (hs : ∀ p ∈ payloads, p ∈ payloads') : Advances payloads' old new where
  timestampMs := h.timestampMs
  newer := h.newer
  updateId := h.updateId
  single := fun hb => by
    obtain ⟨hlt, p, hp, heq⟩ := h.single hb
    exact ⟨hlt, p, hs p hp, heq⟩

theorem Advances.trans {old mid new : InstanceStatus}
    (h : Advances payloads old mid) (h' : Advances payloads mid new) : Advances payloads old new where
  timestampMs := le_trans h.timestampMs h'.timestampMs
  newer := fun hne => by
    by_cases hl : new = mid
    · subst hl
      exact h.newer hne
    · exact lt_of_le_of_lt h.timestampMs (h'.newer hl)
  updateId := le_trans h.updateId h'.updateId
  single := fun hne => by
    by_cases hl : new.body = mid.body
    · -- the body is the one that was there in the middle
      obtain ⟨hlt, p, hp, hb⟩ := h.single (hl ▸ hne)
      exact ⟨lt_of_lt_of_le hlt h'.updateId, p, hp, hl.trans hb⟩
    · obtain ⟨hlt, hpa⟩ := h'.single hl
      exact ⟨lt_of_le_of_lt h.updateId hlt, hpa⟩

/-- **Merging a payload with a newer time advances the status.** -/
theorem advances_mergeStatus {old buffer : InstanceStatus}
    (hn : old.timestampMs < buffer.timestampMs) (correction : BitVec 32 → BitVec 32) :
    Advances [{ buffer with
      numUncomputedTokensAllWaitingPrefills := correction buffer.numUncomputedTokensAllWaitingPrefills }]
      old (mergeStatus old buffer correction) := by
  unfold mergeStatus
  split
  · exact ⟨le_of_lt hn, fun _ => hn, le_refl _, fun hb => absurd rfl hb⟩
  · next hid =>
    have hid : old.updateId < buffer.updateId := not_le.1 hid
    exact ⟨le_of_lt hn, fun _ => hn, le_of_lt hid, fun _ => ⟨hid, _, List.mem_singleton_self _, rfl⟩⟩

/-! ### Runs in which the keys of an instance stay present -/

section

variable {Bytes : Type} (U : Unmarshal Bytes) (f : Features) (id : String)

/-- **The keys of an instance stay present**: it is announced (unless it has no status yet), and its status
has a value. -/
def KeepsKey (s : Session) : Move Bytes → Prop
  | .refreshStatuses r => (r.values id).isSome = true ∧
      ((slotOf s.books.client id).status.isSome = true → id ∈ s.books.client.instanceIDs)
  | _ => True

instance (s : Session) : ∀ a : Move Bytes, Decidable (KeepsKey id s a)
  | .refreshStatuses _ => inferInstanceAs (Decidable (_ ∧ _))
  | .tables _ | .editAccounts _ _ => inferInstanceAs (Decidable True)

/-- The payload of the instance, in a refresh of the statuses. -/
def Session.payload (_ : Session) : Move Bytes → List InstanceStatus
  | .refreshStatuses r => ((r.values id).map U.content).toList
  | _ => []

/-- The payload, with what its local account makes of the waiting tokens. -/
def Session.correctedPayload (s : Session) (a : Move Bytes) : List InstanceStatus :=
  (s.payload U id a).map fun p =>
    { p with numUncomputedTokensAllWaitingPrefills := s.books.waitingTokens f id p }

/-- The payloads along a run. -/
def Session.along (payloads : Session → Move Bytes → List InstanceStatus) :
    Session → List (Move Bytes) → List InstanceStatus
  | _, [] => []
  | s, a :: rest => payloads s a ++ (s.exec U f a).elim [] fun t => along payloads t rest

variable {U f id} {b : Books} {s t : Session} {r : StatusInput Bytes} {bytes : Bytes}

/-- **The turn of an instance advances its status**, to the corrected payload. -/
theorem advances_updateStatus (h : Sound b.client) (hv : r.values id = some bytes) :
    Advances [{ U.content bytes with
      numUncomputedTokensAllWaitingPrefills := b.waitingTokens f id (U.content bytes) }]
      (b.client.statusOf id) ((Books.recover (b.updateStatus U f r id)).client.statusOf id) := by
  rw [statusOf_eq_getD, statusOf_eq_getD, Books.slotOf_updateStatus h, if_pos rfl, Books.turnOf, hv, map_some]
  rcases (slotOf b.client id).turn_some (U.content bytes) _ _ _ rfl with hs | hs | ⟨hn, hs⟩ <;> rw [hs]
  · exact .refl _ _
  · exact .refl _ _
  · have ha := advances_mergeStatus hn ((r.read U f b).correction id)
    simpa [StatusInput.read, hv] using ha

/-- **A step in which the keys of the instance are present advances its status**, whether or not it
panics. -/
theorem advances_exec {a : Move Bytes} (hok : KeepsKey id s a) (hex : s.exec U f a = some t)
    (h : Sound s.books.client) : Advances (s.correctedPayload U f id a) (s.books.client.statusOf id)
      (t.books.client.statusOf id) := by
  rcases Session.exec_cases hex with ⟨r, rfl, hb, -⟩ | ⟨-, -, -, hsl⟩
  · obtain ⟨bytes, hv⟩ := isSome_iff_exists.1 hok.1
    obtain ⟨b₁, hs, hu, hsa⟩ := Books.refreshStatuses_turn (U := U) (f := f) h hv hok.2
    rw [hb, ← hu.same.statusOf]
    rcases hsa with hsa | hsa
    · exact .of_eq hsa.statusOf
    · have ha := advances_updateStatus (U := U) (f := f) (r := r) hs hv
      rw [hu.waitingTokens_eq] at ha
      rw [hsa.statusOf]
      simpa [Session.correctedPayload, Session.payload, hv] using ha
  · refine .of_eq ?_
    rw [statusOf_eq_getD, hsl, statusOf_eq_getD]

/-- **The status of an instance advances as long as its keys stay present**, from any state, to payloads with
what the local account of the moment makes of their waiting tokens. -/
theorem statusOf_advances {enableAdaptivePD : Bool} {editor : Cms.InstanceStatusLocalAccountEditor}
    {moves : List (Move Bytes)}
    (hreach : Reaches (Session.exec U f) free (Session.start enableAdaptivePD editor) s)
    (hrun : runAll (Session.exec U f) (KeepsKey id) s moves = some t) :
    Advances (s.along U f (Session.correctedPayload U f id) moves) (s.books.client.statusOf id)
      (t.books.client.statusOf id) := by
  have hs : Sound s.books.client := hreach.invariant (I := fun s => Sound s.books.client)
    (Session.sound_start _ _) fun _ _ _ _ hex hs => Session.sound_exec hex hs
  clear hreach
  induction moves generalizing s with
  | nil =>
    cases hrun
    exact .refl _ _
  | cons a rest ih =>
  rw [runAll] at hrun
  split at hrun <;> try cases hrun
  rename_i hok
  obtain ⟨u, hex, hr⟩ := bind_eq_some_iff.1 hrun
  rw [Session.along, hex]
  exact ((advances_exec hok hex hs).mono fun p hp => List.mem_append_left _ hp).trans
    ((ih hr (Session.sound_exec hex hs)).mono fun p hp => List.mem_append_right _ hp)

end

/-! ### A run -/

/-- A request of ten tokens is dispatched, of which the local account knows six to be in the cache. -/
def dispatched : Cms.InstanceStatusLocalAccountEditor × Cms.InstanceView :=
  (Cms.newInstanceStatusLocalAccountEditor 60 true).addRequestLocalAccount
    ⟨"a", ⟨[], [], 0⟩, .empty⟩ .prefill 10 6 "r" 0

/-- The instance reports the request, with ten tokens that wait for prefill. -/
def waitingStatus (updateId timestampMs : Int) : InstanceStatus :=
  { sampleStatus updateId timestampMs with
    numUncomputedTokensAllWaitingPrefills := 10
    details := { StatusDetails.initial with
      recentWaitingRequests := ["cmpl-r-0"]
      waitingRequests := ["cmpl-r-0"] } }

/-- An instance gets a request and reports it, then reports with an old update id, and then with an old time.
-/
def reportingRun : List (Move InstanceStatus) :=
  [.tables (.refreshMetadata (some (metadataRead [("a", "neutral")])) []),
    .refreshStatuses (singleInput (sampleStatus 1 1) []),
    .editAccounts (fun _ => dispatched.2.localAccount) dispatched.1,
    .refreshStatuses (singleInput (waitingStatus 5 5) ["a"]),
    .refreshStatuses (singleInput (waitingStatus 3 7) ["a"]),
    .refreshStatuses (singleInput (waitingStatus 9 6) ["a"])]

def reportingStart : Session := .start false (Cms.newInstanceStatusLocalAccountEditor 60 true)

theorem exists_reportingRun : ∃ t ∈ runAll (Session.exec plainUnmarshal ⟨true, false⟩) (KeepsKey "a")
    reportingStart reportingRun, (t.books.client.statusOf "a").timestampMs = 7 ∧
      (t.books.client.statusOf "a").updateId = 5 ∧
      (t.books.client.statusOf "a").body.numUncomputedTokensAllWaitingPrefills = 4 := by
  decide +kernel

/-- The time is the one of the last report but one, and the update id the one before it. -/
theorem statusOf_advances_reportingRun :
    ∃ t, runAll (Session.exec plainUnmarshal ⟨true, false⟩) (KeepsKey "a") reportingStart reportingRun =
        some t ∧
      (t.books.client.statusOf "a").timestampMs = 7 ∧ (t.books.client.statusOf "a").updateId = 5 ∧
      Advances (reportingStart.along plainUnmarshal ⟨true, false⟩
          (Session.correctedPayload plainUnmarshal ⟨true, false⟩ "a") reportingRun)
        (reportingStart.books.client.statusOf "a") (t.books.client.statusOf "a") := by
  obtain ⟨t, ht, hti, hid, -⟩ := exists_reportingRun
  exact ⟨t, ht, hti, hid, statusOf_advances .refl ht⟩

/-- **A number that no payload has**: the local account puts it in the place of the reported one. -/
theorem corrected_status :
    ¬ ∀ (Bytes : Type) (U : Unmarshal Bytes) (f : Features) (enableAdaptivePD : Bool)
      (editor : Cms.InstanceStatusLocalAccountEditor) (s t : Session) (id : String)
      (moves : List (Move Bytes)),
      Reaches (Session.exec U f) free (Session.start enableAdaptivePD editor) s →
      runAll (Session.exec U f) (KeepsKey id) s moves = some t →
      Advances (s.along U f (Session.payload U id) moves) (s.books.client.statusOf id)
        (t.books.client.statusOf id) := by
  intro h
  obtain ⟨t, ht, -, -, hb⟩ := exists_reportingRun
  have hc : (t.books.client.statusOf "a").body ≠ (reportingStart.books.client.statusOf "a").body := by
    intro heq
    rw [heq] at hb
    exact absurd hb (by decide)
  obtain ⟨-, p, hp, hpa⟩ := (h _ _ _ _ _ _ t "a" reportingRun .refl ht).single hc
  have hr : ∀ p ∈ reportingStart.along plainUnmarshal ⟨true, false⟩ (Session.payload plainUnmarshal "a")
      reportingRun, p.body.numUncomputedTokensAllWaitingPrefills ≠ 4 := by decide +kernel
  exact hr p hp (hpa ▸ hb)

end Llumnix.ReadClient
