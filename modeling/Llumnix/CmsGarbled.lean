/-
**A status that cannot be decoded.**

When a payload cannot be decoded, the refresh of the statuses reports it and goes on with what decoding has
left in the buffer, as with any other payload.  This module compares a refresh with the one in which the
payload is skipped.  The bad payload does nothing if the instance has no metadata, if the time in the buffer
is not newer than the stored one, or if an earlier payload has ended the refresh; in every other case the
status of the instance is not what it would have been.

* `garbled_inert_iff` — **a garbled payload is inert exactly if it is overlooked**;
* `isolated_of_reaches` — **every instance has its own status**.
-/

import Llumnix.CmsRefresh

namespace Llumnix.ReadClient

open FiniteMap GuardedRun CMSReadClient List Option Int

/-! ### The property -/

section

variable {Bytes : Type} (U : Unmarshal Bytes) (f : Features) (r : StatusInput Bytes)

/-- The refresh in which the payload of an instance is skipped. -/
def Books.refreshWithout (b : Books) (id : String) : Except Books Books :=
  loop (updateStatus U f r) (b.client.instanceIDs.filter (· ≠ id)) (b.forgetStatuses r)

/-- **The payload of an instance is inert**: for every instance the same is stored as if it had been
skipped. -/
def Books.Inert (b : Books) (id : String) : Prop :=
  ∀ j, (recover (b.refreshStatuses U f r)).entry j = (recover (b.refreshWithout U f r id)).entry j

/-- The instance has a payload that cannot be decoded. -/
structure Garbled (b : Books) (id : String) (bytes : Bytes) : Prop where
  listed : id ∈ b.client.instanceIDs
  value : r.values id = some bytes
  fails : (U.decode bytes b.statusUnmarshalBuffer).1 = false

/-- **A payload ends the refresh**: no metadata to make a view of, or something to store, but no view or a
panicking recorder. -/
def Slot.Panics (x : Slot) (payload : Option InstanceStatus) (metadata : Option Bool)
    (recorderPanics : Bool) : Prop :=
  match payload, metadata with
  | some buffer, some described =>
    (x.status = none ∧ described = false) ∨
      ((x.status.getD .initial).timestampMs < buffer.timestampMs ∧
        (x.status ≠ none ∧ x.viewed = false ∨ recorderPanics = true))
  | _, _ => False

/-- The payload of an instance ends the refresh. -/
def Panics (c : CMSReadClient) (id : String) : Prop :=
  (slotOf c id).Panics ((r.values id).map U.content)
    ((c.instanceMetadatas.lookup id).map isSome) (r.recorderPanics id)

/-- The payload has nothing to tell: there is no metadata for its instance, or a status that is as new. -/
def Stale (c : CMSReadClient) (id : String) (buffer : InstanceStatus) : Prop :=
  c.instanceMetadatas.lookup id = none ∨
    ((slotOf c id).status ≠ none ∧ buffer.timestampMs ≤ (c.statusOf id).timestampMs)

/-- **The payload does nothing**: it has nothing to tell, or an earlier one ends the refresh. -/
def Overlooked (c : CMSReadClient) (id : String) (buffer : InstanceStatus) : Prop :=
  (∃ j ∈ c.instanceIDs.takeWhile (· ≠ id), Panics U r c j) ∨ Stale c id buffer

end

/-! ### Slots -/

section

variable {x y : Slot} {payload : Option InstanceStatus} {buffer : InstanceStatus}
  {metadata : Option Bool} {recorderPanics : Bool} {correction : BitVec 32 → BitVec 32}

theorem Slot.turn_isOk : (x.turn payload metadata recorderPanics correction).isOk = false ↔
    x.Panics payload metadata recorderPanics := by
  cases payload with
  | none => simp [turn, Panics, Except.isOk, Except.toBool]
  | some buffer =>
  cases metadata with
  | none => simp [turn, Panics, Except.isOk, Except.toBool]
  | some described =>
  simp only [turn, Panics]
  split
  · next hn => simp_all [Except.isOk, Except.toBool]
  · next hn =>
    split
    · next hold => simp_all [Except.isOk, Except.toBool, not_lt.2 hold]
    · next hold =>
      cases hs : x.status <;> split <;> simp_all [Except.isOk, Except.toBool]

/-- After a turn that has not panicked there is nothing left of its payload that could panic. -/
theorem Slot.not_panics_of_ok (hok : x.turn payload metadata recorderPanics correction = .ok y) :
    ¬ y.Panics payload metadata recorderPanics := by
  cases payload with
  | none => exact fun h => h
  | some buffer =>
  cases metadata with
  | none => exact fun h => h
  | some described =>
  simp only [turn] at hok
  split at hok <;> try cases hok
  split at hok
  · next hold =>
    cases hok
    simp [Panics, not_lt.2 hold]
  · split at hok <;> cases hok
    simp [Panics, timestampMs_mergeStatus]

/-- The status is not the one there was: it is new, or it has a newer time. -/
def Slot.Touched (x y : Slot) : Prop :=
  ∃ st, y.status = some st ∧ ∀ old, x.status = some old → old.timestampMs < st.timestampMs

/-- **A payload that has something to tell touches the status.** -/
theorem Slot.touched_turn (hm : metadata ≠ none)
    (hn : ∀ old, x.status = some old → old.timestampMs < buffer.timestampMs) :
    x.Touched (Slot.recover (x.turn (some buffer) metadata recorderPanics correction)) := by
  obtain ⟨described, rfl⟩ := ne_none_iff_exists'.1 hm
  cases hs : x.status with
  | none =>
    simp only [Touched, turn, hs]
    split
    · exact ⟨_, rfl, fun _ hn => by cases hn⟩
    · split
      · exact ⟨_, rfl, fun _ hn => by cases hn⟩
      · split <;> exact ⟨_, rfl, fun _ hn => by cases hn⟩
  | some old =>
  have hlt := hn old hs
  simp only [Touched, turn, hs, isNone_some, Bool.false_and, Bool.false_eq_true,
    if_false, getD_some, if_neg (not_le.2 hlt)]
  refine ⟨mergeStatus old buffer correction, ?_, fun old' hold' => ?_⟩
  · split <;> rfl
  · rw [timestampMs_mergeStatus, ← some.inj hold']
    exact hlt

theorem Slot.Touched.turn (h : x.Touched y) :
    x.Touched (Slot.recover (y.turn (some buffer) metadata recorderPanics correction)) := by
  obtain ⟨st, hst, hn⟩ := h
  rcases y.turn_some buffer metadata recorderPanics correction rfl with hs | hs | ⟨hlt, hm⟩
  · exact ⟨st, hs.trans hst, hn⟩
  · exact ⟨st, by rw [hs, hst]; rfl, hn⟩
  · rw [hst] at hlt hm
    refine ⟨_, hm, fun old hold => ?_⟩
    rw [timestampMs_mergeStatus]
    exact lt_trans (hn old hold) hlt

end

/-! ### Loops -/

section

variable {Bytes : Type} {U : Unmarshal Bytes} {f : Features} {r : StatusInput Bytes} {b b' : Books}
  {id i : String}

theorem Books.sound_of_ok (h : Sound b.client) (hok : b.updateStatus U f r i = .ok b') :
    Sound b'.client := by
  have hs := sound_updateStatus (U := U) (f := f) (r := r) h i
  rw [hok] at hs
  exact hs

theorem Books.slot_of_ok (h : Sound b.client) (hok : b.updateStatus U f r i = .ok b') :
    b'.client.instanceMetadatas = b.client.instanceMetadatas ∧ ¬ Panics U r b'.client i ∧
      ∀ j, j ≠ i → slotOf b'.client j = slotOf b.client j := by
  obtain ⟨hi, hs⟩ := updateStatus_onSlot (U := U) (f := f) (r := r) h i
  have hm := instanceMetadatas_updateStatus (U := U) (f := f) (r := r) h i
  rw [hok] at hi hs hm
  have hm : b'.client.instanceMetadatas = b.client.instanceMetadatas := hm
  refine ⟨hm, ?_, fun j hj => (hs j).trans (if_neg hj)⟩
  have ho : slotOf b'.client i = _ := (hs i).trans (if_pos rfl)
  unfold Panics
  rw [ho, hm]
  cases ht : b.turnOf U f r i with
  | error => rw [ht] at hi; cases hi
  | ok => exact Slot.not_panics_of_ok ht

/-- **A loop panics if one of its payloads does.** -/
theorem Books.loop_isOk_iff (ids : List String) : ∀ b : Books, Sound b.client →
      ((loop (updateStatus U f r) ids b).isOk = false ↔ ∃ j ∈ ids, Panics U r b.client j) := by
  induction ids with
  | nil =>
    intro b _
    simp [loop, Except.isOk, Except.toBool]
  | cons i ids ih =>
  intro b h
  have ht : (b.updateStatus U f r i).isOk = false ↔ Panics U r b.client i := by
    rw [Panics, ← @Slot.turn_isOk _ _ _ _ ((r.read U f b).correction i), ← turnOf,
      ← (updateStatus_onSlot h i).isOk]
    cases b.updateStatus U f r i <;> rfl
  rw [loop]
  cases hr : b.updateStatus U f r i with
  | error =>
    rw [hr] at ht
    exact ⟨fun _ => ⟨i, mem_cons_self, ht.1 rfl⟩, fun _ => rfl⟩
  | ok b' =>
  rw [hr] at ht
  have hpa : ¬ Panics U r b.client i := fun hp => by cases ht.2 hp
  obtain ⟨hm, how, ho⟩ := slot_of_ok h hr
  have hi : ∀ j, j ≠ i → (Panics U r b'.client j ↔ Panics U r b.client j) := by
    intro j hj
    rw [Panics, Panics, ho j hj, hm]
  rw [ih b' (sound_of_ok h hr)]
  constructor
  · rintro ⟨j, hj, hp⟩
    have hne : j ≠ i := fun heq => how (heq ▸ hp)
    exact ⟨j, mem_cons_of_mem _ hj, (hi j hne).1 hp⟩
  · rintro ⟨j, hj, hp⟩
    have hne : j ≠ i := fun heq => hpa (heq ▸ hp)
    exact ⟨j, mem_of_ne_of_mem hne hj, (hi j hne).2 hp⟩

theorem Books.loop_append (turn : Books → String → Except Books Books) (ids ids' : List String) :
    ∀ b : Books, loop turn (ids ++ ids') b =
      match loop turn ids b with
      | .error b => .error b
      | .ok b => loop turn ids' b := by
  induction ids with
  | nil => exact fun b => rfl
  | cons i ids ih =>
    intro b
    rw [cons_append, loop, loop]
    cases turn b i with
    | error => rfl
    | ok b' => exact ih b'

theorem Books.loop_elsewhere (ids : List String) (hid : id ∉ ids) (h : Sound b.client) :
    Sound (recover (loop (updateStatus U f r) ids b)).client ∧
      (recover (loop (updateStatus U f r) ids b)).client.instanceMetadatas = b.client.instanceMetadatas ∧
      (recover (loop (updateStatus U f r) ids b)).entry id = b.entry id := by
  refine recover_loop (P := fun b' => Sound b'.client ∧
      b'.client.instanceMetadatas = b.client.instanceMetadatas ∧ b'.entry id = b.entry id) ids
    (fun b' i hi hb' => ?_) b ⟨h, rfl, rfl⟩
  obtain ⟨hs, hm, he⟩ := hb'
  have hne : id ≠ i := fun heq => hid (heq ▸ hi)
  exact ⟨sound_updateStatus hs i, (instanceMetadatas_updateStatus hs i).trans hm,
    (entry_updateStatus hs hne).trans he⟩

theorem Books.touched_loop {x : Slot} {bytes : Bytes} (hv : r.values id = some bytes)
    (ids : List String) (h : Sound b.client) (ht : x.Touched (slotOf b.client id)) :
    x.Touched (slotOf (recover (loop (updateStatus U f r) ids b)).client id) := by
  refine (recover_loop (P := fun b => Sound b.client ∧ x.Touched (slotOf b.client id)) ids
    (fun b i _ hb => ⟨sound_updateStatus hb.1 i, ?_⟩) b ⟨h, ht⟩).2
  rw [slotOf_updateStatus hb.1]
  split
  · next hi =>
    subst hi
    rw [turnOf, hv]
    exact hb.2.turn
  · exact hb.2

end

/-! ### The buffer does not matter -/

/-- **The books are the same but for the buffer.** -/
def Alike (b b' : Books) : Prop :=
  { b with statusUnmarshalBuffer := .zero } = { b' with statusUnmarshalBuffer := .zero }

/-- The results of two computations are the same but for the buffer. -/
inductive AlikeResults : Except Books Books → Except Books Books → Prop
  | error {b b' : Books} : Alike b b' → AlikeResults (.error b) (.error b')
  | ok {b b' : Books} : Alike b b' → AlikeResults (.ok b) (.ok b')

section

variable {Bytes : Type} {U : Unmarshal Bytes} {f : Features} {r : StatusInput Bytes}
variable {b b' : Books} {id : String} {bytes : Bytes}

theorem Alike.refl (b : Books) : Alike b b := rfl

theorem AlikeResults.refl (e : Except Books Books) : AlikeResults e e := by
  cases e with
  | error => exact .error rfl
  | ok => exact .ok rfl

theorem Alike.cases (h : Alike b b') : ∃ buffer, b' = { b with statusUnmarshalBuffer := buffer } := by
  obtain ⟨c', buffer', accounts', editor', samples'⟩ := b'
  obtain ⟨rfl, -, rfl, rfl, rfl⟩ := h
  exact ⟨buffer', rfl⟩

theorem Alike.entry (h : Alike b b') (id : String) : b.entry id = b'.entry id := by
  obtain ⟨buffer, rfl⟩ := h.cases
  rfl

theorem AlikeResults.entry {e e' : Except Books Books} (h : AlikeResults e e') (id : String) :
    (Books.recover e).entry id = (Books.recover e').entry id := by
  cases h with
  | error h | ok h => exact h.entry id

/-- **A turn does not depend on what is left in the buffer.** -/
theorem Books.alike_updateStatus (h : Alike b b') (i : String) :
    AlikeResults (b.updateStatus U f r i) (b'.updateStatus U f r i) := by
  obtain ⟨buffer, rfl⟩ := h.cases
  unfold updateStatus
  cases r.values i with
  | none => exact .ok rfl
  | some =>
  cases b.client.instanceMetadatas.lookup i with
  | none => exact .ok rfl
  | some metadata =>
  dsimp only
  cases b.client.ensureView i metadata with
  | error => exact .error rfl
  | ok =>
    rw [U.content_eq, U.content_eq]
    exact .refl _

theorem Books.updateStatus_of_stale (hv : r.values id = some bytes)
    (hst : Stale b.client id (U.content bytes)) : ∃ b', b.updateStatus U f r id = .ok b' ∧ Alike b b' := by
  unfold updateStatus
  rw [hv]
  rcases hst with hn | ⟨hs, hold⟩
  · rw [hn]
    exact ⟨b, rfl, rfl⟩
  cases hm : b.client.instanceMetadatas.lookup id with
  | none => exact ⟨b, rfl, rfl⟩
  | some =>
  cases hr : b.client.instanceStatuses.lookup id with
  | none => simp [slotOf, hr] at hs
  | some =>
    simp only [statusOf, hr] at hold
    simp only [ensureView, newAccount, storeStatus, hr, U.content_eq, if_pos hold]
    exact ⟨_, rfl, rfl⟩

/-- **A loop with stale payloads of an instance is the loop without them.** -/
theorem Books.loop_of_stale (hv : r.values id = some bytes) (ids : List String) :
    ∀ b b' : Books, Sound b.client → Stale b.client id (U.content bytes) →
      Alike b b' → AlikeResults (loop (updateStatus U f r) ids b)
        (loop (updateStatus U f r) (ids.filter (· ≠ id)) b') := by
  induction ids with
  | nil => exact fun b b' _ _ ha => .ok ha
  | cons i ids ih =>
  intro b b' hso hst ha
  by_cases hi : i = id
  · subst hi
    obtain ⟨b₁, ht, hs⟩ := updateStatus_of_stale (U := U) (f := f) hv hst
    obtain ⟨buffer, rfl⟩ := hs.cases
    rw [loop, ht, filter_cons_of_neg (by simp)]
    exact ih _ b' hso hst ha
  · rw [loop, filter_cons_of_pos (by simpa using hi), loop]
    have ht := alike_updateStatus (U := U) (f := f) (r := r) ha i
    cases hf : b.updateStatus U f r i with
    | error =>
      rw [hf] at ht
      generalize b'.updateStatus U f r i = e' at ht
      cases ht with
      | error hs => exact .error hs
    | ok b₁ =>
    rw [hf] at ht
    generalize b'.updateStatus U f r i = e' at ht
    cases ht with
    | ok hs =>
      obtain ⟨hm, -, ho⟩ := slot_of_ok hso hf
      refine ih b₁ _ (sound_of_ok hso hf) ?_ hs
      rw [Stale, hm, statusOf_eq_getD, ho id (Ne.symm hi), ← statusOf_eq_getD]
      exact hst

end

/-! ### The theorem -/

section

variable {Bytes : Type} {U : Unmarshal Bytes} {f : Features} {r : StatusInput Bytes} {b : Books}
  {id : String} {bytes : Bytes}

theorem exists_split {ids : List String} (hid : id ∈ ids) :
    ∃ rest, ids = ids.takeWhile (· ≠ id) ++ id :: rest := by
  induction ids with
  | nil => cases hid
  | cons i ids ih =>
  by_cases hi : i = id
  · subst hi
    exact ⟨ids, by simp⟩
  · obtain ⟨rest, hr⟩ := ih (mem_of_ne_of_mem (Ne.symm hi) hid)
    refine ⟨rest, ?_⟩
    rw [takeWhile_cons_of_pos (by simpa using hi), cons_append, ← hr]

section

variable (h : Sound b.client) (hid : id ∈ b.client.instanceIDs)
include h hid

theorem panics_forgetStatuses : Panics U r (b.forgetStatuses r).client id ↔ Panics U r b.client id := by
  obtain ⟨hm, hs⟩ := Books.slotOf_forgetStatuses r h fun _ => hid
  rw [Panics, Panics, hs, hm]

theorem Books.inert_of_stale (hv : r.values id = some bytes) (hs : Stale b.client id (U.content bytes)) :
    b.Inert U f r id := by
  intro j
  obtain ⟨hm, hsl⟩ := slotOf_forgetStatuses r h fun _ => hid
  refine (loop_of_stale (U := U) hv _ _ _ (sound_forgetStatuses r h) ?_ (.refl _)).entry j
  rw [Stale, hm, statusOf_eq_getD, hsl, ← statusOf_eq_getD]
  exact hs

/-- The payloads before the one that is skipped are the same in both refreshes. -/
theorem Books.inert_of_panics (hp : ∃ j ∈ b.client.instanceIDs.takeWhile (· ≠ id), Panics U r b.client j) :
    b.Inert U f r id := by
  obtain ⟨rest, hs⟩ := exists_split hid
  obtain ⟨j, hj, hp⟩ := hp
  have he := (loop_isOk_iff (U := U) (f := f) (r := r) _ _ (sound_forgetStatuses r h)).2
    ⟨j, hj, (panics_forgetStatuses h ((takeWhile_sublist _).mem hj)).2 hp⟩
  intro k
  unfold refreshStatuses refreshWithout
  rw [hs, filter_append, loop_append, loop_append,
    filter_eq_self.2 fun i hi => all_eq_true.1 all_takeWhile i hi]
  cases hf : loop (updateStatus U f r) (b.client.instanceIDs.takeWhile (· ≠ id)) (b.forgetStatuses r) with
  | error b' => rfl
  | ok b' =>
    rw [hf] at he
    cases he

/-- **A payload that is not overlooked touches the status of its instance.** -/
theorem Books.touched_refreshStatuses (hv : r.values id = some bytes)
    (hpa : ¬ ∃ j ∈ b.client.instanceIDs.takeWhile (· ≠ id), Panics U r b.client j)
    (hst : ¬ Stale b.client id (U.content bytes)) :
    (slotOf b.client id).Touched (slotOf (recover (b.refreshStatuses U f r)).client id) := by
  obtain ⟨rest, hsp⟩ := exists_split hid
  obtain ⟨hm, hsl⟩ := slotOf_forgetStatuses r h fun _ => hid
  have hs := sound_forgetStatuses r h
  unfold refreshStatuses
  rw [hsp, loop_append]
  -- the payloads before it do not end the refresh
  cases hf : loop (updateStatus U f r) (b.client.instanceIDs.takeWhile (· ≠ id)) (b.forgetStatuses r) with
  | error b' =>
    obtain ⟨j, hj, hp⟩ := (loop_isOk_iff (U := U) (f := f) (r := r) _ _ hs).1 (by rw [hf]; rfl)
    exact absurd ⟨j, hj, (panics_forgetStatuses h ((takeWhile_sublist _).mem hj)).1 hp⟩ hpa
  | ok b₁ =>
  have hno : id ∉ b.client.instanceIDs.takeWhile (· ≠ id) := fun hmm => by
    simpa using all_eq_true.1 all_takeWhile id hmm
  have hb := loop_elsewhere (U := U) (f := f) (r := r) _ hno hs
  rw [hf, hm] at hb
  obtain ⟨hs₁, hm₁, he₁⟩ : Sound b₁.client ∧ b₁.client.instanceMetadatas = b.client.instanceMetadatas ∧
    b₁.entry id = (b.forgetStatuses r).entry id := hb
  have hsl₁ : slotOf b₁.client id = slotOf b.client id := by rw [← hsl, slotOf_eq, slotOf_eq, he₁]
  -- then it touches the status, and that stays so
  have ht : (slotOf b.client id).Touched (slotOf (recover (b₁.updateStatus U f r id)).client id) := by
    obtain ⟨hme, hn⟩ := not_or.1 hst
    rw [slotOf_updateStatus hs₁, if_pos rfl, turnOf, hsl₁, hm₁, hv]
    refine Slot.touched_turn (by simpa using hme) fun old hold => not_le.1 fun hle => ?_
    exact hn ⟨by simp [hold], by simpa [statusOf_eq_getD, hold] using hle⟩
  dsimp only
  rw [loop]
  cases htu : b₁.updateStatus U f r id with
  | error =>
    rw [htu] at ht
    exact ht
  | ok =>
    rw [htu] at ht
    exact touched_loop hv rest (sound_of_ok hs₁ htu) ht

theorem Books.not_inert (hv : r.values id = some bytes)
    (hno : ¬ Overlooked U r b.client id (U.content bytes)) :
    ¬ b.Inert U f r id := by
  intro hi
  obtain ⟨hp, hsl⟩ := not_or.1 hno
  obtain ⟨st, hst, hn⟩ := touched_refreshStatuses (f := f) h hid hv hp hsl
  have he : (recover (b.refreshWithout U f r id)).entry id = b.entry id :=
    ((loop_elsewhere _ (by simp) (sound_forgetStatuses r h)).2.2).trans
      (entry_forgetStatuses r h fun _ => hid)
  have hsa : (slotOf (recover (b.refreshStatuses U f r)).client id).status = (slotOf b.client id).status :=
    congrArg Prod.fst ((hi id).trans he)
  rw [hst] at hsa
  exact lt_irrefl _ (hn st hsa.symm)

end

/-- **A payload that cannot be decoded is inert exactly if it is overlooked**, in every reachable state. -/
theorem garbled_inert_iff {enableAdaptivePD : Bool} {editor : Cms.InstanceStatusLocalAccountEditor}
    {s : Session} (hreach : Reaches (Session.exec U f) free (Session.start enableAdaptivePD editor) s)
    (hgarbled : Garbled U r s.books id bytes) :
    s.books.Inert U f r id ↔ Overlooked U r s.books.client id (U.content bytes) := by
  have hso : Sound s.books.client := hreach.invariant (I := fun s => Sound s.books.client)
    (Session.sound_start _ _) fun _ _ _ _ hex hs => Session.sound_exec hex hs
  constructor
  · intro hi
    by_contra hnot
    exact Books.not_inert hso hgarbled.listed hgarbled.value hnot hi
  · rintro (hp | hst)
    · exact Books.inert_of_panics hso hgarbled.listed hp
    · exact Books.inert_of_stale hso hgarbled.listed hgarbled.value hst

end

/-! ### Two payloads -/

/-- Payloads that say whether they can be decoded, and what decoding leaves. -/
def labelledUnmarshal : Unmarshal (Bool × InstanceStatus) := ⟨fun bytes _ => bytes, fun _ _ _ => rfl⟩

/-- A refresh in which one instance has a payload. -/
def labelledInput (decodes : Bool) (left : InstanceStatus) (order : List String) :
    StatusInput (Bool × InstanceStatus) where
  values := fun id => if id = "a" then some (decodes, left) else none
  order := order
  accountOrder := fun _ => []
  now := fun _ _ => 0
  recorderPanics := fun _ => false

def plainFeatures : Features := ⟨false, false⟩

/-- The client of one instance, with a status of time five. -/
def knownInstance : List (Move (Bool × InstanceStatus)) :=
  [.tables (.refreshMetadata (some (metadataRead [("a", "neutral")])) []),
    .refreshStatuses (labelledInput true (sampleStatus 5 5) [])]

theorem exists_knownInstance : ∃ s, Reaches (Session.exec labelledUnmarshal plainFeatures) free
        (Session.start false (Cms.newInstanceStatusLocalAccountEditor 60 false)) s ∧
      s.books.client.instanceIDs = ["a"] ∧ s.books.client.instanceMetadatas.lookup "a" ≠ none ∧
      (slotOf s.books.client "a").status ≠ none ∧ (s.books.client.statusOf "a").timestampMs = 5 := by
  refine Reaches.of_exists (l := knownInstance) ?_
  decide +kernel

/-- A payload of which nothing is left is inert: its time is not newer. -/
theorem garbled_inert_iff_zero : ∃ s, Reaches (Session.exec labelledUnmarshal plainFeatures) free
        (Session.start false (Cms.newInstanceStatusLocalAccountEditor 60 false)) s ∧
      s.books.Inert labelledUnmarshal plainFeatures (labelledInput false .zero ["a"]) "a" := by
  obtain ⟨s, hs, hi, -, hst, ht⟩ := exists_knownInstance
  have hg : Garbled labelledUnmarshal (labelledInput false .zero ["a"]) s.books "a"
      (false, .zero) := ⟨by rw [hi]; exact mem_cons_self, rfl, rfl⟩
  refine ⟨s, hs, (garbled_inert_iff hs hg).2 (.inr (.inr ⟨hst, ?_⟩))⟩
  rw [ht]
  decide

/-- **The time of a payload that cannot be decoded**: the status takes it over. -/
theorem garbled_status : ¬ ∀ (Bytes : Type) (U : Unmarshal Bytes) (f : Features) (enableAdaptivePD : Bool)
      (editor : Cms.InstanceStatusLocalAccountEditor) (s : Session) (r : StatusInput Bytes) (id : String)
      (bytes : Bytes),
      Reaches (Session.exec U f) free (Session.start enableAdaptivePD editor) s →
      Garbled U r s.books id bytes → s.books.Inert U f r id := by
  intro h
  obtain ⟨s, hs, hid, hm, -, ht⟩ := exists_knownInstance
  have hl : "a" ∈ s.books.client.instanceIDs := by
    rw [hid]
    exact mem_cons_self
  have hi := h _ labelledUnmarshal plainFeatures _ _ s
    (labelledInput false (sampleStatus 0 9) ["a"]) "a" (false, sampleStatus 0 9) hs ⟨hl, rfl, rfl⟩
  have hso : Sound s.books.client := hs.invariant (I := fun s => Sound s.books.client)
    (Session.sound_start _ _) fun _ _ _ _ hex hs => Session.sound_exec hex hs
  refine Books.not_inert hso hl rfl ?_ hi
  rintro (⟨j, hj, -⟩ | hn | ⟨-, hold⟩)
  · simp [hid] at hj
  · exact hm hn
  · rw [ht] at hold
    exact absurd hold (by decide)

/-! ### Every instance has its own status -/

/-- **Every instance has its own status**, in every run, and the payloads of other instances leave status and
view alone, also where they panic or cannot be decoded. -/
theorem isolated_of_reaches {Bytes : Type} {U : Unmarshal Bytes} {f : Features} {enableAdaptivePD : Bool}
    {editor : Cms.InstanceStatusLocalAccountEditor} {s : Session}
    (h : Reaches (Session.exec U f) free (Session.start enableAdaptivePD editor) s) :
    Sound s.books.client ∧ ∀ (r : StatusInput Bytes) (ids : List String) (id : String), id ∉ ids →
      (Books.recover (Books.loop (Books.updateStatus U f r) ids s.books)).entry id =
        s.books.entry id := by
  have hs : Sound s.books.client := h.invariant (I := fun s => Sound s.books.client)
    (Session.sound_start _ _) fun _ _ _ _ hex hs => Session.sound_exec hex hs
  exact ⟨hs, fun r ids id hid => (Books.loop_elsewhere ids hid hs).2.2⟩

theorem isolated_of_reaches_known : ∃ s : Session, (slotOf s.books.client "a").status ≠ none ∧
    Sound s.books.client ∧ (Books.recover (Books.loop (Books.updateStatus labelledUnmarshal plainFeatures
      (labelledInput false (sampleStatus 0 9) ["a"])) ["b", "c"] s.books)).entry "a" =
        s.books.entry "a" := by
  obtain ⟨s, hs, -, -, hst, -⟩ := exists_knownInstance
  obtain ⟨hso, he⟩ := isolated_of_reaches hs
  exact ⟨s, hst, hso, he _ ["b", "c"] "a" (by decide)⟩

end Llumnix.ReadClient
