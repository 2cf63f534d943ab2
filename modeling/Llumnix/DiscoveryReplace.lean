/-
**Discovery and the local realtime state.**

The scheduler watches the resolver too: added instances become views of the local realtime state, removed
ones lose theirs, and a view is replaced when its instance is added again with a newer version.  This module
composes `redisResolver.refresh`, the notifications, which arrive in order, the watch loop of
`NewSchedulerService` and the client of the local realtime states.  If an instance is restarted within a
polling interval, nobody is told: `DiffSets` compares ids only.

* `current_of_delivered` — **once everything is delivered the state is current**, if entries change only by
  leaving and coming back.
-/

import Llumnix.LrsClient
import Llumnix.LrsVersions
import Llumnix.Resolver

namespace Llumnix.Replace

open FiniteMap Resolver Lrs List Client

/-! ### The system -/

/-- One instance of a notification. -/
inductive Event
  | add (w : LLMInstance)
  | remove (w : LLMInstance)
  deriving DecidableEq

/-- The resolver, what it sent, and the local realtime states of the scheduler. -/
structure State where
  instances : List LLMInstance
  /-- What was sent and has not arrived yet, in the order it was sent. -/
  queue : List Event
  client : Client
  /-- For every request object, the version of the instance it was allocated to. -/
  bound : Store → Ref → ℤ

/-- Nothing was discovered yet; a resolver with a list sends all of it as added, as here at its first refresh.
-/
def State.start : State where
  instances := []
  queue := []
  client := newClient
  bound := fun _ _ => 0

/-- The steps, with every choice of the environment as an argument. -/
inductive Action
  /-- A refresh and its notification: what Redis returned, and the order in which the map of the
  removed instances is listed. -/
  | refresh (podInfos : List (Option PodDiscoveryInfo)) (now : Int) (removed : List LLMInstance)
  /-- The watch loop handles the next instance; `order` is the order of the loop over the requests of
  a view that goes. -/
  | deliver (order : List String)
  /-- A call of a handler or of a keep-alive connection. -/
  | call (c : ClientCall)

/-- The version an allocation binds the next object of a state to. -/
def boundAfter (c : Client) (bound : Store → Ref → ℤ) : ClientCall → Store → Ref → ℤ
  | .allocateRequestState _ st => fun k =>
    match (c.state k).instanceViews.lookup st.instanceId with
    | none => bound k
    | some iv => Function.update (bound k) (c.state k).nextRef iv.version
  | _ => bound

/-- The requests that the loop of `removeInstance` ranges over. -/
def viewRequestIds (c : Client) (w : LLMInstance) : Finset String :=
  (c.state (storeOf w.inferType)).instanceRequestIds w.id

def exec (statusTTLMs : Int) (s : State) : Action → Option State
  | .refresh podInfos now removed =>
    let new := newInstances .all statusTTLMs now podInfos
    let diff := diffSets LLMInstance.id s.instances new
    if Lists LLMInstance.id diff.2 removed then
      some { s with
        instances := new
        queue := s.queue ++ (diff.1.map .add ++ removed.map .remove) }
    else none
  | .deliver order =>
    match s.queue with
    | [] => none
    | .add w :: rest =>
      if Enumerates order (viewRequestIds s.client w) then
        some { s with queue := rest, client := s.client.addInstance w order }
      else none
    | .remove w :: rest =>
      if Enumerates order (viewRequestIds s.client w) then
        some { s with queue := rest, client := s.client.removeInstance w.inferType w.id order }
      else none
  | .call c =>
    match s.client.exec c with
    | none => none
    | some client => some { s with client := client, bound := boundAfter s.client s.bound c }

/-! ### What should hold -/

/-- What the scheduler should know about an instance. -/
structure Entry where
  version : Int
  endpoint : Endpoint
  inferType : InferType
  deriving DecidableEq

def entry (w : LLMInstance) : Entry := ⟨w.version, w.endpoint, w.inferType⟩

/-- A state has a request for an instance, in a view or in the global table. -/
def Recorded (s : LocalRealtimeState) (id : String) (p : Ref) : Prop :=
  ∃ r, ViewHolds s id r p ∨ (s.requestStates.lookup r = some p ∧ (s.heap p).instanceId = id)

/-- **Every discovered instance has a view with its version, endpoint and type, and its requests belong to
that version.** -/
def Current (s : State) : Prop :=
  ∀ w ∈ s.instances,
    (∃ iv, (s.client.state (storeOf w.inferType)).instanceViews.lookup w.id = some iv ∧
      iv.version = w.version ∧ iv.inst.endpoint = w.endpoint ∧ iv.inst.inferType = w.inferType) ∧
    ∀ k p, Recorded (s.client.state k) w.id p → s.bound k p = w.version

/-- A refresh finds distinct ids, and an instance that was there before has kept its entry. -/
def Steady (statusTTLMs : Int) (s : State) : Action → Prop
  | .refresh podInfos now _ =>
    ((newInstances .all statusTTLMs now podInfos).map LLMInstance.id).Nodup ∧
      ∀ w ∈ newInstances .all statusTTLMs now podInfos,
        ∀ v ∈ s.instances, v.id = w.id → entry v = entry w
  | .deliver _ => True
  | .call _ => True

instance (statusTTLMs : Int) (s : State) : ∀ a, Decidable (Steady statusTTLMs s a) := by
  intro a
  unfold Steady
  split <;> infer_instance

/-! ### Notifications and known entries -/

/-- The entries that the local realtime states know. -/
def known (c : Client) (k : Store) (id : String) : Option Entry := (instOf (c.state k) id).map entry

/-- What a notification does to the known entries. -/
def apply (m : Store → String → Option Entry) : Event → Store → String → Option Entry
  | .add w => fun k id =>
    if k = storeOf w.inferType ∧ id = w.id then
      match m k id with
      | none => some (entry w)
      | some old => if old.version < w.version then some (entry w) else some old
    else m k id
  | .remove w => fun k id =>
    if k = storeOf w.inferType ∧ id = w.id then none else m k id

/-- **The known entries are those of a list of instances**, each in the state of its type. -/
def Holds (m : Store → String → Option Entry) (l : List LLMInstance) : Prop :=
  ∀ k id e, m k id = some e ↔ ∃ w ∈ l, w.id = id ∧ storeOf w.inferType = k ∧ entry w = e

section

variable {m : Store → String → Option Entry} {l : List LLMInstance}
variable {w : LLMInstance}

theorem storeOf_eq_of_entry {v : LLMInstance} (h : entry w = entry v) :
    storeOf w.inferType = storeOf v.inferType :=
  congrArg (fun e : Entry => storeOf e.inferType) h

theorem Holds.congr {l' : List LLMInstance} (h : Holds m l)
    (hto : ∀ w ∈ l, ∃ v ∈ l', v.id = w.id ∧ entry v = entry w)
    (hf : ∀ v ∈ l', ∃ w ∈ l, w.id = v.id ∧ entry w = entry v) : Holds m l' := by
  intro k id e
  rw [h]
  constructor
  · rintro ⟨w, hw, rfl, rfl, rfl⟩
    obtain ⟨v, hv, hid, he⟩ := hto w hw
    exact ⟨v, hv, hid, storeOf_eq_of_entry he, he⟩
  · rintro ⟨v, hv, rfl, rfl, rfl⟩
    obtain ⟨w, hw, hid, he⟩ := hf v hv
    exact ⟨w, hw, hid, storeOf_eq_of_entry he, he⟩

theorem holds_add (h : Holds m l) (hn : w.id ∉ l.map LLMInstance.id) :
    Holds (apply m (.add w)) (l ++ [w]) := by
  have hno : ∀ k, m k w.id = none := by
    intro k
    cases hm : m k w.id with
    | none => rfl
    | some e =>
      obtain ⟨v, hv, hid, -⟩ := (h k w.id e).1 hm
      exact absurd (hid ▸ mem_map_of_mem hv) hn
  intro k id e
  simp only [apply, mem_append, mem_singleton]
  by_cases hid : id = w.id
  · subst hid
    rw [hno k]
    have hold : ∀ v ∈ l, v.id ≠ w.id := fun v hv hv' => hn (hv' ▸ mem_map_of_mem hv)
    constructor
    · intro hm
      split at hm
      · next hk => exact ⟨w, .inr rfl, rfl, hk.1.symm, Option.some.inj hm⟩
      · cases hm
    · rintro ⟨v, hv | rfl, hvi, hk, rfl⟩
      · exact absurd hvi (hold v hv)
      · rw [if_pos ⟨hk.symm, rfl⟩]
  · rw [if_neg fun hk => hid hk.2, h]
    constructor
    · rintro ⟨v, hv, rest⟩
      exact ⟨v, .inl hv, rest⟩
    · rintro ⟨v, hv | rfl, rest⟩
      · exact ⟨v, hv, rest⟩
      · exact absurd rest.1.symm hid

theorem holds_remove (h : Holds m l) (hn : (l.map LLMInstance.id).Nodup) (hw : w ∈ l) :
    Holds (apply m (.remove w)) (l.filter fun v => v.id ≠ w.id) := by
  intro k id e
  simp only [apply, mem_filter, decide_eq_true_eq]
  by_cases hid : id = w.id
  · subst hid
    refine iff_of_false (fun hm => ?_) ?_
    · split at hm
      · cases hm
      · next hk =>
        -- the only instance with this id is `w`, and it is in its own state
        obtain ⟨v, hv, hvi, hs, -⟩ := (h k w.id e).1 hm
        obtain rfl := inj_on_of_nodup_map hn hv hw hvi
        exact hk ⟨hs.symm, rfl⟩
    · rintro ⟨v, ⟨-, hne⟩, hvi, -⟩
      exact hne hvi
  · rw [if_neg fun hk => hid hk.2, h]
    constructor
    · rintro ⟨v, hv, rfl, rest⟩
      exact ⟨v, ⟨hv, hid⟩, rfl, rest⟩
    · rintro ⟨v, ⟨hv, -⟩, rest⟩
      exact ⟨v, hv, rest⟩

theorem holds_foldl_add (added : List LLMInstance) :
    ∀ {m : Store → String → Option Entry} {l : List LLMInstance}, Holds m l →
      ((l ++ added).map LLMInstance.id).Nodup →
      Holds ((added.map Event.add).foldl apply m) (l ++ added) := by
  induction added with
  | nil =>
    intro m l h _
    simpa using h
  | cons w added ih =>
  intro m l h hn
  have hne : w.id ∉ l.map LLMInstance.id := by
    intro hm
    rw [map_append, nodup_append'] at hn
    exact hn.2.2 hm (by simp)
  rw [append_cons] at hn ⊢
  exact ih (holds_add h hne) hn

theorem holds_foldl_remove (removed : List LLMInstance) :
    ∀ {m : Store → String → Option Entry} {l : List LLMInstance}, Holds m l →
      (l.map LLMInstance.id).Nodup → (removed.map LLMInstance.id).Nodup → (∀ w ∈ removed, w ∈ l) →
      Holds ((removed.map Event.remove).foldl apply m)
        (l.filter fun v => v.id ∉ removed.map LLMInstance.id) := by
  induction removed with
  | nil =>
    intro m l h _ _ _
    simpa using h
  | cons w removed ih =>
  intro m l h hn hdi hm
  rw [map_cons, nodup_cons] at hdi
  have hr : ∀ v ∈ removed, v ∈ l.filter fun v => v.id ≠ w.id := by
    intro v hv
    refine mem_filter.2 ⟨hm v (mem_cons_of_mem _ hv), ?_⟩
    simpa using fun hid : v.id = w.id => hdi.1 (hid ▸ mem_map_of_mem hv)
  have hs := ih (holds_remove h hn (hm w mem_cons_self)) ((filter_sublist.map _).nodup hn) hdi.2 hr
  rw [filter_filter] at hs
  have hl : (l.filter fun v => v.id ∉ (w :: removed).map LLMInstance.id) =
      l.filter fun v => decide (v.id ∉ removed.map LLMInstance.id) && decide (v.id ≠ w.id) := by
    refine filter_congr fun v _ => ?_
    by_cases h₁ : v.id = w.id <;> by_cases h₂ : v.id ∈ removed.map LLMInstance.id <;>
      simp [h₁, h₂]
  rw [hl]
  exact hs

/-- **The notification of a refresh leads from the entries of the old list to those of the new one**, if ids
are distinct and an instance that stays keeps its entry. -/
theorem holds_refresh {old new removed : List LLMInstance} (h : Holds m old)
    (hold : (old.map LLMInstance.id).Nodup) (hn : (new.map LLMInstance.id).Nodup)
    (hke : ∀ w ∈ new, ∀ v ∈ old, v.id = w.id → entry v = entry w)
    (hr : Lists LLMInstance.id (diffSets LLMInstance.id old new).2 removed) :
    Holds (((diffSets LLMInstance.id old new).1.map Event.add ++
      removed.map Event.remove).foldl apply m) new := by
  obtain ⟨had, hdi, hk, hi⟩ := diffSets_spec LLMInstance.id hn hr
  rw [had, foldl_append]
  have ha : ((old ++ new.filter fun w => w.id ∉ old.map LLMInstance.id).map LLMInstance.id).Nodup := by
    rw [map_append, nodup_append']
    refine ⟨hold, (filter_sublist.map _).nodup hn, ?_⟩
    intro id hm hm'
    obtain ⟨w, hw, rfl⟩ := mem_map.1 hm'
    exact absurd hm (by simpa using (mem_filter.1 hw).2)
  have hl := holds_foldl_remove removed (holds_foldl_add _ h ha) ha hdi
    fun w hw => mem_append_left _ (hi w hw)
  refine hl.congr (fun w hw => ?_) fun v hv => ?_
  · obtain ⟨hw, hs⟩ := mem_filter.1 hw
    have hs : w.id ∉ removed.map LLMInstance.id := by simpa using hs
    rcases mem_append.1 hw with hw | hw
    · -- an old instance that was not removed is still announced
      have hm : w.id ∈ new.map LLMInstance.id := by
        by_contra hm
        exact hs ((hk _).2 ⟨mem_map_of_mem hw, hm⟩)
      obtain ⟨v, hv, hid⟩ := mem_map.1 hm
      exact ⟨v, hv, hid, (hke v hv w hw hid.symm).symm⟩
    · exact ⟨w, (mem_filter.1 hw).1, rfl, rfl⟩
  · have hs : v.id ∉ removed.map LLMInstance.id := fun hm =>
      ((hk _).1 hm).2 (mem_map_of_mem hv)
    by_cases hm : v.id ∈ old.map LLMInstance.id
    · obtain ⟨w, hw, hid⟩ := mem_map.1 hm
      refine ⟨w, mem_filter.2 ⟨mem_append_left _ hw, ?_⟩, hid, hke v hv w hw hid⟩
      simpa [hid] using hs
    · exact ⟨v, mem_filter.2 ⟨mem_append_right _ (mem_filter.2
        ⟨hv, by simpa using hm⟩), by simpa using hs⟩, rfl, rfl⟩

end

/-! ### What the calls of the client do -/

section

variable {c c' : Client} {bound : Store → Ref → ℤ}
variable {s : LocalRealtimeState} {w : LLMInstance} {order : List String} {t : InferType}
  {call : ClientCall} {st : RequestState}

def Bounded (bound : Store → Ref → ℤ) (c : Client) : Prop := ∀ k, Bound (bound k) (c.state k)

theorem forall_modify {P : Store → LocalRealtimeState → Prop} (h : ∀ k, P k (c.state k)) {k : Store}
    (hs : P k s) (j : Store) : P j ((c.modify k s).state j) := by
  by_cases hj : j = k
  · subst hj
    rw [modify_state_self]
    exact hs
  · rw [modify_state_of_ne c hj]
    exact h j

theorem bounded_addInstance (ho : Enumerates order (viewRequestIds c w)) (h : Bounded bound c) :
    Bounded bound (c.addInstance w order) :=
  forall_modify (P := fun k s => Bound (bound k) s) h (bound_addInstance ho (h _))

theorem bounded_removeInstance (ho : Enumerates order (viewRequestIds c w)) (h : Bounded bound c) :
    Bounded bound (c.removeInstance w.inferType w.id order) :=
  forall_modify (P := fun k s => Bound (bound k) s) h (bound_removeInstance ho (h _))

theorem known_addInstance (h : Bounded bound c) (w : LLMInstance) (order : List String) :
    known (c.addInstance w order) = apply (known c) (.add w) := by
  funext k id
  by_cases hk : k = storeOf w.inferType
  · subst hk
    rw [known, addInstance, modify_state_self, instOf_addInstance (h _)]
    by_cases hid : id = w.id
    · subst hid
      simp only [apply, known, and_self, if_true]
      cases instOf (c.state (storeOf w.inferType)) w.id with
      | none => rfl
      | some => exact apply_ite _ _ _ _
    · simp [apply, hid, known]
  · rw [known, addInstance, modify_state_of_ne c hk]
    simp [apply, hk, known]

theorem known_removeInstance (c : Client) (w : LLMInstance) (order : List String) :
    known (c.removeInstance w.inferType w.id order) = apply (known c) (.remove w) := by
  funext k id
  by_cases hk : k = storeOf w.inferType
  · subst hk
    rw [known, removeInstance, modify_state_self, instOf_removeInstance]
    by_cases hid : id = w.id
    · simp [apply, hid]
    · simp [apply, hid, known]
  · rw [known, removeInstance, modify_state_of_ne c hk]
    simp [apply, hk, known]

theorem frame_onState {f : LocalRealtimeState → Except LrsError LocalRealtimeState}
    (hf : ∀ {s s'}, f s = .ok s' → Frame s s') (k : Store) :
    Frame (c.state k) ((c.orKeep (c.onState t f)).state k) := by
  unfold onState
  split
  · exact Frame.refl _
  · next j _ =>
    split
    · exact Frame.refl _
    · next s' hs' =>
      exact forall_modify (P := fun k s => Frame (c.state k) s) (fun k => Frame.refl _) (hf hs') k

theorem frame_exec (hc : ∀ t st, call ≠ .allocateRequestState t st) (hex : c.exec call = some c') :
    boundAfter c bound call = bound ∧ ∀ k, Frame (c.state k) (c'.state k) := by
  cases call with
  | addGateway =>
    cases hex
    exact ⟨rfl, fun k => frame_addGateway _ _⟩
  | removeGateway =>
    rw [Client.exec] at hex
    split at hex <;> cases hex
    exact ⟨rfl, fun k => frame_removeGateway _ _ _⟩
  | allocateRequestState t st => exact absurd rfl (hc t st)
  | updateRequestState =>
    cases hex
    exact ⟨rfl, frame_onState frame_updateRequestState⟩
  | markPrefillComplete =>
    cases hex
    exact ⟨rfl, frame_onState frame_markPrefillComplete⟩
  | releaseRequestState =>
  cases hex
  refine ⟨rfl, fun k => ?_⟩
  unfold releaseRequestState
  split
  · exact Frame.refl _
  · exact forall_modify (P := fun k s => Frame (c.state k) s)
      (fun k => Frame.refl _) (frame_releaseRequestState _ _) k

theorem bound_next {ver : Ref → ℤ} (h : Bound ver s) (v : ℤ) :
    Bound (Function.update ver s.nextRef v) s where
  version := h.version
  bound_eq := fun i iv r p hiv hp => by
    rw [Function.update_of_ne (Nat.ne_of_lt (h.ref_lt i r p ⟨iv, hiv, hp⟩))]
    exact h.bound_eq i iv r p hiv hp
  ref_lt := h.ref_lt
  live := h.live

theorem bounded_boundAfter (h : Bounded bound c) :
    Bounded (boundAfter c bound (.allocateRequestState t st)) c := by
  intro k
  simp only [boundAfter]
  split
  · exact h k
  · exact bound_next (h k) _

theorem bounded_allocate (h : Bounded bound c) :
    Bounded (boundAfter c bound (.allocateRequestState t st)) (c.orKeep (c.allocateRequestState t st)) ∧
      known (c.orKeep (c.allocateRequestState t st)) = known c := by
  unfold allocateRequestState onState
  split
  · exact ⟨bounded_boundAfter h, rfl⟩
  rename_i k _
  split
  · exact ⟨bounded_boundAfter h, rfl⟩
  rename_i s' hs'
  obtain ⟨iv, requestSet, -, hiv, -, rfl⟩ := allocateRequestState_eq_ok hs'
  constructor
  · refine forall_modify (P := fun k s => Bound (boundAfter c bound (.allocateRequestState t st) k) s)
      (bounded_boundAfter h) ?_
    simp only [boundAfter, hiv]
    exact bound_storeRequest hiv (h k)
  · funext j id
    refine forall_modify (P := fun k s => (instOf s id).map entry = (instOf (c.state k) id).map entry)
      (fun _ => rfl) ?_ j
    rw [instOf_storeRequest hiv]

/-- **A call of the client changes no known entry, and requests stay bound.** -/
theorem bounded_exec (hex : c.exec call = some c') (h : Bounded bound c) :
    Bounded (boundAfter c bound call) c' ∧ known c' = known c := by
  by_cases hc : ∃ t st, call = .allocateRequestState t st
  · obtain ⟨t, st, rfl⟩ := hc
    cases hex
    exact bounded_allocate h
  · push Not at hc
    obtain ⟨hb, hf⟩ : boundAfter c bound call = bound ∧ _ := frame_exec hc hex
    rw [hb]
    refine ⟨fun k => (hf k).bound (h k), ?_⟩
    funext k id
    rw [known, known, (hf k).instOf]

end

/-! ### The invariant -/

/-- **What everything sent will lead to is the resolver's list.** -/
structure Tracked (s : State) : Prop where
  nodup : (s.instances.map LLMInstance.id).Nodup
  holds : Holds (s.queue.foldl apply (known s.client)) s.instances
  bounded : Bounded s.bound s.client

theorem tracked_start : Tracked State.start where
  nodup := nodup_nil
  holds := fun k id e => by simp [State.start, known, instOf, newClient, newLocalRealtimeState]
  bounded := fun _ => bound_newLocalRealtimeState _

variable {s : State}

theorem tracked_exec {statusTTLMs : Int} {t : State} {a : Action} (hok : Steady statusTTLMs s a)
    (hex : exec statusTTLMs s a = some t) (h : Tracked s) : Tracked t := by
  cases a with
  | refresh podInfos now removed =>
    simp only [exec] at hex
    split at hex <;> cases hex
    rename_i hr
    refine ⟨hok.1, ?_, h.bounded⟩
    rw [foldl_append]
    exact holds_refresh h.holds h.nodup hok.1 hok.2 hr
  | deliver order =>
    have hh := h.holds
    simp only [exec] at hex
    split at hex
    · cases hex
    · next w rest hq =>
      rw [hq, foldl_cons, ← known_addInstance h.bounded w order] at hh
      split at hex <;> cases hex
      next ho => exact ⟨h.nodup, hh, bounded_addInstance ho h.bounded⟩
    · next w rest hq =>
      rw [hq, foldl_cons, ← known_removeInstance s.client w order] at hh
      split at hex <;> cases hex
      next ho => exact ⟨h.nodup, hh, bounded_removeInstance ho h.bounded⟩
  | call c =>
    simp only [exec] at hex
    split at hex <;> cases hex
    rename_i client hc
    obtain ⟨hb, hk⟩ := bounded_exec hc h.bounded
    exact ⟨h.nodup, by simpa only [hk] using h.holds, hb⟩

theorem Recorded.viewHolds {ver : Ref → ℤ} {s : LocalRealtimeState} (hb : Bound ver s) {id : String}
    {p : Ref} (h : Recorded s id p) : ∃ r, ViewHolds s id r p := by
  obtain ⟨r, h | ⟨ht, rfl⟩⟩ := h
  · exact ⟨r, h⟩
  · exact ⟨r, hb.live r p ht⟩

theorem Tracked.current (h : Tracked s) (hq : s.queue = []) : Current s := by
  have hh := h.holds
  rw [hq, foldl_nil] at hh
  intro w hw
  constructor
  · have hk := (hh (storeOf w.inferType) w.id (entry w)).2 ⟨w, hw, rfl, rfl, rfl⟩
    obtain ⟨inst, hi, he⟩ := Option.map_eq_some_iff.1 hk
    obtain ⟨iv, hiv, rfl⟩ := Option.map_eq_some_iff.1 hi
    obtain ⟨hve, hen, ht⟩ := Entry.mk.inj he
    exact ⟨iv, hiv, ((h.bounded _).version _ iv hiv).trans hve, hen, ht⟩
  · intro k p hr
    obtain ⟨r, iv, hiv, hp⟩ := hr.viewHolds (h.bounded k)
    have hk : known s.client k w.id = some (entry iv.inst) := by
      rw [known, instOf, hiv]
      rfl
    -- the view belongs to an instance of the list, and `w` is the only one with this id
    obtain ⟨v, hv, hid, -, he⟩ := (hh _ _ _).1 hk
    obtain rfl := inj_on_of_nodup_map h.nodup hv hw hid
    rw [(h.bounded k).bound_eq _ iv r p hiv hp, (h.bounded k).version _ iv hiv]
    exact (Entry.mk.inj he).1.symm

/-- **Once everything is delivered the states are those of the resolver's list**, if instances change only by
leaving and coming back. -/
theorem current_of_delivered {statusTTLMs : Int} {s : State}
    (hrun : GuardedRun.Reaches (exec statusTTLMs) (Steady statusTTLMs) State.start s)
    (hqueue : s.queue = []) : Current s :=
  Tracked.current (hrun.invariant tracked_start fun _ _ _ hok hex => tracked_exec hok hex) hqueue

/-! ### Runs -/

def onePod (version : Int) (ip : String) : List (Option PodDiscoveryInfo) :=
  [some ⟨"pod", 0, [⟨.neutral, version, "", ip, 8000, "", 0, 0, 1⟩]⟩]

def oneInstance (version : Int) (ip : String) : LLMInstance :=
  toLLMInstance "pod" ⟨.neutral, version, "", ip, 8000, "", 0, 0, 1⟩

/-- A gateway schedules a request to the instance of the pod. -/
def schedules (requestId : String) : List Action :=
  [.call (.addGateway "g"),
    .call (.allocateRequestState .neutral (newRequestState requestId 5 "pod_dp0" "g" 0))]

/-- The latest versions, the version of the view, and the versions that requests were bound to. -/
def versions (s : State) : List Int × Option Int × List Int :=
  (s.instances.map (·.version),
    ((s.client.state .neutral).instanceViews.lookup "pod_dp0").map (·.version),
    (List.range (s.client.state .neutral).nextRef).map (s.bound .neutral))

/-- An instance that leaves and comes back with a new version. -/
def replacement : List Action :=
  [.refresh (onePod 1 "10.0.0.1") 0 [], .deliver []] ++ schedules "r" ++
    [.refresh [] 0 [oneInstance 1 "10.0.0.1"], .refresh (onePod 2 "10.0.0.2") 0 [],
      .deliver ["r"], .deliver []]

/-- The new instance has its view, and the request of the old one is gone. -/
theorem current_of_delivered_replacement : ∃ s, GuardedRun.Reaches (exec 1000) (Steady 1000) State.start s ∧
      versions s = ([2], some 2, [1]) ∧ Current s := by
  have hru : ∃ s ∈ GuardedRun.runAll (exec 1000) (Steady 1000) State.start replacement,
      versions s = ([2], some 2, [1]) ∧ s.queue = [] := by decide +kernel
  obtain ⟨s, hs, hv, hq⟩ := GuardedRun.Reaches.of_exists hru
  exact ⟨s, hs, hv, current_of_delivered hs hq⟩

/-- An instance that is restarted between two refreshes. -/
def restart : List Action :=
  [.refresh (onePod 1 "10.0.0.1") 0 [], .deliver []] ++ schedules "r" ++
    [.refresh (onePod 2 "10.0.0.2") 0 []]

/-- **A restart that is never noticed**: the resolver lists version 2, and the scheduler keeps version 1 with
its request. -/
theorem restarted_instance : ¬ ∀ (statusTTLMs : Int) (s : State),
      GuardedRun.Reaches (exec statusTTLMs) GuardedRun.free State.start s → s.queue = [] →
      Current s := by
  intro h
  have hru : ∃ s ∈ GuardedRun.runAll (exec 1000) GuardedRun.free State.start restart,
      s.queue = [] ∧ oneInstance 2 "10.0.0.2" ∈ s.instances ∧
        ∃ iv ∈ (s.client.state .neutral).instanceViews.lookup "pod_dp0", iv.version = 1 := by decide +kernel
  obtain ⟨s, hs, hq, hm, iv, hiv, hv⟩ := GuardedRun.Reaches.of_exists hru
  obtain ⟨⟨iv', hiv', hv', -⟩, -⟩ := h 1000 s hs hq _ hm
  cases hiv.symm.trans hiv'
  rw [hv'] at hv
  exact absurd hv (by decide)

end Llumnix.Replace
