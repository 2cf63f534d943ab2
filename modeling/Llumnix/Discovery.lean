/-
**A resolver, its watcher and a round-robin balancer.**

The balancer of a gateway registers with the resolver's watcher, gets a snapshot of the current instances,
and then one notification for every refresh that changes something.  Additions and removals travel on two
channels, the snapshot is put into the first one by a goroutine of its own, and the consumer takes whatever
channel is ready.  This module models the three parties (`redisResolver.refresh`, `Watcher`,
`NewRoundRobinBalancer`).

A removal that arrives before the addition it belongs to is lost, and an instance that is announced both by
the snapshot and by the notification of a refresh in progress is there twice.

* `agrees_of_drained` — **once the channels are drained the balancer has the resolver's list**, in orderly
  runs.
-/

import Llumnix.GuardedRun
import Llumnix.Resolver

namespace Llumnix.Discovery

open Resolver Option List

/-! ### The system -/

structure Config where
  inferType : InferType
  statusTTLMs : Int

/-- The resolver, the channels of the one observer and the balancer.  No channel is ever full. -/
structure State where
  instances : List LLMInstance
  /-- A refresh has stored its list and not notified the observers yet: what was added and removed. -/
  pending : Option (List LLMInstance × List LLMInstance)
  registered : Bool
  /-- The goroutine of `Watch` has not sent the snapshot yet. -/
  snapshot : Option (List LLMInstance)
  addChan : List (List LLMInstance)
  delChan : List (List LLMInstance)
  balancer : List LLMInstance

/-- Nothing is known and nobody watches. -/
def State.start : State where
  instances := []
  pending := none
  registered := false
  snapshot := none
  addChan := []
  delChan := []
  balancer := []

/-- The steps of the parties, with every choice of the environment as an argument. -/
inductive Action
  /-- A refresh up to the point where it has stored its list: what Redis returned, and the order in
  which the map of the removed instances is listed. -/
  | refresh (podInfos : List (Option PodDiscoveryInfo)) (now : Int) (removed : List LLMInstance)
  | notify
  /-- The balancer registers with the watcher.  The lock of the watcher makes this one step. -/
  | watch
  | sendSnapshot
  | takeAdded
  | takeRemoved

/-- A batch is sent if it is not empty. -/
def send (chan : List (List LLMInstance)) (batch : List LLMInstance) : List (List LLMInstance) :=
  if batch.isEmpty then chan else chan ++ [batch]

/-- The removals of the balancer: for every instance of the batch the first one with its id. -/
def removeAll (batch balancer : List LLMInstance) : List LLMInstance :=
  batch.foldl (fun l w => l.eraseP fun v => v.id = w.id) balancer

def exec (cfg : Config) (s : State) : Action → Option State
  | .refresh podInfos now removed =>
    let new := newInstances cfg.inferType cfg.statusTTLMs now podInfos
    let diff := diffSets LLMInstance.id s.instances new
    if s.pending.isNone = true ∧ Lists LLMInstance.id diff.2 removed then
      some { s with
        instances := new
        pending := if diff.1.isEmpty && removed.isEmpty then none else some (diff.1, removed) }
    else none
  | .notify =>
    match s.pending with
    | none => none
    | some (added, removed) =>
      if s.registered then
        some { s with
          pending := none
          addChan := send s.addChan added
          delChan := send s.delChan removed }
      else some { s with pending := none }
  | .watch =>
    if s.registered then none
    else some { s with
      registered := true
      snapshot := if s.instances.isEmpty then none else some s.instances }
  | .sendSnapshot =>
    match s.snapshot with
    | none => none
    | some instances =>
      some { s with snapshot := none, addChan := s.addChan ++ [instances] }
  | .takeAdded =>
    match s.addChan with
    | [] => none
    | batch :: rest => some { s with addChan := rest, balancer := s.balancer ++ batch }
  | .takeRemoved =>
    match s.delChan with
    | [] => none
    | batch :: rest => some { s with delChan := rest, balancer := removeAll batch s.balancer }

/-! ### What should hold -/

/-- The observer is registered and everything sent to it has arrived. -/
def Drained (s : State) : Prop :=
  s.registered = true ∧ s.pending = none ∧ s.snapshot = none ∧ s.addChan = [] ∧ s.delChan = []

/-- **The balancer has every instance of the resolver's list exactly once, and no other.** -/
def Agrees (s : State) : Prop :=
  ∀ id : String, (s.balancer.map LLMInstance.id).count id =
    if id ∈ s.instances.map LLMInstance.id then 1 else 0

/-- The steps that overtake nothing: a refresh finds distinct ids, the balancer registers while no refresh is
about to notify, and a removal finds its instances in the list. -/
def Orderly (cfg : Config) (s : State) : Action → Prop
  | .refresh podInfos now _ =>
    ((newInstances cfg.inferType cfg.statusTTLMs now podInfos).map LLMInstance.id).Nodup
  | .notify => True
  | .watch => s.pending = none
  | .sendSnapshot => True
  | .takeAdded => True
  | .takeRemoved => ∀ w ∈ s.delChan.headD [], w.id ∈ s.balancer.map LLMInstance.id

instance (cfg : Config) (s : State) : ∀ a, Decidable (Orderly cfg s a) := by
  intro a
  unfold Orderly
  split <;> infer_instance

/-! ### The invariant -/

variable (id : String)

/-- How often an id occurs in a list of instances. -/
def occurs (l : List LLMInstance) : Nat := (l.map LLMInstance.id).count id

@[simp] theorem occurs_nil : occurs id [] = 0 := rfl

@[simp] theorem occurs_append (l l' : List LLMInstance) :
    occurs id (l ++ l') = occurs id l + occurs id l' := by
  rw [occurs, map_append, count_append]
  rfl

theorem occurs_flatten_send (chan : List (List LLMInstance)) (batch : List LLMInstance) :
    occurs id (send chan batch).flatten = occurs id chan.flatten + occurs id batch := by
  rw [send]
  split
  · next h =>
    rw [List.isEmpty_iff.1 h]
    rfl
  · simp

/-- A removal takes one occurrence of every id it names, if they are all there. -/
theorem occurs_removeAll (batch : List LLMInstance) :
    ∀ l : List LLMInstance, (batch.map LLMInstance.id).Nodup → (∀ w ∈ batch, w.id ∈ l.map LLMInstance.id) →
      occurs id (removeAll batch l) + occurs id batch = occurs id l := by
  induction batch with
  | nil => exact fun l _ _ => rfl
  | cons w batch ih =>
  intro l hn hm
  rw [map_cons, nodup_cons] at hn
  have he : (l.eraseP fun v => v.id = w.id).map LLMInstance.id = (l.map LLMInstance.id).erase w.id := by
    rw [erase_eq_eraseP', eraseP_map]
    rfl
  have hr : ∀ v ∈ batch, v.id ∈ (l.eraseP fun v => v.id = w.id).map LLMInstance.id := by
    intro v hv
    have hne : v.id ≠ w.id := fun h => hn.1 (h ▸ mem_map_of_mem hv)
    rw [he]
    exact (mem_erase_of_ne hne).2 (hm v (mem_cons_of_mem _ hv))
  have ht := ih (l.eraseP fun v => v.id = w.id) hn.2 hr
  have ho : occurs id (l.eraseP fun v => v.id = w.id) + occurs id [w] = occurs id l := by
    rw [occurs, he, occurs, occurs, map_singleton, count_erase, count_singleton]
    have hp := count_pos_iff.2 (hm w mem_cons_self)
    by_cases hid : w.id = id
    · simp only [hid, beq_self_eq_true, if_true] at hp ⊢
      omega
    · simp [hid]
  rw [removeAll, foldl_cons]
  change occurs id (removeAll batch _) + occurs id ([w] ++ batch) = _
  rw [occurs_append]
  omega

/-- What a refresh is about to send. -/
def pendingAdded (s : State) : List LLMInstance := (s.pending.getD ([], [])).1

/-- What a refresh is about to take back. -/
def pendingRemoved (s : State) : List LLMInstance := (s.pending.getD ([], [])).2

/-- **The invariant of orderly runs**: what the balancer has or will get is what the resolver has, or has had
sent. -/
structure Balanced (s : State) : Prop where
  nodup : (s.instances.map LLMInstance.id).Nodup
  pending_nodup : ((pendingRemoved s).map LLMInstance.id).Nodup
  del_nodup : ∀ batch ∈ s.delChan, (batch.map LLMInstance.id).Nodup
  unregistered : s.registered = false →
    s.snapshot = none ∧ s.addChan = [] ∧ s.delChan = [] ∧ s.balancer = []
  balance : s.registered = true → ∀ id,
    occurs id s.balancer + occurs id s.addChan.flatten + occurs id (s.snapshot.getD []) +
        occurs id (pendingAdded s) =
      occurs id s.instances + occurs id s.delChan.flatten + occurs id (pendingRemoved s)

theorem balanced_start : Balanced State.start where
  nodup := nodup_nil
  pending_nodup := nodup_nil
  del_nodup := by intro batch h; cases h
  unregistered := fun _ => ⟨rfl, rfl, rfl, rfl⟩
  balance := fun h => nomatch h

theorem balanced_step {cfg : Config} {s t : State} {a : Action} (hok : Orderly cfg s a)
    (he : exec cfg s a = some t) (h : Balanced s) : Balanced t := by
  cases a <;> simp only [exec] at he <;> split at he <;> try cases he
  -- refresh
  next podInfos now removed hco =>
    obtain ⟨hp, hl⟩ := hco
    rw [isNone_iff_eq_none] at hp
    have hn : ((newInstances cfg.inferType cfg.statusTTLMs now podInfos).map LLMInstance.id).Nodup := hok
    have hdf := count_diff LLMInstance.id h.nodup hn hl
    obtain ⟨-, hdi, -, -⟩ := diffSets_spec LLMInstance.id hn hl
    generalize newInstances cfg.inferType cfg.statusTTLMs now podInfos = new at *
    -- an empty difference is not kept, but it does not count either
    generalize (diffSets LLMInstance.id s.instances new).1 = added at *
    have hpe : ∀ u : State, u.pending = (if (added.isEmpty && removed.isEmpty) = true then none
        else some (added, removed)) → pendingAdded u = added ∧ pendingRemoved u = removed := by
      intro u hu
      rw [pendingAdded, pendingRemoved, hu]
      split
      · next hem =>
        rw [Bool.and_eq_true, List.isEmpty_iff, List.isEmpty_iff] at hem
        rw [hem.1, hem.2]
        exact ⟨rfl, rfl⟩
      · exact ⟨rfl, rfl⟩
    refine ⟨hn, ?_, h.del_nodup, h.unregistered, fun hr id => ?_⟩
    · rw [(hpe _ rfl).2]
      exact hdi
    · have hba := h.balance hr id
      have ho := hdf id
      rw [(hpe _ rfl).1, (hpe _ rfl).2]
      simp only [pendingAdded, pendingRemoved, hp, getD_none, occurs_nil] at hba
      simp only [occurs] at hba ho ⊢
      omega
  -- notify
  next added removed hp =>
    have ha : pendingAdded s = added := by rw [pendingAdded, hp]; rfl
    have hre : pendingRemoved s = removed := by rw [pendingRemoved, hp]; rfl
    split at he <;> cases he
    · next hr =>
      refine ⟨h.nodup, nodup_nil, ?_, fun h => absurd hr (by simp_all), fun _ id => ?_⟩
      · intro batch hbt
        change batch ∈ send s.delChan removed at hbt
        rw [send] at hbt
        split at hbt
        · exact h.del_nodup batch hbt
        · rcases mem_append.1 hbt with hbt | hbt
          · exact h.del_nodup batch hbt
          · rw [mem_singleton.1 hbt, ← hre]
            exact h.pending_nodup
      · have hba := h.balance hr id
        rw [ha, hre] at hba
        simp only [occurs_flatten_send, pendingAdded, pendingRemoved, getD_none, occurs_nil]
        omega
    · next hr => exact ⟨h.nodup, nodup_nil, h.del_nodup, h.unregistered, fun h => absurd h hr⟩
  -- watch
  next hr =>
    rw [Bool.not_eq_true] at hr
    obtain ⟨hs, had, hde, hbl⟩ := h.unregistered hr
    have hp : s.pending = none := hok
    refine ⟨h.nodup, h.pending_nodup, h.del_nodup, fun h => (nomatch h), fun _ id => ?_⟩
    simp only [had, hde, hbl, pendingAdded, pendingRemoved, hp, getD_none, flatten_nil, occurs_nil]
    split
    · next hem => simp [List.isEmpty_iff.1 hem]
    · simp
  -- sendSnapshot
  next instances hs =>
    refine ⟨h.nodup, h.pending_nodup, h.del_nodup, fun hr => ?_, fun hr id => ?_⟩
    · rw [(h.unregistered hr).1] at hs
      cases hs
    · have hba := h.balance hr id
      rw [hs] at hba
      simp only [getD_some, getD_none, flatten_append, flatten_singleton,
        occurs_append, occurs_nil, pendingAdded, pendingRemoved] at hba ⊢
      omega
  -- takeAdded
  next batch rest hc =>
    refine ⟨h.nodup, h.pending_nodup, h.del_nodup, fun hr => ?_, fun hr id => ?_⟩
    · rw [(h.unregistered hr).2.1] at hc
      cases hc
    · have hba := h.balance hr id
      rw [hc] at hba
      simp only [flatten_cons, occurs_append, pendingAdded, pendingRemoved] at hba ⊢
      omega
  -- takeRemoved
  next batch rest hc =>
    refine ⟨h.nodup, h.pending_nodup, fun b hb => ?_, fun hr => ?_, fun hr id => ?_⟩
    · exact h.del_nodup b (hc ▸ mem_cons_of_mem _ hb)
    · rw [(h.unregistered hr).2.2.1] at hc
      cases hc
    · have hba := h.balance hr id
      have hm : ∀ w ∈ batch, w.id ∈ s.balancer.map LLMInstance.id := by
        simpa [Orderly, hc] using hok
      have hrm := occurs_removeAll id batch s.balancer (h.del_nodup batch (hc ▸ mem_cons_self)) hm
      rw [hc] at hba
      simp only [flatten_cons, occurs_append, pendingAdded, pendingRemoved] at hba ⊢
      omega

/-- **Once the channels are drained the balancer has the resolver's list.** -/
theorem agrees_of_drained (cfg : Config) (s : State)
    (hrun : GuardedRun.Reaches (exec cfg) (Orderly cfg) State.start s) (hdrained : Drained s) :
    Agrees s := by
  have h : Balanced s := hrun.invariant balanced_start fun _ _ _ => balanced_step
  obtain ⟨hr, hp, hs, ha, hde⟩ := hdrained
  intro id
  have hb := h.balance hr id
  simp only [pendingAdded, pendingRemoved, hp, hs, ha, hde, getD_none,
    flatten_nil, occurs_nil, Nat.add_zero] at hb
  rw [← h.nodup.count]
  exact hb

/-! ### Runs -/

/-- A pod that announces one neutral instance. -/
def samplePod (name : String) : PodDiscoveryInfo where
  podName := name
  timestampMs := 0
  instances := [⟨.neutral, 1, "", name, 8000, "", 0, 0, 1⟩]

def sampleInstance (name : String) : LLMInstance :=
  toLLMInstance name ⟨.neutral, 1, "", name, 8000, "", 0, 0, 1⟩

def sampleConfig : Config := ⟨.all, 10000⟩

/-- The balancer registers with a resolver that knows one instance, which is later replaced. -/
def replacement : List Action :=
  [.refresh [some (samplePod "a")] 0 [], .notify, .watch, .sendSnapshot, .takeAdded,
    .refresh [some (samplePod "b")] 0 [sampleInstance "a"], .notify, .takeRemoved, .takeAdded]

theorem agrees_of_drained_replacement : ∃ s,
    GuardedRun.Reaches (exec sampleConfig) (Orderly sampleConfig) State.start s ∧ Drained s ∧ Agrees s := by
  have hru : ∃ s ∈ GuardedRun.runAll (exec sampleConfig) (Orderly sampleConfig) State.start replacement,
      Drained s := by
    unfold Drained
    decide +kernel
  obtain ⟨s, hs, hdr⟩ := GuardedRun.Reaches.of_exists hru
  exact ⟨s, hs, hdr, agrees_of_drained sampleConfig s hs hdr⟩

/-- An instance comes and goes, and the balancer looks at the removal first. -/
def overtaking : List Action :=
  [.watch, .refresh [some (samplePod "a")] 0 [], .notify, .refresh [] 0 [sampleInstance "a"], .notify,
    .takeRemoved, .takeAdded]

/-- **A removal that overtakes its addition is lost**: the balancer keeps an instance that is gone. -/
theorem overtaken_removal :
    ¬ ∀ (cfg : Config) (s : State), GuardedRun.Reaches (exec cfg) GuardedRun.free State.start s →
      Drained s → Agrees s := by
  intro h
  have hr : ∃ s ∈ GuardedRun.runAll (exec sampleConfig) GuardedRun.free State.start overtaking,
      Drained s ∧ s.balancer.map LLMInstance.id = ["a_dp0"] ∧ s.instances.map LLMInstance.id = [] := by
    unfold Drained
    decide +kernel
  obtain ⟨s, hs, hdr, hb, hi⟩ := GuardedRun.Reaches.of_exists hr
  have ha := h sampleConfig s hs hdr "a_dp0"
  rw [hb, hi] at ha
  exact absurd ha (by decide)

end Llumnix.Discovery
