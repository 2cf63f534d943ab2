/-
**Shards are processed under a lock, as long as it outlives the work.**

A worker takes the lock of a shard, moves the shard to `in_progress`, processes it, records it as completed,
and gives the lock back.  Another worker may take the lock over once it has run out.  Nothing extends a
shard lock, and the failover does not look at the shard again once it has the lock, so mutual exclusion
needs two conditions.

* `shard_processed_alone` — **no two workers process the same shard, and a completed shard is not processed
  again**;
* `locks_released_iff` — **when a worker gives back every lock that it gets**.
-/

import Llumnix.BatchDuty

namespace Llumnix.Batch

open GuardedRun Interaction Processes Function

variable {r : Remote} {now : Nat} {d d' : Duty} {t s : String} {codec : Codec} {worker : Option Worker}
  {x : Except String r.Val} {σ : System}
variable {expiration : Nat} {l : Lock Worker} {c : Cmd} {w : World} {γ : Gateway}

/-! ### Locks of shards -/

def Remote.writesShardLock : Remote → Bool
  | .acquireShardLock .. | .acquireOrRecoverShardLock .. | .releaseShardLock .. => true
  | _ => false

theorem shardLocks_effect (h : r.writesShardLock = false) (w : World) :
    (effect w r).shardLocks = w.shardLocks := by
  cases r <;> first | rfl | cases h
  all_goals
    simp only [effect]
    split <;> rfl

theorem shardLocks_setShardLock (w : World) (taskID shardID t s : String) (lock : Option (Lock Worker)) :
    (w.setShardLock taskID shardID lock).shardLocks t s
      = if t = taskID ∧ s = shardID then lock else w.shardLocks t s := by
  by_cases ht : t = taskID
  · subst ht
    by_cases hs : s = shardID
    · subst hs
      simp [World.setShardLock]
    · simp [World.setShardLock, hs]
  · simp [World.setShardLock, ht]

/-- The lock of the shard is this worker's, and it is too early to take it over. -/
def World.HeldBy (w : World) (worker : Option Worker) (taskID shardID : String) : Prop :=
  ∃ l, w.shardLocks taskID shardID = some l ∧ some l.owner = worker ∧ ttlSeconds w.now l ≠ 0

theorem live_of_ttlSeconds {O : Type} {l : Lock O} (h : ttlSeconds now l ≠ 0) :
    live now (some l) = some l := by
  have hlt : now < l.deadline := by
    unfold ttlSeconds at h
    omega
  simp [live, hlt]

theorem ttlSeconds_fresh (now : Nat) (worker : Worker) :
    ttlSeconds now ⟨worker, now + defaultLockExpiration⟩ ≠ 0 := by
  simp only [ttlSeconds, defaultLockExpiration]
  omega

theorem setNX_of_ttlSeconds (worker : Worker) (h : ttlSeconds now l ≠ 0) :
    setNX now (some l) worker expiration = some l := by
  rw [setNX, live_of_ttlSeconds h]

theorem recover_of_ttlSeconds {worker : Worker} (h : ttlSeconds now l ≠ 0) (hne : l.owner ≠ worker) :
    recover now (some l) worker expiration = (some l, false) := by
  rw [recover, live_of_ttlSeconds h]
  simp [hne, h]

/-! ### What workers rely on -/

/-- The worker relies on the shard being in progress. -/
def Duty.Busy (d : Duty) (taskID shardID : String) : Prop :=
  d = .recovered taskID shardID ∨ d.Processing taskID shardID

theorem Duty.Processing.window (h : d.Processing t s) : d.Window t s := by
  cases d <;> first | exact h | exact h.elim

theorem Duty.Busy.window (h : d.Busy t s) : d.Window t s := by
  rcases h with rfl | h
  · exact ⟨rfl, rfl⟩
  · exact h.window

/-- **The way into a window is a lock.** -/
theorem Duty.Moves.window (h : Moves codec worker d r x d') (hw : d'.Window t s) :
    d.Window t s ∨ r.writesShardLock = true := by
  cases h with
  | finish x hd =>
    left
    rcases hd with rfl | rfl <;> exact hw
  | _ => first | exact .inl hw | exact .inr rfl | exact hw.elim

theorem window_after {x : c.Resp} (hc : ∀ r, c ≠ .remote r) (hw : (d.after c x).Window t s) :
    d.Window t s := by
  cases c with
  | remote r => exact absurd rfl (hc r)
  | newUUID => cases d <;> exact hw
  | _ => exact hw

/-! ### Workers hold their locks -/

/-- **The lock of a shard is set as long as its worker relies on it.** -/
def HeldShards (w : World) (φ : Proc → Duty) : Prop :=
  ∀ i t s, (φ i).Window t s → w.HeldBy i.asWorker t s

section

variable {w w' : World} {φ : Proc → Duty} {i j : Proc} {t s : String}
variable {r : Remote}

theorem HeldShards.alone (h : HeldShards w φ) (hi : (φ i).Window t s) (hj : (φ j).Window t s) : i = j := by
  obtain ⟨l, hl, ho, -⟩ := h i t s hi
  obtain ⟨l', hl', ho', -⟩ := h j t s hj
  cases hl.symm.trans hl'
  exact eq_of_asWorker ho ho'

/-- Nothing happens to the locks, and the worker forgets about its own. -/
theorem HeldShards.forget (h : HeldShards w φ) (i : Proc) : HeldShards w (update φ i .idle) := by
  intro j t s hj
  rw [update_apply] at hj
  split at hj
  · exact hj.elim
  · exact h j t s hj

theorem heldBy_effect (hr : r.writesShardLock = false) (worker : Option Worker) :
    (effect w r).HeldBy worker t s ↔ w.HeldBy worker t s := by
  rw [World.HeldBy, shardLocks_effect hr, now_effect, World.HeldBy]

/-- **The lock of a worker survives what the others do.** -/
theorem HeldShards.others (h : HeldShards w φ) (ha : (φ i).AllowedRemote codec i.asWorker r)
    (hj : (φ j).Window t s) (hji : j ≠ i) : (effect w r).HeldBy j.asWorker t s := by
  cases hw : r.writesShardLock with
  | false => exact (heldBy_effect hw _).2 (h j t s hj)
  | true =>
  obtain ⟨l, hl, ho, ht⟩ := h j t s hj
  cases r with
  | acquireShardLock taskID shardID worker expiration =>
    refine ⟨l, ?_, ho, ht⟩
    rw [effect, shardLocks_setShardLock]
    split
    · next hs => rw [← hs.1, ← hs.2, hl, setNX_of_ttlSeconds worker ht]
    · exact hl
  | acquireOrRecoverShardLock taskID shardID worker expiration =>
    refine ⟨l, ?_, ho, ht⟩
    rw [effect, shardLocks_setShardLock]
    split
    · rename_i hs
      have hne : l.owner ≠ worker := by
        rintro rfl
        exact hji (eq_of_asWorker ho ha.2.1)
      rw [← hs.1, ← hs.2, hl, recover_of_ttlSeconds ht hne]
    · exact hl
  | releaseShardLock =>
    refine ⟨l, ?_, ho, ht⟩
    rw [effect, shardLocks_setShardLock, if_neg]
    · exact hl
    · rintro ⟨rfl, rfl⟩
      exact hji (h.alone hj ha.2)
  | _ => cases hw

theorem HeldShards.enter (h : HeldShards w φ) (codec : Codec) {d : Duty}
    (ha : (φ i).AllowedRemote codec i.asWorker r)
    (hl : ∀ t s, d.Window t s → (effect w r).HeldBy i.asWorker t s) :
    HeldShards (effect w r) (update φ i d) := by
  intro j t s hj
  rw [update_apply] at hj
  split at hj
  · next hji => exact hji ▸ hl t s hj
  · next hji => exact h.others ha hj hji

theorem recover_fst {now expiration : Nat} {lock : Option (Lock Worker)} {worker : Worker}
    (h : (recover now lock worker expiration).2 = true) :
    (recover now lock worker expiration).1 = some ⟨worker, now + expiration⟩ := by
  unfold recover at h ⊢
  split
  · rfl
  · split
    · rfl
    · split
      · rfl
      · simp_all

theorem HeldShards.step (h : HeldShards w φ) {c : Cmd} {ch : Choice} {x : c.Resp}
    (ha : (φ i).Allowed codec i.asWorker c) (hs : step w c ch = some (w', x)) :
    HeldShards w' (update φ i ((φ i).after c x)) := by
  cases c with
  | remote r =>
    have ha : (φ i).AllowedRemote codec i.asWorker r := ha
    cases hwr : r.writesShardLock with
    | false =>
      intro j t s hj
      have hb : (φ j).Window t s := by
        rw [update_apply] at hj
        split at hj
        · rename_i hji
          subst hji
          exact ((Duty.moves_afterRemote ha x).window hj).resolve_right (by simp [hwr])
        · exact hj
      rcases eq_or_eq_effect hs with rfl | rfl
      · exact h j t s hb
      · exact (heldBy_effect hwr _).2 (h j t s hb)
    | true =>
    cases r with
    | releaseShardLock =>
      rcases eq_or_eq_effect hs with rfl | rfl
      · exact h.forget i
      · exact h.enter codec ha fun _ _ hw => hw.elim
    | acquireShardLock taskID shardID worker =>
      obtain ⟨hi, hwo, rfl⟩ := id ha
      rw [hi]
      rcases step_remote hs with ⟨rfl, e, rfl⟩ | ⟨rfl, e, rfl⟩ | ⟨rfl, hx⟩
      · exact h.forget i
      · exact h.enter codec ha fun _ _ hw => hw.elim
      cases hx
      refine h.enter codec ha fun t s hw => ?_
      cases hf : w.shardLock taskID shardID <;> rw [hf] at hw
      · obtain ⟨rfl, rfl⟩ := hw
        refine ⟨_, ?_, hwo, ttlSeconds_fresh w.now worker⟩
        rw [effect, shardLocks_setShardLock, if_pos ⟨rfl, rfl⟩, setNX]
        rw [World.shardLock] at hf
        rw [hf]
      · exact hw.elim
    | acquireOrRecoverShardLock taskID shardID worker =>
      obtain ⟨hi, hwo, rfl⟩ := id ha
      rw [hi]
      rcases step_remote hs with ⟨rfl, e, rfl⟩ | ⟨rfl, e, rfl⟩ | ⟨rfl, hx⟩
      · exact h.forget i
      · exact h.enter codec ha fun _ _ hw => hw.elim
      cases hx
      refine h.enter codec ha fun t s hw => ?_
      cases ht : (recover w.now (w.shardLocks taskID shardID) worker defaultLockExpiration).2 <;>
        rw [ht] at hw
      · exact hw.elim
      · obtain ⟨rfl, rfl⟩ := hw
        refine ⟨_, ?_, hwo, ttlSeconds_fresh w.now worker⟩
        rw [effect, shardLocks_setShardLock, if_pos ⟨rfl, rfl⟩, recover_fst ht]
    | _ => cases hwr
  | newUUID =>
    obtain ⟨-, rfl, rfl⟩ := step_newUUID hs
    intro j t s hj
    rw [update_apply] at hj
    split at hj
    · next hji => exact hji ▸ h i t s (window_after (c := .newUUID) (fun _ hr => by cases hr) hj)
    · exact h j t s hj
  | _ =>
    cases hs
    rw [Duty.after, update_eq_self]
    exact h

end

/-! ### Shards being processed are in progress -/

/-- The task whose shard sets a command writes. -/
def Remote.shardSubject : Remote → Option String
  | .addShardToPendingList taskID _ | .moveShard taskID _ _ _ | .delShardInfo taskID _ _ => some taskID
  | _ => none

theorem shardSets_effect (h : r.shardSubject ≠ some t) : (effect w r).shardSets t = w.shardSets t := by
  have hne : ∀ t', some t' ≠ some t → t ≠ t' := fun t' ht heq => ht (heq ▸ rfl)
  cases r with
  | addShardToPendingList | moveShard | delShardInfo => exact update_of_ne (hne _ h) _ _
  | moveTaskAndUpdateStatus | appendObject =>
    simp only [effect]
    split <;> rfl
  | _ => rfl

theorem shardSets_moveShard (w : World) (t s : String) (fromStatus toStatus : ShardStatus) :
    (effect w (.moveShard t s fromStatus toStatus)).shardSets t
      = (moveScript (w.shardSets t) s fromStatus toStatus).1 :=
  update_self _ _ _

/-- The command takes over the lock of this shard. -/
def Cmd.takeover : Cmd → Option (String × String)
  | .remote (.acquireOrRecoverShardLock taskID shardID _ _) => some (taskID, shardID)
  | _ => none

/-- **The ways of becoming busy**: taking a lock over, and moving a pending shard. -/
theorem Duty.Moves.busy (h : Moves codec worker d r x d') (hb : d'.Busy t s) :
    d.Busy t s ∨ Cmd.takeover (.remote r) = some (t, s) ∨ r.shardSubject = some t := by
  cases h with
  | recover =>
    rcases hb with hb | hb
    · cases hb
      exact .inr (.inl rfl)
    · exact hb.elim
  | begin =>
    rcases hb with hb | ⟨rfl, rfl⟩
    · cases hb
    · exact .inr (.inr rfl)
  | resume =>
    rcases hb with hb | ⟨rfl, rfl⟩
    · cases hb
    · exact .inl (.inl rfl)
  | stay => exact .inl hb
  | _ =>
    rcases hb with hb | hb
    · cases hb
    · first | exact .inl (.inr hb) | exact hb.elim

/-- **Every shard of the task that a worker is busy with is in progress.** -/
def BusyShards (taskID : String) (w : World) (φ : Proc → Duty) : Prop :=
  ∀ i s, (φ i).Busy taskID s → s ∈ w.shardSets taskID .inProgress

section

variable {w w' : World} {φ : Proc → Duty} {i : Proc} {t : String}
variable {codec : Codec} {s : String} {ch : Choice}

theorem BusyShards.forget (h : BusyShards t w φ) (i : Proc) : BusyShards t w (update φ i .idle) := by
  intro j s hj
  rw [update_apply] at hj
  split at hj
  · exact hj.window.elim
  · exact h j s hj

/-- Who writes the shard sets of a task that nobody removes: workers that move their shards. -/
theorem moveShard_of_shardSubject {worker : Option Worker} (ha : d.AllowedRemote codec worker r)
    (hr : r.shardSubject = some t) (ho : ¬ d.Over t) :
    ∃ s, (d = .locked t s ∧ r = .moveShard t s .pending .inProgress) ∨
      (d = .counted t s ∨ d = .skipped t s) ∧ r = .moveShard t s .inProgress .completed := by
  cases r with
  | moveShard taskID shardID =>
    cases hr
    rcases ha with ⟨hd, rfl, rfl⟩ | ⟨hd, rfl, rfl⟩
    · exact ⟨shardID, .inl ⟨hd, rfl⟩⟩
    · exact ⟨shardID, .inr ⟨hd, rfl⟩⟩
  | delShardInfo =>
    cases hr
    exact absurd ha ho
  | addShardToPendingList => exact ha.elim
  | _ => cases hr

theorem mem_inProgress_of_begin {s' : String} (h : s' ∈ w.shardSets t .inProgress) :
    s' ∈ (effect w (.moveShard t s .pending .inProgress)).shardSets t .inProgress := by
  rw [shardSets_moveShard, mem_moveScript (by decide)]
  split
  · exact .inl rfl
  · exact h

theorem mem_inProgress_of_moved (h : answer w ch (.moveShard t s .pending .inProgress) = some (.ok ())) :
    s ∈ (effect w (.moveShard t s .pending .inProgress)).shardSets t .inProgress := by
  have hm : (moveScript (w.shardSets t) s .pending .inProgress).2 = true := by
    by_contra hf
    rw [answer, if_neg hf] at h
    cases h
  rw [moveScript_snd (by decide), decide_eq_true_eq] at hm
  rw [shardSets_moveShard, mem_moveScript (by decide), if_pos ⟨rfl, hm⟩]
  exact .inl rfl

theorem BusyShards.moveShard (hh : HeldShards w φ) (h : BusyShards t w φ) {x : Except String r.Val}
    (ha : (φ i).AllowedRemote codec i.asWorker r) (hr : r.shardSubject = some t)
    (ho : ¬ (φ i).Over t) (hs : Batch.step w (.remote r) ch = some (w', x)) :
    BusyShards t w' (update φ i ((φ i).afterRemote r x)) := by
  intro j s' hj
  rw [update_apply] at hj
  obtain ⟨s, ⟨hi, rfl⟩ | ⟨hi, rfl⟩⟩ := moveShard_of_shardSubject ha hr ho
  · split at hj
    · -- the mover itself
      rw [hi] at hj
      rcases step_remote hs with ⟨-, e, rfl⟩ | ⟨-, e, rfl⟩ | ⟨rfl, hx⟩
      · rcases hj with hj | hj <;> cases hj
      · rcases hj with hj | hj <;> cases hj
      · rcases x with e | ⟨⟩
        · rcases hj with hj | hj <;> cases hj
        · rcases hj with hj | ⟨-, rfl⟩
          · cases hj
          · exact mem_inProgress_of_moved hx
    · rcases eq_or_eq_effect hs with rfl | rfl
      · exact h j s' hj
      · exact mem_inProgress_of_begin (h j s' hj)
  · split at hj
    · rcases hj with hj | hj <;> cases hj
    rename_i hji
    -- whoever completes a shard is alone with it
    have hne : s' ≠ s := by
      rintro rfl
      refine hji (hh.alone hj.window ?_)
      rcases hi with hi | hi <;> rw [hi] <;> exact ⟨rfl, rfl⟩
    rcases eq_or_eq_effect hs with rfl | rfl
    · exact h j s' hj
    · rw [shardSets_moveShard, mem_moveScript_of_ne hne]
      exact h j s' hj

theorem busy_newUUID {uuid : String} (h : (d.after .newUUID uuid).Busy t s) : d.Busy t s := by
  cases d <;> first | exact h | (rcases h with h | h <;> cases h)

/-- **Every command keeps it so**, if it takes over no shard that is not in progress, and removes no shards of
the task. -/
theorem BusyShards.step (hh : HeldShards w φ) (h : BusyShards t w φ) {c : Cmd} {x : c.Resp}
    (ha : (φ i).Allowed codec i.asWorker c)
    (ht : ∀ s, c.takeover = some (t, s) → s ∈ w.shardSets t .inProgress) (ho : ¬ (φ i).Over t)
    (hst : Batch.step w c ch = some (w', x)) : BusyShards t w' (update φ i ((φ i).after c x)) := by
  cases c with
  | remote r =>
    have ha : (φ i).AllowedRemote codec i.asWorker r := ha
    by_cases hs : r.shardSubject = some t
    · exact h.moveShard hh ha hs ho hst
    have hse : w'.shardSets t = w.shardSets t := by
      rcases eq_or_eq_effect hst with rfl | rfl
      · rfl
      · exact shardSets_effect hs
    intro j s hj
    rw [hse]
    rw [update_apply] at hj
    split at hj
    · rcases (Duty.moves_afterRemote ha x).busy hj with hb | hta | hsu
      · exact h i s hb
      · exact ht s hta
      · exact absurd hsu hs
    · exact h j s hj
  | newUUID =>
    obtain ⟨-, rfl, rfl⟩ := step_newUUID hst
    intro j s hj
    rw [update_apply] at hj
    split at hj
    · exact h i s (busy_newUUID hj)
    · exact h j s hj
  | _ =>
    cases hst
    rw [Duty.after, update_eq_self]
    exact h

end

/-! ### Workers only -/

/-- The goroutine is finalizing a task. -/
def Duty.Finalizes : Duty → Bool
  | .picked _ | .holding _ | .moved _ | .loaded .. | .listed .. | .keyed .. | .named .. | .collecting _
  | .ending .. => true
  | _ => false

theorem Duty.Finalizing.finalizes (h : d.Finalizing t) : d.Finalizes = true := by
  rcases h with h | ⟨keys, rfl⟩
  · cases d <;> first | rfl | exact h.elim
  · rfl

theorem Duty.Moves.finalizes (h : Moves codec worker d r x d') (hd' : d'.Finalizes = true) :
    d.Finalizes = true ∨ worker = none := by
  cases h with
  | pick hw => exact .inr hw
  | giveUpInputs x hd | giveUpOutputs x hd => exact .inl hd.finalizes
  | _ => first | exact .inl hd' | cases hd'

theorem finalizes_after {x : c.Resp} (ha : d.Allowed codec worker c)
    (h : (d.after c x).Finalizes = true) : d.Finalizes = true ∨ worker = none := by
  cases c with
  | remote => exact (Duty.moves_afterRemote ha x).finalizes h
  | newUUID => cases d <;> exact .inl h
  | _ => exact .inl h

/-- No shard of a task is in two of its sets. -/
def World.ShardsApart (w : World) : Prop :=
  ∀ t s st st', s ∈ w.shardSets t st → s ∈ w.shardSets t st' → st = st'

structure ShardInvariant (w : World) (φ : Proc → Duty) : Prop where
  held : HeldShards w φ
  busy : ∀ t, BusyShards t w φ
  apart : w.ShardsApart
  workers : ∀ i, (φ i).Finalizes = false

section

variable {w w' : World} {φ : Proc → Duty} {i : Proc}
variable {c : Cmd} {ch : Choice}

theorem ShardInvariant.not_over (h : ShardInvariant w φ) (i : Proc) (t : String) : ¬ (φ i).Over t := by
  intro ho
  have hf := Duty.Finalizing.finalizes (.inr ho)
  rw [h.workers i] at hf
  cases hf

/-- What is completed stays completed when shards are begun or completed. -/
theorem mem_completed_moveScript {sets : ShardStatus → Finset String} {s s' : String}
    {fromStatus toStatus : ShardStatus} (hne : fromStatus ≠ toStatus)
    (hf : fromStatus ≠ .completed) (hs : s ∈ sets .completed) :
    s ∈ (moveScript sets s' fromStatus toStatus).1 .completed := by
  rw [mem_moveScript hne]
  split
  · next hm => exact .inr ⟨hf.symm, hm.1 ▸ hs⟩
  · exact hs

/-- **What happens to the shard sets of a task** that nobody removes: a worker begins or completes a
shard. -/
theorem shardSets_step {worker : Option Worker} {d : Duty} {x : c.Resp} {t : String}
    (ha : d.Allowed codec worker c) (ho : ¬ d.Over t) (hst : step w c ch = some (w', x)) :
    w'.shardSets t = w.shardSets t ∨ ∃ s,
      d = .locked t s ∧ w'.shardSets t = (moveScript (w.shardSets t) s .pending .inProgress).1 ∨
      (d = .counted t s ∨ d = .skipped t s) ∧
        w'.shardSets t = (moveScript (w.shardSets t) s .inProgress .completed).1 := by
  cases c with
  | remote r =>
    rcases eq_or_eq_effect hst with rfl | rfl
    · exact .inl rfl
    · by_cases hs : r.shardSubject = some t
      · obtain ⟨s, ⟨hd, rfl⟩ | ⟨hd, rfl⟩⟩ := moveShard_of_shardSubject ha hs ho
        · exact .inr ⟨s, .inl ⟨hd, shardSets_moveShard w t s _ _⟩⟩
        · exact .inr ⟨s, .inr ⟨hd, shardSets_moveShard w t s _ _⟩⟩
      · exact .inl (shardSets_effect hs)
  | newUUID =>
    obtain ⟨-, rfl, rfl⟩ := step_newUUID hst
    exact .inl rfl
  | _ =>
    cases hst
    exact .inl rfl

theorem ShardInvariant.step (h : ShardInvariant w φ) {x : c.Resp} (hi : i.asWorker ≠ none)
    (ha : (φ i).Allowed codec i.asWorker c)
    (ht : ∀ t s, c.takeover = some (t, s) → s ∈ w.shardSets t .inProgress)
    (hs : step w c ch = some (w', x)) : ShardInvariant w' (update φ i ((φ i).after c x)) := by
  constructor
  · exact h.held.step ha hs
  · exact fun t => (h.busy t).step h.held ha (ht t) (h.not_over i t) hs
  · intro t
    rcases shardSets_step ha (h.not_over i t) hs with
      hse | ⟨s, ⟨-, hse⟩ | ⟨-, hse⟩⟩ <;> rw [hse]
    · exact h.apart t
    · exact unique_moveScript (by decide) (h.apart t)
    · exact unique_moveScript (by decide) (h.apart t)
  · intro j
    rw [update_apply]
    split
    · rw [Bool.eq_false_iff]
      intro hf
      rcases finalizes_after ha hf with hb | hn
      · rw [h.workers i] at hb
        cases hb
      · exact hi hn
    · exact h.workers j

theorem ShardInvariant.forget (h : ShardInvariant w φ) (i : Proc) :
    ShardInvariant w (update φ i .idle) where
  held := h.held.forget i
  busy t := (h.busy t).forget i
  apart := h.apart
  workers j := by
    rw [update_apply]
    split
    · rfl
    · exact h.workers j

end

/-! ### All runs of workers -/

def workersOnly : Event → Bool
  | .spawn i _ | .run i _ | .crash i => i.asWorker.isSome
  | .env _ => true

/-- **The guard**: no shard lock comes near its deadline under its worker, and a lock is only taken over while
the shard is in progress. -/
def ShardsGuarded (γ : Gateway) (σ : System) : Event → Prop
  | .env ms => ∀ i t s, (σ.phase (duties γ) i).Window t s → ∀ l ∈ σ.store.shardLocks t s,
      ttlSeconds (σ.store.now + ms) l ≠ 0
  | .run i _ => ∀ c ∈ σ.next i, ∀ shard ∈ c.takeover, shard.2 ∈ σ.store.shardSets shard.1 .inProgress
  | _ => True

theorem HeldShards.tick (h : HeldShards σ.store (σ.phase (duties γ))) {ms : Nat}
    (hok : ShardsGuarded γ σ (.env ms)) (ht : tick σ.store ms = some w) :
    HeldShards w (σ.phase (duties γ)) := by
  cases ht
  intro i t s hi
  obtain ⟨l, hl, ho, -⟩ := h i t s hi
  exact ⟨l, hl, ho, hok i t s hi l hl⟩

theorem onDuty_of_asWorker {i : Proc} (h : i.asWorker.isSome = true) : i.onDuty = true := by
  cases i <;> first | rfl | cases h

/-- **The invariant of the workers holds in every guarded run of theirs**, and what is completed stays
completed. -/
theorem shardInvariant_of_reaches {σ₀ : System}
    (h : Reaches (exec (machine γ)) (fun σ e => workersOnly e = true ∧ ShardsGuarded γ σ e) σ₀ σ)
    (h₀ : σ₀.Obeys (duties γ)) (hin : ShardInvariant σ₀.store (σ₀.phase (duties γ))) :
    ShardInvariant σ.store (σ.phase (duties γ)) ∧
      ∀ t s, s ∈ σ₀.store.shardSets t .completed → s ∈ σ.store.shardSets t .completed := by
  refine phase_invariant (Q := fun w φ => ShardInvariant w φ ∧
      ∀ t s, s ∈ σ₀.store.shardSets t .completed → s ∈ w.shardSets t .completed)
    (fun _ i j hok => onDuty_follows γ (onDuty_of_asWorker hok.1) j) ?_ ?_ ?_ ?_ h h₀
    ⟨hin, fun _ _ hs => hs⟩
  · rintro σ i c ch w x hok hn ha hst ⟨hi, hc⟩
    refine ⟨hi.step (Option.isSome_iff_ne_none.1 hok.1) ha
      (fun t s hta => hok.2 c hn (t, s) hta) hst, fun t s hs => ?_⟩
    have hs := hc t s hs
    rcases shardSets_step ha (hi.not_over i t) hst with
      hse | ⟨s', ⟨-, hse⟩ | ⟨-, hse⟩⟩ <;> rw [hse]
    · exact hs
    · exact mem_completed_moveScript (by decide) (by decide) hs
    · exact mem_completed_moveScript (by decide) (by decide) hs
  · rintro w φ i - ⟨hi, hc⟩
    exact ⟨hi.forget i, hc⟩
  · rintro σ i - ⟨hi, hc⟩
    exact ⟨hi.forget i, hc⟩
  · rintro σ ms w hok ht ⟨hi, hc⟩
    have hh := hi.held.tick hok.2 ht
    cases ht
    exact ⟨⟨hh, hi.busy, hi.apart, hi.workers⟩, hc⟩

/-- **No two workers process the same shard, and a completed shard is not processed again**, in every guarded
run of workers. -/
theorem shard_processed_alone (γ : Gateway) {w₀ : World} (h₀ : w₀.ShardsApart) {σ σ' : System}
    (hσ : Reaches (exec (machine γ)) (fun σ e => workersOnly e = true ∧ ShardsGuarded γ σ e) (.idle w₀) σ)
    (hσ' : Reaches (exec (machine γ)) (fun σ e => workersOnly e = true ∧ ShardsGuarded γ σ e) σ σ') :
    (∀ i j t s, (σ.phase (duties γ) i).Processing t s → (σ.phase (duties γ) j).Processing t s → i = j) ∧
      ∀ t s, s ∈ σ.store.shardSets t .completed → ∀ i, ¬ (σ'.phase (duties γ) i).Processing t s := by
  have ho : σ.Obeys (duties γ) := follows_of_reaches
    (fun _ i j hok => onDuty_follows γ (onDuty_of_asWorker hok.1) j) hσ (obeys_idle w₀)
  have hiv := (shardInvariant_of_reaches hσ (obeys_idle w₀)
    ⟨fun _ _ _ hw => hw.elim, fun _ _ _ hb => hb.window.elim, h₀, fun _ => rfl⟩).1
  obtain ⟨hi', hc⟩ := shardInvariant_of_reaches hσ' ho hiv
  constructor
  · intro i j t s hi hj
    exact hiv.held.alone hi.window hj.window
  · intro t s hs i hi
    -- it would be in progress and completed
    have hin := hi'.busy t i s (.inr hi)
    cases hi'.apart t s _ _ hin (hc t s hs)

theorem sampleSharded_apart : sampleSharded.ShardsApart := by
  intro t s st st' hst hst'
  have hp : ∀ st, s ∈ sampleSharded.shardSets t st → st = .pending := by
    intro st hst
    by_contra hne
    simp [sampleSharded, hne] at hst
  rw [hp st hst, hp st' hst']

instance (d : Duty) (t s : String) : Decidable (d.Processing t s) := by
  cases d <;> first
    | exact inferInstanceAs (Decidable (_ = t ∧ _ = s))
    | exact inferInstanceAs (Decidable False)

/-- A stronger guard that can be evaluated: no time passes. -/
def ShardsTimeless (σ : System) : Event → Prop
  | .env _ => False
  | .run i _ => i.asWorker.isSome = true ∧ ∀ c ∈ σ.next i, ∀ shard ∈ c.takeover,
      shard.2 ∈ σ.store.shardSets shard.1 .inProgress
  | .spawn i _ | .crash i => i.asWorker.isSome = true

instance (σ : System) : (e : Event) → Decidable (ShardsTimeless σ e) := by
  rintro (_ | _ | _ | _) <;> (dsimp only [ShardsTimeless]; infer_instance)

theorem guarded_of_shardsTimeless (γ : Gateway) {e : Event} (h : ShardsTimeless σ e) :
    workersOnly e = true ∧ ShardsGuarded γ σ e := by
  cases e with
  | env => exact h.elim
  | run => exact h
  | spawn | crash => exact ⟨h, trivial⟩

/-- Two workers process the two shards of a task, and one of them completes its shard. -/
theorem shard_processed_alone_sampleSharded :
    ∃ σ σ' : System, (σ.phase (duties sampleGateway) (.worker "a" 0)).Processing "batch_1" "0" ∧
      (∀ j, (σ.phase (duties sampleGateway) j).Processing "batch_1" "0" → .worker "a" 0 = j) ∧
      "0" ∈ σ'.store.shardSets "batch_1" .completed ∧
      ∀ i, ¬ (σ'.phase (duties sampleGateway) i).Processing "batch_1" "0" := by
  have hru : ∃ σ ∈ runAll (exec (machine sampleGateway)) ShardsTimeless (.idle sampleSharded)
      (takeShard "a" "0" ++ takeShard "b" "1"),
        ∃ σ' ∈ runAll (exec (machine sampleGateway)) ShardsTimeless σ (finishShard "a" ["2", "3"]),
          (σ.phase (duties sampleGateway) (.worker "a" 0)).Processing "batch_1" "0" ∧
            "0" ∈ σ'.store.shardSets "batch_1" .completed := by decide
  obtain ⟨σ, hσ, σ', hσ', hp, hc⟩ := hru
  have hr := (Reaches.of_runAll _ hσ).mono fun _ _ => guarded_of_shardsTimeless sampleGateway
  have hr' := (Reaches.of_runAll _ hσ').mono fun _ _ => guarded_of_shardsTimeless sampleGateway
  have hb := shard_processed_alone sampleGateway sampleSharded_apart hr hr'
  have ha := shard_processed_alone sampleGateway sampleSharded_apart (hr.trans hr') .refl
  exact ⟨σ, σ', hp, fun j hj => hb.1 _ j _ _ hp hj, hc, ha.2 _ _ hc⟩

/-- **A completed shard is processed again.** A worker lists the shards in progress; another one completes the
first of them; the first worker takes over the free lock and only checks the task. -/
theorem stale_failover_processes_again : ¬ ∀ (γ : Gateway) (w₀ : World), w₀.ShardsApart → ∀ σ σ' : System,
      Reaches (exec (machine γ)) (fun _ e => workersOnly e = true) (.idle w₀) σ →
        Reaches (exec (machine γ)) (fun _ e => workersOnly e = true) σ σ' →
          (∀ i j t s, (σ.phase (duties γ) i).Processing t s → (σ.phase (duties γ) j).Processing t s →
            i = j) ∧
            ∀ t s, s ∈ σ.store.shardSets t .completed → ∀ i, ¬ (σ'.phase (duties γ) i).Processing t s := by
  intro ha
  have hr : ∃ σ ∈ runAll (exec (machine sampleGateway)) (fun _ e => workersOnly e = true)
      (.idle sampleSharded) (takeShard "a" "0" ++ takeShard "b" "1" ++ listInProgress "c" ++
        finishShard "a" ["2", "3"]),
          ∃ σ' ∈ runAll (exec (machine sampleGateway)) (fun _ e => workersOnly e = true) σ
            (takeOverListed "c"), "0" ∈ σ.store.shardSets "batch_1" .completed ∧
              (σ'.phase (duties sampleGateway) (.worker "c" 0)).Processing "batch_1" "0" := by decide
  obtain ⟨σ, hσ, σ', hσ', hc, hp⟩ := hr
  exact (ha sampleGateway _ sampleSharded_apart σ σ' (.of_runAll _ hσ) (.of_runAll _ hσ')).2 _ _ hc _ hp

/-! ### Locks that are given back -/

/-- The shard locks a worker knows it holds during a call, if giving one back succeeds.  An acquire that is
answered with an error may have been executed; nobody gives that lock back, and it expires. -/
structure LockBook where
  held : List (String × String)
  /-- The lock of a shard of this task has been taken over, and the task has not been found in progress
  since. -/
  unchecked : Option String

def LockBook.after (b : LockBook) : (c : Cmd) → c.Resp → LockBook
  | .remote (.acquireShardLock t s _ _), .ok true => { b with held := (t, s) :: b.held }
  | .remote (.acquireOrRecoverShardLock t s _ _), .ok true => ⟨(t, s) :: b.held, some t⟩
  | .remote (.releaseShardLock t s _), _ => ⟨b.held.erase (t, s), none⟩
  | .remote (.taskInSet .inProgress t), .ok true => { b with unchecked := b.unchecked.filter (· ≠ t) }
  | _, _ => b

def lockBook : Protocol Cmd Cmd.Resp LockBook where
  start := ⟨[], none⟩
  allowed _ _ := True
  advance := LockBook.after
  final _ := True

/-- What the duty of a worker says about its locks. -/
def Duty.Has (b : LockBook) : Duty → Prop
  | .idle => b = ⟨[], none⟩
  | .recovered t s => b = ⟨[(t, s)], some t⟩
  | .locked t s | .working t s | .cleared t s | .writing t s _ _ _ | .counted t s | .skipped t s
  | .finished t s => b = ⟨[(t, s)], none⟩
  | _ => True

section

variable {b : LockBook} {d : Duty} {codec : Codec} {worker : Option Worker}

theorem Duty.Has.remote {r : Remote} (h : d.Has b) (ha : d.AllowedRemote codec worker r)
    (hq : r.taskLevel = false) (x : Except String r.Val) :
    (d.afterRemote r x).Has (b.after (.remote r) x) := by
  cases r with
  | acquireShardLock | acquireOrRecoverShardLock =>
    obtain ⟨rfl, -, -⟩ := ha
    obtain rfl : b = _ := h
    rcases x with e | _ | _ <;> exact rfl
  | releaseShardLock =>
    obtain ⟨-, hw⟩ := ha
    cases d <;> try exact hw.elim
    all_goals
      obtain ⟨rfl, rfl⟩ := hw
      obtain rfl : b = _ := h
      simp [LockBook.after, Has, afterRemote]
  | taskInSet status t =>
    rcases x with e | _ | _ <;> cases status <;> try exact h
    all_goals
      cases d with
      | recovered t' =>
        obtain rfl : b = _ := h
        by_cases ht : t' = t <;> simp [LockBook.after, Has, afterRemote, sees, ht]
      | _ => first | trivial | (obtain rfl : b = _ := h; rfl)
  | _ =>
    have hm := Duty.moves_afterRemote ha x
    change Duty.Has b _
    generalize Duty.afterRemote _ _ _ = d' at hm ⊢
    cases hm <;> first | exact h | trivial | (rename_i hd; rcases hd with rfl | rfl <;> exact h)

theorem Duty.Has.step {c : Cmd} (h : d.Has b) (ha : d.Allowed codec worker c)
    (hq : c.taskLevel = false) (x : c.Resp) : (d.after c x).Has (b.after c x) := by
  cases c with
  | remote => exact h.remote ha hq x
  | newUUID => cases d <;> exact h
  | _ => exact h

end

/-- **A call of `processTaskShards` ends without a shard lock exactly if it has taken over none without
finding the task in progress.** -/
theorem locks_released_iff (γ : Gateway) (worker : Worker) (taskID : String) :
    (processTaskShards γ worker taskID).Follows lockBook
      (fun b _ => b.held = [] ↔ b.unchecked = none) lockBook.start := by
  refine Prog.Follows.mono ?_ (Prog.Follows.track (I := fun g b => g.1.Has b) (fun _ _ => trivial)
    (fun _ _ _ x ha h => h.step ha.1 ha.2 x)
    (duty_processTaskShards.prod (quiet_processTaskShards γ worker taskID)) rfl)
  rintro b _ ⟨⟨d, ⟨⟩⟩, ⟨hd, -⟩, hb⟩
  rcases hd with rfl | ⟨s, rfl⟩
  all_goals
    obtain rfl : b = _ := hb
    simp

/-- **A lock that is kept**: the worker takes over the lock of a shard, and the task has just been cancelled.
-/
theorem cancelled_after_takeover : ¬ ∀ (γ : Gateway) (worker : Worker) (taskID : String),
    (processTaskShards γ worker taskID).Follows lockBook (fun b _ => b.held = []) lockBook.start := by
  intro h
  have hp := ((((h sampleGateway ("a", 0) "t").2 (.error "")).2 (.ok ["0"])).2 (.ok true)).2 (.ok false)
  cases hp

end Llumnix.Batch
