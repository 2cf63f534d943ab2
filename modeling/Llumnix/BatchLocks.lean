/-
**The task lock keeps critical sections apart, as long as it outlives them.**

A task lock is a Redis key with an expiration.  Nothing extends it while a task is validated or finalized,
because the goroutines that should do so wait on a ticker that has been stopped.  So mutual exclusion is a
question of time, and is stated with the condition it needs.

* `Exclusive.step`, `Exclusive.tick` — **mutual exclusion** is kept by every command, through crashes and
  lost answers, and by time under that guard;
* `task_locks_owned` — under the guard no goroutine deletes or prolongs the lock of another one.
-/

import Llumnix.BatchMembership

namespace Llumnix.Batch

open GuardedRun Interaction Processes Function Option

variable {r : Remote} {w : World} {taskID t : String} {g : Phase} {status : BatchTaskStatus}
variable {O : Type} {now expiration : Nat} {σ : System}

/-! ### What commands do to task locks -/

def Remote.writesTaskLock : Remote → Bool
  | .acquireTaskLock .. | .releaseTaskLock .. | .extendTaskLock .. => true
  | _ => false

theorem taskLocks_effect (h : r.writesTaskLock = false) (w : World) :
    (effect w r).taskLocks = w.taskLocks := by
  cases r <;> first | rfl | cases h
  all_goals
    simp only [effect]
    split <;> rfl

theorem taskLock_effect (h : r.writesTaskLock = false) (w : World) (taskID : String) :
    (effect w r).taskLock taskID = w.taskLock taskID := by
  rw [World.taskLock, now_effect, taskLocks_effect h, World.taskLock]

theorem taskLock_setTaskLock (w : World) (taskID t : String) (lock : Option (Lock String)) :
    (w.setTaskLock taskID lock).taskLock t = if t = taskID then live w.now lock else w.taskLock t := by
  simp only [World.taskLock, World.setTaskLock, update_apply]
  split <;> rfl

theorem live_setNX (lock : Option (Lock O)) (owner : O) (h : 0 < expiration) :
    (live now (setNX now lock owner expiration)).isSome := by
  unfold setNX
  split
  · rename_i l hl
    rw [live, filter_eq_some_iff] at hl
    simp [live, hl.2]
  · simp [live, h]

theorem live_extendLock [DecidableEq O] {lock : Option (Lock O)} (owner : O) (h : 0 < expiration)
    (hlo : (live now lock).isSome) : (live now (extendLock now lock owner expiration)).isSome := by
  obtain ⟨l, hl⟩ := isSome_iff_exists.1 hlo
  have hli : now < l.deadline := by
    rw [live, filter_eq_some_iff] at hl
    simpa using hl.2
  rw [extendLock, hl]
  by_cases ho : l.owner = owner
  · simp [live, ho, h]
  · simp [live, ho, hli]

theorem taskLock_isSome_effect (ha : g.AllowedRemote r)
    (hr : ∀ instanceID, r ≠ .releaseTaskLock taskID instanceID) (h : (w.taskLock taskID).isSome) :
    ((effect w r).taskLock taskID).isSome := by
  cases hw : r.writesTaskLock with
  | false => rwa [taskLock_effect hw]
  | true =>
  cases r with
  | acquireTaskLock =>
    rw [effect, taskLock_setTaskLock]
    split
    · exact live_setNX _ _ ha.2
    · exact h
  | extendTaskLock t instanceID expiration =>
    rw [effect, taskLock_setTaskLock]
    split
    · next ht => exact live_extendLock _ ha (ht ▸ h)
    · exact h
  | releaseTaskLock t instanceID =>
    rw [effect, taskLock_setTaskLock, if_neg]
    · exact h
    · rintro rfl
      exact hr instanceID rfl
  | _ => cases hw

/-! ### Entering a critical section -/

theorem Phase.Holding.inside (h : g.Holding taskID) : g.Inside taskID := by
  rcases h with rfl | ⟨status, rfl⟩ <;> exact rfl

theorem Phase.Free.not_inside (h : g.Free) (taskID : String) : ¬ g.Inside taskID := h.final taskID

theorem Phase.Inside.eq {t' : String} (h : g.Inside t) (h' : g.Inside t') : t = t' := by
  cases g <;> first | exact h.elim | exact h.symm.trans h'

theorem reads_inside (h : (g.reads taskID status).Inside t) : g.Inside t := by
  unfold Phase.reads at h
  split at h
  · rename_i hr
    rw [hr.1]
    exact h
  · exact h

theorem draw_inside {uuid : String} (h : (g.draw uuid).Inside t) : g.Inside t := by
  cases g <;> exact h

theorem inside_of_move (h : g.Holding taskID ∨ g = .changed taskID status) : g.Inside taskID := by
  rcases h with h | rfl
  · exact h.inside
  · exact rfl

/-- **The only way in is to be answered that the lock was free.** -/
theorem inside_afterRemote {x : Except String r.Val} (ha : g.AllowedRemote r)
    (h : (g.afterRemote r x).Inside t) : g.Inside t ∨ ∃ (instanceID : String) (expiration : Nat),
      r = .acquireTaskLock t instanceID expiration := by
  unfold Phase.afterRemote at h
  split at h
  · obtain ⟨uuid, rfl, -⟩ := ha
    exact h.elim
  · exact h.elim
  · exact h.elim
  · exact h.elim
  · cases h
    exact .inr ⟨_, _, rfl⟩
  · exact h.elim
  · exact .inl (reads_inside h)
  · exact .inl (reads_inside h)
  · obtain rfl : g = _ := ha
    exact .inl h
  · rcases ha with rfl | ⟨rfl, -⟩
    · rw [if_pos rfl] at h
      exact .inl h
    · rw [if_neg (fun heq => by cases heq)] at h
      split at h <;> exact .inl h
  · cases h
    exact .inl (inside_of_move ha.1)
  · cases h
    exact .inl (inside_of_move ha.1)
  · obtain ⟨rfl, -⟩ := ha
    exact .inl h
  · exact .inl h

/-! ### Mutual exclusion -/

/-- **Whoever is inside finds the lock set, and is alone.** -/
structure Exclusive (w : World) (φ : Proc → Phase) : Prop where
  held : ∀ i taskID, (φ i).Inside taskID → (w.taskLock taskID).isSome
  alone : ∀ i j taskID, (φ i).Inside taskID → (φ j).Inside taskID → i = j

section

variable {w w' : World} {φ : Proc → Phase} {i : Proc} {g : Phase}
variable {instanceID : String}

theorem Exclusive.of_inside (h : Exclusive w φ) (hg : ∀ t, g.Inside t → (φ i).Inside t)
    (hl : ∀ j t, (update φ i g j).Inside t → (w.taskLock t).isSome →
      (w'.taskLock t).isSome) : Exclusive w' (update φ i g) := by
  have hb : ∀ j t, (update φ i g j).Inside t → (φ j).Inside t := by
    intro j t hj
    rw [update_apply] at hj
    split at hj
    · next hji => exact hji ▸ hg t hj
    · exact hj
  constructor
  · intro j t hj
    exact hl j t hj (h.held j t (hb j t hj))
  · intro j j' t hj hj'
    exact h.alone j j' t (hb j t hj) (hb j' t hj')

theorem Exclusive.forget (h : Exclusive w φ) (i : Proc) : Exclusive w (update φ i .outside) :=
  h.of_inside (fun _ hin => hin.elim) fun _ _ _ hl => hl

theorem Exclusive.enter (h : Exclusive w φ) {expiration : Nat} (hi : (φ i).Free) (he : 0 < expiration)
    (hf : w.taskLock taskID = none) : Exclusive (effect w (.acquireTaskLock taskID instanceID expiration))
      (update φ i (.locked taskID)) := by
  have hn : ∀ j, ¬ (φ j).Inside taskID := fun j hj => by simpa [hf] using h.held j taskID hj
  have hc : ∀ j t, (update φ i (.locked taskID) j).Inside t → (j = i ∧ t = taskID) ∨ (φ j).Inside t := by
    intro j t hj
    rw [update_apply] at hj
    split at hj
    · next hji => exact .inl ⟨hji, hj.symm⟩
    · exact .inr hj
  constructor
  · intro j t hj
    rcases hc j t hj with ⟨-, rfl⟩ | hj
    · rw [effect, taskLock_setTaskLock, if_pos rfl]
      exact live_setNX _ _ he
    · exact taskLock_isSome_effect (g := φ i) ⟨hi, he⟩ (fun _ hr => by cases hr) (h.held j t hj)
  · intro j j' t hj hj'
    rcases hc j t hj with ⟨rfl, rfl⟩ | hin <;> rcases hc j' t hj' with ⟨rfl, ht⟩ | hin'
    · rfl
    · exact absurd hin' (hn j')
    · exact absurd (ht ▸ hin) (hn j)
    · exact h.alone j j' t hin hin'

/-- The goroutine leaves, and takes away the lock of its own section only. -/
theorem Exclusive.leave (h : Exclusive w φ) (hi : (φ i).Holding taskID) :
    Exclusive (effect w (.releaseTaskLock taskID instanceID)) (update φ i .outside) := by
  refine h.of_inside (fun _ hin => hin.elim) fun j t hj hl => ?_
  refine taskLock_isSome_effect (g := φ i) hi (fun _ hr => ?_) hl
  cases hr
  rw [update_apply] at hj
  split at hj
  · exact hj.elim
  · next hji => exact hji (h.alone j i taskID hj hi.inside)

theorem Exclusive.step (h : Exclusive w φ) {c : Cmd} {ch : Choice} {x : c.Resp}
    (ha : (φ i).Allowed c) (hst : step w c ch = some (w', x)) :
    Exclusive w' (update φ i ((φ i).after c x)) := by
  cases c with
  | remote r =>
    -- a command that neither enters nor releases
    have hs : (∀ t, ((φ i).afterRemote r x).Inside t → (φ i).Inside t) →
        (∀ t instanceID, r ≠ .releaseTaskLock t instanceID) →
          Exclusive w' (update φ i ((φ i).afterRemote r x)) := by
      intro hin hr
      refine h.of_inside hin fun j t _ hl => ?_
      rcases eq_or_eq_effect hst with rfl | rfl
      · exact hl
      · exact taskLock_isSome_effect ha (hr t) hl
    cases hw : r.writesTaskLock with
    | false =>
      refine hs (fun t hin => ?_) fun _ _ hr => by subst hr; cases hw
      rcases inside_afterRemote ha hin with hin | ⟨_, _, rfl⟩
      · exact hin
      · cases hw
    | true =>
    cases r with
    | releaseTaskLock =>
      rcases eq_or_eq_effect hst with rfl | rfl
      · exact h.forget i
      · exact h.leave ha
    | acquireTaskLock taskID =>
      rcases step_remote hst with ⟨rfl, e, rfl⟩ | ⟨rfl, e, rfl⟩ | ⟨rfl, hx⟩
      · exact hs (fun _ hin => hin) fun _ _ hr => by cases hr
      · exact hs (fun _ hin => hin) fun _ _ hr => by cases hr
      · cases hx
        cases hf : w.taskLock taskID with
        | some =>
          rw [hf] at hs
          exact hs (fun _ hin => hin) fun _ _ hr => by cases hr
        | none => exact h.enter ha.1 ha.2 hf
    | extendTaskLock =>
      exact hs (fun _ hin => hin) fun _ _ hr => by cases hr
    | _ => cases hw
  | newUUID =>
    obtain ⟨-, rfl, rfl⟩ := step_newUUID hst
    exact h.of_inside (fun t hin => draw_inside hin) fun _ _ _ hl => hl
  | _ =>
    cases hst
    rw [Phase.after, update_eq_self]
    exact ⟨h.held, h.alone⟩

end

/-- **The guard**: no lock expires under a goroutine that works under it. -/
def LocksKept (σ : System) : Event → Prop
  | .env ms => ∀ i taskID, (σ.phase custodies i).Inside taskID →
      (live (σ.store.now + ms) (σ.store.taskLocks taskID)).isSome
  | _ => True

/-- Everything but the passing of time. -/
def timeless : Event → Bool
  | .env _ => false
  | _ => true

theorem locksKept_of_timeless {e : Event} (h : timeless e = true) : LocksKept σ e := by
  cases e with
  | env => cases h
  | _ => trivial

theorem Exclusive.tick (h : Exclusive σ.store (σ.phase custodies)) {ms : Nat}
    (hok : LocksKept σ (.env ms)) (ht : tick σ.store ms = some w) : Exclusive w (σ.phase custodies) := by
  cases ht
  exact ⟨hok, h.alone⟩

theorem exclusive_idle (w : World) : Exclusive w fun _ => .outside :=
  ⟨fun _ _ hin => hin.elim, fun _ _ _ hin => hin.elim⟩

/-! ### One task at a time -/

/-- The task whose hash or membership a command writes. -/
def Remote.subject : Remote → Option String
  | .hsetTask task => some task.id
  | .saddPending taskID | .updateTaskFailure taskID _ _ | .updateTaskFields taskID _
  | .moveTaskAndUpdateStatus taskID _ _ _ | .moveTask taskID _ _ => some taskID
  | _ => none

theorem tasks_effect (h : r.subject ≠ some taskID) : (effect w r).tasks taskID = w.tasks taskID := by
  have hne : ∀ t, some t ≠ some taskID → taskID ≠ t := fun t ht heq => ht (heq ▸ rfl)
  cases r with
  | hsetTask | updateTaskFailure | updateTaskFields => exact update_of_ne (hne _ h) _ _
  | moveTaskAndUpdateStatus =>
    simp only [effect]
    split
    · exact update_of_ne (hne _ h) _ _
    · rfl
  | appendObject =>
    simp only [effect]
    split <;> rfl
  | _ => rfl

/-- The membership of a task is written by commands about that task. -/
theorem mem_taskSets_effect (h : r.subject ≠ some taskID) :
    taskID ∈ (effect w r).taskSets status ↔ taskID ∈ w.taskSets status := by
  have hne : ∀ t, some t ≠ some taskID → taskID ≠ t := fun t ht heq => ht (heq ▸ rfl)
  cases hw : r.writesSets with
  | false => rw [taskSets_effect hw]
  | true =>
  cases r with
  | saddPending =>
    rw [mem_taskSets_saddPending]
    exact ⟨fun ht => ht.resolve_left fun ht => hne _ h ht.1, .inr⟩
  | moveTaskAndUpdateStatus =>
    rw [taskSets_move]
    exact mem_moveScript_of_ne (hne _ h)
  | moveTask => exact mem_moveScript_of_ne (hne _ h)
  | _ => cases hw

/-- **Who writes a task**: its creator, before it is in any set, or whoever is inside its section. -/
theorem drawing_or_inside (ha : g.AllowedRemote r) (h : r.subject = some taskID) :
    (∃ uuid, g.Drawing uuid ∧ taskID = "batch_" ++ uuid) ∨ g.Inside taskID := by
  cases r <;> cases h
  case hsetTask task =>
    obtain ⟨uuid, hg, hid, -⟩ := ha
    exact .inl ⟨uuid, .inl hg, hid⟩
  case saddPending =>
    obtain ⟨uuid, hg, hid⟩ := ha
    exact .inl ⟨uuid, .inr hg, hid⟩
  case updateTaskFailure =>
    obtain rfl : g = _ := ha
    exact .inr rfl
  case updateTaskFields =>
    rcases ha with rfl | ⟨rfl, -⟩ <;> exact .inr rfl
  case moveTaskAndUpdateStatus =>
    exact .inr (inside_of_move ha.1)
  case moveTask =>
    obtain ⟨rfl, -⟩ := ha
    exact .inr rfl

/-- **While somebody is inside the section of a task, nobody else touches the task.** -/
theorem Exclusive.untouched {φ : Proc → Phase} (h : Exclusive w φ) (hm : Membership w φ) {i j : Proc}
    (ha : (φ i).AllowedRemote r) (hme : w.Member taskID) (hj : (φ j).Inside taskID) (hji : j ≠ i) :
    r.subject ≠ some taskID := by
  intro hr
  rcases drawing_or_inside ha hr with ⟨uuid, hdr, rfl⟩ | hin
  · exact (hm.fresh i uuid hdr).2 hme
  · exact hji (h.alone j i taskID hj hin)

/-! ### Who changes a lock -/

/-- A step of the service, or of the keep-alive goroutine of a cancellation, which may extend the lock at any
time. -/
inductive LockEvent
  | service (e : Event)
  | keepAlive (instanceID taskID : String)

def lockExec (γ : Gateway) (σ : System) : LockEvent → Option System
  | .service e => exec (machine γ) σ e
  | .keepAlive instanceID taskID =>
    some { σ with store := effect σ.store (.extendTaskLock taskID instanceID defaultLockExpiration) }

/-- The goroutine a step belongs to; the keep-alive goroutine belongs to its reactor. -/
def LockEvent.actor : LockEvent → Option Proc
  | .service (.spawn i _) | .service (.run i _) | .service (.crash i) => some i
  | .service (.env _) => none
  | .keepAlive instanceID _ => some (.canceller instanceID)

def Cmd.extended : Cmd → Option String
  | .remote (.extendTaskLock taskID _ _) => some taskID
  | _ => none

def LockEvent.extended (σ : System) : LockEvent → Option String
  | .service (.run i _) => (σ.next i).bind Cmd.extended
  | .service _ => none
  | .keepAlive _ taskID => some taskID

/-- **The guard**: no lock expires under a goroutine that works under it, and a lock is extended only while
its reactor does. -/
def LocksRespected (σ : System) (e : LockEvent) : Prop :=
  (∀ f, e = .service f → LocksKept σ f) ∧
    ∀ i ∈ e.actor, ∀ taskID ∈ e.extended σ, (σ.phase custodies i).Inside taskID

/-- **A lock belongs to the goroutine that works under it**: no step of another one deletes, prolongs or
replaces it. -/
structure Owned (γ : Gateway) (σ : System) : Prop where
  alone : ∀ i j taskID, (σ.phase custodies i).Inside taskID → (σ.phase custodies j).Inside taskID → i = j
  kept : ∀ e σ', LocksRespected σ e → lockExec γ σ e = some σ' → ∀ i ∈ e.actor, ∀ j taskID, j ≠ i →
    (σ.phase custodies j).Inside taskID → σ'.store.taskLock taskID = σ.store.taskLock taskID

theorem live_setNX_of_isSome {lock : Option (Lock O)} (owner : O) (h : (live now lock).isSome) :
    live now (setNX now lock owner expiration) = live now lock := by
  obtain ⟨l, hl⟩ := isSome_iff_exists.1 h
  have hd : now < l.deadline := by
    rw [live, filter_eq_some_iff] at hl
    simpa using hl.2
  rw [setNX, hl]
  simp [live, hd]

section

variable {φ : Proc → Phase} {i j : Proc}

theorem Exclusive.taskLock_effect (h : Exclusive w φ) (ha : (φ i).AllowedRemote r) (hj : (φ j).Inside t)
    (hne : j ≠ i) (hx : ∀ taskID ∈ (Cmd.remote r).extended, (φ i).Inside taskID) :
    (effect w r).taskLock t = w.taskLock t := by
  have ho : ∀ taskID, (φ i).Inside taskID → t ≠ taskID := by
    rintro _ hi rfl
    exact hne (h.alone j i t hj hi)
  cases hw : r.writesTaskLock with
  | false => exact Batch.taskLock_effect hw w t
  | true =>
  cases r with
  | acquireTaskLock taskID instanceID expiration =>
    rw [effect, taskLock_setTaskLock]
    split
    · rename_i ht
      subst ht
      exact live_setNX_of_isSome instanceID (h.held j t hj)
    · rfl
  | releaseTaskLock taskID =>
    rw [effect, taskLock_setTaskLock, if_neg (ho taskID (Phase.Holding.inside ha))]
  | extendTaskLock taskID =>
    rw [effect, taskLock_setTaskLock, if_neg (ho taskID (hx taskID rfl))]
  | _ => cases hw

theorem Exclusive.owned (γ : Gateway) (h : Exclusive σ.store (σ.phase custodies)) (hob : σ.Obeys custodies) :
    Owned γ σ := by
  refine ⟨h.alone, fun e σ' hok hex i hi j t hne hj => ?_⟩
  cases e with
  | keepAlive instanceID =>
    cases hi
    cases hex
    have hp : 0 < defaultLockExpiration := by decide
    refine h.taskLock_effect (i := .canceller instanceID) hp hj hne fun _ ht => ?_
    exact hok.2 _ rfl _ ht
  | service f =>
  cases f with
  | run k ch =>
    cases hi
    simp only [lockExec, exec] at hex
    split at hex <;> try cases hex
    rename_i c next hc
    obtain ⟨⟨w, x⟩, hs, rfl⟩ := map_eq_some_iff.1 hex
    have hn : σ.next i = some c := by rw [Config.next, hc]
    cases c with
    | remote =>
      rcases eq_or_eq_effect hs with rfl | rfl
      · rfl
      · refine h.taskLock_effect (hob.cmd hc).1 hj hne fun _ ht => hok.2 i rfl _ ?_
        rw [LockEvent.extended, hn]
        exact ht
    | newUUID =>
      obtain ⟨-, -, rfl⟩ := step_newUUID hs
      rfl
    | _ =>
      cases hs
      rfl
  | spawn | crash =>
    simp only [lockExec, exec] at hex
    split at hex <;> cases hex
    rfl
  | env => cases hi

end

/-- **Locks are owned**, in every run under the guard, through crashes and lost answers. -/
theorem task_locks_owned (γ : Gateway) {w₀ : World} {σ : System}
    (h : Reaches (lockExec γ) LocksRespected (.idle w₀) σ) : Owned γ σ := by
  suffices hb : σ.Obeys custodies ∧ Exclusive σ.store (σ.phase custodies) from hb.2.owned γ hb.1
  refine h.invariant (I := fun σ => σ.Obeys custodies ∧ Exclusive σ.store (σ.phase custodies))
    ⟨obeys_idle w₀, exclusive_idle w₀⟩ ?_
  rintro σ e σ' ⟨hk, -⟩ hex ⟨hob, hin⟩
  cases e with
  | service f =>
    refine ⟨obeys_step (fun _ i j _ => program_follows γ i j) (hk f rfl) hex hob, ?_⟩
    refine phase_invariant (fun _ i j _ => program_follows γ i j) ?_ ?_ ?_ ?_
      (Reaches.refl.step (hk f rfl) hex) hob hin
    · exact fun _ _ _ _ _ _ _ _ ha hs hi => hi.step ha hs
    · exact fun _ _ i _ hi => hi.forget i
    · exact fun _ i _ hi => hi.forget i
    · exact fun _ _ _ hok ht hi => hi.tick hok ht
  | keepAlive =>
    cases hex
    have hl : 0 < defaultLockExpiration := by decide
    refine ⟨hob, fun i t hi => ?_, hin.alone⟩
    exact taskLock_isSome_effect (g := .outside) hl (fun _ hr => by cases hr) (hin.held i t hi)

theorem task_locks_owned_validator : ∃ σ : System,
    (σ.phase custodies (.validator "a")).Inside "batch_1" ∧ Owned sampleGateway σ := by
  have hr : ∃ σ ∈ runAll (lockExec sampleGateway) (fun σ e => e.extended σ = none ∧ e.actor.isSome = true)
      (.idle (sampleWorld []))
      ((sampleCreation ++ turn (.validator "a") .turn [{ pick := "batch_1" }, {}]).map .service),
        σ.phase custodies (.validator "a") = .locked "batch_1" := by decide
  obtain ⟨σ, hσ, hl⟩ := Reaches.of_exists hr
  refine ⟨σ, by rw [hl]; rfl, task_locks_owned sampleGateway (hσ.mono ?_)⟩
  rintro σ e ⟨hx, ha⟩
  refine ⟨?_, fun i _ t ht => by rw [hx] at ht; cases ht⟩
  rintro (_ | _ | _ | ms) rfl
  · trivial
  · trivial
  · trivial
  · cases ha

/-- **A late release deletes the lock of another reactor of the same gateway**: both locks hold the same
value. -/
theorem late_release_deletes_lock : ¬ ∀ (γ : Gateway) (w₀ : World) (σ σ₁ σ₂ : System) (i j : Proc)
    (ch ch' : Choice) (taskID : String), Reaches (lockExec γ) free (.idle w₀) σ →
      -- `j` acquires the lock, and then `i` makes a step
      σ.store.taskLock taskID = none → lockExec γ σ (.service (.run j ch)) = some σ₁ →
      (σ₁.phase custodies j).Inside taskID → i ≠ j → lockExec γ σ₁ (.service (.run i ch')) = some σ₂ →
      σ₂.store.taskLock taskID = σ₁.store.taskLock taskID := by
  intro ha
  have hr : ∃ σ ∈ runAll (lockExec sampleGateway) free (.idle (sampleWorld []))
      ((sampleCreation ++ turn (.validator "a") .turn [{ pick := "batch_1" }] ++ listExpired "a" ++
        steps (.expirer "a") (plain 4) ++ [.env defaultLockExpiration] : List Event).map .service),
      ∃ σ₁ ∈ lockExec sampleGateway σ (.service (.run (.validator "a") {})),
        ∃ σ₂ ∈ lockExec sampleGateway σ₁ (.service (.run (.expirer "a") {})),
          σ.store.taskLock "batch_1" = none ∧ σ₁.phase custodies (.validator "a") = .locked "batch_1" ∧
            (σ₁.store.taskLock "batch_1").isSome ∧ σ₂.store.taskLock "batch_1" = none := by decide
  obtain ⟨σ, hσ, σ₁, h₁, σ₂, h₂, hn, hl, hs, hd⟩ := Reaches.of_exists hr
  have hk := ha _ _ σ σ₁ σ₂ (.expirer "a") (.validator "a") _ _ "batch_1" hσ hn h₁ (by rw [hl]; rfl)
    (by decide) h₂
  rw [← hk, hd] at hs
  cases hs

end Llumnix.Batch
