/-
**The hash of a task names the set that holds it.**

The status of a task is kept twice: in its hash and as its membership in a status set.  The stamped move
writes both in one script.  A failed validation, the end of a validation and the end of a finalization write
the hash first and move the task afterwards.  A goroutine that dies in between leaves a hash that names
another set, and later moves, which take their source from the hash, miss the task for good.

* `status_names_set` — **whenever the lock of a task is free, its hash names exactly the set it is in**, in
  every run under this guard.
-/

import Llumnix.BatchPlacement

namespace Llumnix.Batch

open GuardedRun Interaction Processes Function Option

variable {g : Phase} {taskID : String}

/-! ### The two records of a status -/

/-- The status in the hash of a task. -/
def World.statusOf (w : World) (taskID : String) : Option BatchTaskStatus :=
  (w.tasks taskID).map BatchTask.status

section

variable {w : World} {taskID : String}

theorem statusOf_effect {r : Remote} (h : r.subject ≠ some taskID) :
    (effect w r).statusOf taskID = w.statusOf taskID := by
  rw [World.statusOf, tasks_effect h, World.statusOf]

theorem statusOf_isSome_effect (r : Remote) (h : (w.statusOf taskID).isSome) :
    ((effect w r).statusOf taskID).isSome := by
  by_cases hs : r.subject = some taskID
  · rw [World.statusOf, isSome_map] at h
    cases r with
    | hsetTask =>
      cases hs
      simp [World.statusOf, effect]
    | updateTaskFailure | updateTaskFields =>
      cases hs
      simpa [World.statusOf, effect] using h
    | moveTaskAndUpdateStatus =>
      cases hs
      simp only [World.statusOf, effect]
      split <;> simpa using h
    | saddPending | moveTask => simpa [World.statusOf, effect] using h
    | _ => cases hs
  · rwa [statusOf_effect hs]

theorem statusOf_move {fromSet toSet : BatchTaskStatus} {now : Int} (hne : fromSet ≠ toSet)
    (hs : (w.statusOf taskID).isSome) :
    (effect w (.moveTaskAndUpdateStatus taskID fromSet toSet now)).statusOf taskID
      = if taskID ∈ w.taskSets fromSet then some toSet else w.statusOf taskID := by
  rw [World.statusOf, tasks_move hne]
  split
  · rw [World.statusOf, isSome_map] at hs
    obtain ⟨task, ht⟩ := isSome_iff_exists.1 hs
    simp [ht, stampStatus_status]
  · rfl

end

/-! ### The invariant -/

structure Agreement (w : World) (φ : Proc → Phase) : Prop where
  agree : ∀ taskID status, taskID ∈ w.taskSets status → (∀ i, ¬ (φ i).Unsettled taskID) →
    w.statusOf taskID = some status
  /-- A task in a set has a hash. -/
  stored : ∀ taskID, w.Member taskID → (w.statusOf taskID).isSome
  /-- A new task is written to its hash before it is added. -/
  hashed : ∀ i uuid, φ i = .hashed uuid → w.statusOf ("batch_" ++ uuid) = some .pending

theorem Phase.Unsettled.inside (h : g.Unsettled taskID) : g.Inside taskID := by
  cases g <;> first | exact h | exact h.elim

theorem Phase.Holding.settled {t : String} (h : g.Holding taskID) : ¬ g.Unsettled t := by
  rcases h with rfl | ⟨status, rfl⟩ <;> exact fun h => h

theorem Phase.Unsettled.reads {t : String} {status : BatchTaskStatus} (h : g.Unsettled taskID) :
    (g.reads t status).Unsettled taskID := by
  unfold Phase.reads
  split
  · rename_i hr
    rw [hr.1] at h
    exact h.elim
  · exact h

theorem unsettled_afterRemote {r : Remote} {x : Except String r.Val} (ha : g.AllowedRemote r)
    (hs : r.subject ≠ some taskID) (h : g.Unsettled taskID) : (g.afterRemote r x).Unsettled taskID := by
  -- in an unsettled phase, nothing but the move is left to do
  have hm : ∀ t st, (g.Holding t ∨ g = .changed t st) → t = taskID := by
    rintro t st (hg | rfl)
    · exact absurd h hg.settled
    · exact h
  unfold Phase.afterRemote
  split
  iterate 4
    obtain ⟨uuid, rfl, -⟩ := ha
    exact h.elim
  · exact absurd h.inside (ha.1.not_inside taskID)
  · exact absurd h (Phase.Holding.settled ha)
  · exact h.reads
  · exact h.reads
  · obtain rfl : g = _ := ha
    exact h.elim
  · rcases ha with rfl | ⟨rfl, -⟩ <;> exact h.elim
  · exact absurd (congrArg some (hm _ _ ha.1)) hs
  · exact absurd (congrArg some (hm _ _ ha.1)) hs
  · obtain ⟨rfl, -⟩ := ha
    exact absurd (congrArg some h) hs
  · exact h

/-- What the goroutine has written to the hash is not the set the task is in. -/
def Ahead (w : World) (g : Phase) (taskID : String) : Prop :=
  g.Unsettled taskID ∧ ∀ status, taskID ∈ w.taskSets status → w.statusOf taskID ≠ some status

/-- What the guard asks of a command: no mark is refused, nor a move while the hash is ahead, and no
completion is lost. -/
def Paired (w : World) (g : Phase) : Cmd → Choice → Prop
  | .remote (.updateTaskFailure ..), ch => ch.refused = false
  | .remote (.updateTaskFields _ task), ch => task.status = .completed → ch.lost = false
  | .remote (.moveTaskAndUpdateStatus taskID _ _ _), ch => Ahead w g taskID → ch.refused = false
  | .remote (.moveTask taskID _ _), ch => Ahead w g taskID → ch.refused = false
  | _, _ => True

section

variable {w w' : World} {φ : Proc → Phase} {i : Proc}
variable {r : Remote} {taskID : String} {ch : Choice} {x : Except String r.Val}

theorem statusOf_of_not_ahead (hu : w.Unique) {status : BatchTaskStatus} (hg : g.Unsettled taskID)
    (ha : ¬ Ahead w g taskID) (ht : taskID ∈ w.taskSets status) : w.statusOf taskID = some status := by
  by_contra hs
  refine ha ⟨hg, fun st hst => ?_⟩
  rwa [hu _ _ _ hst ht]

/-- A move is executed, unless the hash is not ahead. -/
theorem eq_effect_or_not_ahead (hsp : step w (.remote r) ch = some (w', x))
    (hp : Ahead w g taskID → ch.refused = false) : w' = effect w r ∨ w' = w ∧ ¬ Ahead w g taskID := by
  by_cases ha : Ahead w g taskID
  · exact .inl (eq_effect_of_not_refused hsp (hp ha))
  · exact (eq_or_eq_effect hsp).symm.imp_right fun hw => ⟨hw, ha⟩

theorem Agreement.hashed_effect (h : Agreement w φ) (hk : Kept w φ) (ha : (φ i).AllowedRemote r)
    (hse : (Cmd.remote r).selfMove = false) {j : Proc} {uuid : String} (hj : φ j = .hashed uuid)
    (hji : j ≠ i) : (effect w r).statusOf ("batch_" ++ uuid) = some .pending := by
  have hf := (hk.membership.fresh j uuid (.inr hj)).2
  have hb := h.hashed j uuid hj
  have hi := hk.custodial.holds i
  -- its creator is the only one that works with this UUID
  have hal : ∀ u, (φ i).Drawing u → "batch_" ++ uuid ≠ "batch_" ++ u := by
    intro u hdr hu
    rw [String.append_right_inj] at hu
    exact hji (hk.membership.drawn_inj j i uuid (.inr hj) (hu ▸ hdr))
  by_cases hs : r.subject = some ("batch_" ++ uuid)
  · cases r with
    | hsetTask =>
      obtain ⟨u, hg, hid, -⟩ := ha
      exact absurd ((some.inj hs).symm.trans hid) (hal u (.inl hg))
    | saddPending =>
      obtain ⟨u, hg, hid⟩ := ha
      exact absurd ((some.inj hs).symm.trans hid) (hal u (.inr hg))
    | updateTaskFailure =>
      cases hs
      have hg : φ i = .placed _ .validating := ha
      rw [hg] at hi
      exact absurd ⟨_, hi⟩ hf
    | updateTaskFields =>
      cases hs
      rcases ha with hg | ⟨hg, -⟩ <;> rw [hg] at hi <;> exact absurd ⟨_, hi⟩ hf
    | moveTaskAndUpdateStatus t fromSet toSet =>
      cases hs
      have hne : fromSet ≠ toSet := by simpa [Cmd.selfMove] using hse
      rw [statusOf_move hne (hb ▸ rfl), if_neg fun hm => hf ⟨_, hm⟩]
      exact hb
    | moveTask => exact hb
    | _ => cases hs
  · rw [statusOf_effect hs]
    exact hb

theorem Agreement.stored_effect (h : Agreement w φ) (ha : (φ i).AllowedRemote r)
    (hs : (Cmd.remote r).selfMove = false) (hm : (effect w r).Member taskID) :
    ((effect w r).statusOf taskID).isSome := by
  by_cases had : r = .saddPending taskID
  · subst had
    obtain ⟨uuid, hg, rfl⟩ := ha
    exact isSome_of_eq_some (h.hashed i uuid hg)
  · refine statusOf_isSome_effect r (h.stored taskID ?_)
    cases hw : r.writesSets with
    | false => rwa [World.Member, taskSets_effect hw] at hm
    | true =>
    cases r with
    | saddPending =>
      obtain ⟨st, hst⟩ := hm
      rcases mem_taskSets_saddPending.1 hst with ⟨rfl, -⟩ | hst
      · exact absurd rfl had
      · exact ⟨st, hst⟩
    | moveTaskAndUpdateStatus t fromSet toSet =>
      rw [World.Member, taskSets_move] at hm
      exact (exists_mem_moveScript (by simpa [Cmd.selfMove] using hs) taskID).1 hm
    | moveTask t fromSet toSet =>
      exact (exists_mem_moveScript (by simpa [Cmd.selfMove] using hs) taskID).1 hm
    | _ => cases hw

theorem settled_of_inside (hx : Exclusive w φ) (hi : (φ i).Inside taskID)
    (hs : ¬ (φ i).Unsettled taskID) (j : Proc) : ¬ (φ j).Unsettled taskID := by
  intro hj
  obtain rfl := hx.alone j i taskID hj.inside hi
  exact hs hj

theorem eq_of_mem_moveScript (hu : w.Unique) {fromSet toSet status : BatchTaskStatus}
    (hne : fromSet ≠ toSet) (hm : taskID ∈ w.taskSets fromSet)
    (ht : taskID ∈ (moveScript w.taskSets taskID fromSet toSet).1 status) : status = toSet := by
  rw [mem_moveScript hne, if_pos ⟨rfl, hm⟩] at ht
  rcases ht with rfl | ⟨hf, hst⟩
  · rfl
  · exact absurd (hu _ _ _ hst hm) hf

/-- After a move the hash names the set the task is in, if it did for a task that was not there to move. -/
theorem statusOf_moved (hu : w.Unique) (hs : ∀ t, w.Member t → (w.statusOf t).isSome)
    {fromSet toSet status : BatchTaskStatus} {now : Int} (hne : fromSet ≠ toSet)
    (ht : taskID ∈ (effect w (.moveTaskAndUpdateStatus taskID fromSet toSet now)).taskSets status)
    (ha : taskID ∉ w.taskSets fromSet → taskID ∈ w.taskSets status → w.statusOf taskID = some status) :
    (effect w (.moveTaskAndUpdateStatus taskID fromSet toSet now)).statusOf taskID = some status := by
  rw [taskSets_move] at ht
  by_cases hm : taskID ∈ w.taskSets fromSet
  · rw [statusOf_move hne (hs _ ⟨_, hm⟩), if_pos hm, eq_of_mem_moveScript hu hne hm ht]
  · rw [moveScript_of_notMem hne hm] at ht
    rw [statusOf_move hne (hs _ ⟨_, ht⟩), if_neg hm]
    exact ha hm ht

section

variable (h : Agreement w φ)
include h

/-- **Agreement after a command about the task itself.** -/
theorem Agreement.agree_subject (hk : Kept w φ) (ha : (φ i).AllowedRemote r)
    (hsl : (Cmd.remote r).selfMove = false) (hp : Paired w (φ i) (.remote r) ch)
    (hsp : step w (.remote r) ch = some (w', x)) {status : BatchTaskStatus}
    (hs : r.subject = some taskID) (ht : taskID ∈ w'.taskSets status)
    (hse : ¬ ((φ i).afterRemote r x).Unsettled taskID) : w'.statusOf taskID = some status := by
  have hi := hk.custodial.holds i
  have hun := hk.membership.unique
  cases r with
  | hsetTask task =>
    cases hs
    obtain ⟨uuid, hg, hid, -⟩ := ha
    have hm : w.Member task.id := by
      rcases eq_or_eq_effect hsp with rfl | rfl <;> exact ⟨status, ht⟩
    exact absurd (hid ▸ hm) (hk.membership.fresh i uuid (.inl hg)).2
  | saddPending =>
    cases hs
    obtain ⟨uuid, hg, rfl⟩ := ha
    have hf := (hk.membership.fresh i uuid (.inr hg)).2
    rcases eq_or_eq_effect hsp with rfl | rfl
    · exact absurd ⟨status, ht⟩ hf
    · rcases mem_taskSets_saddPending.1 ht with ⟨-, rfl⟩ | hst
      · exact h.hashed i uuid hg
      · exact absurd ⟨status, hst⟩ hf
  | updateTaskFailure =>
    cases hs
    exact absurd rfl hse
  | updateTaskFields =>
    cases hs
    rcases ha with hg | ⟨hg, hc⟩
    · rw [Phase.afterRemote, if_pos hg] at hse
      exact absurd rfl hse
    rw [Phase.afterRemote, if_neg (by rw [hg]; exact fun heq => by cases heq)] at hse
    cases x with
    | ok => exact absurd rfl hse
    | error =>
      rcases eq_or_answer_of_not_lost hsp (hp hc) with rfl | ⟨-, han⟩
      · have hh : (φ i).Holding taskID := .inr ⟨_, hg⟩
        exact h.agree _ _ ht (settled_of_inside hk.exclusive hh.inside hh.settled)
      · cases han
  | moveTaskAndUpdateStatus t fromSet toSet =>
    cases hs
    have hne : fromSet ≠ toSet := by simpa [Cmd.selfMove] using hsl
    have hin := inside_of_move ha.1
    by_cases hu : (φ i).Unsettled taskID
    · rcases eq_effect_or_not_ahead hsp hp with rfl | ⟨rfl, hah⟩
      · rcases ha.1 with hg | hg
        · exact absurd hu hg.settled
        -- the task is where it was when its hash was written
        rw [hg] at hi
        exact statusOf_moved hun h.stored hne ht fun hm => absurd hi hm
      · exact statusOf_of_not_ahead hun hu hah ht
    · have hs' := settled_of_inside hk.exclusive hin hu
      rcases eq_or_eq_effect hsp with rfl | rfl
      · exact h.agree _ _ ht hs'
      · exact statusOf_moved hun h.stored hne ht fun _ hm => h.agree _ _ hm hs'
  | moveTask t fromSet toSet =>
    cases hs
    have hne : fromSet ≠ toSet := by simpa [Cmd.selfMove] using hsl
    obtain ⟨hg, -⟩ := ha
    rcases eq_effect_or_not_ahead hsp hp with rfl | ⟨rfl, hah⟩
    swap
    · exact statusOf_of_not_ahead hun (by rw [hg]; exact rfl) hah ht
    rw [hg] at hi
    rw [eq_of_mem_moveScript hun hne hi.1 ht]
    obtain ⟨task, hta⟩ := isSome_iff_exists.1 (isSome_map .. ▸ h.stored _ ⟨_, hi.1⟩)
    change (w.tasks taskID).map BatchTask.status = some toSet
    rw [hta, map_some, hi.2 task hta]
  | _ => cases hs

theorem Agreement.hashed_own (ha : (φ i).AllowedRemote r)
    (hst : step w (.remote r) ch = some (w', x)) {uuid : String}
    (hi : (φ i).afterRemote r x = .hashed uuid) : w'.statusOf ("batch_" ++ uuid) = some .pending := by
  rcases afterRemote_cases (φ i) r x with hg | hg | ⟨task, u, rfl, hx, hdr, hg⟩ | ⟨t, -, -, hg⟩ | ⟨t, hin⟩
  · -- it was written before, and this command is not about it
    have hb : φ i = .hashed uuid := hg.symm.trans hi
    rcases eq_or_eq_effect hst with rfl | rfl
    · exact h.hashed i uuid hb
    by_cases hs : r.subject = some ("batch_" ++ uuid)
    · rw [hb] at ha hi
      cases r with
      | hsetTask =>
        obtain ⟨u, hu, -⟩ := ha
        cases hu
      | saddPending | moveTaskAndUpdateStatus => cases x <;> cases hi
      | moveTask | updateTaskFailure => cases hi
      | updateTaskFields => rcases ha with hg | ⟨hg, -⟩ <;> cases hg
      | _ => cases hs
    · rw [statusOf_effect hs]
      exact h.hashed i uuid hb
  · cases hg.symm.trans hi
  · cases hg.symm.trans hi
    obtain ⟨v, hv, hid, hss⟩ := ha
    cases hdr.symm.trans hv
    rcases step_remote hst with ⟨-, e, rfl⟩ | ⟨-, e, rfl⟩ | ⟨rfl, -⟩
    · cases hx
    · cases hx
    · simp [World.statusOf, effect, ← hid, hss]
  · cases hg.symm.trans hi
  · rw [hi] at hin
    exact hin.elim

theorem Agreement.remote (hk : Kept w φ) (ha : (φ i).AllowedRemote r)
    (hsl : (Cmd.remote r).selfMove = false) (hp : Paired w (φ i) (.remote r) ch)
    (hst : step w (.remote r) ch = some (w', x)) : Agreement w' (update φ i ((φ i).afterRemote r x)) := by
  constructor
  · intro t st ht hse
    by_cases hs : r.subject = some t
    · refine h.agree_subject hk ha hsl hp hst hs ht ?_
      simpa using hse i
    have hb : ∀ j, ¬ (φ j).Unsettled t := by
      intro j hj
      have hj' := hse j
      rw [update_apply] at hj'
      split at hj'
      · next hji => exact hj' (unsettled_afterRemote ha hs (hji ▸ hj))
      · exact hj' hj
    rcases eq_or_eq_effect hst with rfl | rfl
    · exact h.agree t st ht hb
    · rw [statusOf_effect hs]
      exact h.agree t st ((mem_taskSets_effect hs).1 ht) hb
  · intro t ht
    rcases eq_or_eq_effect hst with rfl | rfl
    · exact h.stored t ht
    · exact h.stored_effect ha hsl ht
  · intro j uuid hj
    rw [update_apply] at hj
    split at hj
    · exact h.hashed_own ha hst hj
    · rename_i hji
      rcases eq_or_eq_effect hst with rfl | rfl
      · exact h.hashed j uuid hj
      · exact h.hashed_effect hk ha hsl hj hji

/-- The phase of a goroutine changes without anything being written or settled. -/
theorem Agreement.of_phase {g : Phase}
    (hu : ∀ t, (φ i).Unsettled t → g.Unsettled t) (hh : ∀ u, g ≠ .hashed u) :
    Agreement w (update φ i g) := by
  constructor
  · intro t st ht hs
    refine h.agree t st ht fun j hj => ?_
    have hj' := hs j
    rw [update_apply] at hj'
    split at hj'
    · next hji => exact hj' (hu t (hji ▸ hj))
    · exact hj' hj
  · exact h.stored
  · intro j uuid hj
    rw [update_apply] at hj
    split at hj
    · exact absurd hj (hh uuid)
    · exact h.hashed j uuid hj

theorem Agreement.forget (hu : w.Unique) (i : Proc) (hi : ∀ t, ¬ Ahead w (φ i) t) :
    Agreement w (update φ i .outside) := by
  refine ⟨fun t st ht hs => ?_, h.stored, fun j uuid hj => ?_⟩
  · by_cases hg : (φ i).Unsettled t
    · exact statusOf_of_not_ahead hu hg (hi t) ht
    · refine h.agree t st ht fun j hj => ?_
      have hji : j ≠ i := fun hji => hg (hji ▸ hj)
      exact hs j (by rwa [update_of_ne hji])
  · rw [update_apply] at hj
    split at hj
    · cases hj
    · exact h.hashed j uuid hj

theorem Agreement.step (hk : Kept w φ) {c : Cmd} {x : c.Resp}
    (ha : (φ i).Allowed c) (hse : c.selfMove = false) (hp : Paired w (φ i) c ch)
    (hs : step w c ch = some (w', x)) : Agreement w' (update φ i ((φ i).after c x)) := by
  cases c with
  | remote => exact h.remote hk ha hse hp hs
  | newUUID =>
    obtain ⟨-, rfl, rfl⟩ := step_newUUID hs
    have hw : Agreement { w with usedIDs := insert ch.uuid w.usedIDs } φ :=
      ⟨h.agree, h.stored, h.hashed⟩
    cases hg : φ i with
    | outside | drawn | hashed | added =>
      exact hw.of_phase (fun t ht => by rw [hg] at ht; exact ht.elim) fun _ heq => by cases heq
    | locked | placed | changed | marked =>
      exact hw.of_phase (fun t ht => by rwa [hg] at ht) fun _ heq => by cases heq
  | _ =>
    cases hs
    rw [Phase.after, update_eq_self]
    exact ⟨h.agree, h.stored, h.hashed⟩

end

end

/-! ### All runs -/

/-- **The guard**: whoever has written another status to the hash gets to move the task, locks outlive the
work, and no move goes from a set to itself. -/
def StatusKept (σ : System) (e : Event) : Prop :=
  LocksKept σ e ∧ match e with
    | .run i ch => ∀ c ∈ σ.next i, c.selfMove = false ∧ Paired σ.store (σ.phase custodies i) c ch
    | .crash i => ∀ taskID, ¬ Ahead σ.store (σ.phase custodies i) taskID
    | _ => True

theorem Paired.markDone {w : World} {c : Cmd} {ch : Choice} (h : Paired w g c ch) : MarkDone c ch := by
  intro hc
  cases c with
  | remote r =>
    cases r with
    | updateTaskFailure => exact h
    | _ => cases hc
  | _ => cases hc

theorem agreement_of_noTasks {w : World} (h : w.NoTasks) : Agreement w fun _ => .outside :=
  ⟨fun t st ht => absurd ⟨st, ht⟩ (h.not_member t), fun t ht => absurd ht (h.not_member t),
    fun _ _ hg => by cases hg⟩

/-- **Whenever the lock of a task is free, its hash names exactly the set it is in**; the tasks are those in
some set, and those a client was told about. -/
theorem status_names_set (γ : Gateway) {w₀ : World} (h₀ : w₀.NoTasks) {σ : System}
    (hσ : Reaches (exec (machine γ)) StatusKept (.idle w₀) σ) {taskID : String}
    (htask : σ.store.Member taskID ∨ ∃ task, Reply.created task ∈ σ.store.replies ∧ task.id = taskID)
    (hfree : σ.store.taskLock taskID = none) :
    ∃ task, σ.store.tasks taskID = some task ∧
      ∀ status, taskID ∈ σ.store.taskSets status ↔ task.status = status := by
  have hin : Kept σ.store (σ.phase custodies) ∧ Agreement σ.store (σ.phase custodies) := by
    refine phase_invariant (Q := fun w φ => Kept w φ ∧ Agreement w φ)
      (fun _ i j _ => program_follows γ i j) ?_ ?_ ?_ ?_ hσ (obeys_idle w₀)
      ⟨kept_of_noTasks h₀, agreement_of_noTasks h₀⟩
    · rintro σ i c ch w x hok hn hal hsp ⟨hk, ha⟩
      obtain ⟨hsl, hp⟩ := hok.2 c hn
      exact ⟨hk.step hal hsl hp.markDone hsp, ha.step hk hal hsl hp hsp⟩
    · rintro w φ i hf ⟨hk, ha⟩
      exact ⟨hk.forget i, ha.forget hk.membership.unique i fun t ht => hf t ht.1.inside⟩
    · rintro σ i hok ⟨hk, ha⟩
      exact ⟨hk.forget i, ha.forget hk.membership.unique i hok.2⟩
    · rintro σ ms w hok hti ⟨hk, ha⟩
      refine ⟨hk.tick hok.1 hti, ?_⟩
      cases hti
      exact ⟨ha.agree, ha.stored, ha.hashed⟩
  obtain ⟨hk, ha⟩ := hin
  obtain ⟨st, hst⟩ : σ.store.Member taskID := by
    rcases htask with hm | ⟨task, hc, rfl⟩
    · exact hm
    · exact hk.membership.created task hc
  -- the lock is free, so nobody is inside, and nothing is half written
  have hse : ∀ i, ¬ (σ.phase custodies i).Unsettled taskID := fun i hi => by
    simpa [hfree] using hk.exclusive.held i taskID hi.inside
  obtain ⟨task, hsr, hs⟩ := map_eq_some_iff.1 (ha.agree taskID st hst hse)
  refine ⟨task, hsr, fun st' => ⟨fun hst' => ?_, fun hst' => ?_⟩⟩
  · rw [hs]
    exact hk.membership.unique taskID st st' hst hst'
  · rw [← hst', hs]
    exact hst

/-- Steps in which nothing goes wrong. -/
def Undisturbed (σ : System) : Event → Prop
  | .spawn _ _ => True
  | .run i ch => ch.refused = false ∧ ch.lost = false ∧ ∀ c ∈ σ.next i, c.selfMove = false
  | .crash _ | .env _ => False

instance (σ : System) : (e : Event) → Decidable (Undisturbed σ e) := by
  rintro (_ | _ | _ | _) <;> (dsimp only [Undisturbed]; infer_instance)

theorem statusKept_of_undisturbed {σ : System} {e : Event} (h : Undisturbed σ e) : StatusKept σ e := by
  cases e with
  | spawn => exact ⟨trivial, trivial⟩
  | run =>
    refine ⟨trivial, fun c hc => ⟨h.2.2 c hc, ?_⟩⟩
    unfold Paired
    split
    · exact h.1
    · exact fun _ => h.2.1
    · exact fun _ => h.1
    · exact fun _ => h.1
    · trivial
  | crash | env => exact h.elim

/-- A task that has been validated: the lock is free again, and hash and set say `in_progress`. -/
theorem status_names_set_sampleValidation : ∃ σ : System, ∃ task, σ.store.taskLock "batch_1" = none ∧
      "batch_1" ∈ σ.store.taskSets .inProgress ∧ σ.store.tasks "batch_1" = some task ∧
      ∀ status, "batch_1" ∈ σ.store.taskSets status ↔ task.status = status := by
  have hru : ∃ σ ∈ runAll (exec (machine sampleGateway)) Undisturbed (.idle (sampleWorld []))
      (sampleCreation ++ sampleValidation), σ.store.taskLock "batch_1" = none ∧
        "batch_1" ∈ σ.store.taskSets .inProgress := by decide
  obtain ⟨σ, hσ, hfr, hm⟩ := Reaches.of_exists hru
  have hr := hσ.mono fun _ _ => statusKept_of_undisturbed
  obtain ⟨task, ht, hs⟩ := status_names_set sampleGateway (sampleWorld_noTasks []) hr (.inl ⟨_, hm⟩) hfr
  exact ⟨σ, task, hfr, hm, ht, hs⟩

/-- **A crash between the two writes splits the status**: the hash says `pending`, the task is in the
validating set. -/
theorem crash_after_write_splits_status : ¬ ∀ (γ : Gateway) (w₀ : World), w₀.NoTasks → ∀ σ : System,
      Reaches (exec (machine γ)) free (.idle w₀) σ → ∀ taskID, σ.store.Member taskID →
        σ.store.taskLock taskID = none → ∃ task, σ.store.tasks taskID = some task ∧
          ∀ status, taskID ∈ σ.store.taskSets status ↔ task.status = status := by
  intro ha
  have hr : ∃ σ ∈ runAll (exec (machine sampleGateway)) free (.idle (sampleWorld []))
      (sampleCreation ++ turn (.validator "a") .turn ({ pick := "batch_1" } :: plain 7)
        ++ [.crash (.validator "a"), .env defaultLockExpiration]),
          σ.store.taskLock "batch_1" = none ∧ "batch_1" ∈ σ.store.taskSets .validating ∧
            (σ.store.tasks "batch_1").map BatchTask.status = some .pending := by decide
  obtain ⟨σ, hσ, hfr, hm, hs⟩ := Reaches.of_exists hr
  obtain ⟨task, ht, hse⟩ := ha sampleGateway _ (sampleWorld_noTasks []) σ hσ "batch_1" ⟨_, hm⟩ hfr
  rw [ht, map_some, (hse .validating).1 hm] at hs
  cases hs

end Llumnix.Batch
