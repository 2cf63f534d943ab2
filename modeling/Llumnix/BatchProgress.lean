/-
**The way of a task from its shards to its files.**

A validated task is first in the hands of the workers, then it waits for a finalizer, then one finalizer
gathers its results, and then it is over.  What holds of the task differs from stage to stage.  The
finalizer is alone with its task because of the task lock, so here the protocols of custody and of duties
meet.

* `Progress.step` — **every command keeps the task in its stage or takes it to the next one**.
-/

import Llumnix.BatchCollect

namespace Llumnix.Batch

open GuardedRun Interaction Processes FiniteMap Function Finset

variable {codec : Codec} {worker : Option Worker} {d : Duty} {t : String}

/-! ### Finalizers work under the task lock -/

/-- The finalizer relies on the lock of the task. -/
def Duty.Relies (d : Duty) (taskID : String) : Prop := d = .holding taskID ∨ d.Gathering taskID

theorem taskID_fetched (c : Collection) (key : ObjectKey) (body : Option Bytes) :
    (c.fetched key body).taskID = c.taskID := by
  unfold Collection.fetched
  split <;> rfl

theorem taskID_appended (c : Collection) (next : Nat) : (c.appended next).taskID = c.taskID := by
  unfold Collection.appended
  split <;> rfl

section

variable {codec : Codec} {worker : Option Worker} {d d' : Duty} {r : Remote} {x : Except String r.Val}
  {t : String}

theorem Duty.Moves.gathering (h : Moves codec worker d r x d') (hd' : d'.Gathering t) :
    d.Gathering t ∨ d = .holding t := by
  cases h with
  | stay | load | list | key | add => exact .inl hd'
  | move => exact .inr (congrArg _ hd')
  | fetch => exact .inl ((taskID_fetched _ _ _).symm.trans hd')
  | append => exact .inl ((taskID_appended _ _).symm.trans hd')
  | _ => exact hd'.elim

/-- A finalization ends where it was under way, or before it could begin. -/
theorem Duty.Moves.ends (h : Moves codec worker d r x d') (hd' : d'.Over t) :
    d.Finalizing t ∨ d = .holding t := by
  obtain ⟨keys, hd'⟩ := hd'
  cases h with
  | stay => exact .inl (.inr ⟨keys, hd'⟩)
  | failMove =>
    cases hd'
    exact .inr rfl
  | giveUpInputs x hd | giveUpOutputs x hd =>
    cases hd'
    exact .inl hd
  | failAppend | complete =>
    cases hd'
    exact .inl (.inl rfl)
  | _ => cases hd'

theorem Phase.Inside.afterRemote {g : Phase} (h : g.Inside t) (ha : g.AllowedRemote r)
    (hr : ∀ taskID instanceID, r ≠ .releaseTaskLock taskID instanceID) (x : Except String r.Val) :
    (g.afterRemote r x).Inside t := by
  have hre : ∀ taskID status, (g.reads taskID status).Inside t := by
    intro taskID status
    unfold Phase.reads
    split
    · rename_i hrd
      rw [hrd.1] at h
      exact h
    · exact h
  cases r with
  | hsetTask | saddPending =>
    obtain ⟨uuid, rfl, -⟩ := ha
    exact h.elim
  | acquireTaskLock => exact absurd h (ha.1.not_inside t)
  | releaseTaskLock taskID instanceID => exact absurd rfl (hr taskID instanceID)
  | getTask | getTaskStatus =>
    cases x with
    | error => exact h
    | ok => exact hre _ _
  | updateTaskFailure =>
    obtain rfl : g = _ := ha
    exact h
  | updateTaskFields taskID =>
    have ht : taskID = t := by rcases ha with rfl | ⟨rfl, -⟩ <;> exact h
    change Phase.Inside (if _ then _ else if _ then _ else _) t
    split
    · exact ht
    · split <;> exact ht
  | moveTaskAndUpdateStatus taskID =>
    have ht : taskID = t := (inside_of_move ha.1).eq h
    cases x <;> exact ht
  | moveTask =>
    obtain ⟨rfl, -⟩ := ha
    exact h
  | _ => exact h

end

/-- **A finalizer that relies on the task lock is inside the section of the task.** -/
theorem linked_after {g : Phase} {c : Cmd} {x : c.Resp} (hg : g.Allowed c)
    (hd : d.Allowed codec worker c) (hl : d.Relies t → g.Inside t) (h : (d.after c x).Relies t) :
    (g.after c x).Inside t := by
  cases c with
  | remote r =>
    by_cases hr : ∃ taskID instanceID, r = .releaseTaskLock taskID instanceID
    · obtain ⟨taskID, instanceID, rfl⟩ := hr
      rcases h with h | h
      · cases h
      · exact h.elim
    · have hs : d.Relies t → (g.afterRemote r x).Inside t := fun hre =>
        (hl hre).afterRemote hg (fun taskID instanceID heq => hr ⟨_, _, heq⟩) x
      have hm := Duty.moves_afterRemote hd x
      change (d.afterRemote r x).Relies t at h
      generalize d.afterRemote r x = d' at hm h
      rcases h with rfl | h
      · cases hm with
        | stay => exact hs (.inl rfl)
        | hold => exact rfl
      · exact hs (hm.gathering h).symm
  | newUUID =>
    have hb : d.Relies t := by
      cases d <;> rcases h with h | h <;>
        first | exact .inr h | exact .inl h | cases h
    have hi := hl hb
    cases g <;> exact hi
  | _ => exact hl h

/-- **What keeps workers and finalizers out of each other's way.** -/
structure Orderly (w : World) (ψ : Proc → Phase) (φ : Proc → Duty) : Prop where
  exclusive : Exclusive w ψ
  linked : ∀ i t, (φ i).Relies t → (ψ i).Inside t
  held : HeldShards w φ
  tidy : ∀ i, (φ i).Tidy
  files : Files w φ

section

variable {codec : Codec} {w w' : World} {ψ : Proc → Phase} {φ : Proc → Duty} {i : Proc}

theorem Orderly.alone (h : Orderly w ψ φ) {i j : Proc} {t : String} (hi : (φ i).Relies t)
    (hj : (φ j).Relies t) : i = j :=
  h.exclusive.alone i j t (h.linked i t hi) (h.linked j t hj)

theorem Orderly.forget (h : Orderly w ψ φ) (i : Proc) :
    Orderly w (update ψ i .outside) (update φ i .idle) where
  exclusive := h.exclusive.forget i
  linked j t hj := by
    by_cases hji : j = i
    · subst hji
      rw [update_self] at hj
      rcases hj with hj | hj
      · cases hj
      · exact hj.elim
    · rw [update_of_ne hji] at hj ⊢
      exact h.linked j t hj
  held := h.held.forget i
  tidy j := by
    rw [update_apply]
    split
    · exact fun _ _ heq => by cases heq
    · exact h.tidy j
  files := h.files.forget i

theorem Orderly.step (h : Orderly w ψ φ) {c : Cmd} {ch : Choice} {x : c.Resp}
    (hc : (ψ i).Allowed c) (hdu : (φ i).Allowed codec i.asWorker c)
    (hs : Batch.step w c ch = some (w', x)) :
    Orderly w' (update ψ i ((ψ i).after c x)) (update φ i ((φ i).after c x)) where
  exclusive := h.exclusive.step hc hs
  linked j t hj := by
    by_cases hji : j = i
    · subst hji
      rw [update_self] at hj ⊢
      exact linked_after hc hdu (h.linked j t) hj
    · rw [update_of_ne hji] at hj ⊢
      exact h.linked j t hj
  held := h.held.step hdu hs
  tidy j := by
    rw [update_apply]
    split
    · exact tidy_step (h.tidy i) hdu hs
    · exact h.tidy j
  files := h.files.step hdu (h.tidy i) hs

end

/-! ### Who writes a task -/

/-- The hash of the task and its membership are what they were. -/
def SameTask (w w' : World) (t : String) : Prop :=
  w'.tasks t = w.tasks t ∧ ∀ st, t ∈ w'.taskSets st ↔ t ∈ w.taskSets st

/-- **Whose commands write a task**: the worker that has found all shards completed, the finalizer. -/
theorem subject_cases {r : Remote} (ha : d.AllowedRemote codec worker r) (h : r.subject = some t) :
    (d = .allDone t ∧ ∃ now, r = .moveTaskAndUpdateStatus t .inProgress .finalizing now) ∨
      (d = .holding t ∧ ∃ now, r = .moveTaskAndUpdateStatus t .finalizing .finalize now) ∨
      (d.Gathering t ∧ ∃ task, r = .updateTaskFields t task) ∨
      d.Over t ∧ r = .moveTask t .finalize .completed := by
  cases r with
  | hsetTask | saddPending | updateTaskFailure => exact ha.elim
  | updateTaskFields taskID task =>
    cases h
    obtain ⟨c, rfl, hc, -⟩ := ha
    exact .inr (.inr (.inl ⟨hc, task, rfl⟩))
  | moveTaskAndUpdateStatus taskID fromSet toSet now =>
    cases h
    rcases ha with ⟨hd, rfl, rfl⟩ | ⟨hd, rfl, rfl⟩
    · exact .inl ⟨hd, now, rfl⟩
    · exact .inr (.inl ⟨hd, now, rfl⟩)
  | moveTask =>
    cases h
    obtain ⟨keys, hd, rfl, rfl⟩ := ha
    exact .inr (.inr (.inr ⟨⟨keys, hd⟩, rfl⟩))
  | _ => cases h

section

variable {w w' : World} {t : String} {fromSet toSet : BatchTaskStatus} {now : Int}

theorem sameTask_or_subject {c : Cmd} {ch : Choice} {x : c.Resp} (hs : step w c ch = some (w', x))
    (t : String) : SameTask w w' t ∨ ∃ r, c = .remote r ∧ w' = effect w r ∧ r.subject = some t := by
  rcases step_cases hs with ⟨r, rfl, rfl | rfl⟩ | ⟨usedIDs, replies, rfl⟩
  · exact .inl ⟨rfl, fun _ => Iff.rfl⟩
  · by_cases hr : r.subject = some t
    · exact .inr ⟨r, rfl, rfl, hr⟩
    · exact .inl ⟨tasks_effect hr, fun st => mem_taskSets_effect hr⟩
  · exact .inl ⟨rfl, fun _ => Iff.rfl⟩

theorem sameTask_move_of_notMem (hne : fromSet ≠ toSet) (h : t ∉ w.taskSets fromSet) :
    SameTask w (effect w (.moveTaskAndUpdateStatus t fromSet toSet now)) t := by
  simp only [effect, moveScript_of_notMem hne h, Bool.false_eq_true, if_false]
  exact ⟨rfl, fun _ => Iff.rfl⟩

theorem move_of_mem (toSet : BatchTaskStatus) (now : Int) (hne : fromSet ≠ toSet)
    (h : t ∈ w.taskSets fromSet) : (effect w (.moveTaskAndUpdateStatus t fromSet toSet now)).tasks t
        = (w.tasks t).map (fun task => stampStatus task toSet now) ∧
      ∀ st, t ∈ (effect w (.moveTaskAndUpdateStatus t fromSet toSet now)).taskSets st ↔
        st = toSet ∨ st ≠ fromSet ∧ t ∈ w.taskSets st := by
  have hm : (moveScript w.taskSets t fromSet toSet).2 = true := by
    rw [moveScript_snd hne, decide_eq_true h]
  constructor
  · simp [effect, hm]
  · intro st
    rw [taskSets_move, mem_moveScript hne, if_pos ⟨rfl, h⟩]

/-- The task is not completed, and has no error file. -/
def World.Unfinished (w : World) (t : String) : Prop :=
  ∀ task, w.tasks t = some task → task.status ≠ .completed ∧ task.errorFileID = none

theorem World.Unfinished.congr (h : w.Unfinished t) (hs : SameTask w w' t) : w'.Unfinished t := by
  intro task ht
  rw [hs.1] at ht
  exact h task ht

/-- A stamped move completes nothing, unless it moves to `completed`. -/
theorem World.Unfinished.stamp (h : w.Unfinished t) (hne : toSet ≠ .completed)
    (hta : w'.tasks t = (w.tasks t).map fun task => stampStatus task toSet now) : w'.Unfinished t := by
  intro task ht
  rw [hta] at ht
  obtain ⟨stored, hs, rfl⟩ := Option.map_eq_some_iff.1 ht
  have he := (h stored hs).2
  cases toSet <;> first | exact absurd rfl hne | exact ⟨nofun, he⟩

end

/-! ### What a completed task has delivered -/

/-- Nobody writes the files of this UUID any more. -/
def Closed (w : World) (φ : Proc → Duty) (uuid : String) : Prop :=
  uuid ∈ w.usedIDs ∧ ∀ i, ¬ (φ i).Names uuid

/-- The record of a task and the files it names answer its lines, in the given order of its shards. -/
structure Delivery (codec : Codec) (J : Job) (w : World) (φ : Proc → Duty) (task : BatchTask)
    (order : List String) (outs errs : List Bytes) (outputUUID errorUUID : String) : Prop where
  all : Enumerates order J.ids
  answers : Answers codec J.taskID (order.flatMap J.lines) outs errs
  counts : task.requestCounts = some ⟨outs.length + errs.length, outs.length, errs.length⟩
  outputFile : task.outputFileID = some ("batch_output_" ++ outputUUID)
  output : (w.objects.lookup (outputKey outputUUID)).getD [] = unlines outs
  errorFile : task.errorFileID = some ("batch_error_" ++ errorUUID) ∨
    task.errorFileID = none ∧ errs = []
  errors : (w.objects.lookup (errorKey errorUUID)).getD [] = unlines errs
  outputClosed : Closed w φ outputUUID
  errorClosed : Closed w φ errorUUID

/-- **The record of a task and its files answer all of its lines.** -/
def Delivered (codec : Codec) (J : Job) (w : World) (φ : Proc → Duty) (task : BatchTask) : Prop :=
  ∃ order outs errs outputUUID errorUUID,
    Delivery codec J w φ task order outs errs outputUUID errorUUID

section

variable {codec : Codec} {J : Job} {w w' : World} {φ : Proc → Duty} {i : Proc} {task : BatchTask}
variable {c : Cmd} {ch : Choice} {x : c.Resp}

theorem Closed.step {uuid : String} (h : Closed w φ uuid) (ha : (φ i).Allowed codec i.asWorker c)
    (ht : (φ i).Tidy) (hs : Batch.step w c ch = some (w', x)) :
    Closed w' (update φ i ((φ i).after c x)) uuid ∧
      w'.objects.lookup (outputKey uuid) = w.objects.lookup (outputKey uuid) ∧
      w'.objects.lookup (errorKey uuid) = w.objects.lookup (errorKey uuid) := by
  obtain ⟨hu, hn⟩ := h
  -- the issuer names no file after this UUID, now and afterwards
  have hcl : (¬ ((φ i).after c x).Names uuid) → uuid ∈ w'.usedIDs →
      Closed w' (update φ i ((φ i).after c x)) uuid := by
    intro haf hu'
    refine ⟨hu', fun j hj => ?_⟩
    rw [update_apply] at hj
    split at hj
    · exact haf hj
    · exact hn j hj
  cases c with
  | remote r =>
    have ha : (φ i).AllowedRemote codec i.asWorker r := ha
    have haf : ¬ ((φ i).afterRemote r x).Names uuid :=
      fun hj => hn i ((Duty.moves_afterRemote ha x).names hj)
    rcases eq_or_eq_effect hs with rfl | rfl
    · exact ⟨hcl haf hu, rfl, rfl⟩
    · refine ⟨hcl haf (by rwa [usedIDs_effect]), ?_, ?_⟩
      · exact lookup_outputKey_effect ha ht w fun c hc heq =>
          hn i (by rw [hc]; exact .inl heq)
      · exact lookup_errorKey_effect ha ht w fun c hc heq =>
          hn i (by rw [hc]; exact .inr heq)
  | newUUID =>
    obtain ⟨hf, rfl, rfl⟩ := step_newUUID hs
    refine ⟨hcl (fun hj => ?_) (mem_insert_of_mem hu), rfl, rfl⟩
    rcases names_newUUID hj with hj | rfl
    · exact hn i hj
    · exact hf hu
  | _ =>
    cases hs
    exact ⟨hcl (hn i) hu, rfl, rfl⟩

theorem Delivered.step (h : Delivered codec J w φ task) (ha : (φ i).Allowed codec i.asWorker c)
    (ht : (φ i).Tidy) (hs : Batch.step w c ch = some (w', x)) :
    Delivered codec J w' (update φ i ((φ i).after c x)) task := by
  obtain ⟨order, outs, errs, outputUUID, errorUUID, h⟩ := h
  obtain ⟨ho, hou, -⟩ := h.outputClosed.step ha ht hs
  obtain ⟨he, -, her⟩ := h.errorClosed.step ha ht hs
  exact ⟨order, outs, errs, outputUUID, errorUUID, { h with
    output := by rw [hou]; exact h.output
    errors := by rw [her]; exact h.errors
    outputClosed := ho
    errorClosed := he }⟩

theorem Delivered.forget (h : Delivered codec J w φ task) (i : Proc) :
    Delivered codec J w (update φ i .idle) task := by
  obtain ⟨order, outs, errs, outputUUID, errorUUID, h⟩ := h
  have hc : ∀ uuid, Closed w φ uuid → Closed w (update φ i .idle) uuid := by
    rintro uuid ⟨hu, hn⟩
    refine ⟨hu, fun j hj => ?_⟩
    rw [update_apply] at hj
    split at hj
    · exact hj
    · exact hn j hj
  exact ⟨order, outs, errs, outputUUID, errorUUID, { h with
    outputClosed := hc _ h.outputClosed
    errorClosed := hc _ h.errorClosed }⟩

theorem Delivered.congr (h : Delivered codec J w φ task) (ho : w'.objects = w.objects)
    (hu : w'.usedIDs = w.usedIDs) : Delivered codec J w' φ task := by
  obtain ⟨order, outs, errs, outputUUID, errorUUID, h⟩ := h
  exact ⟨order, outs, errs, outputUUID, errorUUID, { h with
    output := by rw [ho]; exact h.output
    errors := by rw [ho]; exact h.errors
    outputClosed := by rw [Closed, hu]; exact h.outputClosed
    errorClosed := by rw [Closed, hu]; exact h.errorClosed }⟩

/-- Once everything is completed, the completed shards are all there are. -/
theorem Intact.completed_eq (h : Intact codec J w φ) (ha : w.AllCompleted J.taskID) :
    w.shardSets J.taskID .completed = J.ids := by
  ext s
  rw [← h.members s]
  refine ⟨fun hs => ⟨_, hs⟩, ?_⟩
  rintro ⟨st, hs⟩
  cases st with
  | pending => exact absurd (ha.1 ▸ hs) (notMem_empty s)
  | inProgress => exact absurd (ha.2 ▸ hs) (notMem_empty s)
  | completed => exact hs
  | failed => exact absurd (h.failed ▸ hs) (notMem_empty s)

/-- **The finalizer completes the task**, and has delivered. -/
theorem delivered_complete {c : Collection} {fields : BatchTask} {k : Proc}
    (hi : Intact codec J w φ) (hall : w.AllCompleted J.taskID) (hf : Files w φ)
    (hun : w.Unfinished J.taskID) (hk : φ k = .collecting c) (ht : c.taskID = J.taskID) (hs : c.Sound w)
    (hal : (φ k).AllowedRemote codec k.asWorker (.updateTaskFields J.taskID fields))
    {keys : List ObjectKey} {task : BatchTask}
    (hst : (effect w (.updateTaskFields J.taskID fields)).tasks J.taskID = some task) :
    Delivered codec J (effect w (.updateTaskFields J.taskID fields))
      (update φ k (.ending J.taskID keys)) task := by
  obtain ⟨c', hc', -, hr, hsg, hss, ho, hco, he⟩ := hal
  cases hk.symm.trans hc'
  obtain ⟨outs, errs, ha, hou, her, hp, hto⟩ := hs.answers ht hi.done hr hsg
  have hor := hs.order
  rw [hr, List.append_nil, ht, hi.completed_eq hall] at hor
  have hc : ∀ uuid, (φ k).Names uuid → Closed (effect w (.updateTaskFields J.taskID fields))
        (update φ k (.ending J.taskID keys)) uuid := by
    intro uuid hn
    refine ⟨hf.used k uuid hn, fun j hj => ?_⟩
    rw [update_apply] at hj
    split at hj
    · exact hj
    · next hjk => exact hjk (hf.alone j k uuid hj hn)
  -- the record before the update had no error file
  have hre : (effect w (.updateTaskFields J.taskID fields)).tasks J.taskID
      = (w.tasks J.taskID).map fun stored => mergeFields stored fields := update_self _ _ _
  rw [hre] at hst
  obtain ⟨stored, hb, rfl⟩ := Option.map_eq_some_iff.1 hst
  have hno := (hun stored hb).2
  refine ⟨c.collected, outs, errs, c.outputUUID, c.errorUUID, hor, ha, ?_, ?_, hou, ?_,
    her, hc _ (by rw [hk]; exact .inl rfl), hc _ (by rw [hk]; exact .inr rfl)⟩
  · simp [mergeFields, hco, hto]
  · simp [mergeFields, ho, Collection.outputFileID]
  · by_cases hz : c.errorPosition > 0
    · exact .inl (by simp [mergeFields, he, hz, Collection.errorFileID])
    · refine .inr ⟨?_, hp (by omega)⟩
      simp [mergeFields, he, hz, hs.record, hno]

end

/-! ### Who finalizes a task -/

/-- The finalizer has picked the task, or is further. -/
def Duty.Attends (d : Duty) (taskID : String) : Prop :=
  d = .picked taskID ∨ d = .holding taskID ∨ d.Finalizing taskID

def Cmd.firstMove (c : Cmd) (t : String) : Prop :=
  ∃ now, c = .remote (.moveTaskAndUpdateStatus t .finalizing .finalize now)

section

variable {codec : Codec} {worker : Option Worker} {d : Duty} {w w' : World} {c : Cmd} {ch : Choice}
  {x : c.Resp} {t : String}
variable {uuid : String}

theorem gathering_newUUID : (d.after .newUUID uuid).Gathering t ↔ d.Gathering t := by
  cases d <;> exact Iff.rfl

theorem over_newUUID (h : (d.after .newUUID uuid).Over t) : d.Over t := by
  obtain ⟨keys, h⟩ := h
  cases d <;> cases h
  exact ⟨keys, rfl⟩

/-- **A finalization begins with the first move.** -/
theorem finalizing_step (ha : d.Allowed codec worker c) (h : (d.after c x).Finalizing t) :
    d.Finalizing t ∨ d = .holding t ∧ c.firstMove t := by
  cases c with
  | remote r =>
    have hm := Duty.moves_afterRemote ha x
    change (d.afterRemote r x).Finalizing t at h
    generalize d.afterRemote r x = d' at hm h
    have hb : d.Finalizing t ∨ d = .holding t := by
      rcases h with h | h
      · exact (hm.gathering h).imp_left .inl
      · exact hm.ends h
    refine hb.imp_right fun hd => ⟨hd, ?_⟩
    subst hd
    -- all that leads on from there is the first move
    cases hm with
    | stay => rcases h with h | ⟨keys, h⟩ <;> cases h
    | move | failMove => exact ⟨_, rfl⟩
    | giveUpInputs x hd | giveUpOutputs x hd => rcases hd with hd | ⟨keys, hd⟩ <;> cases hd
    | _ => rcases h with h | ⟨keys, h⟩ <;> cases h
  | newUUID => exact .inl (h.imp gathering_newUUID.1 over_newUUID)
  | _ => exact .inl h

/-- **Nobody gathers without having moved the task.** -/
theorem gathering_step (ha : d.Allowed codec worker c) (hs : step w c ch = some (w', x))
    (h : (d.after c x).Gathering t) : d.Gathering t ∨ t ∈ w.taskSets .finalizing := by
  cases c with
  | remote r =>
    have hm := Duty.moves_afterRemote ha x
    change (d.afterRemote r x).Gathering t at h
    generalize d.afterRemote r x = d' at hm h
    rcases hm.gathering h with hd | rfl
    · exact .inl hd
    cases hm with
    | stay => exact .inl h
    | move =>
      obtain ⟨-, hx⟩ := step_remote_ok hs
      have hmo : (moveScript w.taskSets t .finalizing .finalize).2 = true := by
        by_contra hfailed
        simp [answer, hfailed] at hx
      rw [moveScript_snd (by decide), decide_eq_true_eq] at hmo
      exact .inr hmo
    | _ => exact h.elim
  | newUUID => exact .inl (gathering_newUUID.1 h)
  | _ => exact .inl h

/-- **Nobody attends to a task that has not been in `finalizing`.** -/
theorem attends_step (ha : d.Allowed codec worker c) (hs : step w c ch = some (w', x))
    (h : (d.after c x).Attends t) : d.Attends t ∨ t ∈ w.taskSets .finalizing := by
  have hf : (d.after c x).Finalizing t → d.Attends t := fun h =>
    (finalizing_step ha h).elim (fun hd => .inr (.inr hd)) fun hd => .inr (.inl hd.1)
  rcases h with h | h | h
  · cases c with
    | remote r =>
      have hm := Duty.moves_afterRemote ha x
      rw [show d.afterRemote r x = .picked t from h] at hm
      cases hm with
      | stay => exact .inl (.inl rfl)
      | pick =>
      obtain ⟨-, hx⟩ := step_remote_ok hs
      simp only [answer, pickMember] at hx
      split at hx
      · cases hx
      · split at hx <;> cases hx
        next hme => exact .inr hme
    | newUUID =>
      cases d <;> cases h
      exact .inl (.inl rfl)
    | _ => exact .inl (.inl h)
  · cases c with
    | remote r =>
      have hm := Duty.moves_afterRemote ha x
      rw [show d.afterRemote r x = .holding t from h] at hm
      cases hm with
      | stay => exact .inl (.inr (.inl rfl))
      | hold => exact .inl (.inl rfl)
    | newUUID =>
      cases d <;> cases h
      exact .inl (.inr (.inl rfl))
    | _ => exact .inl (.inr (.inl h))
  · exact .inl (hf h)

end

/-! ### The stages of a task -/

/-- **Where a task stands.** -/
inductive Progress (codec : Codec) (J : Job) (w : World) (φ : Proc → Duty) : Prop
  /-- Workers answer its lines, and no finalizer has seen it. -/
  | working (hintact : Intact codec J w φ) (hin : J.taskID ∈ w.taskSets .inProgress)
      (hout : J.taskID ∉ w.taskSets .finalizing) (hun : w.Unfinished J.taskID)
      (hnobody : ∀ i, ¬ (φ i).Attends J.taskID)
  /-- All lines are answered, and it waits for a finalizer. -/
  | waiting (hintact : Intact codec J w φ) (hall : w.AllCompleted J.taskID)
      (hout : J.taskID ∉ w.taskSets .inProgress) (hin : J.taskID ∈ w.taskSets .finalizing)
      (hun : w.Unfinished J.taskID) (hnobody : ∀ i, ¬ (φ i).Finalizing J.taskID)
  /-- A finalizer gathers its results. -/
  | gathering (hintact : Intact codec J w φ) (hall : w.AllCompleted J.taskID)
      (hout : J.taskID ∉ w.taskSets .inProgress) (hout' : J.taskID ∉ w.taskSets .finalizing)
      (hun : w.Unfinished J.taskID) (hnobody : ∀ i, ¬ (φ i).Over J.taskID) (k : Proc)
      (hk : (φ k).Gathering J.taskID) (hcollects : (φ k).Collects w)
  /-- It is completed, or it never will be. -/
  | settled (hout : J.taskID ∉ w.taskSets .inProgress) (hout' : J.taskID ∉ w.taskSets .finalizing)
      (hnobody : ∀ i, ¬ (φ i).Gathering J.taskID)
      (hdelivered : ∀ task, w.tasks J.taskID = some task → task.status = .completed →
        Delivered codec J w φ task)

section

variable {codec : Codec} {J : Job} {w w' : World} {ψ : Proc → Phase} {φ : Proc → Duty} {i : Proc}
  {c : Cmd} {ch : Choice} {x : c.Resp}
variable {d : Duty}

theorem forall_update {p : Duty → Prop} (h : ∀ j, p (φ j)) (hd : p d) (j : Proc) : p (update φ i d j) := by
  rw [update_apply]
  split
  · exact hd
  · exact h j

theorem Progress.abandon (hun : w.Unfinished J.taskID) (ho : J.taskID ∉ w.taskSets .inProgress)
    (ho' : J.taskID ∉ w.taskSets .finalizing) (hn : ∀ i, ¬ (φ i).Gathering J.taskID) :
    Progress codec J w φ :=
  .settled ho ho' hn fun task ht hc => absurd hc (hun task ht).1

theorem Intact.not_busy (h : Intact codec J w φ) (ha : w.AllCompleted J.taskID) (i : Proc)
    (s : String) : ¬ (φ i).Busy J.taskID s :=
  fun hb => absurd (ha.2 ▸ h.busy i s hb) (notMem_empty s)

theorem shardSets_of_allCompleted {worker : Option Worker} {t : String}
    (ha : d.Allowed codec worker c) (ho : ¬ d.Over t) (hal : w.AllCompleted t)
    (hst : step w c ch = some (w', x)) : w'.shardSets t = w.shardSets t := by
  rcases shardSets_step ha ho hst with hs | ⟨s, ⟨-, hs⟩ | ⟨-, hs⟩⟩
  · exact hs
  · rw [hs, moveScript_of_notMem (by decide) (by rw [hal.1]; exact notMem_empty s)]
  · rw [hs, moveScript_of_notMem (by decide) (by rw [hal.2]; exact notMem_empty s)]

theorem Intact.sameShard_step (h : Intact codec J w φ) (hal : w.AllCompleted J.taskID)
    (ha : (φ i).Allowed codec i.asWorker c) (ht : (φ i).Tidy) (ho : ¬ (φ i).Over J.taskID)
    (hs : Batch.step w c ch = some (w', x)) (s : String) : SameShard w w' J.taskID s := by
  rcases step_cases hs with ⟨r, rfl, hw⟩ | ⟨usedIDs, replies, rfl⟩
  · exact h.sameShard ha ht ho hw (by rw [hal.2]; exact notMem_empty s)
  · exact ⟨rfl, rfl, rfl⟩

/-- Everything completed stays intact whatever is issued, short of cleaning up. -/
theorem Intact.step_of_allCompleted (h : Intact codec J w φ) (hal : w.AllCompleted J.taskID)
    (ho : Orderly w ψ φ) (ha : (φ i).Allowed codec i.asWorker c) (hov : ¬ (φ i).Over J.taskID)
    (ht : ∀ s, c.takeover = some (J.taskID, s) → s ∈ w.shardSets J.taskID .inProgress)
    (hst : Batch.step w c ch = some (w', x)) :
    Intact codec J w' (update φ i ((φ i).after c x)) ∧ w'.AllCompleted J.taskID :=
  ⟨h.step ho.held ha (ho.tidy i) hov (fun s hs => absurd (.inr hs) (h.not_busy hal i s))
    ht hst, allCompleted_step ha hov hst hal⟩

section

variable (ho : Orderly w ψ φ) (hi : Intact codec J w φ) (ha : (φ i).Allowed codec i.asWorker c)
  (ht : ∀ s, c.takeover = some (J.taskID, s) → s ∈ w.shardSets J.taskID .inProgress)
  (hst : Batch.step w c ch = some (w', x))
include ho hi ha ht hst

/-- **Workers at work**: the task stays with them until one of them moves it on. -/
theorem Progress.step_working (hin : J.taskID ∈ w.taskSets .inProgress)
    (hou : J.taskID ∉ w.taskSets .finalizing) (hun : w.Unfinished J.taskID)
    (hn : ∀ i, ¬ (φ i).Attends J.taskID) : Progress codec J w' (update φ i ((φ i).after c x)) := by
  have hov : ¬ (φ i).Over J.taskID := fun h => hn i (.inr (.inr (.inr h)))
  have hi' := hi.step ho.held ha (ho.tidy i) hov (fun _ _ => hin) ht hst
  have hat : ∀ j, ¬ (update φ i ((φ i).after c x) j).Attends J.taskID :=
    forall_update (p := fun d => ¬ d.Attends J.taskID) hn fun h =>
      (attends_step ha hst h).elim (hn i) hou
  rcases sameTask_or_subject hst J.taskID with hsa | ⟨r, rfl, rfl, hr⟩
  · exact .working hi' ((hsa.2 _).2 hin) (fun h => hou ((hsa.2 _).1 h)) (hun.congr hsa) hat
  rcases subject_cases ha hr with
    ⟨hd, now, rfl⟩ | ⟨hd, -⟩ | ⟨hd, -⟩ | ⟨hd, -⟩
  · -- the worker has found all shards completed, and they still are
    have hal : w.AllCompleted J.taskID := by
      have hc := hi.claims i
      rw [hd] at hc
      exact hc rfl
    obtain ⟨hta, hse⟩ := move_of_mem .finalizing now (by decide) hin
    exact .waiting hi' (allCompleted_step ha hov hst hal) (mt (hse _).1 (by simp))
      ((hse _).2 (.inl rfl)) (hun.stamp (by decide) hta) fun j hj => hat j (.inr (.inr hj))
  · exact absurd (.inr (.inl hd)) (hn i)
  · exact absurd (.inr (.inr (.inl hd))) (hn i)
  · exact absurd hd hov

variable (hal : w.AllCompleted J.taskID) (hou : J.taskID ∉ w.taskSets .inProgress)
  (hun : w.Unfinished J.taskID)
include hal hou hun

/-- **A task that waits** until a finalizer moves it. If the finalizer does not learn that it has, the task is
lost. -/
theorem Progress.step_waiting (hin : J.taskID ∈ w.taskSets .finalizing)
    (hn : ∀ i, ¬ (φ i).Finalizing J.taskID) (hm : c.firstMove J.taskID → ch.refused = false) :
    Progress codec J w' (update φ i ((φ i).after c x)) := by
  have hov : ¬ (φ i).Over J.taskID := fun h => hn i (.inr h)
  obtain ⟨hi', ha'⟩ := hi.step_of_allCompleted hal ho ha hov ht hst
  by_cases hf : φ i = .holding J.taskID ∧ c.firstMove J.taskID
  · obtain ⟨hd, now, rfl⟩ := hf
    obtain rfl := eq_effect_of_not_refused hst (hm ⟨now, rfl⟩)
    obtain ⟨hta, hse⟩ := move_of_mem .finalize now (by decide) hin
    have hun' := hun.stamp (by decide) hta
    have ho₁ := mt (hse .inProgress).1 (by simp [hou])
    have ho₂ := mt (hse .finalizing).1 (by simp)
    cases x with
    | ok =>
      refine .gathering hi' ha' ho₁ ho₂ hun' ?_ i ?_ ?_
      · refine forall_update (p := fun d => ¬ d.Over J.taskID) (fun j h => hn j (.inr h)) ?_
        rintro ⟨keys, h⟩
        cases h
      · rw [update_self]
        exact rfl
      · rw [update_self]
        exact trivial
    | error =>
      exact .abandon hun' ho₁ ho₂
        (forall_update (p := fun d => ¬ d.Gathering J.taskID) (fun j h => hn j (.inl h)) id)
  · have hs : SameTask w w' J.taskID := by
      rcases sameTask_or_subject hst J.taskID with hs | ⟨r, rfl, rfl, hr⟩
      · exact hs
      · rcases subject_cases ha hr with
          ⟨hd, now, rfl⟩ | ⟨hd, now, rfl⟩ | ⟨hd, -⟩ | ⟨hd, -⟩
        · exact sameTask_move_of_notMem (by decide) hou
        · exact absurd ⟨hd, now, rfl⟩ hf
        · exact absurd (.inl hd) (hn i)
        · exact absurd hd hov
    refine .waiting hi' ha' (fun h => hou ((hs.2 _).1 h)) ((hs.2 _).2 hin)
      (hun.congr hs) (forall_update (p := fun d => ¬ d.Finalizing J.taskID) hn fun h => ?_)
    exact (finalizing_step ha h).elim (hn i) hf

variable (ho' : J.taskID ∉ w.taskSets .finalizing) (hn : ∀ i, ¬ (φ i).Over J.taskID)
include ho' hn

/-- **A task whose results are gathered**, while somebody else issues a command. -/
theorem Progress.step_gathering_other {k : Proc} (hk : (φ k).Gathering J.taskID)
    (hco : (φ k).Collects w) (hki : k ≠ i) : Progress codec J w' (update φ i ((φ i).after c x)) := by
  have hov := hn i
  obtain ⟨hi', ha'⟩ := hi.step_of_allCompleted hal ho ha hov ht hst
  -- the lock keeps everybody else out
  have hre : ¬ (φ i).Relies J.taskID := fun h => hki (ho.alone (.inr hk) h)
  have hsa : SameTask w w' J.taskID := by
    rcases sameTask_or_subject hst J.taskID with hsa | ⟨r, rfl, rfl, hr⟩
    · exact hsa
    · rcases subject_cases ha hr with
        ⟨hd, now, rfl⟩ | ⟨hd, -⟩ | ⟨hd, -⟩ | ⟨hd, -⟩
      · exact sameTask_move_of_notMem (by decide) hou
      · exact absurd (.inl hd) hre
      · exact absurd (.inr hd) hre
      · exact absurd hd hov
  have hf : ∀ uuid, (φ k).Names uuid →
      w'.objects.lookup (outputKey uuid) = w.objects.lookup (outputKey uuid) ∧
        w'.objects.lookup (errorKey uuid) = w.objects.lookup (errorKey uuid) := by
    intro uuid hna
    rcases step_cases hst with ⟨r, rfl, rfl | rfl⟩ | ⟨usedIDs, replies, rfl⟩
    · exact ⟨rfl, rfl⟩
    · constructor
      · exact lookup_outputKey_effect ha (ho.tidy i) w fun c hc heq =>
          hki (ho.files.alone k i uuid hna (by rw [hc]; exact .inl heq))
      · exact lookup_errorKey_effect ha (ho.tidy i) w fun c hc heq =>
          hki (ho.files.alone k i uuid hna (by rw [hc]; exact .inr heq))
    · exact ⟨rfl, rfl⟩
  refine .gathering hi' ha' (fun h => hou ((hsa.2 _).1 h)) (fun h => ho' ((hsa.2 _).1 h))
    (hun.congr hsa) ?_ k ?_ ?_
  · refine forall_update (p := fun d => ¬ d.Over J.taskID) hn fun h => ?_
    rcases finalizing_step ha (.inr h) with (hd | hd) | ⟨hd, -⟩
    · exact hre (.inr hd)
    · exact hov hd
    · exact hre (.inl hd)
  · rw [update_of_ne hki]
    exact hk
  · rw [update_of_ne hki]
    refine hco.frame hk (hi.sameShard_step hal ha (ho.tidy i) hov hst) ?_ hf
    rw [shardSets_of_allCompleted ha hov hal hst]

/-- **The finalizer issues a command**: it goes on gathering, it gives up, or it completes the task. -/
theorem Progress.step_gathering_own (hga : (φ i).Gathering J.taskID) (hco : (φ i).Collects w) :
    Progress codec J w' (update φ i ((φ i).after c x)) := by
  have hov := hn i
  obtain ⟨hga', ha'⟩ := hi.step_of_allCompleted hal ho ha hov ht hst
  have hot : ¬ ((φ i).after c x).Gathering J.taskID →
      ∀ j, ¬ (update φ i ((φ i).after c x) j).Gathering J.taskID := by
    intro haf j hj
    rw [update_apply] at hj
    split at hj
    · exact haf hj
    · next hji => exact hji (ho.alone (.inr hj) (.inr hga))
  rcases sameTask_or_subject hst J.taskID with hsa | ⟨r, rfl, rfl, hr⟩
  · have hun' := hun.congr hsa
    have ho₁ := fun h => hou ((hsa.2 _).1 h)
    have ho₂ := fun h => ho' ((hsa.2 _).1 h)
    by_cases haf : ((φ i).after c x).Gathering J.taskID
    · refine .gathering hga' ha' ho₁ ho₂ hun' ?_ i ?_ ?_
      · refine forall_update (p := fun d => ¬ d.Over J.taskID) hn ?_
        rintro ⟨keys, h⟩
        rw [h] at haf
        exact haf
      · rwa [update_self]
      · rw [update_self]
        refine hco.step hga ha (ho.tidy i) (fun task ht => (hun task ht).2)
          ho.files.unwritten (hi.sameShard_step hal ha (ho.tidy i) hov hst) ?_ hst
          haf
        rw [shardSets_of_allCompleted ha hov hal hst]
    · exact .abandon hun' ho₁ ho₂ (hot haf)
  · have hd : ∃ fields, r = .updateTaskFields J.taskID fields := by
      rcases subject_cases ha hr with ⟨hd, -⟩ | ⟨hd, -⟩ | ⟨-, hd⟩ | ⟨hd, -⟩
      · rw [hd] at hga
        exact hga.elim
      · rw [hd] at hga
        exact hga.elim
      · exact hd
      · exact absurd hd hov
    obtain ⟨fields, rfl⟩ := hd
    refine .settled hou ho' (hot id) fun task ht _ => ?_
    have hf := ha
    obtain ⟨c, hc, hts, -⟩ := hf
    rw [hc] at hco
    exact delivered_complete hi hal ho.files hun hc hts hco ha ht

end

/-- **A task that is over** stays as it is, whoever cleans up. -/
theorem Progress.step_settled (ho : Orderly w ψ φ) (hou : J.taskID ∉ w.taskSets .inProgress)
    (ho' : J.taskID ∉ w.taskSets .finalizing) (hn : ∀ i, ¬ (φ i).Gathering J.taskID)
    (hde : ∀ task, w.tasks J.taskID = some task → task.status = .completed → Delivered codec J w φ task)
    (ha : (φ i).Allowed codec i.asWorker c) (hst : Batch.step w c ch = some (w', x)) :
    Progress codec J w' (update φ i ((φ i).after c x)) := by
  have hn' : ∀ j, ¬ (update φ i ((φ i).after c x) j).Gathering J.taskID :=
    forall_update (p := fun d => ¬ d.Gathering J.taskID) hn fun h =>
      (gathering_step ha hst h).elim (hn i) ho'
  have hk : w'.tasks J.taskID = w.tasks J.taskID →
      ∀ task, w'.tasks J.taskID = some task → task.status = .completed →
        Delivered codec J w' (update φ i ((φ i).after c x)) task := by
    intro hta task ht hc
    rw [hta] at ht
    exact (hde task ht hc).step ha (ho.tidy i) hst
  have hs : SameTask w w' J.taskID → Progress codec J w' (update φ i ((φ i).after c x)) := fun hs =>
    .settled (fun h => hou ((hs.2 _).1 h)) (fun h => ho' ((hs.2 _).1 h)) hn' (hk hs.1)
  rcases sameTask_or_subject hst J.taskID with h | ⟨r, rfl, rfl, hr⟩
  · exact hs h
  rcases subject_cases ha hr with
    ⟨-, now, rfl⟩ | ⟨-, now, rfl⟩ | ⟨hd, -⟩ | ⟨-, rfl⟩
  · exact hs (sameTask_move_of_notMem (by decide) hou)
  · exact hs (sameTask_move_of_notMem (by decide) ho')
  · exact absurd hd (hn i)
  · refine .settled (fun h => hou ?_) (fun h => ho' ?_) hn' (hk rfl)
    · exact mem_of_mem_moveScript (by decide) (by decide) h
    · exact mem_of_mem_moveScript (by decide) (by decide) h

/-- **Every command of workers and finalizers**, unless it takes over a shard that is not in progress or is a
first move that is refused. -/
theorem Progress.step (h : Progress codec J w φ) (ho : Orderly w ψ φ)
    (ha : (φ i).Allowed codec i.asWorker c)
    (ht : ∀ s, c.takeover = some (J.taskID, s) → s ∈ w.shardSets J.taskID .inProgress)
    (hm : c.firstMove J.taskID → ch.refused = false) (hs : Batch.step w c ch = some (w', x)) :
    Progress codec J w' (update φ i ((φ i).after c x)) := by
  cases h with
  | working hi hin hou hun hn =>
    exact step_working ho hi ha ht hs hin hou hun hn
  | waiting hi hal hou hin hun hn =>
    exact step_waiting ho hi ha ht hs hal hou hun hin hn hm
  | gathering hi hal hou ho' hun hn k hk hc =>
    by_cases hki : k = i
    · subst hki
      exact step_gathering_own ho hi ha ht hs hal hou hun ho' hn hk hc
    · exact step_gathering_other ho hi ha ht hs hal hou hun ho' hn hk hc hki
  | settled hou ho' hn hde =>
    exact step_settled ho hou ho' hn hde ha hs

/-- A goroutine ends or dies.  If it was gathering, the task will never be completed. -/
theorem Progress.forget (h : Progress codec J w φ) (ho : Orderly w ψ φ) (i : Proc) :
    Progress codec J w (update φ i .idle) := by
  have hid : ∀ t, ¬ Duty.Attends .idle t := by
    rintro t (h | h | h | ⟨keys, h⟩) <;> cases h
  cases h with
  | working hi hin hou hun hn =>
    exact .working (hi.forget i) hin hou hun (forall_update (p := fun d => ¬ d.Attends J.taskID) hn (hid _))
  | waiting hi ha hou hin hun hn =>
    exact .waiting (hi.forget i) ha hou hin hun
      (forall_update (p := fun d => ¬ d.Finalizing J.taskID) hn fun h => hid _ (.inr (.inr h)))
  | gathering hi ha hou ho' hun hn k hk hco =>
    by_cases hki : k = i
    · subst hki
      refine .abandon hun hou ho' fun j hj => ?_
      rw [update_apply] at hj
      split at hj
      · exact hj
      · next hjk => exact hjk (ho.alone (.inr hj) (.inr hk))
    · refine .gathering (hi.forget i) ha hou ho' hun (forall_update (p := fun d => ¬ d.Over J.taskID) hn
          fun h => hid _ (.inr (.inr (.inr h)))) k ?_ ?_
      · rwa [update_of_ne hki]
      · rwa [update_of_ne hki]
  | settled hou ho' hn hde =>
    exact .settled hou ho' (forall_update (p := fun d => ¬ d.Gathering J.taskID) hn id)
      fun task ht hc => (hde task ht hc).forget i

theorem Progress.tick (h : Progress codec J w φ) {ms : Nat} (ht : Batch.tick w ms = some w') :
    Progress codec J w' φ := by
  cases ht
  cases h with
  | working hi hin ho hun hn =>
    exact .working (hi.congr rfl rfl rfl) hin ho hun hn
  | waiting hi ha ho hin hun hn =>
    exact .waiting (hi.congr rfl rfl rfl) ha ho hin hun hn
  | gathering hi ha ho ho' hun hn k hk hco =>
    exact .gathering (hi.congr rfl rfl rfl) ha ho ho' hun hn k hk
      (hco.frame hk (fun _ => ⟨rfl, rfl, rfl⟩) rfl fun _ _ => ⟨rfl, rfl⟩)
  | settled ho ho' hn hde =>
    exact .settled ho ho' hn fun task hta hc =>
      (hde task hta hc).congr rfl rfl

end

end Llumnix.Batch
