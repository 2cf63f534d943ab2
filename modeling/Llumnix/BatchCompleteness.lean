/-
**A completed task has answered every line, once.**

Any number of workers and finalizers may work on a validated task, crash, lose answers and take over from
each other.  If its record says `completed` in the end, the output file and the error file together hold one
response for every line that was not blank, and the counts add up.

This needs that locks outlive the work under them, that the lock of a shard is only taken over while the
shard is in progress, and that the first move of a finalization is executed.

* `completed_answers_all` — **every run of workers and finalizers**.
-/

import Llumnix.BatchProgress

namespace Llumnix.Batch

open GuardedRun Interaction Processes FiniteMap Option List

variable {γ : Gateway} {content : Bytes} {w : World} {t : String}

/-! ### A validated task -/

def fileShards (γ : Gateway) (content : Bytes) : List (List Bytes) :=
  shardPlan γ.batchLinesPerShard (splitLines content)

/-- **A task whose input file has been validated** and cut into shards, and on which nobody has worked
yet. -/
structure World.Validated (γ : Gateway) (w : World) (t : String) (content : Bytes) : Prop where
  inProgress : t ∈ w.taskSets .inProgress
  notFinalizing : t ∉ w.taskSets .finalizing
  unfinished : w.Unfinished t
  /-- The shards are numbered, and all of them are pending. -/
  pending : ∀ s, s ∈ w.shardSets t .pending ↔ ∃ k < (fileShards γ content).length, s = toString k
  others : ∀ st, st ≠ .pending → w.shardSets t st = ∅
  inputs : ∀ (k : Nat) lines, (fileShards γ content)[k]? = some lines →
    w.objects.lookup (.shardInput t (toString k)) = some (joinLines lines)
  /-- No file is named after a UUID that has not been drawn yet. -/
  fresh : ∀ uuid, uuid ∉ w.usedIDs →
    w.objects.lookup (outputKey uuid) = none ∧ w.objects.lookup (errorKey uuid) = none

theorem mem_requestLines_of_fileShards {shard : List Bytes} (h : shard ∈ fileShards γ content)
    {line : Bytes} (hline : line ∈ shard) : line ∈ requestLines (splitLines content) := by
  rw [← flatten_shardPlan γ.batchLinesPerShard]
  exact mem_flatten.2 ⟨shard, h, hline⟩

def shardLines (γ : Gateway) (content : Bytes) (s : String) : List Bytes :=
  s.toNat?.elim [] fun k => (fileShards γ content)[k]?.getD []

theorem shardLines_toString (γ : Gateway) (content : Bytes) (k : Nat) :
    shardLines γ content (toString k) = (fileShards γ content)[k]?.getD [] := by
  rw [shardLines, Nat.toString_eq_repr, Nat.toNat?_repr, elim_some]

def shardNames (γ : Gateway) (content : Bytes) : List String :=
  (List.range (fileShards γ content).length).map toString

theorem mem_shardNames {s : String} :
    s ∈ shardNames γ content ↔ ∃ k < (fileShards γ content).length, s = toString k := by
  simp [shardNames, eq_comm]

theorem nodup_shardNames (γ : Gateway) (content : Bytes) : (shardNames γ content).Nodup :=
  nodup_range.map fun _ _ h => Nat.repr_inj.1 h

theorem flatMap_shardNames (γ : Gateway) (content : Bytes) :
    (shardNames γ content).flatMap (shardLines γ content) = requestLines (splitLines content) := by
  have ha : (shardNames γ content).map (shardLines γ content) = fileShards γ content := by
    refine ext_getElem (by simp [shardNames]) fun k hk hk' => ?_
    simp only [shardNames, getElem_map, getElem_range, shardLines_toString,
      getElem?_eq_getElem hk', getD_some]
  rw [flatMap_def, ha]
  exact flatten_shardPlan γ.batchLinesPerShard (splitLines content)

/-- The lines of a shard of the file are lines that a worker reads back. -/
theorem shardLines_spec {s : String} (hs : s ∈ (shardNames γ content).toFinset) :
    shardLines γ content s ∈ fileShards γ content := by
  obtain ⟨k, hk, rfl⟩ := mem_shardNames.1 (List.mem_toFinset.1 hs)
  rw [shardLines_toString, getElem?_eq_getElem hk, getD_some]
  exact getElem_mem hk

def fileJob (γ : Gateway) (t : String) (content : Bytes) : Job where
  taskID := t
  ids := (shardNames γ content).toFinset
  lines := shardLines γ content
  ne_nil _ hs := ne_nil_of_mem_shardPlanFrom (shardLines_spec hs)
  nonempty s hs line hline := by
    have hline := mem_requestLines_of_fileShards (shardLines_spec hs) hline
    simpa using (List.mem_filter.1 hline).2
  newline_notMem s hs line hline :=
    newline_notMem_of_mem_requestLines (mem_requestLines_of_fileShards (shardLines_spec hs) hline)

theorem World.Validated.progress (h : w.Validated γ t content) :
    Progress γ.codec (fileJob γ t content) w fun _ => .idle := by
  have hp : ∀ s st, s ∈ w.shardSets t st → st = .pending := by
    intro s st hs
    by_contra hne
    rw [h.others st hne] at hs
    exact absurd hs (Finset.notMem_empty s)
  have hm : ∀ s, s ∈ w.shardSets t .pending ↔ s ∈ (shardNames γ content).toFinset := by
    intro s
    rw [h.pending, List.mem_toFinset, mem_shardNames]
  refine .working ⟨?_, ?_, h.others _ (by decide), ?_, ?_, ?_, fun _ => trivial⟩ h.inProgress
    h.notFinalizing h.unfinished ?_
  · intro s st st' hs hs'
    rw [hp s st hs, hp s st' hs']
  · intro s
    refine ⟨?_, fun hs => ⟨.pending, (hm s).2 hs⟩⟩
    rintro ⟨st, hs⟩
    cases hp s st hs
    exact (hm s).1 hs
  · intro s hs
    obtain ⟨k, hk, rfl⟩ := mem_shardNames.1 (List.mem_toFinset.1 hs)
    change w.objects.lookup (.shardInput t (toString k))
      = some (joinLines (shardLines γ content (toString k)))
    rw [shardLines_toString, getElem?_eq_getElem hk, getD_some]
    exact h.inputs k _ (getElem?_eq_getElem hk)
  · intro s hs
    cases hp s _ hs
  · exact fun _ _ hb => hb.window.elim
  · rintro i (h | h | h | ⟨keys, h⟩) <;> cases h

/-! ### All runs of workers and finalizers -/

def onDutyOnly : Event → Bool
  | .spawn i _ | .run i _ | .crash i => i.onDuty
  | .env _ => true

/-- The first move of a finalization is executed, whether its answer arrives or not. -/
def FirstMoveKept (σ : System) : Event → Prop
  | .run i ch => ∀ c ∈ σ.next i, ∀ t, c.firstMove t → ch.refused = false
  | _ => True

/-- **The guard**: no lock expires under a goroutine that works under it, a shard lock is only taken over
while the shard is in progress, and the first move of a finalization is executed. -/
def DutiesGuarded (γ : Gateway) (σ : System) (e : Event) : Prop :=
  LocksKept σ e ∧ ShardsGuarded γ σ e ∧ FirstMoveKept σ e

theorem orderly_idle (h : ∀ uuid, uuid ∉ w.usedIDs →
      w.objects.lookup (outputKey uuid) = none ∧ w.objects.lookup (errorKey uuid) = none) :
    Orderly w (fun _ => .outside) fun _ => .idle where
  exclusive := exclusive_idle w
  linked _ _ hr := by
    rcases hr with hr | hr
    · cases hr
    · exact hr.elim
  held _ _ _ hw := hw.elim
  tidy _ _ _ heq := by cases heq
  files := ⟨fun _ _ hn => hn.elim, fun _ _ _ hn => hn.elim, h⟩

/-- **In every state reached, goroutines are out of each other's way and the task is in one of its
stages.** -/
theorem progress_of_reaches {J : Job} {σ₀ σ : System}
    (h : Reaches (exec (machine γ)) (fun σ e => onDutyOnly e = true ∧ DutiesGuarded γ σ e) σ₀ σ)
    (h₀ : σ₀.Obeys fun i => (custodies i).prod (duties γ i))
    (ho : Orderly σ₀.store (σ₀.phase custodies) (σ₀.phase (duties γ)))
    (hp : Progress γ.codec J σ₀.store (σ₀.phase (duties γ))) :
    Orderly σ.store (σ.phase custodies) (σ.phase (duties γ)) ∧
      Progress γ.codec J σ.store (σ.phase (duties γ)) := by
  refine phase_invariant_prod (Q := fun w ψ φ => Orderly w ψ φ ∧ Progress γ.codec J w φ)
    (fun _ i j _ => program_follows γ i j) (fun _ _ j hok => onDuty_follows γ hok.1 j) ?_ ?_ ?_ h h₀ ⟨ho, hp⟩
  · rintro σ i c ch w x ⟨-, -, hs, hm⟩ hn hc hdu hst ⟨ho, hp⟩
    refine ⟨ho.step hc hdu hst, hp.step ho hdu (fun s hta => ?_) ?_ hst⟩
    · exact hs c hn (J.taskID, s) hta
    · exact hm c hn J.taskID
  · rintro w ψ φ i ⟨ho, hp⟩
    exact ⟨ho.forget i, hp.forget ho i⟩
  · rintro σ ms w ⟨-, hl, hs, -⟩ ht ⟨ho, hp⟩
    have he := ho.exclusive.tick hl ht
    have hh := ho.held.tick hs ht
    refine ⟨⟨he, ho.linked, hh, ho.tidy, ?_⟩, hp.tick ht⟩
    cases ht
    exact ⟨ho.files.used, ho.files.alone, ho.files.unwritten⟩

/-! ### Completeness -/

/-- The lines of a file that a record names. -/
def World.fileLines (w : World) (fileID : Option String) : List Bytes :=
  fileID.elim [] fun id => splitLines ((w.objects.lookup (.file id)).getD [])

/-- **One response for every line that is not blank**, in one of the two files, and counts that add up. -/
def World.AnswersAll (w : World) (codec : Codec) (t : String) (content : Bytes) (task : BatchTask) :
    Prop :=
  (∃ lines, lines.Perm (requestLines (splitLines content)) ∧
    Answers codec t lines (w.fileLines task.outputFileID) (w.fileLines task.errorFileID)) ∧
  ∃ counts, task.requestCounts = some counts ∧
    counts.total = (requestLines (splitLines content)).length ∧
    counts.total = counts.completed + counts.failed

/-- The shards in any order hold the lines of the file in some order. -/
theorem perm_requestLines {order : List String} (h : Enumerates order (fileJob γ t content).ids) :
    (order.flatMap (fileJob γ t content).lines).Perm (requestLines (splitLines content)) := by
  have hn : order.Perm (shardNames γ content) :=
    (perm_ext_iff_of_nodup h.1 (nodup_shardNames γ content)).2 fun s =>
      (h.2 s).trans List.mem_toFinset
  rw [← flatMap_shardNames γ content]
  exact hn.flatMap_right _

theorem Delivered.answersAll {φ : Proc → Duty} {task : BatchTask}
    (h : Delivered γ.codec (fileJob γ t content) w φ task) : w.AnswersAll γ.codec t content task := by
  obtain ⟨order, outs, errs, outputUUID, errorUUID, h⟩ := h
  have hp := perm_requestLines h.all
  obtain ⟨hn, hn'⟩ := h.answers.newline_notMem
  have ho : w.fileLines task.outputFileID = outs := by
    have hf := h.output
    rw [outputKey] at hf
    rw [h.outputFile, World.fileLines, elim_some, hf, splitLines_unlines hn]
  have he : w.fileLines task.errorFileID = errs := by
    rcases h.errorFile with hf | ⟨hf, rfl⟩
    · have he := h.errors
      rw [errorKey] at he
      rw [hf, World.fileLines, elim_some, he, splitLines_unlines hn']
    · rw [hf, World.fileLines, elim_none]
  refine ⟨⟨_, hp, ?_⟩, _, h.counts, ?_, rfl⟩
  · rw [ho, he]
    exact h.answers
  · exact h.answers.length.trans hp.length_eq

/-- **A completed task has answered every line of its file exactly once, and its counts say so**, in every
guarded run of any number of workers and finalizers. -/
theorem completed_answers_all (γ : Gateway) {w₀ : World} {t : String} {content : Bytes}
    (h₀ : w₀.Validated γ t content) {σ : System}
    (hσ : Reaches (exec (machine γ)) (fun σ e => onDutyOnly e = true ∧ DutiesGuarded γ σ e) (.idle w₀) σ)
    {task : BatchTask} (htask : σ.store.tasks t = some task) (hcompleted : task.status = .completed) :
    σ.store.AnswersAll γ.codec t content task := by
  have hp := (progress_of_reaches (J := fileJob γ t content) hσ (obeys_idle w₀)
    (orderly_idle h₀.fresh) h₀.progress).2
  cases hp with
  | working _ _ _ hun | waiting _ _ _ _ hun | gathering _ _ _ _ hun => exact absurd hcompleted (hun task htask).1
  | settled _ _ _ hde => exact (hde task htask hcompleted).answersAll

/-! ### Runs of the sample task -/

/-- The input file of the sample task: three lines. -/
def sampleContent : Bytes := [120, 10, 121, 10, 122, 10]

theorem sampleSharded_validated : sampleSharded.Validated sampleGateway "batch_1" sampleContent where
  inProgress := by decide
  notFinalizing := by decide
  unfinished task ht := by
    cases ht
    exact ⟨by decide, by decide⟩
  pending s := by
    constructor
    · intro hs
      have hs : s ∈ ({"0", "1"} : Finset String) := hs
      rcases Finset.mem_insert.1 hs with rfl | hs
      · exact ⟨0, by decide, rfl⟩
      · exact ⟨1, by decide, Finset.mem_singleton.1 hs⟩
    · rintro ⟨k, hk, rfl⟩
      have hk : k < 2 := hk
      interval_cases k <;> decide
  others st hst := by
    simp [sampleSharded, hst]
  inputs k lines hl := by
    have hk : k < 2 := (List.getElem?_eq_some_iff.1 hl).1
    interval_cases k <;> cases hl <;> decide
  fresh uuid _ := by
    constructor <;> rfl

/-- A worker that has completed the last shard moves the task on. -/
def moveOn (instanceID : String) : List Event := steps (.worker instanceID 0) (plain 4)

/-- A finalizer collects the given results and completes the task, in `n` steps. -/
def collect (keys : List ObjectKey) (n : Nat) : List Event :=
  turn (.finalizer "a") .turn ({ pick := "batch_1" } :: plain 4 ++
    [{ order := ["0", "1"] }, { keys := keys }, { uuid := "5" }, { uuid := "6" }] ++ plain n)

/-- A stronger guard that can be evaluated: no time passes, and nothing is refused. -/
def DutiesUndisturbed (σ : System) : Event → Prop
  | .env _ => False
  | .run i ch => i.onDuty = true ∧ ch.refused = false ∧ ∀ c ∈ σ.next i, ∀ shard ∈ c.takeover,
      shard.2 ∈ σ.store.shardSets shard.1 .inProgress
  | .spawn i _ | .crash i => i.onDuty = true

instance (σ : System) : (e : Event) → Decidable (DutiesUndisturbed σ e) := by
  rintro (_ | _ | _ | _) <;> (dsimp only [DutiesUndisturbed]; infer_instance)

theorem guarded_of_dutiesUndisturbed (γ : Gateway) {σ : System} {e : Event} (h : DutiesUndisturbed σ e) :
    onDutyOnly e = true ∧ DutiesGuarded γ σ e := by
  cases e with
  | env => exact h.elim
  | run => exact ⟨h.1, trivial, h.2.2, fun _ _ _ _ => h.2.1⟩
  | spawn | crash => exact ⟨h, trivial, trivial, trivial⟩

theorem completed_answers_all_sampleSharded :
    ∃ (σ : System) (task : BatchTask), σ.store.tasks "batch_1" = some task ∧ task.status = .completed ∧
      σ.store.AnswersAll sampleGateway.codec "batch_1" sampleContent task := by
  have hr : ∃ σ ∈ runAll (exec (machine sampleGateway)) DutiesUndisturbed (.idle sampleSharded)
      (takeShard "a" "0" ++ takeShard "b" "1" ++ finishShard "a" ["2", "3"] ++
        finishShard "b" ["4"] ++ moveOn "b" ++
          collect [.shardOutput "batch_1" "0", .shardOutput "batch_1" "1"] 11),
            ∃ task ∈ σ.store.tasks "batch_1", task.status = .completed := by decide
  obtain ⟨σ, hσ, task, ht, hc⟩ := Reaches.of_exists hr
  exact ⟨σ, task, ht, hc, completed_answers_all sampleGateway sampleSharded_validated
    (hσ.mono fun _ _ => guarded_of_dutiesUndisturbed sampleGateway) ht hc⟩

/-- **A completed task without two of its lines.** A worker takes over the free lock of a completed shard and
removes its results, and before it has stored new ones the task is finalized. -/
theorem stale_failover_loses_lines :
    ¬ ∀ (γ : Gateway) (w₀ : World) (t : String) (content : Bytes), w₀.Validated γ t content →
      ∀ σ : System, Reaches (exec (machine γ)) (fun _ e => onDutyOnly e = true) (.idle w₀) σ →
        ∀ task, σ.store.tasks t = some task → task.status = .completed →
          σ.store.AnswersAll γ.codec t content task := by
  intro hal
  have hr : ∃ σ ∈ runAll (exec (machine sampleGateway)) (fun _ e => onDutyOnly e = true)
      (.idle sampleSharded) (takeShard "a" "0" ++ takeShard "b" "1" ++ listInProgress "c" ++
        finishShard "a" ["2", "3"] ++ takeOverListed "c" ++ steps (.worker "c" 0) (plain 3) ++
          finishShard "b" ["4"] ++ moveOn "b" ++ collect [.shardOutput "batch_1" "1"] 9),
            ∃ task ∈ σ.store.tasks "batch_1", task.status = .completed ∧
              (σ.store.fileLines task.outputFileID).length +
                (σ.store.fileLines task.errorFileID).length = 1 := by decide
  obtain ⟨σ, hσ, task, ht, hc, hf⟩ := Reaches.of_exists hr
  obtain ⟨⟨lines, hp, ha⟩, -⟩ := hal sampleGateway _ _ _ sampleSharded_validated σ hσ task ht hc
  have hl := ha.length.symm.trans hf
  rw [hp.length_eq] at hl
  exact absurd hl (by decide)

end Llumnix.Batch
