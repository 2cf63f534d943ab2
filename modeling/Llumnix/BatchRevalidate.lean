/-
**A validation that is cut off, and another one.**

A gateway that validates a task may crash after any of its commands.  When its lock has expired and the task
has not been updated for a while, some validating reactor takes the task up again, if the hash says
`validating`: it cleans up the shards and validates the task from the start.

The second validation leaves what the first one would have left, unless the crash came at one of two points.
`UpdateTaskFields` writes back the status that the task had when it was loaded, which is `pending` at the
first validation; and `UpdateTaskFailure` writes `failed` before the task leaves the `validating` set.

* `sharding_faithful` — **the stored shards, read back in order, are the lines of the file**;
* `recovers_iff` — **a crash is made good unless it came at one of the two points**.
-/

import Llumnix.BatchCompleteness
import Llumnix.BatchFinalize

namespace Llumnix.Batch

open FiniteMap Interaction Interaction.Prog Function Option Safe BatchTaskStatus List Nat Finset ObjectKey Prog.Ends

variable {w : World}

/-! ### What a validation leaves behind -/

variable (instanceID : String) (γ : Gateway)

/-- The verdict of `ValidateBatchFile` on the content of a file. -/
def verdictOn (content : Bytes) : Except String Unit :=
  validateBatchFile γ.codec (splitLines content)

/-- The status a validation ends with. -/
def goal (content : Bytes) : BatchTaskStatus :=
  match verdictOn γ content with
  | .ok _ => .inProgress
  | .error _ => .failed

def shardCount (content : Bytes) : Nat :=
  match verdictOn γ content with
  | .ok _ => (fileShards γ content).length
  | .error _ => 0

/-- The first `j` shards of a task have been made, and nothing else is there of its shards but records. -/
structure World.Cut (γ : Gateway) (w : World) (t : String) (content : Bytes) (j : Nat) : Prop where
  pending : ∀ s, s ∈ w.shardSets t .pending ↔ ∃ k < j, s = toString k
  others : ∀ st, st ≠ .pending → w.shardSets t st = ∅
  records : ∀ k < j, ∀ lines, (fileShards γ content)[k]? = some lines →
    ∃ shard, w.shards t (toString k) = some shard ∧ shard.id = toString k ∧
      shard.requestCounts = some ⟨lines.length, 0, 0⟩
  inputs : ∀ k < j, ∀ lines, (fileShards γ content)[k]? = some lines →
    w.objects.lookup (.shardInput t (toString k)) = some (joinLines lines)
  noInputs : ∀ s, (∀ k < j, s ≠ toString k) → w.objects.lookup (.shardInput t s) = none
  outputs : ∀ key : ObjectKey, key.underOutput t = true → w.objects.lookup key = none

/-- Every record of a shard has the name of a shard of the file. -/
def World.Numbered (w : World) (t : String) (content : Bytes) : Prop :=
  ∀ s, w.shards t s ≠ none → ∃ k < shardCount γ content, s = toString k

/-- **What a validation leaves behind**: the task is in progress with the shards of its file, or has failed.
-/
structure World.Settled (γ : Gateway) (w : World) (t : String) (content : Bytes) : Prop where
  sets : ∀ st, t ∈ w.taskSets st ↔ st = goal γ content
  status : (w.tasks t).map BatchTask.status = some (goal γ content)
  cut : w.Cut γ t content (shardCount γ content)
  numbered : w.Numbered γ t content

/-- The record of a task has this status, and its input file this content. -/
def World.Reads (w : World) (t : String) (status : BatchTaskStatus) (content : Bytes) : Prop :=
  ∃ task, w.tasks t = some task ∧ task.status = status ∧
    w.objects.lookup (.file task.inputFileID) = some content

/-- A task that has been created, and that nobody has validated yet. -/
structure World.Fresh (γ : Gateway) (w : World) (t : String) (content : Bytes) : Prop where
  sets : ∀ st, t ∈ w.taskSets st ↔ st = .pending
  reads : w.Reads t .pending content
  cut : w.Cut γ t content 0
  bare : ∀ s, w.shards t s = none

/-- A task in the middle of its validation.  There may be shards of it in any condition. -/
structure World.Underway (γ : Gateway) (w : World) (t : String) (content : Bytes) : Prop where
  sets : ∀ st, t ∈ w.taskSets st ↔ st = .validating
  reads : w.Reads t .validating content
  numbered : w.Numbered γ t content

def World.Resumable (w : World) (t : String) (content : Bytes) : Prop :=
  w.Fresh γ t content ∨ w.Underway γ t content

/-- A task in the `validating` set with another status. -/
structure World.Stuck (w : World) (t : String) : Prop where
  sets : ∀ st, t ∈ w.taskSets st ↔ st = .validating
  status : ∃ task, w.tasks t = some task ∧ task.status ≠ .validating

/-- **The two points**: after `UpdateTaskFailure`, or after an `UpdateTaskFields` of a status other than
`validating`. -/
def spoiled : List Cmd → Bool
  | [] => false
  | .remote (.updateTaskFailure _ _ _) :: _ => true
  | .remote (.updateTaskFields _ task) :: _ => decide (task.status ≠ .validating)
  | .remote _ :: _ => false
  | _ :: past => spoiled past

def Left (t : String) (content : Bytes) (past : List Cmd) (w : World) : Prop :=
  if spoiled past then w.Stuck t else w.Resumable γ t content ∨ w.Settled γ t content

section

variable {γ : Gateway} {w w' : World} {t : String} {content : Bytes} {past : List Cmd}

/-- What does not concern the shards of a task leaves them alone. -/
theorem World.Cut.of_same {j : Nat} (h : w.Cut γ t content j) (hse : w'.shardSets t = w.shardSets t)
    (hsh : w'.shards t = w.shards t)
    (ho : ∀ key : ObjectKey, key.underInput t = true ∨ key.underOutput t = true →
      w'.objects.lookup key = w.objects.lookup key) : w'.Cut γ t content j where
  pending := hse ▸ h.pending
  others := hse ▸ h.others
  records := hsh ▸ h.records
  inputs := fun k hk lines hl => by
    rw [ho _ (.inl (by simp [underInput]))]
    exact h.inputs k hk lines hl
  noInputs := fun s hs => by
    rw [ho _ (.inl (by simp [underInput]))]
    exact h.noInputs s hs
  outputs := fun key hke => by
    rw [ho key (.inr hke)]
    exact h.outputs key hke

theorem World.Settled.of_same (h : w.Settled γ t content) (ht : w'.taskSets = w.taskSets)
    (hta : w'.tasks = w.tasks) (hse : w'.shardSets = w.shardSets) (hs : w'.shards = w.shards)
    (ho : w'.objects = w.objects) : w'.Settled γ t content where
  sets := ht ▸ h.sets
  status := hta ▸ h.status
  cut := h.cut.of_same (by rw [hse]) (by rw [hs]) fun key _ => by rw [ho]
  numbered := fun s => hs ▸ h.numbered s

theorem World.Underway.of_same (h : w.Underway γ t content) (ht : w'.taskSets = w.taskSets)
    (hta : w'.tasks t = w.tasks t) (hf : ∀ f, w'.objects.lookup (.file f) = w.objects.lookup (.file f))
    (hsh : ∀ s, w'.shards t s ≠ none → w.shards t s ≠ none ∨ ∃ k < shardCount γ content, s = toString k) :
    w'.Underway γ t content where
  sets := ht ▸ h.sets
  reads := by
    obtain ⟨task, hts, hst, hfi⟩ := h.reads
    exact ⟨task, hta.trans hts, hst, (hf _).trans hfi⟩
  numbered := fun s hs => by
    rcases hsh s hs with hold | hn
    · exact h.numbered s hold
    · exact hn

theorem World.Resumable.task (h : w.Resumable γ t content) : ∃ task, w.tasks t = some task := by
  rcases h with h | h
  all_goals exact ⟨_, h.reads.choose_spec.1⟩

section

variable (hp : spoiled past = false)
include hp

theorem left_of_settled (h : w.Settled γ t content) : Left γ t content past w := by
  rw [Left, hp]
  exact .inr h

theorem left_of_resumable (h : w.Resumable γ t content) : Left γ t content past w := by
  rw [Left, hp]
  exact .inl h

theorem left_of_underway (h : w.Underway γ t content) : Left γ t content past w :=
  left_of_resumable hp (.inr h)

end

end

/-! ### The clean-up -/

section

variable {γ : Gateway} {w w' : World} {t : String} {content : Bytes}

theorem Shrunk.file (h : Shrunk t w w') (f : String) :
    w'.objects.lookup (.file f) = w.objects.lookup (.file f) := by
  rcases h.objects (.file f) with h | h | h
  · exact h
  · cases h
  · cases h

theorem underway_shrunk (h : w.Underway γ t content) (r : Remote) (past : List Cmd) (w' : World)
    (hr : r.taskLevel = false) (hs : Shrunk t w w') :
    spoiled (.remote r :: past) = false ∧ w'.Underway γ t content := by
  refine ⟨?_, h.of_same hs.taskSets (by rw [hs.tasks]) hs.file fun s hn => .inl ?_⟩
  · cases r with
    | updateTaskFailure | updateTaskFields => cases hr
    | _ => rfl
  · rcases hs.shards s with he | he
    · rwa [he] at hn
    · exact absurd he hn

theorem cut_zero (hg : ∀ key : ObjectKey, key.underInput t = true ∨ key.underOutput t = true →
      w.objects.lookup key = none) (he : ∀ st, w.shardSets t st = ∅) : w.Cut γ t content 0 where
  pending := fun s => by rw [he]; simp
  others := fun st _ => he st
  records := fun k hk => absurd hk (not_lt_zero k)
  inputs := fun k hk => absurd hk (not_lt_zero k)
  noInputs := fun s _ => hg _ (.inl (by simp [underInput]))
  outputs := fun key hke => hg key (.inr hke)

end

/-! ### Making the shards -/

section

variable {γ : Gateway} {t : String} {content : Bytes}
variable {j : Nat}

theorem toString_inj {k : Nat} : toString j = toString k ↔ j = k := by
  constructor
  · intro h
    have hj := congrArg String.toNat? h
    rw [toString_eq_repr, toString_eq_repr, toNat?_repr, toNat?_repr] at hj
    exact some.inj hj
  · exact congrArg _

theorem shardCount_of_ok (hv : verdictOn γ content = .ok ()) :
    shardCount γ content = (fileShards γ content).length := by
  rw [shardCount, hv]

theorem safe_createFileShard {lines : List Bytes} {past : List Cmd} {w : World}
    (hv : verdictOn γ content = .ok ()) (hl : (fileShards γ content)[j]? = some lines)
    (hpa : spoiled past = false) (hw : w.Underway γ t content) (hc : w.Cut γ t content j) :
    Safe step Works (Left γ t content) (fun past' w' x => (spoiled past' = false ∧ w'.Underway γ t content ∧
      w'.Cut γ t content (j + 1)) ∧ x = .ok ()) past w (createFileShard t (toString j) lines).run := by
  have hj : j < shardCount γ content := by
    rw [shardCount_of_ok hv]
    exact (List.getElem?_eq_some_iff.1 hl).1
  refine safe_orFail ?_
  refine safe_call (left_of_underway hpa hw) fun ch x hx => ?_
  cases hx
  have hpu : (effect w (.putObject (.shardInput t (toString j)) (joinLines lines))).Underway γ t content := by
    refine hw.of_same rfl rfl (fun f => ?_) fun s hs => .inl hs
    exact Finmap.lookup_insert_of_ne _ (by simp)
  refine ⟨left_of_underway rfl hpu, liftE ?_⟩
  refine ⟨left_of_underway rfl hpu, fun ch₁ w₁ now _ hcl => ?_⟩
  cases hcl
  refine ⟨left_of_underway rfl hpu, safe_orFail ?_⟩
  generalize hsh : (⟨toString j, unix ch₁.clock, some ⟨lines.length, 0, 0⟩, unix ch₁.clock⟩ :
    FileShard) = shard
  have hr : (effect (effect w (.putObject (.shardInput t (toString j)) (joinLines lines)))
      (.createOrUpdateFileShard t (toString j) shard)).Underway γ t content := by
    refine hpu.of_same rfl rfl (fun f => rfl) fun s hs => ?_
    simp only [effect, update_self, update_apply] at hs
    split at hs
    · next hsj => exact .inr ⟨j, hj, hsj⟩
    · exact .inl hs
  refine safe_call_last (left_of_underway rfl hpu) (left_of_underway rfl hr) fun ch₂ x hx => ?_
  cases hx
  have ha : ∀ {w₁ : World}, w₁.Underway γ t content →
      (effect w₁ (.addShardToPendingList t (toString j))).Underway γ t content :=
    fun h => h.of_same rfl rfl (fun f => rfl) fun s hs => .inl hs
  refine safe_orFail_last (safe_call_last (left_of_underway rfl hr) (left_of_underway rfl (ha hr))
    fun ch₃ x hx => ?_)
  cases hx
  refine ⟨⟨rfl, ha hr, ?_⟩, rfl⟩
  -- the shard has been added to those before
  have hold : ∀ k < j, toString k ≠ toString j := fun k hk h => Nat.ne_of_lt hk (toString_inj.1 h)
  refine ⟨fun s => ?_, fun st hst => ?_, forall_lt_succ_right.2 ⟨fun k hk => ?_, fun pieces hp => ?_⟩,
    forall_lt_succ_right.2 ⟨fun k hk => ?_, fun pieces hp => ?_⟩, fun s hs => ?_, fun key hke => ?_⟩ <;>
    simp only [effect, World.setShardSets, update_self]
  · rw [mem_insert, hc.pending, exists_lt_succ_right, or_comm]
  · rw [update_of_ne hst]
    exact hc.others st hst
  · rw [update_of_ne (hold k hk)]
    exact hc.records k hk
  · cases hp.symm.trans hl
    exact ⟨shard, rfl, by rw [← hsh], by rw [← hsh]⟩
  · rw [Finmap.lookup_insert_of_ne _ fun h => hold k hk (shardInput.inj h).2]
    exact hc.inputs k hk
  · cases hp.symm.trans hl
    exact Finmap.lookup_insert _
  · obtain ⟨hs, hsj⟩ := forall_lt_succ_right.1 hs
    rw [Finmap.lookup_insert_of_ne _ fun h => hsj (shardInput.inj h).2]
    exact hc.noInputs s hs
  · rw [Finmap.lookup_insert_of_ne]
    · exact hc.outputs key hke
    · rintro rfl
      simp [underOutput] at hke

/-- **The loop over the lines makes the shards of the file.** -/
theorem safe_shardLinesFrom (hv : verdictOn γ content = .ok ()) (lines current : List Bytes) (count : Nat)
    (made : List (List Bytes)) {past : List Cmd} {w : World}
    (hp : fileShards γ content = made ++ shardPlanFrom γ.batchLinesPerShard current lines)
    (hpa : spoiled past = false) (hw : w.Underway γ t content) (hc : w.Cut γ t content made.length) :
    Safe step Works (Left γ t content) (fun past' w' x => spoiled past' = false ∧ w'.Underway γ t content ∧
      w'.Cut γ t content (fileShards γ content).length ∧ ∃ n, x = .ok n) past w
      (shardLinesFrom γ t made.length count current lines).run := by
  induction lines generalizing current count made past w with
  | nil =>
    rw [shardPlanFrom] at hp
    rw [shardLinesFrom]
    split
    · next he =>
      rw [if_pos he, append_nil] at hp
      rw [hp]
      exact ⟨left_of_underway hpa hw, hpa, hw, hc, _, rfl⟩
    · next hne =>
      rw [if_neg hne] at hp
      refine bindE (mono ?_ (safe_createFileShard hv (by simp [hp]) hpa hw hc))
      rintro past' w' x hI ⟨⟨hp', hw', hc'⟩, rfl⟩
      refine ⟨hI, hp', hw', ?_, _, rfl⟩
      rw [hp, length_append]
      exact hc'
  | cons line lines ih =>
  rw [shardPlanFrom] at hp
  rw [shardLinesFrom]
  split
  · next hb =>
    rw [if_pos hb] at hp
    exact ih current count made hp hpa hw hc
  rename_i hline
  rw [if_neg hline] at hp
  rw [if_neg (by simp [taskStatusChanged])]
  split
  · next hf =>
    rw [if_pos hf] at hp
    refine bindE (mono ?_ (safe_createFileShard hv (by simp [hp]) hpa hw hc))
    rintro past' w' x - ⟨⟨hp', hw', hc'⟩, rfl⟩
    have hm : (made ++ [current ++ [trimSpace line]]).length = made.length + 1 := length_append
    rw [← hm] at hc' ⊢
    refine ih [] (count + 1) (made ++ [current ++ [trimSpace line]]) ?_ hp' hw' hc'
    rw [hp, append_assoc, singleton_append]
  · next hr =>
    rw [if_neg hr] at hp
    exact ih _ (count + 1) made hp hpa hw hc

end

/-! ### The shards that are stored -/

section

variable {γ : Gateway} {t : String} {w : World}

/-- The shards stored so far. -/
def World.Stores (w : World) (t : String) (made : List (List Bytes)) : Prop :=
  ∀ (k : Nat) lines, made[k]? = some lines →
    w.objects.lookup (.shardInput t (toString k)) = some (joinLines lines) ∧
      ∃ shard, w.shards t (toString k) = some shard ∧ shard.requestCounts = some ⟨lines.length, 0, 0⟩

/-- A shard is stored if all commands succeed. -/
theorem ends_createFileShard {made : List (List Bytes)} (lines : List Bytes) (hw : w.Stores t made) :
    Prog.Ends step (fun _ _ => True) (fun w' x => x = .ok () → w'.Stores t (made ++ [lines])) w
      (createFileShard t (toString made.length) lines).run := by
  refine ends_orFail ?_
  rintro ch w₁ (_ | _) _ hs
  · rintro ⟨⟩
  obtain ⟨rfl, -⟩ := step_remote_ok hs
  intro ch w₁ now _ hs
  cases hs
  refine ends_orFail ?_
  rintro ch w₁ (_ | _) _ hs
  · rintro ⟨⟩
  obtain ⟨rfl, -⟩ := step_remote_ok hs
  refine bind ?_
  rintro ch w₁ (_ | _) _ hs
  · rintro ⟨⟩
  obtain ⟨rfl, -⟩ := step_remote_ok hs
  intro _ k pieces hk
  simp only [effect, World.setShardSets, update_self, update_apply, lookup_insert_ite,
    shardInput.injEq, true_and, toString_inj]
  rw [getElem?_append] at hk
  split at hk
  · rename_i hlt
    rw [if_neg hlt.ne, if_neg hlt.ne]
    exact hw k pieces hk
  · obtain ⟨hl, rfl⟩ := List.getElem?_eq_some_iff.1 hk
    simp only [length_singleton] at hl
    obtain rfl : k = made.length := by omega
    simp

theorem length_of_mem_shardPlanFrom {n : Nat} {lines c shard : List Bytes} (hc : c.length < n)
    (h : shard ∈ (shardPlanFrom n c lines).dropLast) : shard.length = n := by
  induction lines generalizing c with
  | nil =>
    rw [shardPlanFrom] at h
    split at h <;> cases h
  | cons line lines ih =>
  rw [shardPlanFrom] at h
  split at h
  · exact ih hc h
  split at h
  · rename_i hf
    by_cases hn : shardPlanFrom n [] lines = []
    · simp [hn] at h
    · rw [dropLast_cons_of_ne_nil hn] at h
      rcases mem_cons.1 h with rfl | h
      · rw [length_append, length_singleton] at hf ⊢
        omega
      · exact @ih [] (Nat.zero_lt_of_lt hc) h
  · rename_i hr
    exact ih (not_le.1 hr) h

/-- **The loop stores the shards of the plan.** -/
theorem ends_shardLinesFrom (lines current : List Bytes) (made : List (List Bytes)) (count : Nat)
    (hw : w.Stores t made) : Prog.Ends step (fun _ _ => True) (fun w' x => ∀ n m, x = .ok (n, m) →
      n = count + (requestLines lines).length ∧
      m = (made ++ shardPlanFrom γ.batchLinesPerShard current lines).length ∧
      w'.Stores t (made ++ shardPlanFrom γ.batchLinesPerShard current lines)) w
      (shardLinesFrom γ t made.length count current lines).run := by
  induction lines generalizing current made count w with
  | nil =>
    rw [shardLinesFrom, shardPlanFrom]
    split
    · rintro n m ⟨⟩
      simpa [requestLines] using hw
    · refine bindE (mono ?_ (ends_createFileShard current hw))
      rintro w' (e | ⟨⟩) hx
      · rintro n m ⟨⟩
      rintro n m ⟨⟩
      simpa [requestLines] using hx rfl
  | cons line lines ih =>
  rw [shardLinesFrom, shardPlanFrom]
  split
  · rename_i hb
    have hc : requestLines (line :: lines) = requestLines lines := by simp [requestLines, hb]
    rw [hc]
    exact ih current made count hw
  rename_i hline
  have hc : requestLines (line :: lines) = trimSpace line :: requestLines lines := by
    simp [requestLines, hline]
  rw [hc, taskStatusChanged, if_neg Bool.false_ne_true]
  split
  · refine bindE (mono ?_ (ends_createFileShard _ hw))
    rintro w' (e | ⟨⟩) hx
    · rintro n m ⟨⟩
    simpa [add_assoc, add_comm 1] using ih [] _ (count + 1) (hx rfl)
  · simpa [add_assoc, add_comm 1] using ih (current ++ [trimSpace line]) made (count + 1) hw

/-- **Sharding is a partition of the lines of a file**: the shards in order are its lines, all but the last
are full, and the totals add up to the returned line count. -/
theorem sharding_faithful {content : Bytes} {h : List (Cmd × Choice)} {w' : World} {n m : Nat}
    (hp : 0 < γ.batchLinesPerShard)
    (hr : (shardInputFile γ t (splitLines content)).run.Solo step w h w' (.ok (n, m))) :
    ∃ shards : List (List Bytes × RequestCounts), shards.length = m ∧
      (∀ (k : Nat) shard, shards[k]? = some shard →
        (w'.objects.lookup (.shardInput t (toString k))).map splitLines = some shard.1 ∧
        (w'.shards t (toString k)).bind (·.requestCounts) = some shard.2 ∧ shard.1 ≠ []) ∧
      (∀ shard ∈ shards.dropLast, shard.1.length = γ.batchLinesPerShard) ∧
      (shards.map (·.1)).flatten = requestLines (splitLines content) ∧
      n = (requestLines (splitLines content)).length ∧ (shards.map (·.2.total)).sum = n := by
  have hf := flatten_shardPlan γ.batchLinesPerShard (splitLines content)
  obtain ⟨hn, hm, hs⟩ := (ends_shardLinesFrom (splitLines content) [] [] 0 (by simp [World.Stores])).sound hr
    (fun _ _ => trivial) n m rfl
  rw [Nat.zero_add] at hn
  refine ⟨(fileShards γ content).map fun lines => (lines, ⟨lines.length, 0, 0⟩), ?_, ?_, ?_, ?_, hn, ?_⟩
  · rw [hm, length_map]
    rfl
  · intro k shard hk
    rw [getElem?_map] at hk
    obtain ⟨lines, hl, rfl⟩ := Option.map_eq_some_iff.1 hk
    obtain ⟨hi, record, hre, hc⟩ := hs k lines hl
    have hne := ne_nil_of_mem_shardPlanFrom (mem_of_getElem? hl)
    refine ⟨?_, by rw [hre, Option.bind_some, hc], hne⟩
    rw [hi, Option.map_some, splitLines_joinLines hne]
    exact fun line hm => newline_notMem_of_mem_requestLines
      (mem_requestLines_of_fileShards (mem_of_getElem? hl) hm)
  · rw [← map_dropLast]
    intro shard hk
    obtain ⟨lines, hl, rfl⟩ := mem_map.1 hk
    exact length_of_mem_shardPlanFrom (c := []) hp hl
  · rw [← hf, List.map_map]
    exact congrArg flatten (map_id _)
  · rw [hn, ← hf, length_flatten, List.map_map]
    rfl

/-- Three lines, two to a shard. -/
theorem sharding_faithful_three : ∃ h w', ∃ shards : List (List Bytes × RequestCounts),
    (shardInputFile sampleGateway "t" (splitLines [97, 10, 98, 10, 99])).run.Solo step World.empty h w'
      (.ok (3, 2)) ∧ shards.length = 2 := by
  have hr : ∃ r ∈ Prog.solo step (shardInputFile sampleGateway "t" (splitLines [97, 10, 98, 10, 99])).run
      World.empty (plain 8), r.2.2 = .ok (3, 2) := by decide +kernel
  obtain ⟨⟨h, w', x⟩, hs, rfl⟩ := hr
  obtain ⟨shards, hl, -⟩ := sharding_faithful (by decide) (Prog.Solo.of_solo hs)
  exact ⟨h, w', shards, Prog.Solo.of_solo hs, hl⟩

end

/-! ### A whole validation -/

section

variable {γ : Gateway} {t : String} {content : Bytes}
variable {w : World} {toSet fromSet : BatchTaskStatus}

theorem mem_moved (hne : fromSet ≠ toSet) (hs : ∀ st, t ∈ w.taskSets st ↔ st = fromSet)
    (st : BatchTaskStatus) : t ∈ (moveScript w.taskSets t fromSet toSet).1 st ↔ st = toSet := by
  rw [mem_moveScript hne, if_pos ⟨rfl, (hs fromSet).2 rfl⟩, hs]
  simp

theorem effect_move (hne : fromSet ≠ toSet) (hm : t ∈ w.taskSets fromSet) (now : Int) :
    effect w (.moveTaskAndUpdateStatus t fromSet toSet now) = { w with
        taskSets := (moveScript w.taskSets t fromSet toSet).1
        tasks := update w.tasks t ((w.tasks t).map fun task => stampStatus task toSet now) } := by
  simp only [effect]
  rw [if_pos (by rw [moveScript_snd hne]; exact decide_eq_true hm)]

/-- **Entering the validation.**  A fresh task is moved to `validating`, another one is cleaned up. -/
theorem safe_enterValidating {past : List Cmd} {task : BatchTask}
    (ht : w.tasks t = some task) (hp : spoiled past = false) (hw : w.Resumable γ t content) :
    Safe step Works (Left γ t content) (fun past' w' x => (spoiled past' = false ∧ w'.Underway γ t content ∧
      w'.Cut γ t content 0 ∧ w'.objects.lookup (.file task.inputFileID) = some content) ∧ x = .ok ()) past w
      (enterValidating t task.status).run := by
  have hI := left_of_resumable hp hw
  rcases hw with hf | hu
  · obtain ⟨task', ht', hst, hfi⟩ := hf.reads
    cases ht.symm.trans ht'
    have hne : pending ≠ .validating := by decide
    rw [enterValidating, if_pos (by rw [hst]; decide)]
    refine safe_orFail_last (safe_timeNow hI fun now => ?_)
    have hef := effect_move hne ((hf.sets _).2 rfl) (unix now)
    have hm : (effect w (.moveTaskAndUpdateStatus t .pending .validating (unix now))).Underway
        γ t content := by
      rw [hef]
      refine ⟨mem_moved hne hf.sets, ⟨stampStatus task .validating (unix now), ?_, rfl, hfi⟩,
        fun s hs => absurd (hf.bare s) hs⟩
      simp [ht]
    refine safe_call_last (left_of_resumable hp (.inl hf)) (left_of_underway rfl hm) fun ch x hx => ?_
    have hx : x = .ok () := by
      simp only [answer, moveScript_snd hne, (hf.sets .pending).2 rfl, decide_true, if_true,
        some.injEq] at hx
      exact hx.symm
    subst hx
    refine ⟨⟨rfl, hm, ?_, ?_⟩, rfl⟩
    · rw [hef]
      exact hf.cut.of_same rfl rfl fun _ _ => rfl
    · rw [hef]
      exact hfi
  · obtain ⟨task', ht', hst, hfi⟩ := hu.reads
    cases ht.symm.trans ht'
    rw [enterValidating, if_neg (by rw [hst]; decide)]
    refine bind (mono ?_ (weaken (I := fun past w => spoiled past = false ∧ w.Underway γ t content)
      (fun _ _ h => left_of_underway h.1 h.2)
      (safe_cleanupTaskShardMeta (underway_shrunk hu) (.refl t w) ⟨hp, hu⟩)))
    rintro past' w' x hI' ⟨⟨hp', hw'⟩, ⟨hs, hg, he, -⟩, rfl⟩
    exact ⟨hI', ⟨hp', hw', cut_zero hg he, (hs.file _).trans hfi⟩, rfl⟩

section

variable {past : List Cmd} (hp : spoiled past = false) (hw : w.Underway γ t content)
include hp hw

/-- **The end of a validation.** Between the two commands the hash has the status of when the task was loaded.
-/
theorem safe_finishValidating (task : BatchTask) (lineCount : Nat) (hv : verdictOn γ content = .ok ())
    (hcu : w.Cut γ t content (fileShards γ content).length) :
    Safe step Works (Left γ t content) (fun past' w' _ => spoiled past' = false ∧ w'.Settled γ t content)
      past w (finishValidating t task lineCount).run := by
  have hne : validating ≠ .inProgress := by decide
  obtain ⟨stored, hst, hss, hfl⟩ := hw.reads
  have hg : goal γ content = .inProgress := by rw [goal, hv]
  refine liftE ?_
  refine ⟨left_of_underway hp hw, fun ch w₁ now _ hc => ?_⟩
  cases hc
  refine ⟨left_of_underway hp hw, liftE (bind ?_)⟩
  generalize hf : ({ task with requestCounts := some ⟨lineCount, 0, 0⟩,
                                    updatedAt := some (unix ch.clock) } : BatchTask) = fields
  have hfi : fields.status = task.status := by rw [← hf]
  have ht₁ : (effect w (.updateTaskFields t fields)).tasks t = some (mergeFields stored fields) := by
    simp [effect, hst]
  have hl₁ : Left γ t content (.remote (.updateTaskFields t fields) :: .timeNow :: past)
      (effect w (.updateTaskFields t fields)) := by
    by_cases hs : fields.status = .validating
    · have hwr : (effect w (.updateTaskFields t fields)).Underway γ t content :=
        ⟨hw.sets, ⟨_, ht₁, hs, hfl⟩, hw.numbered⟩
      exact left_of_underway (by simp [spoiled, hs]) hwr
    · have hsp : spoiled (.remote (.updateTaskFields t fields) :: .timeNow :: past) = true := by
        simp [spoiled, hs]
      rw [Left, hsp]
      exact ⟨hw.sets, _, ht₁, hs⟩
  refine safe_call_last (left_of_underway hp hw) hl₁ fun ch₁ x _ => ?_
  refine ⟨hl₁, safe_orFail_last ?_⟩
  refine ⟨hl₁, fun ch₂ w₂ now hwo hc => ?_⟩
  cases hc
  have hse : (effect (effect w (.updateTaskFields t fields))
      (.moveTaskAndUpdateStatus t .validating .inProgress (unix ch₂.clock))).Settled γ t content := by
    have hm : t ∈ (effect w (.updateTaskFields t fields)).taskSets .validating :=
      (hw.sets .validating).2 rfl
    rw [effect_move hne hm]
    refine ⟨fun st => ?_, ?_, ?_, hw.numbered⟩
    · rw [hg]
      exact mem_moved hne hw.sets st
    · rw [hg]
      simp [ht₁, stampStatus]
    · rw [shardCount_of_ok hv]
      exact hcu.of_same rfl rfl fun _ _ => rfl
  refine safe_call_last hl₁ (left_of_settled rfl hse) fun ch₃ x _ => ?_
  cases x with
  | ok | error => exact ⟨rfl, hse⟩

/-- **An invalid file fails the task.** Between the two commands it is in `validating` with the status
`failed`. -/
theorem safe_validateInputFile_error {e : String} (hi : verdictOn γ content = .error e)
    (hcu : w.Cut γ t content 0) :
    Safe step Works (Left γ t content) (fun past' w' x => (spoiled past' = false ∧ w'.Settled γ t content) ∧
      ∃ failure, x = .error failure) past w (validateInputFile γ t (splitLines content)).run := by
  have hne : validating ≠ .failed := by decide
  obtain ⟨stored, hsr, -, -⟩ := hw.reads
  have hv : validateBatchFile γ.codec (splitLines content) = .error e := hi
  have hg : goal γ content = .failed := by rw [goal, hi]
  have hc : shardCount γ content = 0 := by rw [shardCount, hi]
  rw [validateInputFile, hv]
  refine liftE (bind (safe_timeNow (left_of_underway hp hw) fun now => ?_))
  generalize (⟨[⟨"validation_error", e⟩]⟩ : BatchErrors) = batchErr
  have hst : (effect w (.updateTaskFailure t batchErr (unix now))).Stuck t :=
    ⟨hw.sets, stampFailure stored batchErr (unix now), by simp [effect, hsr], by simp [stampFailure]⟩
  refine safe_call_last (left_of_underway hp hw) hst fun ch x _ => ?_
  refine ⟨hst, liftE (bind ?_)⟩
  have hs : (effect (effect w (.updateTaskFailure t batchErr (unix now)))
      (.moveTask t .validating .failed)).Settled γ t content := by
    refine ⟨fun st => ?_, ?_, ?_, hw.numbered⟩
    · rw [hg]
      exact mem_moved hne hw.sets st
    · rw [hg]
      simp [effect, hsr, stampFailure]
    · rw [hc]
      exact hcu.of_same rfl rfl fun _ _ => rfl
  refine safe_call_last hst (left_of_settled rfl hs) fun ch x _ => ?_
  exact ⟨left_of_settled rfl hs, left_of_settled rfl hs, ⟨rfl, hs⟩, _, rfl⟩

theorem safe_validateAndShard {task : BatchTask} (hc : w.Cut γ t content 0)
    (hf : w.objects.lookup (.file task.inputFileID) = some content) :
    Safe step Works (Left γ t content) (fun past' w' _ => spoiled past' = false ∧ w'.Settled γ t content)
      past w (validateAndShard γ t task).run := by
  refine safe_orFail (safe_call (left_of_underway hp hw) fun ch x hx => ?_)
  simp only [answer, hf, some.injEq] at hx
  subst hx
  refine ⟨left_of_underway rfl hw, bindE ?_⟩
  cases hv : verdictOn γ content with
  | error =>
    refine mono ?_ (safe_validateInputFile_error rfl hw hv hc)
    rintro past' w' x - ⟨he, failure, rfl⟩
    exact he
  | ok =>
  have hpa : validateInputFile γ t (splitLines content) = pure () := by
    have hv : validateBatchFile γ.codec (splitLines content) = .ok () := hv
    rw [validateInputFile, hv]
  rw [hpa]
  refine ⟨left_of_underway rfl hw, liftE ?_⟩
  refine mono ?_ (safe_shardLinesFrom hv (splitLines content) [] 0 []
    (nil_append _).symm rfl hw hc)
  rintro past' w' x - ⟨hp', hw', hc', n, rfl⟩
  exact safe_finishValidating hp' hw' task n.1 hv hc'

end

/-- **A validation, wherever it stops and at its end.** -/
theorem safe_validateLocked (past : List Cmd) (hp : spoiled past = false) (hw : w.Resumable γ t content) :
    Safe step Works (Left γ t content) (fun _ w' _ => w'.Settled γ t content) past w
      (validateLocked γ instanceID t) := by
  obtain ⟨task, ht⟩ := hw.task
  refine bind (bind ?_)
  refine safe_orFail (safe_call_last (left_of_resumable hp hw) (left_of_resumable rfl hw) fun ch x hx => ?_)
  simp only [answer, ht, orError, some.injEq] at hx
  subst hx
  refine bindE (mono ?_ (safe_enterValidating ht rfl hw))
  rintro past₁ w₁ x - ⟨⟨hp₁, hw₁, hc₁, hf₁⟩, rfl⟩
  refine mono ?_ (safe_validateAndShard hp₁ hw₁ hc₁ hf₁)
  rintro past₂ w₂ x hI ⟨hp₂, hs⟩
  refine ⟨hI, bind ?_⟩
  have hr : (effect w₂ (.releaseTaskLock t instanceID)).Settled γ t content :=
    hs.of_same rfl rfl rfl rfl rfl
  refine safe_call_last hI (left_of_settled rfl hr) fun ch x _ => ?_
  exact ⟨left_of_settled rfl hr, hr⟩

end

/-! ### Taking a task up -/

/-- The first half of `processSingleValidatingTask`: a pending task, or else a stale one, with its lock. -/
def selectValidatingTask : GatewayM (Option String) := do
  match ← call (.getTaskInStatus .pending) with
  | .error _ => handleValidatingFailover instanceID
  | .ok taskID =>
    match ← call (.acquireTaskLock taskID instanceID defaultLockExpiration) with
    | .ok true => return some taskID
    | _ => return none

/-- The commands that take a task up. -/
def Cmd.selects : Cmd → Prop
  | .remote (.getTaskInStatus _) => True
  | .remote (.getTasksInStatus _) => True
  | .remote (.getTask _) => True
  | .remote (.acquireTaskLock _ _ _) => True
  | .timeNow => True
  | _ => False

theorem selects_recoverStaleTask (taskIDs : List String) :
    Uses Cmd.selects (recoverStaleTask instanceID taskIDs) := by
  induction taskIDs with
  | nil => exact uses_ret none
  | cons taskID taskIDs ih =>
  refine Uses.bind (uses_issue trivial) fun x => ?_
  cases x with
  | error => exact ih
  | ok =>
  refine Uses.bind (uses_issue trivial) fun now => ?_
  split
  · refine Uses.bind (uses_issue trivial) fun y => ?_
    rcases y with e | (_ | _)
    · exact ih
    · exact ih
    · exact uses_ret _
  · exact ih

theorem selects_selectValidatingTask : Uses Cmd.selects (selectValidatingTask instanceID) := by
  refine Uses.bind (uses_issue trivial) fun x => ?_
  cases x with
  | error e =>
    refine Uses.bind (uses_issue trivial) fun y => ?_
    cases y with
    | error => exact uses_ret _
    | ok taskIDs => exact selects_recoverStaleTask instanceID taskIDs
  | ok =>
    refine Uses.bind (uses_issue trivial) fun y => ?_
    rcases y with e | (_ | _) <;> exact uses_ret _

theorem locks_of_step {w₁ w₂ : World} {c : Cmd} {ch : Choice} {x : c.Resp} (hc : c.selects)
    (hok : Works c ch) (hs : step w₁ c ch = some (w₂, x))
    (hl : ∃ locks, w₁ = { w with taskLocks := locks }) :
    ∃ locks, w₂ = { w with taskLocks := locks } := by
  obtain ⟨locks, rfl⟩ := hl
  cases c with
  | remote r =>
    obtain ⟨rfl, -⟩ := step_of_not_fails hs hok
    cases r with
    | getTaskInStatus | getTasksInStatus | getTask => exact ⟨locks, rfl⟩
    | acquireTaskLock => exact ⟨_, rfl⟩
    | _ => exact hc.elim
  | timeNow =>
    cases hs
    exact ⟨locks, rfl⟩
  | _ => exact hc.elim

theorem locks_of_select {instanceID : String} {w' : World} {h : List (Cmd × Choice)} {x : Option String}
    (hr : Solo step (selectValidatingTask instanceID) w h w' x) (hw : ∀ e ∈ h, Works e.1 e.2) :
    ∃ locks, w' = { w with taskLocks := locks } := by
  have he : Prog.Ends step Works (fun w' _ => ∃ locks, w' = { w with taskLocks := locks }) w
      (selectValidatingTask instanceID) :=
    Uses.ends (fun _ _ _ _ _ hc hok hs hl => locks_of_step hc hok hs hl)
      (selects_selectValidatingTask instanceID) ⟨w.taskLocks, rfl⟩
  exact he.sound hr hw

/-! ### Recovery -/

/-- **Some time later**: everything about the task is as it was. -/
structure Later (t : String) (w w' : World) : Prop where
  task : w'.tasks t = w.tasks t
  sets : ∀ st, t ∈ w'.taskSets st ↔ t ∈ w.taskSets st
  shardSets : w'.shardSets t = w.shardSets t
  shards : w'.shards t = w.shards t
  objects : ∀ key : ObjectKey, key.underInput t = true ∨ key.underOutput t = true →
    w'.objects.lookup key = w.objects.lookup key
  input : ∀ task, w.tasks t = some task →
    w'.objects.lookup (.file task.inputFileID) = w.objects.lookup (.file task.inputFileID)

/-- The lock of a task has expired, and the validating reactor can get to the task. -/
def World.Eligible (w : World) (t : String) : Prop :=
  w.taskLock t = none ∧
    (t ∈ w.taskSets .pending ∨ w.taskSets .pending = ∅ ∧ t ∈ w.taskSets .validating)

/-- An uninterrupted turn of the validating reactor on the task. -/
def Revalidates (γ : Gateway) (t : String) (w w' : World) : Prop :=
  ∃ instanceID h₁ w₁ h₂, Solo step (selectValidatingTask instanceID) w h₁ w₁ (some t) ∧
    Solo step (validateLocked γ instanceID t) w₁ h₂ w' () ∧ (∀ e ∈ h₁, Works e.1 e.2) ∧
    ∀ e ∈ h₂, Works e.1 e.2

/-- **The next turn on the task leaves what a validation leaves**, unless that is there already. -/
def Recovers (γ : Gateway) (t : String) (content : Bytes) (w : World) : Prop :=
  w.Settled γ t content ∨ ∀ w₁, Later t w w₁ → w₁.Eligible t →
    (∃ w', Revalidates γ t w₁ w') ∧ ∀ w', Revalidates γ t w₁ w' → w'.Settled γ t content

section

variable {γ : Gateway} {w w' : World} {t : String} {content : Bytes}
variable {task : BatchTask}

theorem World.Reads.later {status : BatchTaskStatus} (h : w.Reads t status content) (hl : Later t w w') :
    w'.Reads t status content := by
  obtain ⟨task, ht, hs, hf⟩ := h
  exact ⟨task, hl.task.trans ht, hs, (hl.input task ht).trans hf⟩

theorem World.Resumable.later (h : w.Resumable γ t content) (hl : Later t w w') :
    w'.Resumable γ t content := by
  rcases h with h | h
  · refine .inl ⟨fun st => (hl.sets st).trans (h.sets st), h.reads.later hl,
      h.cut.of_same hl.shardSets hl.shards hl.objects, fun s => ?_⟩
    rw [hl.shards]
    exact h.bare s
  · refine .inr ⟨fun st => (hl.sets st).trans (h.sets st), h.reads.later hl, fun s => ?_⟩
    rw [hl.shards]
    exact h.numbered s

theorem World.Stuck.later (h : w.Stuck t) (hl : Later t w w') : w'.Stuck t := by
  obtain ⟨task, ht, hs⟩ := h.status
  exact ⟨fun st => (hl.sets st).trans (h.sets st), task, hl.task.trans ht, hs⟩

theorem later_of_locks (locks : String → Option (Lock String)) : Later t w { w with taskLocks := locks } :=
  ⟨rfl, fun _ => Iff.rfl, rfl, rfl, fun _ _ => rfl, fun _ _ => rfl⟩

theorem stuck_validateLocked (h : w.Stuck t) :
    Prog.Ends step Works (fun w' _ => t ∈ w'.taskSets .validating) w (validateLocked γ instanceID t) := by
  obtain ⟨task, ht, hst⟩ := h.status
  have hne : pending ≠ .validating := by decide
  have hp : t ∉ w.taskSets .pending := fun hme => hne ((h.sets _).1 hme)
  refine bind (bind (ends_orFail (ends_list rfl fun ch x hx => ?_)))
  simp only [answer, ht, orError, some.injEq] at hx
  subst hx
  dsimp only
  rw [enterValidating, if_pos hst]
  refine ends_orFail fun ch₁ w₁ now _ hc => ?_
  cases hc
  intro ch₂ w₂ y hw hs
  obtain ⟨rfl, hy⟩ := step_of_not_fails hs hw
  -- the task is not in the pending set, so that the move is refused and changes nothing
  have hm : (moveScript w.taskSets t .pending .validating).2 = false := by
    rw [moveScript_snd hne]
    exact decide_eq_false hp
  have hy' : y = .error ("Task " ++ t ++ " not found in set tasks:" ++ pending.string) := by
    simp only [answer, hm, Bool.false_eq_true, if_false, some.injEq] at hy
    exact hy.symm
  subst hy'
  intro ch₃ w₃ z hw hs
  obtain ⟨rfl, -⟩ := step_of_not_fails hs hw
  change t ∈ (effect w (.moveTaskAndUpdateStatus t .pending .validating (unix ch₁.clock))).taskSets .validating
  simp only [effect, Bool.false_eq_true, if_false, moveScript_of_notMem hne hp, h.sets]

theorem exists_works (w : World) (c : Cmd) : ∃ ch w' x, Works c ch ∧ step w c ch = some (w', x) := by
  have hr : ∀ (r : Remote) (ch : Choice) (x : Except String r.Val), ch.fault = none →
      answer w ch r = some x → ∃ ch w' x, Works (.remote r) ch ∧ step w (.remote r) ch = some (w', x) := by
    intro r ch x hf hx
    refine ⟨ch, effect w r, x, by simp [Works, fails, hf], ?_⟩
    simp only [step, hf, hx, map_some]
  have hl : ∀ {α : Type} (s : Finset α), Enumerates s.toList s := fun s =>
    ⟨s.nodup_toList, fun _ => mem_toList⟩
  cases c with
  | newUUID =>
    obtain ⟨uuid, hu⟩ := Infinite.exists_notMem_finset w.usedIDs
    exact ⟨{ uuid := uuid }, _, _, rfl, if_neg hu⟩
  | timeNow | httpDo | tickerFired | reply => exact ⟨{}, _, _, rfl, rfl⟩
  | remote r =>
  cases r with
  | getTasksInStatus | getShardsInStatus => exact hr _ { order := Finset.toList _ } _ rfl (if_pos (hl _))
  | getTaskInStatus | getShardInStatus =>
    rcases (_ : Finset String).eq_empty_or_nonempty with he | ⟨pick, hp⟩
    · exact hr _ {} _ rfl (if_pos he)
    · exact hr _ { pick := pick } _ rfl ((if_neg (ne_empty_of_mem hp)).trans (if_pos hp))
  | listShardInputs | listShardOutputs => exact hr _ { keys := Finset.toList _ } _ rfl (if_pos (hl _))
  | _ => exact hr _ {} _ rfl rfl

theorem ends_validateLocked (h : w.Resumable γ t content) :
    Prog.Ends step Works (fun w' _ => w'.Settled γ t content) w (validateLocked γ instanceID t) := by
  refine ends ?_ (safe_validateLocked instanceID [] rfl h)
  intro _ _ _ hs
  exact hs

theorem step_acquireTaskLock (hl : w.taskLock t = none) (instanceID : String) :
    step w (.remote (.acquireTaskLock t instanceID defaultLockExpiration)) {} =
      some (effect w (.acquireTaskLock t instanceID defaultLockExpiration), .ok true) := by
  simp only [step, answer, hl, isNone_none, map_some]

/-- The failover gets to a task whose lock has expired when its clock shows that the task is stale. -/
theorem exists_recoverStaleTask (hl : w.taskLock t = none) (ht : w.tasks t = some task)
    (instanceID : String) (taskIDs : List String) :
    ∃ h w', Solo step (recoverStaleTask instanceID (t :: taskIDs)) w h w' (some t) ∧
      ∀ e ∈ h, Works e.1 e.2 := by
  have hg : step w (.remote (.getTask t)) {} = some (w, .ok task) := by
    simp only [step, answer, ht, orError, map_some]
    rfl
  obtain ⟨clock, hs⟩ : ∃ clock : Int, clock - task.updatedAt.getD 0 * 1000 > defaultLockExpiration :=
    ⟨task.updatedAt.getD 0 * 1000 + defaultLockExpiration + 1, by omega⟩
  refine ⟨[(.remote (.getTask t), {}), (.timeNow, { clock := clock }),
    (.remote (.acquireTaskLock t instanceID defaultLockExpiration), {})],
    effect w (.acquireTaskLock t instanceID defaultLockExpiration),
    .cmd hg (.cmd rfl ?_), by simp [Works, fails]⟩
  change Solo step (if clock - task.updatedAt.getD 0 * 1000 > defaultLockExpiration then _ else _) _ _ _ _
  rw [if_pos hs]
  exact .cmd (step_acquireTaskLock hl instanceID) .ret

/-- **The reactor can take up a task that is eligible.** -/
theorem exists_select (h : w.Eligible t) (ht : w.tasks t = some task) (instanceID : String) :
    ∃ hi w', Solo step (selectValidatingTask instanceID) w hi w' (some t) ∧ ∀ e ∈ hi, Works e.1 e.2 := by
  obtain ⟨hl, hp | ⟨hem, hv⟩⟩ := h
  · have hpi : step w (.remote (.getTaskInStatus .pending)) { pick := t } = some (w, .ok t) := by
      simp only [step, answer, pickMember, if_neg (ne_empty_of_mem hp), if_pos hp, map_some]
      rfl
    exact ⟨[(_, { pick := t }), (_, {})], _, .cmd hpi (.cmd (step_acquireTaskLock hl instanceID) .ret),
      by simp [Works, fails]⟩
  · have hn : step w (.remote (.getTaskInStatus .pending)) {} = some (w, .error "no tasks in set") := by
      simp only [step, answer, pickMember, if_pos hem, map_some]
      rfl
    obtain ⟨rest, ho⟩ : ∃ rest, Enumerates (t :: rest) (w.taskSets .validating) := by
      refine ⟨((w.taskSets .validating).erase t).toList, nodup_cons.2 ⟨by simp, nodup_toList _⟩, fun k => ?_⟩
      by_cases hk : k = t
      · simp [hk, hv]
      · simp [hk]
    have hli : step w (.remote (.getTasksInStatus .validating)) { order := t :: rest } =
        some (w, .ok (t :: rest)) := by
      simp only [step, answer, listMembers, if_pos ho, map_some]
      rfl
    obtain ⟨hi, w', hr, hw⟩ := exists_recoverStaleTask hl ht instanceID rest
    exact ⟨_, w', .cmd hn (.cmd hli hr), forall_mem_cons.2 ⟨rfl, forall_mem_cons.2 ⟨rfl, hw⟩⟩⟩

theorem exists_revalidates (h : w.Eligible t) (ht : w.tasks t = some task) :
    ∃ w', Revalidates γ t w w' := by
  obtain ⟨h₁, w₁, hs, hw₁⟩ := exists_select h ht ""
  obtain ⟨h₂, w', a, hv, hw₂⟩ := exists_solo exists_works (validateLocked γ "" t) w₁
  exact ⟨w', "", h₁, w₁, h₂, hs, hv, hw₁, hw₂⟩

/-- **A task that waits for a validation gets it.** -/
theorem recovers_of_resumable (h : w.Resumable γ t content) : Recovers γ t content w := by
  refine .inr fun w₁ hl he => ⟨?_, ?_⟩
  · exact exists_revalidates he (h.later hl).task.choose_spec
  · rintro w' ⟨instanceID, h₁, w₂, h₂, hse, hv, hw₁, hw₂⟩
    obtain ⟨locks, rfl⟩ := locks_of_select hse hw₁
    have hr := (h.later hl).later (later_of_locks locks)
    have hs := sound (ends_validateLocked instanceID hr) hv hw₂
    exact hs

/-- **A stuck task does not.** -/
theorem not_recovers_of_stuck (h : w.Stuck t) : ¬ Recovers γ t content w := by
  have hg : goal γ content ≠ .validating := by
    unfold goal
    split <;> decide
  rintro (hs | ha)
  · exact hg ((hs.sets .validating).1 ((h.sets .validating).2 rfl)).symm
  -- when all locks have expired and no other task is pending, the reactor gets to this one
  have hl : Later t w { w with
      taskLocks := fun _ => none
      taskSets := update w.taskSets .pending ∅ } := by
    refine ⟨rfl, fun st => ?_, rfl, rfl, fun _ _ => rfl, fun _ _ => rfl⟩
    by_cases hst : st = .pending
    · subst hst
      simp [h.sets]
    · simp [update_of_ne hst]
  obtain ⟨⟨w', hr⟩, hs⟩ := ha _ hl ⟨rfl, .inr ⟨by simp, by simpa using (h.sets .validating).2 rfl⟩⟩
  have he := hs w' hr
  obtain ⟨instanceID, h₁, w₂, h₂, hse, hv, hw₁, hw₂⟩ := hr
  obtain ⟨locks, rfl⟩ := locks_of_select hse hw₁
  have hsc := (h.later hl).later (later_of_locks locks)
  have hm := sound (stuck_validateLocked (γ := γ) instanceID hsc) hv hw₂
  exact hg ((he.sets .validating).1 hm).symm

end

/-- **After a crash the next validation leaves what the first one would have left, unless the crash came after
`UpdateTaskFailure`, or after an `UpdateTaskFields` of a status other than `validating`.** -/
theorem recovers_iff {γ : Gateway} {w w' : World} {t instanceID : String} {content : Bytes}
    {h : List (Cmd × Choice)} (hstart : w.Resumable γ t content)
    (hstop : Stopped step (validateLocked γ instanceID t) w h w') (hworks : ∀ e ∈ h, Works e.1 e.2) :
    (∀ h' u, Solo step (validateLocked γ instanceID t) w h' u () → (∀ e ∈ h', Works e.1 e.2) →
      u.Settled γ t content) ∧
    (Recovers γ t content w' ↔ spoiled (h.map Prod.fst).reverse = false) := by
  have hsa := safe_validateLocked (γ := γ) instanceID [] rfl hstart
  refine ⟨fun h' u hru ha => ?_, ?_⟩
  · have hs := sound (ends_validateLocked instanceID hstart) hru ha
    exact hs
  have hl := hsa.stopped hstop hworks
  rw [append_nil, Left] at hl
  cases hsp : spoiled (h.map Prod.fst).reverse with
  | true =>
    rw [hsp, if_pos rfl] at hl
    exact iff_of_false (not_recovers_of_stuck hl) (by decide)
  | false =>
    rw [hsp, if_neg (by decide)] at hl
    refine iff_of_true ?_ rfl
    rcases hl with hr | hs
    · exact recovers_of_resumable hr
    · exact .inl hs

/-! ### Crashes of the sample task -/

/-- A task with a file of three lines that has just been created. -/
def sampleFresh : World :=
  { sampleWorld sampleContent with
    tasks := fun taskID => if taskID = "batch_1" then some (newTask sampleRequest "batch_1" 0) else none
    taskSets := fun status => if status = .pending then {"batch_1"} else ∅ }

theorem sampleFresh_fresh : sampleFresh.Fresh sampleGateway "batch_1" sampleContent where
  sets := fun st => by by_cases hst : st = .pending <;> simp [sampleFresh, hst]
  reads := ⟨newTask sampleRequest "batch_1" 0, rfl, rfl, rfl⟩
  cut := by
    refine cut_zero (fun key hu => Finmap.lookup_eq_none.2 fun hm => ?_) fun st => rfl
    have hf : key = .file "f" := by simpa [sampleFresh, sampleWorld] using hm
    subst hf
    rcases hu with hu | hu <;> cases hu
  bare := fun s => rfl

/-- A crash right after the record of the first shard has been made, and before the shard is pending. -/
theorem recovers_sampleFresh : ∃ h w', sampleFresh.Resumable sampleGateway "batch_1" sampleContent ∧
    Stopped step (validateLocked sampleGateway "a" "batch_1") sampleFresh h w' ∧
    (∀ e ∈ h, Works e.1 e.2) ∧ w'.shards "batch_1" "0" ≠ none ∧ "0" ∉ w'.shardSets "batch_1" .pending ∧
    Recovers sampleGateway "batch_1" sampleContent w' := by
  have hru : ∃ r ∈ stopAfter step (validateLocked sampleGateway "a" "batch_1") sampleFresh (plain 7),
      (∀ e ∈ r.1, fails e = false) ∧ spoiled (r.1.map Prod.fst).reverse = false ∧
        (r.2.shards "batch_1" "0").isSome ∧ "0" ∉ r.2.shardSets "batch_1" .pending := by decide +kernel
  obtain ⟨⟨h, w'⟩, hs, hw, hsp, hr, hp⟩ := hru
  have hs := Stopped.of_stopAfter hs
  exact ⟨h, w', .inl sampleFresh_fresh, hs, hw, isSome_iff_ne_none.1 hr, hp,
    (recovers_iff (.inl sampleFresh_fresh) hs hw).2.2 hsp⟩

/-- **A task that is never validated**: after a crash before the last move the hash says `pending`, the task
is in `validating`, and whoever takes it up fails to move it from `pending`. -/
theorem crash_before_last_move : ¬ ∀ (γ : Gateway) (instanceID t : String) (content : Bytes) (w w' : World)
    (h : List (Cmd × Choice)), w.Resumable γ t content →
      Stopped step (validateLocked γ instanceID t) w h w' → (∀ e ∈ h, Works e.1 e.2) →
        Recovers γ t content w' := by
  intro ha
  have hr : ∃ r ∈ stopAfter step (validateLocked sampleGateway "a" "batch_1") sampleFresh (plain 14),
      (∀ e ∈ r.1, fails e = false) ∧ spoiled (r.1.map Prod.fst).reverse = true := by decide +kernel
  obtain ⟨⟨h, w'⟩, hs, hw, hsp⟩ := hr
  have hs := Stopped.of_stopAfter hs
  have hl := (safe_validateLocked "a" [] rfl (.inl sampleFresh_fresh)).stopped hs hw
  rw [append_nil, Left, if_pos hsp] at hl
  exact not_recovers_of_stuck hl (ha sampleGateway "a" "batch_1" sampleContent _ w' h
    (.inl sampleFresh_fresh) hs hw)

end Llumnix.Batch
