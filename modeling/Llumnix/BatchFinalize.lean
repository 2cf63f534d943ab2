/-
**A finalization that fails.**

The finalizer picks a task from `finalizing`, takes its lock, moves it to `finalize`, collects the results
of its shards and completes it.  Whatever goes wrong in between, it then removes the shards of the task; and
nothing ever looks at `finalize` again.  So a failing command is harmless only before the task has been
touched, or where there is nothing to lose.

* `finalization_recoverable_iff` — **the points at which a failure is harmless**;
* `deleteFiles_complete_iff` — **when a bulk deletion that succeeds has deleted every path**.
-/

import Llumnix.BatchFootprint
import Llumnix.Crash

namespace Llumnix.Batch

open FiniteMap GuardedRun Interaction Interaction.Prog Processes Option Uses List Finset Finmap Safe

variable {ch : Choice} {w w' : World} {r : Remote} {t : String}
variable {x : Except String r.Val} {c : Cmd} {α : Type} {ok : Cmd → Choice → Prop} {message : String}

/-! ### Failing commands -/

/-- A remote command that is not executed, or whose answer gets lost. -/
def fails (e : Cmd × Choice) : Bool :=
  match e.1 with
  | .remote _ => e.2.fault.isSome
  | _ => false

/-- **Exactly one command of the history fails**, the `k`-th, in this way. -/
inductive FailsAt (ch : Choice) : Nat → List (Cmd × Choice) → Prop
  | here {c : Cmd} {h : List (Cmd × Choice)} (hc : fails (c, ch) = true)
      (hrest : ∀ e ∈ h, fails e = false) : FailsAt ch 0 ((c, ch) :: h)
  | later {e : Cmd × Choice} {k : Nat} {h : List (Cmd × Choice)} (he : fails e = false)
      (hrest : FailsAt ch k h) : FailsAt ch (k + 1) (e :: h)

theorem FailsAt.ne_nil {k : Nat} {h : List (Cmd × Choice)} (hf : FailsAt ch k h) : h ≠ [] := by
  cases hf <;> exact cons_ne_nil _ _

/-- Looking for the only failure of a history. -/
def failure : List (Cmd × Choice) → Option (Nat × Choice)
  | [] => none
  | e :: h =>
    if fails e then (if h.all fun e => !fails e then some (0, e.2) else none)
    else (failure h).map fun kch => (kch.1 + 1, kch.2)

theorem FailsAt.of_failure : ∀ {h : List (Cmd × Choice)} {k : Nat} {ch : Choice},
    failure h = some (k, ch) → FailsAt ch k h
  | [], _, _, h => by cases h
  | e :: h, k, ch, hf => by
      rw [failure] at hf
      split at hf
      · rename_i he
        split at hf <;> cases hf
        next hr => exact .here he (by simpa using hr)
      · rename_i he
        obtain ⟨⟨k, ch⟩, hl, ⟨⟩⟩ := map_eq_some_iff.1 hf
        exact .later (Bool.eq_false_iff.2 he) (of_failure hl)

theorem step_of_not_fails (hs : step w (.remote r) ch = some (w', x))
    (h : fails (.remote r, ch) = false) : w' = effect w r ∧ answer w ch r = some x := by
  have hf : ch.fault = none := by simpa [fails] using h
  simp only [step, hf] at hs
  obtain ⟨y, hy, ⟨⟩⟩ := map_eq_some_iff.1 hs
  exact ⟨rfl, hy⟩

/-- A command that fails answers with an error; it is executed unless it is refused. -/
theorem step_of_fails (hs : step w (.remote r) ch = some (w', x)) (h : fails (.remote r, ch) = true) :
    w' = (if ch.refused then w else effect w r) ∧ ∃ e, x = .error e := by
  have hf : ch.fault.isSome := h
  obtain ⟨⟨fault, message⟩, hch⟩ := isSome_iff_exists.1 hf
  cases fault with
  | refused | lost =>
    simp only [step, hch, some.injEq, Prod.mk.injEq] at hs
    simp [Choice.refused, hch, hs.1.symm, hs.2.symm]

/-! ### What a failure may cost -/

/-- The status sets that a reactor asks for tasks: `ValidatingReactor` also recovers from `validating`. -/
def polledStatuses : List BatchTaskStatus :=
  [.pending, .validating, .inProgress, .finalizing, .cancelling]

/-- **Nothing has been deleted and the task will be found again.** -/
structure Recoverable (w w' : World) (t : String) : Prop where
  outputs : ∀ s, .shardOutput t s ∈ w.objects → .shardOutput t s ∈ w'.objects
  errors : ∀ s, .shardError t s ∈ w.objects → .shardError t s ∈ w'.objects
  members : ∀ st s, s ∈ w.shardSets t st → s ∈ w'.shardSets t st
  shards : ∀ s, (w.shards t s).isSome → (w'.shards t s).isSome
  polled : ∃ st ∈ polledStatuses, t ∈ w'.taskSets st

/-- A task that is being finalized, as its sets say. -/
def World.Finalizable (w : World) (t : String) : Prop := ∀ st, t ∈ w.taskSets st ↔ st = .finalizing

/-- There is nothing to lose: no results and no shards. -/
def World.Bare (w : World) (t : String) : Prop :=
  (∀ s, .shardOutput t s ∉ w.objects ∧ .shardError t s ∉ w.objects) ∧ ∀ st, w.shardSets t st = ∅

/-- **Where a failure is harmless**: at the first two commands, which pick the task and take its lock, or at
the first move. -/
def Harmless (w : World) (t : String) (k : Nat) (ch : Choice) : Prop :=
  k < 2 ∨ k = 3 ∧ ch.refused = true ∧ w.Bare t

theorem Recoverable.of_eq (ht : w.Finalizable t) (ho : w'.objects = w.objects)
    (hse : w'.shardSets = w.shardSets) (hs : w'.shards = w.shards)
    (hta : w'.taskSets = w.taskSets) : Recoverable w w' t := by
  refine ⟨?_, ?_, ?_, ?_, .finalizing, by decide, ?_⟩
  · rw [ho]
    exact fun _ => id
  · rw [ho]
    exact fun _ => id
  · rw [hse]
    exact fun _ _ => id
  · rw [hs]
    exact fun _ => id
  · rw [hta]
    exact (ht _).2 rfl

/-! ### No way back -/

/-- No reactor will find the task. -/
def Unpolled (t : String) (w : World) : Prop := ∀ st ∈ polledStatuses, t ∉ w.taskSets st

/-- The commands after the first move: they move a task from `finalize` to `completed` at most. -/
def Cmd.late : Cmd → Prop
  | .remote (.saddPending _) | .remote (.moveTaskAndUpdateStatus ..) => False
  | .remote (.moveTask _ fromSet toSet) => fromSet = .finalize ∧ toSet = .completed
  | _ => True

theorem late_of_quiet (h : c.taskLevel = false) : c.late := by
  cases c with
  | remote r => cases r <;> trivial
  | _ => trivial

/-- **Once it is out of sight, it stays there.** -/
theorem Unpolled.step {x : c.Resp} (hc : c.late) (hs : Batch.step w c ch = some (w', x))
    (h : Unpolled t w) : Unpolled t w' := by
  rcases step_cases hs with ⟨r, rfl, rfl | rfl⟩ | ⟨usedIDs, replies, rfl⟩
  · exact h
  · cases r with
    | saddPending | moveTaskAndUpdateStatus => exact hc.elim
    | moveTask taskID fromSet toSet =>
      obtain ⟨rfl, rfl⟩ : fromSet = .finalize ∧ toSet = .completed := hc
      intro st hst hm
      have hne : st ≠ .completed := by
        rintro rfl
        exact absurd hst (by decide)
      exact h st hst (mem_of_mem_moveScript (by decide) hne hm)
    | appendObject =>
      simp only [effect]
      split <;> exact h
    | _ => exact h
  · exact h

theorem uses_late_of_quiet {p : GatewayM α} (h : Quiet p) : Uses Cmd.late p :=
  mono (fun _ => late_of_quiet) h

theorem late_completeTask (taskID : String) (task : BatchTask) (outputFileID errorFileID : String)
    (outputPosition errorPosition : Nat) (counts : RequestCounts) : Uses Cmd.late
      (completeTask taskID task outputFileID errorFileID outputPosition errorPosition counts).run := by
  refine liftE (uses_issue trivial) fun now => ?_
  refine bindE (uses_orFail (uses_late_of_quiet (quiet_createFile _))) fun _ => ?_
  refine bindE (uses_late_of_quiet (quiet_createErrorFile _ _ _ _)) fun _ => ?_
  refine bindE (uses_orFail (uses_issue trivial)) fun _ => ?_
  have hm : Cmd.late (.remote (.moveTask taskID .finalize .completed)) := ⟨rfl, rfl⟩
  exact liftE (uses_logged (uses_issue hm)) fun _ => uses_ret _

theorem late_collectResults (taskID : String) : Uses Cmd.late (collectResults taskID).run := by
  refine bindE (uses_orFail (uses_issue trivial)) fun task => ?_
  refine bindE (uses_orFail (uses_issue trivial)) fun shardIDs => ?_
  refine bindE (uses_orFail (uses_issue trivial)) fun keys => ?_
  refine liftE (uses_issue trivial) fun outputUUID => ?_
  refine liftE (uses_issue trivial) fun errorUUID => ?_
  refine bindE (uses_late_of_quiet (quiet_deleteFinalFiles _ _)) fun _ => ?_
  refine bindE (uses_late_of_quiet (quiet_appendShards _ _ _ _ _ _ _ _)) fun r => ?_
  exact late_completeTask _ _ _ _ _ _ _

def cleanUp (instanceID taskID : String) : GatewayM Unit := do
  logged (cleanupTaskShardMeta taskID).run
  logged (call (.releaseTaskLock taskID instanceID))

theorem late_cleanUp (instanceID taskID : String) : Uses Cmd.late (cleanUp instanceID taskID) :=
  bind (uses_logged (uses_late_of_quiet (quiet_cleanupTaskShardMeta taskID))) fun _ =>
    uses_logged (uses_issue trivial)

/-- What `finalizeLocked` does after `processFinalizingTask`. -/
def afterProcessing (instanceID taskID : String) : Except Failure Unit → GatewayM Unit
  | .error .panic => logged (call (.releaseTaskLock taskID instanceID))
  | _ => cleanUp instanceID taskID

theorem late_afterProcessing (instanceID taskID : String) (x : Except Failure Unit) :
    Uses Cmd.late (afterProcessing instanceID taskID x) := by
  rcases x with (e | _ | _) | _
  · exact late_cleanUp _ _
  · exact late_cleanUp _ _
  · exact uses_logged (uses_issue trivial)
  · exact late_cleanUp _ _

/-! ### The clean-up -/

/-- **What a clean-up leaves of a task.** -/
structure Cleaned (w w' : World) (t : String) : Prop where
  tasks : w'.taskSets = w.taskSets
  outputs : ∀ s, .shardOutput t s ∉ w'.objects
  errors : ∀ s, .shardError t s ∉ w'.objects
  members : ∀ st, w'.shardSets t st = ∅
  /-- The records of shards that are in no set are not touched. -/
  shards : (∀ st, w.shardSets t st = ∅) → w'.shards t = w.shards t

/-- All commands go through. -/
def Works (c : Cmd) (ch : Choice) : Prop := fails (c, ch) = false

theorem ends_list {Q : World → Except String r.Val → Prop} (hr : effect w r = w)
    (h : ∀ ch x, answer w ch r = some x → Q w x) : Prog.Ends step Works Q w (call r) := by
  intro ch w₁ x hwo hs
  obtain ⟨hw, hx⟩ := step_of_not_fails hs hwo
  rw [hw, hr]
  exact h ch x hx

theorem ends_orFail {β : Type} {Q : World → Except Failure β → Prop} {x : GatewayM (Except String α)}
    {f : α → Attempt β}
    (h : Prog.Ends step ok (fun w' r => match r with
      | .ok a => Prog.Ends step ok Q w' (f a).run
      | .error e => Q w' (.error (.err (message ++ e)))) w x) :
    Prog.Ends step ok Q w (orFail message x >>= f).run := by
  refine Prog.Ends.bindE (Prog.Ends.bind (Prog.Ends.mono ?_ h))
  intro w' r hr
  cases r with
  | ok | error => exact hr

section

variable {I : List Cmd → World → Prop} {past : List Cmd} {w : World} {α β : Type}
variable {r : Remote} {Q : List Cmd → World → β → Prop} {message : String}
  {x : GatewayM (Except String α)}

theorem safe_call {f : Except String r.Val → GatewayM β} (hI : I past w)
    (h : ∀ ch x, answer w ch r = some x → Safe step Works I Q (.remote r :: past) (effect w r) (f x)) :
    Safe step Works I Q past w (call r >>= f) := by
  refine ⟨hI, fun ch w₁ x hw hs => ?_⟩
  obtain ⟨rfl, hx⟩ := step_of_not_fails hs hw
  exact h ch x hx

theorem safe_timeNow {f : Int → GatewayM β} (hI : I past w)
    (h : ∀ now, Safe step Works I Q (.timeNow :: past) w (f now)) :
    Safe step Works I Q past w (timeNow >>= f) := by
  refine ⟨hI, fun ch w₁ x _ hs => ?_⟩
  cases hs
  exact h ch.clock

theorem safe_orFail {Q : List Cmd → World → Except Failure β → Prop} {f : α → Attempt β}
    (h : Safe step Works I (fun past' w' r => match r with
      | .ok a => Safe step Works I Q past' w' (f a).run
      | .error e => Q past' w' (.error (.err (message ++ e)))) past w x) :
    Safe step Works I Q past w (orFail message x >>= f).run := by
  refine bindE (bind (mono ?_ h))
  intro past' w' r hI hr
  cases r with
  | ok | error => exact ⟨hI, hr⟩

theorem safe_orFail_last {Q : List Cmd → World → Except Failure α → Prop}
    (h : Safe step Works I (fun past' w' r => match r with
      | .ok a => Q past' w' (.ok a)
      | .error e => Q past' w' (.error (.err (message ++ e)))) past w x) :
    Safe step Works I Q past w (orFail message x).run := by
  refine bind (mono ?_ h)
  intro past' w' r hI hr
  cases r with
  | ok | error => exact ⟨hI, hr⟩

theorem safe_call_last {Q : List Cmd → World → Except String r.Val → Prop} (hI : I past w)
    (hI' : I (.remote r :: past) (effect w r))
    (h : ∀ ch x, answer w ch r = some x → Q (.remote r :: past) (effect w r) x) :
    Safe step Works I Q past w (call r) := by
  refine ⟨hI, fun ch w₁ x hw hs => ?_⟩
  obtain ⟨rfl, hx⟩ := step_of_not_fails hs hw
  exact ⟨hI', h ch x hx⟩

end

theorem mem_of_listKeys {objects : Finmap fun _ : ObjectKey => Bytes} {under : ObjectKey → Bool}
    {order : List ObjectKey} {x : Except String (List ObjectKey)}
    (h : listKeys objects under order = some x) :
    ∃ keys, x = .ok keys ∧ ∀ key, key ∈ keys ↔ key ∈ objects ∧ under key = true := by
  unfold listKeys at h
  split at h <;> cases h
  rename_i ho
  refine ⟨order, rfl, fun key => ?_⟩
  rw [ho.2, Finset.mem_filter, Finmap.mem_keys]

/-- A clean-up under way: objects and records of the shards of the task may be gone, and nothing else. -/
structure Shrunk (t : String) (w w' : World) : Prop where
  taskSets : w'.taskSets = w.taskSets
  tasks : w'.tasks = w.tasks
  objects : ∀ key : ObjectKey, w'.objects.lookup key = w.objects.lookup key ∨
    key.underInput t = true ∨ key.underOutput t = true
  shards : ∀ s, w'.shards t s = w.shards t s ∨ w'.shards t s = none

theorem Shrunk.refl (t : String) (w : World) : Shrunk t w w :=
  ⟨rfl, rfl, fun _ => .inl rfl, fun _ => .inl rfl⟩

theorem Shrunk.eraseAll {w₀ : World} (h : Shrunk t w₀ w) {keys : List ObjectKey}
    (hk : ∀ key ∈ keys, key.underInput t = true ∨ key.underOutput t = true) :
    Shrunk t w₀ { w with objects := eraseAll w.objects keys } where
  taskSets := h.taskSets
  tasks := h.tasks
  objects := fun key => by
    rw [lookup_eraseAll]
    split
    · next hm => exact .inr (hk key hm)
    · exact h.objects key
  shards := h.shards

section

variable {I : List Cmd → World → Prop} {past : List Cmd} {w₀ : World}
  (hI : ∀ (r : Remote) past w, r.taskLevel = false → Shrunk t w₀ w → I (.remote r :: past) w)
  (h : Shrunk t w₀ w) (h₀ : I past w)
include hI h h₀

theorem safe_deleteFilesFrom (fuel : Nat) (keys : List ObjectKey) (hf : keys.length ≤ fuel)
    (hk : ∀ key ∈ keys, key.underInput t = true ∨ key.underOutput t = true) :
    Safe step Works I (fun _ w' x => w' = { w with objects := eraseAll w.objects keys } ∧ x = .ok ())
      past w (deleteFilesFrom fuel keys) := by
  induction fuel generalizing keys past w with
  | zero =>
    obtain rfl := eq_nil_of_length_eq_zero (Nat.le_zero.1 hf)
    exact ⟨h₀, rfl, rfl⟩
  | succ fuel ih =>
  rw [deleteFilesFrom]
  split
  · next he =>
    rw [isEmpty_iff.1 he]
    exact ⟨h₀, rfl, rfl⟩
  rename_i hne
  have hp : 0 < keys.length := length_pos_iff.2 fun h => hne (isEmpty_iff.2 h)
  refine safe_call h₀ fun ch x hx => ?_
  cases hx
  have hl : (keys.drop (keys.take 1000).length).length ≤ fuel := by
    rw [length_drop, length_take]
    omega
  have hs : keys.take 1000 ++ keys.drop (keys.take 1000).length = keys := by
    have ht : keys.take (keys.take 1000).length = keys.take 1000 := by
      simp [take_eq_take_iff]
    rw [← ht]
    simp
  have hn : Shrunk t w₀ (effect w (.deleteObjects (keys.take 1000))) :=
    h.eraseAll fun key hm => hk key (mem_of_mem_take hm)
  refine mono ?_ (ih hn (hI _ _ _ rfl hn) _ hl fun key hm => hk key (mem_of_mem_drop hm))
  rintro past' w' y - ⟨rfl, rfl⟩
  refine ⟨?_, rfl⟩
  simp only [effect, eraseAll, ← foldl_append, hs]

/-- The objects of the shards are gone, and nothing but objects is. -/
theorem safe_cleanupShardOSSFiles : Safe step Works I (fun _ w' x => (∃ keys,
      w' = { w with objects := eraseAll w.objects keys } ∧ Shrunk t w₀ w' ∧
      ∀ key ∈ w.objects, key.underInput t = true ∨ key.underOutput t = true → key ∈ keys) ∧ x = .ok ())
      past w (cleanupShardOSSFiles t).run := by
  refine safe_orFail (safe_call_last h₀ (hI _ _ _ rfl h) fun ch x hx => ?_)
  obtain ⟨inputs, rfl, hi⟩ := mem_of_listKeys hx
  refine safe_orFail (safe_call_last (hI _ _ _ rfl h) (hI _ _ _ rfl h) fun ch x hx => ?_)
  obtain ⟨outputs, rfl, ho⟩ := mem_of_listKeys hx
  have hk : ∀ key ∈ inputs ++ outputs, key.underInput t = true ∨ key.underOutput t = true :=
    forall_mem_append.2 ⟨fun key hm => .inl ((hi key).1 hm).2, fun key hm => .inr ((ho key).1 hm).2⟩
  refine safe_orFail_last (mono ?_ (safe_deleteFilesFrom hI h (hI _ _ _ rfl h) _ _ le_rfl hk))
  rintro past' w' x - ⟨rfl, rfl⟩
  refine ⟨⟨_, rfl, h.eraseAll hk, fun key hm hu => mem_append.2 ?_⟩, rfl⟩
  rcases hu with hu | hu
  · exact .inl ((hi key).2 ⟨hm, hu⟩)
  · exact .inr ((ho key).2 ⟨hm, hu⟩)

/-- The loop of `cleanupShardMeta` empties the sets it is given, and deletes the records of their members. -/
theorem safe_cleanupShardSets (statuses : List ShardStatus) :
    Safe step Works I (fun _ w' x => (Shrunk t w₀ w' ∧ w'.objects = w.objects ∧
      (∀ st, w'.shardSets t st = if st ∈ statuses then ∅ else w.shardSets t st) ∧
      ((∀ st, w.shardSets t st = ∅) → w'.shards t = w.shards t)) ∧ x = .ok ()) past w
      (cleanupShardSets t statuses).run := by
  induction statuses generalizing past w with
  | nil => exact ⟨h₀, ⟨h, rfl, fun st => by simp, fun _ => rfl⟩, rfl⟩
  | cons status statuses ih =>
  refine safe_orFail (safe_call h₀ fun ch x hx => ?_)
  simp only [answer, listMembers] at hx
  split at hx <;> cases hx
  rename_i hl
  have hn : Shrunk t w₀ (effect w (.delShardInfo t ch.order status)) := by
    refine ⟨h.taskSets, h.tasks, h.objects, fun s => ?_⟩
    simp only [effect, World.setShardSets, Function.update_self]
    split
    · exact .inr rfl
    · exact h.shards s
  refine safe_call_last (hI _ _ _ rfl h) (hI _ _ _ rfl hn) fun ch' y hy => ?_
  cases hy
  refine mono ?_ (ih hn (hI _ _ _ rfl hn))
  rintro past' w' x - ⟨⟨hw', ho, hss, hsh⟩, rfl⟩
  have hse : ∀ st, (effect w (.delShardInfo t ch.order status)).shardSets t st
      = if st = status then ∅ else w.shardSets t st := by
    intro st
    simp only [effect, World.setShardSets, Function.update_self, Function.update_apply]
  refine ⟨⟨hw', ho, fun st => ?_, fun he => ?_⟩, rfl⟩
  · by_cases hm : st ∈ statuses
    · simp [hss, hm]
    · refine ((hss st).trans (if_neg hm)).trans ((hse st).trans ?_)
      by_cases hst : st = status <;> simp [hm, hst]
  · -- nothing was listed, so no record was deleted
    have hn : ch.order = [] := by
      refine eq_nil_iff_forall_not_mem.2 fun s hs => ?_
      have hm := (hl.2 s).1 hs
      rw [he] at hm
      exact absurd hm (notMem_empty s)
    have hsh' := hsh fun st => (hse st).trans (by rw [he st, ite_self])
    simpa [effect, hn] using hsh'

/-- **A clean-up that goes through removes everything**, but records of shards that were in no set. -/
theorem safe_cleanupTaskShardMeta : Safe step Works I (fun _ w' x => (Shrunk t w₀ w' ∧
      (∀ key : ObjectKey, key.underInput t = true ∨ key.underOutput t = true →
        w'.objects.lookup key = none) ∧ (∀ st, w'.shardSets t st = ∅) ∧
      ((∀ st, w.shardSets t st = ∅) → w'.shards t = w.shards t)) ∧ x = .ok ()) past w
      (cleanupTaskShardMeta t).run := by
  refine bindE (mono ?_ (safe_cleanupShardOSSFiles hI h h₀))
  rintro past₁ w₁ x h₁ ⟨⟨keys, rfl, hw₁, hk⟩, rfl⟩
  refine mono ?_ (safe_cleanupShardSets hI hw₁ h₁ _)
  rintro past' w' x - ⟨⟨hw', ho, hse, hs⟩, rfl⟩
  refine ⟨⟨hw', fun key hu => ?_, fun st => by rw [hse, if_pos (by cases st <;> decide)], hs⟩, rfl⟩
  rw [ho, lookup_eraseAll]
  split
  · rfl
  · next hke =>
    rw [eq_none_iff_forall_ne_some]
    exact fun body hb => hke (hk key (mem_iff.2 ⟨body, hb⟩) hu)

end

theorem cleaned_cleanupTaskShardMeta (w : World) (t : String) :
    Prog.Ends step Works (fun w' _ => Cleaned w w' t) w (cleanupTaskShardMeta t).run := by
  have hs : Safe step Works (fun _ _ => True) _ [] w (cleanupTaskShardMeta t).run :=
    safe_cleanupTaskShardMeta (fun _ _ _ _ _ => trivial) (.refl t w) trivial
  refine ends ?_ hs
  rintro - w' x ⟨⟨hw', hg, hse, hs⟩, -⟩
  have hg : ∀ key : ObjectKey, key.underOutput t = true → key ∉ w'.objects := fun key hu =>
    lookup_eq_none.1 (hg key (.inr hu))
  exact ⟨hw'.taskSets, fun s => hg _ (by simp [ObjectKey.underOutput]),
    fun s => hg _ (by simp [ObjectKey.underOutput]), hse, hs⟩

theorem cleaned_cleanUp (w : World) (instanceID t : String) :
    Prog.Ends step Works (fun w' _ => Cleaned w w' t) w (cleanUp instanceID t) := by
  refine Prog.Ends.bind (Prog.Ends.bind (Prog.Ends.mono ?_ (cleaned_cleanupTaskShardMeta w t)))
  intro w₁ x hc ch w₂ y hw hs
  obtain ⟨rfl, -⟩ := step_of_not_fails hs hw
  exact ⟨hc.tasks, hc.outputs, hc.errors, hc.members, hc.shards⟩

theorem Cleaned.recoverable_iff {w₀ : World} (h : Cleaned w w' t) (ht : w₀.Finalizable t)
    (hse : w.shardSets = w₀.shardSets) (hsh : w.shards = w₀.shards)
    (hta : w.taskSets = w₀.taskSets) : Recoverable w₀ w' t ↔ w₀.Bare t := by
  constructor
  · intro hr
    refine ⟨fun s => ⟨fun hs => h.outputs s (hr.outputs s hs), fun hs => h.errors s (hr.errors s hs)⟩,
      fun st => eq_empty_of_forall_notMem fun s hs => ?_⟩
    have hm := hr.members st s hs
    rw [h.members st] at hm
    exact notMem_empty s hm
  · rintro ⟨hn, he⟩
    refine ⟨fun s hs => absurd hs (hn s).1, fun s hs => absurd hs (hn s).2, fun st s hs => ?_,
      fun s hs => ?_, .finalizing, by decide, ?_⟩
    · rw [he st] at hs
      exact absurd hs (notMem_empty s)
    · rw [h.shards (fun st => by rw [hse, he st]), hsh]
      exact hs
    · rw [h.tasks, hta]
      exact (ht _).2 rfl

theorem Unpolled.not_recoverable (h : Unpolled t w') : ¬ Recoverable w w' t := by
  intro hr
  obtain ⟨st, hst, hm⟩ := hr.polled
  exact h st hst hm

theorem unpolled_firstMove (ht : w.Finalizable t) (now : Int) :
    Unpolled t (effect w (.moveTaskAndUpdateStatus t .finalizing .finalize now)) := by
  intro st hst hm
  have hin : t ∈ w.taskSets .finalizing := (ht _).2 rfl
  rw [taskSets_move, mem_moveScript (by decide), if_pos ⟨rfl, hin⟩] at hm
  rcases hm with rfl | ⟨hne, hm⟩
  · exact absurd hst (by decide)
  · exact hne ((ht st).1 hm)

/-! ### One failure -/

section

variable {w w' : World} {t instanceID : String} {h : List (Cmd × Choice)} {k : Nat} {ch : Choice}

/-- **Under the lock**, the first move decides. -/
theorem finalizeLocked_recoverable_iff {w₀ : World} (ht : w₀.Finalizable t)
    (hr : (finalizeLocked instanceID t).Solo step w h w' ()) (hf : FailsAt ch k h)
    (hse : w.shardSets = w₀.shardSets) (hsh : w.shards = w₀.shards)
    (hta : w.taskSets = w₀.taskSets) : Recoverable w₀ w' t ↔ k = 1 ∧ ch.refused = true ∧ w₀.Bare t := by
  have ht' : w.Finalizable t := fun st => by rw [hta]; exact ht st
  -- whatever follows the move, a task that has been moved is out of sight
  have hm : ∀ {p : GatewayM Unit} {h' : List (Cmd × Choice)} {now : Int}, Uses Cmd.late p →
      p.Solo step (effect w (.moveTaskAndUpdateStatus t .finalizing .finalize now)) h' w' () →
        ¬ Recoverable w₀ w' t := by
    intro p h' now hus hrs
    have he : Prog.Ends step (fun _ _ => True) (fun w' _ => Unpolled t w') _ p :=
      ends (fun _ _ _ _ _ hc _ hst hs => hs.step hc hst) hus (unpolled_firstMove ht' now)
    have hu : Unpolled t w' := he.sound hrs fun _ _ => trivial
    exact hu.not_recoverable
  cases hr with
  | @cmd _ _ _ w₁ _ clock now h₁ _ hcc hr =>
  cases hcc
  cases hf with
  | here hc => cases hc
  | later _ hf =>
  cases hr with
  | @cmd _ _ _ w₂ _ ch' x h₂ _ hst hr =>
  cases hf with
  | here hc hrs =>
    obtain ⟨hw, e, rfl⟩ := step_of_fails hst hc
    -- the error is logged, and the clean-up begins
    cases hre : ch.refused with
    | true =>
      rw [hre, if_pos rfl] at hw
      subst hw
      have hcl := (cleaned_cleanUp w₂ instanceID t).sound hr hrs
      simpa using hcl.recoverable_iff ht hse hsh hta
    | false =>
      rw [hre, if_neg (by decide)] at hw
      subst hw
      simpa using hm (late_cleanUp instanceID t) hr
  | later hwo =>
  obtain ⟨rfl, hx⟩ := step_of_not_fails hst hwo
  refine ⟨fun hrc => absurd hrc ?_, fun hk => by omega⟩
  cases x with
  | ok =>
    exact hm (bind (late_collectResults t) fun x => late_afterProcessing instanceID t x) hr
  | error =>
    exact hm (late_cleanUp instanceID t) hr

/-- **One failing command of a finalization is harmless only before the task has been touched**, or if it is
the first move, is not executed, and the task has no results and no shards. -/
theorem finalization_recoverable_iff (γ : Gateway) (ht : w.Finalizable t)
    (hrun : (program γ (.finalizer instanceID) .turn).Solo step w h w' ())
    (hpick : ∀ e ∈ h.head?, e.2.pick = t) (hfails : FailsAt ch k h) :
    Recoverable w w' t ↔ Harmless w t k ch := by
  have hin : t ∈ w.taskSets .finalizing := (ht _).2 rfl
  cases hrun with
  | @cmd _ _ _ w₁ _ ch₁ x h₁ _ hs hrun =>
  cases hfails with
  | here hc =>
    obtain ⟨hw, e, rfl⟩ := step_of_fails hs hc
    have hw : w₁ = w := hw.trans (ite_self _)
    subst hw
    cases hrun
    exact iff_of_true (.of_eq ht rfl rfl rfl rfl) (.inl (by decide))
  | later hwo hfails =>
    -- the task has been picked
    obtain ⟨hw, hx⟩ := step_of_not_fails hs hwo
    have hw : w₁ = w := hw
    subst hw
    obtain rfl : ch₁.pick = t := hpick _ rfl
    have hne : w₁.taskSets .finalizing ≠ ∅ := ne_empty_of_mem hin
    simp only [answer, pickMember, if_neg hne, if_pos hin, some.injEq] at hx
    subst hx
    cases hrun with
    | @cmd _ _ _ w₂ _ ch₂ x h₂ _ hs hrun =>
    cases hfails with
    | here hc =>
      obtain ⟨hw, e, rfl⟩ := step_of_fails hs hc
      cases hrun
      refine iff_of_true ?_ (.inl (by decide))
      split at hw <;> subst hw <;> exact .of_eq ht rfl rfl rfl rfl
    | later hwo hfails =>
    obtain ⟨rfl, hx⟩ := step_of_not_fails hs hwo
    rcases x with e | _ | _
    · cases hx
    · cases hrun
      exact absurd rfl hfails.ne_nil
    · change Solo step (finalizeLocked instanceID ch₁.pick) _ h₂ w' () at hrun
      rw [finalizeLocked_recoverable_iff ht hrun hfails rfl rfl rfl, Harmless]
      rename_i k
      have hk : k + 1 + 1 = 3 ↔ k = 1 := by omega
      have hl : ¬ k + 1 + 1 < 2 := by omega
      rw [hk, or_iff_right hl]

end

/-! ### Runs of the sample task -/

/-- A task with one completed shard that waits for a finalizer. -/
def sampleFinalizing : World :=
  { sampleSharded with
    taskSets := fun status => if status = .finalizing then {"batch_1"} else ∅
    shardSets := fun taskID status => if taskID = "batch_1" ∧ status = .completed then {"0"} else ∅
    objects := singleton (.shardOutput "batch_1" "0") [97, 10] }

theorem sampleFinalizing_finalizable : sampleFinalizing.Finalizable "batch_1" := by
  intro st
  by_cases hst : st = .finalizing <;> simp [sampleFinalizing, hst]

/-- The command fails without being executed. -/
def refuse : Choice := { fault := some (.refused, "connection refused") }

theorem finalization_recoverable_iff_sampleFinalizing :
    ∃ h w' ch, (program sampleGateway (.finalizer "a") .turn).Solo step sampleFinalizing h w' () ∧
      FailsAt ch 1 h ∧ Recoverable sampleFinalizing w' "batch_1" := by
  have hr : ∃ r ∈ solo step (program sampleGateway (.finalizer "a") .turn) sampleFinalizing
      [{ pick := "batch_1" }, refuse], ∃ kch ∈ failure r.1, kch.1 = 1 ∧
        ∀ e ∈ r.1.head?, e.2.pick = "batch_1" := by decide
  obtain ⟨⟨h, w', _⟩, hs, ⟨k, ch⟩, hfl, rfl, hp⟩ := hr
  have hfa := FailsAt.of_failure hfl
  exact ⟨h, w', ch, Solo.of_solo hs, hfa, (finalization_recoverable_iff sampleGateway
    sampleFinalizing_finalizable (Solo.of_solo hs) hp hfa).2 (.inl (by decide))⟩

/-- **One result that cannot be downloaded, and all results are gone**, with the task left in `finalize`. -/
theorem failed_download_deletes_results :
    ¬ ∀ (γ : Gateway) (instanceID t : String) (w w' : World) (h : List (Cmd × Choice)) (k : Nat)
      (ch : Choice), w.Finalizable t → (program γ (.finalizer instanceID) .turn).Solo step w h w' () →
          (∀ e ∈ h.head?, e.2.pick = t) → FailsAt ch k h → Recoverable w w' t := by
  intro ha
  have hr : ∃ r ∈ solo step (program sampleGateway (.finalizer "a") .turn) sampleFinalizing
      ({ pick := "batch_1" } :: plain 4 ++ [{ order := ["0"] },
        { keys := [.shardOutput "batch_1" "0"] }, { uuid := "5" }, { uuid := "6" }] ++ plain 1 ++
          refuse :: plain 1 ++ { keys := [.shardOutput "batch_1" "0"] } :: plain 5 ++ [{ order := ["0"] }] ++
            plain 4), ∃ kch ∈ failure r.1, (∀ e ∈ r.1.head?, e.2.pick = "batch_1") ∧
              ObjectKey.shardOutput "batch_1" "0" ∉ r.2.1.objects := by decide
  obtain ⟨⟨h, w', _⟩, hs, ⟨k, ch⟩, hfa, hp, hn⟩ := hr
  have hre := ha sampleGateway "a" "batch_1" _ w' h k ch sampleFinalizing_finalizable
    (Solo.of_solo hs) hp (.of_failure hfa)
  exact hn (hre.outputs "0" (by decide))

/-! ### Bulk deletion -/

/-- **A bucket** that has deleted some paths. A call deletes and reports a non-empty part of its paths, or
fails. -/
def bucketStep (gone : List ObjectKey) : (c : Cmd) → Except String (List ObjectKey) →
    Option (List ObjectKey × c.Resp)
  | .remote (.deleteObjects paths), .ok reported =>
    if reported ≠ [] ∧ reported.Nodup ∧ reported ⊆ paths then some (gone ++ reported, .ok reported.length)
    else none
  | .remote (.deleteObjects _), .error e => some (gone, .error e)
  | _, _ => none

/-- **No path is passed over**: when a call has reported `n` paths, each of the first `n` has been reported by
then, or comes again in the rest of the list. -/
def PassesNone : List ObjectKey → List ObjectKey → List (Except String (List ObjectKey)) → Prop
  | gone, paths, .ok reported :: answers =>
    (∀ key ∈ paths.take reported.length, key ∈ gone ++ reported ∨ key ∈ paths.drop reported.length) ∧
      PassesNone (gone ++ reported) (paths.drop reported.length) answers
  | _, _, _ => True

variable {fuel : Nat} {paths gone gone' : List ObjectKey} {h : List (Cmd × Except String (List ObjectKey))}
  {result : Except String Unit}

theorem solo_deleteFilesFrom (hf : paths.length ≤ fuel)
    (hr : (deleteFilesFrom fuel paths).Solo bucketStep gone h gone' result) :
    h.length ≤ paths.length ∧ gone ⊆ gone' ∧ gone' ⊆ gone ++ paths ∧
      (result = .ok () → (paths ⊆ gone' ↔ PassesNone gone paths (h.map Prod.snd))) := by
  induction fuel generalizing paths gone h with
  | zero =>
    obtain rfl := eq_nil_of_length_eq_zero (Nat.le_zero.1 hf)
    cases hr
    simp [PassesNone]
  | succ fuel ih =>
  rw [deleteFilesFrom] at hr
  split at hr
  · next he =>
    cases hr
    simp [isEmpty_iff.1 he, PassesNone]
  rename_i hne
  obtain _ | @⟨_, _, _, gone₁, _, k, x, h, _, hs, hr⟩ := hr
  cases k with
  | error e =>
    cases hs
    cases hr
    have hp : 0 < paths.length := length_pos_iff.2 fun h => hne (isEmpty_iff.2 h)
    exact ⟨hp, Subset.refl _, subset_append_left _ _, fun he => by cases he⟩
  | ok reported =>
    simp only [bucketStep] at hs
    split at hs
    · next hok =>
      cases hs
      obtain ⟨hnil, hnd, hsub⟩ := hok
      have hsub := Subset.trans hsub (take_subset _ _)
      have hp := length_pos_iff.2 hnil
      have hle : reported.length ≤ paths.length := (hnd.subperm hsub).length_le
      have hd : (paths.drop reported.length).length = paths.length - reported.length := length_drop
      obtain ⟨hl, hg, hg', hi⟩ := ih (by omega) hr
      refine ⟨by rw [length_cons]; omega, fun key hm => hg (mem_append_left _ hm), fun key hm => ?_,
        fun hres => ?_⟩
      · rcases mem_append.1 (hg' hm) with hm | hm
        · exact (mem_append.1 hm).elim (mem_append_left _) fun hm => mem_append_right _ (hsub hm)
        · exact mem_append_right _ (mem_of_mem_drop hm)
      · rw [List.map_cons, PassesNone, ← hi hres]
        constructor
        · exact fun hk => ⟨fun key hm => mem_append.1 (hg' (hk (mem_of_mem_take hm))),
            fun key hm => hk (mem_of_mem_drop hm)⟩
        · rintro ⟨hpass, hd⟩ key hm
          rw [← take_append_drop reported.length paths] at hm
          rcases mem_append.1 hm with hm | hm
          · exact (hpass key hm).elim (@hg key) (@hd key)
          · exact hd hm
    · cases hs

/-- **Bulk deletion ends, and it is complete iff no path is passed over**; there are at most as many calls as
paths. -/
theorem deleteFiles_complete_iff (paths : List ObjectKey) (fuel : Nat) (hf : paths.length ≤ fuel)
    (h : List (Cmd × Except String (List ObjectKey))) (gone : List ObjectKey) (result : Except String Unit)
    (hr : (deleteFilesFrom fuel paths).Solo bucketStep [] h gone result) :
    h.length ≤ paths.length ∧
      (result = .ok () → (paths ⊆ gone ↔ PassesNone [] paths (h.map Prod.snd))) := by
  obtain ⟨hl, -, -, hi⟩ := solo_deleteFilesFrom hf hr
  exact ⟨hl, hi⟩

/-- Two paths, the second one deleted in a call of its own. -/
theorem deleteFiles_complete_two : ∃ h gone, (deleteFilesFrom 2 [.file "a", .file "b"]).Solo bucketStep []
    h gone (.ok ()) ∧ [.file "a", .file "b"] ⊆ gone := by
  have hr : ∃ r ∈ solo bucketStep (deleteFilesFrom 2 [.file "a", .file "b"]) []
      [.ok [.file "a"], .ok [.file "b"]], r.2.2 = .ok () ∧
        r.1.map Prod.snd = [.ok [.file "a"], .ok [.file "b"]] := by decide
  obtain ⟨⟨h, gone, result⟩, hs, rfl, hh⟩ := hr
  refine ⟨h, gone, Solo.of_solo hs,
    ((deleteFiles_complete_iff _ 2 le_rfl h gone _ (Solo.of_solo hs)).2 rfl).2 ?_⟩
  rw [hh]
  exact ⟨by simp, by simp, trivial⟩

/-- **A path that is never deleted**: of two paths the bucket deletes the second, and the loop goes on after
the first. -/
theorem first_path_remains : ¬ ∀ (paths : List ObjectKey) (h : List (Cmd × Except String (List ObjectKey)))
    (gone : List ObjectKey), (deleteFiles paths).Solo bucketStep [] h gone (.ok ()) → paths ⊆ gone := by
  intro ha
  have hr : ∃ r ∈ solo bucketStep (deleteFiles [.file "a", .file "b"]) [] [.ok [.file "b"], .ok [.file "b"]],
      r.2.2 = .ok () ∧ ObjectKey.file "a" ∉ r.2.1 := by decide
  obtain ⟨⟨h, gone, result⟩, hs, rfl, hn⟩ := hr
  exact hn (ha _ h gone (Solo.of_solo hs) mem_cons_self)

end Llumnix.Batch
