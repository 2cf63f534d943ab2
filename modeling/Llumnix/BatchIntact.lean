/-
**What is stored of a task that is being worked on.**

Every shard of a validated task is pending, in progress or completed; a completed one has its response lines
in at most two objects and its counts in a record, and together they answer its lines.  A worker finds what
it has read or stored of a shard as it left it, because it is alone with the shard.

* `Intact.step` — **all of this is kept by every command** of workers and finalizers, until somebody cleans
  up after the task.
-/

import Llumnix.BatchShardLock

namespace Llumnix.Batch

open FiniteMap Function ObjectKey Finset

variable {s t taskID : String} {w : World} {key : ObjectKey} {codec : Codec} {r : Remote}
  {worker : Option Worker} {d : Duty}

/-! ### Jobs -/

/-- **A task cut into shards**, with lines that are neither skipped nor split when they are read back. -/
structure Job where
  taskID : String
  ids : Finset String
  lines : String → List Bytes
  ne_nil : ∀ s ∈ ids, lines s ≠ []
  nonempty : ∀ s ∈ ids, ∀ line ∈ lines s, line ≠ []
  newline_notMem : ∀ s ∈ ids, ∀ line ∈ lines s, newline ∉ line

theorem Job.read_lines (J : Job) (hs : s ∈ J.ids) :
    nonEmptyLines (splitLines (joinLines (J.lines s))) = J.lines s := by
  rw [splitLines_joinLines (J.ne_nil s hs) (J.newline_notMem s hs)]
  refine List.filter_eq_self.2 fun line hline => ?_
  simpa using J.nonempty s hs line hline

/-! ### Stored results -/

/-- The object holds these lines; there is none if there are no lines. -/
def World.Stored (w : World) (key : ObjectKey) (result : List Bytes) : Prop :=
  w.objects.lookup key = if result = [] then none else some (joinLines result)

theorem World.Stored.getD {result : List Bytes} (h : w.Stored key result) :
    (w.objects.lookup key).getD [] = unlines result := by
  rw [h]
  split
  · rename_i hn
    rw [hn]
    rfl
  · next hne => exact joinLines_eq_unlines hne

/-- **The results of a shard are stored**: response lines that answer its lines, and their counts. -/
def World.Done (w : World) (codec : Codec) (J : Job) (s : String) : Prop :=
  ∃ outs errs, Answers codec J.taskID (J.lines s) outs errs ∧
    w.Stored (.shardOutput J.taskID s) outs ∧ w.Stored (.shardError J.taskID s) errs ∧
    ∃ shard, w.shards J.taskID s = some shard ∧
      shard.requestCounts = some ⟨outs.length + errs.length, outs.length, errs.length⟩

structure SameShard (w w' : World) (t s : String) : Prop where
  output : w'.objects.lookup (.shardOutput t s) = w.objects.lookup (.shardOutput t s)
  error : w'.objects.lookup (.shardError t s) = w.objects.lookup (.shardError t s)
  shard : w'.shards t s = w.shards t s

theorem SameShard.refl (w : World) (t s : String) : SameShard w w t s := ⟨rfl, rfl, rfl⟩

theorem SameShard.done {w' : World} {J : Job} (h : SameShard w w' J.taskID s) (hdo : w.Done codec J s) :
    w'.Done codec J s := by
  obtain ⟨outs, errs, ha, ho, he, shard, hs, hc⟩ := hdo
  exact ⟨outs, errs, ha, h.output.trans ho, h.error.trans he, shard, h.shard.trans hs, hc⟩

/-! ### Who writes what -/

def Remote.writesObjects : Remote → Bool
  | .putObject .. | .deleteObjects _ | .appendObject .. => true
  | _ => false

theorem objects_effect (h : r.writesObjects = false) (w : World) : (effect w r).objects = w.objects := by
  cases r <;> first | rfl | cases h
  simp only [effect]
  split <;> rfl

theorem lookup_putObject (w : World) (key j : ObjectKey) (content : Bytes) :
    (effect w (.putObject key content)).objects.lookup j
      = if j = key then some content else w.objects.lookup j :=
  lookup_insert_ite _ _ _ _

theorem lookup_deleteObjects (w : World) (keys : List ObjectKey) (j : ObjectKey) :
    (effect w (.deleteObjects keys)).objects.lookup j = if j ∈ keys then none else w.objects.lookup j :=
  lookup_eraseAll _ _ _

theorem lookup_appendObject_of_ne (w : World) {j : ObjectKey} (h : j ≠ key) (content : Bytes)
    (position : Nat) :
    (effect w (.appendObject key content position)).objects.lookup j = w.objects.lookup j := by
  simp only [effect]
  split
  · exact Finmap.lookup_insert_of_ne _ h
  · rfl

/-- The object belongs to the shards of this task. -/
def ObjectKey.Under (key : ObjectKey) (taskID : String) : Prop :=
  key.underInput taskID = true ∨ key.underOutput taskID = true

theorem under_shardInput : (shardInput t s).Under taskID ↔ t = taskID := by
  simp [ObjectKey.Under, underInput, underOutput]

theorem under_shardOutput : (shardOutput t s).Under taskID ↔ t = taskID := by
  simp [ObjectKey.Under, underInput, underOutput]

theorem under_shardError : (shardError t s).Under taskID ↔ t = taskID := by
  simp [ObjectKey.Under, underInput, underOutput]

theorem not_under_file {fileID : String} : ¬ (file fileID).Under taskID := by
  simp [ObjectKey.Under, underInput, underOutput]

theorem ObjectKey.Under.eq {t' : String} (h : key.Under t) (h' : key.Under t') : t = t' := by
  cases key with
  | file => exact absurd h not_under_file
  | shardInput => exact (under_shardInput.1 h).symm.trans (under_shardInput.1 h')
  | shardOutput => exact (under_shardOutput.1 h).symm.trans (under_shardOutput.1 h')
  | shardError => exact (under_shardError.1 h).symm.trans (under_shardError.1 h')

/-- A finalizer only deletes objects of its own task. -/
def Duty.Tidy (d : Duty) : Prop := ∀ t keys, d = .ending t keys → ∀ key ∈ keys, key.Under t

/-- **Who writes the objects of a task**: the worker that processes the shard, and whoever cleans up. -/
theorem lookup_effect (ha : d.AllowedRemote codec worker r) (ht : d.Tidy) (w : World)
    (hk : key.Under t) : (effect w r).objects.lookup key = w.objects.lookup key ∨ d.Over t ∨
      ∃ s, (key = .shardOutput t s ∨ key = .shardError t s) ∧
        (r.writesResult = true ∧ (∃ lines outs errs, d = .writing t s lines outs errs) ∨
          (d = .working t s ∨ d = .cleared t s) ∧ ∃ keys, r = .deleteObjects keys) := by
  cases hw : r.writesObjects with
  | false => exact .inl (by rw [objects_effect hw])
  | true =>
  cases r with
  | putObject key' content =>
    obtain ⟨t', s, lines, result, -, -, -, hwr⟩ := ha
    rw [lookup_putObject]
    split
    · rename_i heq
      subst heq
      rcases hwr with ⟨rfl, rfl⟩ | ⟨rfl, outs, rfl⟩
      · obtain rfl := under_shardOutput.1 hk
        exact .inr (.inr ⟨s, .inl rfl, .inl ⟨rfl, _, _, _, rfl⟩⟩)
      · obtain rfl := under_shardError.1 hk
        exact .inr (.inr ⟨s, .inr rfl, .inl ⟨rfl, _, _, _, rfl⟩⟩)
    · exact .inl rfl
  | deleteObjects keys =>
    rw [lookup_deleteObjects]
    split
    · rename_i hm
      rcases ha with ⟨t', s, hd, hke⟩ | ⟨c, -, -, -, hke⟩ | ⟨t', others, rfl, hke⟩
      · rcases hke key hm with rfl | rfl
        · obtain rfl := under_shardOutput.1 hk
          exact .inr (.inr ⟨s, .inl rfl, .inr ⟨hd, keys, rfl⟩⟩)
        · obtain rfl := under_shardError.1 hk
          exact .inr (.inr ⟨s, .inr rfl, .inr ⟨hd, keys, rfl⟩⟩)
      · rcases hke key hm with rfl | rfl <;> exact absurd hk not_under_file
      · have hu := ht t' others rfl key (hke key hm)
        obtain rfl := hu.eq hk
        exact .inr (.inl ⟨others, rfl⟩)
    · exact .inl rfl
  | appendObject key' content position =>
    refine .inl (lookup_appendObject_of_ne w ?_ content position)
    rintro rfl
    obtain ⟨c, -, ⟨-, rfl⟩ | ⟨-, rfl, -⟩⟩ := ha <;> exact absurd hk not_under_file
  | _ => cases hw

/-- The shard record that a command writes. -/
def Remote.writesShard (r : Remote) (t s : String) : Prop :=
  (∃ shard, r = .createOrUpdateFileShard t s shard) ∨ ∃ shardIDs status, r = .delShardInfo t shardIDs status

theorem shards_effect (h : ¬ r.writesShard t s) : (effect w r).shards t s = w.shards t s := by
  cases r with
  | createOrUpdateFileShard t' s' shard =>
    by_cases ht : t = t'
    · subst ht
      have hs : s ≠ s' := by
        rintro rfl
        exact h (.inl ⟨shard, rfl⟩)
      simp [effect, hs]
    · simp [effect, ht]
  | delShardInfo t' shardIDs status =>
    have ht : t ≠ t' := by
      rintro rfl
      exact h (.inr ⟨shardIDs, status, rfl⟩)
    simp [effect, ht]
  | moveTaskAndUpdateStatus | appendObject =>
    simp only [effect]
    split <;> rfl
  | _ => rfl

/-- **Who writes the results of a shard.** -/
theorem sameShard_effect (ha : d.AllowedRemote codec worker r) (ht : d.Tidy) (w : World)
    (t s : String) : SameShard w (effect w r) t s ∨ d.Over t ∨
      (r.writesResult = true ∧ (∃ lines outs errs, d = .writing t s lines outs errs) ∨
        (d = .working t s ∨ d = .cleared t s) ∧ ∃ keys, r = .deleteObjects keys) := by
  rcases lookup_effect ha ht w ((under_shardOutput (t := t) (s := s)).2 rfl) with
    hou | ho | ⟨s', hk | hk, hw⟩
  · rcases lookup_effect ha ht w ((under_shardError (t := t) (s := s)).2 rfl) with
      he | ho | ⟨s', hk | hk, hw⟩
    · by_cases hs : r.writesShard t s
      · rcases hs with ⟨shard, rfl⟩ | ⟨shardIDs, status, rfl⟩
        · obtain ⟨lines, outs, errs, rfl, -⟩ := ha
          exact .inr (.inr (.inl ⟨rfl, _, _, _, rfl⟩))
        · exact .inr (.inl ha)
      · exact .inl ⟨hou, he, shards_effect hs⟩
    · exact .inr (.inl ho)
    · cases hk
    · cases hk
      exact .inr (.inr hw)
  · exact .inr (.inl ho)
  · cases hk
    exact .inr (.inr hw)
  · cases hk

theorem lookup_shardInput_effect (ha : d.AllowedRemote codec worker r) (ht : d.Tidy) (w : World)
    (ho : ¬ d.Over t) (s : String) :
    (effect w r).objects.lookup (.shardInput t s) = w.objects.lookup (.shardInput t s) := by
  rcases lookup_effect ha ht w ((under_shardInput (t := t) (s := s)).2 rfl) with
    hsame | hd | ⟨s', hk | hk, -⟩
  · exact hsame
  · exact absurd hd ho
  · cases hk
  · cases hk

/-! ### What workers find -/

/-- No shard of the task is pending or in progress. -/
def World.AllCompleted (w : World) (t : String) : Prop :=
  w.shardSets t .pending = ∅ ∧ w.shardSets t .inProgress = ∅

/-- **What the store owes a worker**, if it is working for this job. -/
def Duty.Claims (codec : Codec) (J : Job) (w : World) : Duty → Prop
  | .cleared t s => t = J.taskID →
      w.Stored (.shardOutput t s) [] ∧ w.Stored (.shardError t s) []
  | .writing t s lines outs errs => t = J.taskID →
      lines = J.lines s ∧ w.Stored (.shardOutput t s) outs ∧ w.Stored (.shardError t s) errs
  | .counted t s => t = J.taskID → w.Done codec J s
  | .skipped t _ => t ≠ J.taskID
  | .allDone t => t = J.taskID → w.AllCompleted t
  | _ => True

section

variable {codec : Codec} {J : Job} {w w' : World} {d : Duty} {worker : Option Worker} {r : Remote}

theorem Duty.Claims.frame (h : d.Claims codec J w)
    (hsh : ∀ s, d.Window J.taskID s → SameShard w w' J.taskID s)
    (ha : w.AllCompleted J.taskID → w'.AllCompleted J.taskID) : d.Claims codec J w' := by
  cases d with
  | cleared t s =>
    rintro rfl
    have hs := hsh s ⟨rfl, rfl⟩
    exact ⟨hs.output.trans (h rfl).1, hs.error.trans (h rfl).2⟩
  | writing t s =>
    rintro rfl
    have hs := hsh s ⟨rfl, rfl⟩
    obtain ⟨hl, ho, he⟩ := h rfl
    exact ⟨hl, hs.output.trans ho, hs.error.trans he⟩
  | counted t s =>
    rintro rfl
    exact (hsh s ⟨rfl, rfl⟩).done (h rfl)
  | skipped => exact h
  | allDone =>
    rintro rfl
    exact ha (h rfl)
  | _ => trivial

/-- What is missing while a worker clears its shard stays missing. -/
theorem stored_nil_effect {key : ObjectKey} {t s : String}
    (ha : Duty.AllowedRemote codec worker (.cleared t s) r) (hk : key.Under t)
    (h : w.Stored key []) : (effect w r).Stored key [] := by
  have ht : Duty.Tidy (.cleared t s) := fun _ _ heq => by cases heq
  rcases lookup_effect ha ht w hk with hs | ⟨_, ho⟩ | ⟨s', -, hw⟩
  · exact hs.trans h
  · cases ho
  · rcases hw with ⟨-, _, _, _, hd⟩ | ⟨-, keys, rfl⟩
    · cases hd
    · rw [World.Stored, lookup_deleteObjects]
      split
      · rfl
      · exact h

theorem Duty.Claims.stay (h : d.Claims codec J w) (ha : d.AllowedRemote codec worker r)
    (ht : d.Tidy) (ho : ¬ d.Over J.taskID) (hr : r.writesResult = false)
    (hw : w' = w ∨ w' = effect w r) (hal : w.AllCompleted J.taskID → w'.AllCompleted J.taskID) :
    d.Claims codec J w' := by
  rcases hw with rfl | rfl
  · exact h
  cases d with
  | working => trivial
  | cleared =>
    rintro rfl
    exact ⟨stored_nil_effect ha (under_shardOutput.2 rfl) (h rfl).1,
      stored_nil_effect ha (under_shardError.2 rfl) (h rfl).2⟩
  | _ =>
  refine h.frame (fun s _ => ?_) hal
  rcases sameShard_effect ha ht w J.taskID s with hs | hd | ⟨hwr, -⟩ | ⟨hd, -⟩
  · exact hs
  · exact absurd hd ho
  · cases hr.symm.trans hwr
  · rcases hd with hd | hd <;> cases hd

end

/-! ### The invariant -/

/-- **A task that is intact**: every shard is in one set, its lines are there, and so are the results of the
completed ones. -/
structure Intact (codec : Codec) (J : Job) (w : World) (φ : Proc → Duty) : Prop where
  apart : ∀ s st st', s ∈ w.shardSets J.taskID st → s ∈ w.shardSets J.taskID st' → st = st'
  members : ∀ s, (∃ st, s ∈ w.shardSets J.taskID st) ↔ s ∈ J.ids
  failed : w.shardSets J.taskID .failed = ∅
  inputs : ∀ s ∈ J.ids, w.objects.lookup (.shardInput J.taskID s) = some (joinLines (J.lines s))
  done : ∀ s ∈ w.shardSets J.taskID .completed, w.Done codec J s
  busy : BusyShards J.taskID w φ
  claims : ∀ i, (φ i).Claims codec J w

section

variable {codec : Codec} {J : Job} {w w' : World} {φ : Proc → Duty} {i : Proc}
variable {s : String} {ch : Choice} {r : Remote} {x : Except String r.Val}

theorem Intact.mem_ids (h : Intact codec J w φ) (hs : (φ i).Busy J.taskID s) : s ∈ J.ids :=
  (h.members s).1 ⟨_, h.busy i s hs⟩

/-- Nothing new is pending or in progress once everything is completed. -/
theorem allCompleted_step {d : Duty} {worker : Option Worker} {c : Cmd} {x : c.Resp} {t : String}
    (ha : d.Allowed codec worker c) (ho : ¬ d.Over t) (hst : step w c ch = some (w', x))
    (h : w.AllCompleted t) : w'.AllCompleted t := by
  have hn : ∀ (s : String) (st : ShardStatus), st = .pending ∨ st = .inProgress → s ∉ w.shardSets t st := by
    rintro s st (rfl | rfl)
    · rw [h.1]
      exact notMem_empty s
    · rw [h.2]
      exact notMem_empty s
  rcases shardSets_step ha ho hst with hs | ⟨s, ⟨-, hs⟩ | ⟨-, hs⟩⟩
  · rwa [World.AllCompleted, hs]
  · rwa [World.AllCompleted, hs, moveScript_of_notMem (by decide) (hn s _ (.inl rfl))]
  · rwa [World.AllCompleted, hs, moveScript_of_notMem (by decide) (hn s _ (.inr rfl))]

/-- **A worker finds what it has stored.** -/
theorem Intact.own (h : Intact codec J w φ) (ha : (φ i).AllowedRemote codec i.asWorker r)
    (ht : (φ i).Tidy) (hov : ¬ (φ i).Over J.taskID)
    (hin : ∀ s, (φ i).Processing J.taskID s → J.taskID ∈ w.taskSets .inProgress)
    (hst : step w (.remote r) ch = some (w', x)) : ((φ i).afterRemote r x).Claims codec J w' := by
  have hc := h.claims i
  have hi : ∀ s, (φ i).Busy J.taskID s → s ∈ J.ids := fun s => h.mem_ids
  have hal := allCompleted_step (c := .remote r) ha hov hst
  have hm := Duty.moves_afterRemote ha x
  generalize (φ i).afterRemote r x = d' at hm ⊢
  generalize φ i = d at hm hc hi ha ht hov hin
  cases hm with
  | stay hr => exact hc.stay ha ht hov hr (eq_or_eq_effect hst) hal
  | skip =>
    rintro rfl
    obtain ⟨-, hx⟩ := step_remote_ok hst
    have hme := hin _ ⟨rfl, rfl⟩
    simp [answer, hme] at hx
  | clear ho he =>
    rintro rfl
    obtain ⟨rfl, -⟩ := step_remote_ok hst
    refine ⟨?_, ?_⟩
    · rw [World.Stored, lookup_deleteObjects, if_pos ho, if_pos rfl]
    · rw [World.Stored, lookup_deleteObjects, if_pos he, if_pos rfl]
  | read =>
    rename_i t s body
    rintro rfl
    obtain ⟨rfl, hx⟩ := step_remote_ok hst
    have hs := hi s (.inr ⟨rfl, rfl⟩)
    simp only [answer, h.inputs s hs, Option.some.injEq, Except.ok.injEq] at hx
    subst hx
    exact ⟨J.read_lines hs, hc rfl⟩
  | storeOutput hne =>
    rintro rfl
    obtain ⟨rfl, -⟩ := step_remote_ok hst
    obtain ⟨hl, -, he⟩ := hc rfl
    refine ⟨hl, ?_, ?_⟩
    · rw [World.Stored, lookup_putObject, if_pos rfl, if_neg hne]
    · rw [World.Stored, lookup_putObject, if_neg (by simp)]
      exact he
  | storeError hne =>
    rintro rfl
    obtain ⟨rfl, -⟩ := step_remote_ok hst
    obtain ⟨hl, ho, -⟩ := hc rfl
    refine ⟨hl, ?_, ?_⟩
    · rw [World.Stored, lookup_putObject, if_neg (by simp)]
      exact ho
    · rw [World.Stored, lookup_putObject, if_pos rfl, if_neg hne]
  | count han hco =>
    rename_i t s lines outs errs shard
    rintro rfl
    obtain ⟨rfl, -⟩ := step_remote_ok hst
    obtain ⟨rfl, ho, he⟩ := hc rfl
    exact ⟨outs, errs, han, ho, he, shard, by simp [effect], hco⟩
  | allDone =>
    rintro rfl
    obtain ⟨rfl, hx⟩ := step_remote_ok hst
    simpa [answer, World.AllCompleted] using hx
  | _ => trivial

/-- The results of a shard only change under a worker that is processing it. -/
theorem sameShard_or_processing {t : String} (ha : (φ i).AllowedRemote codec i.asWorker r)
    (ht : (φ i).Tidy) (ho : ¬ (φ i).Over t) (hw : w' = w ∨ w' = effect w r) :
    SameShard w w' t s ∨ (φ i).Processing t s := by
  rcases hw with rfl | rfl
  · exact .inl (.refl _ _ _)
  · rcases sameShard_effect ha ht w t s with hs | hd | ⟨-, _, _, _, hd⟩ | ⟨hd | hd, -⟩
    · exact .inl hs
    · exact absurd hd ho
    all_goals
      rw [hd]
      exact .inr ⟨rfl, rfl⟩

section

variable (h : Intact codec J w φ)
include h

section

variable (ha : (φ i).AllowedRemote codec i.asWorker r) (ht : (φ i).Tidy) (ho : ¬ (φ i).Over J.taskID)
include ha ht ho

theorem Intact.sameShard (hw : w' = w ∨ w' = effect w r)
    (hs : s ∉ w.shardSets J.taskID .inProgress) : SameShard w w' J.taskID s :=
  (sameShard_or_processing ha ht ho hw).resolve_right fun hp => hs (h.busy i s (.inr hp))

/-- **Results of completed shards stay, and come from workers that have stored them.** -/
theorem Intact.done_step (hst : step w (.remote r) ch = some (w', x))
    (hs : s ∈ w'.shardSets J.taskID .completed) : w'.Done codec J s := by
  have hw := eq_or_eq_effect hst
  -- the shard was completed before, or its worker has just completed it
  have hb : s ∈ w.shardSets J.taskID .completed ∨ φ i = .counted J.taskID s := by
    rcases shardSets_step (c := .remote r) ha ho hst with
      hse | ⟨s', ⟨-, hse⟩ | ⟨hd, hse⟩⟩ <;> rw [hse] at hs
    · exact .inl hs
    · exact .inl (mem_of_mem_moveScript (by decide) (by decide) hs)
    by_cases heq : s = s'
    · subst heq
      rcases hd with hd | hd
      · exact .inr hd
      · have hc := h.claims i
        rw [hd] at hc
        exact absurd rfl hc
    · exact .inl ((mem_moveScript_of_ne heq).1 hs)
  rcases hb with hb | hd
  · refine (h.sameShard ha ht ho hw fun hin => ?_).done (h.done s hb)
    cases h.apart s _ _ hb hin
  have hc := h.claims i
  rw [hd] at hc ha ht
  have hdo : w.Done codec J s := hc rfl
  rcases hw with rfl | rfl
  · exact hdo
  · rcases sameShard_effect ha ht w J.taskID s with hsa | ⟨_, hd⟩ | ⟨-, _, _, _, hd⟩ | ⟨hd, -⟩
    · exact hsa.done hdo
    · cases hd
    · cases hd
    · rcases hd with hd | hd <;> cases hd

theorem Intact.remote (hh : HeldShards w φ)
    (hin : ∀ s, (φ i).Processing J.taskID s → J.taskID ∈ w.taskSets .inProgress)
    (hta : ∀ s, Cmd.takeover (.remote r) = some (J.taskID, s) →
      s ∈ w.shardSets J.taskID .inProgress) (hst : step w (.remote r) ch = some (w', x)) :
    Intact codec J w' (update φ i ((φ i).afterRemote r x)) := by
  have hw := eq_or_eq_effect hst
  have hse := shardSets_step (c := .remote r) ha ho hst
  constructor
  · rcases hse with hse | ⟨s, ⟨-, hse⟩ | ⟨-, hse⟩⟩ <;> rw [hse]
    · exact h.apart
    · exact unique_moveScript (by decide) h.apart
    · exact unique_moveScript (by decide) h.apart
  · intro s
    rcases hse with hse | ⟨s', ⟨-, hse⟩ | ⟨-, hse⟩⟩ <;> rw [hse]
    · exact h.members s
    · exact (exists_mem_moveScript (by decide) s).trans (h.members s)
    · exact (exists_mem_moveScript (by decide) s).trans (h.members s)
  · have hn : ∀ s, s ∉ w.shardSets J.taskID .failed := by
      intro s
      rw [h.failed]
      exact notMem_empty s
    refine eq_empty_of_forall_notMem fun s hs => hn s ?_
    rcases hse with hse | ⟨s', ⟨-, hse⟩ | ⟨-, hse⟩⟩ <;> rw [hse] at hs
    · exact hs
    · exact mem_of_mem_moveScript (by decide) (by decide) hs
    · exact mem_of_mem_moveScript (by decide) (by decide) hs
  · intro s hs
    rcases hw with rfl | rfl
    · exact h.inputs s hs
    · rw [lookup_shardInput_effect ha ht w ho s]
      exact h.inputs s hs
  · exact fun s hs => h.done_step ha ht ho hst hs
  · exact h.busy.step (c := .remote r) hh ha hta ho hst
  · intro j
    rw [update_apply]
    split
    · exact h.own ha ht ho hin hst
    · rename_i hji
      refine (h.claims j).frame (fun s hj => ?_)
        (allCompleted_step (c := .remote r) ha ho hst)
      exact (sameShard_or_processing ha ht ho hw).resolve_right fun hp => hji (hh.alone hj hp.window)

end

/-- The store has not changed, and what a goroutine relies on now it could rely on before. -/
theorem Intact.of_duty {d : Duty}
    (hb : ∀ s, d.Busy J.taskID s → (φ i).Busy J.taskID s) (hc : d.Claims codec J w) :
    Intact codec J w (update φ i d) := by
  refine ⟨h.apart, h.members, h.failed, h.inputs, h.done, fun j s hj => ?_, fun j => ?_⟩
  · rw [update_apply] at hj
    split at hj
    · exact h.busy i s (hb s hj)
    · exact h.busy j s hj
  · rw [update_apply]
    split
    · exact hc
    · exact h.claims j

theorem Intact.forget (i : Proc) : Intact codec J w (update φ i .idle) :=
  h.of_duty (fun _ hb => hb.window.elim) trivial

theorem Intact.congr (hse : w'.shardSets = w.shardSets)
    (ho : w'.objects = w.objects) (hsh : w'.shards = w.shards) : Intact codec J w' φ := by
  have hsa : ∀ s, SameShard w w' J.taskID s := fun s => ⟨by rw [ho], by rw [ho], by rw [hsh]⟩
  refine ⟨?_, ?_, ?_, ?_, ?_, ?_, ?_⟩
  · rw [hse]
    exact h.apart
  · rw [hse]
    exact h.members
  · rw [hse]
    exact h.failed
  · rw [ho]
    exact h.inputs
  · rw [hse]
    exact fun s hs => (hsa s).done (h.done s hs)
  · intro i s hi
    rw [hse]
    exact h.busy i s hi
  · intro i
    refine (h.claims i).frame (fun s _ => hsa s) fun ha => ?_
    rwa [World.AllCompleted, hse]

/-- **Every command of workers and finalizers keeps the task intact**, if shards are only taken over and
processed while in progress, and the issuer is not cleaning up. -/
theorem Intact.step (hh : HeldShards w φ) {c : Cmd} {x : c.Resp}
    (ha : (φ i).Allowed codec i.asWorker c) (hti : (φ i).Tidy) (ho : ¬ (φ i).Over J.taskID)
    (hin : ∀ s, (φ i).Processing J.taskID s → J.taskID ∈ w.taskSets .inProgress)
    (ht : ∀ s, c.takeover = some (J.taskID, s) → s ∈ w.shardSets J.taskID .inProgress)
    (hst : Batch.step w c ch = some (w', x)) : Intact codec J w' (update φ i ((φ i).after c x)) := by
  cases c with
  | remote => exact h.remote ha hti ho hh hin ht hst
  | newUUID =>
    obtain ⟨-, rfl, rfl⟩ := step_newUUID hst
    have hc := h.claims i
    refine (h.of_duty (fun s hs => busy_newUUID hs) ?_).congr rfl rfl rfl
    cases hd : φ i <;> rw [hd] at hc <;> trivial
  | _ =>
    cases hst
    rw [Duty.after, update_eq_self]
    exact h.congr rfl rfl rfl

end

end

end Llumnix.Batch
