/-
**Collecting the results of a task.**

The finalizer names two files after fresh UUIDs, appends to them what the completed shards have stored, and
adds up their counts.  Nobody else writes to these files or to the results of the shards, so at every moment
the two files hold the results that have been collected, in order.

* `Duty.Collects.step` — **one command of the finalizer**;
* `Collection.Sound.answers` — **a collection without a rest answers all lines of the task**.
-/

import Llumnix.BatchIntact
import Llumnix.BatchLocks

namespace Llumnix.Batch

open FiniteMap Function Option List

variable {codec : Codec} {worker : Option Worker} {d : Duty} {r : Remote} {uuid : String}
variable {u v : String} {J : Job} {w : World}

/-! ### Files and UUIDs -/

def outputKey (uuid : String) : ObjectKey := .file ("batch_output_" ++ uuid)

def errorKey (uuid : String) : ObjectKey := .file ("batch_error_" ++ uuid)

theorem outputKey_inj (h : outputKey u = outputKey v) : u = v :=
  (String.append_right_inj _).1 (ObjectKey.file.inj h)

theorem errorKey_inj (h : errorKey u = errorKey v) : u = v :=
  (String.append_right_inj _).1 (ObjectKey.file.inj h)

theorem outputKey_ne_errorKey (u v : String) : outputKey u ≠ errorKey v := by
  intro h
  have hl := congrArg String.toList (ObjectKey.file.inj h)
  simp at hl

/-- The goroutine has named a file after this UUID. -/
def Duty.Names (d : Duty) (uuid : String) : Prop :=
  match d with
  | .named _ _ _ _ outputUUID => uuid = outputUUID
  | .collecting c => uuid = c.outputUUID ∨ uuid = c.errorUUID
  | _ => False

/-- **Files belong to those who have drawn their UUIDs.** -/
structure Files (w : World) (φ : Proc → Duty) : Prop where
  used : ∀ i uuid, (φ i).Names uuid → uuid ∈ w.usedIDs
  alone : ∀ i j uuid, (φ i).Names uuid → (φ j).Names uuid → i = j
  unwritten : ∀ uuid, uuid ∉ w.usedIDs →
    w.objects.lookup (outputKey uuid) = none ∧ w.objects.lookup (errorKey uuid) = none

section

variable (ha : d.AllowedRemote codec worker r) (ht : d.Tidy)
include ha ht

/-- **Who writes a file**: the finalizer that collects into it. -/
theorem lookup_file_effect (w : World) (fileID : String) :
    (effect w r).objects.lookup (.file fileID) = w.objects.lookup (.file fileID) ∨ ∃ c, d = .collecting c ∧
        (.file fileID = outputKey c.outputUUID ∨ .file fileID = errorKey c.errorUUID) := by
  cases hw : r.writesObjects with
  | false => exact .inl (by rw [objects_effect hw])
  | true =>
  cases r with
  | putObject =>
    obtain ⟨t, s, lines, result, -, -, -, ⟨rfl, -⟩ | ⟨rfl, -⟩⟩ := ha <;>
      exact .inl ((lookup_putObject _ _ _ _).trans (if_neg (by simp)))
  | deleteObjects keys =>
    rw [lookup_deleteObjects]
    split
    · rename_i hm
      rcases ha with ⟨t, s, -, hke⟩ | ⟨c, rfl, -, -, hke⟩ | ⟨t, others, rfl, hke⟩
      · rcases hke _ hm with hk | hk <;> cases hk
      · exact .inr ⟨c, rfl, hke _ hm⟩
      · exact absurd (ht t others rfl _ (hke _ hm)) not_under_file
    · exact .inl rfl
  | appendObject key content position =>
    obtain ⟨c, rfl, hk⟩ := ha
    by_cases heq : .file fileID = key
    · subst heq
      refine .inr ⟨c, rfl, ?_⟩
      rcases hk with ⟨-, hk⟩ | ⟨-, hk, -⟩
      · exact .inl hk
      · exact .inr hk
    · exact .inl (lookup_appendObject_of_ne w heq content position)
  | _ => cases hw

theorem lookup_outputKey_effect (w : World) (h : ∀ c, d = .collecting c → uuid ≠ c.outputUUID) :
    (effect w r).objects.lookup (outputKey uuid) = w.objects.lookup (outputKey uuid) := by
  rcases lookup_file_effect ha ht w _ with hs | ⟨c, hd, hk | hk⟩
  · exact hs
  · exact absurd (outputKey_inj hk) (h c hd)
  · exact absurd hk (outputKey_ne_errorKey _ _)

theorem lookup_errorKey_effect (w : World) (h : ∀ c, d = .collecting c → uuid ≠ c.errorUUID) :
    (effect w r).objects.lookup (errorKey uuid) = w.objects.lookup (errorKey uuid) := by
  rcases lookup_file_effect ha ht w _ with hs | ⟨c, hd, hk | hk⟩
  · exact hs
  · exact absurd hk.symm (outputKey_ne_errorKey _ _)
  · exact absurd (errorKey_inj hk) (h c hd)

end

theorem Duty.Moves.names {d' : Duty} {x : Except String r.Val} (h : Moves codec worker d r x d')
    (hd' : d'.Names uuid) : d.Names uuid := by
  cases h with
  | stay => exact hd'
  | fetch hc hk =>
    rcases hk with ⟨rfl, -⟩ | ⟨rfl, -⟩
    all_goals
      rename_i body _ _
      cases body <;> exact hd'
  | append hk =>
    rename_i c _ _ _ next
    have hs : (c.appended next).outputUUID = c.outputUUID ∧ (c.appended next).errorUUID = c.errorUUID := by
      unfold Collection.appended
      split <;> exact ⟨rfl, rfl⟩
    rcases hd' with hd' | hd'
    · exact .inl (hd'.trans hs.1)
    · exact .inr (hd'.trans hs.2)
  | add => exact hd'
  | _ => exact hd'.elim

section

variable {codec : Codec} {worker : Option Worker} {d : Duty} {w w' : World} {φ : Proc → Duty} {i : Proc}
variable {ch : Choice}
variable {under : ObjectKey → Bool} {keys : List ObjectKey} {c : Cmd} {x : c.Resp}

theorem under_of_listKeys {objects : Finmap fun _ : ObjectKey => Bytes} {order : List ObjectKey}
    (h : listKeys objects under order = some (.ok keys)) :
    Enumerates keys (objects.keys.filter fun key => under key) := by
  unfold listKeys at h
  split at h
  · rename_i ho
    simp only [some.injEq, Except.ok.injEq] at h
    exact h ▸ ho
  · cases h

theorem under_of_listed {t : String} (hk : listKeys w.objects under ch.keys = some (.ok keys))
    (hu : ∀ key, under key = true → key.Under t) : ∀ key ∈ keys, key.Under t := by
  intro key hke
  have hm := ((under_of_listKeys hk).2 key).1 hke
  exact hu key (Finset.mem_filter.1 hm).2

/-- **A finalizer only ever lists objects of its own task for deletion.** -/
theorem tidy_step (h : d.Tidy) (ha : d.Allowed codec worker c) (hs : step w c ch = some (w', x)) :
    (d.after c x).Tidy := by
  have hl : ∀ {t : String} {others keys : List ObjectKey},
      (∀ key ∈ others, ∃ keys', d = .ending t keys' ∧ key ∈ keys') → (∀ key ∈ keys, key.Under t) →
        Duty.Tidy (.ending t (others ++ keys)) := by
    intro t others keys ho hke t' keys' heq key hk
    cases heq
    rcases mem_append.1 hk with hk | hk
    · obtain ⟨keys', hd, hk⟩ := ho key hk
      exact h t keys' hd key hk
    · exact hke key hk
  cases c with
  | remote r =>
    have hm := Duty.moves_afterRemote ha x
    change (d.afterRemote r x).Tidy
    generalize d.afterRemote r x = d' at hm ⊢
    cases hm with
    | stay => exact h
    | giveUpInputs x hd ho =>
      refine hl ho ?_
      rcases x with e | keys
      · exact fun key hk => by cases hk
      · exact under_of_listed (step_remote_ok hs).2 fun _ => .inl
    | giveUpOutputs x hd ho =>
      refine hl ho ?_
      rcases x with e | keys
      · exact fun key hk => by cases hk
      · exact under_of_listed (step_remote_ok hs).2 fun _ => .inr
    | failMove | failAppend | complete =>
      intro t keys heq key hk
      cases heq
      cases hk
    | _ =>
      intro t keys heq
      cases heq
  | newUUID =>
    intro t keys heq
    cases d <;> cases heq
    exact h t keys rfl
  | _ => exact h

theorem Files.of_names (h : Files w φ) {d : Duty} (hd : ∀ uuid, d.Names uuid → (φ i).Names uuid) :
    Files w (update φ i d) := by
  have hb : ∀ j uuid, (update φ i d j).Names uuid → (φ j).Names uuid := by
    intro j uuid hj
    rw [update_apply] at hj
    split at hj
    · next hji => exact hji ▸ hd uuid hj
    · exact hj
  exact ⟨fun j uuid hj => h.used j uuid (hb j uuid hj),
    fun j j' uuid hj hj' => h.alone j j' uuid (hb j uuid hj) (hb j' uuid hj'), h.unwritten⟩

theorem Files.forget (h : Files w φ) (i : Proc) : Files w (update φ i .idle) :=
  h.of_names fun _ hd => hd.elim

theorem names_newUUID {uuid u : String} (h : (d.after .newUUID uuid).Names u) : d.Names u ∨ u = uuid := by
  cases d with
  | keyed => exact .inr h
  | named => exact h
  | _ => exact .inl h

theorem Files.step (h : Files w φ) (ha : (φ i).Allowed codec i.asWorker c) (ht : (φ i).Tidy)
    (hs : Batch.step w c ch = some (w', x)) : Files w' (update φ i ((φ i).after c x)) := by
  cases c with
  | remote r =>
    have ha : (φ i).AllowedRemote codec i.asWorker r := ha
    have hb := h.of_names (i := i) fun uuid => (Duty.moves_afterRemote ha x).names
    rcases eq_or_eq_effect hs with rfl | rfl
    · exact hb
    refine ⟨fun j uuid hj => ?_, hb.alone, fun uuid huu => ?_⟩
    · rw [usedIDs_effect]
      exact hb.used j uuid hj
    rw [usedIDs_effect] at huu
    obtain ⟨ho, he⟩ := h.unwritten uuid huu
    rw [lookup_outputKey_effect ha ht w fun c hc heq => huu (h.used i _ (by rw [hc]; exact .inl heq)),
      lookup_errorKey_effect ha ht w fun c hc heq => huu (h.used i _ (by rw [hc]; exact .inr heq))]
    exact ⟨ho, he⟩
  | newUUID =>
    obtain ⟨hf, rfl, rfl⟩ := step_newUUID hs
    have hca : ∀ j u, (update φ i ((φ i).after .newUUID ch.uuid) j).Names u →
        (φ j).Names u ∨ j = i ∧ u = ch.uuid := by
      intro j u hj
      rw [update_apply] at hj
      split at hj
      · rename_i hji
        subst hji
        exact (names_newUUID hj).imp_right fun hu => ⟨rfl, hu⟩
      · exact .inl hj
    have hold : ∀ j, ¬ (φ j).Names ch.uuid := fun j hj => hf (h.used j _ hj)
    refine ⟨fun j u hj => ?_, fun j j' u hj hj' => ?_, fun u hu => ?_⟩
    · rcases hca j u hj with hj | ⟨-, rfl⟩
      · exact Finset.mem_insert_of_mem (h.used j u hj)
      · exact Finset.mem_insert_self _ _
    · rcases hca j u hj with hn | ⟨hji, hu⟩ <;>
        rcases hca j' u hj' with hn' | ⟨hji', hu'⟩
      · exact h.alone j j' u hn hn'
      · exact absurd (hu' ▸ hn) (hold j)
      · exact absurd (hu ▸ hn') (hold j')
      · rw [hji, hji']
    · exact h.unwritten u fun hm => hu (Finset.mem_insert_of_mem hm)
  | _ =>
    cases hs
    rw [Duty.after, update_eq_self]
    exact ⟨h.used, h.alone, h.unwritten⟩

end

/-! ### Collections -/

/-- The output that is stored for a shard. -/
def World.output (w : World) (t s : String) : Bytes := (w.objects.lookup (.shardOutput t s)).getD []

def World.errors (w : World) (t s : String) : Bytes := (w.objects.lookup (.shardError t s)).getD []

def World.counts (w : World) (t s : String) : RequestCounts :=
  ((w.shards t s).bind FileShard.requestCounts).getD ⟨0, 0, 0⟩

def sumCounts (l : List RequestCounts) : RequestCounts :=
  ⟨(l.map RequestCounts.total).sum, (l.map RequestCounts.completed).sum,
    (l.map RequestCounts.failed).sum⟩

/-- Every result of the task is in the listing. -/
def World.Listed (w : World) (t : String) (keys : List ObjectKey) : Prop :=
  ∀ s, (.shardOutput t s ∉ keys → w.output t s = []) ∧ (.shardError t s ∉ keys → w.errors t s = [])

namespace Collection

variable (c : Collection)

/-- The shards whose output has been dealt with. -/
def outputShards : List String :=
  match c.stage with
  | .output | .fetchedOutput _ => c.collected
  | .error | .fetchedError _ | .counts => c.collected ++ c.remaining.take 1

/-- The shards whose errors have been dealt with. -/
def errorShards : List String :=
  match c.stage with
  | .counts => c.collected ++ c.remaining.take 1
  | _ => c.collected

/-- What has been fetched is what the next shard has stored. -/
def Fetched (w : World) : Prop :=
  match c.stage with
  | .fetchedOutput body => ∃ s rest, c.remaining = s :: rest ∧ body = w.output c.taskID s
  | .fetchedError body => ∃ s rest, c.remaining = s :: rest ∧ body = w.errors c.taskID s
  | _ => True

/-- **The files hold the results of the shards that have been collected**, and the counts are theirs. -/
structure Sound (w : World) : Prop where
  record : c.task.errorFileID = none
  order : Enumerates (c.collected ++ c.remaining) (w.shardSets c.taskID .completed)
  listed : w.Listed c.taskID c.keys
  output : (w.objects.lookup (outputKey c.outputUUID)).getD []
    = c.outputShards.flatMap (w.output c.taskID)
  errors : (w.objects.lookup (errorKey c.errorUUID)).getD []
    = c.errorShards.flatMap (w.errors c.taskID)
  position : c.errorPosition = (c.errorShards.flatMap (w.errors c.taskID)).length
  fetched : c.Fetched w
  counts : c.counts = sumCounts (c.collected.map (w.counts c.taskID))

end Collection

section

variable {c : Collection} {w w' : World} {s : String} {rest : List String}
variable {key : ObjectKey}
variable {content : Bytes} {position next : Nat} {ch : Choice}

theorem results_congr {t : String} (h : ∀ s, SameShard w w' t s) :
    w'.output t = w.output t ∧ w'.errors t = w.errors t ∧ w'.counts t = w.counts t :=
  ⟨funext fun s => by rw [World.output, (h s).output, World.output],
    funext fun s => by rw [World.errors, (h s).error, World.errors],
    funext fun s => by rw [World.counts, (h s).shard, World.counts]⟩

/-- A collection depends on the results of the shards and on its files. -/
theorem Collection.Sound.frame (h : c.Sound w) (hs : ∀ s, SameShard w w' c.taskID s)
    (hse : w'.shardSets c.taskID .completed = w.shardSets c.taskID .completed)
    (hou : w'.objects.lookup (outputKey c.outputUUID) = w.objects.lookup (outputKey c.outputUUID))
    (her : w'.objects.lookup (errorKey c.errorUUID) = w.objects.lookup (errorKey c.errorUUID)) :
    c.Sound w' := by
  obtain ⟨ho, he, hc⟩ := results_congr hs
  refine ⟨h.record, ?_, ?_, ?_, ?_, ?_, ?_, ?_⟩
  · rw [hse]
    exact h.order
  · intro s
    rw [ho, he]
    exact h.listed s
  · rw [hou, ho]
    exact h.output
  · rw [her, he]
    exact h.errors
  · rw [he]
    exact h.position
  · have hf := h.fetched
    unfold Collection.Fetched at hf ⊢
    rw [ho, he]
    exact hf
  · rw [hc]
    exact h.counts

/-- The output file once the output of the next shard has been dealt with. -/
theorem Collection.Sound.output_done (h : c.Sound w) (hc : c.remaining = s :: rest)
    (hdo : c.OutputDone s) : (w.objects.lookup (outputKey c.outputUUID)).getD []
      = (c.collected ++ [s]).flatMap (w.output c.taskID) := by
  rw [h.output]
  rcases hdo with hs | ⟨hs, hk⟩
  · simp [Collection.outputShards, hs, hc]
  · simp [Collection.outputShards, hs, (h.listed s).1 hk]

theorem Collection.OutputDone.errorShards (hdo : c.OutputDone s) : c.errorShards = c.collected := by
  rcases hdo with hs | ⟨hs, -⟩ <;> simp [Collection.errorShards, hs]

theorem Collection.Sound.files_done (h : c.Sound w) (hc : c.remaining = s :: rest) (hdo : c.ErrorDone s) :
    (w.objects.lookup (outputKey c.outputUUID)).getD [] = (c.collected ++ [s]).flatMap (w.output c.taskID) ∧
      c.errorShards.flatMap (w.errors c.taskID) = (c.collected ++ [s]).flatMap (w.errors c.taskID) := by
  rcases hdo with hs | ⟨hdo, hk⟩
  · constructor
    · rw [h.output]
      simp [Collection.outputShards, hs, hc]
    · simp [Collection.errorShards, hs, hc]
  · refine ⟨h.output_done hc hdo, ?_⟩
    rw [hdo.errorShards]
    simp [(h.listed s).2 hk]

theorem Collection.Sound.fetch (h : c.Sound w) (hc : c.remaining = s :: rest)
    (hk : key = .shardOutput c.taskID s ∧ c.stage = .output ∨
      key = .shardError c.taskID s ∧ c.OutputDone s) : (c.fetched key (w.objects.lookup key)).Sound w := by
  rcases hk with ⟨rfl, hs⟩ | ⟨rfl, hdo⟩
  · have ho := h.output
    have he := h.errors
    have hp := h.position
    simp only [Collection.outputShards, Collection.errorShards, hs] at ho he hp
    cases hb : w.objects.lookup (.shardOutput c.taskID s) with
    | none =>
      refine ⟨h.record, h.order, h.listed, ?_, he, hp, trivial, h.counts⟩
      simp [Collection.fetched, Collection.outputShards, World.output, hc, hb, ho]
    | some =>
      refine ⟨h.record, h.order, h.listed, ho, he, hp, ⟨s, rest, hc, ?_⟩, h.counts⟩
      simp [Collection.fetched, World.output, hb]
  · have ho := h.output_done hc hdo
    have he := h.errors
    have hp := h.position
    rw [hdo.errorShards] at he hp
    cases hb : w.objects.lookup (.shardError c.taskID s) with
    | none =>
      have hn : w.errors c.taskID s = [] := by rw [World.errors, hb]; rfl
      refine ⟨h.record, h.order, h.listed, ?_, ?_, ?_, trivial, h.counts⟩
      · simpa [Collection.fetched, Collection.outputShards, hc] using ho
      · simp [Collection.fetched, Collection.errorShards, hc, hn, he]
      · simp [Collection.fetched, Collection.errorShards, hc, hn, hp]
    | some =>
      refine ⟨h.record, h.order, h.listed, ?_, he, hp, ⟨s, rest, hc, ?_⟩, h.counts⟩
      · simpa [Collection.fetched, Collection.outputShards, hc] using ho
      · simp [Collection.fetched, World.errors, hb]

theorem sameShard_appendObject (w : World) (hk : ∃ fileID, key = .file fileID) (content : Bytes)
    (position : Nat) (t s : String) : SameShard w (effect w (.appendObject key content position)) t s := by
  obtain ⟨fileID, rfl⟩ := hk
  exact ⟨lookup_appendObject_of_ne w (by simp) content position,
    lookup_appendObject_of_ne w (by simp) content position,
    shards_effect (by simp [Remote.writesShard])⟩

theorem lookup_appendObject (h : answer w ch (.appendObject key content position) = some (.ok next)) :
    (effect w (.appendObject key content position)).objects.lookup key
        = some ((w.objects.lookup key).getD [] ++ content) ∧ next = position + content.length := by
  have hp : ((w.objects.lookup key).getD []).length = position := by
    by_contra hne
    simp [answer, hne] at h
  simp only [answer, hp, if_true, some.injEq, Except.ok.injEq] at h
  refine ⟨?_, h.symm⟩
  simp only [effect, hp, if_true]
  exact Finmap.lookup_insert _

theorem Collection.Sound.append (h : c.Sound w)
    (hk : c.stage = .fetchedOutput content ∧ key = outputKey c.outputUUID ∨
      c.stage = .fetchedError content ∧ key = errorKey c.errorUUID ∧ position = c.errorPosition)
    (han : answer w ch (.appendObject key content position) = some (.ok next)) :
    (c.appended next).Sound (effect w (.appendObject key content position)) := by
  obtain ⟨hl, hne⟩ := lookup_appendObject han
  have hse : (effect w (.appendObject key content position)).shardSets c.taskID
      = w.shardSets c.taskID := shardSets_effect nofun
  have hfi : ∃ fileID, key = .file fileID := by
    rcases hk with ⟨-, rfl⟩ | ⟨-, rfl, -⟩ <;> exact ⟨_, rfl⟩
  have hot : ∀ j ≠ key, (effect w (.appendObject key content position)).objects.lookup j = w.objects.lookup j :=
    fun j hj => lookup_appendObject_of_ne w hj content position
  obtain ⟨hsm, hs, hsa⟩ := results_congr (sameShard_appendObject w hfi content position c.taskID)
  -- the store has changed in the one file only
  generalize effect w (.appendObject key content position) = w' at *
  have hor := h.order
  have hli := h.listed
  have hco := h.counts
  have hf := h.fetched
  have ho := h.output
  have he := h.errors
  have hp := h.position
  rw [← hse] at hor
  rw [World.Listed, ← hsm, ← hs] at hli
  rw [← hsa] at hco
  rcases hk with ⟨hst, rfl⟩ | ⟨hst, rfl, hpo⟩
  · simp only [Collection.Fetched, hst] at hf
    obtain ⟨s, rest, hc, rfl⟩ := hf
    simp only [Collection.outputShards, Collection.errorShards, hst] at ho he hp
    rw [← hot _ (outputKey_ne_errorKey _ _).symm] at he
    simp only [Collection.appended, hst]
    refine ⟨h.record, hor, hli, ?_, ?_, ?_, trivial, hco⟩
    · rw [hsm, hl, getD_some, ho]
      simp [Collection.outputShards, hc]
    · rw [hs]
      exact he
    · rw [hs]
      exact hp
  · simp only [Collection.Fetched, hst] at hf
    obtain ⟨s, rest, hc, rfl⟩ := hf
    simp only [Collection.outputShards, Collection.errorShards, hst] at ho he hp
    rw [← hot _ (outputKey_ne_errorKey _ _)] at ho
    simp only [Collection.appended, hst]
    refine ⟨h.record, hor, hli, ?_, ?_, ?_, trivial, hco⟩
    · rw [hsm]
      exact ho
    · rw [hs, hl, getD_some, he]
      simp [Collection.errorShards, hc]
    · rw [hs]
      simp [Collection.errorShards, hc, hne, hpo, hp]

theorem Collection.Sound.add (h : c.Sound w) {shard : FileShard} {counts : RequestCounts}
    (hc : c.remaining = s :: rest) (hdo : c.ErrorDone s)
    (hs : w.shards c.taskID s = some shard) (hco : shard.requestCounts = some counts) :
    (c.counted s counts).Sound w := by
  obtain ⟨hou, he⟩ := h.files_done hc hdo
  have how : w.counts c.taskID s = counts := by simp [World.counts, hs, hco]
  refine ⟨h.record, ?_, h.listed, hou, ?_, ?_, trivial, ?_⟩
  · have ho := h.order
    simpa [Collection.counted, hc] using ho
  · exact h.errors.trans he
  · exact h.position.trans (by rw [he]; rfl)
  · simp [Collection.counted, h.counts, sumCounts, how]

theorem Collection.Sound.delete (h : c.Sound w) {keys : List ObjectKey} (hc : c.collected = [])
    (hs : c.stage = .output) (hsh : ∀ s, SameShard w (effect w (.deleteObjects keys)) c.taskID s) :
    c.Sound (effect w (.deleteObjects keys)) := by
  obtain ⟨hot, herr, hco⟩ := results_congr hsh
  have hn : ∀ key, (w.objects.lookup key).getD [] = [] →
      ((effect w (.deleteObjects keys)).objects.lookup key).getD [] = [] := by
    intro key hk
    rw [lookup_deleteObjects]
    split
    · rfl
    · exact hk
  have ho : c.outputShards = [] := by rw [Collection.outputShards, hs, hc]
  have he : c.errorShards = [] := by rw [Collection.errorShards, hs, hc]
  have hou := h.output
  have her := h.errors
  rw [ho] at hou
  rw [he] at her
  refine ⟨h.record, h.order, ?_, ?_, ?_, ?_, ?_, ?_⟩
  · intro s
    rw [hot, herr]
    exact h.listed s
  · rw [ho]
    exact hn _ hou
  · rw [he]
    exact hn _ her
  · rw [herr]
    exact h.position
  · rw [Collection.Fetched, hs]
    trivial
  · rw [hco]
    exact h.counts

end

/-! ### The finalizer at work -/

/-- **What the store owes the finalizer.** -/
def Duty.Collects (w : World) : Duty → Prop
  | .loaded _ task => task.errorFileID = none
  | .listed t task shardIDs =>
    task.errorFileID = none ∧ Enumerates shardIDs (w.shardSets t .completed)
  | .keyed t task shardIDs keys =>
    task.errorFileID = none ∧ Enumerates shardIDs (w.shardSets t .completed) ∧ w.Listed t keys
  | .named t task shardIDs keys uuid =>
    task.errorFileID = none ∧ Enumerates shardIDs (w.shardSets t .completed) ∧ w.Listed t keys ∧
      w.objects.lookup (outputKey uuid) = none
  | .collecting c => c.Sound w
  | _ => True

section

variable {codec : Codec} {worker : Option Worker} {d : Duty} {w w' : World} {t : String}
variable {ch : Choice}
variable {keys : List ObjectKey}

theorem World.Listed.congr (h : w.Listed t keys) (hs : ∀ s, SameShard w w' t s) : w'.Listed t keys := by
  obtain ⟨ho, he, -⟩ := results_congr hs
  intro s
  rw [ho, he]
  exact h s

/-- The finalizer depends on the results of the shards and on its files. -/
theorem Duty.Collects.frame (h : d.Collects w) (hd : d.Gathering t) (hsh : ∀ s, SameShard w w' t s)
    (hs : w'.shardSets t .completed = w.shardSets t .completed)
    (hf : ∀ uuid, d.Names uuid → w'.objects.lookup (outputKey uuid) = w.objects.lookup (outputKey uuid) ∧
        w'.objects.lookup (errorKey uuid) = w.objects.lookup (errorKey uuid)) : d.Collects w' := by
  cases d with
  | loaded => exact h
  | listed =>
    cases hd
    rw [Duty.Collects, hs]
    exact h
  | keyed =>
    cases hd
    rw [Duty.Collects, hs]
    exact ⟨h.1, h.2.1, h.2.2.congr hsh⟩
  | named =>
    cases hd
    rw [Duty.Collects, hs, (hf _ rfl).1]
    exact ⟨h.1, h.2.1, h.2.2.1.congr hsh, h.2.2.2⟩
  | collecting =>
    cases hd
    exact Collection.Sound.frame h hsh hs (hf _ (.inl rfl)).1 (hf _ (.inr rfl)).2
  | _ => trivial

theorem Duty.Collects.stay (h : d.Collects w) (hd : d.Gathering t)
    (ha : d.AllowedRemote codec worker r) (ht : d.Tidy) (hr : r.writesResult = false)
    (hw : w' = w ∨ w' = effect w r) (hs : ∀ s, SameShard w w' t s)
    (hse : w'.shardSets t .completed = w.shardSets t .completed) : d.Collects w' := by
  rcases hw with rfl | rfl
  · exact h
  cases hwr : r.writesObjects with
  | false => exact h.frame hd hs hse fun uuid _ => by rw [objects_effect hwr]; exact ⟨rfl, rfl⟩
  | true =>
  cases r with
  | deleteObjects =>
    cases d with
    | collecting c =>
      obtain rfl : c.taskID = t := hd
      rcases ha with ⟨_, _, hd, -⟩ | ⟨c', hd, hco, hst, -⟩ | ⟨_, _, hd, -⟩
      · rcases hd with hd | hd <;> cases hd
      · cases hd
        exact Collection.Sound.delete h hco hst hs
      · cases hd
    | _ =>
      refine h.frame hd hs hse fun uuid _ => ⟨?_, ?_⟩
      · exact lookup_outputKey_effect ha ht w fun c hc => by cases hc
      · exact lookup_errorKey_effect ha ht w fun c hc => by cases hc
  | putObject | appendObject => cases hr
  | _ => cases hwr

theorem enumerates_of_listMembers {members : Finset String} {order listed : List String}
    (h : listMembers members order = some (.ok listed)) : Enumerates listed members := by
  unfold listMembers at h
  split at h
  · rename_i ho
    simp only [some.injEq, Except.ok.injEq] at h
    exact h ▸ ho
  · cases h

theorem listed_of_listKeys (h : listKeys w.objects (ObjectKey.underOutput t) ch.keys = some (.ok keys)) :
    w.Listed t keys := by
  have hn : ∀ key : ObjectKey, key.underOutput t = true → key ∉ keys → w.objects.lookup key = none := by
    intro key hu hk
    by_contra hs
    refine hk (((under_of_listKeys h).2 key).2 (Finset.mem_filter.2 ⟨?_, hu⟩))
    exact Finmap.mem_keys.2 (by_contra fun hm => hs (Finmap.lookup_eq_none.2 hm))
  intro s
  constructor
  · intro hk
    rw [World.output, hn _ (by simp [ObjectKey.underOutput]) hk, getD_none]
  · intro hk
    rw [World.errors, hn _ (by simp [ObjectKey.underOutput]) hk, getD_none]

/-- **One remote command of the finalizer**, while the shards of its task are left alone. -/
theorem Duty.Collects.remote (h : d.Collects w) (hd : d.Gathering t) {x : Except String r.Val}
    (ha : d.AllowedRemote codec worker r) (ht : d.Tidy)
    (hre : ∀ task, w.tasks t = some task → task.errorFileID = none)
    (hsh : ∀ s, SameShard w w' t s) (hse : w'.shardSets t .completed = w.shardSets t .completed)
    (hs : step w (.remote r) ch = some (w', x)) (hd' : (d.afterRemote r x).Gathering t) :
    (d.afterRemote r x).Collects w' := by
  have hm := Duty.moves_afterRemote ha x
  generalize d.afterRemote r x = d' at hm hd' ⊢
  cases hm with
  | stay hr => exact h.stay hd ha ht hr (eq_or_eq_effect hs) hsh hse
  | load =>
    cases hd
    obtain ⟨-, hx⟩ := step_remote_ok hs
    refine hre _ ?_
    simp only [answer, orError] at hx
    split at hx <;> cases hx
    next hta => exact hta
  | list =>
    cases hd
    obtain ⟨-, hx⟩ := step_remote_ok hs
    rw [Duty.Collects, hse]
    exact ⟨h, enumerates_of_listMembers hx⟩
  | key =>
    cases hd
    obtain ⟨-, hx⟩ := step_remote_ok hs
    rw [Duty.Collects, hse]
    exact ⟨h.1, h.2, (listed_of_listKeys hx).congr hsh⟩
  | fetch hc hk =>
    obtain ⟨rfl, hx⟩ := step_remote_ok hs
    cases hx
    exact Collection.Sound.fetch h hc hk
  | append hk =>
    obtain ⟨rfl, hx⟩ := step_remote_ok hs
    exact Collection.Sound.append h hk hx
  | add hc hdo hco =>
    obtain ⟨rfl, hx⟩ := step_remote_ok hs
    refine Collection.Sound.add h hc hdo ?_ hco
    simp only [answer, orError] at hx
    split at hx <;> cases hx
    next hsh => exact hsh
  | _ => first | exact hd'.elim | exact hd.elim

/-- **The finalizer draws a UUID** that no file is named after yet. -/
theorem Duty.Collects.draw (h : d.Collects w) {uuid : String}
    (ho : w.objects.lookup (outputKey uuid) = none)
    (he : w.objects.lookup (errorKey uuid) = none) : (d.after .newUUID uuid).Collects w := by
  cases d with
  | keyed => exact ⟨h.1, h.2.1, h.2.2, ho⟩
  | named t task shardIDs keys outputUUID =>
    obtain ⟨hr, hor, hl, hf⟩ := h
    refine ⟨hr, hor, hl, ?_, ?_, rfl, trivial, rfl⟩
    · change (w.objects.lookup (outputKey outputUUID)).getD [] = []
      rw [hf, getD_none]
    · change (w.objects.lookup (errorKey uuid)).getD [] = []
      rw [he, getD_none]
  | _ => exact h

theorem Duty.Collects.step (h : d.Collects w) (hd : d.Gathering t) {c : Cmd} {x : c.Resp}
    (ha : d.Allowed codec worker c) (ht : d.Tidy)
    (hr : ∀ task, w.tasks t = some task → task.errorFileID = none) (hu : ∀ uuid, uuid ∉ w.usedIDs →
      w.objects.lookup (outputKey uuid) = none ∧ w.objects.lookup (errorKey uuid) = none)
    (hs : ∀ s, SameShard w w' t s) (hse : w'.shardSets t .completed = w.shardSets t .completed)
    (hst : Batch.step w c ch = some (w', x)) (hd' : (d.after c x).Gathering t) :
    (d.after c x).Collects w' := by
  cases c with
  | remote => exact h.remote hd ha ht hr hs hse hst hd'
  | newUUID =>
    obtain ⟨hf, rfl, rfl⟩ := step_newUUID hst
    obtain ⟨ho, he⟩ := hu _ hf
    exact (h.draw ho he).frame hd' hs hse fun _ _ => ⟨rfl, rfl⟩
  | _ =>
    cases hst
    exact h.frame hd hs hse fun _ _ => ⟨rfl, rfl⟩

end

/-! ### What a whole collection amounts to -/

/-- **The results of shards one after the other answer their lines one after the other.** -/
theorem answers_collected (order : List String) (hdo : ∀ s ∈ order, w.Done codec J s) :
    ∃ outs errs, Answers codec J.taskID (order.flatMap J.lines) outs errs ∧
      order.flatMap (w.output J.taskID) = unlines outs ∧ order.flatMap (w.errors J.taskID) = unlines errs ∧
      sumCounts (order.map (w.counts J.taskID))
        = ⟨outs.length + errs.length, outs.length, errs.length⟩ := by
  induction order with
  | nil => exact ⟨[], [], answers_nil, rfl, rfl, rfl⟩
  | cons s order ih =>
  obtain ⟨outs, errs, ha, hou, he, hc⟩ := ih fun s' hs' => hdo s' (mem_cons_of_mem _ hs')
  obtain ⟨outs', errs', ha', ho', he', shard, hs, hc'⟩ := hdo s mem_cons_self
  refine ⟨outs' ++ outs, errs' ++ errs, ?_, ?_, ?_, ?_⟩
  · rw [flatMap_cons]
    exact ha'.append ha
  · rw [flatMap_cons, hou, unlines_append, World.output, ho'.getD]
  · rw [flatMap_cons, he, unlines_append, World.errors, he'.getD]
  · -- the counts of this shard and of the others add up
    have ho : w.counts J.taskID s = ⟨outs'.length + errs'.length, outs'.length, errs'.length⟩ := by
      simp [World.counts, hs, hc']
    simp only [sumCounts, RequestCounts.mk.injEq] at hc
    obtain ⟨ht, hco, hf⟩ := hc
    simp only [sumCounts, map_cons, sum_cons, ho, ht, hco, hf,
      length_append, RequestCounts.mk.injEq, and_true]
    omega

theorem unlines_eq_nil {lines : List Bytes} (h : unlines lines = []) : lines = [] := by
  cases lines with
  | nil => rfl
  | cons => simp [unlines] at h

/-- **A collection without a rest answers all lines of the task**; the error file is empty exactly if there
are no error lines. -/
theorem Collection.Sound.answers {c : Collection} (h : c.Sound w) (ht : c.taskID = J.taskID)
    (hdo : ∀ s ∈ w.shardSets J.taskID .completed, w.Done codec J s) (hr : c.remaining = [])
    (hst : c.stage = .output) :
    ∃ outs errs, Answers codec J.taskID (c.collected.flatMap J.lines) outs errs ∧
      (w.objects.lookup (outputKey c.outputUUID)).getD [] = unlines outs ∧
      (w.objects.lookup (errorKey c.errorUUID)).getD [] = unlines errs ∧ (c.errorPosition = 0 → errs = []) ∧
      c.counts = ⟨outs.length + errs.length, outs.length, errs.length⟩ := by
  have hor := h.order
  rw [hr, append_nil, ht] at hor
  obtain ⟨outs, errs, ha, hou, her, hc⟩ := answers_collected c.collected fun s hs => hdo s ((hor.2 s).1 hs)
  have ho := h.output
  have he := h.errors
  have hp := h.position
  simp only [Collection.outputShards, Collection.errorShards, hst, ht] at ho he hp
  refine ⟨outs, errs, ha, ho.trans hou, he.trans her, fun hz => ?_, ?_⟩
  · refine unlines_eq_nil (eq_nil_of_length_eq_zero ?_)
    rw [← her, ← hp, hz]
  · rw [h.counts, ht, hc]

end Llumnix.Batch
