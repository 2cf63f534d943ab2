/-
**A task is in exactly one status set.**

Tasks are moved with source sets that were read from the hash some time before.  A move whose source does
not hold the task changes nothing, and one whose source does takes it to the destination; but a move from a
set to itself adds the task, removes it, and loses it.  The expiring reactor issues such a move for a task
that another instance has expired since it was listed.

* `created_in_one_set` — **a created task is in exactly one set**, and a task in one set stays in exactly
  one.
-/

import Llumnix.BatchCustody

namespace Llumnix.Batch

open GuardedRun Interaction Processes Function List

variable {w : World} {taskID : String}
variable {γ : Gateway} {ok : System → Event → Prop} {σ₀ σ : System}

/-! ### What commands do to the status sets -/

/-- Some status set holds the task. -/
def World.Member (w : World) (taskID : String) : Prop := ∃ status, taskID ∈ w.taskSets status

def World.Unique (w : World) : Prop :=
  ∀ taskID st st', taskID ∈ w.taskSets st → taskID ∈ w.taskSets st' → st = st'

def Cmd.selfMove : Cmd → Bool
  | .remote (.moveTaskAndUpdateStatus _ fromSet toSet _) => fromSet == toSet
  | .remote (.moveTask _ fromSet toSet) => fromSet == toSet
  | _ => false

def Remote.writesSets : Remote → Bool
  | .saddPending _ | .moveTaskAndUpdateStatus .. | .moveTask .. => true
  | _ => false

theorem taskSets_effect {r : Remote} (h : r.writesSets = false) (w : World) :
    (effect w r).taskSets = w.taskSets := by
  cases r <;> first | rfl | cases h
  simp only [effect]
  split <;> rfl

theorem mem_taskSets_saddPending {id : String} {status : BatchTaskStatus} :
    taskID ∈ (effect w (.saddPending id)).taskSets status ↔
      taskID = id ∧ status = .pending ∨ taskID ∈ w.taskSets status := by
  by_cases h : status = .pending
  · subst h
    simp [effect]
  · simp [effect, h]

theorem usedIDs_effect (w : World) (r : Remote) : (effect w r).usedIDs = w.usedIDs := by
  cases r <;> try rfl
  all_goals
    simp only [effect]
    split <;> rfl

theorem replies_effect (w : World) (r : Remote) : (effect w r).replies = w.replies := by
  cases r <;> try rfl
  all_goals
    simp only [effect]
    split <;> rfl

/-! ### The invariant -/

/-- The goroutine has drawn this UUID and has not added the task yet. -/
def Phase.Drawing (g : Phase) (uuid : String) : Prop := g = .drawn uuid ∨ g = .hashed uuid

structure Membership (w : World) (φ : Proc → Phase) : Prop where
  unique : w.Unique
  /-- Task ids come from UUIDs that have been drawn. -/
  used : ∀ taskID, w.Member taskID → ∃ uuid ∈ w.usedIDs, taskID = "batch_" ++ uuid
  /-- The task of a UUID just drawn does not exist yet. -/
  fresh : ∀ i uuid, (φ i).Drawing uuid → uuid ∈ w.usedIDs ∧ ¬ w.Member ("batch_" ++ uuid)
  /-- Two goroutines never work with the same UUID. -/
  drawn_inj : ∀ i j uuid, (φ i).Drawing uuid → (φ j).Drawing uuid → i = j
  added : ∀ i taskID, φ i = .added taskID → w.Member taskID
  created : ∀ task, Reply.created task ∈ w.replies → w.Member task.id

structure World.NoTasks (w : World) : Prop where
  tasks : ∀ taskID, w.tasks taskID = none
  taskSets : ∀ status, w.taskSets status = ∅
  taskLocks : ∀ taskID, w.taskLocks taskID = none
  replies : w.replies = []

theorem World.NoTasks.not_member (h : w.NoTasks) (taskID : String) : ¬ w.Member taskID := by
  rintro ⟨st, hst⟩
  rw [h.taskSets st] at hst
  exact Finset.notMem_empty _ hst

theorem membership_of_noTasks (h : w.NoTasks) : Membership w fun _ => .outside where
  unique t st _ hst _ := absurd ⟨st, hst⟩ (h.not_member t)
  used t ht := absurd ht (h.not_member t)
  fresh i u hu := by rcases hu with hu | hu <;> cases hu
  drawn_inj i j u hu := by rcases hu with hu | hu <;> cases hu
  added i t ht := by cases ht
  created task ht := by rw [h.replies] at ht; cases ht

section

variable {w w' : World} {φ : Proc → Phase} {i : Proc} {g : Phase}
variable {taskID : String} {r : Remote} {x : Except String r.Val}
variable {u t uuid : String}

/-- **A step that neither loses nor finds a task**, when the goroutine claims nothing new. -/
theorem Membership.of_members (h : Membership w φ) (hun : w'.Unique)
    (hm : ∀ t, w'.Member t ↔ w.Member t) (hu : w'.usedIDs = w.usedIDs)
    (hr : w'.replies = w.replies) (hdr : ∀ u, g.Drawing u → (φ i).Drawing u)
    (ha : ∀ t, g = .added t → φ i = .added t) : Membership w' (update φ i g) := by
  -- whatever a phase claims now, the goroutine claimed it before
  have hc : ∀ j u, (update φ i g j).Drawing u → (φ j).Drawing u := by
    intro j u hj
    rw [update_apply] at hj
    split at hj
    · next hji => exact hji ▸ hdr u hj
    · exact hj
  constructor
  · exact hun
  · intro t ht
    rw [hu]
    exact h.used t ((hm t).1 ht)
  · intro j u hj
    rw [hu, hm]
    exact h.fresh j u (hc j u hj)
  · intro j j' u hj hj'
    exact h.drawn_inj j j' u (hc j u hj) (hc j' u hj')
  · intro j t hj
    rw [hm]
    rw [update_apply] at hj
    split at hj
    · exact h.added i t (ha t hj)
    · exact h.added j t hj
  · intro task ht
    rw [hm]
    exact h.created task (hr ▸ ht)

/-- **Where a remote command leads**: nowhere, on with a creation, or into a lock. -/
theorem afterRemote_cases (g : Phase) (r : Remote) (x : Except String r.Val) :
    g.afterRemote r x = g ∨ g.afterRemote r x = .outside ∨
      (∃ task uuid, r = .hsetTask task ∧ x.isOk ∧ g = .drawn uuid ∧ g.afterRemote r x = .hashed uuid) ∨
      (∃ taskID, r = .saddPending taskID ∧ x.isOk ∧ g.afterRemote r x = .added taskID) ∨
      ∃ taskID, (g.afterRemote r x).Inside taskID := by
  unfold Phase.afterRemote Phase.reads
  -- every answer leads to one phase, up to what is found and written
  split <;> repeat' split
  all_goals
    first
    | exact .inl rfl
    | exact .inr (.inl rfl)
    | exact .inr (.inr (.inl ⟨_, _, rfl, rfl, rfl, rfl⟩))
    | exact .inr (.inr (.inr (.inl ⟨_, rfl, rfl, rfl⟩)))
    | exact .inr (.inr (.inr (.inr ⟨_, rfl⟩)))

theorem Phase.Inside.not_drawing (h : g.Inside taskID) : ¬ g.Drawing u := by
  rintro (rfl | rfl) <;> exact h

theorem Phase.Inside.ne_added (h : g.Inside taskID) : g ≠ .added t := by
  rintro rfl
  exact h

theorem drawing_afterRemote (h : (g.afterRemote r x).Drawing u) : g.Drawing u := by
  rcases afterRemote_cases g r x with hg | hg | ⟨-, v, -, -, rfl, hg⟩ | ⟨t, -, -, hg⟩ | ⟨t, hin⟩
  · exact hg ▸ h
  · rcases h with h | h <;> rw [hg] at h <;> cases h
  · rcases h with h | h <;> rw [hg] at h <;> cases h
    exact .inl rfl
  · rcases h with h | h <;> rw [hg] at h <;> cases h
  · exact absurd h hin.not_drawing

/-- Only the last step of a creation claims that a task has been added. -/
theorem added_afterRemote (hr : ∀ t', r ≠ .saddPending t') (h : g.afterRemote r x = .added t) :
    g = .added t := by
  rcases afterRemote_cases g r x with hg | hg | ⟨-, v, -, -, rfl, hg⟩ | ⟨t', rfl, -, hg⟩ | ⟨t', hin⟩
  · exact hg ▸ h
  · cases hg.symm.trans h
  · cases hg.symm.trans h
  · exact absurd rfl (hr t')
  · exact absurd h hin.ne_added

section

variable (h : Membership w φ)
include h

/-- A remote command that was refused, or that leaves the status sets alone. -/
theorem Membership.frame (hr : ∀ t, r ≠ .saddPending t)
    (hw : w' = w ∨ w' = effect w r) (hs : w'.taskSets = w.taskSets) :
    Membership w' (update φ i ((φ i).afterRemote r x)) := by
  refine h.of_members ?_ ?_ ?_ ?_ (fun u => drawing_afterRemote) fun t => added_afterRemote hr
  · intro t st st' hst hst'
    rw [hs] at hst hst'
    exact h.unique t st st' hst hst'
  · intro t
    rw [World.Member, hs, World.Member]
  · rcases hw with rfl | rfl
    · rfl
    · exact usedIDs_effect w r
  · rcases hw with rfl | rfl
    · rfl
    · exact replies_effect w r

theorem Membership.moved {fromSet toSet : BatchTaskStatus} (hne : fromSet ≠ toSet)
    (hr : ∀ t, r ≠ .saddPending t)
    (hs : (effect w r).taskSets = (moveScript w.taskSets taskID fromSet toSet).1) :
    Membership (effect w r) (update φ i ((φ i).afterRemote r x)) := by
  refine h.of_members ?_ ?_ (usedIDs_effect w r) (replies_effect w r)
    (fun u => drawing_afterRemote) fun t => added_afterRemote hr
  · intro t st st' hst hst'
    rw [hs] at hst hst'
    exact unique_moveScript hne h.unique t st st' hst hst'
  · intro t
    rw [World.Member, hs]
    exact exists_mem_moveScript hne t

theorem Membership.forget (i : Proc) : Membership w (update φ i .outside) := by
  refine h.of_members h.unique (fun t => Iff.rfl) rfl rfl (fun u hu => ?_) (fun t ht => ?_)
  · rcases hu with hu | hu <;> cases hu
  · cases ht

theorem Membership.add (hi : φ i = .hashed uuid) (hg : g = .outside ∨ g = .added ("batch_" ++ uuid)) :
    Membership (effect w (.saddPending ("batch_" ++ uuid))) (update φ i g) := by
  obtain ⟨hus, hf⟩ := h.fresh i uuid (.inr hi)
  have hm : ∀ t, (effect w (.saddPending ("batch_" ++ uuid))).Member t ↔
      t = "batch_" ++ uuid ∨ w.Member t := by
    intro t
    simp only [World.Member, mem_taskSets_saddPending, exists_or, exists_and_left, exists_eq, and_true]
  -- the creator gives its UUID up, so the others hold other UUIDs
  have ho : ∀ j u, (update φ i g j).Drawing u → (φ j).Drawing u ∧ u ≠ uuid := by
    intro j u hj
    rw [update_apply] at hj
    split at hj
    · rcases hg with rfl | rfl <;> rcases hj with hj | hj <;> cases hj
    · rename_i hne
      refine ⟨hj, ?_⟩
      rintro rfl
      exact hne (h.drawn_inj j i u hj (.inr hi))
  constructor
  · intro t st st' hst hst'
    rcases mem_taskSets_saddPending.1 hst with ⟨rfl, rfl⟩ | hold <;>
      rcases mem_taskSets_saddPending.1 hst' with ⟨ht, rfl⟩ | hold'
    · rfl
    · exact absurd ⟨st', hold'⟩ hf
    · exact absurd ⟨st, ht ▸ hold⟩ hf
    · exact h.unique t st st' hold hold'
  · intro t ht
    rcases (hm t).1 ht with rfl | hold
    · exact ⟨uuid, hus, rfl⟩
    · exact h.used t hold
  · intro j u hj
    obtain ⟨hdr, hne⟩ := ho j u hj
    refine ⟨(h.fresh j u hdr).1, fun hu => ?_⟩
    rcases (hm _).1 hu with heq | hold
    · exact hne (String.append_right_inj _ |>.1 heq)
    · exact (h.fresh j u hdr).2 hold
  · intro j j' u hj hj'
    exact h.drawn_inj j j' u (ho j u hj).1 (ho j' u hj').1
  · intro j t hj
    rw [update_apply] at hj
    split at hj
    · rcases hg with rfl | rfl <;> cases hj
      exact (hm _).2 (.inl rfl)
    · exact (hm t).2 (.inr (h.added j t hj))
  · intro task ht
    exact (hm _).2 (.inr (h.created task ht))

theorem Membership.draw (hn : uuid ∉ w.usedIDs) : Membership { w with usedIDs := insert uuid w.usedIDs }
      (update φ i ((φ i).draw uuid)) := by
  -- nobody else can be working with it
  have hold : ∀ j u, (φ j).Drawing u → u ≠ uuid := by
    rintro j u hj rfl
    exact hn (h.fresh j u hj).1
  have hc : ∀ j u, (update φ i ((φ i).draw uuid) j).Drawing u → (j = i ∧ u = uuid) ∨ (φ j).Drawing u := by
    intro j u hj
    rw [update_apply] at hj
    split at hj
    · rename_i hji
      subst hji
      cases hg : φ j <;> rw [hg] at hj <;> rcases hj with hj | hj <;> cases hj
      all_goals exact .inl ⟨rfl, rfl⟩
    · exact .inr hj
  constructor
  · exact h.unique
  · intro t ht
    obtain ⟨u, hu, rfl⟩ := h.used t ht
    exact ⟨u, Finset.mem_insert_of_mem hu, rfl⟩
  · intro j u hj
    rcases hc j u hj with ⟨-, rfl⟩ | hj
    · refine ⟨Finset.mem_insert_self _ _, fun hu => ?_⟩
      obtain ⟨v, hv, heq⟩ := h.used _ hu
      exact hn ((String.append_right_inj _).1 heq ▸ hv)
    · exact ⟨Finset.mem_insert_of_mem (h.fresh j u hj).1, (h.fresh j u hj).2⟩
  · intro j j' u hj hj'
    rcases hc j u hj with ⟨hji, hu⟩ | hb <;>
      rcases hc j' u hj' with ⟨hji', hu'⟩ | hb'
    · rw [hji, hji']
    · exact absurd hu (hold j' u hb')
    · exact absurd hu' (hold j u hb)
    · exact h.drawn_inj j j' u hb hb'
  · intro j t hj
    rw [update_apply] at hj
    split at hj
    · cases hg : φ i <;> rw [hg] at hj <;> cases hj
    · exact h.added j t hj
  · exact h.created

/-- A client is answered; a task it is told about has been added before. -/
theorem Membership.reply {r : Reply} (hr : (φ i).Allowed (.reply r)) :
    Membership { w with replies := r :: w.replies } φ where
  unique := h.unique
  used := h.used
  fresh := h.fresh
  drawn_inj := h.drawn_inj
  added := h.added
  created task ht := by
    rcases mem_cons.1 ht with rfl | ht
    · exact h.added i task.id hr
    · exact h.created task ht

/-- **One command keeps the invariant**, unless it moves a task from a set to itself. -/
theorem Membership.step {c : Cmd} {ch : Choice} {x : c.Resp}
    (ha : (φ i).Allowed c) (hse : c.selfMove = false) (hs : step w c ch = some (w', x)) :
    Membership w' (update φ i ((φ i).after c x)) := by
  cases c with
  | remote r =>
    have hw : w' = w ∨ w' = effect w r := eq_or_eq_effect hs
    cases hwr : r.writesSets with
    | false =>
      refine h.frame (fun t ht => by subst ht; cases hwr) hw ?_
      rcases hw with rfl | rfl
      · rfl
      · exact taskSets_effect hwr w
    | true =>
    cases r with
    | saddPending =>
      obtain ⟨uuid, hi, rfl⟩ := ha
      rcases step_remote hs with ⟨rfl, e, rfl⟩ | ⟨rfl, e, rfl⟩ | ⟨rfl, hx⟩
      · exact h.forget i
      · exact h.add hi (.inl rfl)
      · cases hx
        exact h.add hi (.inr rfl)
    | moveTaskAndUpdateStatus taskID fromSet toSet now =>
      have hne : fromSet ≠ toSet := by simpa [Cmd.selfMove] using hse
      rcases hw with rfl | rfl
      · exact h.frame (x := x) (fun _ hr => by cases hr) (.inl rfl) rfl
      · exact h.moved hne (fun _ hr => by cases hr) (taskSets_move w taskID fromSet toSet now)
    | moveTask taskID fromSet toSet =>
      have hne : fromSet ≠ toSet := by simpa [Cmd.selfMove] using hse
      rcases hw with rfl | rfl
      · exact h.frame (x := x) (fun _ hr => by cases hr) (.inl rfl) rfl
      · exact h.moved (x := x) hne (fun _ hr => by cases hr) rfl
    | _ => cases hwr
  | newUUID =>
    obtain ⟨hn, rfl, rfl⟩ := step_newUUID hs
    exact h.draw hn
  | reply =>
    cases hs
    rw [Phase.after, update_eq_self]
    exact h.reply ha
  | timeNow | httpDo | tickerFired =>
    cases hs
    rw [Phase.after, update_eq_self]
    exact h

end

end

/-! ### All runs -/

def NoSelfMove (σ : System) : Event → Prop
  | .run i _ => ∀ c ∈ σ.next i, c.selfMove = false
  | _ => True

instance (σ : System) : (e : Event) → Decidable (NoSelfMove σ e) := by
  intro e
  unfold NoSelfMove
  split <;> infer_instance

theorem membership_of_reaches (hok : ∀ σ e, ok σ e → NoSelfMove σ e)
    (h : Reaches (exec (machine γ)) ok σ₀ σ) (h₀ : σ₀.Obeys custodies)
    (hin : Membership σ₀.store (σ₀.phase custodies)) : Membership σ.store (σ.phase custodies) := by
  refine phase_invariant (fun _ i j _ => program_follows γ i j) ?_ ?_ ?_ ?_ h h₀ hin
  · intro σ i c ch w x hs hn ha hst hi
    exact hi.step ha (hok _ _ hs c hn) hst
  · intro w φ i _ hi
    exact hi.forget i
  · intro σ i _ hi
    exact hi.forget i
  · intro σ ms w _ ht hi
    cases ht
    exact ⟨hi.unique, hi.used, hi.fresh, hi.drawn_inj, hi.added, hi.created⟩

theorem member_step {w' : World} {c : Cmd} {ch : Choice} {x : c.Resp} (hse : c.selfMove = false)
    (hs : step w c ch = some (w', x)) (h : w.Member taskID) : w'.Member taskID := by
  cases c with
  | remote r =>
    have hw : w' = w ∨ w' = effect w r := eq_or_eq_effect hs
    rcases hw with rfl | rfl
    · exact h
    cases hwr : r.writesSets with
    | false => rwa [World.Member, taskSets_effect hwr]
    | true =>
    cases r with
    | saddPending =>
      obtain ⟨st, hst⟩ := h
      exact ⟨st, mem_taskSets_saddPending.2 (.inr hst)⟩
    | moveTaskAndUpdateStatus id fromSet toSet =>
      have hne : fromSet ≠ toSet := by simpa [Cmd.selfMove] using hse
      rw [World.Member, taskSets_move]
      exact (exists_mem_moveScript hne taskID).2 h
    | moveTask id fromSet toSet =>
      have hne : fromSet ≠ toSet := by simpa [Cmd.selfMove] using hse
      exact (exists_mem_moveScript hne taskID).2 h
    | _ => cases hwr
  | newUUID =>
    obtain ⟨-, rfl, rfl⟩ := step_newUUID hs
    exact h
  | _ =>
    cases hs
    exact h

theorem member_of_reaches (hok : ∀ σ e, ok σ e → NoSelfMove σ e) (h : Reaches (exec (machine γ)) ok σ₀ σ)
    (h₀ : σ₀.Obeys custodies) (hm : σ₀.store.Member taskID) : σ.store.Member taskID := by
  refine phase_invariant (P := custodies) (Q := fun w _ => w.Member taskID)
    (fun _ i j _ => program_follows γ i j) ?_ ?_ ?_ ?_ h h₀ hm
  · intro σ i c ch w x hs hn _ hst hi
    exact member_step (hok _ _ hs c hn) hst hi
  · exact fun _ _ _ _ hi => hi
  · exact fun _ _ _ hi => hi
  · intro σ ms w _ ht hi
    cases ht
    exact hi

/-- **A created task is in exactly one status set, and stays in one**, in every run without a move from a set
to itself. -/
theorem created_in_one_set (γ : Gateway) {w₀ : World} (h₀ : w₀.NoTasks) {σ σ' : System}
    (hσ : Reaches (exec (machine γ)) NoSelfMove (.idle w₀) σ)
    (hσ' : Reaches (exec (machine γ)) NoSelfMove σ σ') :
    (∀ task, Reply.created task ∈ σ.store.replies → ∃! status, task.id ∈ σ.store.taskSets status) ∧
      ∀ taskID status, taskID ∈ σ.store.taskSets status →
        ∃! status', taskID ∈ σ'.store.taskSets status' := by
  have ho : σ.Obeys custodies := follows_of_reaches (fun _ i j _ => program_follows γ i j) hσ
    (obeys_idle w₀)
  have hi := membership_of_reaches (fun _ _ h => h) hσ (obeys_idle w₀) (membership_of_noTasks h₀)
  have hi' := membership_of_reaches (fun _ _ h => h) hσ' ho hi
  constructor
  · intro task hta
    obtain ⟨st, hst⟩ := hi.created task hta
    exact ⟨st, hst, fun st' hst' => hi.unique _ st' st hst' hst⟩
  · intro t st ht
    obtain ⟨st', hst'⟩ := member_of_reaches (fun _ _ h => h) hσ' ho ⟨st, ht⟩
    exact ⟨st', hst', fun st'' hst'' => hi'.unique _ st'' st' hst'' hst'⟩

theorem sampleWorld_noTasks (content : Bytes) : (sampleWorld content).NoTasks :=
  ⟨fun _ => rfl, fun _ => rfl, fun _ => rfl, rfl⟩

/-- A task that is created and then expired, in one set before and in one set after. -/
theorem created_in_one_set_sampleExpiry : ∃ σ σ' : System, ∃ task, Reply.created task ∈ σ.store.replies ∧
      "batch_1" ∈ σ.store.taskSets .pending ∧ "batch_1" ∈ σ'.store.taskSets .expired ∧
      (∃! status, task.id ∈ σ.store.taskSets status) ∧
      ∃! status', "batch_1" ∈ σ'.store.taskSets status' := by
  have hr : ∃ σ ∈ runAll (exec (machine sampleGateway)) NoSelfMove (.idle (sampleWorld [])) sampleCreation,
      ∃ σ' ∈ runAll (exec (machine sampleGateway)) NoSelfMove σ (listExpired "a" ++ expireListed "a"),
        .created (stripInternalFields (newTask sampleRequest "batch_1" 0)) ∈ σ.store.replies ∧
          "batch_1" ∈ σ.store.taskSets .pending ∧ "batch_1" ∈ σ'.store.taskSets .expired := by decide
  obtain ⟨σ, hσ, σ', hσ', hc, hp, he⟩ := hr
  have ha := created_in_one_set sampleGateway (sampleWorld_noTasks []) (.of_runAll _ hσ) (.of_runAll _ hσ')
  exact ⟨σ, σ', _, hc, hp, he, ha.1 _ hc, ha.2 _ _ hp⟩

/-- **Two expiries of one task lose it**: the second one moves it from `expired` to `expired`. -/
theorem second_expiry_loses_task : ¬ ∀ (γ : Gateway) (w₀ : World), w₀.NoTasks → ∀ σ : System,
      Reaches (exec (machine γ)) free (.idle w₀) σ → ∀ task, Reply.created task ∈ σ.store.replies →
          ∃! status, task.id ∈ σ.store.taskSets status := by
  intro ha
  have hru : ∃ σ ∈ runAll (exec (machine sampleGateway)) free (.idle (sampleWorld []))
      (sampleCreation ++ listExpired "a" ++ listExpired "b" ++ expireListed "a" ++ expireListed "b"),
        .created (stripInternalFields (newTask sampleRequest "batch_1" 0)) ∈ σ.store.replies ∧
          ∀ st ∈ BatchTaskStatus.all, "batch_1" ∉ σ.store.taskSets st := by decide
  obtain ⟨σ, hσ, hr, hno⟩ := Reaches.of_exists hru
  obtain ⟨st, hst, -⟩ := ha sampleGateway _ (sampleWorld_noTasks []) σ hσ _ hr
  exact hno st (BatchTaskStatus.mem_all st) hst

end Llumnix.Batch
