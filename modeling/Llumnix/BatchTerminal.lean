/-
**Terminal statuses are final, as long as locks outlive their holders.**

Two things take a terminal status away again.  The expiring reactor moves a task from whatever status its
hash names, terminal or not.  And a goroutine whose lock has expired goes on, and overwrites the status of a
task that somebody else has brought to its end.

* `terminal_absorbing` — **terminal statuses are absorbing** in every run under the guard.
-/

import Llumnix.BatchPlacement

namespace Llumnix.Batch

open GuardedRun Interaction Processes

/-- A move whose source is a terminal status. -/
def Cmd.leavesTerminal : Cmd → Bool
  | .remote (.moveTaskAndUpdateStatus _ fromSet _ _) => fromSet.terminal
  | .remote (.moveTask _ fromSet _) => fromSet.terminal
  | _ => false

theorem selfMove_of_allowed {g : Phase} {c : Cmd} (ha : g.Allowed c)
    (h : c.leavesTerminal = false) : c.selfMove = false := by
  have hne : ∀ {st st' : BatchTaskStatus}, st.terminal = false → st'.terminal = true →
      (st == st') = false := by
    intro st st' hst hst'
    rw [beq_eq_false_iff_ne]
    rintro rfl
    cases hst.symm.trans hst'
  cases c with
  | remote r =>
    cases r with
    | moveTaskAndUpdateStatus =>
      obtain ⟨-, rfl | ⟨hs, -⟩⟩ := ha
      · exact hne h rfl
      · simpa [Cmd.selfMove] using hs
    | moveTask => exact hne ha.2.1 ha.2.2
    | _ => rfl
  | _ => rfl

section

variable {w w' : World} {φ : Proc → Phase} {i : Proc} {taskID : String} {status : BatchTaskStatus}

/-- A command about a task in a terminal set finds nothing to do. -/
theorem terminal_effect (h : Custodial w φ) (hm : Membership w φ) {r : Remote}
    (ha : (φ i).AllowedRemote r) (hl : (Cmd.remote r).leavesTerminal = false)
    (hse : (Cmd.remote r).selfMove = false) (hss : status.terminal = true)
    (ht : taskID ∈ w.taskSets status) :
    taskID ∈ (effect w r).taskSets status ∧ (effect w r).tasks taskID = w.tasks taskID := by
  have hi := h.holds i
  -- the task is in no other set, in particular in none that is not terminal
  have ho : ∀ st, st.terminal = false → taskID ∉ w.taskSets st := by
    intro st hst hme
    rw [hm.unique taskID st status hme ht, hss] at hst
    cases hst
  have hc : ∀ uuid, (φ i).Drawing uuid → taskID ≠ "batch_" ++ uuid := by
    rintro uuid hdr rfl
    exact (hm.fresh i uuid hdr).2 ⟨status, ht⟩
  by_cases hs : r.subject = some taskID
  · cases r with
    | hsetTask =>
      cases hs
      obtain ⟨uuid, hg, hid, -⟩ := ha
      exact absurd hid (hc uuid (.inl hg))
    | saddPending =>
      cases hs
      obtain ⟨uuid, hg, hid⟩ := ha
      exact absurd hid (hc uuid (.inr hg))
    | updateTaskFailure =>
      cases hs
      have hg : φ i = .placed taskID .validating := ha
      rw [hg] at hi
      exact absurd hi (ho _ rfl)
    | updateTaskFields =>
      cases hs
      rcases ha with hg | ⟨hg, -⟩ <;> rw [hg] at hi <;> exact absurd hi (ho _ rfl)
    | moveTaskAndUpdateStatus t fromSet toSet =>
      cases hs
      have hne : fromSet ≠ toSet := by simpa [Cmd.selfMove] using hse
      rw [taskSets_move, moveScript_of_notMem hne (ho _ hl), tasks_move hne, if_neg (ho _ hl)]
      exact ⟨ht, rfl⟩
    | moveTask =>
      cases hs
      obtain ⟨hg, hf, -⟩ := ha
      rw [hg] at hi
      exact absurd hi.1 (ho _ hf)
    | _ => cases hs
  · exact ⟨(mem_taskSets_effect hs).2 ht, tasks_effect hs⟩

/-- **No command changes a task in a terminal set**, if it does not move out of one. -/
theorem terminal_step (h : Custodial w φ) (hm : Membership w φ) {c : Cmd} {ch : Choice} {x : c.Resp}
    (ha : (φ i).Allowed c) (hl : c.leavesTerminal = false)
    (hs : step w c ch = some (w', x)) (hst : status.terminal = true)
    (ht : taskID ∈ w.taskSets status) : taskID ∈ w'.taskSets status ∧ w'.tasks taskID = w.tasks taskID := by
  cases c with
  | remote =>
    rcases eq_or_eq_effect hs with rfl | rfl
    · exact ⟨ht, rfl⟩
    · exact terminal_effect h hm ha hl (selfMove_of_allowed ha hl) hst ht
  | newUUID =>
    obtain ⟨-, rfl, rfl⟩ := step_newUUID hs
    exact ⟨ht, rfl⟩
  | _ =>
    cases hs
    exact ⟨ht, rfl⟩

end

/-! ### All runs -/

/-- No move leaves a terminal set, and the update that marks a failed task is not refused. -/
def EndsRespected (σ : System) : Event → Prop
  | .run i ch => ∀ c ∈ σ.next i, c.leavesTerminal = false ∧ MarkDone c ch
  | _ => True

instance (σ : System) : (e : Event) → Decidable (EndsRespected σ e) := by
  rintro (_ | _ | _ | _) <;> (dsimp only [EndsRespected]; infer_instance)

/-- **The guard**: moreover, locks outlive the work under them. -/
def EndsKept (σ : System) (e : Event) : Prop := LocksKept σ e ∧ EndsRespected σ e

/-- **Terminal statuses are absorbing**, in every guarded run: the task stays in its set, and its hash as it
is. -/
theorem terminal_absorbing (γ : Gateway) {w₀ : World} (h₀ : w₀.NoTasks) {σ σ' : System}
    (hσ : Reaches (exec (machine γ)) EndsKept (.idle w₀) σ)
    (hσ' : Reaches (exec (machine γ)) EndsKept σ σ') {taskID : String} {status : BatchTaskStatus}
    (hstatus : status.terminal = true) (ht : taskID ∈ σ.store.taskSets status) :
    taskID ∈ σ'.store.taskSets status ∧ σ'.store.tasks taskID = σ.store.tasks taskID := by
  have hk : Kept σ.store (σ.phase custodies) := by
    refine phase_invariant (fun _ i j _ => program_follows γ i j) ?_ ?_ ?_ ?_ hσ (obeys_idle w₀)
      (kept_of_noTasks h₀)
    · intro σ i c ch w x hok hn ha hs hi
      obtain ⟨hl, hm⟩ := hok.2 c hn
      exact hi.step ha (selfMove_of_allowed ha hl) hm hs
    · exact fun _ _ i _ hi => hi.forget i
    · exact fun _ i _ hi => hi.forget i
    · exact fun _ _ _ hok hti hi => hi.tick hok.1 hti
  suffices hal : Kept σ'.store (σ'.phase custodies) ∧ taskID ∈ σ'.store.taskSets status ∧
      σ'.store.tasks taskID = σ.store.tasks taskID from hal.2
  refine phase_invariant (Q := fun w φ => Kept w φ ∧ taskID ∈ w.taskSets status ∧
    w.tasks taskID = σ.store.tasks taskID) (fun _ i j _ => program_follows γ i j) ?_ ?_ ?_ ?_ hσ'
      (follows_of_reaches (fun _ i j _ => program_follows γ i j) hσ (obeys_idle w₀)) ⟨hk, ht, rfl⟩
  · rintro σ i c ch w x hok hn ha hs ⟨hi, hme, hta⟩
    obtain ⟨hl, hm⟩ := hok.2 c hn
    obtain ⟨hm', ht'⟩ := terminal_step hi.custodial hi.membership ha hl hs hstatus hme
    exact ⟨hi.step ha (selfMove_of_allowed ha hl) hm hs, hm', ht'.trans hta⟩
  · rintro w φ i _ ⟨hi, hr⟩
    exact ⟨hi.forget i, hr⟩
  · rintro σ i _ ⟨hi, hr⟩
    exact ⟨hi.forget i, hr⟩
  · rintro σ ms w hok hti ⟨hi, hr⟩
    refine ⟨hi.tick hok.1 hti, ?_⟩
    cases hti
    exact hr

theorem terminal_absorbing_sampleCancel :
    ∃ σ σ' : System, "batch_1" ∈ σ.store.taskSets .expired ∧ σ'.store.replies ≠ σ.store.replies ∧
      "batch_1" ∈ σ'.store.taskSets .expired ∧
      σ'.store.tasks "batch_1" = σ.store.tasks "batch_1" := by
  have hr : ∃ σ ∈ runAll (exec (machine sampleGateway))
      (fun σ e => timeless e = true ∧ EndsRespected σ e) (.idle (sampleWorld []))
      (sampleCreation ++ listExpired "a" ++ expireListed "a"),
        ∃ σ' ∈ runAll (exec (machine sampleGateway)) (fun σ e => timeless e = true ∧ EndsRespected σ e) σ
          (turn (.handler "b" 1) (.cancel "batch_1") (plain 2)),
            "batch_1" ∈ σ.store.taskSets .expired ∧ σ.store.replies.length = 1 ∧
              σ'.store.replies.length = 2 := by decide
  obtain ⟨σ, hσ, σ', hσ', hm, hl, hl'⟩ := hr
  have hk : ∀ (σ : System) (e : Event), timeless e = true ∧ EndsRespected σ e → EndsKept σ e :=
    fun σ e h => ⟨locksKept_of_timeless h.1, h.2⟩
  refine ⟨σ, σ', hm, fun heq => ?_, terminal_absorbing sampleGateway (sampleWorld_noTasks [])
    ((Reaches.of_runAll _ hσ).mono hk) ((Reaches.of_runAll _ hσ').mono hk) rfl hm⟩
  rw [heq, hl] at hl'
  cases hl'

/-- **A completed task becomes an expired one**: it was listed as expired while it was still pending. -/
theorem late_expiry_reopens_completed : ¬ ∀ (γ : Gateway) (w₀ : World), w₀.NoTasks → ∀ σ σ' : System,
      Reaches (exec (machine γ)) free (.idle w₀) σ → Reaches (exec (machine γ)) free σ σ' →
        ∀ taskID status, BatchTaskStatus.terminal status = true → taskID ∈ σ.store.taskSets status →
          taskID ∈ σ'.store.taskSets status ∧ (σ'.store.tasks taskID).map BatchTask.status
            = (σ.store.tasks taskID).map BatchTask.status := by
  intro ha
  have hr : ∃ σ ∈ runAll (exec (machine sampleGateway)) free (.idle (sampleWorld []))
      (sampleCreation ++ listExpired "b" ++ sampleValidation ++ sampleWork ++ sampleFinalization),
        ∃ σ' ∈ runAll (exec (machine sampleGateway)) free σ (expireListed "b"),
          "batch_1" ∈ σ.store.taskSets .completed ∧ "batch_1" ∉ σ'.store.taskSets .completed := by decide
  obtain ⟨σ, hσ, σ', hσ', hm, hn⟩ := hr
  exact hn (ha sampleGateway _ (sampleWorld_noTasks []) σ σ' (.of_runAll _ hσ) (.of_runAll _ hσ')
    "batch_1" .completed rfl hm).1

end Llumnix.Batch
