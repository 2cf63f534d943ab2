/-
**The gate of outgoing migrations.**

The KVT migration front end lets one migration run at a time: `migrate_out` and `migrate_out_prestop` clear
an event when they start and set it again on each of their exits.  An exception outside of the `try` block
is an exit without setting the event.  Two threads are involved, so calls may overlap.  Which requests are
selected, what the dispatch comes to, the parameters and the snapshots are arbitrary.

* `gate_reopens` — **if the parameters of every call make a `MigrationParams`, and no absent snapshot is
  read, the gate is open whenever no call is executing**.
-/

import Llumnix.Processes

namespace Llumnix.MigrationGate

open GuardedRun Interaction Processes Function

/-! ### The front end -/

inductive PyError
  | typeError
  | attributeError
  | dispatch (text : String)
  deriving DecidableEq

/-- The parameters of a call: a dictionary with these keys, a `MigrationParams`, or something else. -/
inductive Params
  | dict (keys : List String)
  | migrationParams
  | other
  deriving DecidableEq

def fields : List String :=
  ["migration_type", "mig_req_policy", "num_reqs", "num_tokens", "kv_cache_usage_ratio", "trigger_policy"]

/-- A dictionary is turned into a `MigrationParams`; an unknown keyword is a `TypeError`. -/
def Params.construct : Params → Except PyError Params
  | .dict keys => if ∀ key ∈ keys, key ∈ fields then .ok .migrationParams else .error .typeError
  | params => .ok params

def Params.attribute : Params → Except PyError Unit
  | .migrationParams => .ok ()
  | _ => .error .attributeError

/-- The ids of the requests in a snapshot, or `None`. -/
abbrev Snapshot := Option (List String)

structure Frontend where
  migrationFinishEvent : Bool
  schedulerStateQueue : Option (Snapshot × Snapshot)
  latestRunningSnapshot : Snapshot
  latestWaitingSnapshot : Snapshot

def Frontend.init : Frontend := ⟨true, none, none, none⟩

/-- `update_snapshots`: the snapshots are stored before their lengths are logged, and `None` has no
length. -/
def Frontend.updateSnapshots (s : Frontend) : Frontend × Except PyError Unit :=
  match s.schedulerStateQueue with
  | none => (s, .ok ())
  | some (running, waiting) =>
    (⟨s.migrationFinishEvent, none, running, waiting⟩,
      if running.isSome && waiting.isSome then .ok () else .error .typeError)

/-- `update_req_status`, which replaces what has not been fetched. -/
def Frontend.updateReqStatus (s : Frontend) (newState : Snapshot × Snapshot) : Frontend :=
  { s with schedulerStateQueue := some newState }

/-! ### Calls -/

/-- The steps of a call that other threads can come between. -/
inductive Cmd
  | isSet
  /-- `wait(timeout=PRESTOP_TIMEOUT)` -/
  | wait
  | clear
  | set
  | updateSnapshots
  | snapshotsMissing
  /-- `get_migrated_requests` or `iter_scheduler_requests`, which catch every exception. -/
  | select
  | dispatch (reqs : List String)
  deriving DecidableEq

def Resp : Cmd → Type
  | .isSet | .wait | .snapshotsMissing => Bool
  | .clear | .set => Unit
  | .updateSnapshots => Except PyError Unit
  | .select => List String
  | .dispatch _ => Except PyError Bool

/-- What is left open: the requests that are selected, what the dispatch comes to, and whether the wait
is over. -/
structure Choice where
  selected : List String := []
  dispatched : Except PyError Bool := .ok true
  timedOut : Bool := false

def step (s : Frontend) : (c : Cmd) → Choice → Option (Frontend × Resp c)
  | .isSet, _ => some (s, s.migrationFinishEvent)
  | .wait, ch =>
    if s.migrationFinishEvent then some (s, true) else if ch.timedOut then some (s, false) else none
  | .clear, _ => some ({ s with migrationFinishEvent := false }, ())
  | .set, _ => some ({ s with migrationFinishEvent := true }, ())
  | .updateSnapshots, _ => some s.updateSnapshots
  | .snapshotsMissing, _ =>
    some (s, s.latestRunningSnapshot.isNone || s.latestWaitingSnapshot.isNone)
  | .select, ch => some (s, ch.selected)
  | .dispatch _, ch => some (s, ch.dispatched)

abbrev FrontendM := Prog Cmd Resp

def perform (c : Cmd) : FrontendM (Resp c) := Prog.issue c

/-- Setting the event and returning. -/
def finish (res : Bool) : FrontendM (Except PyError Bool) := do
  let _ ← perform .set
  return .ok res

/-- The `try` block, whose exceptions are caught. -/
def dispatchAndSet (params : Params) (reqs : List String) : FrontendM (Except PyError Bool) :=
  match params.attribute with
  | .error _ => finish false
  | .ok _ => do
    match ← perform (.dispatch reqs) with
    | .error _ => finish false
    | .ok res => finish res

/-- `migrate_out` after it has found the event set. -/
def migrateOutCleared (params : Params) : FrontendM (Except PyError Bool) := do
  let _ ← perform .clear
  match params.construct with
  | .error e => return .error e
  | .ok params =>
    match ← perform .updateSnapshots with
    | .error e => return .error e
    | .ok _ =>
      match ← perform .snapshotsMissing with
      | true => finish false
      | false =>
        match params.attribute with
        | .error e => return .error e
        | .ok _ =>
          match ← perform .select with
          | [] => finish false
          | req :: reqs => dispatchAndSet params (req :: reqs)

def migrateOut (params : Params) : FrontendM (Except PyError Bool) := do
  match ← perform .isSet with
  | false => return .ok false
  | true => migrateOutCleared params

/-- `migrate_out_prestop` after it has found the event set or has waited for it. -/
def prestopCleared (params : Params) : FrontendM (Except PyError Bool) := do
  let _ ← perform .clear
  match params.construct with
  | .error e => return .error e
  | .ok params =>
    match ← perform .select with
    | [] =>
      -- the type of the migration is read for the log
      match params.attribute with
      | .error e => return .error e
      | .ok _ => finish false
    | req :: reqs => dispatchAndSet params (req :: reqs)

def migrateOutPrestop (isHybrid : Bool) (params : Params) : FrontendM (Except PyError Bool) :=
  if isHybrid then return .ok false
  else do
    match ← perform .isSet with
    | true => prestopCleared params
    | false =>
      match ← perform .wait with
      | false => return .ok false
      | true => prestopCleared params

inductive Call
  | migrateOut (params : Params)
  | migrateOutPrestop (isHybrid : Bool) (params : Params)

def Call.params : Call → Params
  | .migrateOut params | .migrateOutPrestop _ params => params

/-- **The front end**, called by any number of callers; the status updater pushes snapshots meanwhile. -/
def machine (I : Type) : Machine Frontend Cmd Resp I Call Choice (Snapshot × Snapshot) where
  program _ call := match call with
    | .migrateOut params => do
      let _ ← migrateOut params
      return ()
    | .migrateOutPrestop isHybrid params => do
      let _ ← migrateOutPrestop isHybrid params
      return ()
  step := step
  env s newState := some (s.updateReqStatus newState)

/-! ### The gate -/

/-- How far a call is: it has shut the gate, or it has read an absent snapshot. -/
inductive Phase
  | outside
  | cleared
  | stuck
  deriving DecidableEq

/-- **The protocol of the gate**: whoever has shut it opens it before it ends. -/
def gate : Protocol Cmd Resp Phase where
  start := .outside
  allowed _ _ := True
  advance
    | _, .clear, _ => .cleared
    | _, .set, _ => .outside
    | _, .updateSnapshots, .error _ => .stuck
    | g, _, _ => g
  final g := g ≠ .cleared

/-- The parameters are a `MigrationParams`, or a dictionary of its fields. -/
def Params.valid : Params → Bool
  | .dict keys => keys.all (· ∈ fields)
  | .migrationParams => true
  | .other => false

variable {I : Type}

/-- **The guard**: the parameters of a call are valid, the snapshot that `update_snapshots` is about to
fetch is not absent, and calls are not killed. -/
def Regular (σ : Config Frontend Cmd Resp I) : Action I Call Choice (Snapshot × Snapshot) → Prop
  | .spawn _ call => call.params.valid = true
  | .run i _ => σ.next i = some .updateSnapshots →
      ∀ p ∈ σ.store.schedulerStateQueue, p.1.isSome = true ∧ p.2.isSome = true
  | .crash _ => False
  | .env _ => True

variable {params : Params} {g : Phase}

theorem Params.construct_of_valid (h : params.valid = true) : params.construct = .ok .migrationParams := by
  cases params with
  | dict keys => exact if_pos (by simpa [Params.valid] using h)
  | migrationParams => rfl
  | other => cases h

theorem follows_finish (res : Bool) : (finish res).Follows gate (fun g _ => gate.final g) g :=
  ⟨trivial, fun _ => nofun⟩

theorem follows_dispatchAndSet (params : Params) (reqs : List String) :
    (dispatchAndSet params reqs).Follows gate (fun g _ => gate.final g) g := by
  unfold dispatchAndSet
  split
  · exact follows_finish false
  · refine ⟨trivial, fun r => ?_⟩
    cases r with
    | error | ok => exact follows_finish _

theorem follows_migrateOutCleared (h : params.valid = true) :
    (migrateOutCleared params).Follows gate (fun g _ => gate.final g) g := by
  unfold migrateOutCleared
  rw [Params.construct_of_valid h]
  refine ⟨trivial, fun _ => ⟨trivial, fun r => ?_⟩⟩
  cases r with
  | error e => exact nofun
  | ok _ =>
  refine ⟨trivial, fun missing => ?_⟩
  cases missing with
  | true => exact follows_finish false
  | false =>
    refine ⟨trivial, fun reqs => ?_⟩
    cases reqs with
    | nil => exact follows_finish false
    | cons req reqs => exact follows_dispatchAndSet .migrationParams (req :: reqs)

theorem follows_prestopCleared (h : params.valid = true) :
    (prestopCleared params).Follows gate (fun g _ => gate.final g) g := by
  unfold prestopCleared
  rw [Params.construct_of_valid h]
  refine ⟨trivial, fun _ => ⟨trivial, fun reqs => ?_⟩⟩
  cases reqs with
  | nil => exact follows_finish false
  | cons req reqs => exact follows_dispatchAndSet .migrationParams (req :: reqs)

/-- **A call with valid parameters follows the protocol.** -/
theorem follows_call {call : Call} (h : call.params.valid = true) (i : I) :
    ((machine I).program i call).Follows gate (fun g _ => gate.final g) gate.start := by
  cases call with
  | migrateOut params =>
    refine Prog.Follows.bind_of (M := fun g _ => gate.final g) ⟨trivial, fun isSet => ?_⟩ fun _ _ hf => hf
    cases isSet with
    | false => exact nofun
    | true => exact follows_migrateOutCleared h
  | migrateOutPrestop isHybrid params =>
  refine Prog.Follows.bind_of (M := fun g _ => gate.final g) ?_ fun _ _ hf => hf
  cases isHybrid with
  | true => exact nofun
  | false =>
  refine ⟨trivial, fun isSet => ?_⟩
  cases isSet with
  | true => exact follows_prestopCleared h
  | false =>
    refine ⟨trivial, fun finishedInTime => ?_⟩
    cases finishedInTime with
    | false => exact nofun
    | true => exact follows_prestopCleared h

/-- The gate is open, or somebody has shut it who is going to open it. -/
structure Guarded (s : Frontend) (φ : I → Phase) : Prop where
  held : s.migrationFinishEvent = false → ∃ i, φ i = .cleared
  moving : ∀ i, φ i ≠ .stuck

variable {s t : Frontend} {φ : I → Phase} {i : I}

theorem Guarded.keep (h : Guarded s φ) (he : t.migrationFinishEvent = s.migrationFinishEvent) :
    Guarded t φ := ⟨fun hf => h.held (he ▸ hf), h.moving⟩

variable [DecidableEq I]

theorem Guarded.step (h : Guarded s φ) {c : Cmd} {ch : Choice} {r : Resp c}
    (hs : c = .updateSnapshots → ∀ p ∈ s.schedulerStateQueue, p.1.isSome = true ∧ p.2.isSome = true)
    (hst : step s c ch = some (t, r)) : Guarded t (update φ i (gate.advance (φ i) c r)) := by
  have hk : t = s → gate.advance (φ i) c r = φ i → Guarded t (update φ i (gate.advance (φ i) c r)) := by
    rintro rfl hg
    rw [hg, update_eq_self]
    exact h
  cases c with
  | clear =>
    cases hst
    refine ⟨fun _ => ⟨i, update_self ..⟩, fun j => ?_⟩
    rw [update_apply]
    split
    · exact nofun
    · exact h.moving j
  | set =>
    cases hst
    refine ⟨nofun, fun j => ?_⟩
    rw [update_apply]
    split
    · exact nofun
    · exact h.moving j
  | updateSnapshots =>
    simp only [MigrationGate.step, Frontend.updateSnapshots] at hst
    split at hst
    · cases hst
      exact hk rfl rfl
    · rename_i running waiting hq
      have hp := hs rfl _ hq
      simp only [hp, Bool.and_self, if_true] at hst
      cases hst
      rw [show gate.advance (φ i) .updateSnapshots (.ok ()) = φ i from rfl, update_eq_self]
      exact h.keep rfl
  | wait =>
    simp only [MigrationGate.step] at hst
    split at hst
    · cases hst
      exact hk rfl rfl
    · split at hst <;> cases hst
      exact hk rfl rfl
  | isSet | snapshotsMissing | select | dispatch =>
    cases hst
    exact hk rfl rfl

/-- A call that has ended is forgotten; it was not the one that had shut the gate. -/
theorem Guarded.forget (h : Guarded s φ) (hi : gate.final (φ i)) : Guarded s (update φ i .outside) := by
  refine ⟨fun hf => ?_, fun j => ?_⟩
  · obtain ⟨j, hj⟩ := h.held hf
    refine ⟨j, ?_⟩
    rw [update_of_ne, hj]
    rintro rfl
    exact hi hj
  · rw [update_apply]
    split
    · exact nofun
    · exact h.moving j

/-- **The gate is open whenever no call is executing.** -/
theorem gate_reopens {σ : Config Frontend Cmd Resp I}
    (h : Reaches (exec (machine I)) Regular (.idle Frontend.init) σ) (hidle : ∀ i, (σ.procs i).done = true) :
    σ.store.migrationFinishEvent = true := by
  have hg : Guarded σ.store (σ.phase fun _ => gate) := by
    refine phase_invariant (fun _ i _ hok => follows_call hok i) ?_ ?_ ?_ ?_ h (obeys_idle _) ⟨nofun, fun _ => nofun⟩
    · exact fun σ i c ch s r hok hn _ hs hg => hg.step (fun hc => hok (hc ▸ hn)) hs
    · exact fun _ _ _ hf hg => hg.forget hf
    · exact fun _ _ hok _ => hok.elim
    · intro σ newState s _ hs hg
      cases hs
      exact hg.keep rfl
  cases he : σ.store.migrationFinishEvent with
  | true => rfl
  | false =>
  obtain ⟨i, hi⟩ := hg.held he
  rcases follows_of_reaches (fun _ i _ hok => follows_call hok i) h (obeys_idle _) i with ⟨-, hs⟩ | hf
  · cases hi.symm.trans hs
  have hd := hidle i
  cases hc : σ.procs i with
  | ret =>
    rw [hc] at hf
    exact absurd hi hf
  | cmd =>
    rw [hc] at hd
    cases hd

instance (σ : Config Frontend Cmd Resp I) :
    (a : Action I Call Choice (Snapshot × Snapshot)) → Decidable (Regular σ a) := by
  intro a
  unfold Regular
  split <;> infer_instance

theorem gate_reopens_after_migration : ∃ σ : Config Frontend Cmd Resp Unit,
    σ.store.latestRunningSnapshot = some ["r"] ∧ σ.store.migrationFinishEvent = true := by
  have hr : ∃ σ ∈ runAll (exec (machine Unit)) Regular (.idle Frontend.init)
      (.env (some ["r"], some []) :: .spawn () (.migrateOut (.dict ["num_reqs"])) ::
        ([{}, {}, {}, {}, { selected := ["r"] }, { dispatched := .error (.dispatch "refused") }, {}] :
          List Choice).map (.run ())),
      σ.store.latestRunningSnapshot = some ["r"] ∧ (σ.procs ()).done = true := by decide
  obtain ⟨σ, hσ, hl, hd⟩ := Reaches.of_exists hr
  exact ⟨σ, hl, gate_reopens hσ fun _ => hd⟩

/-- **A migration reads the snapshot that is pushed before there is one, and shuts the gate for good.** -/
theorem absent_snapshot_shuts_gate : ¬ ∀ (I : Type) [DecidableEq I] (σ : Config Frontend Cmd Resp I),
    Reaches (exec (machine I)) free (.idle Frontend.init) σ → (∀ i, (σ.procs i).done = true) →
      σ.store.migrationFinishEvent = true := by
  intro ha
  have hr : ∃ σ ∈ runAll (exec (machine Unit)) free (.idle Frontend.init)
      [.env (none, none), .spawn () (.migrateOut .migrationParams), .run () {}, .run () {}, .run () {}],
      (σ.procs ()).done = true ∧ σ.store.migrationFinishEvent = false := by decide
  obtain ⟨σ, hσ, hd, hm⟩ := Reaches.of_exists hr
  cases hm.symm.trans (ha Unit σ hσ fun _ => hd)

end Llumnix.MigrationGate
