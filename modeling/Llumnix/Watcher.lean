/-
**The channels of a watcher.**

`Watch` hands out two buffered channels and starts up to two goroutines for them: one sends the current
instances, unless the context is cancelled first; the other waits for the cancellation and removes the
observer, which closes the channels.  Refreshes send to the registered observers without blocking, under the
read lock.  A send on a closed channel and a second `close` panic, which is the end of the process.

* `closed_once` — as long as no context is cancelled under a snapshot that has not been sent, **nothing
  panics, and the channels are closed once, by the goroutine that waits for the cancellation**.
-/

import Llumnix.GuardedRun
import Mathlib.Logic.Function.Basic

namespace Llumnix.Watcher

open GuardedRun List Option Function

variable {α β : Type}

/-! ### Channels -/

/-- A buffered channel, and how often it has been closed. -/
structure Chan (β : Type) where
  buffer : List β := []
  closings : Nat := 0
  deriving DecidableEq

def capacity : Nat := 50

def Chan.closed (c : Chan β) : Bool := decide (0 < c.closings)

def Chan.full (c : Chan β) : Bool := decide (capacity ≤ c.buffer.length)

/-- `close(c)`; closing a closed channel panics. -/
def Chan.close (c : Chan β) : Option (Chan β) :=
  if c.closed then none else some { c with closings := c.closings + 1 }

/-- `c <- v`, when it does not block; sending on a closed channel panics. -/
def Chan.send (c : Chan β) (v : β) : Option (Chan β) :=
  if c.closed then none else some { c with buffer := c.buffer ++ [v] }

inductive Side
  | added
  | removed
  deriving DecidableEq

/-! ### Observers -/

/-- An `observerPair`, with what its two goroutines have left to do. -/
structure Observer (α : Type) where
  chan : Side → Chan (List α) := fun _ => {}
  registered : Bool := true
  cancelled : Bool
  /-- What the snapshot goroutine has to send; there is none if nothing is to be sent, or it has ended. -/
  snapshot : Option (List α)
  /-- The goroutine that waits for the cancellation has removed the observer. -/
  cleaned : Bool := false

/-- A send that a notification under way has still to make. -/
structure Send (α : Type) where
  observer : Nat
  side : Side
  instances : List α

structure State (α : Type) where
  observers : List (Observer α) := []
  /-- The notifications that hold the read lock. -/
  notifying : List (Send α) := []
  panicked : Bool := false

namespace State

variable (s : State α)

def put (o : Nat) (x : Observer α) : State α := { s with observers := s.observers.set o x }

/-- `Watch`; `getCurrentInstances` may fail. -/
def watch (current : Option (List α)) (cancelled : Bool) : State α :=
  { s with observers := s.observers ++
    [{ cancelled := cancelled, snapshot := current.filter fun l => !l.isEmpty }] }

def sendOn (o : Nat) (x : Observer α) (side : Side) (v : List α) : State α :=
  match (x.chan side).send v with
  | some c => s.put o { x with chan := update x.chan side c }
  | none => { s with panicked := true }

def removeObserver (o : Nat) (x : Observer α) : State α :=
  match (x.chan .added).close, (x.chan .removed).close with
  | some added, some removed =>
    s.put o { x with
      registered := false
      chan := fun side => match side with
        | .added => added
        | .removed => removed }
  | _, _ => { s with panicked := true }

/-- `notifyObservers`, which has the sends of every registered observer to make. -/
def notifyObservers (added removed : List α) : State α :=
  { s with notifying := s.notifying ++ s.observers.zipIdx.flatMap fun xo =>
      if xo.1.registered then
        (if added.isEmpty then [] else [⟨xo.2, .added, added⟩]) ++
          if removed.isEmpty then [] else [⟨xo.2, .removed, removed⟩]
      else [] }

end State

inductive Action (α : Type)
  | watch (current : Option (List α)) (cancelled : Bool)
  /-- The snapshot goroutine takes the branch that sends. -/
  | sendSnapshot (o : Nat)
  /-- The snapshot goroutine takes the branch of the cancelled context. -/
  | snapshotDone (o : Nat)
  | cancel (o : Nat)
  /-- The goroutine that waits for the cancellation goes on. -/
  | cleanup (o : Nat)
  | notify (added removed : List α)
  /-- A notification makes one of its sends, or finds the channel full. -/
  | deliver (k : Nat)
  | receive (o : Nat) (side : Side)

/-- **The transitions.**  `Watch` and `removeObserver` need the write lock.  A closed channel is ready
for sending: the send panics. -/
def exec (s : State α) (a : Action α) : Option (State α) :=
  if s.panicked then none else
  match a with
  | .watch current cancelled => if s.notifying.isEmpty then some (s.watch current cancelled) else none
  | .sendSnapshot o => s.observers[o]?.bind fun x => x.snapshot.bind fun v =>
      if (x.chan .added).full && !(x.chan .added).closed then none
      else some (s.sendOn o { x with snapshot := none } .added v)
  | .snapshotDone o => s.observers[o]?.bind fun x =>
      if x.snapshot.isSome && x.cancelled && s.notifying.isEmpty then
        some (s.removeObserver o { x with snapshot := none })
      else none
  | .cancel o => s.observers[o]?.map fun x => s.put o { x with cancelled := true }
  | .cleanup o => s.observers[o]?.bind fun x =>
      if x.cancelled && !x.cleaned && s.notifying.isEmpty then
        some (s.removeObserver o { x with cleaned := true })
      else none
  | .notify added removed => some (s.notifyObservers added removed)
  | .deliver k => s.notifying[k]?.bind fun m => s.observers[m.observer]?.map fun x =>
      let s := { s with notifying := s.notifying.eraseIdx k }
      if (x.chan m.side).full && !(x.chan m.side).closed then s
      else s.sendOn m.observer x m.side m.instances
  | .receive o side => s.observers[o]?.bind fun x =>
      match (x.chan side).buffer with
      | [] => none
      | _ :: rest => some (s.put o
          { x with chan := update x.chan side { x.chan side with buffer := rest } })

/-! ### The invariant -/

/-- **The guard**: a context is cancelled when there is no snapshot left to send. -/
def SnapshotSent (s : State α) : Action α → Prop
  | .watch current cancelled => cancelled = true → current.all List.isEmpty = true
  | .cancel o => ∀ x ∈ s.observers[o]?, x.snapshot = none
  | _ => True

/-- An observer whose channels have been closed as often as its cancellation has been handled. -/
structure Fine (x : Observer α) : Prop where
  closings : ∀ side, (x.chan side).closings = if x.cleaned then 1 else 0
  cancelled : x.cleaned = true → x.cancelled = true
  sent : x.cancelled = true → x.snapshot = none
  registered : x.registered = !x.cleaned

structure Tidy (s : State α) : Prop where
  alive : s.panicked = false
  fine : ∀ (o : Nat) x, s.observers[o]? = some x → Fine x
  targets : ∀ m ∈ s.notifying, ∃ x, s.observers[m.observer]? = some x ∧ x.registered = true

variable {s t : State α} {o : Nat} {x y : Observer α} {side : Side} {v : List α}

theorem Fine.open_of_not_cleaned (h : Fine x) (hc : x.cleaned = false) (side : Side) :
    (x.chan side).closed = false := by
  simp [Chan.closed, h.closings side, hc]

/-- What is done to one observer, under the write lock or without removing it from the map. -/
theorem Tidy.put (h : Tidy s) (hx : s.observers[o]? = some x) (hy : Fine y)
    (hr : y.registered = x.registered ∨ s.notifying = []) : Tidy (s.put o y) := by
  refine ⟨h.alive, fun o' z hz => ?_, fun m hm => ?_⟩
  · simp only [State.put, getElem?_set] at hz
    split at hz
    · split at hz <;> cases hz
      exact hy
    · exact h.fine o' z hz
  · rcases hr with hr | hn
    · obtain ⟨z, hz, hreg⟩ := h.targets m hm
      by_cases ho : o = m.observer
      · subst ho
        have hlt := (List.getElem?_eq_some_iff.1 hx).1
        cases hx.symm.trans hz
        exact ⟨y, by simp [State.put, hlt], hr.trans hreg⟩
      · exact ⟨z, by simpa [State.put, getElem?_set, ho] using hz, hreg⟩
    · rw [show (s.put o y).notifying = s.notifying from rfl, hn] at hm
      cases hm

theorem Fine.buffered (h : Fine x) {c : Chan (List α)} (hc : c.closings = (x.chan side).closings) :
    Fine { x with chan := update x.chan side c } := by
  refine ⟨fun side' => ?_, h.cancelled, h.sent, h.registered⟩
  simp only [update_apply]
  split
  · next hs => rw [hc, ← hs, h.closings]
  · exact h.closings side'

/-- **A send on an open channel.** -/
theorem Tidy.sendOn (h : Tidy s) (hx : s.observers[o]? = some x) (hy : Fine y) (hc : y.cleaned = false)
    (hr : y.registered = x.registered) (side : Side) (v : List α) : Tidy (s.sendOn o y side v) := by
  simp only [State.sendOn, Chan.send, hy.open_of_not_cleaned hc side]
  exact h.put hx (hy.buffered rfl) (.inl hr)

/-- **The first removal of an observer.** -/
theorem removeObserver_eq (h : Fine x) (hc : x.cleaned = false) (s : State α) (o : Nat) :
    ∃ y, s.removeObserver o { x with cleaned := true } = s.put o y ∧ y.cleaned = true ∧
      y.cancelled = x.cancelled ∧ y.snapshot = x.snapshot ∧ y.registered = false ∧
        ∀ side, (y.chan side).closings = 1 := by
  have ho := fun side => h.open_of_not_cleaned hc side
  have h0 : ∀ side, (x.chan side).closings = 0 := fun side => by simpa [hc] using h.closings side
  simp only [State.removeObserver, Chan.close, ho]
  refine ⟨_, rfl, rfl, rfl, rfl, rfl, fun side => ?_⟩
  cases side <;> simp [h0]

/-! ### One step -/

theorem tidy_watch (h : Tidy s) {current : Option (List α)} {cancelled : Bool}
    (hok : SnapshotSent s (.watch current cancelled)) (hn : s.notifying = []) :
    Tidy (s.watch current cancelled) := by
  refine ⟨h.alive, fun o x hx => ?_, fun m hm => by simp [State.watch, hn] at hm⟩
  simp only [State.watch, getElem?_append] at hx
  split at hx
  · exact h.fine o x hx
  · obtain rfl := mem_singleton.1 (mem_of_getElem? hx)
    refine ⟨fun _ => rfl, nofun, fun hc => ?_, rfl⟩
    have he := hok hc
    cases current with
    | none => rfl
    | some => simpa using he

theorem tidy_notify (h : Tidy s) (added removed : List α) : Tidy (s.notifyObservers added removed) := by
  refine ⟨h.alive, h.fine, fun m hm => ?_⟩
  simp only [State.notifyObservers, mem_append, mem_flatMap] at hm
  rcases hm with hm | ⟨⟨x, o⟩, hx, hm⟩
  · exact h.targets m hm
  rw [mem_zipIdx_iff_getElem?] at hx
  split at hm
  · rename_i hr
    have ho : m.observer = o := by
      rw [mem_append] at hm
      rcases hm with hm | hm <;> split at hm <;> simp_all
    exact ⟨x, ho ▸ hx, hr⟩
  · cases hm

theorem tidy_step {a : Action α} (hok : SnapshotSent s a) (hex : exec s a = some t) (h : Tidy s) :
    Tidy t := by
  unfold exec at hex
  rw [if_neg (by simp [h.alive])] at hex
  cases a with
  | watch current cancelled =>
    simp only at hex
    split at hex <;> cases hex
    rename_i hn
    exact tidy_watch h hok (List.isEmpty_iff.1 hn)
  | sendSnapshot o =>
    obtain ⟨x, hx, hex⟩ := bind_eq_some_iff.1 hex
    obtain ⟨v, hv, hex⟩ := bind_eq_some_iff.1 hex
    have hf := h.fine o x hx
    have hc : x.cleaned = false := by
      cases hc : x.cleaned with
      | false => rfl
      | true => cases hv.symm.trans (hf.sent (hf.cancelled hc))
    split at hex <;> cases hex
    have hy : Fine { x with snapshot := none } := ⟨hf.closings, hf.cancelled, fun _ => rfl, hf.registered⟩
    exact h.sendOn hx hy hc rfl _ _
  | snapshotDone o =>
    obtain ⟨x, hx, hex⟩ := bind_eq_some_iff.1 hex
    split at hex <;> cases hex
    rename_i hs
    simp only [Bool.and_eq_true] at hs
    -- the guard leaves no snapshot to a cancelled context
    rw [(h.fine o x hx).sent hs.1.2] at hs
    exact absurd hs.1.1 (by simp)
  | cancel o =>
    obtain ⟨x, hx, rfl⟩ := map_eq_some_iff.1 hex
    have hf := h.fine o x hx
    exact h.put hx ⟨hf.closings, fun _ => rfl, fun _ => hok x hx, hf.registered⟩ (.inl rfl)
  | cleanup o =>
    obtain ⟨x, hx, hex⟩ := bind_eq_some_iff.1 hex
    split at hex <;> cases hex
    rename_i hs
    simp only [Bool.and_eq_true, Bool.not_eq_true', List.isEmpty_iff] at hs
    obtain ⟨⟨hca, hcl⟩, hn⟩ := hs
    have hf := h.fine o x hx
    obtain ⟨y, he, hyc, hya, hys, hyr, hy⟩ := removeObserver_eq hf hcl s o
    rw [he]
    refine h.put hx ⟨fun side => ?_, fun _ => hya.trans hca, fun _ => hys.trans (hf.sent hca), ?_⟩ (.inr hn)
    · rw [hy, if_pos hyc]
    · rw [hyr, hyc]
      rfl
  | notify added removed =>
    cases hex
    exact tidy_notify h added removed
  | deliver k =>
    obtain ⟨m, hm, hex⟩ := bind_eq_some_iff.1 hex
    obtain ⟨x, hx, rfl⟩ := map_eq_some_iff.1 hex
    have hs : Tidy { s with notifying := s.notifying.eraseIdx k } :=
      ⟨h.alive, h.fine, fun m' hm' => h.targets m' (mem_of_mem_eraseIdx hm')⟩
    split
    · exact hs
    · obtain ⟨z, hz, hr⟩ := h.targets m (mem_of_getElem? hm)
      cases hx.symm.trans hz
      have hf := h.fine _ x hx
      exact hs.sendOn hx hf (by simpa [hr] using hf.registered.symm) rfl _ _
  | receive o =>
    obtain ⟨x, hx, hex⟩ := bind_eq_some_iff.1 hex
    split at hex <;> cases hex
    exact h.put hx ((h.fine o x hx).buffered rfl) (.inl rfl)

/-! ### All runs -/

/-- **Channels are closed once.** No panic; the channels of an observer are closed when its cancellation has
been handled, not before, and until then it can be; notifications that hold the lock are never blocked. -/
structure ClosedOnce (s : State α) : Prop where
  alive : s.panicked = false
  closings : ∀ (o : Nat) x, s.observers[o]? = some x →
    (∀ side, (x.chan side).closings = if x.cleaned then 1 else 0) ∧ (x.cleaned = true → x.cancelled = true)
  pending : ∀ (o : Nat) x, s.observers[o]? = some x → x.cancelled = true → x.cleaned = false →
    s.notifying = [] → ∃ t y, exec s (.cleanup o) = some t ∧ t.observers[o]? = some y ∧
      y.cleaned = true ∧ ∀ side, (y.chan side).closings = 1
  going : ∀ k < s.notifying.length, (exec s (.deliver k)).isSome

theorem Tidy.closedOnce (h : Tidy s) : ClosedOnce s := by
  refine ⟨h.alive, fun o x hx => ⟨(h.fine o x hx).closings, (h.fine o x hx).cancelled⟩,
    fun o x hx hca hcl hn => ?_, fun k hk => ?_⟩
  · obtain ⟨y, he, hyc, -, -, -, hy⟩ := removeObserver_eq (h.fine o x hx) hcl s o
    have hlt := (List.getElem?_eq_some_iff.1 hx).1
    refine ⟨s.put o y, y, ?_, by simp [State.put, hlt], hyc, hy⟩
    rw [← he]
    simp [exec, h.alive, hx, hca, hcl, hn]
  · obtain ⟨x, hx, -⟩ := h.targets _ (getElem_mem hk)
    simp [exec, h.alive, hk, hx]

/-- **In every run in which no context is cancelled under a snapshot still to be sent, channels are
closed once.** -/
theorem closed_once (h : Reaches exec SnapshotSent ({} : State α) s) : ClosedOnce s := by
  refine Tidy.closedOnce (h.invariant (I := Tidy) ⟨rfl, by simp, by simp⟩ ?_)
  exact fun _ _ _ hok hex hi => tidy_step hok hex hi

instance (s : State α) : (a : Action α) → Decidable (SnapshotSent s a) := by
  intro a
  unfold SnapshotSent
  split <;> infer_instance

theorem closed_once_after_snapshot : ∃ s : State Nat,
    (s.observers.map fun x => ((x.chan .added).closings, (x.chan .removed).closings)) = [(1, 1), (0, 0)] ∧
      ClosedOnce s := by
  have hr : ∃ s ∈ runAll exec SnapshotSent ({} : State Nat) [.watch (some [1]) false, .sendSnapshot 0,
      .watch (some [1]) false, .notify [2] [1], .deliver 1, .deliver 0, .cancel 0, .deliver 0, .deliver 0,
      .cleanup 0], (s.observers.map fun x => ((x.chan .added).closings, (x.chan .removed).closings))
        = [(1, 1), (0, 0)] := by decide
  obtain ⟨s, hs, hc⟩ := Reaches.of_exists hr
  exact ⟨s, hc, closed_once hs⟩

/-- **The context is cancelled before the snapshot has been sent**: one goroutine removes the observer,
and the other one sends on the closed channel. -/
theorem cancelled_before_snapshot : ¬ ∀ s : State Nat, Reaches exec free {} s → ClosedOnce s := by
  intro ha
  have hr : ∃ s ∈ runAll exec free ({} : State Nat)
      [.watch (some [1]) false, .cancel 0, .cleanup 0, .sendSnapshot 0], s.panicked = true := by decide
  obtain ⟨s, hs, hp⟩ := Reaches.of_exists hr
  cases hp.symm.trans ((ha s hs).alive)

end Llumnix.Watcher
