/-
**Processes that interleave over a shared store.**

Processes run programs in the sense of `Llumnix/Interaction.lean` against one store.  A process starts a
program when it is idle, issues its commands one at a time, may crash between any two of them, and is idle
again once the program has ended; meanwhile the environment may change the store on its own.  Each command
takes effect atomically, and an action carries every choice that is not the program's.

The history of the program a process is running is kept along with it, which gives every process its phase
in a protocol (each process may have its own).

* `Processes.phase_invariant` — **the invariant rule**: to prove an invariant of the store and of the
  phases, look at one command at a time.
-/

import Llumnix.GuardedRun
import Llumnix.Interaction
import Mathlib.Logic.Function.Basic

namespace Processes

open GuardedRun Interaction Function Option

/-- **A machine**: processes `I`, asked to work on inputs `J`, issue commands `C` with answers `R` to a store
`S`, which makes choices `K`; `E` are the actions of the environment. -/
structure Machine (S C : Type) (R : C → Type) (I J K E : Type) where
  /-- What a process runs when it is asked to work on an input. -/
  program : I → J → Prog C R Unit
  /-- What a command does and answers. -/
  step : S → (c : C) → K → Option (S × R c)
  env : S → E → Option S

section

variable {S C : Type} {R : C → Type} {I J K E : Type}

/-- The store, the rest of the program of every process, and what the program has done so far, the
latest command first. -/
structure Config (S C : Type) (R : C → Type) (I : Type) where
  store : S
  procs : I → Prog C R Unit
  trace : I → List ((c : C) × R c)

def Config.idle (s : S) : Config S C R I where
  store := s
  procs _ := .ret ()
  trace _ := []

inductive Action (I J K E : Type)
  | spawn (i : I) (j : J)
  | run (i : I) (k : K)
  | crash (i : I)
  | env (e : E)

/-- The command a process issues next. -/
def Config.next (σ : Config S C R I) (i : I) : Option C :=
  match σ.procs i with
  | .ret _ => none
  | .cmd c _ => some c

variable [DecidableEq I]

/-- The process goes on with `p`, after the commands `h`; a program that has ended leaves no history. -/
def Config.resume (σ : Config S C R I) (i : I) (p : Prog C R Unit) (h : List ((c : C) × R c)) :
    Config S C R I :=
  { σ with
    procs := Function.update σ.procs i p
    trace := Function.update σ.trace i (if p.done then [] else h) }

def exec (M : Machine S C R I J K E) (σ : Config S C R I) : Action I J K E → Option (Config S C R I)
  | .spawn i j => if (σ.procs i).done then some (σ.resume i (M.program i j) []) else none
  | .run i k =>
    match σ.procs i with
    | .ret _ => none
    | .cmd c next => (M.step σ.store c k).map fun sr =>
      ({ σ with store := sr.1 } : Config S C R I).resume i (next sr.2) (⟨c, sr.2⟩ :: σ.trace i)
  | .crash i => if (σ.procs i).done then none else some (σ.resume i (.ret ()) [])
  | .env e => (M.env σ.store e).map fun s => { σ with store := s }

variable {G : Type} {P : I → Protocol C R G} {M : Machine S C R I J K E}

def phaseOf (P : Protocol C R G) (h : List ((c : C) × R c)) : G :=
  h.foldr (fun e g => P.advance g e.1 e.2) P.start

/-- **The phase of a process** in its own protocol. -/
def Config.phase (P : I → Protocol C R G) (σ : Config S C R I) (i : I) : G :=
  phaseOf (P i) (σ.trace i)

@[simp] theorem resume_store (σ : Config S C R I) (i : I) (p : Prog C R Unit)
    (h : List ((c : C) × R c)) : (σ.resume i p h).store = σ.store := rfl

theorem phase_resume (σ : Config S C R I) (i : I) (p : Prog C R Unit) (h : List ((c : C) × R c)) :
    (σ.resume i p h).phase P = update (σ.phase P) i (if p.done then (P i).start else phaseOf (P i) h) := by
  funext j
  by_cases hj : j = i
  · subst hj
    cases hp : p.done <;> simp [Config.phase, Config.resume, hp, phaseOf]
  · simp [Config.phase, Config.resume, hj]

/-- Every process follows its protocol from its phase and will end in a final phase. -/
def Config.Obeys (P : I → Protocol C R G) (σ : Config S C R I) : Prop :=
  ∀ i, (σ.procs i).done ∧ σ.phase P i = (P i).start ∨
    (σ.procs i).Follows (P i) (fun g _ => (P i).final g) (σ.phase P i)

omit [DecidableEq I] in
theorem obeys_idle (s : S) : (Config.idle s : Config S C R I).Obeys P := fun _ => .inl ⟨rfl, rfl⟩

theorem Config.Obeys.resume {σ : Config S C R I} (h : σ.Obeys P) {i : I} {p : Prog C R Unit}
    {hi : List ((c : C) × R c)} (hp : p.Follows (P i) (fun g _ => (P i).final g) (phaseOf (P i) hi)) :
    (σ.resume i p hi).Obeys P := by
  intro j
  rw [phase_resume]
  by_cases hj : j = i
  · subst hj
    simp only [Config.resume, update_self]
    cases hd : p.done with
    | true => exact .inl ⟨rfl, rfl⟩
    | false => exact .inr (by simpa using hp)
  · simp only [Config.resume, update_of_ne hj]
    exact h j

omit [DecidableEq I] in
/-- What a process is about to issue is allowed in its phase, and what it goes on with follows the
protocol. -/
theorem Config.Obeys.cmd {σ : Config S C R I} (h : σ.Obeys P) {i : I} {c : C}
    {next : R c → Prog C R Unit} (hi : σ.procs i = .cmd c next) : (P i).allowed (σ.phase P i) c ∧
      ∀ r, (next r).Follows (P i) (fun g _ => (P i).final g) ((P i).advance (σ.phase P i) c r) := by
  rcases h i with ⟨hdo, -⟩ | hf
  · rw [hi] at hdo
    cases hdo
  · rw [hi] at hf
    exact hf

end

section

variable {S C : Type} {R : C → Type} {I J K E : Type} [DecidableEq I] {G : Type}
  {P : I → Protocol C R G} {M : Machine S C R I J K E}
  {ok : Config S C R I → Action I J K E → Prop}

/-- Whatever gets started follows its protocol. -/
abbrev Follow (M : Machine S C R I J K E) (ok : Config S C R I → Action I J K E → Prop)
    (P : I → Protocol C R G) : Prop :=
  ∀ σ i j, ok σ (.spawn i j) → (M.program i j).Follows (P i) (fun g _ => (P i).final g) (P i).start

theorem obeys_step (hp : Follow M ok P) {σ σ' : Config S C R I} {a : Action I J K E} (hok : ok σ a)
    (hex : exec M σ a = some σ') (h : σ.Obeys P) : σ'.Obeys P := by
  cases a with
  | spawn i j =>
    simp only [exec] at hex
    split at hex <;> cases hex
    exact h.resume (hp σ i j hok)
  | run i k =>
    simp only [exec] at hex
    split at hex
    · cases hex
    · rename_i c next hi
      obtain ⟨⟨s, r⟩, -, rfl⟩ := map_eq_some_iff.1 hex
      have hs : ({ σ with store := s } : Config S C R I).Obeys P := h
      exact hs.resume ((h.cmd hi).2 r)
  | crash i =>
    simp only [exec] at hex
    split at hex <;> cases hex
    intro j
    rw [phase_resume]
    by_cases hj : j = i
    · subst hj
      exact .inl ⟨by simp [Config.resume, Prog.done], by simp [Prog.done]⟩
    · simp only [Config.resume, update_of_ne hj]
      exact h j
  | env =>
    obtain ⟨s, -, rfl⟩ := map_eq_some_iff.1 hex
    exact h

/-- **In every configuration reached, the processes obey the protocol.** -/
theorem follows_of_reaches (hp : Follow M ok P) {σ₀ σ : Config S C R I} (h : Reaches (exec M) ok σ₀ σ)
    (h₀ : σ₀.Obeys P) : σ.Obeys P :=
  h.invariant h₀ fun _ _ _ hok hex ho => obeys_step hp hok hex ho

/-- **The invariant rule** for a `Q` about the store and the phases: it holds at the start, and every command
a phase allows, forgetting a process, and the environment keep it. -/
theorem phase_invariant {Q : S → (I → G) → Prop} (hpr : Follow M ok P)
    (hr : ∀ σ i c k s r, ok σ (.run i k) → σ.next i = some c → (P i).allowed (σ.phase P i) c →
      M.step σ.store c k = some (s, r) → Q σ.store (σ.phase P) →
        Q s (update (σ.phase P) i ((P i).advance (σ.phase P i) c r)))
    (he : ∀ s φ i, (P i).final (φ i) → Q s φ → Q s (update φ i (P i).start))
    (hc : ∀ σ i, ok σ (.crash i) → Q σ.store (σ.phase P) → Q σ.store (update (σ.phase P) i (P i).start))
    (hen : ∀ σ e s, ok σ (.env e) → M.env σ.store e = some s → Q σ.store (σ.phase P) → Q s (σ.phase P))
    {σ₀ σ : Config S C R I} (h : Reaches (exec M) ok σ₀ σ) (h₀ : σ₀.Obeys P)
    (hini : Q σ₀.store (σ₀.phase P)) : Q σ.store (σ.phase P) := by
  suffices hb : σ.Obeys P ∧ Q σ.store (σ.phase P) from hb.2
  refine h.invariant (I := fun σ => σ.Obeys P ∧ Q σ.store (σ.phase P)) ⟨h₀, hini⟩ ?_
  rintro σ a σ' hok hex ⟨ho, hin⟩
  refine ⟨obeys_step hpr hok hex ho, ?_⟩
  cases a with
  | spawn i j =>
    simp only [exec] at hex
    split at hex <;> cases hex
    rename_i hid
    rw [phase_resume]
    -- an idle process is in the initial phase already, or it has ended in a final one
    have hs : Q σ.store (update (σ.phase P) i (P i).start) := by
      rcases ho i with ⟨-, hph⟩ | hf
      · rw [← hph, update_eq_self]
        exact hin
      · refine he _ _ i ?_ hin
        cases hp : σ.procs i with
        | ret => rw [hp] at hf; exact hf
        | cmd => rw [hp] at hid; cases hid
    have hsa : (if (M.program i j).done then (P i).start else phaseOf (P i) []) = (P i).start := by
      split <;> rfl
    rw [hsa]
    exact hs
  | run i k =>
    simp only [exec] at hex
    split at hex <;> try cases hex
    rename_i c next hi
    obtain ⟨⟨s, r⟩, hst, rfl⟩ := map_eq_some_iff.1 hex
    have hne : σ.next i = some c := by rw [Config.next, hi]
    have hi' := hr σ i c k s r hok hne (ho.cmd hi).1 hst hin
    rw [phase_resume]
    have hph : ({ σ with store := s } : Config S C R I).phase P = σ.phase P := rfl
    rw [hph]
    cases hd : (next r).done with
    | false =>
      simp only [Bool.false_eq_true, if_false]
      exact hi'
    | true =>
      -- the program has ended, so the phase it ended in is final
      have hfi : (P i).final ((P i).advance (σ.phase P i) c r) := by
        have hf := (ho.cmd hi).2 r
        cases hn : next r with
        | ret => rw [hn] at hf; exact hf
        | cmd => rw [hn] at hd; cases hd
      have hdr := he s _ i (by simpa using hfi) hi'
      simpa [hd] using hdr
  | crash i =>
    simp only [exec] at hex
    split at hex <;> cases hex
    rw [phase_resume]
    simpa [Prog.done] using hc σ i hok hin
  | env e =>
    obtain ⟨s, he', rfl⟩ := map_eq_some_iff.1 hex
    exact hen σ e s hok he' hin

end

/-! ### Two protocols at once -/

section

variable {S C : Type} {R : C → Type} {I J K E : Type} {G H : Type}
  {P : I → Protocol C R G} {P' : I → Protocol C R H} {M : Machine S C R I J K E}

theorem phaseOf_prod (P : Protocol C R G) (P' : Protocol C R H) (h : List ((c : C) × R c)) :
    phaseOf (P.prod P') h = (phaseOf P h, phaseOf P' h) := by
  induction h with
  | nil => rfl
  | cons e h ih =>
    change (P.prod P').advance (phaseOf (P.prod P') h) e.1 e.2 = _
    rw [ih]
    rfl

theorem phase_prod (P : I → Protocol C R G) (P' : I → Protocol C R H) (σ : Config S C R I) :
    Prod.fst ∘ σ.phase (fun i => (P i).prod (P' i)) = σ.phase P ∧
      Prod.snd ∘ σ.phase (fun i => (P i).prod (P' i)) = σ.phase P' :=
  ⟨funext fun i => congrArg Prod.fst (phaseOf_prod (P i) (P' i) (σ.trace i)),
    funext fun i => congrArg Prod.snd (phaseOf_prod (P i) (P' i) (σ.trace i))⟩

variable [DecidableEq I] {ok : Config S C R I → Action I J K E → Prop}

/-- **The invariant rule for two protocols**, if the programs follow both of them. -/
theorem phase_invariant_prod {Q : S → (I → G) → (I → H) → Prop} (hp : Follow M ok P) (hp' : Follow M ok P')
    (hr : ∀ σ i c k s r, ok σ (.run i k) → σ.next i = some c →
      (P i).allowed (σ.phase P i) c → (P' i).allowed (σ.phase P' i) c →
      M.step σ.store c k = some (s, r) → Q σ.store (σ.phase P) (σ.phase P') →
        Q s (update (σ.phase P) i ((P i).advance (σ.phase P i) c r))
          (update (σ.phase P') i ((P' i).advance (σ.phase P' i) c r))) (hfo : ∀ s φ ψ i, Q s φ ψ →
      Q s (update φ i (P i).start) (update ψ i (P' i).start))
    (he : ∀ σ e s, ok σ (.env e) → M.env σ.store e = some s →
      Q σ.store (σ.phase P) (σ.phase P') → Q s (σ.phase P) (σ.phase P'))
    {σ₀ σ : Config S C R I} (h : Reaches (exec M) ok σ₀ σ)
    (h₀ : σ₀.Obeys fun i => (P i).prod (P' i)) (hin : Q σ₀.store (σ₀.phase P) (σ₀.phase P')) :
    Q σ.store (σ.phase P) (σ.phase P') := by
  have hf' : ∀ s Φ i, Q s (Prod.fst ∘ Φ) (Prod.snd ∘ Φ) →
      Q s (Prod.fst ∘ update Φ i ((P i).prod (P' i)).start)
        (Prod.snd ∘ update Φ i ((P i).prod (P' i)).start) := by
    intro s Φ i hQ
    rw [comp_update, comp_update]
    exact hfo s _ _ i hQ
  have hpr := phase_invariant (P := fun i => (P i).prod (P' i))
    (Q := fun s Φ => Q s (Prod.fst ∘ Φ) (Prod.snd ∘ Φ))
    (fun σ i j hok => (hp σ i j hok).prod (hp' σ i j hok)) ?_
    (fun s Φ i _ => hf' s Φ i) (fun σ i _ => hf' σ.store _ i) ?_ h h₀ ?_
  · obtain ⟨hf, hs⟩ := phase_prod P P' σ
    rwa [hf, hs] at hpr
  · intro σ i c k s r hok hn ha hst hQ
    obtain ⟨hf, hs⟩ := phase_prod P P' σ
    rw [hf, hs] at hQ
    rw [comp_update, comp_update, hf, hs]
    have hi : σ.phase (fun i => (P i).prod (P' i)) i = (σ.phase P i, σ.phase P' i) := phaseOf_prod _ _ _
    rw [hi] at ha ⊢
    exact hr σ i c k s r hok hn ha.1 ha.2 hst hQ
  · intro σ e s hok hex hQ
    obtain ⟨hf, hs⟩ := phase_prod P P' σ
    rw [hf, hs] at hQ ⊢
    exact he σ e s hok hex hQ
  · obtain ⟨hf, hs⟩ := phase_prod P P' σ₀
    rwa [hf, hs]

end

end Processes
