/-
**Runs of a labelled transition system, with and without a guard on the steps.**

A system is a partial function `exec : S → A → Option S`: the action `a` carries every choice the
environment makes, and `exec s a = none` says that it is not possible in `s`.  Where a program only meets
its contract while some bad step is not taken, its properties are stated over the runs whose steps all
satisfy a guard `ok : S → A → Prop`, which looks at the action and at the state before it.

* `GuardedRun.Reaches exec ok s t` — `t` is reached from `s` by steps that satisfy the guard;
* `GuardedRun.Reaches.invariant` — what holds initially and is preserved by every guarded step holds in
  every state reached;
* `GuardedRun.Reaches.of_runAll` — a list of actions that runs through is a run.
-/

import Mathlib.Logic.Basic

namespace GuardedRun

universe u v

variable {S : Type u} {A : Type v} {exec : S → A → Option S} {ok : S → A → Prop}

/-- **The states reached from `s`** by actions that the guard admits. -/
inductive Reaches (exec : S → A → Option S) (ok : S → A → Prop) (s : S) : S → Prop
  | refl : Reaches exec ok s s
  | step {t u : S} {a : A} : Reaches exec ok s t → ok t a → exec t a = some u →
      Reaches exec ok s u

/-- The guard that admits every action. -/
def free : S → A → Prop := fun _ _ => True

instance (s : S) (a : A) : Decidable (free s a) := inferInstanceAs (Decidable True)

/-- **The invariant rule.** -/
theorem Reaches.invariant {I : S → Prop} {s t : S} (h : Reaches exec ok s t) (h₀ : I s)
    (hs : ∀ t a u, ok t a → exec t a = some u → I t → I u) : I t := by
  induction h with
  | refl => exact h₀
  | step _ hok hex ih => exact hs _ _ _ hok hex ih

theorem Reaches.trans {s t u : S} (h : Reaches exec ok s t) (h' : Reaches exec ok t u) :
    Reaches exec ok s u := by
  induction h' with
  | refl => exact h
  | step _ hok hex ih => exact ih.step hok hex

theorem Reaches.mono {ok' : S → A → Prop} (hle : ∀ s a, ok s a → ok' s a) {s t : S}
    (h : Reaches exec ok s t) : Reaches exec ok' s t := by
  induction h with
  | refl => exact .refl
  | step _ hok hex ih => exact ih.step (hle _ _ hok) hex

/-- Running a list of actions, checking the guard before each of them. -/
def runAll (exec : S → A → Option S) (ok : S → A → Prop) [∀ s a, Decidable (ok s a)] :
    S → List A → Option S
  | s, [] => some s
  | s, a :: as => if ok s a then (exec s a).bind fun t => runAll exec ok t as else none

theorem Reaches.of_runAll [∀ s a, Decidable (ok s a)] :
    ∀ (as : List A) {s t : S}, runAll exec ok s as = some t → Reaches exec ok s t
  | [], s, t, h => by
      simp only [runAll, Option.some.injEq] at h
      subst h
      exact .refl
  | a :: as, s, t, h => by
      rw [runAll] at h
      split at h
      · rename_i hok
        obtain ⟨u, hu, ht⟩ := Option.bind_eq_some_iff.1 h
        exact (Reaches.refl.step hok hu).trans (Reaches.of_runAll as ht)
      · exact absurd h (by simp)

/-- A state that a list of actions leads to, with what was computed of it. -/
theorem Reaches.of_exists [∀ s a, Decidable (ok s a)] {l : List A} {P : S → Prop} {s : S}
    (h : ∃ t ∈ runAll exec ok s l, P t) : ∃ t, Reaches exec ok s t ∧ P t := by
  obtain ⟨t, ht, hp⟩ := h
  exact ⟨t, .of_runAll l ht, hp⟩

/-- The same, with what holds of every state that is reached. -/
theorem Reaches.exists_and [∀ s a, Decidable (ok s a)] {l : List A} {P Q : S → Prop} {s : S}
    (h : ∃ t ∈ runAll exec ok s l, P t) (hq : ∀ t, Reaches exec ok s t → Q t) :
    ∃ t, Reaches exec ok s t ∧ P t ∧ Q t := by
  obtain ⟨t, ht, hp⟩ := Reaches.of_exists h
  exact ⟨t, ht, hp, hq t ht⟩

end GuardedRun
