/-
**What every maximal run of a transition system comes to.**

`Inevitable exec ok P s` says that every maximal run from `s` whose steps satisfy the guard `ok` reaches a
state with `P`: either `P` holds already, or the run cannot end here and every step the guard admits leads
to a state from which `P` is inevitable.  Being inductive, the definition leaves no room for a run that goes
on forever without reaching `P`.

* `GuardedRun.Inevitable.of_decreasing` — **the rule**: an invariant under which the run cannot end before
  `P`, and a well-founded quantity that every step decreases.
-/

import Llumnix.GuardedRun

namespace GuardedRun

universe u v w

variable {S : Type u} {A : Type v} {exec : S → A → Option S} {ok : S → A → Prop} {P : S → Prop}

/-- **Every maximal run from `s` under the guard reaches `P`.** -/
inductive Inevitable (exec : S → A → Option S) (ok : S → A → Prop) (P : S → Prop) : S → Prop
  | now {s : S} : P s → Inevitable exec ok P s
  | later {s : S} : (∃ a t, exec s a = some t) →
      (∀ a t, ok s a → exec s a = some t → Inevitable exec ok P t) → Inevitable exec ok P s

theorem Inevitable.of_decreasing {I : S → Prop} {W : Type w} {r : W → W → Prop} (hwf : WellFounded r)
    (rank : S → W) (hm : ∀ s, I s → ¬ P s → ∃ a t, exec s a = some t)
    (hst : ∀ s a t, I s → ¬ P s → ok s a → exec s a = some t → I t ∧ r (rank t) (rank s)) :
    ∀ {s : S}, I s → Inevitable exec ok P s := by
  intro s hs
  induction hr : rank s using hwf.induction generalizing s with
  | _ n ih =>
  subst hr
  by_cases hP : P s
  · exact .now hP
  · refine .later (hm s hs hP) fun a t hok hex => ?_
    obtain ⟨ht, hlt⟩ := hst s a t hs hP hok hex
    exact ih _ hlt ht rfl

/-- **A trap**: no step leaves `T`, and `P` holds nowhere in it. -/
theorem not_inevitable_of_trap {T : S → Prop} (hT : ∀ s a t, T s → exec s a = some t → ok s a ∧ T t)
    (hP : ∀ s, T s → ¬ P s) {s : S} (hs : T s) : ¬ Inevitable exec ok P s := by
  intro h
  induction h with
  | now h => exact hP _ hs h
  | later hm _ ih =>
    obtain ⟨a, t, hex⟩ := hm
    obtain ⟨hok, ht⟩ := hT _ a t hs hex
    exact ih a t hok hex ht

theorem Inevitable.of_reaches {s t : S} (h : Inevitable exec ok P s)
    (hr : Reaches exec (fun s a => ok s a ∧ ¬ P s) s t) : Inevitable exec ok P t := by
  induction hr with
  | refl => exact h
  | step _ hok hex ih =>
    cases ih with
    | now hP => exact absurd hP hok.2
    | later _ ha => exact ha _ _ hok.1 hex

end GuardedRun
