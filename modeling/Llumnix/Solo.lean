/-
**A program running alone.**

Between two commands nobody else touches the store.  The history of such a run lists every command with the
choice that came with it.  What a run ends with is proved along the syntax of the program, by a weakest
precondition that assumes something about the choices.

* `Interaction.Prog.Ends.sound` — **a run ends with what has been proved of it**.
-/

import Llumnix.Processes

namespace Interaction.Prog

variable {S C K : Type} {R : C → Type} {α β : Type} {step : S → (c : C) → K → Option (S × R c)}

/-- **The program runs alone** from `s` to `s'` and returns `a`; the history lists its commands with the
choices that came with them. -/
inductive Solo (step : S → (c : C) → K → Option (S × R c)) {α : Type} :
    Prog C R α → S → List (C × K) → S → α → Prop
  | ret {s : S} {a : α} : Solo step (.ret a) s [] s a
  | cmd {c : C} {next : R c → Prog C R α} {s s₁ s' : S} {k : K} {r : R c} {h : List (C × K)} {a : α} :
      step s c k = some (s₁, r) → Solo step (next r) s₁ h s' a →
        Solo step (.cmd c next) s ((c, k) :: h) s' a

/-- Running a program alone on a list of choices, with the history of the run. -/
def solo (step : S → (c : C) → K → Option (S × R c)) {α : Type} :
    Prog C R α → S → List K → Option (List (C × K) × S × α)
  | .ret a, s, [] => some ([], s, a)
  | .ret _, _, _ :: _ => none
  | .cmd _ _, _, [] => none
  | .cmd c next, s, k :: ks =>
    (step s c k).bind fun sr => (solo step (next sr.2) sr.1 ks).map fun r => ((c, k) :: r.1, r.2)

theorem Solo.of_solo : ∀ {p : Prog C R α} {s : S} {ks : List K} {r : List (C × K) × S × α},
    solo step p s ks = some r → Solo step p s r.1 r.2.1 r.2.2
  | .ret _, _, [], _, h => by
      cases h
      exact .ret
  | .ret _, _, _ :: _, _, h => by cases h
  | .cmd _ _, _, [], _, h => by cases h
  | .cmd _ _, _, _ :: _, _, h => by
      obtain ⟨sr, hs, h⟩ := Option.bind_eq_some_iff.1 h
      obtain ⟨r, hr, rfl⟩ := Option.map_eq_some_iff.1 h
      exact .cmd hs (Solo.of_solo hr)

/-- **The weakest precondition**: if all choices are `ok`, then the program ends with `Q`. -/
def Ends (step : S → (c : C) → K → Option (S × R c)) (ok : C → K → Prop) (Q : S → α → Prop) :
    S → Prog C R α → Prop
  | s, .ret a => Q s a
  | s, .cmd c next => ∀ k s₁ r, ok c k → step s c k = some (s₁, r) → Ends step ok Q s₁ (next r)

variable {ok : C → K → Prop}

theorem Ends.mono {Q Q' : S → α → Prop} (hle : ∀ s a, Q s a → Q' s a) :
    ∀ {p : Prog C R α} {s : S}, Ends step ok Q s p → Ends step ok Q' s p
  | .ret a, s, h => hle s a h
  | .cmd _ _, _, h => fun k s₁ r hok hs => Ends.mono hle (h k s₁ r hok hs)

/-- **Sequencing.** -/
theorem Ends.bind {Q : S → β → Prop} {f : α → Prog C R β} :
    ∀ {p : Prog C R α} {s : S}, Ends step ok (fun s' a => Ends step ok Q s' (f a)) s p →
      Ends step ok Q s (p >>= f)
  | .ret _, _, h => h
  | .cmd _ _, _, h => fun k s₁ r hok hs => Ends.bind (h k s₁ r hok hs)

/-- **Sequencing with early exit.** -/
theorem Ends.bindE {ε : Type} {Q : S → Except ε β → Prop} {f : α → ExceptT ε (Prog C R) β}
    {p : ExceptT ε (Prog C R) α} {s : S}
    (h : Ends step ok (fun s' x => match x with
      | .ok a => Ends step ok Q s' (f a).run
      | .error e => Q s' (.error e)) s p.run) :
    Ends step ok Q s (p >>= f).run := by
  refine Ends.bind (Ends.mono ?_ h)
  intro s' x hx
  cases x with
  | ok | error => exact hx

/-- **Commands that keep an invariant** keep it to the end. -/
theorem Uses.ends {N : C → Prop} {I : S → Prop}
    (hN : ∀ s c k s₁ r, N c → ok c k → step s c k = some (s₁, r) → I s → I s₁) :
    ∀ {p : Prog C R α} {s : S}, Uses N p → I s → Ends step ok (fun s' _ => I s') s p
  | .ret _, _, _, hs => hs
  | .cmd c _, s, hp, hs => fun k s₁ r hok hst =>
    Uses.ends hN (hp.2 r) (hN s c k s₁ r hp.1 hok hst hs)

/-- **A run ends with what has been proved of it.** -/
theorem Ends.sound {Q : S → α → Prop} {p : Prog C R α} {s s' : S} {h : List (C × K)} {a : α}
    (hen : Ends step ok Q s p) (hr : Solo step p s h s' a) (hok : ∀ e ∈ h, ok e.1 e.2) : Q s' a := by
  induction hr with
  | ret => exact hen
  | cmd hs _ ih =>
    exact ih (hen _ _ _ (hok _ List.mem_cons_self) hs) fun e he =>
      hok e (List.mem_cons_of_mem _ he)

end Interaction.Prog
