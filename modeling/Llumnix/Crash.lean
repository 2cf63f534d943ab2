/-
**Programs that stop anywhere.**

A program that runs alone can stop after any of its commands.  `Prog.Safe` is a weakest precondition with a
condition `I` that holds whenever the program may stop, and a postcondition `Q` for the runs that come to
the end.  Both may look at the commands that have been issued so far, the latest one first.

* `Interaction.Prog.Safe.stopped` — **what holds where a run stops**.
-/

import Llumnix.Solo

namespace Interaction.Prog

variable {S C K : Type} {R : C → Type} {α β : Type} {step : S → (c : C) → K → Option (S × R c)}
  {ok : C → K → Prop}
variable {Q : List C → S → α → Prop}
variable {ε : Type} {f : α → ExceptT ε (Prog C R) β} {p : Prog C R α}

/-- **The program has stopped** in `s'` after the commands of the history, perhaps before its end. -/
inductive Stopped (step : S → (c : C) → K → Option (S × R c)) {α : Type} :
    Prog C R α → S → List (C × K) → S → Prop
  | here {p : Prog C R α} {s : S} : Stopped step p s [] s
  | cmd {c : C} {next : R c → Prog C R α} {s s₁ s' : S} {k : K} {r : R c} {h : List (C × K)} :
      step s c k = some (s₁, r) → Stopped step (next r) s₁ h s' →
        Stopped step (.cmd c next) s ((c, k) :: h) s'

/-- Running a program on a list of choices, and stopping when they are used up. -/
def stopAfter (step : S → (c : C) → K → Option (S × R c)) {α : Type} :
    Prog C R α → S → List K → Option (List (C × K) × S)
  | _, s, [] => some ([], s)
  | .ret _, _, _ :: _ => none
  | .cmd c next, s, k :: ks =>
    (step s c k).bind fun sr => (stopAfter step (next sr.2) sr.1 ks).map fun r => ((c, k) :: r.1, r.2)

theorem Stopped.of_stopAfter : ∀ {p : Prog C R α} {s : S} {ks : List K} {r : List (C × K) × S},
    stopAfter step p s ks = some r → Stopped step p s r.1 r.2
  | .ret _, _, [], _, h => by
      cases h
      exact .here
  | .cmd _ _, _, [], _, h => by
      cases h
      exact .here
  | .ret _, _, _ :: _, _, h => by cases h
  | .cmd _ _, _, _ :: _, _, h => by
      obtain ⟨sr, hs, h⟩ := Option.bind_eq_some_iff.1 h
      obtain ⟨r, hr, rfl⟩ := Option.map_eq_some_iff.1 h
      exact .cmd hs (Stopped.of_stopAfter hr)

/-- **The precondition**: if all choices are `ok`, then `I` holds wherever the program stops, and `Q` at its
end. -/
def Safe (step : S → (c : C) → K → Option (S × R c)) (ok : C → K → Prop) (I : List C → S → Prop)
    (Q : List C → S → α → Prop) : List C → S → Prog C R α → Prop
  | past, s, .ret a => I past s ∧ Q past s a
  | past, s, .cmd c next => I past s ∧
      ∀ k s₁ r, ok c k → step s c k = some (s₁, r) → Safe step ok I Q (c :: past) s₁ (next r)

variable {I : List C → S → Prop} {past : List C} {s : S}

theorem Safe.now : ∀ {p : Prog C R α}, Safe step ok I Q past s p → I past s
  | .ret _, h => h.1
  | .cmd _ _, h => h.1

theorem Safe.mono {Q' : List C → S → α → Prop} (hle : ∀ past s a, I past s → Q past s a → Q' past s a) :
    ∀ {p : Prog C R α} {past : List C} {s : S}, Safe step ok I Q past s p → Safe step ok I Q' past s p
  | .ret a, past, s, h => ⟨h.1, hle past s a h.1 h.2⟩
  | .cmd _ _, _, _, h => ⟨h.1, fun k s₁ r hok hs => Safe.mono hle (h.2 k s₁ r hok hs)⟩

/-- **Sequencing.** -/
theorem Safe.bind {Q : List C → S → β → Prop} {f : α → Prog C R β} :
    ∀ {p : Prog C R α} {past : List C} {s : S},
      Safe step ok I (fun past' s' a => Safe step ok I Q past' s' (f a)) past s p →
        Safe step ok I Q past s (p >>= f)
  | .ret _, _, _, h => h.2
  | .cmd _ _, _, _, h => ⟨h.1, fun k s₁ r hok hs => Safe.bind (h.2 k s₁ r hok hs)⟩

/-- **Sequencing with early exit.** -/
theorem Safe.bindE {Q : List C → S → Except ε β → Prop} {p : ExceptT ε (Prog C R) α}
    (h : Safe step ok I (fun past' s' x => match x with
      | .ok a => Safe step ok I Q past' s' (f a).run
      | .error e => Q past' s' (.error e)) past s p.run) : Safe step ok I Q past s (p >>= f).run := by
  refine Safe.bind (Safe.mono ?_ h)
  intro past' s' x hI hx
  cases x with
  | ok => exact hx
  | error => exact ⟨hI, hx⟩

theorem Safe.liftE {Q : List C → S → Except ε β → Prop}
    (h : Safe step ok I (fun past' s' a => Safe step ok I Q past' s' (f a).run) past s p) :
    Safe step ok I Q past s ((ExceptT.lift p : ExceptT ε (Prog C R) α) >>= f).run := by
  refine Safe.bindE (Safe.bind (Safe.mono ?_ h))
  intro past' s' a hI ha
  exact ⟨hI, ha⟩

/-- A stronger invariant, which holds at the end, too. -/
theorem Safe.weaken {I' : List C → S → Prop} (hle : ∀ past s, I past s → I' past s) :
    ∀ {p : Prog C R α} {past : List C} {s : S}, Safe step ok I Q past s p →
      Safe step ok I' (fun past s a => I past s ∧ Q past s a) past s p
  | .ret _, past, s, h => ⟨hle past s h.1, h⟩
  | .cmd _ _, past, s, h => ⟨hle past s h.1, fun k s₁ r hok hs => Safe.weaken hle (h.2 k s₁ r hok hs)⟩

/-- **A run ends with what has been proved of it.** -/
theorem Safe.ends {Q' : S → α → Prop} (hle : ∀ past s a, Q past s a → Q' s a) :
    ∀ {p : Prog C R α} {past : List C} {s : S}, Safe step ok I Q past s p → Ends step ok Q' s p
  | .ret a, past, s, h => hle past s a h.2
  | .cmd _ _, _, _, h => fun k s₁ r hok hs => Safe.ends hle (h.2 k s₁ r hok hs)

/-- **Wherever a run stops, what has been proved of it holds.** -/
theorem Safe.stopped {s' : S} {h : List (C × K)} (hs : Safe step ok I Q past s p)
    (hr : Stopped step p s h s') (hok : ∀ e ∈ h, ok e.1 e.2) : I ((h.map Prod.fst).reverse ++ past) s' := by
  induction hr generalizing past with
  | here => exact hs.now
  | cmd hst _ ih =>
    have hn := hs.2 _ _ _ (hok _ List.mem_cons_self) hst
    have hI := ih hn fun e he => hok e (List.mem_cons_of_mem _ he)
    simpa using hI

/-- **A program whose commands can always be answered comes to its end.** -/
theorem exists_solo (h : ∀ s c, ∃ k s' r, ok c k ∧ step s c k = some (s', r)) :
    ∀ (p : Prog C R α) (s : S), ∃ hi s' a, Solo step p s hi s' a ∧ ∀ e ∈ hi, ok e.1 e.2
  | .ret a, s => ⟨[], s, a, .ret, by simp⟩
  | .cmd c next, s => by
      obtain ⟨k, s₁, r, hok, hs⟩ := h s c
      obtain ⟨hi, s', a, hr, ha⟩ := exists_solo h (next r) s₁
      exact ⟨(c, k) :: hi, s', a, .cmd hs hr, List.forall_mem_cons.2 ⟨hok, ha⟩⟩

end Interaction.Prog
