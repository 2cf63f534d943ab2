/-
**Programs that talk to a shared store, and protocols they follow.**

A program is a tree of commands: it issues a command, is handed an answer, and goes on with what the answer
selects.  A *protocol* is an automaton over commands and answers: in each phase it allows some commands, an
answer moves it to the next phase, and some phases are fit to end in.  `Prog.Follows` says that a program
only ever issues what the protocol allows, whatever the answers, and ends with a postcondition; it is a
weakest precondition over phases, so it is proved along the syntax of the program.

* `Interaction.Prog.Follows.bind`, `Interaction.Prog.Follows.bindE` — sequencing, without and with early
  exit on errors;
* `Interaction.Prog.Uses.follows` — a program that only uses commands the phase ignores stays in its phase;
* `Interaction.Prog.Follows.prod` — following two protocols is following their product.
-/

import Mathlib.Logic.Basic

namespace Interaction

universe u v w x y

/-- **A program**: a result, or a command and what to do with its answer. -/
inductive Prog (C : Type u) (R : C → Type v) (α : Type w)
  | ret (a : α)
  | cmd (c : C) (k : R c → Prog C R α)

/-- A protocol with phases `G`. -/
structure Protocol (C : Type u) (R : C → Type v) (G : Type x) where
  /-- The phase of a program that has not issued a command yet. -/
  start : G
  /-- The commands that may be issued in a phase. -/
  allowed : G → C → Prop
  /-- The phase after an answer. -/
  advance : G → (c : C) → R c → G
  /-- The phases a program may end in. -/
  final : G → Prop

namespace Prog

variable {C : Type u} {R : C → Type v} {α β : Type w}
variable {N : C → Prop}
variable {p : Prog C R α} {ε : Type w} {f : α → ExceptT ε (Prog C R) β} {G : Type x} {P : Protocol C R G}

/-- Sequencing: graft the continuation onto the results. -/
def bind : Prog C R α → (α → Prog C R β) → Prog C R β
  | ret a, f => f a
  | cmd c k, f => cmd c fun r => bind (k r) f

instance : Monad (Prog C R) where
  pure := ret
  bind := bind

def issue {R : C → Type w} (c : C) : Prog C R (R c) := cmd c ret

def done : Prog C R α → Bool
  | ret _ => true
  | cmd _ _ => false

/-- Running `p` with `k` inserted before every command: what a helper thread does meanwhile. -/
def alongside {α : Type} (k : Prog C R Unit) : Prog C R α → Prog C R α
  | ret a => ret a
  | cmd c f => bind k fun _ => cmd c fun r => alongside k (f r)

/-! ### Following a protocol -/

section

variable {G : Type x} {P : Protocol C R G}
variable {f : α → Prog C R β} {p : Prog C R α} {ε : Type w}

/-- **The program follows the protocol** from phase `g`, and ends with `Q`. -/
def Follows (P : Protocol C R G) (Q : G → α → Prop) : G → Prog C R α → Prop
  | g, ret a => Q g a
  | g, cmd c k => P.allowed g c ∧ ∀ r, Follows P Q (P.advance g c r) (k r)

@[simp] theorem follows_ret {Q : G → α → Prop} {g : G} {a : α} : Follows P Q g (ret a) ↔ Q g a := Iff.rfl

theorem Follows.of_eq {Q : G → α → Prop} {g h : G} (hg : g = h) (hf : Follows P Q h p) : Follows P Q g p :=
  hg ▸ hf

theorem Follows.mono {Q Q' : G → α → Prop} (hle : ∀ g a, Q g a → Q' g a) :
    ∀ {p : Prog C R α} {g : G}, Follows P Q g p → Follows P Q' g p
  | ret a, g, h => hle g a h
  | cmd _ _, _, h => ⟨h.1, fun r => Follows.mono hle (h.2 r)⟩

/-- **Sequencing.** -/
theorem Follows.bind {Q : G → β → Prop} :
    ∀ {p : Prog C R α} {g : G}, Follows P (fun g' a => Follows P Q g' (f a)) g p → Follows P Q g (p >>= f)
  | ret _, _, h => h
  | cmd _ _, _, h => ⟨h.1, fun r => Follows.bind (h.2 r)⟩

/-- Sequencing, when the first part is known to keep the phase among `M`. -/
theorem Follows.bind_of {M : G → α → Prop} {Q : G → β → Prop} {g : G} (hp : Follows P M g p)
    (hf : ∀ g' a, M g' a → Follows P Q g' (f a)) : Follows P Q g (p >>= f) :=
  (hp.mono hf).bind

theorem Follows.issue {R : C → Type w} {G : Type x} {P : Protocol C R G} {Q : G → β → Prop} {c : C}
    {f : R c → Prog C R β} {g : G} (hc : P.allowed g c)
    (hf : ∀ r, Follows P Q (P.advance g c r) (f r)) : Follows P Q g (Prog.issue c >>= f) :=
  ⟨hc, hf⟩

section

variable {Q : G → Except ε β → Prop} {f : α → ExceptT ε (Prog C R) β} {g : G}

/-- **Sequencing with early exit**: an error ends the program. -/
theorem Follows.bindE {p : ExceptT ε (Prog C R) α}
    (h : Follows P (fun g' x => match x with
      | .ok a => Follows P Q g' (f a).run
      | .error e => Q g' (.error e)) g p.run) : Follows P Q g (p >>= f).run := by
  refine Follows.bind (Follows.mono ?_ h)
  intro g' x hx
  cases x with
  | ok | error => exact hx

/-- The same, when the first part is known to end with `M`. -/
theorem Follows.bindE_of {M : G → Except ε α → Prop} {p : ExceptT ε (Prog C R) α} (hp : Follows P M g p.run)
    (he : ∀ g' e, M g' (.error e) → Q g' (.error e))
    (hf : ∀ g' a, M g' (.ok a) → Follows P Q g' (f a).run) : Follows P Q g (p >>= f).run := by
  refine Follows.bindE (hp.mono fun g' x hx => ?_)
  cases x with
  | error e => exact he g' e hx
  | ok a => exact hf g' a hx

theorem Follows.liftE (h : Follows P (fun g' a => Follows P Q g' (f a).run) g p) :
    Follows P Q g ((ExceptT.lift p : ExceptT ε (Prog C R) α) >>= f).run := by
  refine Follows.bindE (Follows.bind ?_)
  exact h

end

theorem Follows.alongside {α : Type} {Q : G → α → Prop} {k : Prog C R Unit}
    (hk : ∀ g, Follows P (fun g' _ => g' = g) g k) :
    ∀ {p : Prog C R α} {g : G}, Follows P Q g p → Follows P Q g (Prog.alongside k p)
  | ret _, _, h => h
  | cmd c f, g, h => by
      refine Follows.bind_of (hk g) fun g' _ hg' => ?_
      subst hg'
      exact ⟨h.1, fun r => Follows.alongside hk (h.2 r)⟩

end

/-! ### Kinds of commands -/

/-- The protocol that only restricts which commands are issued. -/
def kind (N : C → Prop) : Protocol C R Unit where
  start := ()
  allowed _ c := N c
  advance _ _ _ := ()
  final _ := True

/-- **The program only uses commands of kind `N`.** -/
def Uses (N : C → Prop) (p : Prog C R α) : Prop :=
  Follows (kind N) (fun _ _ => True) () p

theorem uses_ret (a : α) : Uses N (ret a : Prog C R α) := trivial

theorem uses_issue {R : C → Type w} {c : C} (hc : N c) :
    Uses N (issue c : Prog C R (R c)) := ⟨hc, fun _ => trivial⟩

theorem Uses.bind {f : α → Prog C R β} (hp : Uses N p) (hf : ∀ a, Uses N (f a)) : Uses N (p >>= f) :=
  Follows.bind_of hp fun _ a _ => hf a

theorem Uses.bindE {p : ExceptT ε (Prog C R) α} (hp : Uses N p.run) (hf : ∀ a, Uses N (f a).run) :
    Uses N (p >>= f).run := by
  refine Follows.bindE (Follows.mono ?_ hp)
  intro g x _
  cases x with
  | ok a => exact hf a
  | error => trivial

theorem Uses.liftE (hp : Uses N p) (hf : ∀ a, Uses N (f a).run) :
    Uses N ((ExceptT.lift p : ExceptT ε (Prog C R) α) >>= f).run :=
  Follows.liftE (hp.mono fun _ a _ => hf a)

theorem Uses.mono {N' : C → Prop} (hle : ∀ c, N c → N' c) : ∀ {p : Prog C R α}, Uses N p → Uses N' p
  | ret _, _ => trivial
  | cmd c _, h => ⟨hle c h.1, fun r => Uses.mono hle (h.2 r)⟩

/-- **Commands the phase ignores** leave it where it is. -/
theorem Uses.follows {g : G} (hN : ∀ c, N c → P.allowed g c ∧ ∀ r, P.advance g c r = g) :
    ∀ {p : Prog C R α}, Uses N p → Follows P (fun g' _ => g' = g) g p
  | ret _, _ => rfl
  | cmd c k, h => by
      obtain ⟨ha, hs⟩ := hN c h.1
      refine ⟨ha, fun r => ?_⟩
      rw [hs r]
      exact Uses.follows hN (h.2 r)

/-- Commands that every phase of a class allows, and that do not leave the class. -/
theorem Uses.follows_of {M : G → Prop} (hN : ∀ g c, M g → N c → P.allowed g c ∧ ∀ r, M (P.advance g c r)) :
    ∀ {p : Prog C R α} {g : G}, M g → Uses N p → Follows P (fun g' _ => M g') g p
  | ret _, _, hg, _ => hg
  | cmd c _, g, hg, h =>
    ⟨(hN g c hg h.1).1, fun r => Uses.follows_of hN ((hN g c hg h.1).2 r) (h.2 r)⟩

end Prog

/-! ### Two protocols at once -/

section

variable {C : Type u} {R : C → Type v} {G : Type x} {H : Type y}

/-- The product of two protocols. -/
def Protocol.prod (P : Protocol C R G) (P' : Protocol C R H) : Protocol C R (G × H) where
  start := (P.start, P'.start)
  allowed g c := P.allowed g.1 c ∧ P'.allowed g.2 c
  advance g c r := (P.advance g.1 c r, P'.advance g.2 c r)
  final g := P.final g.1 ∧ P'.final g.2

/-- **A program that follows both protocols follows their product.** -/
theorem Prog.Follows.prod {α : Type w} {P : Protocol C R G} {P' : Protocol C R H}
    {Q : G → α → Prop} {Q' : H → α → Prop} :
    ∀ {p : Prog C R α} {g : G} {h : H}, Prog.Follows P Q g p → Prog.Follows P' Q' h p →
      Prog.Follows (P.prod P') (fun gh a => Q gh.1 a ∧ Q' gh.2 a) (g, h) p
  | .ret _, _, _, hp, hp' => ⟨hp, hp'⟩
  | .cmd _ _, _, _, hp, hp' => ⟨⟨hp.1, hp'.1⟩, fun r => Prog.Follows.prod (hp.2 r) (hp'.2 r)⟩

/-- **What one protocol says about another** that allows everything, if every step keeps it. -/
theorem Prog.Follows.track {α : Type w} {P : Protocol C R G} {P' : Protocol C R H} {Q : G → α → Prop}
    {I : G → H → Prop} (ha : ∀ h c, P'.allowed h c)
    (hI : ∀ g h c r, P.allowed g c → I g h → I (P.advance g c r) (P'.advance h c r)) :
    ∀ {p : Prog C R α} {g : G} {h : H}, Prog.Follows P Q g p → I g h →
      Prog.Follows P' (fun h a => ∃ g, Q g a ∧ I g h) h p
  | .ret _, g, _, hp, hi => ⟨g, hp, hi⟩
  | .cmd c _, g, h, hp, hi => ⟨ha h c, fun r => Prog.Follows.track ha hI (hp.2 r) (hI g h c r hp.1 hi)⟩

end

end Interaction
