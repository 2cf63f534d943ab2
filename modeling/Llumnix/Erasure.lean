/-
**Erasing patterns from a text.**

The searching and replacing operations of a string library, on lists of symbols, and the relation between a
text and what is left of it when some occurrences of given patterns are erased, one after the other.

Patterns in brackets, such as the tags of a markup, have an invariant: erasing one does not change the
number of opening brackets less the number of closing ones, and a proper beginning has one more opening
bracket.  So a text from which a beginning of a pattern has been lost is not one from which patterns have
been erased.

* `Erasure.not_erases_of_beginning` — **a lost beginning of a pattern is noticed.**
-/

import Mathlib

namespace Erasure

open List

variable {α : Type}

/-! ### Erasing -/

/-- One occurrence of a pattern is erased. -/
def EraseOne (pats : List (List α)) (w u : List α) : Prop :=
  ∃ a pat b, pat ∈ pats ∧ w = a ++ pat ++ b ∧ u = a ++ b

/-- **Some occurrences of the patterns are erased, one after the other.** -/
def Erases (pats : List (List α)) : List α → List α → Prop :=
  Relation.ReflTransGen (EraseOne pats)

section

variable {pats : List (List α)} {w u v : List α}
variable {pat : List α}

theorem Erases.refl (w : List α) : Erases pats w w := Relation.ReflTransGen.refl

theorem Erases.trans (h₁ : Erases pats w u) (h₂ : Erases pats u v) : Erases pats w v :=
  Relation.ReflTransGen.trans h₁ h₂

theorem Erases.one (hp : pat ∈ pats) (a b : List α) : Erases pats (a ++ pat ++ b) (a ++ b) :=
  Relation.ReflTransGen.single ⟨a, pat, b, hp, rfl, rfl⟩

theorem Erases.context (h : Erases pats w u) (a b : List α) : Erases pats (a ++ w ++ b) (a ++ u ++ b) := by
  induction h with
  | refl => exact Erases.refl _
  | tail _ ho ih =>
    obtain ⟨c, pat, d, hp, rfl, rfl⟩ := ho
    refine ih.trans ?_
    have ho := Erases.one hp (a ++ c) (d ++ b)
    simpa using ho

theorem Erases.length_le (h : Erases pats w u) : u.length ≤ w.length := by
  induction h with
  | refl => exact Nat.le_refl _
  | tail _ ho ih =>
    obtain ⟨a, pat, b, -, rfl, rfl⟩ := ho
    simp only [length_append] at ih ⊢
    omega

theorem Erases.append {w' u' : List α} (h : Erases pats w u) (h' : Erases pats w' u') :
    Erases pats (w ++ w') (u ++ u') := by
  have hl := h.context [] w'
  have hr := h'.context u []
  simp only [nil_append, append_nil] at hl hr
  exact hl.trans hr

end

/-! ### Searching and replacing -/

variable [DecidableEq α] {pats : List (List α)} {pat w : List α}

/-- The position of the first occurrence of a pattern. -/
def index (pat : List α) : List α → Option Nat
  | [] => if pat = [] then some 0 else none
  | c :: w => if pat <+: c :: w then some 0 else (index pat w).map (· + 1)

theorem index_split {pat w : List α} {i : Nat} (h : index pat w = some i) :
    ∃ a b, w = a ++ pat ++ b ∧ a.length = i := by
  induction w generalizing i with
  | nil =>
    obtain ⟨rfl, hi⟩ := Option.ite_none_right_eq_some.1 h
    exact ⟨[], [], rfl, Option.some.inj hi⟩
  | cons c w ih =>
  unfold index at h
  split at h
  next hp =>
    cases h
    obtain ⟨u, hu⟩ := hp
    exact ⟨[], u, hu.symm, rfl⟩
  next hp =>
    obtain ⟨j, hj, rfl⟩ := Option.map_eq_some_iff.1 h
    obtain ⟨a, b, rfl, rfl⟩ := ih hj
    exact ⟨c :: a, b, rfl, rfl⟩

theorem index_spec {pat w : List α} {i : Nat} (h : index pat w = some i) :
    w = w.take i ++ pat ++ w.drop (i + pat.length) := by
  obtain ⟨a, b, rfl, rfl⟩ := index_split h
  simp

/-- The first occurrence is not behind any other one. -/
theorem index_le (pat a b : List α) : ∃ k ≤ a.length, index pat (a ++ pat ++ b) = some k := by
  induction a with
  | nil =>
    refine ⟨0, le_rfl, ?_⟩
    cases hw : [] ++ pat ++ b with
    | nil => exact if_pos (by simp_all)
    | cons c w => exact if_pos ⟨b, hw⟩
  | cons c a ih =>
    obtain ⟨k, hk, hi⟩ := ih
    rw [cons_append, cons_append, index, hi]
    split
    · exact ⟨0, Nat.zero_le _, rfl⟩
    · exact ⟨k + 1, Nat.succ_le_succ hk, rfl⟩

/-- A pattern that is in a part of a text is in the text, and not later. -/
theorem index_context {pat w : List α} {i : Nat} (h : index pat w = some i) (a b : List α) :
    ∃ k ≤ a.length + i, index pat (a ++ w ++ b) = some k := by
  obtain ⟨u, v, rfl, rfl⟩ := index_split h
  simpa using index_le pat (a ++ u) (v ++ b)

/-- `replaceAll` of the rest of a text, of which `skip` symbols belong to an occurrence that has been
replaced. -/
def replaceFrom (old new : List α) : Nat → List α → List α
  | _, [] => []
  | skip + 1, _ :: w => replaceFrom old new skip w
  | 0, c :: w =>
    if old ≠ [] ∧ old <+: c :: w then new ++ replaceFrom old new (old.length - 1) w
    else c :: replaceFrom old new 0 w

/-- All occurrences of a pattern replaced, from left to right. -/
def replaceAll (old new : List α) (w : List α) : List α := replaceFrom old new 0 w

theorem erases_replaceFrom (hpa : pat ∈ pats) (skip : Nat) (w : List α) :
    Erases pats (w.drop skip) (replaceFrom pat [] skip w) := by
  induction w generalizing skip with
  | nil => simpa [replaceFrom] using Erases.refl []
  | cons c w ih =>
    cases skip with
    | succ skip => exact ih skip
    | zero =>
      unfold replaceFrom
      split
      next hp =>
        -- an occurrence at the front, whose other symbols are skipped
        obtain ⟨hne, b, hb⟩ := hp
        obtain ⟨p, pat, rfl⟩ := exists_cons_of_ne_nil hne
        obtain ⟨rfl, rfl⟩ := cons.inj hb
        have ho := Erases.one hpa [] b
        have hr := ih pat.length
        rw [append_eq, drop_left] at hr
        exact Erases.trans (by simpa using ho) hr
      next hp =>
        have hc := (ih 0).context [c] []
        simpa using hc

/-- **Replacing all occurrences of a pattern by nothing erases it.** -/
theorem erases_replaceAll (hpa : pat ∈ pats) (w : List α) : Erases pats w (replaceAll pat [] w) :=
  erases_replaceFrom hpa 0 w

theorem erases_index {i : Nat} (hp : pat ∈ pats) (h : index pat w = some i) :
    Erases pats w (w.take i ++ w.drop (i + pat.length)) := by
  have ho := Erases.one hp (w.take i) (w.drop (i + pat.length))
  rwa [← index_spec h] at ho

/-! ### Patterns in brackets -/

/-- The number of opening brackets less the number of closing ones. -/
def balance (o c : α) (w : List α) : Int := w.count o - w.count c

theorem balance_append (o c : α) (w u : List α) : balance o c (w ++ u) = balance o c w + balance o c u := by
  simp only [balance, count_append]
  omega

/-- A pattern that starts with an opening bracket, ends with a closing one, and has no others. -/
def Bracketed (o c : α) (pat : List α) : Prop :=
  o ≠ c ∧ ∃ m, pat = o :: (m ++ [c]) ∧ o ∉ m ∧ c ∉ m

section

variable {o c : α} {pats : List (List α)}
variable {pat p w u : List α}

theorem Bracketed.balance_eq_zero (h : Bracketed o c pat) : balance o c pat = 0 := by
  obtain ⟨hne, m, rfl, ho, hc⟩ := h
  have hne' : c ≠ o := fun heq => hne heq.symm
  simp [balance, count_eq_zero.2 ho, count_eq_zero.2 hc, hne, hne']

/-- A proper beginning of a pattern in brackets has one more opening bracket. -/
theorem Bracketed.balance_beginning (h : Bracketed o c pat) (hp : p <+: pat) (hne : p ≠ pat)
    (hn : p ≠ []) : balance o c p = 1 := by
  obtain ⟨hoc, m, rfl, ho, hc⟩ := h
  obtain ⟨x, p, rfl⟩ := exists_cons_of_ne_nil hn
  obtain ⟨rfl, ht⟩ := cons_prefix_cons.1 hp
  have hm : p <+: m := by
    rcases prefix_concat_iff.1 ht with heq | hm
    · exact absurd (congrArg (x :: ·) heq) hne
    · exact hm
  have hox : x ∉ p := fun hme => ho (hm.subset hme)
  have hcp : c ∉ p := fun hme => hc (hm.subset hme)
  simp [balance, count_eq_zero.2 hox, count_eq_zero.2 hcp, hoc]

theorem Erases.balance_eq (hp : ∀ pat ∈ pats, Bracketed o c pat) (h : Erases pats w u) :
    balance o c u = balance o c w := by
  induction h with
  | refl => rfl
  | tail _ ho ih =>
    obtain ⟨a, pat, b, hpa, rfl, rfl⟩ := ho
    rw [← ih]
    simp only [balance_append, (hp pat hpa).balance_eq_zero]
    omega

/-- **A lost beginning of a pattern is noticed**: what is left of a text is not what is left of it up to the
beginning of a pattern. -/
theorem not_erases_of_beginning (hpa : ∀ pat ∈ pats, Bracketed o c pat) (h : Erases pats w (u ++ p))
    (hpt : pat ∈ pats) (hp : p <+: pat) (hne : p ≠ pat) (hn : p ≠ []) : ¬ Erases pats w u := by
  intro hl
  have hu := h.balance_eq hpa
  have hu' := hl.balance_eq hpa
  rw [balance_append, (hpa pat hpt).balance_beginning hp hne hn] at hu
  omega

end

end Erasure
