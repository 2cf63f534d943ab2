/-
**Metric series.**

A metric (`pkg/metrics`) keeps its series under a text in which the labels are joined, and counts them by
that text.  Beyond a limit every label value is replaced.  Nothing is escaped in the text, so that a value
which contains the next label can make two label sets one.

* `series_bounded` — at most one series more than the limit is ever made, and **two lookups share a series
  only if they have the same values or one overflowed**, if no value contains the next label.
-/

import Mathlib.Data.Finset.Card

namespace Llumnix.Metrics

open List

abbrev Text := List Char

/-- `Labels.Flatten`; the names of a metric are fixed, so labels are given by their values. -/
def flatten (names values : List Text) : Text :=
  [';'].intercalate (zipWith (fun name value => name ++ '=' :: value) names values)

/-- A metric: the texts that are counted, and the series that have been made, by their texts. -/
structure Metric where
  series : Finset Text
  resolved : List Text

/-- A lookup: what was asked for, whether it overflowed, and the series by its number. -/
structure Lookup where
  values : List Text
  overflowed : Bool
  series : ℕ
  deriving DecidableEq

variable (maxCardinalityPerMetric : ℤ) (names : List Text)

def overflow : List Text := names.map fun _ => "_overflow".toList

/-- `enforce`: the texts counted afterwards, the values to use, and whether they overflowed. -/
def enforce (series : Finset Text) (values : List Text) : Finset Text × List Text × Bool :=
  let key := flatten names values
  if maxCardinalityPerMetric ≤ 0 ∨ key ∈ series then (series, values, false)
  else if maxCardinalityPerMetric ≤ series.card then
    (insert (flatten names (overflow names)) series, overflow names, true)
  else (insert key series, values, false)

/-- `HistogramGroup.Get`. -/
def get (m : Metric) (values : List Text) : Metric × Lookup :=
  let (series, used, overflowed) := enforce maxCardinalityPerMetric names m.series values
  let key := flatten names used
  let resolved := if key ∈ m.resolved then m.resolved else m.resolved ++ [key]
  (⟨series, resolved⟩, ⟨values, overflowed, resolved.idxOf key⟩)

/-- The metric after some lookups, the latest first, and these. -/
def run : List (List Text) → Metric × List Lookup
  | [] => (⟨∅, []⟩, [])
  | values :: earlier =>
    let (m, lookups) := run earlier
    let (m, lookup) := get maxCardinalityPerMetric names m values
    (m, lookup :: lookups)

/-- Lookups share a series only if they have the same values or one overflowed. -/
def Distinct (lookups : List Lookup) : Prop :=
  ∀ x ∈ lookups, ∀ y ∈ lookups, x.series = y.series → x.values = y.values ∨ x.overflowed ∨ y.overflowed

/-- **Two label sets with one text.** -/
theorem labels_collide : ¬ Distinct (run 2 ["a".toList, "b".toList]
    [["x;b=y".toList, "z".toList], ["x".toList, "y;b=z".toList]]).2 := by
  unfold Distinct
  decide

/-! ### The text determines the values -/

/-- There is a value for each name, and none contains the label that follows. -/
def Separable : List Text → List Text → Prop
  | [], values => values = []
  | [_], values => values.length = 1
  | _ :: _ :: _, [] => False
  | _ :: name :: names, value :: values =>
    ¬ ';' :: (name ++ ['=']) <:+: value ∧ Separable (name :: names) values

variable {maxCardinalityPerMetric} {names}

/-- A separator that does not begin anew in itself cuts a text in one way only. -/
theorem cut_le {v a r r' name : Text} (hn : ';' ∉ name)
    (he : ';' :: (name ++ ['=']) ++ r = a ++ (';' :: (name ++ ['=']) ++ r'))
    (ha : ¬ ';' :: (name ++ ['=']) <:+: v ++ a) : a = [] := by
  rcases append_eq_append_iff.1 he with ⟨c, rfl, -⟩ | ⟨c, hc, hr⟩
  · exact absurd ⟨v, c, by simp⟩ ha
  -- the second separator would begin inside the first one
  cases a with
  | nil => rfl
  | cons x a =>
    cases c with
    | nil => exact absurd ⟨v, [], by simp [hc]⟩ ha
    | cons y c =>
      obtain ⟨rfl, -⟩ := cons.inj hr
      have hm : ';' ∈ name ++ ['='] := by
        rw [(cons.inj hc).2]
        simp
      simp [hn] at hm

theorem cut_inj {v w r r' name : Text} (hn : ';' ∉ name) (hv : ¬ ';' :: (name ++ ['=']) <:+: v)
    (hw : ¬ ';' :: (name ++ ['=']) <:+: w)
    (he : v ++ (';' :: (name ++ ['=']) ++ r) = w ++ (';' :: (name ++ ['=']) ++ r')) : v = w := by
  rcases append_eq_append_iff.1 he with ⟨a, rfl, ha⟩ | ⟨a, rfl, ha⟩
  · rw [cut_le hn ha hw, append_nil]
  · rw [cut_le hn ha hv, append_nil]

theorem intercalate_cons (x : Text) (xs : List Text) :
    [';'].intercalate (x :: xs) = x ++ xs.flatMap (';' :: ·) := by
  induction xs generalizing x with
  | nil => simp [intercalate]
  | cons y xs ih =>
    rw [intercalate_cons_cons, ih]
    simp

/-- The first label, and what follows it. -/
theorem flatten_cons (name : Text) (names values : List Text) (v : Text) :
    flatten (name :: names) (v :: values) = name ++ '=' :: (v ++
      (zipWith (fun name value => name ++ '=' :: value) names values).flatMap (';' :: ·)) := by
  rw [flatten, zipWith_cons_cons, intercalate_cons, append_assoc, cons_append]

theorem flatten_cons_cons (name name' : Text) (names values : List Text) (v v' : Text) :
    flatten (name :: name' :: names) (v :: v' :: values) =
      name ++ '=' :: (v ++ ';' :: flatten (name' :: names) (v' :: values)) := by
  rw [flatten_cons, flatten_cons, zipWith_cons_cons, flatMap_cons, cons_append, append_assoc, cons_append]

theorem flatten_inj (hn : ∀ name ∈ names, ';' ∉ name) {values values' : List Text}
    (h : Separable names values) (h' : Separable names values')
    (he : flatten names values = flatten names values') : values = values' := by
  induction names generalizing values values' with
  | nil => rw [show values = [] from h, show values' = [] from h']
  | cons name names ih =>
  cases names with
  | nil =>
    obtain ⟨v, rfl⟩ := length_eq_one_iff.1 h
    obtain ⟨w, rfl⟩ := length_eq_one_iff.1 h'
    rw [flatten_cons, flatten_cons] at he
    simpa using he
  | cons name' names =>
  obtain ⟨-, hn⟩ := forall_mem_cons.1 hn
  have hc : ∀ {us}, Separable (name :: name' :: names) us → ∃ v v' vs, us = v :: v' :: vs := by
    intro us hus
    cases us with
    | nil => exact hus.elim
    | cons v us =>
      cases us with
      | nil => cases names <;> simp [Separable] at hus
      | cons v' vs => exact ⟨v, v', vs, rfl⟩
  obtain ⟨v, v', vs, rfl⟩ := hc h
  obtain ⟨w, w', ws, rfl⟩ := hc h'
  rw [flatten_cons_cons, flatten_cons_cons] at he
  have he := (cons.inj (append_cancel_left he)).2
  -- the label that follows ends the first value
  obtain rfl : v = w := by
    have hs : ∀ r, ';' :: (name' ++ '=' :: r) = ';' :: (name' ++ ['=']) ++ r := by simp
    rw [flatten_cons, flatten_cons, hs (v' ++ _), hs (w' ++ _)] at he
    exact cut_inj (hn name' mem_cons_self) h.1 h'.1 he
  rw [ih hn h.2 h'.2 (cons.inj (append_cancel_left he)).2]

/-! ### Every lookup -/

/-- What holds after every lookup. -/
structure Sound (limit : ℤ) (names : List Text) (m : Metric) (lookups : List Lookup) : Prop where
  nodup : m.resolved.Nodup
  counted : ∀ key ∈ m.resolved, key ∈ m.series
  bound : (m.series.erase (flatten names (overflow names))).card ≤ limit
  found : ∀ x ∈ lookups, m.resolved[x.series]? =
    some (flatten names (if x.overflowed then overflow names else x.values))

section

variable {limit : ℤ} (hl : 0 < limit)
include hl

theorem enforce_spec {series : Finset Text}
    (hb : (series.erase (flatten names (overflow names))).card ≤ limit) (values : List Text) :
    ∃ series' overflowed, enforce limit names series values =
        (series', if overflowed then overflow names else values, overflowed) ∧ series ⊆ series' ∧
      flatten names (if overflowed then overflow names else values) ∈ series' ∧
      (series'.erase (flatten names (overflow names))).card ≤ limit := by
  unfold enforce
  dsimp only
  split_ifs with hk hc
  · exact ⟨_, false, rfl, subset_rfl, hk.resolve_left hl.not_ge, hb⟩
  · refine ⟨_, true, rfl, Finset.subset_insert .., Finset.mem_insert_self .., ?_⟩
    rwa [Finset.erase_insert_eq_erase]
  · refine ⟨_, false, rfl, Finset.subset_insert .., Finset.mem_insert_self .., ?_⟩
    have he := Finset.card_erase_le (s := insert (flatten names values) series)
      (a := flatten names (overflow names))
    have hi := Finset.card_insert_le (flatten names values) series
    omega

theorem Sound.get {m : Metric} {lookups : List Lookup} (h : Sound limit names m lookups)
    (values : List Text) :
    Sound limit names (get limit names m values).1 ((get limit names m values).2 :: lookups) := by
  obtain ⟨series, overflowed, he, hs, hk, hb⟩ := enforce_spec hl h.bound values
  unfold Metrics.get
  rw [he]
  dsimp only
  set key := flatten names (if overflowed then overflow names else values)
  have hc : ∀ k ∈ m.resolved, k ∈ series := fun k hk => hs (h.counted k hk)
  split_ifs with hr
  · exact ⟨h.nodup, hc, hb, forall_mem_cons.2 ⟨getElem?_idxOf hr, h.found⟩⟩
  · refine ⟨concat_eq_append ▸ h.nodup.concat hr, forall_mem_append.2 ⟨hc, forall_mem_singleton.2 hk⟩, hb,
      forall_mem_cons.2 ⟨getElem?_idxOf (by simp), fun x hx => ?_⟩⟩
    -- the series that were there keep their numbers
    have hf := h.found x hx
    exact (getElem?_append_left (List.getElem?_eq_some_iff.1 hf).1).trans hf

theorem sound_run (names : List Text) (vs : List (List Text)) :
    Sound limit names (run limit names vs).1 (run limit names vs).2 := by
  induction vs with
  | nil => exact ⟨nodup_nil, by simp [run], by simpa [run] using hl.le, by simp [run]⟩
  | cons values vs ih => exact ih.get hl values

end

theorem values_run (limit : ℤ) (names : List Text) (vs : List (List Text)) :
    (run limit names vs).2.map Lookup.values = vs := by
  induction vs with
  | nil => rfl
  | cons values vs ih => exact congrArg (values :: ·) ih

/-- **Series are bounded, and distinct but for values that contain a label.** -/
theorem series_bounded (hl : 0 < maxCardinalityPerMetric) (vs : List (List Text)) :
    (run maxCardinalityPerMetric names vs).1.resolved.length ≤ maxCardinalityPerMetric + 1 ∧
      ((∀ name ∈ names, ';' ∉ name) → (∀ values ∈ vs, Separable names values) →
        Distinct (run maxCardinalityPerMetric names vs).2) := by
  obtain ⟨hd, hc, hb, hf⟩ := sound_run hl names vs
  rw [← values_run maxCardinalityPerMetric names vs, forall_mem_map, values_run]
  generalize run maxCardinalityPerMetric names vs = r at *
  constructor
  · have hle : r.1.resolved.toFinset.card ≤ r.1.series.card :=
      Finset.card_le_card fun k hk => hc k (mem_toFinset.1 hk)
    rw [toFinset_card_of_nodup hd] at hle
    have he := Finset.pred_card_le_card_erase (s := r.1.series) (a := flatten names (overflow names))
    omega
  · intro hn hs x hx y hy he
    by_contra! hno
    have hxy := Option.some.inj ((hf x hx).symm.trans (he ▸ hf y hy))
    rw [if_neg hno.2.1, if_neg hno.2.2] at hxy
    exact hno.1 (flatten_inj hn (hs x hx) (hs y hy) hxy)

theorem series_bounded_semicolons :
    (∀ name ∈ [['a'], ['b']], ';' ∉ name) ∧
    (∀ values ∈ [[[';'], ['y']], [['x', ';'], ['y']]], Separable [['a'], ['b']] values) ∧
    Distinct (run 2 [['a'], ['b']] [[[';'], ['y']], [['x', ';'], ['y']]]).2 :=
  have hn : ∀ name ∈ [['a'], ['b']], ';' ∉ name := by decide
  have hs : ∀ values ∈ [[[';'], ['y']], [['x', ';'], ['y']]], Separable [['a'], ['b']] values := by
    simp only [forall_mem_cons, Separable, not_mem_nil, IsEmpty.forall_iff, implies_true]
    decide
  ⟨hn, hs, (series_bounded (by decide) _).2 hn hs⟩

end Llumnix.Metrics
