/-
**Feeding the reasoning parser piece by piece.**

A backend cuts its text where it likes.  The detector of `Llumnix.ReasoningParser` holds text back only
while the whole of its buffer may become a tag, and it strips start tags in one call only.  So nothing but
tags is lost, whatever the chunks are; but they decide what is stripped, and what is reasoning.

* `parseAll_keeps` — **the output and the buffer are the input, but for tags**;
* `cuts_agree` — **the cuts do not matter if the tags are whole**.
-/

import Llumnix.ReasoningParser

namespace Llumnix.Chat.Detector

open Erasure List

/-- A sequence of calls: what each of them brings out, the reasoning and the content. -/
def parseAll (d : Detector) : List Text → Detector × List (Text × Text)
  | [] => (d, [])
  | x :: xs =>
    let r := d.parseStreamingIncrement x
    ((r.1.parseAll xs).1, r.2 :: (r.1.parseAll xs).2)

/-! ### Nothing is lost but tags -/

/-- All that has come out so far, the reasoning of a call before its content. -/
def returned (outs : List (Text × Text)) : Text := outs.flatMap fun o => o.1 ++ o.2

theorem erases_parseAll (chunks : List Text) : ∀ {d : Detector}, d.streamReasoning = true →
    Erases d.tags (d.buffer ++ chunks.flatten)
      (returned (d.parseAll chunks).2 ++ (d.parseAll chunks).1.buffer) := by
  induction chunks with
  | nil =>
    intro d _
    rw [flatten_nil, append_nil]
    exact Erases.refl _
  | cons x xs ih =>
  intro d hd
  have hx := (erases_parse hd x).append (Erases.refl xs.flatten)
  have hr := ih ((streams_parse d x).trans hd)
  rw [tags_parse] at hr
  rw [append_assoc (_ ++ _ : Text) _ xs.flatten] at hx
  simpa [parseAll, returned] using hx.trans ((Erases.refl _).append hr)

theorem buffer_parseAll (chunks : List Text) : ∀ {d : Detector}, d.streamReasoning = true → [] ∉ d.tags →
    (∃ tag ∈ d.tags, d.buffer <+: tag ∧ tag ≠ d.buffer) →
      ∃ tag ∈ d.tags, (d.parseAll chunks).1.buffer <+: tag ∧ tag ≠ (d.parseAll chunks).1.buffer := by
  induction chunks with
  | nil => exact fun _ _ h => h
  | cons x xs ih =>
  intro d hd hne _
  have hr := ih ((streams_parse d x).trans hd) (by rwa [tags_parse])
  rw [tags_parse] at hr
  refine hr ?_
  rcases buffer_parse hd x with hb | ⟨hm, -⟩
  · rw [hb]
    exact ⟨d.thinkStartTag, mem_cons_self, nil_prefix, fun h => hne (h ▸ mem_cons_self)⟩
  · exact hm

/-- **The parser loses nothing but tags**: what it has returned and still holds is the input with occurrences
of tags deleted, the whole input if there are none, and what it holds begins a tag. -/
theorem parseAll_keeps (thinkStartTag thinkEndTag : Text) (force : Bool)
    (hne : [] ∉ [thinkStartTag, thinkEndTag]) (chunks : List Text) :
    let r := (newBase thinkStartTag thinkEndTag force true).parseAll chunks
    Erases [thinkStartTag, thinkEndTag] chunks.flatten (returned r.2 ++ r.1.buffer) ∧
      ((∀ tag ∈ [thinkStartTag, thinkEndTag], ¬ tag <:+: chunks.flatten) →
        returned r.2 ++ r.1.buffer = chunks.flatten) ∧
      ∃ tag ∈ [thinkStartTag, thinkEndTag], r.1.buffer <+: tag ∧ tag ≠ r.1.buffer := by
  have he := erases_parseAll chunks (d := newBase thinkStartTag thinkEndTag force true) rfl
  refine ⟨he, fun hn => ?_, buffer_parseAll chunks (d := newBase _ _ _ _) rfl hne ?_⟩
  · -- the first tag to be deleted would be one of the input
    rcases he.cases_head with h | ⟨w, ⟨a, tag, b, ht, hw, -⟩, -⟩
    · exact h.symm
    · exact absurd ⟨a, b, hw.symm⟩ (hn tag ht)
  · exact ⟨thinkStartTag, mem_cons_self, nil_prefix, fun h => hne (h ▸ mem_cons_self)⟩

theorem parseAll_keeps_cut : let r := (newQwen3Detector true false).parseAll ["a<th".toList, "ink>b".toList]
    returned r.2 ++ r.1.buffer = "a<think>b".toList ∧
      Erases ["<think>".toList, "</think>".toList] "a<think>b".toList (returned r.2 ++ r.1.buffer) :=
  ⟨by decide, (parseAll_keeps "<think>".toList "</think>".toList false (by decide)
    ["a<th".toList, "ink>b".toList]).1⟩

/-! ### The cuts -/

/-- The reasoning and the content that have come out, with the text still buffered added to either. -/
def completions (r : Detector × List (Text × Text)) : List (Text × Text) :=
  [(r.2.flatMap Prod.fst ++ r.1.buffer, r.2.flatMap Prod.snd),
    (r.2.flatMap Prod.fst, r.2.flatMap Prod.snd ++ r.1.buffer)]

/-- **The cuts do not matter**: up to text still buffered, reasoning and content are those of the whole
text in one chunk. -/
def Agrees (d : Detector) (chunks : List Text) : Prop :=
  ∃ p ∈ completions (d.parseAll chunks), p ∈ completions (d.parseAll [chunks.flatten])

instance (d : Detector) (chunks : List Text) : Decidable (Agrees d chunks) := by
  unfold Agrees
  infer_instance

/-- **What the detector looks at in one go**: chunks are put together while they may become a tag.  The text
that still may is left over. -/
def pieces (tags : List Text) (buffer : Text) : List Text → List Text × Text
  | [] => ([], buffer)
  | x :: xs =>
    if ∃ tag ∈ tags, buffer ++ x <+: tag ∧ tag ≠ buffer ++ x then pieces tags (buffer ++ x) xs
    else ((buffer ++ x) :: (pieces tags [] xs).1, (pieces tags [] xs).2)

/-- What a piece brings out. -/
def read (d : Detector) (x : Text) : Detector × Text × Text :=
  (d.stripThinkStart x).1.splitThinkEnd (d.stripThinkStart x).2

def readAll (d : Detector) : List Text → Text × Text
  | [] => ([], [])
  | x :: xs =>
    let r := d.read x
    (r.2.1 ++ (r.1.readAll xs).1, r.2.2 ++ (r.1.readAll xs).2)

section

variable {d : Detector} {x b tag : Text} {xs pre post : List Text} {i : ℕ}

theorem flatten_pieces (tags xs : List Text) : ∀ b,
    (pieces tags b xs).1.flatten ++ (pieces tags b xs).2 = b ++ xs.flatten := by
  induction xs with
  | nil => simp [pieces]
  | cons x xs ih =>
    intro b
    unfold pieces
    split
    · simp [ih]
    · simp [ih []]

/-- A text that may become a tag is held back in all its cuttings. -/
theorem pieces_of_mayBecomeTag (xs : List Text) : ∀ b, d.MayBecomeTag (b ++ xs.flatten) →
    pieces d.tags b xs = ([], b ++ xs.flatten) := by
  induction xs with
  | nil => simp [pieces]
  | cons x xs ih =>
    rintro b ⟨tag, ht, hp, hne⟩
    rw [flatten_cons, ← append_assoc] at hp hne ⊢
    have hx : b ++ x <+: tag := (prefix_append _ _).trans hp
    have hn : tag ≠ b ++ x := by
      rintro rfl
      exact hne (hp.eq_of_length_le (by simp)).symm
    rw [pieces, if_pos ⟨tag, ht, hx, hn⟩, ih _ ⟨tag, ht, hp, hne⟩]

theorem read_buffer (hd : d.streamReasoning = true) (b : Text) :
    { d with buffer := b }.read x = { d with buffer := [] }.read x := by
  unfold read stripThinkStart splitThinkEnd reset
  split <;> simp_all

/-- **The chunks are read piece by piece.** -/
theorem parseAll_eq_readAll (xs : List Text) : ∀ {d : Detector}, d.streamReasoning = true →
    (d.parseAll xs).1.buffer = (pieces d.tags d.buffer xs).2 ∧
      ((d.parseAll xs).2.flatMap Prod.fst, (d.parseAll xs).2.flatMap Prod.snd) =
        { d with buffer := [] }.readAll (pieces d.tags d.buffer xs).1 := by
  induction xs with
  | nil => exact fun _ => ⟨rfl, rfl⟩
  | cons x xs ih =>
    intro d hd
    by_cases h : d.MayBecomeTag (d.buffer ++ x)
    · have hp : pieces d.tags d.buffer (x :: xs) = pieces d.tags (d.buffer ++ x) xs := if_pos h
      rw [hp, parseAll, parse_of_mayBecomeTag h]
      exact ih hd
    · have hp : pieces d.tags d.buffer (x :: xs) =
          ((d.buffer ++ x) :: (pieces d.tags [] xs).1, (pieces d.tags [] xs).2) := if_neg h
      have hr : d.parseStreamingIncrement x = { d with buffer := [] }.read (d.buffer ++ x) :=
        (parse_eq_split h).trans (read_buffer hd _)
      have hb := (parse_of_not_mayBecomeTag hd h).1
      have ho := ih ((streams_parse d x).trans hd)
      rw [tags_parse, hb, show { (d.parseStreamingIncrement x).1 with buffer := [] } =
        (d.parseStreamingIncrement x).1 by rw [← hb]] at ho
      rw [hp, readAll, ← hr, ← ho.2]
      exact ⟨ho.1, rfl⟩

/-! Reading in one mode -/

theorem read_eq_split (h : d.strippedThinkStart = true ∨ index d.thinkStartTag x = none) :
    d.read x = d.splitThinkEnd x := by
  have hs : ¬ (d.strippedThinkStart = false ∧ (index d.thinkStartTag x).isSome) := by
    rcases h with h | h <;> simp [h]
  rw [read, stripThinkStart, if_neg hs]

theorem read_content (hb : d.buffer = []) (hr : d.inReasoning = false) (hs : index d.thinkStartTag x = none) :
    d.read x = (d, [], x) := by
  have hd : { d with buffer := [] } = d := by rw [← hb]
  rw [read_eq_split (.inr hs), splitThinkEnd, hd, hr]
  rfl

/-- The detector is in the reasoning, and has no start tag to strip from these pieces. -/
structure Reasons (d : Detector) (xs : List Text) : Prop where
  streams : d.streamReasoning = true
  buffer : d.buffer = []
  inReasoning : d.inReasoning = true
  unstripped : d.strippedThinkStart = true ∨ ∀ x ∈ xs, index d.thinkStartTag x = none

theorem read_reasoning (h : Reasons d (x :: xs)) (he : index d.thinkEndTag x = none) :
    d.read x = (d, x, []) := by
  have hd : { d with buffer := [] } = d := by rw [← h.buffer]
  rw [read_eq_split (h.unstripped.imp_right fun hs => hs x mem_cons_self), splitThinkEnd, hd,
    if_pos h.inReasoning, if_pos h.streams, he]

theorem read_end {u v : Text} (h : Reasons d ((u ++ d.thinkEndTag ++ v) :: xs))
    (he : index d.thinkEndTag (u ++ d.thinkEndTag ++ v) = some u.length) :
    d.read (u ++ d.thinkEndTag ++ v) = (d.reset, u, v) := by
  rw [read_eq_split (h.unstripped.imp_right fun hs => hs _ mem_cons_self), splitThinkEnd,
    if_pos h.inReasoning, he]
  simp

theorem readAll_content (hb : d.buffer = []) (hr : d.inReasoning = false)
    (hs : ∀ x ∈ xs, index d.thinkStartTag x = none) : d.readAll xs = ([], xs.flatten) := by
  induction xs with
  | nil => rfl
  | cons x xs ih =>
    obtain ⟨hx, hs⟩ := forall_mem_cons.1 hs
    rw [readAll, read_content hb hr hx, ih hs]
    rfl

/-- Pieces without an end tag are reasoning. -/
theorem readAll_append (h : Reasons d pre) (he : ∀ x ∈ pre, index d.thinkEndTag x = none) (xs : List Text) :
    d.readAll (pre ++ xs) = (pre.flatten ++ (d.readAll xs).1, (d.readAll xs).2) := by
  induction pre with
  | nil => rfl
  | cons x pre ih =>
    obtain ⟨hx, he⟩ := forall_mem_cons.1 he
    have hr : Reasons d pre := { h with
      unstripped := h.unstripped.imp_right fun hs => (forall_mem_cons.1 hs).2 }
    rw [cons_append, readAll, read_reasoning h hx, ih hr he]
    simp

theorem readAll_reasoning (h : Reasons d xs) (he : ∀ x ∈ xs, index d.thinkEndTag x = none) :
    d.readAll xs = (xs.flatten, []) := by
  have hr := readAll_append h he []
  rwa [append_nil, readAll, append_nil] at hr

/-- The first piece with an end tag is split there, and the rest is content. -/
theorem readAll_split {u v : Text} (h : Reasons d (pre ++ (u ++ d.thinkEndTag ++ v) :: post))
    (he : ∀ x ∈ pre, index d.thinkEndTag x = none)
    (hi : index d.thinkEndTag (u ++ d.thinkEndTag ++ v) = some u.length)
    (hs : ∀ x ∈ post, index d.thinkStartTag x = none) :
    d.readAll (pre ++ (u ++ d.thinkEndTag ++ v) :: post) = (pre.flatten ++ u, v ++ post.flatten) := by
  have hp : Reasons d pre := { h with
    unstripped := h.unstripped.imp_right fun hs y hy => hs y (mem_append_left _ hy) }
  have hr : Reasons d ((u ++ d.thinkEndTag ++ v) :: post) := { h with
    unstripped := h.unstripped.imp_right fun hs y hy => hs y (mem_append_right _ hy) }
  rw [readAll_append hp he, readAll, read_end hr hi, readAll_content (d := d.reset) rfl rfl hs]
  simp

/-- The piece with the start tag is stripped. -/
theorem readAll_start (hd : d.strippedThinkStart = false) (hs : (index d.thinkStartTag x).isSome)
    (xs : List Text) : d.readAll (x :: xs) =
      { d with strippedThinkStart := true, inReasoning := true }.readAll
        (replaceAll d.thinkStartTag [] x :: xs) := by
  rw [readAll, readAll, read, stripThinkStart, if_pos ⟨hd, hs⟩, read_eq_split (.inl rfl)]

end

/-! ### When the cuts do not matter -/

/-- **The end tag is whole**: there is none, or the first one lies within one piece, and no later piece has a
start tag. -/
def Whole (startTag endTag : Text) (xs : List Text) (b : Text) : Prop :=
  index endTag (xs.flatten ++ b) = none ∨ ∃ pre x post i, xs = pre ++ x :: post ∧
    index endTag x = some i ∧ index endTag (xs.flatten ++ b) = some (pre.flatten.length + i) ∧
    ∀ y ∈ post, index startTag y = none

/-- **The start tags are whole**: they lie within one piece, what comes before them is reasoning as well and
has no end tag, and after they have been stripped the end tag is whole. -/
def Started (startTag endTag : Text) (force : Bool) (chunks : List Text) : Prop :=
  ∃ pre x post b, pieces [startTag, endTag] [] chunks = (pre ++ x :: post, b) ∧
    (index startTag x).isSome ∧ (pre = [] ∨ force = true) ∧
    (∀ y ∈ pre, index startTag y = none ∧ index endTag y = none) ∧
    replaceAll startTag [] chunks.flatten =
      (pre ++ replaceAll startTag [] x :: post).flatten ++ b ∧
    Whole startTag endTag (pre ++ replaceAll startTag [] x :: post) b

section

variable {d : Detector} {b tag x : Text} {xs pre post : List Text} {i : ℕ}

theorem index_piece (h : index tag (xs.flatten ++ b) = none) : ∀ x ∈ xs, index tag x = none := by
  intro x hx
  obtain ⟨pre, post, rfl⟩ := append_of_mem hx
  refine Option.eq_none_iff_forall_ne_some.2 fun i hi => ?_
  obtain ⟨k, -, hk⟩ := index_context hi pre.flatten (post.flatten ++ b)
  rw [flatten_append, flatten_cons, append_assoc, append_assoc, ← append_assoc, hk] at h
  cases h

/-- Nothing before the first occurrence is an occurrence. -/
theorem index_before (ht : tag ≠ [])
    (h : index tag ((pre ++ xs).flatten ++ b) = some (pre.flatten.length + i)) :
    ∀ x ∈ pre, index tag x = none := by
  intro x hx
  obtain ⟨a, c, rfl⟩ := append_of_mem hx
  refine Option.eq_none_iff_forall_ne_some.2 fun j hj => ?_
  obtain ⟨k, hk, hi⟩ := index_context hj a.flatten (c.flatten ++ (xs.flatten ++ b))
  obtain ⟨u, v, rfl, rfl⟩ := index_split hj
  have hl := length_pos_of_ne_nil ht
  simp only [flatten_append, flatten_cons, append_assoc] at h hi
  rw [hi] at h
  have := Option.some.inj h
  simp only [length_append] at this
  omega

theorem flatten_split (pre post : List Text) (u v b : Text) : (pre ++ (u ++ tag ++ v) :: post).flatten ++ b =
    (pre.flatten ++ u) ++ tag ++ (v ++ (post.flatten ++ b)) := by
  simp

theorem readAll_singleton (d : Detector) (x : Text) : d.readAll [x] = (d.read x).2 := by
  simp [readAll]

theorem readAll_of_whole (h : Reasons d xs) (ho : Reasons d [xs.flatten ++ b]) (hne : d.thinkEndTag ≠ [])
    (hw : Whole d.thinkStartTag d.thinkEndTag xs b) :
    ((d.readAll xs).1 ++ b, (d.readAll xs).2) = d.readAll [xs.flatten ++ b] ∨
      ((d.readAll xs).1, (d.readAll xs).2 ++ b) = d.readAll [xs.flatten ++ b] := by
  rw [readAll_singleton]
  rcases hw with he | ⟨pre, x, post, i, rfl, hi, hw, hs⟩
  · rw [readAll_reasoning h (index_piece he), read_reasoning ho he]
    exact .inl rfl
  · obtain ⟨u, v, rfl, rfl⟩ := index_split hi
    rw [readAll_split h (index_before hne hw) hi hs]
    rw [flatten_split] at ho hw ⊢
    rw [← length_append] at hw
    rw [read_end ho hw]
    exact .inr (by simp)

theorem agrees_iff_readAll (hd : d.streamReasoning = true) (hb : d.buffer = [])
    (hm : ¬ d.MayBecomeTag xs.flatten) (hp : pieces d.tags [] xs = (pre, b)) :
    Agrees d xs ↔ ((d.readAll pre).1 ++ b, (d.readAll pre).2) = d.readAll [xs.flatten] ∨
      ((d.readAll pre).1, (d.readAll pre).2 ++ b) = d.readAll [xs.flatten] := by
  have hn : { d with buffer := [] } = d := by rw [← hb]
  have ho : pieces d.tags [] [xs.flatten] = ([xs.flatten], []) := if_neg hm
  obtain ⟨hc, hr⟩ := parseAll_eq_readAll xs hd
  obtain ⟨hc', hr'⟩ := parseAll_eq_readAll [xs.flatten] hd
  rw [hb, hp] at hc
  rw [hb, ho] at hc'
  rw [hb, hn, hp] at hr
  rw [hb, hn, ho] at hr'
  rw [← hr, ← hr', Agrees, completions, completions, hc, hc']
  simp [eq_comm]

/-- The first piece with the tag. -/
theorem exists_first (h : ¬ ∀ x ∈ xs, index tag x = none) :
    ∃ pre x post i, xs = pre ++ x :: post ∧ (∀ y ∈ pre, index tag y = none) ∧ index tag x = some i := by
  induction xs with
  | nil => simp at h
  | cons x xs ih =>
    cases hx : index tag x with
    | some i => exact ⟨[], x, xs, i, rfl, by simp, hx⟩
    | none =>
      obtain ⟨pre, y, post, i, rfl, hp, hi⟩ := ih fun hn => h (forall_mem_cons.2 ⟨hx, hn⟩)
      exact ⟨x :: pre, y, post, i, rfl, forall_mem_cons.2 ⟨hx, hp⟩, hi⟩

/-- **An end tag that is cut is missed**: the reasoning gets longer, or nothing is stripped. -/
theorem whole_of_readAll (h : Reasons d xs) (ho : Reasons d [xs.flatten ++ b]) (hne : d.thinkEndTag ≠ [])
    (hs : ∀ x ∈ xs, index d.thinkStartTag x = none)
    (ha : ((d.readAll xs).1 ++ b, (d.readAll xs).2) = d.readAll [xs.flatten ++ b] ∨
      ((d.readAll xs).1, (d.readAll xs).2 ++ b) = d.readAll [xs.flatten ++ b]) :
    Whole d.thinkStartTag d.thinkEndTag xs b := by
  cases hk : index d.thinkEndTag (xs.flatten ++ b) with
  | none => exact .inl hk
  | some k =>
  obtain ⟨u, v, hu, rfl⟩ := index_split hk
  rw [hu] at ho hk ha
  rw [readAll_singleton, read_end ho hk] at ha
  have hl := length_pos_of_ne_nil hne
  have hl' := congrArg length hu
  by_cases he : ∀ x ∈ xs, index d.thinkEndTag x = none
  · -- no piece has the tag, so that it comes out
    rw [readAll_reasoning h he] at ha
    rcases ha with ha | ha <;> obtain ⟨h₁, h₂⟩ := Prod.mk.inj ha <;>
      have h₁ := congrArg length h₁ <;> have h₂ := congrArg length h₂ <;>
      simp only [length_append, length_nil] at h₁ h₂ hl' <;> omega
  · obtain ⟨pre, x, post, i, rfl, hp, hi⟩ := exists_first he
    obtain ⟨u', v', rfl, rfl⟩ := index_split hi
    refine .inr ⟨pre, _, post, _, rfl, hi, ?_, fun y hy => hs y (by simp [hy])⟩
    -- the first piece with the tag is not before the first tag
    obtain ⟨k, hki, hk'⟩ := index_context hi pre.flatten (post.flatten ++ b)
    rw [readAll_split h hp hi fun y hy => hs y (by simp [hy])] at ha
    rw [flatten_split] at hu ⊢
    rw [hu, hk]
    simp only [← append_assoc] at hk' hu
    rw [hu, hk] at hk'
    have hku := Option.some.inj hk'
    rcases ha with ha | ha <;> have h₁ := congrArg length (Prod.mk.inj ha).1 <;>
      simp only [length_append] at h₁ <;> congr 1 <;> omega

end

section

variable {startTag endTag : Text} (hne : endTag ≠ []) (force : Bool) (chunks : List Text)

theorem agrees_of_mayBecomeTag (hm : (newBase startTag endTag force true).MayBecomeTag chunks.flatten) :
    Agrees (newBase startTag endTag force true) chunks := by
  have hb : ∀ xs : List Text, xs.flatten = chunks.flatten →
      completions ((newBase startTag endTag force true).parseAll xs) =
        [(chunks.flatten, []), ([], chunks.flatten)] := by
    intro xs hx
    obtain ⟨hc, hr⟩ := parseAll_eq_readAll xs (d := newBase startTag endTag force true) rfl
    have hp := pieces_of_mayBecomeTag xs [] (hx ▸ hm)
    rw [show (newBase startTag endTag force true).buffer = [] from rfl, hp, hx] at hc hr
    obtain ⟨hf, hs⟩ := Prod.mk.inj hr
    rw [completions, hc, hf, hs]
    rfl
  rw [Agrees, hb chunks rfl, hb [chunks.flatten] (by simp)]
  exact ⟨_, mem_cons_self, mem_cons_self⟩

include hne

theorem agrees_iff_whole (hs : index startTag chunks.flatten = none) :
    Agrees (newBase startTag endTag force true) chunks ↔
      force = false ∨ (newBase startTag endTag force true).MayBecomeTag chunks.flatten ∨
        Whole startTag endTag (pieces [startTag, endTag] [] chunks).1
          (pieces [startTag, endTag] [] chunks).2 := by
  by_cases hm : (newBase startTag endTag force true).MayBecomeTag chunks.flatten
  · exact iff_of_true (agrees_of_mayBecomeTag force chunks hm) (.inr (.inl hm))
  rcases hp : pieces [startTag, endTag] [] chunks with ⟨xs, b⟩
  have hf := flatten_pieces [startTag, endTag] chunks []
  rw [hp, nil_append] at hf
  rw [agrees_iff_readAll rfl rfl hm hp]
  rw [← hf] at hs ⊢
  have hx : ∀ x ∈ xs, index startTag x = none := index_piece hs
  have ho : ∀ x ∈ [xs.flatten ++ b], index startTag x = none := forall_mem_singleton.2 hs
  cases force with
  | false =>
    rw [readAll_content rfl rfl hx, readAll_content rfl rfl ho]
    exact iff_of_true (.inr (by simp)) (.inl rfl)
  | true =>
    have hr : Reasons (newBase startTag endTag true true) xs := ⟨rfl, rfl, rfl, .inr hx⟩
    have hr' : Reasons (newBase startTag endTag true true) [xs.flatten ++ b] :=
      ⟨rfl, rfl, rfl, .inr ho⟩
    refine ⟨fun ha => .inr (.inr (whole_of_readAll hr hr' hne hx ha)), ?_⟩
    rintro (h | h | h)
    · cases h
    · exact absurd (hf ▸ h) hm
    · exact readAll_of_whole hr hr' hne h

theorem agrees_of_started (h : Started startTag endTag force chunks) :
    Agrees (newBase startTag endTag force true) chunks := by
  obtain ⟨pre, x, post, b, hp, hx, hpre, ht, hre, hw⟩ := h
  have hf := flatten_pieces [startTag, endTag] chunks []
  rw [hp, nil_append] at hf
  have hm : ¬ (newBase startTag endTag force true).MayBecomeTag chunks.flatten := by
    intro hm
    have := hp.symm.trans (pieces_of_mayBecomeTag chunks [] hm)
    simp at this
  -- the whole text has a start tag as well
  have hs : (index startTag chunks.flatten).isSome := by
    obtain ⟨i, hi⟩ := Option.isSome_iff_exists.1 hx
    obtain ⟨k, -, hk⟩ := index_context hi pre.flatten (post.flatten ++ b)
    rw [← hf, flatten_append, flatten_cons, append_assoc, append_assoc, ← append_assoc, hk]
    rfl
  have hr : ∀ xs, Reasons { newBase startTag endTag true true with strippedThinkStart := true } xs :=
    fun xs => ⟨rfl, rfl, rfl, .inl rfl⟩
  have hq : (newBase startTag endTag force true).readAll (pre ++ x :: post) =
      { newBase startTag endTag true true with strippedThinkStart := true }.readAll
        (pre ++ replaceAll startTag [] x :: post) := by
    rcases hpre with rfl | rfl
    · exact readAll_start rfl hx post
    · have he : ∀ y ∈ pre, index endTag y = none := fun y hy => (ht y hy).2
      rw [readAll_append ⟨rfl, rfl, rfl, .inr fun y hy => (ht y hy).1⟩ he, readAll_append (hr pre) he,
        readAll_start rfl hx]
      rfl
  rw [agrees_iff_readAll rfl rfl hm hp, hq, readAll_start rfl hs]
  dsimp only [newBase] at hre ⊢
  rw [hre]
  exact readAll_of_whole (hr _) (hr _) hne hw

end

end Llumnix.Chat.Detector
