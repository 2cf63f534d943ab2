/-
**The finish reason of a chat in a stream.**

The client is to be given the finish reason once, with the last response.  If the chunk with it also has a
text, the reason is kept for the end; but if the parsers keep all of the text back, the chunk is dropped
before its finish reason is looked at.  If the chunk has no text, the response for it carries the finish
reason; then the end marker has the last chunk processed once more, and if that is the same chunk, the
client is given it twice.

In one case a text that was kept back does not cost the client the finish reason: the chunk is the last one,
the end marker has it read again, the text is let through then, and the tokens that are counted twice reach
the limit.

* `finishesOnce_iff` — **when the client is given the reason once**.
-/

import Llumnix.ChatStream

namespace Llumnix.Chat

open List Nat Prod
open Option (map_none none_or some_or toList_none toList_some)

variable {choices : List StreamChoice}
variable {p : Piece} {ps : List Piece}

/-- **One finish reason**, in the last choice that is sent. -/
def FinishesOnce (choices : List StreamChoice) : Prop :=
  ∃ front last, choices = front ++ [last] ∧ last.finishReason ≠ "" ∧ ∀ choice ∈ front, choice.finishReason = ""

/-- After these chunks, which do not end the answer, the parsers let something of the chunk through. -/
def LetsThrough {σ : Type} (γ : Processor σ) (limit : Nat) (tools : Text) (rd : Reading σ)
    (resps : List CompletionResponse) (resp : CompletionResponse) : Prop :=
  ∃ rd' pieces rd'' p, γ.through limit tools rd resps = some (rd', pieces) ∧
    γ.read tools rd' resp = .ok (rd'', some p)

/-! ### One finish reason -/

theorem not_finishesOnce_of_unfinished (h : ∀ choice ∈ choices, choice.finishReason = "") :
    ¬ FinishesOnce choices := by
  rintro ⟨front, last, rfl, hl, -⟩
  exact hl (h last (by simp))

theorem finishesOnce_concat {last : StreamChoice} (h : ∀ choice ∈ choices, choice.finishReason = "")
    (hl : last.finishReason ≠ "") : FinishesOnce (choices ++ [last]) :=
  ⟨choices, last, rfl, hl, h⟩

theorem FinishesOnce.dropLast (h : FinishesOnce choices) :
    ∀ reason ∈ (choices.map StreamChoice.finishReason).dropLast, reason = "" := by
  obtain ⟨front, last, rfl, -, hf⟩ := h
  rw [map_append, map_singleton, dropLast_concat]
  intro reason hr
  obtain ⟨choice, hc, rfl⟩ := mem_map.1 hr
  exact hf choice hc

theorem not_finishesOnce_of_two {x y : StreamChoice} (hx : x.finishReason ≠ "") :
    ¬ FinishesOnce (choices ++ [x, y]) := by
  intro h
  refine hx (h.dropLast _ ?_)
  simp [dropLast_append_of_ne_nil]

/-! ### Pieces -/

/-- The response for the piece has no finish reason: there is none, or it is kept. -/
def Piece.Quiet (p : Piece) : Prop := p.choice.finishReason = "" ∨ p.choice.text ≠ []

theorem streamFinishReason_ne_empty {choice : CompletionChoice} (hf : choice.finishReason ≠ "")
    (hasToolCalls : Bool) : streamFinishReason hasToolCalls choice ≠ "" := by
  unfold streamFinishReason
  split
  · decide
  · exact hf

theorem show_of_quiet (h : p.Quiet) (hasToolCalls : Bool) : (p.show hasToolCalls).1.finishReason = "" := by
  by_cases hf : p.choice.finishReason = ""
  · simp [Piece.show, streamFinishReason, hf]
  · exact if_pos ⟨hf, h.resolve_left hf⟩

theorem show_of_not_quiet (h : ¬ p.Quiet) (hasToolCalls : Bool) :
    (p.show hasToolCalls).1.finishReason ≠ "" := by
  obtain ⟨hf, ht⟩ := not_or.1 h
  have hs : ¬ needSplitLastResp p.choice := fun hb => ht hb.2
  rw [Piece.show, if_neg hs]
  exact streamFinishReason_ne_empty hf _

theorem showAll_of_quiet (h : ∀ p ∈ ps, p.Quiet) (hasToolCalls : Bool) :
    ∀ x ∈ (showAll hasToolCalls ps).map fst, x.finishReason = "" := by
  induction ps generalizing hasToolCalls with
  | nil => exact fun x hx => nomatch hx
  | cons p ps ih =>
    rw [forall_mem_cons] at h
    exact forall_mem_cons.2 ⟨show_of_quiet h.1 _, ih h.2 _⟩

theorem pending_of_unfinished (h : ∀ p ∈ ps, p.choice.finishReason = "") : pending ps = none := by
  have hn : (ps.filter fun p => needSplitLastResp p.choice) = [] := by
    rw [filter_eq_nil_iff]
    intro p hp
    simp [needSplitLastResp, h p hp]
  rw [pending, hn]
  rfl

/-! ### The answer -/

section

variable {σ : Type} {γ : Processor σ} {limit : Nat} {tools : Text} {rd : Reading σ} {pieces : List Piece}
variable {resp : CompletionResponse}
variable {a : Answer σ} {last : Option CompletionResponse} {choice : CompletionChoice}

/-- An answer all of whose pieces are quiet, and that has not been closed. -/
theorem not_finishesOnce_of_quiet (h : ∀ p ∈ a.pieces, p.Quiet) (hc : a.closing = none) :
    ¬ FinishesOnce (a.shown.map fst) := by
  rw [Answer.shown, hc, map_none, toList_none, append_nil]
  exact not_finishesOnce_of_unfinished (showAll_of_quiet h false)

theorem finishesOnce_of_closing (h : ∀ p ∈ a.pieces, p.Quiet) {p : Piece} (hc : a.closing = some p)
    (hf : p.choice.finishReason ≠ "") : FinishesOnce (a.shown.map fst) := by
  rw [Answer.shown, hc, Option.map_some, toList_some, map_append]
  exact finishesOnce_concat (showAll_of_quiet h false) hf

theorem finish_unfinished (γ : Processor σ) (tools : Text) (rd : Reading σ)
    (hpi : ∀ p ∈ pieces, p.choice.finishReason = "") (hre : ∀ c ∈ resp.choices, c.finishReason = "") :
    (∀ p ∈ (γ.finish tools rd pieces resp).pieces, p.choice.finishReason = "") ∧
      (γ.finish tools rd pieces resp).closing = none := by
  obtain ⟨extra, he, hc, hcl⟩ := finish_spec γ tools rd pieces resp
  rw [he, hcl]
  exact ⟨forall_mem_append.2 ⟨hpi, fun p hp => hre _ (hc p hp)⟩, pending_of_unfinished hpi⟩

/-- **Chunks without a finish reason give an answer without one.** -/
theorem answer_unfinished (γ : Processor σ) (limit : Nat) (tools : Text) (rd : Reading σ)
    {resps : List CompletionResponse} (hpi : ∀ p ∈ pieces, p.choice.finishReason = "")
    (hl : ∀ r ∈ last, ∀ c ∈ r.choices, c.finishReason = "")
    (hrs : ∀ r ∈ resps, ∀ c ∈ r.choices, c.finishReason = "") :
    (∀ p ∈ (γ.answer limit tools rd pieces last resps).pieces, p.choice.finishReason = "") ∧
      (γ.answer limit tools rd pieces last resps).closing = none := by
  induction resps generalizing rd pieces last with
  | nil =>
    cases last with
    | none => exact ⟨hpi, rfl⟩
    | some resp =>
      have hf := finish_unfinished γ tools rd hpi (hl resp rfl)
      simp only [Processor.answer, Processor.done]
      split
      · exact finish_unfinished γ tools _ hf.1 (hl resp rfl)
      · exact hf
  | cons resp resps ih =>
  have hre := hrs resp mem_cons_self
  have hm : ∀ {rd' : Reading σ} {piece : Option Piece}, γ.read tools rd resp = .ok (rd', piece) →
      ∀ p ∈ pieces ++ piece.toList, p.choice.finishReason = "" := by
    intro rd' piece hrd p hp
    rcases mem_append.1 hp with hp | hp
    · exact hpi p hp
    · exact hre _ (choice_of_read hrd p (Option.mem_toList.1 hp))
  rw [Processor.answer]
  split
  · exact ⟨hpi, rfl⟩
  next rd' piece ht => exact finish_unfinished γ tools _ (hm (take_stopped_iff.1 ht).2.1) hre
  next rd' piece ht =>
    refine ih rd' (hm (take_more_iff.1 ht).2.1) ?_ fun r hr => hrs r (mem_cons_of_mem _ hr)
    intro r hr
    cases hr
    exact hre

/-- The last chunk with a choice is read. -/
theorem answer_of_read {rd' : Reading σ} {piece : Option Piece} {post : List CompletionResponse}
    (hr : resp.choices = [choice]) (hre : γ.read tools rd resp = .ok (rd', piece))
    (hps : ∀ r ∈ post, r.choices = []) :
    γ.answer limit tools rd pieces last (resp :: post) =
      if rd'.exceeds limit then γ.finish tools rd' (pieces ++ piece.toList) resp
      else γ.done limit tools rd' (pieces ++ piece.toList) (post.getLast?.or (some resp)) := by
  have ho : resp.choices.length ≤ 1 := by rw [hr]; exact le_refl 1
  cases he : rd'.exceeds limit with
  | true => exact answer_of_stopped (take_stopped_iff.2 ⟨ho, hre, he⟩)
  | false => rw [answer_of_more (take_more_iff.2 ⟨ho, hre, he⟩), answer_of_nil he hps]; rfl

/-- The chunk with the finish reason has no text: the client is given the finish reason with its response,
and again if it is the last chunk. -/
theorem finishesOnce_of_text_nil {post : List CompletionResponse} (hr : resp.choices = [choice])
    (hl : rd.exceeds limit = false) (hpi : ∀ p ∈ pieces, p.choice.finishReason = "")
    (hfi : choice.finishReason ≠ "") (ht : choice.text = []) (hps : ∀ r ∈ post, r.choices = []) :
    FinishesOnce ((γ.answer limit tools rd pieces last (resp :: post)).shown.map fst) ↔ post ≠ [] := by
  obtain ⟨p, hre, hp⟩ : ∃ p, γ.read tools rd resp = .ok (rd, some p) ∧ p.choice = choice :=
    ⟨_, read_of_text_nil hr ht, rfl⟩
  have hlo : ¬ p.Quiet := by
    rw [Piece.Quiet, hp]
    exact not_or.2 ⟨hfi, not_not_intro ht⟩
  have hn : pending (pieces ++ [p]) = none := by
    rw [pending_concat, hp, if_neg fun hsp => hsp.2 ht]
    exact pending_of_unfinished hpi
  have hsh : ∀ x ∈ (showAll false pieces).map fst, x.finishReason = "" :=
    showAll_of_quiet (fun q hq => .inl (hpi q hq)) false
  rw [answer_of_read hr hre hps, hl, if_neg Bool.false_ne_true, toList_some]
  cases hpo : post.getLast? with
  | none =>
    obtain rfl : post = [] := getLast?_eq_none_iff.1 hpo
    have hf := finish_of_read hn hre
    refine iff_of_false ?_ (fun hne => hne rfl)
    rw [none_or, done_of_within (by rw [hf]; exact hl), hf]
    simp only [Answer.shown, map_none, toList_none, toList_some, append_nil,
      showAll_append, map_append, append_assoc]
    exact not_finishesOnce_of_two (show_of_not_quiet hlo _)
  | some r =>
  have hm : r ∈ post := mem_of_getLast? hpo
  have hs : γ.read tools rd r = .ok (rd, none) := read_of_nil (hps r hm)
  have hf := finish_of_read hn hs
  refine iff_of_true ?_ (ne_nil_of_mem hm)
  rw [some_or, done_of_within (by rw [hf]; exact hl), hf]
  simp only [Answer.shown, map_none, toList_none, append_nil, showAll_append, map_append]
  exact finishesOnce_concat hsh (show_of_not_quiet hlo _)

theorem quiet_finish (γ : Processor σ) (tools : Text) (hr : resp.choices = [choice]) (ht : choice.text ≠ [])
    (hpi : ∀ p ∈ pieces, p.choice.finishReason = "") (rd : Reading σ) :
    (∀ p ∈ (γ.finish tools rd pieces resp).pieces, p.Quiet) ∧
      (γ.finish tools rd pieces resp).closing = none := by
  obtain ⟨extra, he, hc, hcl⟩ := finish_spec γ tools rd pieces resp
  rw [he, hcl]
  refine ⟨forall_mem_append.2 ⟨fun p hp => .inl (hpi p hp), fun p hp => .inr ?_⟩, pending_of_unfinished hpi⟩
  have hm := hc p hp
  rw [hr, mem_singleton] at hm
  rwa [hm]

/-- A piece with a text and a finish reason is kept, and sent in the end. -/
theorem finishesOnce_of_split (hpi : ∀ p ∈ pieces, p.choice.finishReason = "") {q : Piece}
    (hs : needSplitLastResp q.choice) (rd : Reading σ) :
    FinishesOnce ((Answer.shown ⟨rd, pieces ++ [q], some q, false⟩).map fst) := by
  refine finishesOnce_of_closing (forall_mem_append.2 ⟨fun p hp => .inl (hpi p hp), ?_⟩) rfl hs.1
  exact forall_mem_singleton.2 (.inr hs.2)

/-- The answer is ended a second time: the chunk is let through when it is read again, and reaches the
limit. -/
def Reopens (γ : Processor σ) (limit : Nat) (tools : Text) (rd : Reading σ) (resp : CompletionResponse) : Prop :=
  ∃ rd' q, γ.read tools rd resp = .ok (rd', some q) ∧ rd'.exceeds limit = true

/-- The end, after a chunk whose text has been kept back. -/
theorem done_of_held (γ : Processor σ) (tools : Text) (hl : rd.exceeds limit = false)
    (hpi : ∀ p ∈ pieces, p.choice.finishReason = "") (hr : resp.choices = [choice])
    (hs : needSplitLastResp choice) :
    (Reopens γ limit tools rd resp ∧ ∃ rd' q, q.choice = choice ∧
        γ.done limit tools rd pieces (some resp) = ⟨rd', pieces ++ [q], some q, false⟩) ∨
      ¬ Reopens γ limit tools rd resp ∧ (∀ p ∈ (γ.done limit tools rd pieces (some resp)).pieces, p.Quiet) ∧
        (γ.done limit tools rd pieces (some resp)).closing = none := by
  have hn := pending_of_unfinished hpi
  have hq := quiet_finish γ tools hr hs.2 hpi
  cases hre : γ.read tools rd resp with
  | error =>
    rw [done_of_within (by rw [finish_of_error hn hre]; exact hl)]
    exact .inr ⟨by simp [Reopens, hre], hq rd⟩
  | ok r =>
  obtain ⟨rd', piece⟩ := r
  have hf := finish_of_read hn hre
  cases he : rd'.exceeds limit with
  | false =>
    rw [done_of_within (by rw [hf]; exact he)]
    exact .inr ⟨by simp [Reopens, hre, he], hq rd⟩
  | true =>
  rw [done_of_exceeds (by rw [hf]; exact he), hf]
  cases piece with
  | none =>
    rw [toList_none, append_nil]
    exact .inr ⟨by simp [Reopens, hre], hq rd'⟩
  | some q =>
    have hqc := choice_of_read hre q rfl
    rw [hr, mem_singleton] at hqc
    rw [toList_some, finish_of_pending (by rw [pending_concat, hqc, if_pos hs])]
    exact .inl ⟨⟨rd', q, hre, he⟩, rd', q, hqc, rfl⟩

section

variable {last : Option CompletionResponse} {resp : CompletionResponse} {post : List CompletionResponse}
  {choice : CompletionChoice}
variable {rd' : Reading σ}

/-- The chunk with the finish reason has a text, and something of it is let through: the finish reason is sent
in the end. -/
theorem finishesOnce_of_kept (hrs : resp.choices = [choice])
    (hpi : ∀ p ∈ pieces, p.choice.finishReason = "") (hs : needSplitLastResp choice)
    (hpo : ∀ r ∈ post, r.choices = []) {q : Piece} (hre : γ.read tools rd resp = .ok (rd', some q)) :
    FinishesOnce ((γ.answer limit tools rd pieces last (resp :: post)).shown.map fst) := by
  have hq := choice_of_read hre q rfl
  rw [hrs, mem_singleton] at hq
  rw [← hq] at hs
  have hp : pending (pieces ++ [q]) = some q := by rw [pending_concat, if_pos hs]
  rw [answer_of_read hrs hre hpo, toList_some]
  split
  · rw [finish_of_pending hp]
    exact finishesOnce_of_split hpi hs rd'
  · next he =>
    rw [Option.or_some, done_of_within (by rw [finish_of_pending hp]; exact Bool.eq_false_iff.2 he),
      finish_of_pending hp]
    exact finishesOnce_of_split hpi hs rd'

/-- The chunk with the finish reason has a text that is held back: the reason is lost, unless the end marker
has the chunk read again, something is let through then, and the limit is reached. -/
theorem finishesOnce_of_held (hr : resp.choices = [choice])
    (hpi : ∀ p ∈ pieces, p.choice.finishReason = "") (hs : needSplitLastResp choice)
    (hps : ∀ r ∈ post, r.choices = []) (hre : γ.read tools rd resp = .ok (rd', none)) :
    FinishesOnce ((γ.answer limit tools rd pieces last (resp :: post)).shown.map fst) ↔
      post = [] ∧ rd'.exceeds limit = false ∧
        ∃ rd'' q, γ.read tools rd' resp = .ok (rd'', some q) ∧ rd''.exceeds limit = true := by
  have hn := pending_of_unfinished hpi
  have hqu : ∀ p ∈ pieces, p.Quiet := fun p hp => .inl (hpi p hp)
  rw [answer_of_read hr hre hps, toList_none, append_nil]
  cases he : rd'.exceeds limit with
  | true =>
    obtain ⟨hq, hc⟩ := quiet_finish γ tools hr hs.2 hpi rd'
    exact iff_of_false (not_finishesOnce_of_quiet hq hc) fun ha => by cases ha.2.1
  | false =>
  rw [if_neg Bool.false_ne_true]
  cases hpo : post.getLast? with
  | some r =>
    have hm : r ∈ post := mem_of_getLast? hpo
    have hsi : γ.read tools rd' r = .ok (rd', none) := read_of_nil (hps r hm)
    have hf := finish_of_read hn hsi
    refine iff_of_false ?_ (fun ha => ne_nil_of_mem hm ha.1)
    rw [some_or, done_of_within (by rw [hf]; exact he), hf]
    rw [toList_none, append_nil]
    exact not_finishesOnce_of_quiet hqu rfl
  | none =>
  obtain rfl : post = [] := getLast?_eq_none_iff.1 hpo
  rw [none_or]
  obtain ⟨ho, rd₁, q, hq, hd⟩ | ⟨ho, hq, hc⟩ := done_of_held γ tools he hpi hr hs
  · rw [hd]
    exact iff_of_true (finishesOnce_of_split hpi (hq ▸ hs) rd₁) ⟨rfl, rfl, ho⟩
  · exact iff_of_false (not_finishesOnce_of_quiet hq hc) fun ha => ho ha.2.2

/-- **The finish reason, from the chunk on that has it.** -/
theorem finishesOnce_answer_iff (hl : rd.exceeds limit = false)
    (hpi : ∀ p ∈ pieces, p.choice.finishReason = "") (hfi : ∃ c ∈ resp.choices, c.finishReason ≠ "")
    (hpo : ∀ r ∈ post, r.choices = []) :
    FinishesOnce ((γ.answer limit tools rd pieces last (resp :: post)).shown.map fst) ↔
      ∃ choice, resp.choices = [choice] ∧ (choice.text = [] ∧ post ≠ [] ∨
          choice.text ≠ [] ∧ (∃ rd' q, γ.read tools rd resp = .ok (rd', some q)) ∨
          choice.text ≠ [] ∧ post = [] ∧ ∃ rd' piece rd'' q, γ.take limit tools rd resp = .more rd' piece ∧
            γ.read tools rd' resp = .ok (rd'', some q) ∧ rd''.exceeds limit = true) := by
  have hqu : ∀ p ∈ pieces, p.Quiet := fun p hp => .inl (hpi p hp)
  obtain ⟨choice, hme, hch⟩ := hfi
  rcases lt_or_ge 1 resp.choices.length with hm | ho
  · refine iff_of_false ?_ ?_
    · rw [answer_of_failed (take_failed_iff.2 (.inl hm))]
      exact not_finishesOnce_of_quiet hqu rfl
    · rintro ⟨c, hc, -⟩
      rw [hc] at hm
      exact lt_irrefl 1 hm
  have hr : resp.choices = [choice] := by
    obtain ⟨c, hc⟩ := length_eq_one_iff.1 (le_antisymm ho (length_pos_of_mem hme))
    rw [hc] at hme ⊢
    rw [mem_singleton.1 hme]
  by_cases ht : choice.text = []
  · rw [finishesOnce_of_text_nil hr hl hpi hch ht hpo]
    simp [hr, ht]
  have hs : needSplitLastResp choice := ⟨hch, ht⟩
  rcases hre : γ.read tools rd resp with e | ⟨rd', _ | q⟩
  · have hf : γ.take limit tools rd resp = .failed := take_failed_iff.2 (.inr ⟨e, hre⟩)
    rw [answer_of_failed hf]
    exact iff_of_false (not_finishesOnce_of_quiet hqu rfl) (by simp [hr, ht, hf])
  · rw [finishesOnce_of_held hr hpi hs hpo hre]
    simp [hr, ht, hre, take_more_iff]
  · exact iff_of_true (finishesOnce_of_kept hr hpi hs hpo hre) ⟨choice, hr, .inr (.inl ⟨ht, rd', q, rfl⟩)⟩

end

end

/-! ### The client -/

/-- **The client is given the finish reason once, in the end, if and only if** its chunk is reached, has one
choice, and: has no text and is not the last chunk; or something of its text is let through; or, being the
last, something is let through when it is read again, and that reaches the limit. -/
theorem finishesOnce_iff {σ : Type} {γ : Gateway σ} {tools : Text} {d : Detector} {τ : σ}
    {ctx : RequestContext σ} (hstart : Starts γ true tools d τ ctx) {pre post : List CompletionResponse}
    {resp : CompletionResponse} (hfinish : ∃ c ∈ resp.choices, c.finishReason ≠ "")
    (hpre : ∀ r ∈ pre, ∀ c ∈ r.choices, c.finishReason = "") (hpost : ∀ r ∈ post, r.choices = []) :
    ∃ ctx', γ.handle ctx.enter ((pre ++ resp :: post).map .of ++ [.finish]) = .ok (ctx', none) ∧
      (FinishesOnce ((shown ctx'.sent).map fst) ↔ ∃ choice, resp.choices = [choice] ∧
          (choice.text = [] ∧ post ≠ [] ∧
              (γ.processor.through ctx.stats.maxTokensLimit tools (.start d τ) pre).isSome ∨
            choice.text ≠ [] ∧ LetsThrough γ.processor ctx.stats.maxTokensLimit tools (.start d τ) pre resp ∨
            choice.text ≠ [] ∧ post = [] ∧
              LetsThrough γ.processor ctx.stats.maxTokensLimit tools (.start d τ) (pre ++ [resp]) resp ∧
              γ.processor.through ctx.stats.maxTokensLimit tools (.start d τ) (pre ++ [resp, resp]) =
                none)) := by
  obtain ⟨ctx', hh, hsh⟩ := hstart.handle (pre ++ resp :: post)
  refine ⟨ctx', hh, ?_⟩
  rw [hsh.sent]
  cases ht : γ.processor.through ctx.stats.maxTokensLimit tools (.start d τ) pre with
  | none =>
    -- the answer ends before the chunk with the finish reason
    refine iff_of_false ?_ ?_
    · rw [answer_of_through_eq_none _ ht]
      obtain ⟨hu, hc⟩ := answer_unfinished γ.processor ctx.stats.maxTokensLimit tools (.start d τ)
        (forall_mem_nil _) (fun r (hr : r ∈ none) => nomatch hr) hpre
      exact not_finishesOnce_of_quiet (fun p hp => .inl (hu p hp)) hc
    · rintro ⟨choice, -, ⟨-, -, hs⟩ | ⟨-, rd', ps, rd'', p, hs, -⟩ | ⟨-, -, ⟨rd', ps, rd'', p, hs, -⟩, -⟩⟩
      · cases hs
      · cases ht.symm.trans hs
      · rw [through_append, ht] at hs
        cases hs
  | some r =>
  obtain ⟨rd, ps⟩ := r
  have hl : rd.exceeds ctx.stats.maxTokensLimit = false := exceeds_of_through (exceeds_start _ d τ) ht
  rw [answer_append ht, nil_append,
    finishesOnce_answer_iff hl (forall_of_through ht hpre) hfinish hpost]
  refine exists_congr fun choice => and_congr_right fun hre => ?_
  have ho : resp.choices.length ≤ 1 := by rw [hre]; exact le_refl 1
  have htw : pre ++ [resp, resp] = pre ++ [resp] ++ [resp] := by
    rw [append_assoc]
    rfl
  refine or_congr ?_
    (or_congr (and_congr_right fun _ => ?_) (and_congr_right fun _ => and_congr_right fun _ => ?_))
  · exact and_congr_right fun _ => ⟨fun hne => ⟨hne, rfl⟩, And.left⟩
  · constructor
    · rintro ⟨rd', q, hq⟩
      exact ⟨rd, ps, rd', q, ht, hq⟩
    · rintro ⟨rd₁, ps₁, rd', q, ht₁, hq⟩
      cases ht.symm.trans ht₁
      exact ⟨rd', q, hq⟩
  · constructor
    · rintro ⟨rd', piece, rd'', q, hta, hq, he⟩
      have ha := (through_concat ht).2 ⟨piece, hta, rfl⟩
      refine ⟨⟨rd', _, rd'', q, ha, hq⟩, ?_⟩
      rw [htw, Option.eq_none_iff_forall_ne_some]
      rintro ⟨rd₁, ps₁⟩ hb
      obtain ⟨piece₁, hta₁, -⟩ := (through_concat ha).1 hb
      rw [take_stopped_iff.2 ⟨ho, hq, he⟩] at hta₁
      cases hta₁
    · rintro ⟨⟨rd', ps', rd'', q, ha, hq⟩, hn⟩
      obtain ⟨piece, hta, rfl⟩ := (through_concat ht).1 ha
      refine ⟨rd', piece, rd'', q, hta, hq, ?_⟩
      cases he : rd''.exceeds ctx.stats.maxTokensLimit with
      | true => rfl
      | false =>
        have hb := (through_concat ha).2 ⟨some q, take_more_iff.2 ⟨ho, hq, he⟩, rfl⟩
        rw [htw, hb] at hn
        cases hn

/-- A chat with a chunk for the usage, and the same chat without it. -/
theorem finishesOnce_of_usageChunk : ∃ ctx ctx', plainGateway.handle (chatRequest true).enter
      ([choiceChunk "a" "", choiceChunk "" "stop", usageChunk].map .of ++ [.finish]) = .ok (ctx, none) ∧
    FinishesOnce ((shown ctx.sent).map fst) ∧
    plainGateway.handle (chatRequest true).enter
      ([choiceChunk "a" "", choiceChunk "" "stop"].map .of ++ [.finish]) = .ok (ctx', none) ∧
    ¬ FinishesOnce ((shown ctx'.sent).map fst) := by
  have hp : ∀ r ∈ [choiceChunk "a" ""], ∀ c ∈ r.choices, c.finishReason = "" := by decide +kernel
  have hf : ∃ c ∈ (choiceChunk "" "stop").choices, c.finishReason ≠ "" := by decide +kernel
  have hpo : ∀ r ∈ [usageChunk], r.choices = [] := by decide +kernel
  obtain ⟨ctx, hh, hi⟩ := finishesOnce_iff (starts_chatRequest true) hf hp hpo
  obtain ⟨ctx', hh', hi'⟩ := finishesOnce_iff (starts_chatRequest true) hf hp (forall_mem_nil _)
  refine ⟨ctx, ctx', hh, hi.2 ?_, hh', ?_⟩
  · exact ⟨_, rfl, .inl ⟨rfl, cons_ne_nil _ _, by decide +kernel⟩⟩
  · rw [hi']
    rintro ⟨choice, hc, ⟨-, hne, -⟩ | ⟨hne, -⟩ | ⟨hne, -⟩⟩
    · exact hne rfl
    · cases hc
      exact hne rfl
    · cases hc
      exact hne rfl

/-- **A chat without a chunk for the usage**: the client is told twice that the chat has finished. -/
theorem finish_twice : ¬ ∀ (γ : Gateway Unit) (tools : Text) (d : Detector) (τ : Unit)
    (ctx ctx' : RequestContext Unit) (pre post : List CompletionResponse) (resp : CompletionResponse),
      Starts γ true tools d τ ctx →
      (∃ c ∈ resp.choices, c.finishReason ≠ "") → (∀ r ∈ pre, ∀ c ∈ r.choices, c.finishReason = "") →
      (∀ r ∈ post, r.choices = []) →
      γ.handle ctx.enter ((pre ++ resp :: post).map .of ++ [.finish]) = .ok (ctx', none) →
      FinishesOnce ((shown ctx'.sent).map fst) := by
  intro ha
  have hr : ∃ r ∈ (plainGateway.handle (chatRequest true).enter
      ([choiceChunk "a" "", choiceChunk "" "stop"].map .of ++ [.finish])).toOption, r.2 = none ∧
        ((shown r.1.sent).map fst).map StreamChoice.finishReason = ["", "stop", "stop"] := by
    decide +kernel
  obtain ⟨ctx', hh, hs⟩ := ok_of_exists hr
  have ho := ha plainGateway [] _ () (chatRequest true) ctx' [choiceChunk "a" ""] []
    (choiceChunk "" "stop") (starts_chatRequest true) (by decide +kernel) (by decide +kernel)
    (forall_mem_nil _) hh
  have hdr := ho.dropLast
  rw [hs] at hdr
  exact absurd (hdr "stop" (by decide)) (by decide)

end Llumnix.Chat
