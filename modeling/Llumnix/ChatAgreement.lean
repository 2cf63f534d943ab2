/-
**A chat in a stream and in one piece.**

Two clients ask for the same chat, one for a stream and one for an answer in one piece, and the backend
sends both the same chunks.  What the first puts together from the deltas is to be what the second receives.

* `agrees_iff` — **the replies are the same if and only if the chunks agree**.
-/

import Llumnix.ChatCollect
import Llumnix.StreamFinish
import Llumnix.ToolFragments

namespace Llumnix.Chat

open List

variable {reasons : List String} {pieces : List Piece}
variable {ps : List Piece} {σ α : Type} {reason : String}

/-! ### The deltas, put together -/

def lastReason (reasons : List String) : String := ((reasons.filter fun r => r ≠ "").getLast?).getD ""

/-- **The deltas, put together.** -/
def assemble (choices : List StreamChoice) : Reply where
  content := choices.flatMap fun choice => choice.delta.content
  reasoningContent := choices.flatMap fun choice => choice.delta.reasoningContent
  toolCalls := joinFragments (choices.flatMap fun choice => choice.delta.toolCalls)
  finishReason := lastReason (choices.map StreamChoice.finishReason)

theorem lastReason_append_of_empty {reasons' : List String} (h : ∀ r ∈ reasons', r = "") :
    lastReason (reasons ++ reasons') = lastReason reasons := by
  have hn : (reasons'.filter fun r => r ≠ "") = [] := by
    rw [filter_eq_nil_iff]
    intro r hr
    simp [h r hr]
  rw [lastReason, filter_append, hn, append_nil]
  rfl

theorem lastReason_of_empty (h : ∀ r ∈ reasons, r = "") : lastReason reasons = "" := by
  rw [← nil_append reasons, lastReason_append_of_empty h]
  rfl

theorem lastReason_concat {r : String} (h : r ≠ "") : lastReason (reasons ++ [r]) = r := by
  rw [lastReason, filter_append, filter_cons_of_pos (by simpa using h), filter_nil,
    getLast?_concat, Option.getD_some]

/-! ### The pieces, put together -/

def contents (pieces : List Piece) : Text := pieces.flatMap fun p => p.parsed.content

def reasonings (pieces : List Piece) : Text := pieces.flatMap fun p => p.parsed.reasoningContent

/-- The fragments of tool calls of the pieces. -/
def fragments (pieces : List Piece) : List ToolCall := pieces.flatMap fun p => p.parsed.toolCalls

theorem contents_append (ps qs : List Piece) : contents (ps ++ qs) = contents ps ++ contents qs :=
  flatMap_append

theorem reasonings_append (ps qs : List Piece) : reasonings (ps ++ qs) = reasonings ps ++ reasonings qs :=
  flatMap_append

theorem fragments_append (ps qs : List Piece) : fragments (ps ++ qs) = fragments ps ++ fragments qs :=
  flatMap_append

theorem contents_eq_nil : contents pieces = [] ↔ ∀ p ∈ pieces, p.parsed.content = [] := flatMap_eq_nil_iff

theorem reasonings_eq_nil : reasonings pieces = [] ↔ ∀ p ∈ pieces, p.parsed.reasoningContent = [] :=
  flatMap_eq_nil_iff

def CallsLast (pieces : List Piece) : Prop := ∃ p ∈ pieces.getLast?, p.callsTools = true

/-- The finish reason of the pieces in one piece. -/
def wholeReason (pieces : List Piece) : String :=
  pieces.getLast?.elim "" fun p => if p.callsTools then "tool_calls" else p.choice.finishReason

theorem collect_eq (pieces : List Piece) :
    collect pieces = ⟨contents pieces, reasonings pieces, mergeToolCalls [] (fragments pieces),
      wholeReason pieces⟩ := by
  induction pieces using reverseRecOn with
  | nil => rfl
  | append_singleton pieces p ih =>
    rw [collect_concat, ih]
    simp [Reply.extend, contents, reasonings, fragments, mergeToolCalls, wholeReason, foldl_append]

/-- The reasons that are sent with the pieces. -/
def shownReasons (hasToolCalls : Bool) (pieces : List Piece) : List String :=
  (showAll hasToolCalls pieces).map fun x => x.1.finishReason

theorem shownReasons_append (hasToolCalls : Bool) (ps qs : List Piece) :
    shownReasons hasToolCalls (ps ++ qs) =
      shownReasons hasToolCalls ps ++ shownReasons (hasToolCalls || ps.any Piece.callsTools) qs := by
  rw [shownReasons, showAll_append, map_append]
  rfl

theorem shownReasons_of_quiet (h : ∀ p ∈ ps, p.Quiet) (hasToolCalls : Bool) :
    ∀ r ∈ shownReasons hasToolCalls ps, r = "" := by
  intro r hr
  obtain ⟨x, hx, rfl⟩ := mem_map.1 hr
  exact showAll_of_quiet h hasToolCalls x.1 (mem_map.2 ⟨x, hx, rfl⟩)

theorem assemble_shown (a : Answer σ) :
    assemble (a.shown.map Prod.fst) = ⟨contents a.pieces, reasonings a.pieces, joinFragments (fragments a.pieces),
      lastReason (shownReasons false a.pieces ++ (a.closing.map fun p => p.choice.finishReason).toList)⟩ := by
  have hp : ∀ (hasToolCalls : Bool) (ps : List Piece) {β : Type} (f : StreamChoice → List β)
      (g : Piece → List β), (∀ b p, f (p.show b).1 = g p) →
      ((showAll hasToolCalls ps).map Prod.fst).flatMap f = ps.flatMap g := by
    intro hasToolCalls ps β f g hfg
    induction ps generalizing hasToolCalls with
    | nil => rfl
    | cons p ps ih => rw [showAll, map_cons, flatMap_cons, flatMap_cons, hfg, ih]
  have hc : ∀ {β : Type} (f : StreamChoice → List β) (g : Piece → List β), (∀ b p, f (p.show b).1 = g p) →
      (∀ p : Piece, f p.closing.1 = []) → (a.shown.map Prod.fst).flatMap f = a.pieces.flatMap g := by
    intro β f g hfg hf
    rw [Answer.shown, map_append, flatMap_append, hp false a.pieces f g hfg]
    cases a.closing with
    | none => simp
    | some => simp [hf]
  rw [assemble]
  congr 1
  · exact hc _ _ (fun _ _ => rfl) fun _ => rfl
  · exact hc _ _ (fun _ _ => rfl) fun _ => rfl
  · exact congrArg joinFragments (hc _ _ (fun _ _ => rfl) fun _ => rfl)
  · rw [Answer.shown, map_append, map_append, map_map, map_map]
    congr 2
    cases a.closing <;> rfl

/-! ### The finish reason in one piece -/

theorem wholeReason_of_callsLast (h : CallsLast pieces) : wholeReason pieces = "tool_calls" := by
  obtain ⟨p, hp, hc⟩ := h
  rw [wholeReason, Option.mem_def.1 hp, Option.elim_some, if_pos hc]

theorem wholeReason_of_not_callsLast (h : ¬ CallsLast pieces) :
    wholeReason pieces = (pieces.getLast?.map fun p => p.choice.finishReason).getD "" := by
  rw [wholeReason]
  cases hl : pieces.getLast? with
  | none => rfl
  | some p => exact if_neg fun hc => h ⟨p, hl, hc⟩

theorem getLast?_append_cons (ps qs : List α) (q : α) :
    (ps ++ q :: qs).getLast? = some (qs.getLast?.getD q) := by
  rcases eq_nil_or_concat qs with rfl | ⟨rs, r, rfl⟩
  · rw [getLast?_concat, getLast?_nil, Option.getD_none]
  · rw [concat_eq_append, ← cons_append, ← append_assoc, getLast?_concat, getLast?_concat, Option.getD_some]

theorem wholeReason_unfinished (h : ∀ p ∈ pieces, p.choice.finishReason = "")
    (hc : ¬ CallsLast pieces) : wholeReason pieces = "" := by
  rw [wholeReason_of_not_callsLast hc]
  cases hl : pieces.getLast? with
  | none => rfl
  | some p => exact h p (mem_of_getLast? hl)

/-- A piece with a finish reason, and pieces without one after it. -/
theorem wholeReason_finished {before after : List Piece} {q : Piece}
    (ha : ∀ p ∈ after, p.choice.finishReason = "") (hr : reason ≠ "") :
    wholeReason (before ++ q :: after) = reason ↔ CallsLast (before ++ q :: after) ∧ reason = "tool_calls" ∨
        after = [] ∧ q.callsTools = false ∧ q.choice.finishReason = reason := by
  by_cases hc : CallsLast (before ++ q :: after)
  · rw [wholeReason_of_callsLast hc]
    constructor
    · exact fun heq => .inl ⟨hc, heq.symm⟩
    · rintro (⟨-, heq⟩ | ⟨rfl, hn, -⟩)
      · exact heq.symm
      · obtain ⟨p, hp, hca⟩ := hc
        rw [getLast?_concat] at hp
        cases hp
        cases hn.symm.trans hca
  · rw [wholeReason_of_not_callsLast hc, getLast?_append_cons, Option.map_some, Option.getD_some]
    cases hla : after.getLast? with
    | none =>
      obtain rfl := getLast?_eq_none_iff.1 hla
      have hn : q.callsTools = false := by
        by_contra hca
        exact hc ⟨q, getLast?_concat, by simpa using hca⟩
      rw [Option.getD_none]
      exact ⟨fun heq => .inr ⟨rfl, hn, heq⟩, fun hor => hor.elim (fun hl => absurd hl.1 hc) (·.2.2)⟩
    | some p =>
      rw [Option.getD_some, ha p (mem_of_getLast? hla)]
      refine iff_of_false (Ne.symm hr) ?_
      rintro (⟨hc', -⟩ | ⟨rfl, -, -⟩)
      · exact hc hc'
      · cases hla

/-! ### What the end adds -/

section

variable {σ : Type} (γ : Processor σ) (limit : Nat) (tools : Text)

/-- The finish reason of the piece is kept for the end. -/
def keeps (piece : Option Piece) : Bool := piece.any fun p => needSplitLastResp p.choice

/-- What the parsers let through of a chunk that is read again. -/
def Processor.reread (rd : Reading σ) (last : CompletionResponse) : List Piece :=
  (γ.read tools rd last).toOption.elim [] fun r => r.2.toList

/-- **What is read again at the end of a stream**: nothing if the chunk with the finish reason is kept;
otherwise the last chunk, and once more if it has reached the limit and is not kept itself. -/
def Processor.again (rd : Reading σ) (piece : Option Piece) (last : CompletionResponse) : List Piece :=
  if keeps piece then []
  else
    match γ.read tools rd last with
    | .error _ => []
    | .ok (rd', p) => p.toList ++ if rd'.exceeds limit && !keeps p then γ.reread tools rd' last else []

variable {γ limit tools} {rd : Reading σ} {pieces : List Piece} {last : CompletionResponse}

theorem choice_of_reread : ∀ p ∈ γ.reread tools rd last, p.choice ∈ last.choices := by
  intro p hp
  rw [Processor.reread] at hp
  cases hr : γ.read tools rd last with
  | error => simp [hr, Except.toOption] at hp
  | ok =>
    rw [hr] at hp
    exact choice_of_read hr p (Option.mem_toList.1 hp)

theorem finish_pieces (hp : pending pieces = none) :
    (γ.finish tools rd pieces last).pieces = pieces ++ γ.reread tools rd last := by
  rw [Processor.reread]
  cases hr : γ.read tools rd last with
  | error =>
    rw [finish_of_error hp hr]
    exact (append_nil _).symm
  | ok =>
    rw [finish_of_read hp hr]
    rfl

/-- **The end of a stream adds what is read again.** -/
theorem done_pieces (γ : Processor σ) (tools : Text) (last : CompletionResponse) (piece : Option Piece)
    (hl : rd.exceeds limit = false)
    (hp : if keeps piece then pending pieces ≠ none else pending pieces = none) :
    (γ.done limit tools rd pieces (some last)).pieces = pieces ++ γ.again limit tools rd piece last ∧
      ∀ p ∈ γ.again limit tools rd piece last, p.choice ∈ last.choices := by
  rw [Processor.again]
  split at hp
  · next hk =>
    obtain ⟨q, hq⟩ := Option.ne_none_iff_exists'.1 hp
    rw [if_pos hk, done_of_within (by rw [finish_of_pending hq]; exact hl), finish_of_pending hq, append_nil]
    exact ⟨rfl, forall_mem_nil _⟩
  · next hk =>
    rw [if_neg hk]
    cases hr : γ.read tools rd last with
    | error =>
      rw [done_of_within (by rw [finish_of_error hp hr]; exact hl), finish_of_error hp hr, append_nil]
      exact ⟨rfl, forall_mem_nil _⟩
    | ok r =>
    obtain ⟨rd', p⟩ := r
    have hf := finish_of_read hp hr
    have hc : ∀ q ∈ p.toList, q.choice ∈ last.choices :=
      fun q hq => choice_of_read hr q (Option.mem_toList.1 hq)
    dsimp only
    cases he : rd'.exceeds limit with
    | false =>
      rw [done_of_within (by rw [hf]; exact he), hf]
      simpa using hc
    | true =>
    rw [done_of_exceeds (by rw [hf]; exact he), hf]
    cases hk' : keeps p with
    | true =>
      obtain ⟨q, rfl⟩ : ∃ q, p = some q := by
        cases p with
        | none => cases hk'
        | some q => exact ⟨q, rfl⟩
      rw [Option.toList_some, finish_of_pending (by rw [pending_concat, if_pos (by simpa [keeps] using hk')])]
      simpa using hc
    | false =>
      have hn : pending (pieces ++ p.toList) = none := by
        cases p with
        | none => rwa [Option.toList_none, append_nil]
        | some q => rw [Option.toList_some, pending_concat, if_neg (by simpa [keeps] using hk'), hp]
      rw [finish_pieces hn, append_assoc]
      exact ⟨rfl, forall_mem_append.2 ⟨hc, choice_of_reread⟩⟩

end

/-! ### The finish reason in a stream -/

/-- The finish reason that the client of the stream is left with. -/
def streamReason {σ : Type} (a : Answer σ) : String :=
  lastReason (shownReasons false a.pieces ++ (a.closing.map fun p => p.choice.finishReason).toList)

theorem pending_append_unfinished {qs : List Piece} (h : ∀ p ∈ qs, p.choice.finishReason = "") :
    pending (ps ++ qs) = pending ps := by
  have hn : (qs.filter fun p => needSplitLastResp p.choice) = [] := by
    rw [filter_eq_nil_iff]
    intro p hp
    simp [needSplitLastResp, h p hp]
  rw [pending, filter_append, hn, append_nil]
  rfl

section

variable {σ : Type} {γ : Processor σ} {limit : Nat} {tools : Text} {rd : Reading σ} {before after : List Piece}
  {last : CompletionResponse}
variable {a : Answer σ}

/-- A finish reason without a text is sent with its piece, and perhaps again. -/
theorem streamReason_of_bare (q : Piece) (hc : q.callsTools = false)
    (haf : ∀ p ∈ after, p.choice.finishReason = "") (hf : q.choice.finishReason ≠ "")
    (ht : q.choice.text = []) {again : List Piece}
    (hpi : a.pieces = before ++ q :: after ++ again) (hcl : a.closing = none)
    (ha : (∀ p ∈ again, p.choice.finishReason = "") ∨ after = [] ∧ again = [q]) :
    streamReason a = streamFinishReason (before.any Piece.callsTools) q.choice := by
  have hsh : ∀ b, (q.show b).1.finishReason = streamFinishReason b q.choice :=
    fun b => if_neg fun hs => hs.2 ht
  have ho : ∀ b, shownReasons b [q] = [streamFinishReason b q.choice] := by
    intro b
    rw [shownReasons, showAll, showAll, map_singleton, hsh, hc, Bool.or_false]
  have hq : ∀ {ps : List Piece}, (∀ p ∈ ps, p.choice.finishReason = "") → ∀ p ∈ ps, p.Quiet :=
    fun h p hp => .inl (h p hp)
  rw [streamReason, hpi, hcl, Option.map_none, Option.toList_none, append_nil, append_cons,
    append_assoc, shownReasons_append, shownReasons_append, ho, Bool.false_or]
  rcases ha with ha | ⟨rfl, rfl⟩
  · rw [lastReason_append_of_empty (shownReasons_of_quiet (hq (forall_mem_append.2 ⟨haf, ha⟩)) _)]
    exact lastReason_concat (streamFinishReason_ne_empty hf _)
  · rw [nil_append, ho]
    rw [any_append, any_cons, any_nil, hc, Bool.or_false, Bool.or_false]
    exact lastReason_concat (streamFinishReason_ne_empty hf _)

theorem streamReason_of_quiet (h : ∀ p ∈ a.pieces, p.Quiet) (hc : a.closing = none) :
    streamReason a = "" := by
  rw [streamReason, hc, Option.map_none, Option.toList_none, append_nil]
  exact lastReason_of_empty (shownReasons_of_quiet h false)

theorem streamReason_of_unfinished (hpi : ∀ p ∈ pieces, p.choice.finishReason = "")
    (hl : ∀ c ∈ last.choices, c.finishReason = "") :
    streamReason (γ.done limit tools rd pieces (some last)) = "" := by
  have hu : (∀ p ∈ (γ.answer limit tools rd pieces (some last) []).pieces, p.choice.finishReason = "") ∧
      (γ.answer limit tools rd pieces (some last) []).closing = none :=
    answer_unfinished _ _ _ _ hpi (fun r hr => by cases hr; exact hl) (forall_mem_nil _)
  exact streamReason_of_quiet (fun p hp => .inl (hu.1 p hp)) hu.2

/-- The chunk with the finish reason is the last one, and its text has been kept back. -/
theorem streamReason_of_held (γ : Processor σ) (tools : Text) (hl : rd.exceeds limit = false)
    (hpi : ∀ p ∈ pieces, p.choice.finishReason = "") {choice : CompletionChoice}
    (hre : last.choices = [choice]) (hs : needSplitLastResp choice) : (Reopens γ limit tools rd last ∧
        streamReason (γ.done limit tools rd pieces (some last)) = choice.finishReason) ∨
      ¬ Reopens γ limit tools rd last ∧ streamReason (γ.done limit tools rd pieces (some last)) = "" := by
  obtain ⟨ho, rd', q, rfl, hd⟩ | ⟨ho, hq, hc⟩ := done_of_held γ tools hl hpi hre hs
  · refine .inl ⟨ho, ?_⟩
    rw [hd]
    exact lastReason_concat hs.1
  · exact .inr ⟨ho, streamReason_of_quiet hq hc⟩

end

/-! ### When the replies agree -/

/-- **The finish reasons are the same**, by the pieces around the chunk with the finish reason, its choice,
and how often the answer is ended. -/
inductive FinishAgrees (before after : List Piece) (choice : CompletionChoice) (reopened : Prop) :
    Option Piece → Prop
  /-- The chunk is kept back, and neither client is given a finish reason. -/
  | lost (hreopened : ¬ reopened) (hcalls : ¬ CallsLast (before ++ after)) :
      FinishAgrees before after choice reopened none
  /-- The chunk is kept back, and the last piece calls tools. -/
  | late (hreopened : reopened) (hcalls : CallsLast (before ++ after))
      (hreason : choice.finishReason = "tool_calls") : FinishAgrees before after choice reopened none
  /-- The chunk is the last piece, has a text and calls no tools. -/
  | last (q : Piece) (htext : choice.text ≠ []) (hafter : after = []) (hcalls : q.callsTools = false) :
      FinishAgrees before after choice reopened (some q)
  /-- The last piece calls tools, and the finish reason says so. -/
  | tools (q : Piece) (htext : choice.text ≠ []) (hcalls : CallsLast (before ++ q :: after))
      (hreason : choice.finishReason = "tool_calls") : FinishAgrees before after choice reopened (some q)
  /-- The chunk is the last piece, and has no text; the stream does not change the finish reason. -/
  | bare (q : Piece) (htext : choice.text = []) (hafter : after = [])
      (hreason : ¬ (choice.finishReason = "stop" ∧ before.any Piece.callsTools = true)) :
      FinishAgrees before after choice reopened (some q)
  /-- The chunk has no text, the last piece calls tools, and the stream says so. -/
  | bareTools (q : Piece) (htext : choice.text = []) (hcalls : CallsLast (before ++ q :: after))
      (hreason : choice.finishReason = "tool_calls" ∨
        choice.finishReason = "stop" ∧ before.any Piece.callsTools = true) :
      FinishAgrees before after choice reopened (some q)

structure Agrees (before : List Piece) (choice : CompletionChoice) (piece : Option Piece)
    (after again : List Piece) (reopened : Prop) : Prop where
  content : ∀ p ∈ again, p.parsed.content = []
  reasoningContent : ∀ p ∈ again, p.parsed.reasoningContent = []
  tools : ToolsAgree (fragments (before ++ piece.toList ++ after)) (fragments again)
  finish : FinishAgrees before after choice reopened piece

section

variable {σ : Type} {γ : Processor σ} {limit : Nat} {tools : Text} {rd : Reading σ}
  {before after pieces : List Piece} {choice : CompletionChoice} {last resp : CompletionResponse}
variable {reopened : Prop}
variable {b : Bool} {q : Piece}

/-- Without a finish reason that is kept, and with a last chunk without one, nothing is sent in the end. -/
theorem done_closing (hn : pending pieces = none) (hl : ∀ c ∈ last.choices, c.finishReason = "") :
    (γ.done limit tools rd pieces (some last)).closing = none := by
  have hf : ∀ (rd : Reading σ) (ps : List Piece), pending ps = none →
      (γ.finish tools rd ps last).closing = none ∧ pending (γ.finish tools rd ps last).pieces = none := by
    intro rd ps hps
    obtain ⟨extra, he, hc, hcl⟩ := finish_spec γ tools rd ps last
    rw [hcl, he, pending_append_unfinished fun p hp => hl _ (hc p hp)]
    exact ⟨hps, hps⟩
  obtain ⟨hc, hpe⟩ := hf rd pieces hn
  cases he : (γ.finish tools rd pieces last).reading.exceeds limit with
  | false =>
    rw [done_of_within he]
    exact hc
  | true =>
    rw [done_of_exceeds he]
    exact (hf _ _ hpe).1

theorem streamFinishReason_eq_tool_calls (ht : choice.text = []) :
    streamFinishReason b choice = "tool_calls" ↔
      choice.finishReason = "tool_calls" ∨ choice.finishReason = "stop" ∧ b = true := by
  unfold streamFinishReason
  by_cases hb : choice.finishReason = "stop" ∧ b = true
  · rw [if_pos ⟨by rw [hb.1]; decide, ht, hb.2, hb.1⟩]
    exact iff_of_true rfl (.inr hb)
  · rw [if_neg fun ha => hb ⟨ha.2.2.2, ha.2.2.1⟩]
    exact ⟨.inl, fun hor => hor.resolve_right hb⟩

theorem streamFinishReason_eq_self (ht : choice.text = []) :
    choice.finishReason = streamFinishReason b choice ↔ ¬ (choice.finishReason = "stop" ∧ b = true) := by
  unfold streamFinishReason
  by_cases hb : choice.finishReason = "stop" ∧ b = true
  · rw [if_pos ⟨by rw [hb.1]; decide, ht, hb.2, hb.1⟩, hb.1]
    exact iff_of_false (by decide) (not_not_intro ⟨rfl, hb.2⟩)
  · rw [if_neg fun ha => hb ⟨ha.2.2.2, ha.2.2.1⟩]
    exact iff_of_true rfl hb

theorem finishAgrees_none (hp : ∀ p ∈ before ++ after, p.choice.finishReason = "")
    (hf : choice.finishReason ≠ "") {reason : String}
    (hre : reopened ∧ reason = choice.finishReason ∨ ¬ reopened ∧ reason = "") :
    wholeReason (before ++ after) = reason ↔ FinishAgrees before after choice reopened none := by
  by_cases hc : CallsLast (before ++ after)
  · rw [wholeReason_of_callsLast hc]
    rcases hre with ⟨hr, rfl⟩ | ⟨hr, rfl⟩
    · constructor
      · exact fun heq => .late hr hc heq.symm
      · rintro (⟨hn, -⟩ | ⟨-, -, heq⟩)
        · exact absurd hr hn
        · exact heq.symm
    · refine iff_of_false (by decide) ?_
      rintro (⟨-, hn⟩ | ⟨hy, -, -⟩)
      · exact hn hc
      · exact hr hy
  · rw [wholeReason_unfinished hp hc]
    rcases hre with ⟨hr, rfl⟩ | ⟨hr, rfl⟩
    · refine iff_of_false (Ne.symm hf) ?_
      rintro (⟨hn, -⟩ | ⟨-, hy, -⟩)
      · exact hn hr
      · exact hc hy
    · exact iff_of_true rfl (.lost hr hc)

theorem finishAgrees_bare (hq : q.choice = choice) (hc : q.callsTools = false)
    (hf : choice.finishReason ≠ "") (ht : choice.text = []) (ha : ∀ p ∈ after, p.choice.finishReason = "") :
    wholeReason (before ++ q :: after) = streamFinishReason (before.any Piece.callsTools) choice ↔
      FinishAgrees before after choice reopened (some q) := by
  rw [wholeReason_finished ha (streamFinishReason_ne_empty hf _), streamFinishReason_eq_tool_calls ht, hq,
    streamFinishReason_eq_self ht]
  constructor
  · rintro (⟨hl, hor⟩ | ⟨hni, -, hn⟩)
    · exact .bareTools q ht hl hor
    · exact .bare q ht hni hn
  · intro h
    cases h with
    | last _ hne | tools _ hne => exact absurd ht hne
    | bare _ _ hni hn => exact .inr ⟨hni, hc, hn⟩
    | bareTools _ _ hl hor => exact .inl ⟨hl, hor⟩

/-- **The finish reasons are the same**, case by case. -/
theorem finishAgrees_iff {rd₁ rd₂ : Reading σ} {post : List CompletionResponse} {piece : Option Piece}
    (hch : resp.choices = [choice]) (hf : choice.finishReason ≠ "")
    (hta : γ.take limit tools rd₁ resp = .more rd₂ piece)
    (hps : γ.through limit tools rd₂ post = some (rd, after))
    (hb : ∀ p ∈ before, p.choice.finishReason = "")
    (hpo : ∀ r ∈ post, ∀ c ∈ r.choices, c.finishReason = "") :
    wholeReason (before ++ piece.toList ++ after) =
        streamReason (γ.done limit tools rd (before ++ piece.toList ++ after)
          (some (post.getLast?.getD resp))) ↔
      FinishAgrees before after choice (post = [] ∧ Reopens γ limit tools rd resp) piece := by
  obtain ⟨-, hre, hl₂⟩ := take_more_iff.1 hta
  have hli := exceeds_of_through hl₂ hps
  have ha : ∀ p ∈ after, p.choice.finishReason = "" := forall_of_through hps hpo
  have hpi : ∀ p ∈ before ++ after, p.choice.finishReason = "" := forall_mem_append.2 ⟨hb, ha⟩
  cases piece with
  | none =>
    have ht : choice.text ≠ [] := by
      intro ht
      rw [read_of_text_nil hch ht] at hre
      cases hre
    rw [Option.toList_none, append_nil]
    refine finishAgrees_none hpi hf ?_
    cases hl : post.getLast? with
    | none =>
      obtain rfl := getLast?_eq_none_iff.1 hl
      rcases streamReason_of_held γ tools hli hpi hch ⟨hf, ht⟩ with
        ⟨hrp, hrs⟩ | ⟨hrp, hrs⟩
      · exact .inl ⟨⟨rfl, hrp⟩, hrs⟩
      · exact .inr ⟨fun hbo => hrp hbo.2, hrs⟩
    | some r =>
      have hm := mem_of_getLast? hl
      exact .inr ⟨fun hbo => ne_nil_of_mem hm hbo.1, streamReason_of_unfinished hpi (hpo r hm)⟩
  | some q =>
  have hq : q.choice = choice := by
    have hm := choice_of_read hre q rfl
    rwa [hch, mem_singleton] at hm
  rw [Option.toList_some, ← append_cons]
  by_cases ht : choice.text = []
  · rw [read_of_text_nil hch ht] at hre
    obtain ⟨rfl, rfl⟩ := hre
    have hn : pending (before ++ ⟨choice, ⟨[], [], []⟩, rd₁.count⟩ :: after) = none := by
      rw [append_cons, pending_append_unfinished ha, pending_concat, if_neg fun hs => hs.2 ht]
      exact pending_of_unfinished hb
    have hag : streamReason (γ.done limit tools rd
        (before ++ ⟨choice, ⟨[], [], []⟩, rd₁.count⟩ :: after) (some (post.getLast?.getD resp))) =
          streamFinishReason (before.any Piece.callsTools) choice := by
      cases hl : post.getLast? with
      | none =>
        -- the chunk itself is read again
        obtain rfl := getLast?_eq_none_iff.1 hl
        cases hps
        have hr' : γ.read tools rd resp = .ok (rd, some ⟨choice, ⟨[], [], []⟩, rd.count⟩) :=
          read_of_text_nil hch ht
        have hrl := finish_of_read hn hr'
        rw [Option.getD_none, done_of_within (by rw [hrl]; exact hli), hrl]
        exact streamReason_of_bare ⟨choice, ⟨[], [], []⟩, rd.count⟩ rfl ha hf ht rfl rfl (.inr ⟨rfl, rfl⟩)
      | some r =>
        have hr := hpo r (mem_of_getLast? hl)
        obtain ⟨hdo, hcc⟩ := done_pieces γ tools r none hli hn
        exact streamReason_of_bare ⟨choice, ⟨[], [], []⟩, rd₁.count⟩ rfl ha hf ht hdo
          (done_closing hn hr) (.inl fun p hp => hr _ (hcc p hp))
    rw [hag]
    exact finishAgrees_bare rfl rfl hf ht ha
  · have hqs : needSplitLastResp q.choice := by rw [hq]; exact ⟨hf, ht⟩
    have hp : pending (before ++ q :: after) = some q := by
      rw [append_cons, pending_append_unfinished ha, pending_concat, if_pos hqs]
    rw [done_of_within (by rw [finish_of_pending hp]; exact hli), finish_of_pending hp]
    change _ = lastReason (_ ++ [q.choice.finishReason]) ↔ _
    rw [lastReason_concat hqs.1, hq, wholeReason_finished ha hf]
    constructor
    · rintro (⟨hc, hr⟩ | ⟨hn, hc, -⟩)
      · exact .tools q ht hc hr
      · exact .last q ht hn hc
    · intro h
      cases h with
      | last _ _ hn hc => exact .inr ⟨hn, hc, by rw [hq]⟩
      | tools _ _ hc hr => exact .inl ⟨hc, hr⟩
      | bare _ ht' | bareTools _ ht' => exact absurd ht' ht

end

/-! ### The clients -/

theorem append_eq_self_iff {l m : List α} : l = l ++ m ↔ m = [] := by
  constructor
  · intro h
    exact append_cancel_left (h.symm.trans (append_nil l).symm)
  · rintro rfl
    exact (append_nil l).symm

/-- **The two clients end up with the same reply if and only if** the pieces of the chunks agree: the end of
the stream adds no text, the fragments of tool calls are put together in the same way, and the finish reasons
are the same. -/
theorem agrees_iff {σ : Type} {γ : Gateway σ} {id : String} {maxTokens : Int} {tools rawData : Text}
    {d : Detector} {τ : σ} {ctx ctx' : RequestContext σ} (huntracked : γ.enableRequestStateTracking = false)
    (hd : newReasoningParser γ.processor.reasoningParser true false = .ok d)
    (hτ : γ.processor.newToolParser = .ok τ)
    (hstream : γ.parseRequest id (.chat true maxTokens tools rawData) = .ok ctx)
    (hwhole : γ.parseRequest id (.chat false maxTokens tools rawData) = .ok ctx')
    {pre post : List CompletionResponse} {resp : CompletionResponse} {choice : CompletionChoice}
    (hchoice : resp.choices = [choice]) (hfinish : choice.finishReason ≠ "")
    (hpres : ∀ r ∈ pre, ∀ c ∈ r.choices, c.finishReason = "")
    (hposts : ∀ r ∈ post, ∀ c ∈ r.choices, c.finishReason = "")
    {rd₁ rd₂ rd : Reading σ} {before after : List Piece} {piece : Option Piece}
    (hpre : γ.processor.through ctx.stats.maxTokensLimit tools (.start d τ) pre = some (rd₁, before))
    (htake : γ.processor.take ctx.stats.maxTokensLimit tools rd₁ resp = .more rd₂ piece)
    (hpost : γ.processor.through ctx.stats.maxTokensLimit tools rd₂ post = some (rd, after)) :
    ∃ ctx₁ ctx₂, γ.handle ctx.enter ((pre ++ resp :: post).map .of ++ [.finish]) = .ok (ctx₁, none) ∧
      γ.handle ctx'.enter ((pre ++ resp :: post).map .of ++ [.finish]) = .ok (ctx₂, none) ∧
      (received ctx₂.sent = [assemble ((shown ctx₁.sent).map Prod.fst)] ↔ Agrees before choice piece after
          (γ.processor.again ctx.stats.maxTokensLimit tools rd piece (post.getLast?.getD resp))
          (post = [] ∧ Reopens γ.processor ctx.stats.maxTokensLimit tools rd resp)) := by
  have hst : Starts γ true tools d τ ctx := ⟨huntracked, ⟨id, maxTokens, rawData, hstream⟩, hd, hτ⟩
  have hs' : Starts γ false tools d τ ctx' := ⟨huntracked, ⟨id, maxTokens, rawData, hwhole⟩, hd, hτ⟩
  have ht : γ.processor.through ctx.stats.maxTokensLimit tools (.start d τ) (pre ++ resp :: post) =
      some (rd, before ++ piece.toList ++ after) := by
    rw [through_append, hpre, Option.bind_some, through_cons htake hpost, Option.map_some, append_assoc]
  -- the stream
  obtain ⟨ctx₁, hh₁, hsh⟩ := hst.handle (pre ++ resp :: post)
  rw [← append_nil (pre ++ resp :: post), answer_append ht, nil_append, getLast?_append_cons,
    Option.or_none, Processor.answer] at hsh
  -- the answer in one piece
  have hco : Collecting γ ctx'.stats.maxTokensLimit tools (.start d τ) [] ctx'.enter.ctx := hs'.collecting
  have hli : ctx'.stats.maxTokensLimit = ctx.stats.maxTokensLimit := by
    simp only [Gateway.parseRequest] at hstream hwhole
    split at hstream <;> cases hstream
    next hp =>
      rw [hp] at hwhole
      cases hwhole
      rfl
  rw [hli] at hco
  obtain ⟨r, rs, hcs⟩ := exists_cons_of_ne_nil (append_ne_nil_of_right_ne_nil pre (cons_ne_nil resp post))
  rw [hcs] at ht
  obtain ⟨ctx₂, hh₂, hrc⟩ := hco.handle huntracked ht
  rw [← hcs] at hh₂
  rw [nil_append] at hrc
  refine ⟨ctx₁, ctx₂, hh₁, hh₂, ?_⟩
  have hrs := finishAgrees_iff hchoice hfinish htake hpost (forall_of_through hpre hpres) hposts
  -- only the chunk with the finish reason can have it kept
  have hpe : if keeps piece then pending (before ++ piece.toList ++ after) ≠ none
      else pending (before ++ piece.toList ++ after) = none := by
    rw [pending_append_unfinished (forall_of_through hpost hposts)]
    have hb := pending_of_unfinished (forall_of_through hpre hpres)
    cases piece with
    | none => simpa [keeps] using hb
    | some q =>
      rw [Option.toList_some, pending_concat]
      by_cases hs : needSplitLastResp q.choice <;> simp [keeps, hs, hb]
  obtain ⟨hdo, -⟩ := done_pieces γ.processor tools (post.getLast?.getD resp) piece
    (exceeds_of_through (take_more_iff.1 htake).2.2 hpost) hpe
  rw [hrc, hsh.sent, assemble_shown, collect_eq, singleton_inj, hdo, Reply.mk.injEq, contents_append (_ ++ _ ++ _),
    reasonings_append (_ ++ _ ++ _), fragments_append (_ ++ _ ++ _), append_eq_self_iff, append_eq_self_iff,
    contents_eq_nil, reasonings_eq_nil, merge_eq_join_iff]
  rw [streamReason, hdo] at hrs
  constructor
  · rintro ⟨hcn, hre, hto, hs⟩
    exact ⟨hcn, hre, hto, hrs.1 hs⟩
  · rintro ⟨hcn, hre, hto, hs⟩
    exact ⟨hcn, hre, hto, hrs.2 hs⟩

theorem agrees_of_finish : ∃ ctx₁ ctx₂, plainGateway.handle (chatRequest true).enter
      ([choiceChunk "a" "", choiceChunk "b" "stop"].map .of ++ [.finish]) = .ok (ctx₁, none) ∧
    plainGateway.handle (chatRequest false).enter
      ([choiceChunk "a" "", choiceChunk "b" "stop"].map .of ++ [.finish]) = .ok (ctx₂, none) ∧
    received ctx₂.sent = [assemble ((shown ctx₁.sent).map Prod.fst)] := by
  have hp : plainGateway.processor.through (chatRequest true).stats.maxTokensLimit []
      (.start (newQwen3Detector true false) ()) [choiceChunk "a" ""] =
        some (⟨newQwen3Detector true false, (), 1, 0⟩, [⟨⟨['a'], 0, ""⟩, ⟨[], ['a'], []⟩, 1⟩]) := by
    decide +kernel
  have ht : plainGateway.processor.take (chatRequest true).stats.maxTokensLimit []
      ⟨newQwen3Detector true false, (), 1, 0⟩ (choiceChunk "b" "stop") =
        .more ⟨newQwen3Detector true false, (), 2, 0⟩ (some ⟨⟨['b'], 0, "stop"⟩, ⟨[], ['b'], []⟩, 2⟩) := by
    decide +kernel
  have hs : plainGateway.parseRequest "r" (.chat true 0 [] "hi".toList) = .ok (chatRequest true) := rfl
  have hw : plainGateway.parseRequest "r" (.chat false 0 [] "hi".toList) = .ok (chatRequest false) := rfl
  have hch : (choiceChunk "b" "stop").choices = [⟨['b'], 0, "stop"⟩] := by decide +kernel
  obtain ⟨ctx₁, ctx₂, hh₁, hh₂, hi⟩ :=
    agrees_iff rfl (starts_chatRequest true).detector rfl hs hw hch (by decide) (by decide +kernel)
      (forall_mem_nil _) hp ht rfl
  refine ⟨ctx₁, ctx₂, hh₁, hh₂, hi.2 ?_⟩
  refine ⟨forall_mem_nil _, forall_mem_nil _, ?_, .last _ (by decide) rfl rfl⟩
  exact ⟨forall_mem_nil _, forall_mem_nil _, fun c hc => nomatch hc⟩

/-- A tool parser that makes every text a call of one function, with the text as its arguments. -/
def toolGateway : Gateway Unit :=
  { plainGateway with
    processor :=
      { plainProcessor with
        parseResultFromString := fun s => some ⟨[], [⟨some 0, "call-1", "function", ['f'], s⟩]⟩
        parses := fun _ _ _ _ _ => rfl } }

/-- **A fragment with a name and arguments**: an answer in one piece has the arguments twice. -/
theorem arguments_twice : ¬ ∀ (γ : Gateway Unit) (id : String) (maxTokens : Int) (tools rawData : Text)
    (d : Detector) (τ : Unit) (ctx ctx' ctx₁ ctx₂ : RequestContext Unit) (pre post : List CompletionResponse)
    (resp : CompletionResponse) (choice : CompletionChoice), γ.enableRequestStateTracking = false →
      newReasoningParser γ.processor.reasoningParser true false = .ok d → γ.processor.newToolParser = .ok τ →
      γ.parseRequest id (.chat true maxTokens tools rawData) = .ok ctx →
      γ.parseRequest id (.chat false maxTokens tools rawData) = .ok ctx' →
      resp.choices = [choice] → choice.finishReason ≠ "" →
      (∀ r ∈ pre ++ post, ∀ c ∈ r.choices, c.finishReason = "") →
      (γ.processor.through ctx.stats.maxTokensLimit tools (.start d τ) (pre ++ resp :: post)).isSome →
      γ.handle ctx.enter ((pre ++ resp :: post).map .of ++ [.finish]) = .ok (ctx₁, none) →
      γ.handle ctx'.enter ((pre ++ resp :: post).map .of ++ [.finish]) = .ok (ctx₂, none) →
      received ctx₂.sent = [assemble ((shown ctx₁.sent).map Prod.fst)] := by
  intro hal
  have hw : ∃ r ∈ (toolGateway.handle (chatRequest false).enter
      ([choiceChunk "x" "", choiceChunk "" "tool_calls", usageChunk].map .of ++ [.finish])).toOption,
      r.2 = none ∧ received r.1.sent =
        [⟨[], [], [⟨some 0, "call-1", "function", ['f'], ['x', 'x']⟩], "tool_calls"⟩] := by decide +kernel
  have hs : ∃ r ∈ (toolGateway.handle (chatRequest true).enter
      ([choiceChunk "x" "", choiceChunk "" "tool_calls", usageChunk].map .of ++ [.finish])).toOption,
      r.2 = none ∧ assemble ((shown r.1.sent).map Prod.fst) =
        ⟨[], [], [⟨some 0, "call-1", "function", ['f'], ['x']⟩], "tool_calls"⟩ := by decide +kernel
  obtain ⟨ctx₁, hh₁, ha⟩ := ok_of_exists hs
  obtain ⟨ctx₂, hh₂, hr⟩ := ok_of_exists hw
  have hsa := hal toolGateway "r" 0 [] "hi".toList _ () (chatRequest true) (chatRequest false) ctx₁ ctx₂
    [choiceChunk "x" ""] [usageChunk] (choiceChunk "" "tool_calls") _ rfl
    (starts_chatRequest true).detector rfl rfl rfl rfl (by decide) (by decide +kernel) (by decide +kernel)
    hh₁ hh₂
  rw [hr, ha] at hsa
  exact absurd hsa (by decide)

end Llumnix.Chat
