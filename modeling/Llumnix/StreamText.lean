/-
**The text of a chat in a stream.**

With a tool parser that lets every text through, the client is to be given the texts of the chunks, except
for the tags of the reasoning, each once, and to be told the number of their tokens.  Two things stand in
the way.  The detector keeps back the beginning of a tag, and nothing flushes it in the end.  And the end
has the last chunk processed once more, unless a chunk with a text and a finish reason was let through
before: then its text is sent and counted twice.  The tokens are reported with the responses only, so the
number is wrong if the last text brings no response.

* `conserved_iff` — **the texts are conserved if and only if the chunks have settled**.
-/

import Llumnix.StreamTally
import Llumnix.ChatStream

namespace Llumnix.Chat

open Erasure List

variable {σ : Type}

/-! ### What the client is to be given -/

/-- What a client is given: the reasoning and the content of the responses. -/
def delivered (choices : List (StreamChoice × Nat)) : Text :=
  choices.flatMap fun x => x.1.delta.reasoningContent ++ x.1.delta.content

/-- The number of completion tokens that the last response reports. -/
def reported (choices : List (StreamChoice × Nat)) : Nat := (choices.getLast?.map Prod.snd).getD 0

/-- **The texts of the chunks have been sent once**, except for tags, **and counted once**. -/
structure Conserved {σ : Type} (γ : Processor σ) (d : Detector) (resps : List CompletionResponse)
    (ctx : RequestContext σ) : Prop where
  text : Erases d.tags (texts resps) (delivered (shown ctx.sent))
  reported : reported (shown ctx.sent) = γ.tokens resps
  counted : ctx.stats.outputTokensLen = γ.tokens resps

/-- The chunks that are processed: those up to the limit. -/
def Processor.consumed {σ : Type} (γ : Processor σ) (limit : Nat) (tools : Text) (rd : Reading σ) :
    List CompletionResponse → List CompletionResponse
  | [] => []
  | resp :: resps =>
    match γ.take limit tools rd resp with
    | .failed => []
    | .stopped _ _ => [resp]
    | .more rd _ => resp :: consumed γ limit tools rd resps

/-- **The chunks have settled.** Nothing is kept back by the detector, and the last text comes with a finish
reason that is kept, or, if none is, is let through or followed by a choice, and not last. -/
structure Settled (d : Detector) (resps : List CompletionResponse) : Prop where
  buffer : (d.after resps).buffer = []
  ending : ∀ front resp rest, LastText resps front resp rest →
    d.Keeps front resp ∨
      d.KeepsNone resps ∧ rest ≠ [] ∧ (d.Passes front resp ∨ ∃ r ∈ rest, r.choices ≠ [])

section

variable {σ : Type} {γ : Processor σ} {d : Detector} {resps : List CompletionResponse} {rd : Reading σ}
  {pieces : List Piece}
variable {last : CompletionResponse}

/-! ### The end -/

/-- The texts have been sent and counted once in this answer. -/
structure Answer.Conserves (γ : Processor σ) (d : Detector) (resps : List CompletionResponse) (a : Answer σ) :
    Prop where
  text : Erases d.tags (texts resps) (pieceTexts a.pieces)
  reported : (a.closing.map Piece.count).getD (lastCount a.pieces) = γ.tokens resps
  counted : a.reading.count = γ.tokens resps

theorem conserves_of_pending (h : Tracks γ d resps rd pieces) (h' : Tallies d resps rd.count pieces) {p : Piece}
    (hp : pending pieces = some p) :
    Answer.Conserves γ d resps ⟨rd, pieces, some p, false⟩ ↔ Settled d resps := by
  have hk : ¬ d.KeepsNone resps := by
    intro hn
    rw [h'.none_iff.2 hn] at hp
    cases hp
  constructor
  · rintro ⟨ht, hr, -⟩
    refine ⟨h.erases_iff.1 ht, fun front resp rest hl => .inl ?_⟩
    rw [← h.count] at hr
    exact (h'.kept_iff front resp rest hl).1 ⟨p, hp, hr⟩
  · rintro ⟨hb, he⟩
    refine ⟨h.erases_iff.2 hb, ?_, h.count⟩
    rw [← h.count]
    obtain ⟨front, resp, rest, hs, hre⟩ : ∃ front resp rest, resps = front ++ resp :: rest ∧
        d.Keeps front resp := by
      by_contra hn
      exact hk fun front resp rest hs hre => hn ⟨front, resp, rest, hs, hre⟩
    have hm : resp ∈ resps := by
      rw [hs]
      simp
    obtain ⟨front', resp', rest', hl⟩ := exists_lastText hm hre.text
    have hke := (he front' resp' rest' hl).resolve_right fun ha => hk ha.1
    obtain ⟨q, hq, hc⟩ := (h'.kept_iff front' resp' rest' hl).2 hke
    cases hp.symm.trans hq
    exact hc

theorem conserves_of_nil (h : Tracks γ d [] rd pieces) (h' : Tallies d [] rd.count pieces) :
    Answer.Conserves γ d [] ⟨rd, pieces, none, false⟩ ↔ Settled d [] := by
  have hno : ∀ front resp rest, ¬ LastText [] front resp rest :=
    fun front resp rest hl => absurd hl.split.symm (by simp)
  constructor
  · intro ha
    exact ⟨h.erases_iff.1 ha.text, fun front resp rest hl => absurd hl (hno front resp rest)⟩
  · intro hs
    have hl := h'.last_iff.2 fun front resp rest hl => absurd hl (hno front resp rest)
    exact ⟨h.erases_iff.2 hs.buffer, hl.trans h.count, h.count⟩

/-- No finish reason has been kept, and the last chunk, which is read again, has no text. -/
theorem conserves_of_replay (hto : γ.FindsTokens) (h : Tracks γ d resps rd pieces)
    (h' : Tallies d resps rd.count pieces) (hn : pending pieces = none)
    (hla : resps.getLast? = some last) (ht : last.text = []) {piece : Option Piece}
    (hre : Reads γ rd last rd piece) :
    Answer.Conserves γ d resps ⟨rd, pieces ++ piece.toList, none, false⟩ ↔ Settled d resps := by
  have hk := h'.none_iff.1 hn
  have hag := h.reads hre
  have hta := (h'.reads hto h.detector hre).last_iff
  have hte : texts (resps ++ [last]) = texts resps := by rw [texts_concat, ht, append_nil]
  have haf : d.after (resps ++ [last]) = d.after resps := by rw [after_concat, if_pos ht]
  have he := hag.erases_iff
  rw [hte, haf] at he
  -- the last chunk comes after the last text
  have hm : ∀ {front resp rest}, LastText resps front resp rest → last ∈ rest := by
    intro front resp rest hl
    exact hl.mem_of_getLast? hla ht
  have hrp : ReportsAll d (resps ++ [last]) ↔ ReportsAll d resps := by
    constructor
    · intro ha front resp rest hl
      rcases ha front resp (rest ++ [last])
        ((lastText_concat_of_nil ht).2 ⟨rest, rfl, hl⟩) with hp | ⟨x, hx, hne⟩
      · exact .inl hp
      · rcases mem_append.1 hx with hx | hx
        · exact .inr ⟨x, hx, hne⟩
        · rw [mem_singleton.1 hx] at hne
          exact .inr ⟨last, hm hl, hne⟩
    · intro ha front resp rest hl
      obtain ⟨rest', rfl, hl'⟩ := (lastText_concat_of_nil ht).1 hl
      rcases ha front resp rest' hl' with hp | ⟨x, hx, hne⟩
      · exact .inl hp
      · exact .inr ⟨x, mem_append_left _ hx, hne⟩
  rw [hrp] at hta
  constructor
  · intro ha
    refine ⟨he.1 ha.text, fun front resp rest hl => .inr ⟨hk, ?_, ?_⟩⟩
    · exact ne_nil_of_mem (hm hl)
    · exact hta.1 (ha.reported.trans h.count.symm) front resp rest hl
  · rintro ⟨hb, hen⟩
    refine ⟨he.2 hb, ?_, h.count⟩
    refine (hta.2 ?_).trans h.count
    intro front resp rest hl
    rcases hen front resp rest hl with hke | ⟨-, -, hr⟩
    · exact absurd hke (hk front resp rest hl.split)
    · exact hr

/-- If the last chunk has a text, its finish reason has to be kept. -/
theorem not_settled_of_text (hk : d.KeepsNone resps) (hl : resps.getLast? = some last)
    (ht : last.text ≠ []) : ¬ Settled d resps := by
  obtain ⟨front, rfl⟩ : ∃ front, resps = front ++ [last] := getLast?_eq_some_iff.1 hl
  rintro ⟨-, he⟩
  rcases he front last [] ⟨rfl, ht, forall_mem_nil _⟩ with hke | ⟨-, hne, -⟩
  · exact hk front last [] rfl hke
  · exact hne rfl

/-! ### The answer -/

variable {limit : Nat} {tools : Text}

/-- **How the answer ends**, after the chunks that are processed. -/
theorem answer_eq (tools : Text) (hp : γ.PassesText) (hto : γ.FindsTokens)
    {before : List CompletionResponse} (h : Tracks γ d before rd pieces)
    (h' : Tallies d before rd.count pieces) (hl : rd.exceeds limit = false)
    (ho : ∀ r ∈ resps, r.choices.length ≤ 1) :
    ∃ rd' pieces', Tracks γ d (before ++ γ.consumed limit tools rd resps) rd' pieces' ∧
      Tallies d (before ++ γ.consumed limit tools rd resps) rd'.count pieces' ∧
      (γ.answer limit tools rd pieces before.getLast? resps =
          γ.done limit tools rd' pieces' (before ++ γ.consumed limit tools rd resps).getLast? ∧
          rd'.exceeds limit = false ∨
        ∃ last, (before ++ γ.consumed limit tools rd resps).getLast? = some last ∧
          γ.answer limit tools rd pieces before.getLast? resps = γ.finish tools rd' pieces' last) := by
  induction resps generalizing before rd pieces with
  | nil =>
    rw [Processor.consumed, append_nil]
    exact ⟨rd, pieces, h, h', .inl ⟨rfl, hl⟩⟩
  | cons resp resps ih =>
  have hc := ho resp mem_cons_self
  obtain ⟨rd₁, piece, hrd, hre⟩ := exists_read hp tools rd hc
  have h₁ := h.reads hre
  have h₁' := h'.reads hto h.detector hre
  cases he : rd₁.exceeds limit with
  | true =>
    have ht := take_stopped_iff.2 ⟨hc, hrd, he⟩
    rw [Processor.consumed, ht, answer_of_stopped ht]
    exact ⟨rd₁, _, h₁, h₁', .inr ⟨resp, getLast?_concat, rfl⟩⟩
  | false =>
    have ht := take_more_iff.2 ⟨hc, hrd, he⟩
    obtain ⟨rd', pieces', ha⟩ := ih h₁ h₁' he fun r hr => ho r (mem_cons_of_mem _ hr)
    rw [getLast?_concat, append_assoc] at ha
    rw [Processor.consumed, ht, answer_of_more ht]
    exact ⟨rd', pieces', ha⟩

section

variable {rd' : Reading σ} {piece : Option Piece}

theorem Reads.eq_of_text_nil (h : Reads γ rd last rd' piece) (ht : last.text = []) : rd' = rd := by
  cases h with
  | silent _ hrd | empty _ _ _ hrd => exact hrd
  | held choice hr hne | passed choice hr hne => exact absurd ((text_of_choice hr).symm.trans ht) hne

theorem Reads.count_eq (h : Reads γ rd last rd' piece) (ht : last.text ≠ []) :
    rd'.count = rd.count + γ.getTokenLen last.text := by
  cases h with
  | silent hn => exact absurd (text_of_nil hn) ht
  | empty choice hr hn => exact absurd ((text_of_choice hr).trans hn) ht
  | held choice hr _ _ hc | passed choice hr _ _ hc => rw [hc, text_of_choice hr]

end

/-- What has been kept is sent in the end, or the last chunk is read again. -/
theorem finish_reads (tools : Text) (hpa : γ.PassesText) (rd : Reading σ) (pieces : List Piece)
    (ho : last.choices.length ≤ 1) :
    (∃ p, pending pieces = some p ∧ γ.finish tools rd pieces last = ⟨rd, pieces, some p, false⟩) ∨
      pending pieces = none ∧ ∃ rd' piece, Reads γ rd last rd' piece ∧
        γ.finish tools rd pieces last = ⟨rd', pieces ++ piece.toList, none, false⟩ := by
  cases hp : pending pieces with
  | some p => exact .inl ⟨p, rfl, finish_of_pending hp⟩
  | none =>
    obtain ⟨rd', piece, hre, hr⟩ := exists_read hpa tools rd ho
    exact .inr ⟨rfl, rd', piece, hr, finish_of_read hp hre⟩

theorem finish_not_failed (tools : Text) (hpa : γ.PassesText) (rd : Reading σ) (pieces : List Piece)
    (ho : last.choices.length ≤ 1) : (γ.finish tools rd pieces last).failed = false ∧
      rd.count ≤ (γ.finish tools rd pieces last).reading.count := by
  rcases finish_reads tools hpa rd pieces ho with ⟨p, -, hf⟩ | ⟨-, rd', piece, hr, hf⟩ <;> rw [hf]
  · exact ⟨rfl, le_refl _⟩
  refine ⟨rfl, ?_⟩
  by_cases ht : last.text = []
  · rw [hr.eq_of_text_nil ht]
  · rw [hr.count_eq ht]
    exact Nat.le_add_right _ _

/-- **The end**, as it processes the last chunk. -/
theorem conserves_finish (tools : Text) (hpa : γ.PassesText) (hto : γ.FindsTokens)
    (h : Tracks γ d resps rd pieces) (h' : Tallies d resps rd.count pieces)
    (hl : resps.getLast? = some last) (ho : last.choices.length ≤ 1) :
    (γ.finish tools rd pieces last).Conserves γ d resps ↔ Settled d resps := by
  rcases finish_reads tools hpa rd pieces ho with ⟨p, hp, hf⟩ | ⟨hp, rd', piece, hr, hf⟩ <;> rw [hf]
  · exact conserves_of_pending h h' hp
  by_cases ht : last.text = []
  · obtain rfl := hr.eq_of_text_nil ht
    exact conserves_of_replay hto h h' hp hl ht hr
  · refine iff_of_false (fun ha => ?_) (not_settled_of_text (h'.none_iff.1 hp) hl ht)
    have hc := ha.counted
    rw [hr.count_eq ht, h.count] at hc
    have hpo := getTokenLen_pos hto ht
    omega

theorem conserves_done (hpa : γ.PassesText) (hto : γ.FindsTokens) (h : Tracks γ d resps rd pieces)
    (h' : Tallies d resps rd.count pieces) (hli : rd.exceeds limit = false)
    (ho : ∀ r ∈ resps, r.choices.length ≤ 1) :
    (γ.done limit tools rd pieces resps.getLast?).failed = false ∧
      ((γ.done limit tools rd pieces resps.getLast?).Conserves γ d resps ↔ Settled d resps) := by
  cases hla : resps.getLast? with
  | none =>
    obtain rfl := getLast?_eq_none_iff.1 hla
    exact ⟨rfl, conserves_of_nil h h'⟩
  | some last =>
  have hl := ho last (mem_of_getLast? hla)
  have hco := conserves_finish tools hpa hto h h' hla hl
  rcases finish_reads tools hpa rd pieces hl with ⟨p, hp, hf⟩ | ⟨hp, rd', piece, hr, hf⟩
  · rw [done_of_within (by rw [hf]; exact hli)]
    exact ⟨by rw [hf], hco⟩
  cases he : rd'.exceeds limit with
  | false =>
    rw [done_of_within (by rw [hf]; exact he)]
    exact ⟨by rw [hf], hco⟩
  | true =>
    -- a text has been read again
    have ht : last.text ≠ [] := by
      intro ht
      rw [hr.eq_of_text_nil ht, hli] at he
      cases he
    rw [done_of_exceeds (by rw [hf]; exact he), hf]
    obtain ⟨hnf, hle⟩ := finish_not_failed tools hpa rd' (pieces ++ piece.toList) hl
    refine ⟨hnf, iff_of_false (fun ha => ?_) (not_settled_of_text (h'.none_iff.1 hp) hla ht)⟩
    rw [ha.counted, hr.count_eq ht, h.count] at hle
    have hpo := getTokenLen_pos hto ht
    omega

end

/-! ### The client -/

theorem delivered_showAll (hasToolCalls : Bool) (pieces : List Piece) :
    delivered (showAll hasToolCalls pieces) = pieceTexts pieces := by
  induction pieces generalizing hasToolCalls with
  | nil => rfl
  | cons p ps ih =>
    have hih := ih (hasToolCalls || p.callsTools)
    unfold delivered at hih
    rw [showAll, delivered, flatMap_cons, hih]
    rfl

theorem delivered_shown (a : Answer σ) : delivered a.shown = pieceTexts a.pieces := by
  have hc : ∀ p : Option Piece, delivered (p.map Piece.closing).toList = [] := by
    intro p
    cases p <;> rfl
  rw [Answer.shown, delivered, flatMap_append]
  exact (congrArg₂ _ (delivered_showAll false a.pieces) (hc a.closing)).trans (append_nil _)

theorem reported_showAll (hasToolCalls : Bool) (pieces : List Piece) :
    reported (showAll hasToolCalls pieces) = lastCount pieces := by
  rcases eq_nil_or_concat pieces with rfl | ⟨ps, p, rfl⟩
  · rfl
  · rw [concat_eq_append, lastCount_concat, showAll_append, reported]
    simp [showAll, Piece.show]

theorem reported_shown (a : Answer σ) :
    reported a.shown = (a.closing.map Piece.count).getD (lastCount a.pieces) := by
  cases hc : a.closing with
  | none =>
    rw [Answer.shown, hc]
    simp [reported_showAll]
  | some =>
    rw [Answer.shown, hc]
    simp [reported, Piece.closing]

theorem mem_of_consumed {γ : Processor σ} {limit : Nat} {tools : Text} {rd : Reading σ}
    {resps : List CompletionResponse} {r : CompletionResponse} (h : r ∈ γ.consumed limit tools rd resps) :
    r ∈ resps := by
  induction resps generalizing rd with
  | nil => cases h
  | cons resp resps ih =>
  unfold Processor.consumed at h
  split at h
  · cases h
  · rw [mem_singleton.1 h]
    exact mem_cons_self
  · rcases mem_cons.1 h with rfl | h
    · exact mem_cons_self
    · exact mem_cons_of_mem _ (ih h)

/-- **The texts are conserved if and only if the chunks have settled**: those that are processed, up to the end
marker or to the limit on the tokens. -/
theorem conserved_iff {σ : Type} {γ : Gateway σ} {tools : Text} {d : Detector} {τ : σ}
    {ctx : RequestContext σ} (hstart : Starts γ true tools d τ ctx) (hpass : γ.processor.PassesText)
    (htokens : γ.processor.FindsTokens) {resps : List CompletionResponse}
    (hone : ∀ r ∈ resps, r.choices.length ≤ 1) :
    ∃ ctx', γ.handle ctx.enter (resps.map .of ++ [.finish]) = .ok (ctx', none) ∧
      (Conserved γ.processor d (γ.processor.consumed ctx.stats.maxTokensLimit tools (.start d τ) resps) ctx' ↔
        Settled d (γ.processor.consumed ctx.stats.maxTokensLimit tools (.start d τ) resps)) := by
  obtain ⟨ctx', hh, hs⟩ := hstart.handle resps
  refine ⟨ctx', hh, ?_⟩
  obtain ⟨hso, hb⟩ := sound_newReasoningParser hstart.detector
  obtain ⟨rd, pieces, htr, ht, he⟩ :=
    answer_eq tools hpass htokens (Tracks.start hso hb τ) (Tallies.start d)
      (exceeds_start ctx.stats.maxTokensLimit d τ) hone
  rw [nil_append] at htr ht he
  have ho : ∀ r ∈ γ.processor.consumed ctx.stats.maxTokensLimit tools (.start d τ) resps,
      r.choices.length ≤ 1 := fun r hr => hone r (mem_of_consumed hr)
  rw [getLast?_nil] at he
  generalize γ.processor.consumed ctx.stats.maxTokensLimit tools (.start d τ) resps = taken at *
  generalize γ.processor.answer ctx.stats.maxTokensLimit tools (.start d τ) [] none resps = a at *
  have ha : a.failed = false ∧ (a.Conserves γ.processor d taken ↔ Settled d taken) := by
    rcases he with ⟨rfl, hli⟩ | ⟨last, hla, rfl⟩
    · exact conserves_done hpass htokens htr ht hli ho
    · have hl := ho last (mem_of_getLast? hla)
      exact ⟨(finish_not_failed tools hpass _ _ hl).1, conserves_finish tools hpass htokens htr ht hla hl⟩
  rw [← ha.2]
  constructor
  · rintro ⟨hte, hre, hc⟩
    rw [hs.sent, delivered_shown] at hte
    rw [hs.sent, reported_shown] at hre
    exact ⟨hte, hre, (hs.output ha.1).symm.trans hc⟩
  · rintro ⟨hte, hre, hc⟩
    refine ⟨?_, ?_, (hs.output ha.1).trans hc⟩
    · rw [hs.sent, delivered_shown]
      exact hte
    · rw [hs.sent, reported_shown]
      exact hre

theorem findsTokens_plainGateway : plainGateway.processor.FindsTokens :=
  fun text ht => ⟨text.length, rfl, length_pos_of_ne_nil ht⟩

theorem conserved_of_finish : ∃ ctx, plainGateway.handle (chatRequest true).enter
      ([choiceChunk "a" "", choiceChunk "b" "stop"].map .of ++ [.finish]) = .ok (ctx, none) ∧
    Conserved plainGateway.processor (newQwen3Detector true false)
      [choiceChunk "a" "", choiceChunk "b" "stop"] ctx := by
  have ho : ∀ r ∈ [choiceChunk "a" "", choiceChunk "b" "stop"], r.choices.length ≤ 1 := by decide +kernel
  obtain ⟨ctx, hh, hi⟩ :=
    conserved_iff (starts_chatRequest true) (fun _ _ _ => ⟨_, rfl, rfl⟩) findsTokens_plainGateway ho
  have hc : plainGateway.processor.consumed (chatRequest true).stats.maxTokensLimit []
      (.start (newQwen3Detector true false) ()) [choiceChunk "a" "", choiceChunk "b" "stop"] =
        [choiceChunk "a" "", choiceChunk "b" "stop"] := by decide +kernel
  rw [hc] at hi
  refine ⟨ctx, hh, hi.2 ⟨by decide +kernel, ?_⟩⟩
  intro front resp rest hl
  have ht : (choiceChunk "b" "stop").text ≠ [] := by decide +kernel
  have hs : LastText ([choiceChunk "a" ""] ++ [choiceChunk "b" "stop"]) front resp rest := hl
  obtain ⟨rfl, rfl, rfl⟩ := (lastText_concat_of_text ht).1 hs
  exact .inl ⟨ht, by decide +kernel, by unfold Detector.Passes; decide +kernel⟩

/-- A request for a chat of one token. -/
def shortRequest : RequestContext Unit :=
  newRequestContext "r" (newLLMRequest .openAIChatCompletion true [] (.tokens [104, 105])) (newStats 2 1)

/-- **A text that reaches the limit is sent twice.** -/
theorem text_twice : ¬ ∀ (γ : Gateway Unit) (tools : Text) (d : Detector) (τ : Unit)
    (ctx ctx' : RequestContext Unit) (resps : List CompletionResponse), Starts γ true tools d τ ctx →
      γ.processor.PassesText → γ.processor.FindsTokens → (∀ r ∈ resps, r.choices.length ≤ 1) →
      γ.handle ctx.enter (resps.map .of ++ [.finish]) = .ok (ctx', none) →
      Conserved γ.processor d (γ.processor.consumed ctx.stats.maxTokensLimit tools (.start d τ) resps) ctx' := by
  intro ha
  have hs : Starts plainGateway true [] (newQwen3Detector true false) () shortRequest :=
    ⟨rfl, ⟨"r", 1, "hi".toList, rfl⟩, (starts_chatRequest true).detector, rfl⟩
  have hr : ∃ r ∈ (plainGateway.handle shortRequest.enter ([choiceChunk "a" ""].map .of ++ [.finish])).toOption,
      r.2 = none ∧ delivered (shown r.1.sent) = ['a', 'a'] := by decide +kernel
  obtain ⟨ctx', hh, hde⟩ := ok_of_exists hr
  have hc := ha plainGateway [] _ () shortRequest ctx' [choiceChunk "a" ""] hs
    (fun _ _ _ => ⟨_, rfl, rfl⟩) findsTokens_plainGateway (by decide +kernel) hh
  have ht : texts (plainGateway.processor.consumed shortRequest.stats.maxTokensLimit []
      (.start (newQwen3Detector true false) ()) [choiceChunk "a" ""]) = ['a'] := by decide +kernel
  have hl := hc.text.length_le
  rw [hde, ht] at hl
  exact absurd hl (by decide)

end Llumnix.Chat
