/-
**A chat in a stream.**

The handler follows the description of the answer in `Llumnix.ChatReading`, chunk by chunk.  Request state
tracking is off here, as it is by default; with it the handler panics.

* `Streaming.handle` — **the client is shown the answer.**
-/

import Llumnix.ChatReading
import Llumnix.OpenAIHandler

namespace Llumnix.Chat

open List Processor Option Chat.Gateway

/-! ### What the client is sent -/

/-- The choices of a response of a stream, with the number of completion tokens it reports. -/
def ResponseMsg.shown : ResponseMsg → List (StreamChoice × Nat)
  | stream r => r.choices.map fun choice => (choice, (r.usage.map Usage.completionTokens).getD 0)
  | _ => []

/-- What the messages show a client. -/
def shown (sent : List ResponseMsg) : List (StreamChoice × Nat) := sent.flatMap ResponseMsg.shown

theorem shown_append (sent sent' : List ResponseMsg) : shown (sent ++ sent') = shown sent ++ shown sent' :=
  flatMap_append

/-! ### The request -/

section

variable {σ : Type} {γ : Gateway σ}
variable {llm : LLMRequest σ} {d : Detector} {τ : σ} {tools : Text} {ctx : RequestContext σ} {done : Bool}
  {resp : CompletionResponse} {choice : CompletionChoice} {choices : List CompletionChoice}
  {parsers : Detector × σ}
variable {req : Request σ}

/-- **The request after these pieces**, between two chunks. -/
structure Streaming (γ : Gateway σ) (limit : Nat) (tools : Text) (rd : Reading σ) (pieces : List Piece)
    (ctx : RequestContext σ) : Prop where
  protocol : ctx.llm.protocol = .openAIChatCompletion
  clientStream : ctx.llm.clientStream = true
  tools : ctx.llm.tools = tools
  parsers : (γ.processor.trySetParser ctx.llm).2 = .ok (rd.detector, rd.tool)
  cleared : ctx.llm.chatCompletionStreamResponse = none
  limit : ctx.stats.maxTokensLimit = limit
  output : ctx.stats.outputTokensLen = rd.count
  reasoning : ctx.stats.reasoningTokensLen = rd.reasoning
  calls : ctx.stats.hasToolCalls = pieces.any Piece.callsTools
  sent : shown ctx.sent = showAll false pieces
  last : ctx.llm.lastChatStreamResp.map (fun r => (ResponseMsg.stream r).shown) =
    (pending pieces).map fun p => [p.closing]

/-- A request that has been accepted, and the parsers it will have. -/
structure Starts (γ : Gateway σ) (stream : Bool) (tools : Text) (d : Detector) (τ : σ)
    (ctx : RequestContext σ) : Prop where
  untracked : γ.enableRequestStateTracking = false
  accepted : ∃ id maxTokens rawData, γ.parseRequest id (.chat stream maxTokens tools rawData) = .ok ctx
  detector : newReasoningParser γ.processor.reasoningParser true false = .ok d
  tool : γ.processor.newToolParser = .ok τ

theorem trySetParser_of_none {γ : Processor σ} (hr : llm.reasoningParser = none)
    (ht : llm.toolParser = none) (hd : newReasoningParser γ.reasoningParser true false = .ok d)
    (hτ : γ.newToolParser = .ok τ) : (γ.trySetParser llm).2 = .ok (d, τ) := by
  simp only [trySetParser, hr, ht, Option.elim, hd, hτ]

theorem trySetParser_eq {γ : Processor σ} {p : Detector × σ} (h : (γ.trySetParser llm).2 = .ok p) :
    γ.trySetParser llm = (llm.keepParsers p, .ok p) := by
  unfold trySetParser at h ⊢
  split at h
  · cases h
  · split at h <;> cases h
    rfl

theorem trySetParser_congr (γ : Processor σ) (llm llm' : LLMRequest σ)
    (hr : llm'.reasoningParser = llm.reasoningParser) (ht : llm'.toolParser = llm.toolParser) :
    (γ.trySetParser llm').2 = (γ.trySetParser llm).2 := by
  unfold trySetParser
  rw [hr, ht]
  cases llm.reasoningParser.elim (newReasoningParser γ.reasoningParser true false) Except.ok with
  | error => rfl
  | ok =>
    cases llm.toolParser.elim γ.newToolParser Except.ok with
    | error | ok => rfl

theorem Starts.streaming (h : Starts γ true tools d τ ctx) :
    Streaming γ ctx.stats.maxTokensLimit tools (Reading.start d τ) [] ctx := by
  obtain ⟨id, maxTokens, rawData, ha⟩ := h.accepted
  simp only [parseRequest] at ha
  split at ha <;> cases ha
  exact ⟨rfl, rfl, rfl, trySetParser_of_none rfl rfl h.detector h.tool, rfl, rfl, rfl, rfl, rfl, rfl, rfl⟩

/-- The response of the chunk and the times do not matter between two chunks. -/
theorem Streaming.of_same {limit : Nat} {rd : Reading σ} {pieces : List Piece} {ctx' : RequestContext σ}
    (h : Streaming γ limit tools rd pieces ctx) {resp : Option CompletionResponse} {itls : Nat}
    (hl : ctx'.llm = { ctx.llm with completionResponse := resp })
    (hs : ctx'.stats = { ctx.stats with itls := itls }) (hse : ctx'.sent = ctx.sent) :
    Streaming γ limit tools rd pieces ctx' := by
  obtain ⟨⟨_, _⟩, _⟩ := ctx'
  obtain rfl := hl
  obtain rfl := hs
  obtain rfl := hse
  exact { h with
    parsers := by
      refine Eq.trans (trySetParser_congr γ.processor ctx.llm _ ?_ ?_) h.parsers <;> rfl }

/-- The first test of `ChatCompletionStreamProcess` fails if nothing has been kept, or before the end. -/
theorem not_done_and_last (hl : done = true → req.llm.lastChatStreamResp = none) :
    ¬ (done = true ∧ req.llm.lastChatStreamResp.isSome = true) := by
  rintro ⟨hdo, hs⟩
  rw [hl hdo] at hs
  cases hs

theorem processAndWriteChunk_stream (hpo : γ.processor.postProcess ctx.toRequest done = (req, .ok ()))
    (hp : req.llm.protocol = .openAIChatCompletion) (hs : req.llm.clientStream = true) :
    ∃ ctx', γ.processAndWriteChunk ctx done = (ctx', .ok ()) ∧
      ctx'.llm = { req.llm with chatCompletionStreamResponse := none } ∧ ctx'.stats = req.stats ∧
      shown ctx'.sent =
        shown ctx.sent ++ req.llm.chatCompletionStreamResponse.elim [] fun r => (ResponseMsg.stream r).shown := by
  have hm : marshalResponse req.llm = ({ req.llm with chatCompletionStreamResponse := none },
      req.llm.chatCompletionStreamResponse.map ResponseMsg.stream) := by
    unfold marshalResponse
    split
    · exact if_pos hs
    next hc =>
      cases hp.symm.trans hc
  rw [processAndWriteChunk_ok hpo, hm]
  refine ⟨_, rfl, rfl, rfl, ?_⟩
  have hdo : shown (if done then [ResponseMsg.done] else []) = [] := by cases done <;> rfl
  simp only [RequestContext.write, shown_append, hdo, append_nil]
  cases req.llm.chatCompletionStreamResponse with
  | none => rfl
  | some => simp [shown]

section

variable {limit : Nat} {tools : Text} {rd : Reading σ} {pieces : List Piece} {ctx : RequestContext σ}
  {resp : CompletionResponse}
variable {rd' : Reading σ}
variable {ctx' : RequestContext σ} {p : Piece}

section

variable (h : Streaming γ limit tools rd pieces ctx)
include h

theorem Streaming.last_eq_none (hp : pending pieces = none) : ctx.llm.lastChatStreamResp = none := by
  have hl := h.last
  rw [hp, map_none, map_eq_none_iff] at hl
  exact hl

theorem Streaming.postProcess_eq (hr : ctx.llm.completionResponse = some resp)
    (ho : resp.choices.length ≤ 1) (done : Bool) :
    γ.processor.postProcess ctx.toRequest done =
      γ.processor.chatCompletionStreamProcess ⟨ctx.llm.keepParsers (rd.detector, rd.tool), ctx.stats⟩ resp
        rd.detector rd.tool done := by
  unfold postProcess
  simp only [h.protocol, hr, if_neg (Nat.not_lt.2 ho), trySetParser_eq h.parsers]
  exact if_pos h.clientStream

theorem Streaming.of_silent {p : Detector × σ} (hrd : (rd'.detector, rd'.tool) = p)
    (hl : ctx'.llm = { ctx.llm.keepParsers p with chatCompletionStreamResponse := none })
    (hli : ctx'.stats.maxTokensLimit = ctx.stats.maxTokensLimit)
    (ho : ctx'.stats.outputTokensLen = rd'.count)
    (hr : ctx'.stats.reasoningTokensLen = rd'.reasoning)
    (hc : ctx'.stats.hasToolCalls = ctx.stats.hasToolCalls)
    (hs : shown ctx'.sent = shown ctx.sent) :
    Streaming γ limit tools rd' pieces ctx' := by
  obtain ⟨⟨_, _⟩, _⟩ := ctx'
  obtain rfl := hl
  obtain rfl := hrd
  exact { h with
    parsers := rfl
    cleared := rfl
    limit := hli.trans h.limit
    output := ho
    reasoning := hr
    calls := hc.trans h.calls
    sent := hs.trans h.sent }

theorem Streaming.of_piece {d : Detector × σ} {stats : RequestStats} (hrd : (rd'.detector, rd'.tool) = d)
    (hco : rd'.count = p.count) (hli : stats.maxTokensLimit = ctx.stats.maxTokensLimit)
    (ho : stats.outputTokensLen = p.count) (hr : stats.reasoningTokensLen = rd'.reasoning)
    (hc : stats.hasToolCalls = (ctx.stats.hasToolCalls || p.callsTools)) (hl : ctx'.llm =
      { ctx.llm.keepParsers d with
        chatCompletionStreamResponse := none
        lastChatStreamResp := if needSplitLastResp p.choice then some (lastResponse stats resp p.choice)
          else ctx.llm.lastChatStreamResp }) (hs : ctx'.stats = stats)
    (hse : shown ctx'.sent =
      shown ctx.sent ++ (ResponseMsg.stream (streamResponse stats resp p.choice p.parsed)).shown) :
    Streaming γ limit tools rd' (pieces ++ [p]) ctx' where
  protocol := by rw [hl]; exact h.protocol
  clientStream := by rw [hl]; exact h.clientStream
  tools := by rw [hl]; exact h.tools
  parsers := by rw [hl, hrd]; rfl
  cleared := by rw [hl]
  limit := by rw [hs, hli, h.limit]
  output := by rw [hs, ho, hco]
  reasoning := by rw [hs, hr]
  calls := by
    rw [hs, hc, h.calls]
    simp
  sent := by
    have hsh : (ResponseMsg.stream (streamResponse stats resp p.choice p.parsed)).shown =
        [p.show stats.hasToolCalls] := by
      simp [ResponseMsg.shown, streamResponse, Piece.show, RequestStats.usage, ho]
    rw [hse, h.sent, hsh, showAll_append, hc, h.calls]
    rfl
  last := by
    have hcl : (ResponseMsg.stream (lastResponse stats resp p.choice)).shown = [p.closing] := by
      simp [ResponseMsg.shown, lastResponse, Piece.closing, RequestStats.usage, ho]
    rw [hl, pending_concat]
    by_cases hsp : needSplitLastResp p.choice
    · simp only [if_pos hsp, map_some, hcl]
    · simp only [if_neg hsp]
      exact h.last

/-- **One chunk is processed**, or the last one once more: its piece is sent. -/
theorem Streaming.process (hrs : ctx.llm.completionResponse = some resp) (ho : resp.choices.length ≤ 1)
    (done : Bool)
    (hdo : done = true → pending pieces = none) {piece : Option Piece}
    (hre : γ.processor.read tools rd resp = .ok (rd', piece)) :
    ∃ ctx', γ.processAndWriteChunk ctx done = (ctx', .ok ()) ∧
      Streaming γ limit tools rd' (pieces ++ piece.toList) ctx' ∧ ctx'.llm.completionResponse = some resp := by
  have hcl := h.cleared
  have hpo := h.postProcess_eq hrs ho done
  have ht : (ctx.llm.keepParsers (rd.detector, rd.tool)).tools = tools := h.tools
  rw [chatCompletionStreamProcess, if_neg] at hpo
  swap
  · exact not_done_and_last fun hd => h.last_eq_none (hdo hd)
  cases hc : resp.choices with
  | nil =>
    simp only [Processor.read, hc, Except.ok.injEq, Prod.mk.injEq] at hre
    obtain ⟨rfl, rfl⟩ := hre
    rw [hc] at hpo
    obtain ⟨ctx', hp, hl, hs, hse⟩ := processAndWriteChunk_stream hpo h.protocol h.clientStream
    refine ⟨ctx', hp, ?_, by rw [hl]; exact hrs⟩
    rw [toList_none, append_nil]
    refine h.of_silent rfl hl (by rw [hs]) (by rw [hs]; exact h.output) (by rw [hs]; exact h.reasoning)
      (by rw [hs]) ?_
    rw [hse, LLMRequest.keepParsers, hcl, elim_none, append_nil]
  | cons choice =>
  simp only [Processor.read, hc] at hre
  rcases hpa : γ.processor.parseText tools rd.detector rd.tool choice.text with ⟨parsers, e | _ | p⟩
  · rw [hpa] at hre
    cases hre
  · -- the parsers keep the text back
    rw [hpa] at hre
    simp only [map_none, Except.ok.injEq, Prod.mk.injEq] at hre
    obtain ⟨rfl, rfl⟩ := hre
    simp only [hc, ht, hpa] at hpo
    obtain ⟨ctx', hp, hl, hs, hse⟩ := processAndWriteChunk_stream hpo h.protocol h.clientStream
    refine ⟨ctx', hp, ?_, by rw [hl]; exact hrs⟩
    rw [toList_none, append_nil]
    refine h.of_silent rfl hl (by rw [hs]; rfl) ?_ (by rw [hs]; exact h.reasoning) (by rw [hs]; rfl) ?_
    · rw [hs, ← h.output]
      rfl
    · rw [hse, LLMRequest.keepParsers, LLMRequest.keepParsers, hcl, elim_none, append_nil]
  · rw [hpa] at hre
    obtain ⟨rfl, rfl⟩ := hre
    simp only [hc, ht, hpa] at hpo
    obtain ⟨ctx', hp, hl, hs, hse⟩ := processAndWriteChunk_stream hpo h.protocol h.clientStream
    refine ⟨ctx', hp, ?_, by rw [hl]; exact hrs⟩
    refine h.of_piece rfl rfl (by rfl) ?_ ?_ (by rfl) hl hs hse
    · rw [← h.output]
      rfl
    · rw [elim_some, ← h.reasoning]
      rfl

/-- **In the end the finish reason that was kept is sent.** -/
theorem Streaming.close (hre : ctx.llm.completionResponse = some resp) (ho : resp.choices.length ≤ 1)
    (hpe : pending pieces = some p) :
    ∃ ctx', γ.processAndWriteChunk ctx true = (ctx', .ok ()) ∧ ctx'.stats = ctx.stats ∧
      shown ctx'.sent = showAll false pieces ++ [p.closing] := by
  have hl := h.last
  rw [hpe, map_some] at hl
  obtain ⟨r, hr, hc⟩ := map_eq_some_iff.1 hl
  have hpo := h.postProcess_eq hre ho true
  simp only [chatCompletionStreamProcess, LLMRequest.keepParsers, hr, isSome_some, and_self, if_true] at hpo
  obtain ⟨ctx', hp, -, hs, hse⟩ := processAndWriteChunk_stream hpo h.protocol h.clientStream
  refine ⟨ctx', hp, hs, ?_⟩
  rw [hse, h.sent, elim_some, hc]

/-- **A chunk that fails changes nothing for the client.** -/
theorem Streaming.fail (hre : ctx.llm.completionResponse = some resp) (done : Bool)
    (hdo : done = true → pending pieces = none)
    (hf : 1 < resp.choices.length ∨ ∃ e, γ.processor.read tools rd resp = .error e) :
    ∃ ctx' e, γ.processAndWriteChunk ctx done = (ctx', .error e) ∧ shown ctx'.sent = showAll false pieces := by
  rcases Nat.lt_or_ge 1 resp.choices.length with hm | ho
  · have hp : γ.processor.postProcess ctx.toRequest done =
        (ctx.toRequest, .error "chat completion response has more than one choice") := by
      unfold postProcess
      simp only [h.protocol, hre, if_pos hm]
    exact ⟨_, _, processAndWriteChunk_error hp, h.sent⟩
  · obtain ⟨e, hr⟩ := hf.resolve_left (Nat.not_lt.2 ho)
    have hp := h.postProcess_eq hre ho done
    cases hc : resp.choices with
    | nil =>
      rw [read_of_nil hc] at hr
      cases hr
    | cons choice =>
    simp only [Processor.read, hc] at hr
    rcases hpa : γ.processor.parseText tools rd.detector rd.tool choice.text with ⟨parsers, e' | parsed⟩
    · rw [← h.tools] at hpa
      rw [chatCompletionStreamProcess, if_neg, hc] at hp
      · simp only [LLMRequest.keepParsers, hpa] at hp
        exact ⟨_, _, processAndWriteChunk_error hp, h.sent⟩
      · exact not_done_and_last fun hd => h.last_eq_none (hdo hd)
    · rw [hpa] at hr
      cases hr

theorem Streaming.exceeds_eq : ctx.stats.outputExceedMaxTokens = rd.exceeds limit := by
  rw [RequestStats.outputExceedMaxTokens, h.limit, h.output, h.reasoning, Reading.exceeds]

end

/-! ### The end -/

/-- The client has been shown this answer, and the tokens have been counted. -/
structure Shows (a : Answer σ) (ctx : RequestContext σ) : Prop where
  sent : shown ctx.sent = a.shown
  output : a.failed = false → ctx.stats.outputTokensLen = a.reading.count

theorem shows_of_failed (rd : Reading σ) (hs : shown ctx.sent = showAll false pieces) :
    Shows ⟨rd, pieces, none, true⟩ ctx where
  sent := by rw [hs, Answer.shown, map_none, toList_none, append_nil]
  output := fun hf => nomatch hf

theorem Streaming.shows (h : Streaming γ limit tools rd pieces ctx) :
    Shows ⟨rd, pieces, none, false⟩ ctx where
  sent := (shows_of_failed rd h.sent).sent
  output := fun _ => h.output

theorem Shows.write_err {a : Answer σ} (h : Shows a ctx) (e : String) : Shows a (ctx.write [.err e]) where
  sent := by
    rw [RequestContext.write, shown_append, h.sent]
    exact append_nil _
  output := h.output

/-- **The last chunk is processed as the end.** -/
theorem Streaming.finish (h : Streaming γ limit tools rd pieces ctx)
    (hre : ctx.llm.completionResponse = some resp) (ho : resp.choices.length ≤ 1) :
    Shows (γ.processor.finish tools rd pieces resp) (γ.processAndWriteChunk ctx true).1 := by
  cases hp : pending pieces with
  | some =>
    obtain ⟨ctx', hc, hss, hs⟩ := h.close hre ho hp
    rw [finish_of_pending hp, hc]
    exact ⟨hs, fun _ => by rw [hss]; exact h.output⟩
  | none =>
  cases hr : γ.processor.read tools rd resp with
  | error e =>
    obtain ⟨ctx', e', he, hs⟩ := h.fail hre true (fun _ => hp) (.inr ⟨e, hr⟩)
    rw [finish_of_error hp hr, he]
    exact shows_of_failed rd hs
  | ok =>
    obtain ⟨ctx', hpr, hst, -⟩ := h.process hre ho true (fun _ => hp) hr
    rw [finish_of_read hp hr, hpr]
    exact hst.shows

end

/-! ### The loop -/

theorem receive_untracked (hu : γ.enableRequestStateTracking = false) (loop : Loop σ)
    (chunk : StreamChunk) {isStreamEnd : Bool} (her : chunk.err = .none)
    (hp : parseResponse loop.ctx.llm chunk.data = .ok (llm, isStreamEnd)) :
    ∃ next : Loop σ, γ.receive loop chunk = .ok (γ.proceed next isStreamEnd) ∧ next.ctx.llm = llm ∧
      (∃ itls, next.ctx.stats = { loop.ctx.stats with itls := itls }) ∧ next.ctx.sent = loop.ctx.sent := by
  have hf : ∀ ctx, γ.onPostDecodeFirstStreamResponse ctx = .ok ctx :=
    fun ctx => if_neg fun hb => by rw [hu] at hb; cases hb.1
  have he : ∀ ctx, γ.onPostDecodeEachStreamResponse ctx = .ok ctx :=
    fun ctx => if_neg fun hb => by rw [hu] at hb; cases hb.1
  obtain ⟨arrived, ha, hl, hs, hse⟩ : ∃ arrived : Loop σ, γ.arrive loop = .ok arrived ∧
      arrived.ctx.llm = loop.ctx.llm ∧ (∃ itls, arrived.ctx.stats = { loop.ctx.stats with itls := itls }) ∧
      arrived.ctx.sent = loop.ctx.sent := by
    obtain ⟨ctx, isFirst, isFirstDecode⟩ := loop
    cases isFirst with
    | true => exact ⟨_, rfl, rfl, ⟨ctx.stats.itls, rfl⟩, rfl⟩
    | false =>
      cases isFirstDecode with
      | true =>
        exact ⟨⟨ctx.recordITL, false, false⟩, congrArg (Except.map _) (hf _), rfl, ⟨_, rfl⟩, rfl⟩
      | false => exact ⟨_, rfl, rfl, ⟨_, rfl⟩, rfl⟩
  rw [← hl] at hp
  refine ⟨{ arrived with ctx := { arrived.ctx with llm := llm } }, ?_, rfl, hs, hse⟩
  unfold receive
  simp only [ha, her, hp, he, Except.map]
  exact ite_self _

section

variable {limit : Nat} {tools : Text} {rd : Reading σ} {pieces : List Piece} {loop : Loop σ}
variable {isStreamEnd : Bool}

theorem proceed_of_ok (h : γ.processAndWriteChunk loop.ctx isStreamEnd = (ctx, .ok ())) :
    γ.proceed loop isStreamEnd =
      if ctx.stats.outputExceedMaxTokens then .returned (γ.processAndWriteChunk ctx true).1 none
      else .more { loop with ctx := ctx } := by
  simp only [proceed, h]

theorem proceed_of_error {e : String} (h : γ.processAndWriteChunk loop.ctx isStreamEnd = (ctx, .error e)) :
    γ.proceed loop isStreamEnd = .returned (ctx.write [.err e]) none := by
  simp only [proceed, h]

section

variable (hu : γ.enableRequestStateTracking = false) (h : Streaming γ limit tools rd pieces loop.ctx)
include hu h

/-- **One chunk**: the loop goes on, or returns with the answer. -/
theorem Streaming.receive (last : Option CompletionResponse)
    (resp : CompletionResponse) (resps : List CompletionResponse) :
    (∃ ctx, γ.receive loop (.of resp) = .ok (.returned ctx none) ∧
        Shows (γ.processor.answer limit tools rd pieces last (resp :: resps)) ctx) ∨
      ∃ next rd' piece, γ.processor.take limit tools rd resp = .more rd' piece ∧
        γ.receive loop (.of resp) = .ok (.more next) ∧
        Streaming γ limit tools rd' (pieces ++ piece.toList) next.ctx ∧
        next.ctx.llm.completionResponse = some resp := by
  obtain ⟨arrived, hpr, hll, ⟨itls, hst⟩, hse⟩ := receive_untracked hu loop (.of resp) rfl rfl
  have h' : Streaming γ limit tools rd pieces arrived.ctx := h.of_same hll hst hse
  have hr : arrived.ctx.llm.completionResponse = some resp := by rw [hll]
  cases ht : γ.processor.take limit tools rd resp with
  | failed =>
    obtain ⟨ctx, e, he, hsh⟩ := h'.fail hr false (fun hd => by cases hd) (take_failed_iff.1 ht)
    refine .inl ⟨_, hpr.trans (congrArg _ (proceed_of_error he)), ?_⟩
    rw [answer, ht]
    exact (shows_of_failed rd hsh).write_err e
  | stopped =>
    obtain ⟨ho, hre, hl⟩ := take_stopped_iff.1 ht
    obtain ⟨ctx, hp, hs, hr'⟩ := h'.process hr ho false (fun hd => by cases hd) hre
    refine .inl ⟨(γ.processAndWriteChunk ctx true).1, ?_, ?_⟩
    · rw [hpr, proceed_of_ok hp, hs.exceeds_eq, if_pos hl]
    · rw [answer, ht]
      exact hs.finish hr' ho
  | more =>
    obtain ⟨ho, hre, hl⟩ := take_more_iff.1 ht
    obtain ⟨ctx, hp, hs, hr'⟩ := h'.process hr ho false (fun hd => by cases hd) hre
    refine .inr ⟨{ arrived with ctx := ctx }, _, _, rfl, ?_, hs, hr'⟩
    rw [hpr, proceed_of_ok hp, hs.exceeds_eq, hl]
    rfl

theorem Streaming.receive_finish (hl : rd.exceeds limit = false)
    (ho : ∀ resp ∈ loop.ctx.llm.completionResponse, resp.choices.length ≤ 1) :
    ∃ outcome ctx, γ.receive loop .finish = .ok outcome ∧
      (outcome = .returned ctx none ∨ ∃ next : Loop σ, outcome = .more next ∧ next.ctx = ctx) ∧
      Shows (γ.processor.done limit tools rd pieces loop.ctx.llm.completionResponse) ctx := by
  obtain ⟨arrived, hpr, hll, ⟨itls, hst⟩, hse⟩ := receive_untracked hu loop .finish rfl rfl
  have h' : Streaming γ limit tools rd pieces arrived.ctx := h.of_same hll hst hse
  cases hla : loop.ctx.llm.completionResponse with
  | none =>
    have hpo : γ.processor.postProcess arrived.ctx.toRequest true =
        (arrived.ctx.toRequest, .error "chat completion response is empty") := by
      unfold postProcess
      simp only [hll, h.protocol, hla]
    refine ⟨_, _, hpr, .inl (proceed_of_error (processAndWriteChunk_error hpo)), ?_⟩
    exact h'.shows.write_err _
  | some resp =>
  have hre : arrived.ctx.llm.completionResponse = some resp := by rw [hll, hla]
  have ho' : resp.choices.length ≤ 1 := ho resp hla
  cases hp : pending pieces with
  | some =>
    -- nothing is read, so the limit is not reached either
    obtain ⟨ctx, hc, hs', hsh⟩ := h'.close hre ho' hp
    have he : ctx.stats.outputExceedMaxTokens = false := by
      rw [hs', h'.exceeds_eq, hl]
    refine ⟨_, ctx, hpr, .inr ⟨{ arrived with ctx := ctx }, ?_, rfl⟩, ?_⟩
    · rw [proceed_of_ok hc, he]
      rfl
    · rw [done_of_within (by rw [finish_of_pending hp]; exact hl), finish_of_pending hp]
      exact ⟨hsh, fun _ => by rw [hs']; exact h'.output⟩
  | none =>
  cases hr : γ.processor.read tools rd resp with
  | error e =>
    obtain ⟨ctx, e', her, hsh⟩ := h'.fail hre true (fun _ => hp) (.inr ⟨e, hr⟩)
    refine ⟨_, _, hpr, .inl (proceed_of_error her), ?_⟩
    rw [done_of_within (by rw [finish_of_error hp hr]; exact hl), finish_of_error hp hr]
    exact (shows_of_failed rd hsh).write_err e'
  | ok r =>
  obtain ⟨rd', piece⟩ := r
  obtain ⟨ctx, hpc, hs, hr'⟩ := h'.process hre ho' true (fun _ => hp) hr
  have hf := finish_of_read hp hr
  cases he : rd'.exceeds limit with
  | true =>
    refine ⟨_, (γ.processAndWriteChunk ctx true).1, hpr, .inl ?_, ?_⟩
    · rw [proceed_of_ok hpc, hs.exceeds_eq, if_pos he]
    · simp only [done, hf, he, if_true]
      exact hs.finish hr' ho'
  | false =>
    refine ⟨_, ctx, hpr, .inr ⟨{ arrived with ctx := ctx }, ?_, rfl⟩, ?_⟩
    · rw [proceed_of_ok hpc, hs.exceeds_eq, he]
      rfl
    · rw [done_of_within (by rw [hf]; exact he), hf]
      exact hs.shows

theorem Streaming.handle (hl : rd.exceeds limit = false)
    (hon : ∀ resp ∈ loop.ctx.llm.completionResponse, resp.choices.length ≤ 1)
    (resps : List CompletionResponse) :
    ∃ ctx, γ.handle loop (resps.map .of ++ [.finish]) = .ok (ctx, none) ∧
      Shows (γ.processor.answer limit tools rd pieces loop.ctx.llm.completionResponse resps) ctx := by
  induction resps generalizing rd pieces loop with
  | nil =>
    obtain ⟨outcome, ctx, hre, ho, hs⟩ := h.receive_finish hu hl hon
    refine ⟨ctx, ?_, hs⟩
    rcases ho with rfl | ⟨next, rfl, rfl⟩
    · simp only [map_nil, nil_append, handle, hre]
    · simp only [map_nil, nil_append, handle, hre]
  | cons resp resps ih =>
  rw [map_cons, cons_append]
  rcases h.receive hu loop.ctx.llm.completionResponse resp resps with
    ⟨ctx, hre, hs⟩ | ⟨next, rd', piece, ht, hre, hsr, hrs⟩
  · refine ⟨ctx, ?_, hs⟩
    simp only [handle, hre]
  obtain ⟨hc, -, hl'⟩ := take_more_iff.1 ht
  have ho' : ∀ r ∈ next.ctx.llm.completionResponse, r.choices.length ≤ 1 := by
    intro r hr
    cases hrs.symm.trans hr
    exact hc
  obtain ⟨ctx, hh, hs⟩ := ih hsr hl' ho'
  rw [hrs] at hs
  rw [answer, ht]
  refine ⟨ctx, ?_, hs⟩
  simp only [handle, hre]
  exact hh

end

end

/-- **The answer to a request that has just been accepted.** -/
theorem Starts.handle (h : Starts γ true tools d τ ctx) (resps : List CompletionResponse) :
    ∃ ctx', γ.handle ctx.enter (resps.map .of ++ [.finish]) = .ok (ctx', none) ∧
      Shows (γ.processor.answer ctx.stats.maxTokensLimit tools (Reading.start d τ) [] none resps) ctx' := by
  have hf : ctx.llm.completionResponse = none := by
    obtain ⟨id, maxTokens, rawData, ha⟩ := h.accepted
    simp only [parseRequest] at ha
    split at ha <;> cases ha
    rfl
  have ho : ∀ resp ∈ ctx.enter.ctx.llm.completionResponse, resp.choices.length ≤ 1 := by
    intro resp hr
    rw [show ctx.enter.ctx = ctx from rfl, hf] at hr
    cases hr
  have hs : Streaming γ ctx.stats.maxTokensLimit tools (Reading.start d τ) [] ctx.enter.ctx := h.streaming
  obtain ⟨ctx', hh, hsh⟩ := hs.handle h.untracked (exceeds_start _ d τ) ho resps
  rw [show ctx.enter.ctx = ctx from rfl, hf] at hsh
  exact ⟨ctx', hh, hsh⟩

end

/-! ### A gateway without request state tracking -/

/-- A gateway for which every character is a token. -/
def plainGateway : Gateway Unit where
  processor := plainProcessor
  enableRequestStateTracking := false
  tokenizerEncode := fun s => some (s.map Char.toNat)
  preProcessChatRequest := fun s => some (s.length, s.map Char.toNat)
  modelMaxLen := 1000

def chatRequest (stream : Bool) : RequestContext Unit :=
  newRequestContext "r" (newLLMRequest .openAIChatCompletion stream [] (.tokens [104, 105])) (newStats 2 998)

theorem starts_chatRequest (stream : Bool) :
    Starts plainGateway stream [] (newQwen3Detector true false) () (chatRequest stream) where
  untracked := rfl
  accepted := ⟨"r", 0, "hi".toList, rfl⟩
  detector := by decide +kernel
  tool := rfl

def choiceChunk (text finishReason : String) : CompletionResponse where
  id := "cmpl-1".toList
  object := "text_completion"
  created := 0
  model := "m"
  choices := [⟨text.toList, 0, finishReason⟩]
  usage := none

def usageChunk : CompletionResponse := { choiceChunk "" "" with choices := [] }

end Llumnix.Chat
