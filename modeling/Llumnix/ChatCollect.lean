/-
**A chat in one piece.**

For a client that has not asked for a stream the pieces of the answer are added up in a buffer, and the end
marker has the buffer sent; nothing is read again.

* `Collecting.handle` — **the client receives the pieces, added up.**
-/

import Llumnix.ChatStream

namespace Llumnix.Chat

open Option Processor LLMRequest List ChatCompletionResponse

/-! ### Adding up the pieces -/

/-- What a client gets out of an answer. -/
structure Reply where
  content : Text
  reasoningContent : Text
  toolCalls : List ToolCall
  finishReason : String
deriving DecidableEq

def Reply.empty : Reply := ⟨[], [], [], ""⟩

/-- The message and the finish reason of a response. -/
def ChatCompletionResponse.reply (r : ChatCompletionResponse) : Reply where
  content := r.choice.message.content
  reasoningContent := r.choice.message.reasoningContent
  toolCalls := r.choice.message.toolCalls
  finishReason := r.choice.finishReason

/-- What a piece adds. -/
def Reply.extend (r : Reply) (p : Piece) : Reply where
  content := r.content ++ p.parsed.content
  reasoningContent := r.reasoningContent ++ p.parsed.reasoningContent
  toolCalls := mergeToolCalls r.toolCalls p.parsed.toolCalls
  finishReason := if p.callsTools then "tool_calls" else p.choice.finishReason

/-- **The pieces, added up.** -/
def collect (pieces : List Piece) : Reply := pieces.foldl Reply.extend .empty

theorem collect_concat (pieces : List Piece) (p : Piece) :
    collect (pieces ++ [p]) = (collect pieces).extend p := by
  rw [collect, foldl_append]
  rfl

/-- The replies a client receives in one piece. -/
def received (sent : List ResponseMsg) : List Reply :=
  sent.filterMap fun
    | .chat r => some r.reply
    | _ => none

theorem reply_extend (buffer : ChatCompletionResponse) (stats : RequestStats) (choice : CompletionChoice)
    (parsed : Parsed) (count : Nat) :
    (buffer.extend stats choice parsed).reply = buffer.reply.extend ⟨choice, parsed, count⟩ := by
  simp [reply, extend, Reply.extend, Piece.callsTools]

/-! ### The request -/

section

variable {σ : Type} {γ : Gateway σ}

/-- The buffer of a request, or nothing yet. -/
def LLMRequest.collected (llm : LLMRequest σ) : Reply :=
  (llm.bufferChatResp.map reply).getD .empty

/-- **The request after these pieces**, between two chunks. -/
structure Collecting (γ : Gateway σ) (limit : Nat) (tools : Text) (rd : Reading σ) (pieces : List Piece)
    (ctx : RequestContext σ) : Prop where
  protocol : ctx.llm.protocol = .openAIChatCompletion
  clientStream : ctx.llm.clientStream = false
  tools : ctx.llm.tools = tools
  parsers : (γ.processor.trySetParser ctx.llm).2 = .ok (rd.detector, rd.tool)
  cleared : ctx.llm.chatCompletionResponse = none
  limit : ctx.stats.maxTokensLimit = limit
  output : ctx.stats.outputTokensLen = rd.count
  reasoning : ctx.stats.reasoningTokensLen = rd.reasoning
  sent : ctx.sent = []
  buffer : ctx.llm.collected = collect pieces

theorem Starts.collecting {tools : Text} {d : Detector} {τ : σ} {ctx : RequestContext σ}
    (h : Starts γ false tools d τ ctx) :
    Collecting γ ctx.stats.maxTokensLimit tools (.start d τ) [] ctx := by
  obtain ⟨id, maxTokens, rawData, ha⟩ := h.accepted
  simp only [Gateway.parseRequest] at ha
  split at ha <;> cases ha
  exact ⟨rfl, rfl, rfl, trySetParser_of_none rfl rfl h.detector h.tool, rfl, rfl, rfl, rfl, rfl, rfl⟩

section

variable {limit : Nat} {tools : Text} {rd : Reading σ} {pieces : List Piece} {ctx : RequestContext σ}
  {resp : CompletionResponse}
variable {rd' : Reading σ} {piece : Option Piece}

/-- The response of the chunk and the times do not matter between two chunks. -/
theorem Collecting.of_same {ctx' : RequestContext σ} (h : Collecting γ limit tools rd pieces ctx)
    {resp : Option CompletionResponse} {itls : Nat}
    (hl : ctx'.llm = { ctx.llm with completionResponse := resp })
    (hs : ctx'.stats = { ctx.stats with itls := itls }) (hse : ctx'.sent = ctx.sent) :
    Collecting γ limit tools rd pieces ctx' := by
  obtain ⟨⟨_, _⟩, _⟩ := ctx'
  obtain rfl := hl
  obtain rfl := hs
  obtain rfl := hse
  exact { h with
    parsers := by
      refine Eq.trans (trySetParser_congr γ.processor ctx.llm _ ?_ ?_) h.parsers <;> rfl }

theorem Collecting.exceeds_eq (h : Collecting γ limit tools rd pieces ctx) :
    ctx.stats.outputExceedMaxTokens = rd.exceeds limit := by
  rw [RequestStats.outputExceedMaxTokens, h.limit, h.output, h.reasoning, Reading.exceeds]

theorem Collecting.postProcess_eq (h : Collecting γ limit tools rd pieces ctx)
    (hr : ctx.llm.completionResponse = some resp) (ho : resp.choices.length ≤ 1) (done : Bool) :
    γ.processor.postProcess ctx.toRequest done =
      γ.processor.chatCompletionProcess ⟨ctx.llm.keepParsers (rd.detector, rd.tool), ctx.stats⟩ resp
        rd.detector rd.tool done := by
  unfold postProcess
  simp only [h.protocol, hr, if_neg (Nat.not_lt.2 ho), trySetParser_eq h.parsers]
  exact if_neg (by rw [keepParsers, h.clientStream]; exact Bool.false_ne_true)

theorem processAndWriteChunk_whole {req : Request σ} {done : Bool}
    (hpo : γ.processor.postProcess ctx.toRequest done = (req, .ok ()))
    (hp : req.llm.protocol = .openAIChatCompletion) (hw : req.llm.clientStream = false) :
    ∃ ctx', γ.processAndWriteChunk ctx done = (ctx', .ok ()) ∧
      ctx'.llm = { req.llm with chatCompletionResponse := none } ∧ ctx'.stats = req.stats ∧
      ctx'.sent = ctx.sent ++ ((req.llm.chatCompletionResponse.map ResponseMsg.chat).toList ++
        if done then [.done] else []) := by
  have hm : marshalResponse req.llm = ({ req.llm with chatCompletionResponse := none },
      req.llm.chatCompletionResponse.map ResponseMsg.chat) := by
    unfold marshalResponse
    split
    · exact if_neg (by rw [hw]; exact Bool.false_ne_true)
    next hc =>
      cases hp.symm.trans hc
  rw [processAndWriteChunk_ok hpo, hm]
  exact ⟨_, rfl, rfl, rfl, rfl⟩

theorem wholeProcess_read {γ : Processor σ} (req : Request σ)
    (hr : γ.read req.llm.tools rd resp = .ok (rd', piece))
    (hre : req.llm.reasoningParser = some rd.detector) (ht : req.llm.toolParser = some rd.tool) :
    ∃ buffer stats, γ.chatCompletionProcess req resp rd.detector rd.tool false =
        (⟨{ req.llm.keepParsers (rd'.detector, rd'.tool) with bufferChatResp := some buffer }, stats⟩, .ok ()) ∧
      buffer.reply = piece.elim req.llm.collected req.llm.collected.extend ∧
      stats.maxTokensLimit = req.stats.maxTokensLimit ∧
      stats.outputTokensLen + rd.count = req.stats.outputTokensLen + rd'.count ∧
      stats.reasoningTokensLen + rd.reasoning = req.stats.reasoningTokensLen + rd'.reasoning := by
  have hb : (req.llm.bufferChatResp.getD (newBufferChatResp resp)).reply = req.llm.collected := by
    rw [collected]
    cases req.llm.bufferChatResp with
    | none | some => rfl
  rw [chatCompletionProcess, if_neg Bool.false_ne_true]
  cases hc : resp.choices with
  | nil =>
    rw [read_of_nil hc] at hr
    cases hr
    refine ⟨_, req.stats, ?_, hb, rfl, rfl, rfl⟩
    rw [keepParsers, ← hre, ← ht]
  | cons choice =>
  simp only [Processor.read, hc] at hr
  rcases hp : γ.parseText req.llm.tools rd.detector rd.tool choice.text with ⟨parsers, e | _ | p⟩
  · rw [hp] at hr
    cases hr
  · rw [hp] at hr
    obtain ⟨rfl, rfl⟩ := hr
    refine ⟨_, γ.countText req.stats choice.text, ?_, hb, rfl, ?_, rfl⟩
    · simp only [hp]
      rfl
    · simp only [countText]
      omega
  · rw [hp] at hr
    obtain ⟨rfl, rfl⟩ := hr
    refine ⟨(req.llm.bufferChatResp.getD (newBufferChatResp resp)).extend
      (γ.countReasoning (γ.countText req.stats choice.text) p) choice p,
      γ.countReasoning (γ.countText req.stats choice.text) p, ?_, ?_, rfl, ?_, ?_⟩
    · simp only [hp]
      rfl
    · rw [reply_extend _ _ _ _ (rd.count + γ.getTokenLen choice.text), hb]
      rfl
    · simp only [countReasoning, countText]
      omega
    · simp only [countReasoning, countText, elim_some]
      omega

/-- **One chunk is processed**: its piece is added. -/
theorem Collecting.process (h : Collecting γ limit tools rd pieces ctx)
    (hre : ctx.llm.completionResponse = some resp) (hon : resp.choices.length ≤ 1)
    (hrd : γ.processor.read tools rd resp = .ok (rd', piece)) :
    ∃ ctx', γ.processAndWriteChunk ctx false = (ctx', .ok ()) ∧
      Collecting γ limit tools rd' (pieces ++ piece.toList) ctx' ∧
      ctx'.llm.completionResponse = some resp ∧ ctx'.llm.bufferChatResp.isSome = true := by
  rw [← h.tools] at hrd
  obtain ⟨buffer, stats, hp, hb, hli, ho, hr⟩ :=
    wholeProcess_read ⟨ctx.llm.keepParsers (rd.detector, rd.tool), ctx.stats⟩ hrd rfl rfl
  have hpo := (h.postProcess_eq hre hon false).trans hp
  obtain ⟨ctx', hw, hl, hs, hse⟩ := processAndWriteChunk_whole hpo h.protocol h.clientStream
  refine ⟨ctx', hw, ?_, by rw [hl]; exact hre, by rw [hl]; rfl⟩
  exact
    { protocol := by rw [hl]; exact h.protocol
      clientStream := by rw [hl]; exact h.clientStream
      tools := by rw [hl]; exact h.tools
      parsers := by rw [hl]; rfl
      cleared := by rw [hl]
      limit := by rw [hs]; exact hli.trans h.limit
      output := by
        have hbe := h.output
        rw [hs]
        dsimp only at ho ⊢
        omega
      reasoning := by
        have hbe := h.reasoning
        rw [hs]
        dsimp only at hr ⊢
        omega
      sent := by
        rw [hse, h.sent]
        simp [keepParsers, h.cleared]
      buffer := by
        have hc : (ctx.llm.keepParsers (rd.detector, rd.tool)).collected = collect pieces := h.buffer
        rw [hl, collected, map_some, getD_some, hb, hc]
        cases piece with
        | none => rw [toList_none, append_nil, elim_none]
        | some => rw [toList_some, collect_concat, elim_some] }

/-- **In the end the buffer is sent.** -/
theorem Collecting.close (h : Collecting γ limit tools rd pieces ctx)
    (hre : ctx.llm.completionResponse = some resp) (ho : resp.choices.length ≤ 1)
    (hb : ctx.llm.bufferChatResp.isSome = true) :
    ∃ ctx', γ.processAndWriteChunk ctx true = (ctx', .ok ()) ∧ ctx'.stats = ctx.stats ∧
      received ctx'.sent = [collect pieces] := by
  obtain ⟨buffer, hs⟩ := isSome_iff_exists.1 hb
  have hr := h.buffer
  rw [collected, hs, map_some, getD_some] at hr
  have hp := h.postProcess_eq hre ho true
  rw [chatCompletionProcess, if_pos rfl] at hp
  obtain ⟨ctx', hw, -, hst, hse⟩ := processAndWriteChunk_whole hp h.protocol h.clientStream
  refine ⟨ctx', hw, hst, ?_⟩
  rw [hse, h.sent, ← hr]
  simp [keepParsers, hs, received]

end

/-! ### The loop -/

section

variable {limit : Nat} {tools : Text} {rd : Reading σ} {pieces : List Piece} {loop : Loop σ}
variable {resp : CompletionResponse} {rd' : Reading σ}

section

variable (hu : γ.enableRequestStateTracking = false) (h : Collecting γ limit tools rd pieces loop.ctx)
include hu h

theorem Collecting.receive {piece : Option Piece}
    (ht : γ.processor.take limit tools rd resp = .more rd' piece) :
    ∃ next, γ.receive loop (.of resp) = .ok (.more next) ∧
      Collecting γ limit tools rd' (pieces ++ piece.toList) next.ctx ∧
      next.ctx.llm.completionResponse = some resp ∧ next.ctx.llm.bufferChatResp.isSome = true := by
  obtain ⟨arrived, hpr, hl, ⟨itls, hs⟩, hse⟩ := receive_untracked hu loop (.of resp) rfl rfl
  have h' : Collecting γ limit tools rd pieces arrived.ctx := h.of_same hl hs hse
  have hr : arrived.ctx.llm.completionResponse = some resp := by rw [hl]
  obtain ⟨ho, hre, hli⟩ := take_more_iff.1 ht
  obtain ⟨ctx, hp, hc, hr', hb⟩ := h'.process hr ho hre
  refine ⟨{ arrived with ctx := ctx }, ?_, hc, hr', hb⟩
  rw [hpr, proceed_of_ok hp, hc.exceeds_eq, hli]
  rfl

theorem Collecting.receive_finish (hli : rd.exceeds limit = false)
    (hre : loop.ctx.llm.completionResponse = some resp) (ho : resp.choices.length ≤ 1)
    (hb : loop.ctx.llm.bufferChatResp.isSome = true) :
    ∃ next : Loop σ, γ.receive loop .finish = .ok (.more next) ∧
      received next.ctx.sent = [collect pieces] := by
  obtain ⟨arrived, hp, hl, ⟨itls, hs⟩, hse⟩ := receive_untracked hu loop .finish rfl rfl
  have h' : Collecting γ limit tools rd pieces arrived.ctx := h.of_same hl hs hse
  have hr' : arrived.ctx.llm.completionResponse = some resp := by rw [hl, hre]
  have hb' : arrived.ctx.llm.bufferChatResp.isSome = true := by rw [hl, hb]
  obtain ⟨ctx, hc, hsa, hr⟩ := h'.close hr' ho hb'
  have he : ctx.stats.outputExceedMaxTokens = false := by rw [hsa, h'.exceeds_eq, hli]
  refine ⟨{ arrived with ctx := ctx }, ?_, hr⟩
  rw [hp, proceed_of_ok hc, he]
  rfl

/-- **The client receives the pieces, added up**, after one chunk and others. -/
theorem Collecting.handle {resps : List CompletionResponse} {pieces' : List Piece}
    (hth : γ.processor.through limit tools rd (resp :: resps) = some (rd', pieces')) :
    ∃ ctx, γ.handle loop ((resp :: resps).map .of ++ [.finish]) = .ok (ctx, none) ∧
      received ctx.sent = [collect (pieces ++ pieces')] := by
  induction resps generalizing rd pieces loop resp pieces' with
  | nil =>
    obtain ⟨rd₁, piece, pieces₁, ht, hn, rfl⟩ := exists_of_through_cons hth
    cases hn
    obtain ⟨ho, -, hl⟩ := take_more_iff.1 ht
    obtain ⟨next, hre, hc, hrp, hb⟩ := h.receive hu ht
    obtain ⟨final, hf, hr⟩ := hc.receive_finish hu hl hrp ho hb
    refine ⟨final.ctx, ?_, by rw [append_nil]; exact hr⟩
    simp only [map_cons, map_nil, cons_append, nil_append, Gateway.handle, hre, hf]
  | cons resp' resps ih =>
  obtain ⟨rd₁, piece, pieces₁, ht, hrs, rfl⟩ := exists_of_through_cons hth
  obtain ⟨next, hre, hc, -⟩ := h.receive hu ht
  obtain ⟨ctx, hh, hr⟩ := ih hc hrs
  refine ⟨ctx, ?_, by rw [← append_assoc]; exact hr⟩
  rw [map_cons, cons_append, Gateway.handle, hre]
  exact hh

end

end

end

end Llumnix.Chat
