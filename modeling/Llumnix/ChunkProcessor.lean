/-
**The post-processor of the gateway.**

Every request is served by the completion interface of a backend, as a stream of chunks.
`ResponseChunkProcessor` (`pkg/gateway/processor/response_chunk_processor.go`) turns the chunks into what
the client has asked for: chat responses or completion responses, in a stream or in one piece.  For chat it
feeds the text to two parsers, one after the other: the reasoning parser, and a tool parser from a third
party, which finds the calls of tools in the content.  A response is not returned but left in the request,
where the handler finds it.

* `Processor.postProcess` — **a chunk for any request.**
-/

import Llumnix.ReasoningParser

namespace Llumnix.Chat

open Erasure

/-! ### Responses -/

/-- `protocol.Usage`; `reasoningTokens` is the field of `CompletionTokensDetails`. -/
structure Usage where
  promptTokens : Nat
  totalTokens : Nat
  completionTokens : Nat
  reasoningTokens : Option Nat
deriving DecidableEq

structure CompletionChoice where
  text : Text
  index : Int
  finishReason : String
deriving DecidableEq

/-- `protocol.CompletionResponse`, the chunks of a backend. -/
structure CompletionResponse where
  id : Text
  object : String
  created : Int
  model : String
  choices : List CompletionChoice
  usage : Option Usage
deriving DecidableEq

/-- `protocol.ToolCall` with its `FunctionCall`. -/
structure ToolCall where
  index : Option Int
  id : String
  type : String
  name : Text
  arguments : Text
deriving DecidableEq

structure Delta where
  role : String
  content : Text
  reasoningContent : Text
  toolCalls : List ToolCall
deriving DecidableEq

structure StreamChoice where
  index : Int
  delta : Delta
  finishReason : String
deriving DecidableEq

structure ChatCompletionStreamResponse where
  id : Text
  object : String
  created : Int
  model : String
  choices : List StreamChoice
  usage : Option Usage
  systemFingerprint : String
deriving DecidableEq

structure Message where
  role : String
  content : Text
  reasoningContent : Text
  toolCalls : List ToolCall
deriving DecidableEq

structure ChatChoice where
  index : Int
  message : Message
  finishReason : String
deriving DecidableEq

/-- `ChatCompletionResponse`, whose only choice the processor makes along with it. -/
structure ChatCompletionResponse where
  id : Text
  object : String
  created : Int
  model : String
  choice : ChatChoice
  usage : Option Usage
  systemFingerprint : String
deriving DecidableEq

/-! ### The request -/

inductive Protocol
  | openAIChatCompletion
  | openAICompletion
  deriving DecidableEq

/-- `protocol.PromptValue`; the value is nil if the request has no prompt. -/
inductive PromptValue
  | missing
  | string (s : Text)
  | strings (l : List Text)
  | tokens (ids : List Nat)
  | tokenLists (l : List (List Nat))
  deriving DecidableEq

/-- `RequestStats`, of which the lengths of the outputs and the number of `ITLs`. -/
structure RequestStats where
  itls : Nat
  inputTokensLen : Nat
  outputTokensLen : Nat
  reasoningTokensLen : Nat
  maxTokensLimit : Nat
  hasToolCalls : Bool
deriving DecidableEq

variable (stats : RequestStats)

/-- `OutputExceedMaxTokens`; the subtraction is that of `uint64`. -/
def RequestStats.outputExceedMaxTokens : Bool :=
  stats.maxTokensLimit ≠ 0 &&
    stats.maxTokensLimit ≤
      (((stats.outputTokensLen : Int) - stats.reasoningTokensLen) % (2 ^ 64 : Nat)).toNat

/-- `LLMRequest`.  `tools` is the text that `getToolString` makes of the tools of a chat request. -/
structure LLMRequest (σ : Type) where
  protocol : Protocol
  clientStream : Bool
  tools : Text
  /-- The prompt of `CompletionRequest`. -/
  completionRequest : Option PromptValue
  completionResponse : Option CompletionResponse
  chatCompletionResponse : Option ChatCompletionResponse
  chatCompletionStreamResponse : Option ChatCompletionStreamResponse
  reasoningParser : Option Detector
  toolParser : Option σ
  bufferChatResp : Option ChatCompletionResponse
  lastChatStreamResp : Option ChatCompletionStreamResponse
  bufferCompletionResponse : Option CompletionResponse

/-- The part of a request the processor works on. -/
structure Request (σ : Type) where
  llm : LLMRequest σ
  stats : RequestStats

/-! ### The parsers -/

structure ToolParseResult where
  normalText : Text
  toolCalls : List ToolCall

/-- **`ResponseChunkProcessor`**: the name of the reasoning parser, the tool parser, and how many tokens a
text has. -/
structure Processor (σ : Type) where
  reasoningParser : String
  newToolParser : Except String σ
  parseStreamIncremental : σ → Text → Text → σ × Except String Text
  parseResultFromString : Text → Option ToolParseResult
  /-- The tool parser writes results that can be read.  `ChatCompletionProcess` does not look whether they
  can, and would use a nil result. -/
  parses (τ : σ) (content tools reply : Text) :
    (parseStreamIncremental τ content tools).2 = .ok reply → (parseResultFromString reply).isSome
  encode : Text → Option Nat

/-- What the parsers let through of the text of a chunk. -/
structure Parsed where
  reasoningContent : Text
  content : Text
  toolCalls : List ToolCall
deriving DecidableEq

/-- While the parsers are buffering there is no output. -/
def Parsed.output (p : Parsed) : Option Parsed :=
  if p.reasoningContent = [] ∧ p.content = [] ∧ p.toolCalls = [] then none else some p

variable (resp : CompletionResponse) (choice : CompletionChoice)

section

variable {σ : Type} (γ : Processor σ)

namespace Processor

def getTokenLen (s : Text) : Nat := if s = [] then 0 else (γ.encode s).getD 0

/-- `trySetParser`: the parsers of the request, which are made at the first chunk. -/
def trySetParser (llm : LLMRequest σ) : LLMRequest σ × Except String (Detector × σ) :=
  match llm.reasoningParser.elim (newReasoningParser γ.reasoningParser true false) Except.ok with
  | .error e => (llm, .error e)
  | .ok d =>
    match llm.toolParser.elim γ.newToolParser Except.ok with
    | .error e => ({ llm with reasoningParser := some d }, .error e)
    | .ok τ => ({ llm with reasoningParser := some d, toolParser := some τ }, .ok (d, τ))

/-- What both kinds of chat do with the text of a chunk, unless it is empty: nothing is let through while the
parsers keep it back. -/
def parseText (tools : Text) (d : Detector) (τ : σ) (text : Text) :
    (Detector × σ) × Except String (Option Parsed) :=
  if text = [] then ((d, τ), .ok (some ⟨[], [], []⟩))
  else
    let d' := (d.parseStreamingIncrement text).1
    let reasoningContent := (d.parseStreamingIncrement text).2.1
    let content := (d.parseStreamingIncrement text).2.2
    if content = [] then ((d', τ), .ok (Parsed.output ⟨reasoningContent, [], []⟩))
    else
      let τ' := (γ.parseStreamIncremental τ content tools).1
      match (γ.parseStreamIncremental τ content tools).2 with
      | .error _ => ((d', τ'), .error "failed to parse tool")
      | .ok parseResultStr =>
        match γ.parseResultFromString parseResultStr with
        | none => ((d', τ'), .error "failed to parse tool")
        | some r => ((d', τ'), .ok (Parsed.output ⟨reasoningContent, r.normalText, r.toolCalls⟩))

end Processor

/-- The parsers are kept in the request. -/
def LLMRequest.keepParsers (llm : LLMRequest σ) (p : Detector × σ) : LLMRequest σ :=
  { llm with reasoningParser := some p.1, toolParser := some p.2 }

/-! ### Chat, in a stream -/

/-- `strings.ReplaceAll(id, "cmpl", "chatcmpl")`. -/
def chatId (id : Text) : Text := replaceAll "cmpl".toList "chatcmpl".toList id

def RequestStats.usage : Usage where
  promptTokens := stats.inputTokensLen
  totalTokens := stats.inputTokensLen + stats.outputTokensLen
  completionTokens := stats.outputTokensLen
  reasoningTokens := some stats.reasoningTokensLen

/-- The tokens of a chunk are counted when it arrives. -/
def Processor.countText (stats : RequestStats) (text : Text) : RequestStats :=
  { stats with outputTokensLen := stats.outputTokensLen + γ.getTokenLen text }

/-- The reasoning tokens are counted when they are let through. -/
def Processor.countReasoning (stats : RequestStats) (p : Parsed) : RequestStats :=
  { stats with reasoningTokensLen := stats.reasoningTokensLen + γ.getTokenLen p.reasoningContent }

/-- `stats.HasToolCalls`, which only a stream has. -/
def RequestStats.noteToolCalls (p : Parsed) : RequestStats :=
  { stats with hasToolCalls := stats.hasToolCalls || p.toolCalls ≠ [] }

/-- The finish reason of a chunk in a stream. -/
def streamFinishReason (hasToolCalls : Bool) (choice : CompletionChoice) : String :=
  if choice.finishReason ≠ "" ∧ choice.text = [] ∧ hasToolCalls ∧ choice.finishReason = "stop" then "tool_calls"
  else choice.finishReason

/-- A text and a finish reason are not sent in one response. -/
def needSplitLastResp : Prop := choice.finishReason ≠ "" ∧ choice.text ≠ []

instance (choice : CompletionChoice) : Decidable (needSplitLastResp choice) :=
  inferInstanceAs (Decidable (choice.finishReason ≠ "" ∧ choice.text ≠ []))

def streamResponse (p : Parsed) : ChatCompletionStreamResponse where
  id := chatId resp.id
  object := "chat.completion.chunk"
  created := resp.created
  model := resp.model
  choices :=
    [{ index := choice.index
       delta := ⟨"assistant", p.content, p.reasoningContent, p.toolCalls⟩
       finishReason := if needSplitLastResp choice then "" else streamFinishReason stats.hasToolCalls choice }]
  usage := some stats.usage
  systemFingerprint := "fp"

/-- The response with the finish reason of a chunk, which is sent in the end. -/
def lastResponse : ChatCompletionStreamResponse where
  id := chatId resp.id
  object := "chat.completion.chunk"
  created := resp.created
  model := resp.model
  choices := [{ index := 0, delta := ⟨"assistant", [], [], []⟩, finishReason := choice.finishReason }]
  usage := some stats.usage
  systemFingerprint := "fp"

variable (req : Request σ)

/-- **`ChatCompletionStreamProcess`**, after the parsers have been set. -/
def Processor.chatCompletionStreamProcess (resp : CompletionResponse) (d : Detector) (τ : σ)
    (done : Bool) : Request σ × Except String Unit :=
  if done ∧ req.llm.lastChatStreamResp.isSome then
    (⟨{ req.llm with chatCompletionStreamResponse := req.llm.lastChatStreamResp }, req.stats⟩, .ok ())
  else
    match resp.choices with
    | [] => (req, .ok ())
    | choice :: _ =>
      let stats := γ.countText req.stats choice.text
      match γ.parseText req.llm.tools d τ choice.text with
      | (parsers, .error e) => (⟨req.llm.keepParsers parsers, stats⟩, .error e)
      -- the parsers keep the text back, and no response is set
      | (parsers, .ok none) => (⟨req.llm.keepParsers parsers, stats⟩, .ok ())
      | (parsers, .ok (some p)) =>
        let stats := (γ.countReasoning stats p).noteToolCalls p
        let llm :=
          { req.llm.keepParsers parsers with
            chatCompletionStreamResponse := some (streamResponse stats resp choice p)
            lastChatStreamResp :=
              if needSplitLastResp choice then some (lastResponse stats resp choice)
              else req.llm.lastChatStreamResp }
        (⟨llm, stats⟩, .ok ())

/-! ### Chat, in one piece -/

/-- `mergeToolCalls` for one call: a call with a name is appended, and arguments are appended to the
last call. -/
def mergeToolCall (calls : List ToolCall) (ext : ToolCall) : List ToolCall :=
  let calls := if ext.name ≠ [] then calls ++ [ext] else calls
  if ext.arguments ≠ [] then
    calls.modify (calls.length - 1) fun call => { call with arguments := call.arguments ++ ext.arguments }
  else calls

def mergeToolCalls (calls exts : List ToolCall) : List ToolCall := exts.foldl mergeToolCall calls

/-- The response that is built up, as it is made at the first chunk. -/
def newBufferChatResp : ChatCompletionResponse where
  id := chatId resp.id
  object := "chat.completion"
  created := resp.created
  model := resp.model
  choice := { index := 0, message := ⟨"assistant", [], [], []⟩, finishReason := "" }
  usage := resp.usage
  systemFingerprint := "fp"

/-- What a chunk adds to the response. -/
def ChatCompletionResponse.extend (buffer : ChatCompletionResponse) (stats : RequestStats)
    (choice : CompletionChoice) (p : Parsed) : ChatCompletionResponse :=
  let message := buffer.choice.message
  { buffer with
    choice :=
      { buffer.choice with
        message :=
          { message with
            content := message.content ++ p.content
            reasoningContent := message.reasoningContent ++ p.reasoningContent
            toolCalls := mergeToolCalls message.toolCalls p.toolCalls }
        finishReason := if p.toolCalls ≠ [] then "tool_calls" else choice.finishReason }
    usage := some stats.usage }

/-- **`ChatCompletionProcess`**, after the parsers have been set. -/
def Processor.chatCompletionProcess (resp : CompletionResponse) (d : Detector) (τ : σ)
    (done : Bool) : Request σ × Except String Unit :=
  if done then
    ({ req with llm := { req.llm with chatCompletionResponse := req.llm.bufferChatResp } }, .ok ())
  else
    let buffer := req.llm.bufferChatResp.getD (newBufferChatResp resp)
    let llm := { req.llm with bufferChatResp := some buffer }
    match resp.choices with
    | [] => (⟨llm, req.stats⟩, .ok ())
    | choice :: _ =>
      let stats := γ.countText req.stats choice.text
      match γ.parseText req.llm.tools d τ choice.text with
      | (parsers, .error e) => (⟨llm.keepParsers parsers, stats⟩, .error e)
      | (parsers, .ok none) => (⟨llm.keepParsers parsers, stats⟩, .ok ())
      | (parsers, .ok (some p)) =>
        let stats := γ.countReasoning stats p
        (⟨{ llm.keepParsers parsers with bufferChatResp := some (buffer.extend stats choice p) }, stats⟩,
          .ok ())

/-! ### Completions -/

/-- `completionStreamProcess` only counts; a text that cannot be encoded ends the count. -/
def Processor.countChoices (stats : RequestStats) : List CompletionChoice → RequestStats
  | [] => stats
  | choice :: choices =>
    if choice.text = [] then countChoices stats choices
    else
      match γ.encode choice.text with
      | none => stats
      | some n => countChoices { stats with outputTokensLen := stats.outputTokensLen + n } choices

def Processor.completionStreamProcess : Request σ × Except String Unit :=
  match req.llm.completionResponse with
  | none => (req, .ok ())
  | some resp => ({ req with stats := γ.countChoices req.stats resp.choices }, .ok ())

/-- `completionProcess`; a response has one choice at most. -/
def Processor.completionProcess (done : Bool) : Request σ × Except String Unit :=
  if done then
    ({ req with llm := { req.llm with completionResponse := req.llm.bufferCompletionResponse } }, .ok ())
  else
    match req.llm.completionResponse with
    | none => (req, .error "completion response is empty")
    | some resp =>
      if 1 < resp.choices.length then (req, .error "completion response has more than one choice")
      else
        let buffer := req.llm.bufferCompletionResponse.getD
          { resp with id := chatId resp.id, choices := [⟨[], 0, ""⟩] }
        let merge (buffer : CompletionChoice) (choice : CompletionChoice) : CompletionChoice :=
          { buffer with text := buffer.text ++ choice.text, finishReason := choice.finishReason }
        let buffer :=
          { buffer with
            choices := buffer.choices.map fun b => resp.choices.foldl merge b
            usage := resp.usage }
        let count (stats : RequestStats) (choice : CompletionChoice) := γ.countText stats choice.text
        ({ llm := { req.llm with bufferCompletionResponse := some buffer, completionResponse := none }
           stats := resp.choices.foldl count req.stats }, .ok ())

/-! ### Any request -/

def Processor.postProcess (done : Bool) : Request σ × Except String Unit :=
  match req.llm.protocol with
  | .openAIChatCompletion =>
    match req.llm.completionResponse with
    | none => (req, .error "chat completion response is empty")
    | some resp =>
      if 1 < resp.choices.length then
        (req, .error "chat completion response has more than one choice")
      else
        match γ.trySetParser req.llm with
        | (llm, .error e) => (⟨llm, req.stats⟩, .error e)
        | (llm, .ok (d, τ)) =>
          if llm.clientStream then γ.chatCompletionStreamProcess ⟨llm, req.stats⟩ resp d τ done
          else γ.chatCompletionProcess ⟨llm, req.stats⟩ resp d τ done
  | .openAICompletion =>
    if req.llm.clientStream then γ.completionStreamProcess req else γ.completionProcess req done

/-! ### What the processor leaves alone -/

/-- What was read from the client's request is the same, and so is the number of chunks. -/
structure Request.Kept (req req' : Request σ) : Prop where
  protocol : req'.llm.protocol = req.llm.protocol
  clientStream : req'.llm.clientStream = req.llm.clientStream
  completionRequest : req'.llm.completionRequest = req.llm.completionRequest
  itls : req'.stats.itls = req.stats.itls

theorem Request.Kept.refl : Request.Kept req req := ⟨rfl, rfl, rfl, rfl⟩

theorem Request.Kept.trans {r₁ r₂ r₃ : Request σ} (h : Request.Kept r₁ r₂) (h' : Request.Kept r₂ r₃) :
    Request.Kept r₁ r₃ :=
  ⟨h'.1.trans h.1, h'.2.trans h.2, h'.3.trans h.3, h'.4.trans h.4⟩

namespace Processor

theorem kept_trySetParser : Request.Kept req ⟨(γ.trySetParser req.llm).1, req.stats⟩ := by
  unfold trySetParser
  split
  · exact .refl req
  · split <;> exact ⟨rfl, rfl, rfl, rfl⟩

theorem kept_chatCompletionStreamProcess (resp : CompletionResponse) (d : Detector) (τ : σ)
    (done : Bool) : Request.Kept req (γ.chatCompletionStreamProcess req resp d τ done).1 := by
  unfold chatCompletionStreamProcess
  split
  · exact ⟨rfl, rfl, rfl, rfl⟩
  · split
    · exact .refl req
    · dsimp only
      split <;> exact ⟨rfl, rfl, rfl, rfl⟩

theorem kept_chatCompletionProcess (resp : CompletionResponse) (d : Detector) (τ : σ)
    (done : Bool) : Request.Kept req (γ.chatCompletionProcess req resp d τ done).1 := by
  unfold chatCompletionProcess
  split
  · exact ⟨rfl, rfl, rfl, rfl⟩
  · dsimp only
    split
    · exact ⟨rfl, rfl, rfl, rfl⟩
    · split <;> exact ⟨rfl, rfl, rfl, rfl⟩

theorem itls_countChoices (stats : RequestStats) (choices : List CompletionChoice) :
    (γ.countChoices stats choices).itls = stats.itls := by
  induction choices generalizing stats with
  | nil => rfl
  | cons choice choices ih =>
  unfold countChoices
  split
  · exact ih stats
  · split
    · rfl
    · exact ih _

theorem itls_foldl_countText (stats : RequestStats) (choices : List CompletionChoice) :
    (choices.foldl (fun stats choice => γ.countText stats choice.text) stats).itls = stats.itls := by
  induction choices generalizing stats with
  | nil => rfl
  | cons choice choices ih => exact ih _

theorem kept_completionStreamProcess : Request.Kept req (γ.completionStreamProcess req).1 := by
  unfold completionStreamProcess
  split
  · exact .refl req
  · exact ⟨rfl, rfl, rfl, γ.itls_countChoices _ _⟩

theorem kept_completionProcess (done : Bool) : Request.Kept req (γ.completionProcess req done).1 := by
  unfold completionProcess
  split
  · exact ⟨rfl, rfl, rfl, rfl⟩
  · split
    · exact .refl req
    · split
      · exact .refl req
      · exact ⟨rfl, rfl, rfl, γ.itls_foldl_countText _ _⟩

/-- **The processor leaves alone what was read from the client's request.** -/
theorem kept_postProcess (done : Bool) : Request.Kept req (γ.postProcess req done).1 := by
  unfold postProcess
  split
  · split
    · exact .refl req
    split
    · exact .refl req
    have hp := γ.kept_trySetParser req
    split
    next llm e ht =>
      rw [ht] at hp
      exact hp
    next llm d τ ht =>
      rw [ht] at hp
      split
      · exact hp.trans (γ.kept_chatCompletionStreamProcess _ _ _ _ _)
      · exact hp.trans (γ.kept_chatCompletionProcess _ _ _ _ _)
  · split
    · exact γ.kept_completionStreamProcess req
    · exact γ.kept_completionProcess req done

end Processor

end

/-- A processor that finds no tool calls, and for which every character is a token. -/
def plainProcessor : Processor Unit where
  reasoningParser := ""
  newToolParser := .ok ()
  parseStreamIncremental _ content _ := ((), .ok content)
  parseResultFromString s := some ⟨s, []⟩
  parses _ _ _ _ _ := rfl
  encode s := some s.length

end Llumnix.Chat
