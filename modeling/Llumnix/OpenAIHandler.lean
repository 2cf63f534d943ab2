/-
**The handler of the gateway.**

For every attempt to serve a request `Handle` (`pkg/gateway/handler/openai_handler.go`) takes the chunks of
the backend's stream from a channel: it parses a chunk, has it post-processed, and writes the response, if
there is one, to the response channel.  The end of a stream is marked by the data `[DONE]`; then, and when
the output exceeds the limit, the post-processor is called once more, with the last chunk still in place.
`Handle` also calls the hooks of the request state tracking (`pkg/gateway/service/gateway_service.go`,
`pkg/lrs/request_state_tracker.go`), which use pointers that may be nil.

* `Gateway.receive` — **the body of the loop of `Handle`**: a chunk leads to the next state of the loop, to
  a return, or to a panic.
-/

import Llumnix.ChunkProcessor

namespace Llumnix.Chat

/-! ### Requests -/

/-- What the gateway reads of the body of a request. -/
inductive Body
  | chat (stream : Bool) (maxTokens : Int) (tools : Text) (rawData : Text)
  | completion (stream : Bool) (prompt : PromptValue)

/-- **The gateway**: the post-processor, whether the states of requests are tracked, the tokens of a text
and of a chat, and the length the model is limited to. -/
structure Gateway (σ : Type) where
  processor : Processor σ
  enableRequestStateTracking : Bool
  tokenizerEncode : Text → Option (List Nat)
  /-- `PreProcessChatRequest`: the number of prompt tokens, and the tokens. -/
  preProcessChatRequest : Text → Option (Nat × List Nat)
  modelMaxLen : Nat

/-- `RequestTokenState`: the numbers of tokens and the text that has not been counted yet. -/
structure TokenState where
  numTokens : Nat
  lastNumTokens : Nat
  responseText : Text
deriving DecidableEq

/-- What the handler writes to the response channel. -/
inductive ResponseMsg
  | stream (r : ChatCompletionStreamResponse)
  | chat (r : ChatCompletionResponse)
  | completion (r : CompletionResponse)
  | done
  | err (text : String)
  deriving DecidableEq

/-- **`RequestContext`.**  The messages that have been sent to the response channel are kept. -/
structure RequestContext (σ : Type) extends Request σ where
  id : String
  requestTokenState : Option TokenState
  /-- The ids in the map of the request state tracker. -/
  tracked : List String
  sent : List ResponseMsg

section

variable {σ : Type} (γ : Gateway σ)

variable (ctx : RequestContext σ) (llm : LLMRequest σ)

def newRequestContext (id : String) (llm : LLMRequest σ) (stats : RequestStats) : RequestContext σ where
  llm := llm
  stats := stats
  id := id
  requestTokenState := none
  tracked := []
  sent := []

/-- A request that has been read, with this prompt. -/
def newLLMRequest (protocol : Protocol) (clientStream : Bool) (tools : Text) (prompt : PromptValue) :
    LLMRequest σ where
  protocol := protocol
  clientStream := clientStream
  tools := tools
  completionRequest := some prompt
  completionResponse := none
  chatCompletionResponse := none
  chatCompletionStreamResponse := none
  reasoningParser := none
  toolParser := none
  bufferChatResp := none
  lastChatStreamResp := none
  bufferCompletionResponse := none

def newStats (inputTokensLen maxTokensLimit : Nat) : RequestStats :=
  ⟨0, inputTokensLen, 0, 0, maxTokensLimit, false⟩

/-- `generateMaxTokens`, in `uint64`. -/
def Gateway.generateMaxTokens (inputTokensLen : Nat) (maxTokens : Int) : Nat :=
  if maxTokens ≠ 0 then (maxTokens % (2 ^ 64 : Nat)).toNat
  else (((γ.modelMaxLen : Int) - inputTokensLen) % (2 ^ 64 : Nat)).toNat

/-- The part of `PreProcess` for completions: texts become tokens. -/
def Gateway.tokenizePrompt : PromptValue → Except String (PromptValue × Nat)
  | .string prompt =>
    match γ.tokenizerEncode prompt with
    | none => .error "tokenize prompt to ids failed"
    | some ids => .ok (.tokens ids, ids.length)
  | .strings prompts =>
    match prompts.mapM γ.tokenizerEncode with
    | none => .error "tokenize prompt to ids failed"
    | some allIds => .ok (.tokenLists allIds, (allIds.map List.length).sum)
  | .tokens ids => .ok (.tokens ids, ids.length)
  | .tokenLists l => .ok (.tokenLists l, 0)
  | .missing => .ok (.missing, 0)

/-- **`ParseRequest`**: the request as `RequestCompletionConverter` leaves it. -/
def Gateway.parseRequest (id : String) : Body → Except String (RequestContext σ)
  | .chat stream maxTokens tools rawData =>
    match γ.preProcessChatRequest rawData with
    | none => .error "failed to apply tokenizer template"
    | some (promptTokens, tokenIds) =>
      .ok (newRequestContext id (newLLMRequest .openAIChatCompletion stream tools (.tokens tokenIds))
        (newStats promptTokens (γ.generateMaxTokens promptTokens maxTokens)))
  | .completion stream prompt =>
    (γ.tokenizePrompt prompt).map fun p =>
      newRequestContext id (newLLMRequest .openAICompletion stream [] p.1) (newStats p.2 0)

/-! ### Writing responses -/

/-- `marshalResponse`: the response, which is taken out of the request. -/
def marshalResponse : LLMRequest σ × Option ResponseMsg :=
  match llm.protocol with
  | .openAIChatCompletion =>
    if llm.clientStream then
      ({ llm with chatCompletionStreamResponse := none },
        llm.chatCompletionStreamResponse.map ResponseMsg.stream)
    else ({ llm with chatCompletionResponse := none }, llm.chatCompletionResponse.map ResponseMsg.chat)
  | .openAICompletion =>
    ({ llm with completionResponse := none }, llm.completionResponse.map ResponseMsg.completion)

/-- `writeResponse` and `writeErrorResponse`. -/
def RequestContext.write (msgs : List ResponseMsg) : RequestContext σ :=
  { ctx with sent := ctx.sent ++ msgs }

def Gateway.processAndWriteChunk (done : Bool) : RequestContext σ × Except String Unit :=
  match γ.processor.postProcess ctx.toRequest done with
  | (req, .error e) => ({ ctx with toRequest := req }, .error ("post-processor failed: " ++ e))
  | (req, .ok ()) =>
    let ctx := { ctx with toRequest := { req with llm := (marshalResponse req.llm).1 } }
    (ctx.write ((marshalResponse req.llm).2.toList ++ if done then [.done] else []), .ok ())

/-! ### The hooks -/

/-- **What may be absent where it is used.** -/
inductive NilUse
  | requestTokenState
  | chatCompletionStreamResponse
  | chatCompletionResponse
  | completionResponse
  | completionRequest
  deriving DecidableEq

def PromptValue.getUint32Slice : PromptValue → Option (List Nat)
  | tokens ids => some ids
  | _ => none

/-- `NewRequestTokenState`, which is nil without prompt tokens. -/
def newRequestTokenState : Except NilUse (Option TokenState) :=
  match llm.completionRequest with
  | none => .error .completionRequest
  | some prompt => .ok (prompt.getUint32Slice.map fun ids => ⟨0, ids.length, []⟩)

/-- `AddRequestState`, which reads the id from the state. -/
def addRequestState (tracked : List String) (id : String) : Option TokenState → Except NilUse (List String)
  | none => .error .requestTokenState
  | some _ => .ok (if id ∈ tracked then tracked else id :: tracked)

def Gateway.onPostDecodeFirstStreamResponse : Except NilUse (RequestContext σ) :=
  if γ.enableRequestStateTracking ∧ ctx.llm.clientStream then
    match newRequestTokenState ctx.llm with
    | .error p => .error p
    | .ok state => (addRequestState ctx.tracked ctx.id state).map fun tracked =>
      { ctx with tracked := tracked, requestTokenState := state }
  else .ok ctx

def getResponseUsage : Except NilUse (Option Usage) :=
  match llm.protocol with
  | .openAIChatCompletion =>
    if llm.clientStream then
      llm.chatCompletionStreamResponse.elim (.error .chatCompletionStreamResponse) fun r => .ok r.usage
    else llm.chatCompletionResponse.elim (.error .chatCompletionResponse) fun r => .ok r.usage
  | .openAICompletion =>
    llm.completionResponse.elim (.error .completionResponse) fun r => .ok r.usage

/-- The reasoning of a message, or else its content. -/
def responseText (reasoningContent content : Text) : Text :=
  if reasoningContent ≠ [] then reasoningContent else content

def getResponseText : Text :=
  match llm.protocol with
  | .openAIChatCompletion =>
    if llm.clientStream then
      match llm.chatCompletionStreamResponse.bind fun r => r.choices.head? with
      | some choice => responseText choice.delta.reasoningContent choice.delta.content
      | none => []
    else
      match llm.chatCompletionResponse with
      | some r => responseText r.choice.message.reasoningContent r.choice.message.content
      | none => []
  | .openAICompletion =>
    match llm.completionResponse.bind fun r => r.choices.head? with
    | some choice => choice.text
    | none => []

/-- `UpdateNumTokens`, or `AppendResponseText` if there is no usage. -/
def TokenState.update (s : TokenState) (usage : Option Usage) (text : Text) : TokenState :=
  match usage with
  | some usage => { s with numTokens := usage.totalTokens }
  | none => { s with responseText := s.responseText ++ text }

def Gateway.onPostDecodeEachStreamResponse : Except NilUse (RequestContext σ) :=
  if γ.enableRequestStateTracking ∧ ctx.llm.clientStream then
    match getResponseUsage ctx.llm with
    | .error p => .error p
    | .ok usage =>
      match ctx.requestTokenState with
      | none => .error .requestTokenState
      | some s => .ok { ctx with requestTokenState := some (s.update usage (getResponseText ctx.llm)) }
  else .ok ctx

/-! ### The loop -/

/-- The data of a chunk: nothing, the marker `[DONE]`, a completion response, or something else. -/
inductive ChunkData
  | empty
  | done
  | response (r : CompletionResponse)
  | malformed

/-- `StreamChunk.Err`: none, `io.EOF`, or another error. -/
inductive ChunkErr
  | none
  | eof
  | failure (text : String)

/-- `StreamChunk`, and whether the header of the answer has been sent when the chunk is looked at. -/
structure StreamChunk where
  data : ChunkData
  err : ChunkErr
  headerResponded : Bool

def StreamChunk.of (r : CompletionResponse) : StreamChunk := ⟨.response r, .none, false⟩

def StreamChunk.finish : StreamChunk := ⟨.done, .none, false⟩

/-- `parseResponse`: whether the data marks the end. -/
def parseResponse : ChunkData → Except String (LLMRequest σ × Bool)
  | .done => .ok (llm, true)
  | .response r => .ok ({ llm with completionResponse := some r }, false)
  | .empty => .error "failed to unmarshal response"
  | .malformed => .error "failed to unmarshal response"

/-- The state of the loop of `Handle`. -/
structure Loop (σ : Type) where
  ctx : RequestContext σ
  isFirst : Bool
  isFirstDecode : Bool

def RequestContext.enter : Loop σ := ⟨ctx, true, true⟩

/-- How the loop goes on after a chunk. -/
inductive Outcome (σ : Type)
  | more (loop : Loop σ)
  | returned (ctx : RequestContext σ) (err : Option String)

/-- The time since the last chunk is recorded. -/
def RequestContext.recordITL : RequestContext σ :=
  { ctx with stats := { ctx.stats with itls := ctx.stats.itls + 1 } }

/-- What comes before the data of a chunk is looked at: the times are recorded and the hook of the second
chunk is called. -/
def Gateway.arrive (loop : Loop σ) : Except NilUse (Loop σ) :=
  if loop.isFirst then .ok { loop with isFirst := false }
  else if loop.isFirstDecode then
    (γ.onPostDecodeFirstStreamResponse loop.ctx.recordITL).map fun ctx => ⟨ctx, false, false⟩
  else .ok { loop with ctx := loop.ctx.recordITL }

/-- The part of the loop for a chunk without an error, after it has been parsed and the hook has been
called. -/
def Gateway.proceed (loop : Loop σ) (isStreamEnd : Bool) : Outcome σ :=
  match γ.processAndWriteChunk loop.ctx isStreamEnd with
  | (ctx, .error e) => .returned (ctx.write [.err e]) none
  | (ctx, .ok ()) =>
    if ctx.stats.outputExceedMaxTokens then .returned (γ.processAndWriteChunk ctx true).1 none
    else .more { loop with ctx := ctx }

/-- The part of the loop for a chunk with the data of the end of the stream. -/
def Gateway.conclude (data : ChunkData) : RequestContext σ :=
  match data with
  | .empty => ctx
  | data =>
    match parseResponse ctx.llm data with
    | .error e => ctx.write [.err e]
    | .ok (llm, _) =>
      match γ.processAndWriteChunk { ctx with llm := llm } true with
      | (ctx, .error e) => ctx.write [.err e]
      | (ctx, .ok ()) => ctx

/-- **The body of the loop of `Handle`.** -/
def Gateway.receive (loop : Loop σ) (chunk : StreamChunk) : Except NilUse (Outcome σ) :=
  match γ.arrive loop with
  | .error p => .error p
  | .ok loop =>
    match chunk.err with
    | .eof => .ok (.returned (γ.conclude loop.ctx chunk.data) none)
    | .failure e =>
      -- once the client has been sent something, the error can only be appended to the stream
      if chunk.headerResponded then .ok (.returned (loop.ctx.write [.err e]) none)
      else .ok (.returned loop.ctx (some e))
    | .none =>
      match parseResponse loop.ctx.llm chunk.data with
      | .error e => .ok (.returned (loop.ctx.write [.err e]) none)
      | .ok (llm, isStreamEnd) =>
        let ctx := { loop.ctx with llm := llm }
        if 0 < ctx.stats.itls then
          (γ.onPostDecodeEachStreamResponse ctx).map fun ctx =>
            γ.proceed { loop with ctx := ctx } isStreamEnd
        else .ok (γ.proceed { loop with ctx := ctx } isStreamEnd)

/-- **`Handle`**, with the chunks that the channel delivers until it is closed: the context in the end, and
the error. -/
def Gateway.handle (loop : Loop σ) : List StreamChunk → Except NilUse (RequestContext σ × Option String)
  | [] => .ok (loop.ctx, none)
  | chunk :: chunks =>
    match γ.receive loop chunk with
    | .error p => .error p
    | .ok (.returned ctx err) => .ok (ctx, err)
    | .ok (.more loop) => handle loop chunks

/-! ### Reading a step -/

variable {γ}
variable {ctx : RequestContext σ} {done : Bool}

/-- The response of a chunk that has been post-processed is written and cleared. -/
theorem processAndWriteChunk_ok {req : Request σ}
    (h : γ.processor.postProcess ctx.toRequest done = (req, .ok ())) : γ.processAndWriteChunk ctx done =
      (RequestContext.write { ctx with toRequest := { req with llm := (marshalResponse req.llm).1 } }
        ((marshalResponse req.llm).2.toList ++ if done then [.done] else []), .ok ()) := by
  rw [Gateway.processAndWriteChunk, h]

theorem processAndWriteChunk_error {req : Request σ} {e : String}
    (h : γ.processor.postProcess ctx.toRequest done = (req, .error e)) : γ.processAndWriteChunk ctx done =
      ({ ctx with toRequest := req }, .error ("post-processor failed: " ++ e)) := by
  rw [Gateway.processAndWriteChunk, h]

theorem proceed_ne_error {loop : Loop σ} {isStreamEnd : Bool} {e : String} :
    γ.proceed loop isStreamEnd ≠ .returned ctx (some e) := by
  intro h
  unfold Gateway.proceed at h
  split at h
  · cases h
  next ctx' _ =>
    by_cases he : ctx'.stats.outputExceedMaxTokens = true
    · rw [if_pos he] at h
      cases h
    · rw [if_neg he] at h
      cases h

/-- A request that was handled to its end, with what was computed of the context. -/
theorem ok_of_exists {ε α : Type} {x : Except ε (α × Option String)} {P : α × Option String → Prop}
    (h : ∃ r ∈ x.toOption, r.2 = none ∧ P r) : ∃ a, x = .ok (a, none) ∧ P (a, none) := by
  obtain ⟨⟨a, _⟩, hr, rfl, hp⟩ := h
  cases x with
  | error => cases hr
  | ok r =>
    cases hr
    exact ⟨a, rfl, hp⟩

end

end Llumnix.Chat
