/-
**The gateway's handling of one request.**

`internalRouteRequest` (`pkg/gateway/service/gateway_service.go`) serves a request that has been scheduled:
it calls the handler (`pkg/gateway/handler/openai_handler.go`), which has a forwarder send the request to
the instances and turns the chunks of the backend's stream into responses; on a retryable failure it gives
the instances back, schedules again and makes another attempt.  Three goroutines take part.  The *reader* is
the forwarder's: in staged mode it runs the prefill and schedules the decode instance, and then it copies
the backend's stream into the chunk channel.  The *handler* is `internalRouteRequest` itself.  The *writer*
is the goroutine of the HTTP server, which takes responses from the response channel until the request has
been answered or the client is gone.  Both channels have 100 slots, and a send into a full channel blocks.

A step is a step of one goroutine up to its next access to a channel, to the request's context or to the
scheduler, and an action carries what the environment contributes: what the scheduler answers, what a stream
consists of, whether a fallback endpoint answers, when the client disconnects.  What the post-processors
make of a chunk is part of the chunk.  The allocations that the scheduler holds for the request are kept
along.

* `delays_in_range_iff` — **how many attempts the delays between them allow.**
-/

import Llumnix.GuardedRun
import Llumnix.InstanceTypes

namespace Llumnix.Gateway

/-! ### Errors -/

/-- What a `NetworkError` wraps. -/
inductive Cause
  | none
  | canceled
  | deadlineExceeded
  | other
  deriving DecidableEq

/-- The errors `internalRouteRequest` tells apart: the two implementations of `RetryableError`
(`pkg/consts/error.go`) and everything else. -/
inductive GatewayError
  | upstream (statusCode : ℕ)
  | network (cause : Cause)
  | plain (text : String)
  deriving DecidableEq

/-- `errors.As(err, &retryableErr) && retryableErr.IsRetryable()`. -/
def GatewayError.isRetryable : GatewayError → Bool
  | upstream statusCode => 500 ≤ statusCode
  | network cause => cause ≠ .none && cause ≠ .canceled && cause ≠ .deadlineExceeded
  | plain _ => false

/-- `reqCtx.Context.Err()` of a request whose client has gone. -/
def contextErr : GatewayError := .plain "context canceled"

/-! ### Chunks and responses -/

/-- `types.ResponseMsg`: an error, or a message for the client. -/
inductive ResponseMsg
  | message (text : String)
  | err (e : GatewayError)
  deriving DecidableEq

/-- What `parseResponse` finds in the data of a chunk: the marker `[DONE]` (`io.EOF`), a completion
response, or neither. -/
inductive Parsed
  | done
  | response
  | malformed
  deriving DecidableEq

/-- What the post-processors and `marshalResponse` make of a response; the text may be empty. -/
abbrev Processed := Except GatewayError String

/-- The data of a chunk, with what becomes of it on the way to the client. -/
structure Payload where
  parsed : Parsed
  processed : Processed
  /-- `RequestStats.OutputExceedMaxTokens` afterwards. -/
  outputExceedMaxTokens : Bool
  /-- The outcome of the closing call of the post-processors, if the limit is exceeded. -/
  closing : Processed

/-- `StreamChunk`: data, the end of the stream (`io.EOF`) with or without data, or an error. -/
inductive StreamChunk
  | data (p : Payload)
  | eof (p : Option Payload)
  | err (e : GatewayError)

/-- `processAndWriteChunk`: the responses it writes. -/
def processAndWriteChunk (processed : Processed) (done : Bool) :
    Except GatewayError (List ResponseMsg) :=
  processed.map fun text =>
    (if text ≠ "" then [.message text] else []) ++ if done then [.message "[DONE]"] else []

/-- How the loop of `Handle` goes on after a chunk. -/
inductive Next
  | more
  | result (r : Option GatewayError)
  | finish
  deriving DecidableEq

/-- **The body of the loop of `Handle`**: the responses it writes for a chunk, and how it goes on. -/
def handleChunk (headerResponded : Bool) : StreamChunk → List ResponseMsg × Next
  | .err e =>
    -- once the client has been sent something, the error can only be appended to the stream
    if headerResponded then ([.err e], .result none) else ([], .result (some e))
  | .eof none => ([], .result none)
  | .eof (some p) =>
    if p.parsed = .malformed then
      ([.err (.plain "failed to unmarshal response")], .result none)
    else
      match processAndWriteChunk p.processed true with
      | .error e => ([.err e], .result none)
      | .ok msgs => (msgs, .result none)
  | .data p =>
    if p.parsed = .malformed then
      ([.err (.plain "failed to unmarshal response")], .result none)
    else
      match processAndWriteChunk p.processed (p.parsed = .done) with
      | .error e => ([.err e], .result none)
      | .ok msgs =>
        if p.outputExceedMaxTokens then
          match processAndWriteChunk p.closing true with
          | .error _ => (msgs, .result none)
          | .ok msgs' => (msgs ++ msgs', .result none)
        else (msgs, .more)

/-! ### The state -/

/-- The part of the gateway's configuration that the request path reads, and what it knows of the
request. -/
structure Config where
  id : String
  schedulingMode : SchedulingMode
  clientStream : Bool
  retryMaxCount : ℤ
  requestStateReportInterval : ℕ
  enableFullModeScheduling : Bool
  /-- The number of fallback endpoints of the router. -/
  fallbackConfigs : ℕ

variable (cfg : Config)

def Config.enableRequestStateTracking : Bool :=
  0 < cfg.requestStateReportInterval && !cfg.enableFullModeScheduling

/-- `ServiceRouter.CanFallback`, of a request that has not fallen back yet. -/
def Config.canFallback : Bool := 0 < cfg.fallbackConfigs

inductive Handler
  | retrying (originErr : GatewayError)
  /-- About to release the instances of the previous attempt and to schedule again. -/
  | rescheduling (originErr : GatewayError)
  /-- About to call `Handle`, which calls `Forward`. -/
  | forwarding
  | receiving
  /-- In `Handle`, with a chunk. -/
  | handling (c : StreamChunk)
  | writing (msgs : List ResponseMsg) (next : Next)
  /-- `Handle` has returned. -/
  | deciding (r : Option GatewayError)
  | backingOff (originErr : GatewayError)
  | fallingBack
  /-- In the deferred function, before and after the response channel has been closed. -/
  | closing
  | releasing
  | returned

/-- Where the goroutine of the forwarder is. -/
inductive Reader
  | prefilling
  | scheduling
  /-- Sending the request to the instance whose stream it will read. -/
  | connecting
  /-- Copying the stream; `rest` is what the backend has yet to send, or the error that ends it. -/
  | emitting (rest : List StreamChunk)
  | closed

structure State where
  attempt : ℕ
  schedulingStage : SchedulingStage
  schedulingResults : SchedulingResult
  headerResponded : Bool
  forwardSucceeded : Bool
  /-- The client has disconnected: `reqCtx.Context` is done. -/
  cancelled : Bool
  /-- The chunk channel of the current attempt. -/
  chunks : List StreamChunk
  /-- No chunk of the current attempt has been received. -/
  isFirst : Bool
  responses : List ResponseMsg
  responseClosed : Bool
  /-- `OnPostRequest` has run. -/
  postRequested : Bool
  handler : Handler
  reader : Reader
  writing : Bool
  /-- The allocations the scheduler holds for the request. -/
  held : List LLMInstance

/-- `make(chan …, 100)`: the slots of either channel. -/
def slots : ℕ := 100

/-! ### The balancer -/

/-- What `balancer.Get` comes back with: a result of the scheduler, allocated to the request; a result of the
local round-robin balancer; or an error, which is never a `RetryableError`. -/
inductive Answer
  | scheduled (r : SchedulingResult)
  | roundRobin (r : SchedulingResult)
  | failed (text : String)

/-- The roles that a request needs in a mode and a stage. -/
def needs : SchedulingMode → SchedulingStage → List InferType
  | .neutral, _ => [.neutral]
  | .pdBatch, _ => [.prefill, .decode]
  | .pdStaged, .prefill => [.prefill]
  | .pdStaged, .decode => [.decode]

/-- The answer fits the mode and the stage. The scheduler leaves out a half of a pair that it has no instance
for; the local balancer answers in full or fails. -/
def Answer.Fits (mode : SchedulingMode) (stage : SchedulingStage) : Answer → Prop
  | scheduled r =>
    r.map LLMInstance.inferType = needs mode stage ∨
      mode = .pdBatch ∧ (r.map LLMInstance.inferType = [.prefill] ∨
        r.map LLMInstance.inferType = [.decode])
  | roundRobin r => r.map LLMInstance.inferType = needs mode stage
  | failed _ => True

instance (mode : SchedulingMode) (stage : SchedulingStage) :
    (a : Answer) → Decidable (a.Fits mode stage) := by
  intro a
  unfold Answer.Fits
  split <;> infer_instance

def Answer.result : Answer → Except String SchedulingResult
  | scheduled r => .ok r
  | roundRobin r => .ok r
  | failed text => .error text

/-- What the scheduler has allocated with an answer. -/
def Answer.allocated : Answer → List LLMInstance
  | scheduled r => r
  | roundRobin _ => []
  | failed _ => []

variable (σ : State)

/-- `balancer.Release`: the scheduler drops the request's allocation on the instance. -/
def State.release (w : LLMInstance) : State :=
  { σ with held := σ.held.filter fun v => ¬ (v.inferType = w.inferType ∧ v.id = w.id) }

/-! ### The hooks -/

/-- Releasing the first instance of a role, if there is one. -/
def State.releaseRole (t : InferType) : State :=
  match σ.schedulingResults.getInstanceByInferType t with
  | some w => σ.release w
  | none => σ

def onPostPrefill : State :=
  if cfg.enableRequestStateTracking then
    { σ.releaseRole .prefill with schedulingStage := .decode }
  else σ

def onPostRequest : State :=
  if cfg.enableRequestStateTracking then (σ.releaseRole .neutral).releaseRole .decode
  else if cfg.enableFullModeScheduling ∧ ¬ σ.forwardSucceeded then
    σ.schedulingResults.foldl State.release σ
  else σ

/-! ### The handler -/

def respond (e : GatewayError) : Handler := .writing [.err e] .finish

/-- `Forward`: the forwarders look up the instances they need, make a chunk channel and start the
reader. -/
def forward : State :=
  let fail (text : String) : State := { σ with handler := .deciding (some (.plain text)) }
  let start (reader : Reader) : State :=
    { σ with chunks := [], isFirst := true, reader := reader, handler := .receiving }
  let lookup := σ.schedulingResults.getInstanceByInferType
  match cfg.schedulingMode with
  | .neutral =>
    if (lookup .neutral).isNone then fail "no available instance for infer type: neutral"
    else start .connecting
  | .pdBatch =>
    if (lookup .prefill).isNone then fail ("[" ++ cfg.id ++ "] no scheduled prefill instance")
    else if (lookup .decode).isNone then fail ("[" ++ cfg.id ++ "] no scheduled decode instance")
    else start .connecting
  | .pdStaged =>
    if (lookup .prefill).isNone then fail ("[" ++ cfg.id ++ "] no scheduled prefill instance")
    else start .prefilling

/-- What `internalRouteRequest` does with the result of `Handle`. -/
def afterHandle : Option GatewayError → State
  | none => { σ with forwardSucceeded := true, handler := .closing }
  | some e =>
    if ¬ e.isRetryable then { σ with handler := respond e }
    else if σ.headerResponded then { σ with handler := .closing }
    else if (σ.attempt : ℤ) = cfg.retryMaxCount then
      { σ with handler := if cfg.canFallback then .fallingBack else respond e }
    else { σ with handler := .backingOff e }

/-- Where the handler goes on when all responses have been written. -/
def Next.handler : Next → Handler
  | more => .receiving
  | result r => .deciding r
  | finish => .closing

/-- A step of the handler that involves no choice. -/
def routeStep : Option State :=
  match σ.handler with
  | .retrying e =>
    some { σ with handler := if σ.cancelled then respond contextErr else .rescheduling e }
  | .forwarding => some (forward cfg σ)
  | .receiving =>
    match σ.chunks, σ.reader with
    | c :: cs, _ =>
      let σ' := if σ.isFirst then onPostPrefill cfg σ else σ
      some { σ' with chunks := cs, isFirst := false, handler := .handling c }
    | [], .closed => some { σ with handler := .deciding none }
    | [], _ => none
  | .handling c =>
    let (msgs, next) := handleChunk σ.headerResponded c
    some { σ with handler := .writing msgs next }
  | .writing [] next => some { σ with handler := next.handler }
  | .writing (m :: msgs) next =>
    if σ.responses.length < slots then
      some { σ with responses := σ.responses ++ [m], handler := .writing msgs next }
    else none
  | .deciding r => some (afterHandle cfg σ r)
  | .closing => some { σ with responseClosed := true, handler := .releasing }
  | .releasing => some { onPostRequest cfg σ with postRequested := true, handler := .returned }
  | _ => none

/-- Releasing the instances of the previous attempt and scheduling again. -/
def reschedule (a : Answer) : Option State :=
  match σ.handler with
  | .rescheduling e =>
    if a.Fits cfg.schedulingMode σ.schedulingStage then
      let σ' := σ.schedulingResults.foldl State.release σ
      some <| match a.result with
      | .ok r =>
        { σ' with schedulingResults := r, held := σ'.held ++ a.allocated, handler := .forwarding }
      | .error _ =>
        { σ' with
          schedulingResults := []
          handler := if cfg.canFallback then .fallingBack else respond e }
    else none
  | _ => none

/-- The `select` on the context and the timer between two attempts. -/
def backoff (elapsed : Bool) : Option State :=
  match σ.handler with
  | .backingOff e =>
    if elapsed then some { σ with attempt := σ.attempt + 1, handler := .retrying e }
    else if σ.cancelled then some { σ with handler := respond contextErr }
    else none
  | _ => none

/-- The outcome of `tryFallback`. A call refused with status 429 for ever has none while the client stays, if
the retries of the queue are not limited. -/
def fallback (r : Option GatewayError) : Option State :=
  match σ.handler with
  | .fallingBack =>
    some <| match r with
    | none => { σ with headerResponded := true, handler := .closing }
    | some e => { σ with handler := respond e }
  | _ => none

/-! ### The reader -/

/-- `doPrefill`: the request is made with the request's context. -/
def prefill (r : Option GatewayError) : Option State :=
  match σ.reader with
  | .prefilling =>
    some <| match if σ.cancelled then some (.network .canceled) else r with
    | none => { σ with reader := .scheduling }
    | some e => { σ with reader := .emitting [.err e] }
  | _ => none

/-- `PDSeparateSchedulingHooks.ScheduleDecode`, and the lookup of the decode instance. -/
def scheduleDecode (a : Answer) : Option State :=
  match σ.reader with
  | .scheduling =>
    if a.Fits cfg.schedulingMode .decode then
      let σ' := { σ with schedulingStage := .decode }
      some <| match a.result with
      | .error text => { σ' with reader := .emitting [.err (.plain text)] }
      | .ok r =>
        { σ' with
          schedulingResults := σ.schedulingResults ++ r
          held := σ.held ++ a.allocated
          reader :=
            if (r.getInstanceByInferType .decode).isSome then .connecting
            else .emitting [.err (.plain "decode instance not found")] }
    else none
  | _ => none

/-- The backend takes the request, and its stream begins; without a client the request fails. -/
def connect (stream : List StreamChunk) : Option State :=
  match σ.reader with
  | .connecting =>
    some { σ with reader := .emitting (if σ.cancelled then [.err (.network .canceled)] else stream) }
  | _ => none

/-- What comes next is an error. -/
def failing : List StreamChunk → Bool
  | .err _ :: _ => true
  | _ => false

/-- A chunk is copied into the channel, if there is room; at the end, or after an error, the channel is
closed. -/
def emit : Option State :=
  match σ.reader with
  | .emitting [] => some { σ with reader := .closed }
  | .emitting (c :: rest) =>
    if σ.chunks.length < slots then
      some { σ with
        chunks := σ.chunks ++ [c]
        reader := if failing [c] then .closed else .emitting rest }
    else none
  | _ => none

/-- `streamRead` finds the context done before it gets the next line. -/
def cutOff : Option State :=
  match σ.reader with
  | .emitting rest =>
    if σ.cancelled ∧ ¬ failing rest then some { σ with reader := .emitting [.err contextErr] } else none
  | _ => none

/-! ### The writer -/

/-- `writeResponseUntilDone` takes a response, or finds the channel closed. A client without a stream is sent
one response. -/
def deliver : Option State :=
  if σ.writing then
    match σ.responses with
    | m :: ms =>
      some <| if cfg.clientStream then
        { σ with
          responses := ms
          headerResponded := true
          writing := match m with
            | .err _ => false
            | .message _ => true }
      else { σ with responses := ms, writing := false }
    | [] => if σ.responseClosed then some { σ with writing := false } else none
  else none

/-- `writeResponseUntilDone` notices that the client has gone. -/
def hangUp : Option State :=
  if σ.writing ∧ σ.cancelled then some { σ with writing := false } else none

/-! ### The transitions -/

inductive Action
  | route
  | reschedule (a : Answer)
  | backoff (elapsed : Bool)
  | fallback (r : Option GatewayError)
  | prefill (r : Option GatewayError)
  | scheduleDecode (a : Answer)
  | connect (stream : List StreamChunk)
  | emit
  | cutOff
  | deliver
  | hangUp
  | disconnect

def exec : Action → Option State
  | .route => routeStep cfg σ
  | .reschedule a => reschedule cfg σ a
  | .backoff elapsed => backoff σ elapsed
  | .fallback r => fallback σ r
  | .prefill r => prefill σ r
  | .scheduleDecode a => scheduleDecode cfg σ a
  | .connect stream => connect σ stream
  | .emit => emit σ
  | .cutOff => cutOff σ
  | .deliver => deliver cfg σ
  | .hangUp => hangUp σ
  | .disconnect => if σ.cancelled then none else some { σ with cancelled := true }

/-- A request with the results of its first scheduling, before its first attempt; with a negative limit
there is none. -/
def State.start (r : SchedulingResult) (held : List LLMInstance) : State where
  attempt := 0
  schedulingStage := .prefill
  schedulingResults := r
  headerResponded := false
  forwardSucceeded := false
  cancelled := false
  chunks := []
  isFirst := true
  responses := []
  responseClosed := false
  postRequested := false
  handler := if 0 ≤ cfg.retryMaxCount then .forwarding else .closing
  reader := .closed
  writing := true
  held := held

/-- `dispatchRequest`: the first scheduling, in the stage that `HandleOpenAIRequest` sets.  If it fails,
`internalRouteRequest` is not called. -/
def dispatchRequest (a : Answer) : Option State :=
  if a.Fits cfg.schedulingMode .prefill then
    match a.result with
    | .error _ => none
    | .ok r => some (State.start cfg r a.allocated)
  else none

/-! ### Delays -/

/-- The delay after an attempt: `time.Duration(10*(1<<attempt)) * time.Millisecond`, in nanoseconds, and at
most 100 ms. -/
def retryDelay (attempt : ℕ) : BitVec 64 :=
  let backoff := 10 * (1 <<< attempt) * 1000000
  if (100 * 1000000 : BitVec 64).slt backoff then 100 * 1000000 else backoff

/-- `tryFallback` counts from one. -/
def fallbackDelay (fallbackAttempt : ℕ) : BitVec 64 := retryDelay (fallbackAttempt - 1)

/-- The first delays are positive, at most 100 ms and do not decrease. -/
def DelaysInRange (delay : ℕ → BitVec 64) (limit : ℕ) : Prop :=
  ∀ attempt < limit, 0 < (delay attempt).toInt ∧ (delay attempt).toInt ≤ 100000000 ∧
    ∀ earlier ≤ attempt, (delay earlier).toInt ≤ (delay attempt).toInt

/-- The product wraps around at the attempt with number 40, to a negative number. -/
theorem delaysInRange_retryDelay_iff {limit : ℕ} : DelaysInRange retryDelay limit ↔ limit ≤ 40 := by
  constructor
  · intro h
    by_contra hl
    exact absurd (h 40 (not_le.1 hl)).1 (by decide)
  · have hd : ∀ attempt < 40, 0 < (retryDelay attempt).toInt ∧ (retryDelay attempt).toInt ≤ 100000000 ∧
        ∀ earlier ≤ attempt, (retryDelay earlier).toInt ≤ (retryDelay attempt).toInt := by decide +kernel
    exact fun hl attempt ha => hd attempt (ha.trans_le hl)

/-- **The delays of both loops** are in range if neither makes more than forty attempts that are followed by
another. -/
theorem delays_in_range_iff (retryMaxCount fallbacks : ℕ) :
    DelaysInRange retryDelay retryMaxCount ∧ DelaysInRange (fun k => fallbackDelay (k + 1)) fallbacks ↔
      retryMaxCount ≤ 40 ∧ fallbacks ≤ 40 :=
  and_congr delaysInRange_retryDelay_iff delaysInRange_retryDelay_iff

theorem negative_delay : ¬ DelaysInRange retryDelay 41 :=
  fun h => absurd (h 40 (by decide)).1 (by decide)

end Llumnix.Gateway
