/-
**Everything a step of the request path can do.**

The transitions of `Llumnix/GatewayRoute.lean`, as a relation whose constructors name what happens and say
how the state changes; the invariants of the request path are proved by cases on it.

* `exec_step` — **a transition is one of the steps**.
-/

import Llumnix.GatewayRoute

namespace Llumnix.Gateway

variable {stage : SchedulingStage} {a : Answer} {r : SchedulingResult}

/-! ### What a release leaves -/

/-- The allocations that are left when `rs` have been released. -/
def remaining (rs held : List LLMInstance) : List LLMInstance :=
  held.filter fun v => ∀ w ∈ rs, ¬ (v.inferType = w.inferType ∧ v.id = w.id)

theorem mem_remaining {rs held : List LLMInstance} {v : LLMInstance} :
    v ∈ remaining rs held ↔ v ∈ held ∧ ∀ w ∈ rs, ¬ (v.inferType = w.inferType ∧ v.id = w.id) := by
  simp [remaining]

variable (cfg : Config) (σ : State)

theorem release_eq (w : LLMInstance) : σ.release w = { σ with held := remaining [w] σ.held } := by
  simp [State.release, remaining]

theorem releaseRole_eq (t : InferType) : σ.releaseRole t = { σ with
      held := remaining (σ.schedulingResults.getInstanceByInferType t).toList σ.held } := by
  unfold State.releaseRole
  cases σ.schedulingResults.getInstanceByInferType t with
  | none => simp [remaining]
  | some w => exact release_eq σ w

theorem releaseAll_eq (rs : List LLMInstance) (σ : State) :
    rs.foldl State.release σ = { σ with held := remaining rs σ.held } := by
  induction rs generalizing σ with
  | nil => simp [remaining]
  | cons w rs ih =>
    rw [List.foldl_cons, ih, release_eq]
    simp [remaining, List.filter_filter, Bool.and_comm]

/-! ### What the hooks change -/

theorem onPostPrefill_eq : onPostPrefill cfg σ = if cfg.enableRequestStateTracking then { σ with
        held := remaining (σ.schedulingResults.getInstanceByInferType .prefill).toList σ.held
        schedulingStage := .decode }
      else σ := by
  rw [onPostPrefill, releaseRole_eq]

/-- `OnPostPrefill` only touches the scheduling stage and the allocations. -/
theorem onPostPrefill_frame : onPostPrefill cfg σ = { σ with
      schedulingStage := (onPostPrefill cfg σ).schedulingStage
      held := (onPostPrefill cfg σ).held } := by
  rw [onPostPrefill_eq]
  split <;> rfl

theorem onPostRequest_frame : onPostRequest cfg σ = { σ with held := (onPostRequest cfg σ).held } := by
  unfold onPostRequest
  split
  · rw [releaseRole_eq, releaseRole_eq]
  · split
    · rw [releaseAll_eq]
    · rfl

/-! ### What an answer brings -/

/-- The roles in a fitting answer: what the stage needs, or one half of a pair. -/
theorem Answer.Fits.roles {mode : SchedulingMode} (hf : a.Fits mode stage) (hr : a.result = .ok r) :
    r.map LLMInstance.inferType = needs mode stage ∨
      mode = .pdBatch ∧ a = .scheduled r ∧ (r.map LLMInstance.inferType = [.prefill] ∨
        r.map LLMInstance.inferType = [.decode]) := by
  cases a with
  | failed => cases hr
  | roundRobin =>
    cases hr
    exact .inl hf
  | scheduled =>
    cases hr
    rcases hf with hf | ⟨hm, hh⟩
    · exact .inl hf
    · exact .inr ⟨hm, rfl, hh⟩

theorem Answer.Fits.roles_staged (hf : a.Fits .pdStaged stage) (hr : a.result = .ok r) :
    r.map LLMInstance.inferType = needs .pdStaged stage := by
  rcases hf.roles hr with hro | ⟨hm, -⟩
  · exact hro
  · cases hm

/-! ### What a step can do -/

/-- The forwarder finds every instance it needs. -/
def Forwardable : Prop :=
  ∀ t ∈ needs cfg.schedulingMode .prefill,
    (σ.schedulingResults.getInstanceByInferType t).isNone = false

def firstReader : SchedulingMode → Reader
  | .pdStaged => .prefilling
  | _ => .connecting

inductive Step (cfg : Config) (σ : State) : Action → State → Prop
  | aborted {e : GatewayError} : σ.handler = .retrying e → σ.cancelled = true →
      Step cfg σ .route { σ with handler := respond contextErr }
  | resumed {e : GatewayError} : σ.handler = .retrying e → σ.cancelled = false →
      Step cfg σ .route { σ with handler := .rescheduling e }
  | unforwarded (text : String) : σ.handler = .forwarding → ¬ Forwardable cfg σ →
      Step cfg σ .route { σ with handler := .deciding (some (.plain text)) }
  | forwarded : σ.handler = .forwarding → Forwardable cfg σ →
      Step cfg σ .route { σ with
        chunks := [], isFirst := true, reader := firstReader cfg.schedulingMode,
        handler := .receiving }
  | receivedFirst {c : StreamChunk} {cs : List StreamChunk} : σ.handler = .receiving →
      σ.chunks = c :: cs → σ.isFirst = true →
      Step cfg σ .route { σ with
        schedulingStage := (onPostPrefill cfg σ).schedulingStage, held := (onPostPrefill cfg σ).held,
        chunks := cs, isFirst := false, handler := .handling c }
  | received {c : StreamChunk} {cs : List StreamChunk} : σ.handler = .receiving →
      σ.chunks = c :: cs → σ.isFirst = false →
      Step cfg σ .route { σ with chunks := cs, isFirst := false, handler := .handling c }
  | drained : σ.handler = .receiving → σ.chunks = [] → σ.reader = .closed →
      Step cfg σ .route { σ with handler := .deciding none }
  | handled {c : StreamChunk} : σ.handler = .handling c →
      Step cfg σ .route { σ with
        handler := .writing (handleChunk σ.headerResponded c).1 (handleChunk σ.headerResponded c).2 }
  | written {next : Next} : σ.handler = .writing [] next →
      Step cfg σ .route { σ with handler := next.handler }
  | sent {m : ResponseMsg} {msgs : List ResponseMsg} {next : Next} :
      σ.handler = .writing (m :: msgs) next → σ.responses.length < slots →
      Step cfg σ .route { σ with
        responses := σ.responses ++ [m], handler := .writing msgs next }
  | succeeded : σ.handler = .deciding none →
      Step cfg σ .route { σ with forwardSucceeded := true, handler := .closing }
  | refused {e : GatewayError} : σ.handler = .deciding (some e) → e.isRetryable = false →
      Step cfg σ .route { σ with handler := respond e }
  | abandoned {e : GatewayError} : σ.handler = .deciding (some e) → e.isRetryable = true →
      σ.headerResponded = true → Step cfg σ .route { σ with handler := .closing }
  | exhausted {e : GatewayError} : σ.handler = .deciding (some e) → e.isRetryable = true →
      (σ.attempt : ℤ) = cfg.retryMaxCount →
      Step cfg σ .route { σ with
        handler := if cfg.canFallback then .fallingBack else respond e }
  | delayed {e : GatewayError} : σ.handler = .deciding (some e) → e.isRetryable = true →
      (σ.attempt : ℤ) ≠ cfg.retryMaxCount → Step cfg σ .route { σ with handler := .backingOff e }
  | closed : σ.handler = .closing →
      Step cfg σ .route { σ with responseClosed := true, handler := .releasing }
  | returned : σ.handler = .releasing →
      Step cfg σ .route { σ with
        held := (onPostRequest cfg σ).held, postRequested := true, handler := .returned }
  | rescheduled {e : GatewayError} {a : Answer} {r : SchedulingResult} :
      σ.handler = .rescheduling e → a.Fits cfg.schedulingMode σ.schedulingStage → a.result = .ok r →
      Step cfg σ (.reschedule a) { σ with
        schedulingResults := r, held := remaining σ.schedulingResults σ.held ++ a.allocated,
        handler := .forwarding }
  | unscheduled {e : GatewayError} {a : Answer} {text : String} :
      σ.handler = .rescheduling e → a.result = .error text →
      Step cfg σ (.reschedule a) { σ with
        schedulingResults := [], held := remaining σ.schedulingResults σ.held,
        handler := if cfg.canFallback then .fallingBack else respond e }
  | elapsed {e : GatewayError} : σ.handler = .backingOff e →
      Step cfg σ (.backoff true) { σ with attempt := σ.attempt + 1, handler := .retrying e }
  | interrupted {e : GatewayError} : σ.handler = .backingOff e → σ.cancelled = true →
      Step cfg σ (.backoff false) { σ with handler := respond contextErr }
  | fellBack : σ.handler = .fallingBack →
      Step cfg σ (.fallback none) { σ with headerResponded := true, handler := .closing }
  | fallbackFailed (e : GatewayError) : σ.handler = .fallingBack →
      Step cfg σ (.fallback (some e)) { σ with handler := respond e }
  | prefilled : σ.reader = .prefilling → Step cfg σ (.prefill none) { σ with reader := .scheduling }
  | prefillFailed {r : Option GatewayError} {e : GatewayError} : σ.reader = .prefilling →
      r = some e ∨ e = .network .canceled →
      Step cfg σ (.prefill r) { σ with reader := .emitting [.err e] }
  | decodeUnscheduled {a : Answer} {text : String} : σ.reader = .scheduling →
      a.result = .error text →
      Step cfg σ (.scheduleDecode a) { σ with
        schedulingStage := .decode, reader := .emitting [.err (.plain text)] }
  | decodeScheduled {a : Answer} {r : SchedulingResult} : σ.reader = .scheduling →
      a.Fits cfg.schedulingMode .decode → a.result = .ok r →
      Step cfg σ (.scheduleDecode a) { σ with
        schedulingStage := .decode
        schedulingResults := σ.schedulingResults ++ r
        held := σ.held ++ a.allocated
        reader := if (r.getInstanceByInferType .decode).isSome then .connecting
          else .emitting [.err (.plain "decode instance not found")] }
  | connected {stream read : List StreamChunk} : σ.reader = .connecting →
      read = stream ∨ read = [.err (.network .canceled)] →
      Step cfg σ (.connect stream) { σ with reader := .emitting read }
  | ended : σ.reader = .emitting [] → Step cfg σ .emit { σ with reader := .closed }
  | emitted {c : StreamChunk} {rest : List StreamChunk} : σ.reader = .emitting (c :: rest) →
      σ.chunks.length < slots →
      Step cfg σ .emit { σ with
        chunks := σ.chunks ++ [c], reader := if failing [c] then .closed else .emitting rest }
  | cutOff {rest : List StreamChunk} : σ.reader = .emitting rest → failing rest = false →
      Step cfg σ .cutOff { σ with reader := .emitting [.err contextErr] }
  | delivered {text : String} {ms : List ResponseMsg} : σ.writing = true → cfg.clientStream = true →
      σ.responses = .message text :: ms →
      Step cfg σ .deliver { σ with responses := ms, headerResponded := true }
  | deliveredLast {m : ResponseMsg} {ms : List ResponseMsg} (b : Bool) : σ.writing = true →
      (cfg.clientStream = false ∨ ∃ e, m = .err e) → σ.responses = m :: ms →
      Step cfg σ .deliver { σ with responses := ms, headerResponded := b, writing := false }
  | finished : σ.writing = true → σ.responses = [] → σ.responseClosed = true →
      Step cfg σ .deliver { σ with writing := false }
  | hungUp : σ.writing = true → σ.cancelled = true →
      Step cfg σ .hangUp { σ with writing := false }
  | disconnected : σ.cancelled = false → Step cfg σ .disconnect { σ with cancelled := true }

section

variable {cfg : Config} {σ σ' : State}
variable {a : Answer}

theorem not_forwardable {t : InferType} (ht : t ∈ needs cfg.schedulingMode .prefill)
    (hn : (σ.schedulingResults.getInstanceByInferType t).isNone = true) : ¬ Forwardable cfg σ := by
  intro ha
  rw [ha t ht] at hn
  cases hn

theorem forward_step (h : σ.handler = .forwarding) : Step cfg σ .route (forward cfg σ) := by
  -- the attempt begins once every instance has been found
  have hb : ∀ {mode ts}, cfg.schedulingMode = mode → needs mode .prefill = ts →
      (∀ t ∈ ts, ¬ (σ.schedulingResults.getInstanceByInferType t).isNone = true) →
      Step cfg σ .route { σ with
        chunks := [], isFirst := true, reader := firstReader mode, handler := .receiving } := by
    rintro mode ts rfl rfl ha
    exact .forwarded h fun t ht => Bool.eq_false_iff.2 (ha t ht)
  unfold forward
  cases hm : cfg.schedulingMode with
  | neutral | pdStaged =>
    dsimp only
    split
    · next hn => exact .unforwarded _ h (not_forwardable (by rw [hm]; decide) hn)
    · next hs => exact hb hm rfl fun t ht => List.mem_singleton.1 ht ▸ hs
  | pdBatch =>
  dsimp only
  split
  · next hn => exact .unforwarded _ h (not_forwardable (by rw [hm]; decide) hn)
  rename_i hp
  split
  · next hn => exact .unforwarded _ h (not_forwardable (by rw [hm]; decide) hn)
  · next hde =>
    refine hb hm rfl fun t ht => ?_
    rcases List.mem_pair.1 ht with rfl | rfl
    · exact hp
    · exact hde

theorem afterHandle_step {r : Option GatewayError} (h : σ.handler = .deciding r) :
    Step cfg σ .route (afterHandle cfg σ r) := by
  cases r with
  | none => exact .succeeded h
  | some e =>
  unfold afterHandle
  dsimp only
  split
  · next he => exact .refused h (by simpa using he)
  · rename_i he
    have he : e.isRetryable = true := by simpa using he
    split
    · next hr => exact .abandoned h he hr
    · split
      · next hl => exact .exhausted h he hl
      · next hl => exact .delayed h he hl

theorem routeStep_step (h : routeStep cfg σ = some σ') : Step cfg σ .route σ' := by
  unfold routeStep at h
  split at h <;> try cases h
  next e he =>
    split
    · next hc => exact .aborted he hc
    · next hc => exact .resumed he (Bool.not_eq_true _ ▸ hc)
  next he => exact forward_step he
  next he =>
    split at h <;> cases h
    next c cs hch =>
      split
      · rename_i hf
        rw [onPostPrefill_frame]
        exact .receivedFirst he hch hf
      · next hf => exact .received he hch (Bool.not_eq_true _ ▸ hf)
    next hch hr => exact .drained he hch hr
  next c he => exact .handled he
  next next he => exact .written he
  next m msgs next he =>
    split at h <;> cases h
    next hro => exact .sent he hro
  next r he => exact afterHandle_step he
  next he => exact .closed he
  next he =>
    rw [onPostRequest_frame]
    exact .returned he

theorem reschedule_step (h : reschedule cfg σ a = some σ') : Step cfg σ (.reschedule a) σ' := by
  unfold reschedule at h
  split at h <;> try cases h
  next e he =>
    split at h <;> try cases h
    next hf =>
      rw [releaseAll_eq]
      cases ha : a.result with
      | ok => exact .rescheduled he hf ha
      | error => exact .unscheduled he ha

theorem scheduleDecode_step (h : scheduleDecode cfg σ a = some σ') : Step cfg σ (.scheduleDecode a) σ' := by
  unfold scheduleDecode at h
  split at h <;> try cases h
  next he =>
    split at h <;> try cases h
    next hf =>
      cases ha : a.result with
      | ok => exact .decodeScheduled he hf ha
      | error => exact .decodeUnscheduled he ha

theorem deliver_step (h : deliver cfg σ = some σ') : Step cfg σ .deliver σ' := by
  unfold deliver at h
  split at h <;> try cases h
  next hw =>
    split at h
    · rename_i m ms hr
      cases h
      split
      · rename_i hs
        cases m with
        | message =>
          have hst := Step.delivered hw hs hr
          rwa [hw] at hst
        | err e => exact .deliveredLast true hw (.inr ⟨e, rfl⟩) hr
      · next hs => exact .deliveredLast σ.headerResponded hw (.inl (Bool.not_eq_true _ ▸ hs)) hr
    · next hr =>
      split at h <;> cases h
      next hc => exact .finished hw hr hc

/-- **Inversion**: a step is one of the steps above. -/
theorem exec_step {a : Action} (h : exec cfg σ a = some σ') : Step cfg σ a σ' := by
  cases a with
  | route => exact routeStep_step h
  | reschedule => exact reschedule_step h
  | backoff b =>
    simp only [exec, backoff] at h
    split at h <;> try cases h
    next e he =>
      cases b with
      | true =>
        cases h
        exact .elapsed he
      | false =>
        split at h
        · next ha => cases ha
        · split at h <;> cases h
          next hc => exact .interrupted he hc
  | fallback r =>
    simp only [exec, fallback] at h
    split at h <;> try cases h
    next he =>
      cases r with
      | none => exact .fellBack he
      | some e => exact .fallbackFailed e he
  | prefill r =>
    simp only [exec, prefill] at h
    split at h <;> try cases h
    next he =>
      by_cases hc : σ.cancelled = true
      · rw [if_pos hc]
        exact .prefillFailed he (.inr rfl)
      · rw [if_neg hc]
        cases r with
        | none => exact .prefilled he
        | some e => exact .prefillFailed he (.inl rfl)
  | scheduleDecode => exact scheduleDecode_step h
  | connect stream =>
    simp only [exec, connect] at h
    split at h <;> cases h
    next he =>
      refine .connected he ?_
      split
      · exact .inr rfl
      · exact .inl rfl
  | emit =>
    simp only [exec, emit] at h
    split at h <;> try cases h
    next he => exact .ended he
    next c rest he =>
      split at h <;> cases h
      next hr => exact .emitted he hr
  | cutOff =>
    simp only [exec, Gateway.cutOff] at h
    split at h <;> try cases h
    next rest he =>
      split at h <;> cases h
      next hc => exact .cutOff he (by simpa using hc.2)
  | deliver => exact deliver_step h
  | hangUp =>
    simp only [exec, hangUp] at h
    split at h <;> cases h
    next hb => exact .hungUp hb.1 hb.2
  | disconnect =>
    simp only [exec] at h
    split at h <;> cases h
    next hc => exact .disconnected (by simpa using hc)

theorem dispatchRequest_eq_some (h : dispatchRequest cfg a = some σ) :
    ∃ r, a.Fits cfg.schedulingMode .prefill ∧ a.result = .ok r ∧ σ = State.start cfg r a.allocated := by
  unfold dispatchRequest at h
  split at h <;> try cases h
  next hf =>
    split at h <;> cases h
    next r hr => exact ⟨r, hf, hr, rfl⟩

end

/-! ### The result of `Handle` -/

theorem err_of_handleChunk {b : Bool} {c : StreamChunk} {e : GatewayError}
    (h : (handleChunk b c).2 = .result (some e)) : c = .err e := by
  unfold handleChunk at h
  repeat' split at h
  all_goals cases h
  rfl

/-! ### The handler waits for the reader -/

/-- The reader has not come to the point where it sends chunks. -/
def Reader.Early (r : Reader) : Prop := r = .prefilling ∨ r = .scheduling ∨ r = .connecting

/-- Until the reader sends its first chunk, the handler waits for it. -/
def Waits (σ : State) : Prop :=
  σ.reader.Early → σ.handler = .receiving ∧ σ.isFirst = true ∧ σ.chunks = []

theorem waits_step {cfg : Config} {σ σ' : State} {a : Action} (hs : Step cfg σ a σ')
    (h : Waits σ) : Waits σ' := by
  -- a handler that is not receiving has no early reader
  have hi : ∀ {hd : Handler}, σ.handler = hd → hd ≠ .receiving → ¬ σ.reader.Early :=
    fun heq hne hea => hne (heq ▸ (h hea).1)
  cases hs with
  | forwarded => exact fun _ => ⟨rfl, rfl, rfl⟩
  | receivedFirst _ hc | received _ hc =>
    refine fun hea => ?_
    rw [(h hea).2.2] at hc
    cases hc
  | drained _ _ hr =>
    refine fun hea => ?_
    rw [Reader.Early, hr] at hea
    simp at hea
  | prefilled hr => exact fun _ => h (.inl hr)
  | prefillFailed | decodeUnscheduled | connected | ended | emitted | cutOff =>
    refine fun hea => ?_
    (try split at hea) <;> simp [Reader.Early] at hea
  | decodeScheduled hr => exact fun _ => h (.inr (.inl hr))
  | _ =>
    first
    | exact h
    | exact fun hea => absurd hea (hi ‹σ.handler = _› (by simp))

theorem waits_start (cfg : Config) (r : SchedulingResult) (held : List LLMInstance) :
    Waits (State.start cfg r held) := by
  intro he
  simp [Reader.Early, State.start] at he

end Llumnix.Gateway
