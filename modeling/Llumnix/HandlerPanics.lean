/-
**When the handler panics.**

With request state tracking the handler calls two hooks for requests with a streaming client: one at the
second chunk of an attempt, which makes the token state from the tokens of the prompt, and one for each
later chunk that can be parsed, which brings the token state up to date from the response.  There are no
tokens of the prompt if it is a list of texts or of token lists, or if it is missing.  And the second hook
is called *before* the chunk is post-processed, when the last response has been cleared: for a chat there
never is a response, and for a completion there is none when the chunk is `[DONE]`.

* `crashes_iff` — **the gateway crashes at these chunks and at no others**, in any number of attempts.
-/

import Llumnix.GuardedRun
import Llumnix.OpenAIHandler

namespace Llumnix.Chat

/-! ### Attempts -/

/-- A request that is being served: `Handle` waits for a chunk, or it has returned, or the gateway has
crashed. -/
inductive Serving (σ : Type)
  | waiting (loop : Loop σ)
  | left (ctx : RequestContext σ) (err : Option String)
  | crashed (p : NilUse)

/-- A chunk arrives, the channel is closed, or there is another attempt. -/
inductive Event
  | chunk (c : StreamChunk)
  | close
  | retry

/-- **The attempts to serve a request.**  There may be another one if `Handle` has returned an error. -/
def exec {σ : Type} (γ : Gateway σ) : Serving σ → Event → Option (Serving σ)
  | .waiting loop, .chunk c =>
    match γ.receive loop c with
    | .error p => some (.crashed p)
    | .ok (.more loop) => some (.waiting loop)
    | .ok (.returned ctx err) => some (.left ctx err)
  | .waiting loop, .close => some (.left loop.ctx none)
  | .left ctx (some _), .retry => some (.waiting ctx.enter)
  | _, _ => none

/-- **The chunks that crash the gateway**, if the client asks for a stream: the second one of an attempt, if
the prompt is not one list of tokens; and, after the first one of the first attempt, those of a chat that can
be parsed and the end marker of a completion. -/
def Doomed {σ : Type} (loop : Loop σ) (c : StreamChunk) : Prop :=
  loop.ctx.llm.clientStream = true ∧
    ((loop.isFirst = false ∧ loop.isFirstDecode = true ∧
        ∃ prompt, loop.ctx.llm.completionRequest = some prompt ∧ prompt.getUint32Slice = none) ∨
      ((loop.isFirst = false ∨ 0 < loop.ctx.stats.itls) ∧ c.err = .none ∧
        (c.data = .done ∨
          loop.ctx.llm.protocol = .openAIChatCompletion ∧ ∃ r, c.data = .response r)))

/-! ### Between two chunks -/

/-- What holds of a request between two chunks. -/
structure Tracked {σ : Type} (ctx : RequestContext σ) : Prop where
  prompt : ∃ prompt, ctx.llm.completionRequest = some prompt ∧
    (ctx.llm.protocol = .openAIChatCompletion → ∃ ids, prompt.getUint32Slice = some ids)
  tokenState : ctx.llm.clientStream = true → 0 < ctx.stats.itls → ∃ s, ctx.requestTokenState = some s

/-- The last response has been cleared. -/
structure Cleared {σ : Type} (llm : LLMRequest σ) : Prop where
  chat : llm.clientStream = true → llm.protocol = .openAIChatCompletion →
    llm.chatCompletionStreamResponse = none
  completion : llm.protocol = .openAICompletion → llm.completionResponse = none

/-- What holds of the loop between two chunks. -/
structure Loop.Steady {σ : Type} (loop : Loop σ) : Prop where
  tracked : Tracked loop.ctx
  cleared : Cleared loop.ctx.llm
  decoding : loop.isFirstDecode = false → 0 < loop.ctx.stats.itls

section

variable {σ : Type} {γ : Gateway σ}
variable {ctx : RequestContext σ} {isStreamEnd : Bool}

theorem steady_of_parseRequest {id : String} {body : Body} (h : γ.parseRequest id body = .ok ctx) :
    ctx.enter.Steady := by
  cases body with
  | chat =>
    simp only [Gateway.parseRequest] at h
    split at h <;> cases h
    exact ⟨⟨⟨_, rfl, fun _ => ⟨_, rfl⟩⟩, fun _ hpo => absurd hpo (Nat.lt_irrefl 0)⟩,
      ⟨fun _ _ => rfl, fun _ => rfl⟩, fun hde => nomatch hde⟩
  | completion stream prompt =>
  simp only [Gateway.parseRequest] at h
  cases hp : γ.tokenizePrompt prompt with
  | error => rw [hp] at h; cases h
  | ok =>
    rw [hp] at h
    cases h
    exact ⟨⟨⟨_, rfl, fun hc => nomatch hc⟩, fun _ hpo => absurd hpo (Nat.lt_irrefl 0)⟩,
      ⟨fun _ _ => rfl, fun _ => rfl⟩, fun hde => nomatch hde⟩

theorem cleared_marshalResponse (llm : LLMRequest σ) : Cleared (marshalResponse llm).1 := by
  unfold marshalResponse
  cases hp : llm.protocol with
  | openAIChatCompletion =>
    cases hs : llm.clientStream with
    | true => exact ⟨fun _ _ => rfl, fun hc => by simp at hc⟩
    | false => exact ⟨fun hcl => by simp at hcl, fun hc => by simp at hc⟩
  | openAICompletion => exact ⟨fun _ hch => by simp at hch, fun _ => rfl⟩

theorem kept_marshalResponse (req : Request σ) :
    Request.Kept req { req with llm := (marshalResponse req.llm).1 } := by
  unfold marshalResponse
  split
  · split <;> exact ⟨rfl, rfl, rfl, rfl⟩
  · exact ⟨rfl, rfl, rfl, rfl⟩

theorem Tracked.of_kept {ctx' : RequestContext σ} (h : Tracked ctx)
    (hk : Request.Kept ctx.toRequest ctx'.toRequest)
    (hs : ctx'.requestTokenState = ctx.requestTokenState) : Tracked ctx' where
  prompt := by
    rw [hk.completionRequest, hk.protocol]
    exact h.prompt
  tokenState := by
    rw [hk.clientStream, hk.itls, hs]
    exact h.tokenState

/-- A chunk that goes on is post-processed and its response is cleared. -/
theorem steady_of_proceed (loop : Loop σ) {loop' : Loop σ} (h : Tracked loop.ctx)
    (hde : loop.isFirstDecode = false → 0 < loop.ctx.stats.itls)
    (hpr : γ.proceed loop isStreamEnd = .more loop') : loop'.Steady := by
  unfold Gateway.proceed at hpr
  split at hpr
  · cases hpr
  rename_i ctx hp
  split at hpr <;> cases hpr
  rcases hpo : γ.processor.postProcess loop.ctx.toRequest isStreamEnd with ⟨req, e | ⟨⟩⟩
  · rw [processAndWriteChunk_error hpo] at hp
    cases hp
  rw [processAndWriteChunk_ok hpo] at hp
  cases hp
  have hk := γ.processor.kept_postProcess loop.ctx.toRequest isStreamEnd
  rw [hpo] at hk
  have hk := hk.trans (kept_marshalResponse req)
  exact ⟨h.of_kept hk rfl, cleared_marshalResponse req.llm, hk.itls ▸ hde⟩

/-- **What comes before the data of a chunk**: a panic for want of prompt tokens, or the request is as it
was, but for the token state and the number of chunks. -/
theorem arrive_spec (ht : γ.enableRequestStateTracking = true) {loop : Loop σ} (h : loop.Steady) :
    (loop.ctx.llm.clientStream = true ∧ loop.isFirst = false ∧ loop.isFirstDecode = true ∧
        (∃ prompt, loop.ctx.llm.completionRequest = some prompt ∧ prompt.getUint32Slice = none) ∧
        ∃ p, γ.arrive loop = .error p) ∨ ∃ loop', γ.arrive loop = .ok loop' ∧ loop'.ctx.llm = loop.ctx.llm ∧
        (0 < loop'.ctx.stats.itls ↔ loop.isFirst = false ∨ 0 < loop.ctx.stats.itls) ∧ loop'.Steady ∧
        ¬ (loop.ctx.llm.clientStream = true ∧ loop.isFirst = false ∧ loop.isFirstDecode = true ∧
          ∃ prompt, loop.ctx.llm.completionRequest = some prompt ∧ prompt.getUint32Slice = none) := by
  obtain ⟨ctx, isFirst, isFirstDecode⟩ := loop
  obtain ⟨prompt, hp, hch⟩ := h.tracked.prompt
  unfold Gateway.arrive
  cases isFirst with
  | true => exact .inr ⟨_, rfl, rfl, by simp, ⟨h.1, h.2, h.3⟩, fun hb => nomatch hb.2.1⟩
  | false =>
  cases isFirstDecode with
  | false =>
    refine .inr ⟨_, rfl, rfl, by simp [RequestContext.recordITL],
      ⟨⟨⟨prompt, hp, hch⟩, fun hc _ => ?_⟩, h.2, ?_⟩, ?_⟩
    · exact h.tracked.tokenState hc (h.decoding rfl)
    · exact fun _ => Nat.succ_pos _
    · exact fun hb => nomatch hb.2.2.1
  | true =>
  by_cases hc : ctx.llm.clientStream = true
  · have hh : γ.onPostDecodeFirstStreamResponse ctx.recordITL = _ := if_pos ⟨ht, hc⟩
    have hpr : ctx.recordITL.llm.completionRequest = some prompt := hp
    rw [newRequestTokenState, hpr] at hh
    dsimp only at hh
    cases hi : prompt.getUint32Slice with
    | none =>
      rw [hi] at hh
      refine .inl ⟨hc, rfl, rfl, ⟨prompt, hp, hi⟩, .requestTokenState, ?_⟩
      simp only [Bool.false_eq_true, if_false, if_true, hh]
      rfl
    | some =>
    rw [hi] at hh
    refine .inr ⟨_, congrArg (Except.map fun ctx => Loop.mk ctx false false) hh, rfl,
      by simp [RequestContext.recordITL], ⟨⟨⟨prompt, hp, hch⟩, fun _ _ => ⟨_, rfl⟩⟩, h.2,
        fun _ => Nat.succ_pos _⟩, ?_⟩
    rintro ⟨-, -, -, prompt', hp', hn⟩
    cases hp.symm.trans hp'
    cases hi.symm.trans hn
  · have hh : γ.onPostDecodeFirstStreamResponse ctx.recordITL = .ok ctx.recordITL :=
      if_neg fun hbo => hc hbo.2
    exact .inr ⟨_, congrArg (Except.map fun ctx => Loop.mk ctx false false) hh, rfl,
      by simp [RequestContext.recordITL], ⟨⟨⟨prompt, hp, hch⟩, fun hc' => absurd hc' hc⟩,
        h.2, fun _ => Nat.succ_pos _⟩, fun hb => hc hb.1⟩

/-- **The hook of the later chunks** panics for want of a response, and only then. -/
theorem onPostDecodeEach_spec (ht : γ.enableRequestStateTracking = true) (h : Tracked ctx)
    (hi : 0 < ctx.stats.itls) : (ctx.llm.clientStream = true ∧ ∃ p, getResponseUsage ctx.llm = .error p ∧
        γ.onPostDecodeEachStreamResponse ctx = .error p) ∨
      ∃ ctx', γ.onPostDecodeEachStreamResponse ctx = .ok ctx' ∧ Tracked ctx' ∧
        ctx'.toRequest = ctx.toRequest ∧
        ¬ (ctx.llm.clientStream = true ∧ ∃ p, getResponseUsage ctx.llm = .error p) := by
  unfold Gateway.onPostDecodeEachStreamResponse
  by_cases hc : ctx.llm.clientStream = true
  · rw [if_pos ⟨ht, hc⟩]
    cases hu : getResponseUsage ctx.llm with
    | error p => exact .inl ⟨hc, p, rfl, rfl⟩
    | ok usage =>
    obtain ⟨s, hs⟩ := h.tokenState hc hi
    refine .inr ⟨{ ctx with requestTokenState := some (s.update usage (getResponseText ctx.llm)) }, ?_,
      ⟨h.prompt, fun _ _ => ⟨_, rfl⟩⟩, rfl, ?_⟩
    · rw [hs]
    · rintro ⟨-, p, hp⟩
      cases hp
  · rw [if_neg fun hb => hc hb.2]
    exact .inr ⟨ctx, rfl, h, rfl, fun hba => hc hba.1⟩

/-- There is no response for a chat, and none for a completion if the chunk is the end marker. -/
theorem getResponseUsage_error_iff {llm llm' : LLMRequest σ} {data : ChunkData} (hcl : Cleared llm)
    (hpa : parseResponse llm data = .ok (llm', isStreamEnd)) (hc : llm.clientStream = true) :
    (∃ p, getResponseUsage llm' = .error p) ↔
      data = .done ∨ llm.protocol = .openAIChatCompletion ∧ ∃ r, data = .response r := by
  cases data with
  | empty | malformed => cases hpa
  | done =>
    cases hpa
    refine iff_of_true ?_ (.inl rfl)
    unfold getResponseUsage
    cases hpr : llm.protocol with
    | openAIChatCompletion => exact ⟨_, by simp only [hc, if_true, hcl.chat hc hpr]; rfl⟩
    | openAICompletion => exact ⟨_, by simp only [hcl.completion hpr]; rfl⟩
  | response r =>
  cases hpa
  unfold getResponseUsage
  cases hpr : llm.protocol with
  | openAIChatCompletion =>
    refine iff_of_true ⟨.chatCompletionStreamResponse, ?_⟩ (.inr ⟨rfl, r, rfl⟩)
    simp only [hc, if_true, hcl.chat hc hpr]
    rfl
  | openAICompletion =>
  refine iff_of_false ?_ ?_
  · rintro ⟨p, hp⟩
    cases hp
  · rintro (hdo | ⟨hch, -⟩)
    · cases hdo
    · cases hch

theorem tracked_of_parseResponse {llm : LLMRequest σ} {data : ChunkData} (h : Tracked ctx)
    (hp : parseResponse ctx.llm data = .ok (llm, isStreamEnd)) :
    Tracked { ctx with llm := llm } ∧ llm.clientStream = ctx.llm.clientStream := by
  cases data with
  | empty | malformed => cases hp
  | done => cases hp; exact ⟨h, rfl⟩
  | response => cases hp; exact ⟨h.of_kept ⟨rfl, rfl, rfl, rfl⟩ rfl, rfl⟩

/-- Where a chunk leads: nowhere, if it is doomed, and else to a state between two chunks. -/
def Survives (γ : Gateway σ) (loop : Loop σ) (c : StreamChunk) : Prop :=
  ∃ o, γ.receive loop c = .ok o ∧ match o with
    | .more loop' => loop'.Steady
    | .returned ctx (some _) => Tracked ctx ∧ Cleared ctx.llm
    | .returned _ none => True

theorem receive_spec (htr : γ.enableRequestStateTracking = true) {loop : Loop σ} (h : loop.Steady)
    (c : StreamChunk) :
    Doomed loop c ∧ (∃ p, γ.receive loop c = .error p) ∨ ¬ Doomed loop c ∧ Survives γ loop c := by
  unfold Survives Gateway.receive
  rcases arrive_spec htr h with ⟨hc, hf, hde, hpr, p, hp⟩ | ⟨loop', hl', hll, hi, h', hno⟩
  · exact .inl ⟨⟨hc, .inl ⟨hf, hde, hpr⟩⟩, p, by rw [hp]⟩
  rw [hl']
  dsimp only
  have hsa (hn : c.err = .none → c.data ≠ .done ∧ ∀ r, c.data ≠ .response r) : ¬ Doomed loop c := by
    rintro ⟨hc, hs | ⟨-, he, hd | ⟨-, r, hr⟩⟩⟩
    · exact hno ⟨hc, hs⟩
    · exact (hn he).1 hd
    · exact (hn he).2 r hr
  cases he : c.err with
  | eof => exact .inr ⟨hsa (by simp [he]), _, rfl, trivial⟩
  | failure =>
    dsimp only
    split
    · exact .inr ⟨hsa (by simp [he]), _, rfl, trivial⟩
    · exact .inr ⟨hsa (by simp [he]), _, rfl, h'.tracked, h'.cleared⟩
  | none =>
  cases hpa : parseResponse loop'.ctx.llm c.data with
  | error =>
    refine .inr ⟨hsa fun _ => ⟨fun hd => ?_, fun r hr => ?_⟩, _, rfl, trivial⟩
    · rw [hd] at hpa
      cases hpa
    · rw [hr] at hpa
      cases hpa
  | ok parsed =>
  obtain ⟨llm, isStreamEnd⟩ := parsed
  obtain ⟨ht, hcl⟩ := tracked_of_parseResponse h'.tracked hpa
  dsimp only
  have hl : Doomed loop c ↔ 0 < loop'.ctx.stats.itls ∧ llm.clientStream = true ∧
      ∃ p, getResponseUsage llm = .error p := by
    have hu := getResponseUsage_error_iff h'.cleared hpa
    rw [hll] at hu
    rw [hcl, hll, hi]
    constructor
    · rintro ⟨hc, hs | ⟨hl, -, hda⟩⟩
      · exact absurd ⟨hc, hs⟩ hno
      · exact ⟨hl, hc, (hu hc).2 hda⟩
    · rintro ⟨hl, hc, hp⟩
      exact ⟨hc, .inr ⟨hl, he, (hu hc).1 hp⟩⟩
  split
  next hpo =>
    rcases onPostDecodeEach_spec htr ht hpo with ⟨hc, p, hp, hh⟩ | ⟨ctx', hh, hc', hrq, hn⟩
    · refine .inl ⟨hl.2 ⟨hpo, hc, p, hp⟩, p, ?_⟩
      rw [hh]
      rfl
    refine .inr ⟨fun hdo => hn (hl.1 hdo).2, γ.proceed { loop' with ctx := ctx' } isStreamEnd,
      by rw [hh]; rfl, ?_⟩
    split
    next loop'' hm =>
      exact steady_of_proceed { loop' with ctx := ctx' } hc' (hrq ▸ h'.decoding) hm
    next hre => exact absurd hre proceed_ne_error
    next => trivial
  next hpo =>
    refine .inr ⟨fun hdo => hpo (hl.1 hdo).1, _, rfl, ?_⟩
    split
    next loop'' hm =>
      exact steady_of_proceed { loop' with ctx := { loop'.ctx with llm := llm } } ht h'.decoding hm
    next hre => exact absurd hre proceed_ne_error
    next => trivial

/-- What holds of a request that is being served. -/
def Serving.Steady : Serving σ → Prop
  | .waiting loop => loop.Steady
  | .left ctx (some _) => Tracked ctx ∧ Cleared ctx.llm
  | _ => True

theorem Serving.Steady.exec (ht : γ.enableRequestStateTracking = true) {s t : Serving σ} {e : Event}
    (h : s.Steady) (hex : exec γ s e = some t) : t.Steady := by
  cases s with
  | waiting =>
    cases e with
    | chunk c =>
      simp only [Chat.exec] at hex
      rcases receive_spec ht h c with ⟨-, p, hp⟩ | ⟨-, o, ho, hs⟩
      · rw [hp] at hex
        cases hex
        trivial
      rw [ho] at hex
      cases o with
      | more =>
        cases hex
        exact hs
      | returned ctx err =>
        cases hex
        cases err with
        | none => trivial
        | some => exact hs
    | close =>
      cases hex
      trivial
    | retry => cases hex
  | left ctx err =>
    cases err with
    | none => cases hex
    | some =>
      cases e with
      | chunk | close => cases hex
      | retry =>
        cases hex
        exact ⟨h.1, h.2, fun hde => nomatch hde⟩
  | crashed => cases hex

end

/-- **The gateway crashes at the doomed chunks and at no others**, after any chunks of any number of
attempts. -/
theorem crashes_iff {σ : Type} {γ : Gateway σ} (htrack : γ.enableRequestStateTracking = true) {id : String}
    {body : Body} {ctx : RequestContext σ} (haccept : γ.parseRequest id body = .ok ctx) {loop : Loop σ}
    (hrun : GuardedRun.Reaches (exec γ) GuardedRun.free (.waiting ctx.enter) (.waiting loop))
    (c : StreamChunk) :
    (∃ p, exec γ (.waiting loop) (.chunk c) = some (.crashed p)) ↔ Doomed loop c := by
  have hs : Serving.Steady (.waiting loop) :=
    hrun.invariant (I := Serving.Steady) (steady_of_parseRequest haccept) fun s e t _ hex h => h.exec htrack hex
  rcases receive_spec htrack hs c with ⟨hdo, p, hp⟩ | ⟨hn, o, ho, -⟩
  · refine iff_of_true ⟨p, ?_⟩ hdo
    simp only [exec, hp]
  · refine iff_of_false ?_ hn
    rintro ⟨p, hp⟩
    cases o with
    | more | returned =>
      simp only [exec, ho, Option.some.injEq] at hp
      cases hp

/-! ### A gateway with request state tracking -/

/-- A gateway that tracks the states of requests, and for which every character is a token. -/
def trackingGateway : Gateway Unit where
  processor := plainProcessor
  enableRequestStateTracking := true
  tokenizerEncode := fun s => some (s.map Char.toNat)
  preProcessChatRequest := fun s => some (s.length, s.map Char.toNat)
  modelMaxLen := 1000

def textChunk (text : String) : CompletionResponse where
  id := "cmpl-1".toList
  object := "text_completion"
  created := 0
  model := "m"
  choices := [⟨text.toList, 0, ""⟩]
  usage := none

def completionRequest : RequestContext Unit :=
  newRequestContext "r" (newLLMRequest .openAICompletion true [] (.tokens [1, 2])) (newStats 2 0)

/-- The chunks of a completion are survived, up to the end marker. -/
theorem crashes_at_end_of_completion : ∃ loop,
    trackingGateway.parseRequest "r" (.completion true (.tokens [1, 2])) = .ok completionRequest ∧
    GuardedRun.Reaches (exec trackingGateway) GuardedRun.free (.waiting completionRequest.enter)
      (.waiting loop) ∧
    (¬ ∃ p, exec trackingGateway (.waiting loop) (.chunk (.of (textChunk "b"))) = some (.crashed p)) ∧
    ∃ p, exec trackingGateway (.waiting loop) (.chunk .finish) = some (.crashed p) := by
  obtain ⟨loop, hl, hc, hp, hpr, hf⟩ : ∃ loop,
      exec trackingGateway (.waiting completionRequest.enter) (.chunk (.of (textChunk "a"))) =
        some (.waiting loop) ∧ loop.ctx.llm.clientStream = true ∧
      loop.ctx.llm.protocol = .openAICompletion ∧
      loop.ctx.llm.completionRequest = some (.tokens [1, 2]) ∧ loop.isFirst = false :=
    ⟨_, rfl, rfl, rfl, rfl, rfl⟩
  have hr : GuardedRun.Reaches (exec trackingGateway) GuardedRun.free
      (.waiting completionRequest.enter) (.waiting loop) := .step .refl trivial hl
  have ha : trackingGateway.parseRequest "r" (.completion true (.tokens [1, 2])) =
      .ok completionRequest := rfl
  refine ⟨loop, ha, hr, ?_, ?_⟩
  · rw [crashes_iff rfl ha hr]
    rintro ⟨-, ⟨-, -, prompt, hp', hn⟩ | ⟨-, -, hdo | ⟨hch, -⟩⟩⟩
    · cases hpr.symm.trans hp'
      cases hn
    · cases hdo
    · cases hp.symm.trans hch
  · rw [crashes_iff rfl ha hr]
    exact ⟨hc, .inr ⟨.inl hf, rfl, .inl rfl⟩⟩

/-- **A client that asks for a stream of a chat** crashes the gateway with the second chunk. -/
theorem crash_at_second_chunk : ¬ ∀ (γ : Gateway Unit) (id : String) (body : Body) (ctx : RequestContext Unit)
    (s : Serving Unit), γ.enableRequestStateTracking = true → γ.parseRequest id body = .ok ctx →
      GuardedRun.Reaches (exec γ) GuardedRun.free (.waiting ctx.enter) s → ∀ p, s ≠ .crashed p := by
  intro ha
  have hr : ∃ s ∈ GuardedRun.runAll (exec trackingGateway) GuardedRun.free
      (.waiting (newRequestContext "r" (newLLMRequest .openAIChatCompletion true [] (.tokens [104, 105]))
        (newStats 2 998)).enter) [.chunk (.of (textChunk "a")), .chunk (.of (textChunk "b"))],
      (s matches .crashed _) = true := by decide +kernel
  obtain ⟨s, hs, hc⟩ := GuardedRun.Reaches.of_exists hr
  cases s with
  | crashed p => exact ha trackingGateway "r" (.chat true 0 [] "hi".toList) _ _ rfl rfl hs p rfl
  | waiting | left => cases hc

end Llumnix.Chat
