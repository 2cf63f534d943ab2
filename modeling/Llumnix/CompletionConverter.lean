/-
**From a chat request to the completion request that the backends get.**

`RequestCompletionConverter.PreProcess` (`pkg/gateway/processor/request_completion_convertor.go`) turns a chat
request into a completion request: the messages become the tokens of a prompt, the sampling fields are copied,
and the limit on the output is the client's, or else what the model length leaves after the prompt, in
`uint64`.  Floating point numbers are kept as their bits, since they are only copied.

* `preserves_iff` — **the conversion preserves the request if the two penalties are equal and the prompt
  leaves room in the model**; the frequency penalty is copied from the presence penalty, and the length of
  the prompt is never looked at.
-/

import Llumnix.ChatStream

namespace Llumnix.Chat

/-- The fields that `ChatCompletionRequest` and `CompletionRequest` share. -/
structure Sampling where
  model : String
  frequencyPenalty : BitVec 32
  n : BitVec 64
  presencePenalty : BitVec 32
  stop : List String
  seed : Option (BitVec 64)
  temperature : Option (BitVec 32)
  topP : BitVec 32
  user : String
  deriving DecidableEq

/-- What the converter reads of a chat request. -/
structure ChatCompletionRequest extends Sampling where
  maxTokens : BitVec 64
  rawData : Text

structure CompletionRequest extends Sampling where
  id : String
  prompt : PromptValue
  maxTokens : Nat
  stream : Bool
  includeUsage : Bool
  continuousUsageStats : Bool

section

variable {σ : Type} (γ : Gateway σ) (id : String) (chat : ChatCompletionRequest)

/-- `PreProcess` of a chat request. -/
def Gateway.preProcessChat : Except String CompletionRequest :=
  match γ.preProcessChatRequest chat.rawData with
  | none => .error "failed to apply tokenizer template"
  | some (promptTokens, tokenIds) => .ok
    { id := id
      model := chat.model
      frequencyPenalty := chat.presencePenalty
      n := chat.n
      presencePenalty := chat.presencePenalty
      stop := chat.stop
      seed := chat.seed
      stream := true
      includeUsage := true
      continuousUsageStats := true
      temperature := chat.temperature
      topP := chat.topP
      user := chat.user
      maxTokens := γ.generateMaxTokens promptTokens chat.maxTokens.toInt
      prompt := .tokens tokenIds }

/-- **The conversion preserves the request**: what it accepts keeps its sampling fields and gets a positive
limit, within the model length if the client gave none; a prompt longer than that is not accepted. -/
def Preserves (promptTokens : Nat) : Prop :=
  ∀ c, γ.preProcessChat id chat = .ok c → c.toSampling = chat.toSampling ∧ 0 < c.maxTokens ∧
    (chat.maxTokens = 0 → promptTokens + c.maxTokens ≤ γ.modelMaxLen) ∧ promptTokens ≤ γ.modelMaxLen

variable {γ id chat} {promptTokens : Nat} {tokenIds : List Nat}

theorem generateMaxTokens_pos (h : chat.maxTokens ≠ 0) :
    0 < γ.generateMaxTokens promptTokens chat.maxTokens.toInt := by
  have hn : chat.maxTokens.toNat ≠ 0 := fun h0 => h (BitVec.eq_of_toNat_eq h0)
  have hi := BitVec.toInt_eq_toNat_cond chat.maxTokens
  have hlt := chat.maxTokens.isLt
  rw [Gateway.generateMaxTokens, if_pos (by split at hi <;> omega)]
  split at hi <;> omega

/-- Without a limit of the client the prompt has to leave room: the difference is taken modulo `2 ^ 64`. -/
theorem generateMaxTokens_zero (hm : γ.modelMaxLen < 2 ^ 64) (hp : promptTokens < 2 ^ 64) :
    (0 < γ.generateMaxTokens promptTokens 0 ∧
      promptTokens + γ.generateMaxTokens promptTokens 0 ≤ γ.modelMaxLen) ↔ promptTokens < γ.modelMaxLen := by
  rw [Gateway.generateMaxTokens, if_neg (by simp)]
  omega

/-- **When the conversion preserves the request.** -/
theorem preserves_iff (hm : γ.modelMaxLen < 2 ^ 64) (hp : promptTokens < 2 ^ 64)
    (ht : γ.preProcessChatRequest chat.rawData = some (promptTokens, tokenIds)) :
    Preserves γ id chat promptTokens ↔ chat.frequencyPenalty = chat.presencePenalty ∧
      promptTokens ≤ γ.modelMaxLen ∧ (chat.maxTokens = 0 → promptTokens < γ.modelMaxLen) := by
  have hs : ∀ s : Sampling, { s with frequencyPenalty := s.presencePenalty } = s ↔
      s.frequencyPenalty = s.presencePenalty := by
    rintro ⟨⟩
    simp [eq_comm]
  simp only [Preserves, Gateway.preProcessChat, ht, Except.ok.injEq, forall_eq', hs]
  by_cases hz : chat.maxTokens = 0
  · have hg := generateMaxTokens_zero (γ := γ) hm hp
    simp only [hz, forall_const, ← hg]
    tauto
  · simp only [hz, IsEmpty.forall_iff, true_and, and_true, generateMaxTokens_pos hz]

end

/-- A chat of two tokens, with these penalties and without a limit. -/
def penalized (frequencyPenalty presencePenalty : BitVec 32) : ChatCompletionRequest where
  model := "m"
  frequencyPenalty := frequencyPenalty
  n := 1
  presencePenalty := presencePenalty
  stop := []
  seed := none
  temperature := none
  topP := 0
  user := ""
  maxTokens := 0
  rawData := "hi".toList

theorem preserves_penalized : Preserves plainGateway "r" (penalized 0 0) 2 :=
  (preserves_iff (by decide) (by decide) rfl).2 ⟨rfl, by decide, fun _ => by decide⟩

/-- **A frequency penalty alone is dropped.** -/
theorem frequency_penalty_dropped : ¬ Preserves plainGateway "r" (penalized 1 0) 2 := by
  intro h
  have hs := (h _ rfl).1
  exact absurd (congrArg Sampling.frequencyPenalty hs) (by decide)

end Llumnix.Chat
