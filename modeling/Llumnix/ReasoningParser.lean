/-
**The reasoning parser.**

Models that reason put their reasoning between two tags.  The detector of
`pkg/gateway/processor/reasoning-parser` is given the text in pieces and splits it into reasoning and
content.  A piece may end in the middle of a tag; what may become a tag is kept in a buffer.

* `Detector.erases_parse` — **what goes in comes out or stays in the buffer, but for tags**.
-/

import Llumnix.Erasure

namespace Llumnix.Chat

open Erasure List

/-- The texts of chunks and messages, character by character. -/
abbrev Text := List Char

structure Detector where
  thinkStartTag : Text
  thinkEndTag : Text
  inReasoning : Bool
  streamReasoning : Bool
  buffer : Text
  strippedThinkStart : Bool
deriving DecidableEq

variable (d : Detector)

variable (streamReasoning : Bool) (currentText : Text)

namespace Detector

def newBase (thinkStartTag thinkEndTag : Text) (forceReasoning streamReasoning : Bool) : Detector where
  thinkStartTag := thinkStartTag
  thinkEndTag := thinkEndTag
  inReasoning := forceReasoning
  streamReasoning := streamReasoning
  buffer := []
  strippedThinkStart := false

def reset : Detector :=
  { d with buffer := [], inReasoning := false, strippedThinkStart := false }

/-- A text that may still become one of the tags. -/
def MayBecomeTag : Prop :=
  ∃ tag ∈ [d.thinkStartTag, d.thinkEndTag], currentText <+: tag ∧ tag ≠ currentText

instance (d : Detector) (currentText : Text) : Decidable (d.MayBecomeTag currentText) := by
  unfold Detector.MayBecomeTag
  infer_instance

/-- Strips the start tag, the first time it is there. -/
def stripThinkStart : Detector × Text :=
  if d.strippedThinkStart = false ∧ (index d.thinkStartTag currentText).isSome then
    ({ d with strippedThinkStart := true, inReasoning := true }, replaceAll d.thinkStartTag [] currentText)
  else (d, currentText)

/-- The rest of `ParseStreamingIncrement`: the end tag, and what is let through without one. -/
def splitThinkEnd : Detector × Text × Text :=
  if d.inReasoning then
    match index d.thinkEndTag currentText with
    | some endIdx =>
      (d.reset, currentText.take endIdx, currentText.drop (endIdx + d.thinkEndTag.length))
    | none =>
      if d.streamReasoning then ({ d with buffer := [] }, currentText, []) else (d, [], [])
  else ({ d with buffer := [] }, [], currentText)

/-- `ParseStreamingIncrement`: the reasoning and the content that a piece of text brings out. -/
def parseStreamingIncrement (newText : Text) : Detector × Text × Text :=
  let currentText := d.buffer ++ newText
  let d := { d with buffer := currentText }
  if d.MayBecomeTag currentText then (d, [], [])
  else (d.stripThinkStart currentText).1.splitThinkEnd (d.stripThinkStart currentText).2

end Detector

def newDeepSeekR1Detector : Detector :=
  .newBase "<think>".toList "</think>".toList true streamReasoning

def newQwen3Detector (forceReasoning : Bool) : Detector :=
  .newBase "<think>".toList "</think>".toList forceReasoning streamReasoning

def newKimiDetector : Detector :=
  .newBase "◁think▷".toList "◁/think▷".toList false streamReasoning

def newReasoningParser (reasoningParser : String) (streamReasoning forceReasoning : Bool) :
    Except String Detector :=
  match reasoningParser.toLower with
  | "deepseek-r1" | "kimi_k2" | "step3" | "deepseek" => .ok (newDeepSeekR1Detector streamReasoning)
  | "qwen3" | "qwen3-thinking" | "deepseek-v3" | "minimax" | "glm45" =>
    .ok (newQwen3Detector streamReasoning forceReasoning)
  | "kimi" => .ok (newKimiDetector streamReasoning)
  | "" => .ok (newQwen3Detector true false)
  | _ => .error ("Unsupported reasoning parser: " ++ reasoningParser)

namespace Detector

/-! ### What a detector does with a text -/

def tags : List Text := [d.thinkStartTag, d.thinkEndTag]

/-- A detector that streams the reasoning, and whose tags are in brackets. -/
structure Sound (d : Detector) : Prop where
  streams : d.streamReasoning = true
  brackets : ∃ o c, ∀ tag ∈ d.tags, Bracketed o c tag

section

variable {d : Detector} {x : Text}

variable (d x)

@[simp] theorem tags_strip : (d.stripThinkStart x).1.tags = d.tags := by
  unfold stripThinkStart
  split <;> rfl

theorem streams_strip : (d.stripThinkStart x).1.streamReasoning = d.streamReasoning := by
  unfold stripThinkStart
  split <;> rfl

@[simp] theorem tags_split : (d.splitThinkEnd x).1.tags = d.tags := by
  unfold splitThinkEnd
  split
  · split
    · rfl
    · split <;> rfl
  · rfl

theorem streams_split : (d.splitThinkEnd x).1.streamReasoning = d.streamReasoning := by
  unfold splitThinkEnd
  split
  · split
    · rfl
    · split <;> rfl
  · rfl

theorem erases_strip : Erases d.tags x (d.stripThinkStart x).2 := by
  unfold stripThinkStart
  split
  · exact erases_replaceAll mem_cons_self x
  · exact Erases.refl x

variable {d x}

theorem split_spec (hs : d.streamReasoning = true) (x : Text) : (d.splitThinkEnd x).1.buffer = [] ∧
      Erases d.tags x ((d.splitThinkEnd x).2.1 ++ (d.splitThinkEnd x).2.2) := by
  unfold splitThinkEnd
  split
  · split
    next endIdx hi => exact ⟨rfl, erases_index (mem_cons_of_mem _ mem_cons_self) hi⟩
    next hi =>
      simp only [append_nil, true_and]
      exact Erases.refl x
  · exact ⟨rfl, Erases.refl x⟩

@[simp] theorem tags_parse (d : Detector) (x : Text) : (d.parseStreamingIncrement x).1.tags = d.tags := by
  unfold parseStreamingIncrement
  dsimp only
  split
  · rfl
  · rw [tags_split, tags_strip]
    rfl

theorem parse_of_mayBecomeTag (h : d.MayBecomeTag (d.buffer ++ x)) :
    d.parseStreamingIncrement x = ({ d with buffer := d.buffer ++ x }, [], []) :=
  if_pos h

theorem parse_eq_split (h : ¬ d.MayBecomeTag (d.buffer ++ x)) : d.parseStreamingIncrement x =
    (stripThinkStart { d with buffer := d.buffer ++ x } (d.buffer ++ x)).1.splitThinkEnd
      (stripThinkStart { d with buffer := d.buffer ++ x } (d.buffer ++ x)).2 :=
  if_neg h

theorem parse_of_not_mayBecomeTag (hd : d.streamReasoning = true) (h : ¬ d.MayBecomeTag (d.buffer ++ x)) :
    (d.parseStreamingIncrement x).1.buffer = [] ∧ Erases d.tags (d.buffer ++ x)
        ((d.parseStreamingIncrement x).2.1 ++ (d.parseStreamingIncrement x).2.2) := by
  have hst := (streams_strip { d with buffer := d.buffer ++ x } (d.buffer ++ x)).trans hd
  obtain ⟨hb, hs⟩ := split_spec hst (stripThinkStart { d with buffer := d.buffer ++ x } (d.buffer ++ x)).2
  rw [parse_eq_split h]
  refine ⟨hb, (erases_strip { d with buffer := d.buffer ++ x } (d.buffer ++ x)).trans ?_⟩
  rw [tags_strip] at hs
  exact hs

/-- **What goes in comes out or stays in the buffer, but for tags.** -/
theorem erases_parse (hd : d.streamReasoning = true) (x : Text) :
    Erases d.tags (d.buffer ++ x) ((d.parseStreamingIncrement x).2.1 ++ (d.parseStreamingIncrement x).2.2 ++
      (d.parseStreamingIncrement x).1.buffer) := by
  by_cases h : d.MayBecomeTag (d.buffer ++ x)
  · rw [parse_of_mayBecomeTag h]
    exact Erases.refl _
  · obtain ⟨hb, he⟩ := parse_of_not_mayBecomeTag hd h
    rw [hb, append_nil]
    exact he

theorem streams_parse (d : Detector) (x : Text) :
    (d.parseStreamingIncrement x).1.streamReasoning = d.streamReasoning := by
  unfold parseStreamingIncrement
  dsimp only
  split
  · rfl
  · rw [streams_split, streams_strip]

theorem Sound.parse (hd : d.Sound) (x : Text) : (d.parseStreamingIncrement x).1.Sound where
  streams := (streams_parse d x).trans hd.streams
  brackets := by
    rw [tags_parse]
    exact hd.brackets

/-- **The buffer holds the beginning of a tag and nothing else**, and then nothing has come out. -/
theorem buffer_parse (hd : d.streamReasoning = true) (x : Text) : (d.parseStreamingIncrement x).1.buffer = [] ∨
    d.MayBecomeTag (d.parseStreamingIncrement x).1.buffer ∧ (d.parseStreamingIncrement x).2 = ([], []) := by
  by_cases h : d.MayBecomeTag (d.buffer ++ x)
  · rw [parse_of_mayBecomeTag h]
    exact .inr ⟨h, rfl⟩
  · exact .inl (parse_of_not_mayBecomeTag hd h).1

end

end Detector

theorem bracketed_think : ∀ tag ∈ ["<think>".toList, "</think>".toList], Bracketed '<' '>' tag := by
  intro tag ht
  simp only [mem_cons, not_mem_nil, or_false] at ht
  rcases ht with rfl | rfl
  · exact ⟨by decide, "think".toList, by decide, by decide, by decide⟩
  · exact ⟨by decide, "/think".toList, by decide, by decide, by decide⟩

theorem bracketed_kimi : ∀ tag ∈ ["◁think▷".toList, "◁/think▷".toList], Bracketed '◁' '▷' tag := by
  intro tag ht
  simp only [mem_cons, not_mem_nil, or_false] at ht
  rcases ht with rfl | rfl
  · exact ⟨by decide, "think".toList, by decide, by decide, by decide⟩
  · exact ⟨by decide, "/think".toList, by decide, by decide, by decide⟩

/-- **Every parser the gateway makes is sound** and starts with an empty buffer. -/
theorem sound_newReasoningParser {name : String} {force : Bool} {d : Detector}
    (h : newReasoningParser name true force = .ok d) : d.Sound ∧ d.buffer = [] := by
  unfold newReasoningParser at h
  split at h <;> cases h
  all_goals first
    | exact ⟨⟨rfl, '<', '>', bracketed_think⟩, rfl⟩
    | exact ⟨⟨rfl, '◁', '▷', bracketed_kimi⟩, rfl⟩

end Llumnix.Chat
