/-
**Reading a chat.**

Both ways of answering a chat read the chunks in the same way: the text of a chunk goes through the two
parsers, what they let through is a *piece* of the answer, and the tokens are counted.  This module
describes the reading without the request around it, and what a stream makes of the pieces.

If a piece had both a text and a finish reason, its finish reason is kept for the end; if there was none,
the *last chunk* is read once more.  The end is the end marker, or the limit on the tokens; and when the end
marker has had a chunk read again, the limit is looked at again.

* `Processor.answer` — **the answer to any chunks and the end marker**.
-/

import Llumnix.ChunkProcessor

namespace Llumnix.Chat

open List Processor Option Nat

/-! ### Reading a chunk -/

/-- The parsers, the number of tokens of the texts so far, and that of the reasoning. -/
structure Reading (σ : Type) where
  detector : Detector
  tool : σ
  count : Nat
  reasoning : Nat
deriving DecidableEq

/-- What the parsers let through of a chunk, and the number of tokens up to it. -/
structure Piece where
  choice : CompletionChoice
  parsed : Parsed
  count : Nat
deriving DecidableEq

section

variable {σ : Type}
variable {resps : List CompletionResponse} {pieces : List Piece}

def Reading.exceeds (limit : Nat) (rd : Reading σ) : Bool :=
  limit ≠ 0 && limit ≤ (((rd.count : Int) - rd.reasoning) % (2 ^ 64 : Nat)).toNat

def Reading.start (d : Detector) (τ : σ) : Reading σ := ⟨d, τ, 0, 0⟩

theorem exceeds_start (limit : Nat) (d : Detector) (τ : σ) : (Reading.start d τ).exceeds limit = false := by
  simp [Reading.exceeds, Reading.start]

/-- How a chunk has been taken. -/
inductive Taken (σ : Type)
  | failed
  | stopped (rd : Reading σ) (piece : Option Piece)
  | more (rd : Reading σ) (piece : Option Piece)
  deriving DecidableEq

variable (γ : Processor σ) (limit : Nat) (tools : Text)

def Processor.read (rd : Reading σ) (resp : CompletionResponse) : Except String (Reading σ × Option Piece) :=
  match resp.choices with
  | [] => .ok (rd, none)
  | choice :: _ =>
    let count := rd.count + γ.getTokenLen choice.text
    match γ.parseText tools rd.detector rd.tool choice.text with
    | (_, .error e) => .error e
    | (p, .ok parsed) =>
      let reasoning := rd.reasoning + parsed.elim 0 fun parsed => γ.getTokenLen parsed.reasoningContent
      .ok (⟨p.1, p.2, count, reasoning⟩, parsed.map fun parsed => ⟨choice, parsed, count⟩)

/-- **Taking a chunk**: it is read, and the limit is looked at. -/
def Processor.take (rd : Reading σ) (resp : CompletionResponse) : Taken σ :=
  if 1 < resp.choices.length then .failed
  else
    match γ.read tools rd resp with
    | .error _ => .failed
    | .ok (rd, piece) => if rd.exceeds limit then .stopped rd piece else .more rd piece

/-- **Going through the chunks**, none of which ends the answer. -/
def Processor.through (rd : Reading σ) : List CompletionResponse → Option (Reading σ × List Piece)
  | [] => some (rd, [])
  | resp :: resps =>
    match γ.take limit tools rd resp with
    | .more rd piece => (through rd resps).map fun r => (r.1, piece.toList ++ r.2)
    | _ => none

variable {γ limit tools} {rd rd' rd'' : Reading σ} {resp : CompletionResponse} {piece : Option Piece}

/-! ### One chunk -/

theorem read_of_nil (h : resp.choices = []) : γ.read tools rd resp = .ok (rd, none) := by
  simp only [Processor.read, h]

theorem parseText_nil (d : Detector) (τ : σ) :
    γ.parseText tools d τ [] = ((d, τ), .ok (some ⟨[], [], []⟩)) := by
  rw [parseText, if_pos rfl]

theorem getTokenLen_nil : γ.getTokenLen [] = 0 := by
  rw [getTokenLen, if_pos rfl]

theorem read_of_text_nil {choice : CompletionChoice} (hr : resp.choices = [choice])
    (ht : choice.text = []) : γ.read tools rd resp = .ok (rd, some ⟨choice, ⟨[], [], []⟩, rd.count⟩) := by
  simp only [Processor.read, hr, ht, parseText_nil, getTokenLen_nil, elim_some, add_zero, map_some]

section

variable (h : γ.read tools rd resp = .ok (rd', piece))
include h

theorem choice_of_read :
    ∀ p ∈ piece, p.choice ∈ resp.choices := by
  intro p hp
  unfold Processor.read at h
  split at h
  · cases h
    cases hp
  next choice choices hc =>
    rw [hc]
    split at h
    · cases h
    next parsers parsed hpa =>
      cases h
      obtain ⟨q, -, rfl⟩ := map_eq_some_iff.1 hp
      exact mem_cons_self

end

theorem take_more_iff : γ.take limit tools rd resp = .more rd' piece ↔
    resp.choices.length ≤ 1 ∧ γ.read tools rd resp = .ok (rd', piece) ∧ rd'.exceeds limit = false := by
  unfold Processor.take
  grind

theorem take_stopped_iff : γ.take limit tools rd resp = .stopped rd' piece ↔
    resp.choices.length ≤ 1 ∧ γ.read tools rd resp = .ok (rd', piece) ∧ rd'.exceeds limit = true := by
  unfold Processor.take
  grind

/-- A chunk that fails has several choices, or the tool parser fails on it. -/
theorem take_failed_iff : γ.take limit tools rd resp = .failed ↔
    1 < resp.choices.length ∨ ∃ e, γ.read tools rd resp = .error e := by
  unfold Processor.take
  grind

theorem take_of_nil (hl : rd.exceeds limit = false) (h : resp.choices = []) :
    γ.take limit tools rd resp = .more rd none :=
  take_more_iff.2 ⟨by simp [h], read_of_nil h, hl⟩

/-! ### Several chunks -/

theorem through_cons (h : γ.take limit tools rd resp = .more rd' piece)
    (h' : γ.through limit tools rd' resps = some (rd'', pieces)) :
    γ.through limit tools rd (resp :: resps) = some (rd'', piece.toList ++ pieces) := by
  simp only [through, h, h', map_some]

theorem exists_of_through_cons (h : γ.through limit tools rd (resp :: resps) = some (rd'', pieces)) :
    ∃ rd' piece pieces', γ.take limit tools rd resp = .more rd' piece ∧
      γ.through limit tools rd' resps = some (rd'', pieces') ∧ pieces = piece.toList ++ pieces' := by
  unfold through at h
  split at h
  next rd₁ piece₁ ht =>
    obtain ⟨⟨rd₂, pieces'⟩, hr, ⟨⟩⟩ := map_eq_some_iff.1 h
    exact ⟨rd₁, piece₁, pieces', ht, hr, rfl⟩
  · cases h

theorem through_append (resps' : List CompletionResponse) : γ.through limit tools rd (resps ++ resps') =
    (γ.through limit tools rd resps).bind fun r =>
      (γ.through limit tools r.1 resps').map fun r' => (r'.1, r.2 ++ r'.2) := by
  induction resps generalizing rd with
  | nil => simp [through]
  | cons resp resps ih =>
    rw [cons_append, through, through]
    split
    · simp [ih, Option.bind_map, Option.map_bind, Function.comp_def]
    · rfl

theorem through_concat {pieces' : List Piece} (h : γ.through limit tools rd resps = some (rd', pieces)) :
    γ.through limit tools rd (resps ++ [resp]) = some (rd'', pieces') ↔
      ∃ piece, γ.take limit tools rd' resp = .more rd'' piece ∧ pieces' = pieces ++ piece.toList := by
  rw [through_append, h, bind_some]
  constructor
  · intro hl
    obtain ⟨⟨rd₁, rest⟩, hr, ⟨⟩⟩ := map_eq_some_iff.1 hl
    obtain ⟨rd₂, piece, pieces₂, ht, hn, rfl⟩ := exists_of_through_cons hr
    cases hn
    exact ⟨piece, ht, by rw [append_nil]⟩
  · rintro ⟨piece, ht, rfl⟩
    rw [through_cons ht rfl, map_some, append_nil]

theorem exceeds_of_through (hl : rd.exceeds limit = false)
    (h : γ.through limit tools rd resps = some (rd', pieces)) : rd'.exceeds limit = false := by
  induction resps generalizing rd pieces with
  | nil =>
    cases h
    exact hl
  | cons resp resps ih =>
    obtain ⟨rd₁, piece₁, pieces₁, ht, hr, -⟩ := exists_of_through_cons h
    exact ih (take_more_iff.1 ht).2.2 hr

theorem through_of_nil (hl : rd.exceeds limit = false) (h : ∀ resp ∈ resps, resp.choices = []) :
    γ.through limit tools rd resps = some (rd, []) := by
  induction resps with
  | nil => rfl
  | cons resp resps ih =>
    exact through_cons (take_of_nil hl (h resp mem_cons_self)) (ih fun r hr => h r (mem_cons_of_mem _ hr))

theorem forall_of_through {P : CompletionChoice → Prop} (h : γ.through limit tools rd resps = some (rd', pieces))
    (hP : ∀ r ∈ resps, ∀ c ∈ r.choices, P c) : ∀ p ∈ pieces, P p.choice := by
  induction resps generalizing rd pieces with
  | nil =>
    cases h
    exact forall_mem_nil _
  | cons resp resps ih =>
  obtain ⟨rd₁, piece, pieces', ht, hr, rfl⟩ := exists_of_through_cons h
  rw [forall_mem_cons] at hP
  refine forall_mem_append.2 ⟨fun p hp => hP.1 _ ?_, ih hr hP.2⟩
  exact choice_of_read (take_more_iff.1 ht).2.1 p (mem_toList.1 hp)

end

/-! ### What a stream shows of the pieces -/

def Piece.callsTools (p : Piece) : Bool := p.parsed.toolCalls ≠ []

/-- The piece in a stream, with the reported number of completion tokens, after pieces some of which may call
tools. -/
def Piece.show (hasToolCalls : Bool) (p : Piece) : StreamChoice × Nat :=
  ({ index := p.choice.index
     delta := ⟨"assistant", p.parsed.content, p.parsed.reasoningContent, p.parsed.toolCalls⟩
     finishReason := if needSplitLastResp p.choice then "" else streamFinishReason hasToolCalls p.choice },
    p.count)

def showAll (hasToolCalls : Bool) : List Piece → List (StreamChoice × Nat)
  | [] => []
  | p :: ps => p.show (hasToolCalls || p.callsTools) :: showAll (hasToolCalls || p.callsTools) ps

theorem showAll_append (hasToolCalls : Bool) (ps qs : List Piece) : showAll hasToolCalls (ps ++ qs) =
      showAll hasToolCalls ps ++ showAll (hasToolCalls || ps.any Piece.callsTools) qs := by
  induction ps generalizing hasToolCalls with
  | nil => simp [showAll]
  | cons p ps ih => simp [showAll, ih, Bool.or_assoc]

/-- The last piece with both a text and a finish reason. -/
def pending (ps : List Piece) : Option Piece := (ps.filter fun p => needSplitLastResp p.choice).getLast?

theorem pending_concat (ps : List Piece) (p : Piece) :
    pending (ps ++ [p]) = if needSplitLastResp p.choice then some p else pending ps := by
  unfold pending
  rw [filter_append]
  by_cases h : needSplitLastResp p.choice
  · simp [h]
  · simp [h]

theorem mem_of_pending {ps : List Piece} {p : Piece} (h : pending ps = some p) : p ∈ ps :=
  (mem_filter.1 (mem_of_getLast? h)).1

/-- The response in the end, with the finish reason of the pending piece. -/
def Piece.closing (p : Piece) : StreamChoice × Nat :=
  ({ index := 0, delta := ⟨"assistant", [], [], []⟩, finishReason := p.choice.finishReason }, p.count)

/-! ### The answer in a stream -/

section

variable {σ : Type}

/-- **The answer in the end**: the reading, the pieces, whose finish reason has been sent, and whether a chunk
has failed. -/
structure Answer (σ : Type) where
  reading : Reading σ
  pieces : List Piece
  closing : Option Piece
  failed : Bool

/-- What the client has been shown. -/
def Answer.shown (a : Answer σ) : List (StreamChoice × Nat) :=
  showAll false a.pieces ++ (a.closing.map Piece.closing).toList

variable (γ : Processor σ) (limit : Nat) (tools : Text)

/-- The last chunk is processed as the end: the kept finish reason is sent, or the chunk is read once more. -/
def Processor.finish (rd : Reading σ) (pieces : List Piece) (resp : CompletionResponse) : Answer σ :=
  match pending pieces with
  | some p => ⟨rd, pieces, some p, false⟩
  | none =>
    match γ.read tools rd resp with
    | .error _ => ⟨rd, pieces, none, true⟩
    | .ok (rd, piece) => ⟨rd, pieces ++ piece.toList, none, false⟩

/-- The end marker, after which the limit is looked at once more. -/
def Processor.done (rd : Reading σ) (pieces : List Piece) : Option CompletionResponse → Answer σ
  | none => ⟨rd, pieces, none, false⟩
  | some resp =>
    let a := γ.finish tools rd pieces resp
    if a.reading.exceeds limit then γ.finish tools a.reading a.pieces resp else a

/-- **The answer to these chunks and the end marker**, after others. -/
def Processor.answer (rd : Reading σ) (pieces : List Piece) (last : Option CompletionResponse) :
    List CompletionResponse → Answer σ
  | [] => γ.done limit tools rd pieces last
  | resp :: resps =>
    match γ.take limit tools rd resp with
    | .failed => ⟨rd, pieces, none, true⟩
    | .stopped rd piece => γ.finish tools rd (pieces ++ piece.toList) resp
    | .more rd piece => answer rd (pieces ++ piece.toList) (some resp) resps

variable {γ limit tools} {rd rd' : Reading σ} {pieces : List Piece} {last : Option CompletionResponse}
variable {resp : CompletionResponse} {piece : Option Piece} {resps : List CompletionResponse}

theorem finish_of_pending {p : Piece} (h : pending pieces = some p) :
    γ.finish tools rd pieces resp = ⟨rd, pieces, some p, false⟩ := by
  rw [finish, h]

theorem finish_of_read (h : pending pieces = none) (hr : γ.read tools rd resp = .ok (rd', piece)) :
    γ.finish tools rd pieces resp = ⟨rd', pieces ++ piece.toList, none, false⟩ := by
  simp only [finish, h, hr]

theorem finish_of_error {e : String} (h : pending pieces = none) (hr : γ.read tools rd resp = .error e) :
    γ.finish tools rd pieces resp = ⟨rd, pieces, none, true⟩ := by
  simp only [finish, h, hr]

theorem done_of_within (h : (γ.finish tools rd pieces resp).reading.exceeds limit = false) :
    γ.done limit tools rd pieces (some resp) = γ.finish tools rd pieces resp := by
  simp only [done, h]
  exact if_neg Bool.false_ne_true

theorem done_of_exceeds (h : (γ.finish tools rd pieces resp).reading.exceeds limit = true) :
    γ.done limit tools rd pieces (some resp) =
      γ.finish tools (γ.finish tools rd pieces resp).reading (γ.finish tools rd pieces resp).pieces resp := by
  simp only [done, h, if_true]

theorem answer_of_failed (h : γ.take limit tools rd resp = .failed) :
    γ.answer limit tools rd pieces last (resp :: resps) = ⟨rd, pieces, none, true⟩ := by
  rw [answer, h]

theorem answer_of_stopped (h : γ.take limit tools rd resp = .stopped rd' piece) :
    γ.answer limit tools rd pieces last (resp :: resps) = γ.finish tools rd' (pieces ++ piece.toList) resp := by
  rw [answer, h]

theorem answer_of_more (h : γ.take limit tools rd resp = .more rd' piece) :
    γ.answer limit tools rd pieces last (resp :: resps) =
      γ.answer limit tools rd' (pieces ++ piece.toList) (some resp) resps := by
  rw [answer, h]

/-- **The answer after chunks that do not end it.** -/
theorem answer_append {resps' : List CompletionResponse} {pieces' : List Piece}
    (h : γ.through limit tools rd resps = some (rd', pieces')) :
    γ.answer limit tools rd pieces last (resps ++ resps') =
      γ.answer limit tools rd' (pieces ++ pieces') (resps.getLast?.or last) resps' := by
  induction resps generalizing rd pieces pieces' last with
  | nil =>
    cases h
    rw [append_nil]
    rfl
  | cons resp resps ih =>
  obtain ⟨rd₁, piece, pieces₁, ht, hr, rfl⟩ := exists_of_through_cons h
  rw [cons_append, answer_of_more ht, ih hr, append_assoc]
  congr 1
  cases resps with
  | nil => rfl
  | cons resp' resps =>
    rw [getLast?_cons_cons, getLast?_eq_some_getLast (cons_ne_nil _ _)]
    rfl

theorem answer_of_nil (hl : rd.exceeds limit = false) (h : ∀ resp ∈ resps, resp.choices = []) :
    γ.answer limit tools rd pieces (some resp) resps =
      γ.done limit tools rd pieces (resps.getLast?.or (some resp)) := by
  rw [← append_nil resps, answer_append (through_of_nil hl h), append_nil, append_nil]
  rfl

/-- **The answer has ended before the other chunks.** -/
theorem answer_of_through_eq_none (resps' : List CompletionResponse)
    (h : γ.through limit tools rd resps = none) :
    γ.answer limit tools rd pieces last (resps ++ resps') = γ.answer limit tools rd pieces last resps := by
  induction resps generalizing rd pieces last with
  | nil => cases h
  | cons resp resps ih =>
  rw [cons_append, answer, answer]
  unfold through at h
  split at h
  next rd₁ piece ht =>
    rw [ht]
    exact ih (map_eq_none_iff.1 h)
  next hm =>
    split
    · rfl
    · rfl
    next rd₁ piece ht => exact absurd ht (hm rd₁ piece)

/-- The end sends what has been kept, and adds pieces of the last chunk. -/
theorem finish_spec (γ : Processor σ) (tools : Text) (rd : Reading σ) (pieces : List Piece)
    (resp : CompletionResponse) : ∃ extra, (γ.finish tools rd pieces resp).pieces = pieces ++ extra ∧
      (∀ p ∈ extra, p.choice ∈ resp.choices) ∧ (γ.finish tools rd pieces resp).closing = pending pieces := by
  cases hp : pending pieces with
  | some =>
    rw [finish_of_pending hp]
    exact ⟨[], (append_nil _).symm, forall_mem_nil _, rfl⟩
  | none =>
  cases hr : γ.read tools rd resp with
  | error =>
    rw [finish_of_error hp hr]
    exact ⟨[], (append_nil _).symm, forall_mem_nil _, rfl⟩
  | ok =>
    rw [finish_of_read hp hr]
    exact ⟨_, rfl, fun p hp => choice_of_read hr p (mem_toList.1 hp), rfl⟩

end

end Llumnix.Chat
