/-
**The texts of a chat and their tokens.**

If the tool parser lets every text through, the texts of the pieces, and what the detector keeps back, are
the texts of the chunks except for tags; and what is kept back is the beginning of a tag.  Each piece has
the number of tokens up to it, and these numbers tell where the last text was.

* `Tracks` — **the texts that have been read, and the pieces**;
* `Tallies` — **what the numbers of tokens of the pieces say about the chunks.**
-/

import Llumnix.ChatReading

namespace Llumnix.Chat

open Erasure List Option Nat CompletionResponse

/-! ### Texts and tokens -/

def CompletionResponse.text (resp : CompletionResponse) : Text :=
  (resp.choices.head?.map CompletionChoice.text).getD []

def CompletionResponse.finishReason (resp : CompletionResponse) : String :=
  (resp.choices.head?.map CompletionChoice.finishReason).getD ""

def texts (resps : List CompletionResponse) : Text := resps.flatMap text

def Processor.tokens {σ : Type} (γ : Processor σ) (resps : List CompletionResponse) : Nat :=
  (resps.map fun resp => γ.getTokenLen resp.text).sum

/-- The tool parser lets every text through. -/
def Processor.PassesText {σ : Type} (γ : Processor σ) : Prop :=
  ∀ τ content tools, ∃ reply, (γ.parseStreamIncremental τ content tools).2 = .ok reply ∧
    γ.parseResultFromString reply = some ⟨content, []⟩

/-- The tokenizer finds a token in every text. -/
def Processor.FindsTokens {σ : Type} (γ : Processor σ) : Prop :=
  ∀ text, text ≠ [] → ∃ n, γ.encode text = some n ∧ 0 < n

/-! ### How the chunks end -/

def Detector.after (d : Detector) (resps : List CompletionResponse) : Detector :=
  resps.foldl (fun d resp => if resp.text = [] then d else (d.parseStreamingIncrement resp.text).1) d

/-- After these chunks something of the text of the chunk is let through. -/
def Detector.Passes (d : Detector) (resps : List CompletionResponse) (resp : CompletionResponse) : Prop :=
  ((d.after resps).parseStreamingIncrement resp.text).2 ≠ ([], [])

/-- After these chunks the finish reason of the chunk is kept for the end. -/
structure Detector.Keeps (d : Detector) (resps : List CompletionResponse) (resp : CompletionResponse) :
    Prop where
  text : resp.text ≠ []
  finish : resp.finishReason ≠ ""
  passes : d.Passes resps resp

/-- No finish reason is kept. -/
def Detector.KeepsNone (d : Detector) (resps : List CompletionResponse) : Prop :=
  ∀ front resp rest, resps = front ++ resp :: rest → ¬ d.Keeps front resp

/-- The last chunk with a text, and those after it. -/
structure LastText (resps front : List CompletionResponse) (resp : CompletionResponse)
    (rest : List CompletionResponse) : Prop where
  split : resps = front ++ resp :: rest
  text : resp.text ≠ []
  silent : ∀ r ∈ rest, r.text = []

/-! ### One more chunk -/

section

variable {resp : CompletionResponse} {choice : CompletionChoice}
variable {resps front rest : List CompletionResponse} {r : CompletionResponse}

theorem text_of_nil (h : resp.choices = []) : resp.text = [] := by
  rw [text, h]
  rfl

theorem text_of_choice (h : resp.choices = [choice]) : resp.text = choice.text := by
  rw [text, h]
  rfl

theorem finishReason_of_choice (h : resp.choices = [choice]) : resp.finishReason = choice.finishReason := by
  rw [finishReason, h]
  rfl

section

variable (resps resp)

theorem texts_concat : texts (resps ++ [resp]) = texts resps ++ resp.text := by
  simp [texts]

theorem tokens_concat {σ : Type} (γ : Processor σ) :
    γ.tokens (resps ++ [resp]) = γ.tokens resps + γ.getTokenLen resp.text := by
  simp [Processor.tokens]

theorem after_concat (d : Detector) : d.after (resps ++ [resp]) =
      if resp.text = [] then d.after resps else ((d.after resps).parseStreamingIncrement resp.text).1 := by
  rw [Detector.after, foldl_append]
  rfl

end

theorem concat_eq_append_cons (h : resps ++ [resp] = front ++ r :: rest) :
    front = resps ∧ r = resp ∧ rest = [] ∨ ∃ rest', rest = rest' ++ [resp] ∧ resps = front ++ r :: rest' := by
  rcases eq_nil_or_concat rest with rfl | ⟨rest', x, rfl⟩
  · obtain ⟨rfl, ⟨⟩⟩ := append_inj' h rfl
    exact .inl ⟨rfl, rfl, rfl⟩
  · rw [concat_eq_append] at h ⊢
    rw [← cons_append, ← append_assoc] at h
    obtain ⟨rfl, ⟨⟩⟩ := append_inj' h rfl
    exact .inr ⟨rest', rfl, rfl⟩

theorem keepsNone_concat {d : Detector} :
    d.KeepsNone (resps ++ [resp]) ↔ d.KeepsNone resps ∧ ¬ d.Keeps resps resp := by
  constructor
  · intro h
    refine ⟨?_, h resps resp [] rfl⟩
    rintro front r rest rfl
    exact h front r (rest ++ [resp]) (by simp)
  · rintro ⟨h, hl⟩ front r rest hs
    rcases concat_eq_append_cons hs with ⟨rfl, rfl, rfl⟩ | ⟨rest', rfl, hs'⟩
    · exact hl
    · exact h front r rest' hs'

theorem lastText_concat_of_text (ht : resp.text ≠ []) :
    LastText (resps ++ [resp]) front r rest ↔ front = resps ∧ r = resp ∧ rest = [] := by
  constructor
  · rintro ⟨hsp, -, hs⟩
    rcases concat_eq_append_cons hsp with heq | ⟨rest', rfl, -⟩
    · exact heq
    · exact absurd (hs resp (by simp)) ht
  · rintro ⟨rfl, rfl, rfl⟩
    exact ⟨rfl, ht, forall_mem_nil _⟩

theorem lastText_concat_of_nil (ht : resp.text = []) :
    LastText (resps ++ [resp]) front r rest ↔ ∃ rest', rest = rest' ++ [resp] ∧ LastText resps front r rest' := by
  constructor
  · rintro ⟨hsp, hr, hs⟩
    rcases concat_eq_append_cons hsp with ⟨rfl, rfl, rfl⟩ | ⟨rest', rfl, hs'⟩
    · exact absurd ht hr
    · exact ⟨rest', rfl, hs', hr, fun x hx => hs x (mem_append_left _ hx)⟩
  · rintro ⟨rest', rfl, rfl, hr, hs⟩
    exact ⟨by simp, hr, forall_mem_append.2 ⟨hs, by simpa using ht⟩⟩

theorem exists_lastText (hm : resp ∈ resps) (ht : resp.text ≠ []) :
    ∃ front r rest, LastText resps front r rest := by
  induction resps using reverseRecOn with
  | nil => cases hm
  | append_singleton resps last ih =>
  by_cases hl : last.text = []
  · have hne : resp ≠ last := fun he => ht (he ▸ hl)
    obtain ⟨front, r, rest, h⟩ := ih (by simpa [hne] using hm)
    exact ⟨front, r, rest ++ [last], (lastText_concat_of_nil hl).2 ⟨rest, rfl, h⟩⟩
  · exact ⟨resps, last, [], (lastText_concat_of_text hl).2 ⟨rfl, rfl, rfl⟩⟩

theorem LastText.mem_of_getLast? {last : CompletionResponse} (h : LastText resps front r rest)
    (hl : resps.getLast? = some last) (ht : last.text = []) : last ∈ rest := by
  obtain ⟨rfl, hr, -⟩ := h
  cases rest with
  | nil =>
    rw [getLast?_concat] at hl
    cases hl
    exact absurd ht hr
  | cons =>
    rw [getLast?_append_of_ne_nil _ (cons_ne_nil _ _), getLast?_cons_cons] at hl
    exact mem_of_getLast? hl

end

/-! ### Reading a chunk with a parser that lets everything through -/

/-- What reading a chunk does, if the tool parser lets every text through. -/
inductive Reads {σ : Type} (γ : Processor σ) (rd : Reading σ) (resp : CompletionResponse) (rd' : Reading σ) :
    Option Piece → Prop
  | silent (hnil : resp.choices = []) (hrd : rd' = rd) : Reads γ rd resp rd' none
  | empty (choice : CompletionChoice) (hresp : resp.choices = [choice]) (htext : choice.text = [])
      (hrd : rd' = rd) : Reads γ rd resp rd' (some ⟨choice, ⟨[], [], []⟩, rd.count⟩)
  | held (choice : CompletionChoice) (hresp : resp.choices = [choice]) (htext : choice.text ≠ [])
      (hdetector : rd'.detector = (rd.detector.parseStreamingIncrement choice.text).1)
      (hcount : rd'.count = rd.count + γ.getTokenLen choice.text)
      (hparse : (rd.detector.parseStreamingIncrement choice.text).2 = ([], [])) : Reads γ rd resp rd' none
  | passed (choice : CompletionChoice) (hresp : resp.choices = [choice]) (htext : choice.text ≠ [])
      (hdetector : rd'.detector = (rd.detector.parseStreamingIncrement choice.text).1)
      (hcount : rd'.count = rd.count + γ.getTokenLen choice.text)
      (hparse : (rd.detector.parseStreamingIncrement choice.text).2 ≠ ([], [])) (p : Parsed)
      (hp : (p.reasoningContent, p.content) = (rd.detector.parseStreamingIncrement choice.text).2) :
      Reads γ rd resp rd' (some ⟨choice, p, rd'.count⟩)

section

variable {σ : Type} {γ : Processor σ}

theorem getTokenLen_pos (hto : γ.FindsTokens) {text : Text} (ht : text ≠ []) : 0 < γ.getTokenLen text := by
  obtain ⟨n, hn, hpo⟩ := hto text ht
  rwa [Processor.getTokenLen, if_neg ht, hn, getD_some]

theorem exists_read (hpa : γ.PassesText) (tools : Text) (rd : Reading σ) {resp : CompletionResponse}
    (hon : resp.choices.length ≤ 1) :
    ∃ rd' piece, γ.read tools rd resp = .ok (rd', piece) ∧ Reads γ rd resp rd' piece := by
  match hr : resp.choices with
  | [] => exact ⟨rd, none, read_of_nil hr, .silent hr rfl⟩
  | [choice] =>
    by_cases ht : choice.text = []
    · exact ⟨rd, _, read_of_text_nil hr ht, .empty choice hr ht rfl⟩
    obtain ⟨τ', hp⟩ : ∃ τ', γ.parseText tools rd.detector rd.tool choice.text = ((_, τ'), .ok (Parsed.output
        ⟨_, (rd.detector.parseStreamingIncrement choice.text).2.2, []⟩)) := by
      simp only [Processor.parseText, if_neg ht]
      by_cases hc : (rd.detector.parseStreamingIncrement choice.text).2.2 = []
      · rw [if_pos hc, hc]
        exact ⟨rd.tool, rfl⟩
      · obtain ⟨reply, hre, hrs⟩ := hpa rd.tool (rd.detector.parseStreamingIncrement choice.text).2.2 tools
        simp only [if_neg hc, hre, hrs]
        exact ⟨_, rfl⟩
    simp only [Processor.read, hr, hp]
    by_cases hn : (rd.detector.parseStreamingIncrement choice.text).2 = ([], [])
    · rw [hn]
      exact ⟨_, _, rfl, .held choice hr ht rfl rfl hn⟩
    · have ho : Parsed.output ⟨(rd.detector.parseStreamingIncrement choice.text).2.1,
          (rd.detector.parseStreamingIncrement choice.text).2.2, []⟩ = some _ :=
        if_neg fun ha => hn (Prod.ext ha.1 ha.2.1)
      rw [ho]
      exact ⟨_, _, rfl, .passed choice hr ht rfl rfl hn _ rfl⟩
  | c₁ :: c₂ :: cs =>
    rw [hr] at hon
    simp at hon

end

/-! ### The texts of the pieces -/

def pieceTexts (pieces : List Piece) : Text :=
  pieces.flatMap fun p => p.parsed.reasoningContent ++ p.parsed.content

theorem pieceTexts_concat (pieces : List Piece) (p : Piece) :
    pieceTexts (pieces ++ [p]) = pieceTexts pieces ++ (p.parsed.reasoningContent ++ p.parsed.content) := by
  simp [pieceTexts]

section

variable {σ : Type} {γ : Processor σ} {d : Detector} {resps : List CompletionResponse} {rd : Reading σ}
  {pieces : List Piece}
variable {resp : CompletionResponse} {rd' : Reading σ} {count : Nat}

/-- **The texts that have been read, and the pieces**: what the detector keeps back is the beginning of a
tag. -/
structure Tracks (γ : Processor σ) (d : Detector) (resps : List CompletionResponse) (rd : Reading σ)
    (pieces : List Piece) : Prop where
  detector : rd.detector = d.after resps
  sound : rd.detector.Sound
  tags : rd.detector.tags = d.tags
  buffer : rd.detector.buffer = [] ∨ ∃ tag ∈ d.tags, rd.detector.buffer <+: tag ∧ tag ≠ rd.detector.buffer
  erases : Erases d.tags (texts resps) (pieceTexts pieces ++ rd.detector.buffer)
  count : rd.count = γ.tokens resps

theorem Tracks.start (hs : d.Sound) (hb : d.buffer = []) (τ : σ) : Tracks γ d [] (.start d τ) [] where
  detector := rfl
  sound := hs
  tags := rfl
  buffer := .inl hb
  erases := by
    rw [Reading.start, hb]
    exact Erases.refl _
  count := rfl

section

variable (h : Tracks γ d resps rd pieces)
include h

theorem Tracks.of_text_nil (ht : resp.text = [])
    {pieces' : List Piece} (hp : pieceTexts pieces' = pieceTexts pieces) :
    Tracks γ d (resps ++ [resp]) rd pieces' where
  detector := by rw [after_concat, if_pos ht, h.detector]
  sound := h.sound
  tags := h.tags
  buffer := h.buffer
  erases := by
    rw [texts_concat, ht, append_nil, hp]
    exact h.erases
  count := by rw [tokens_concat, ht, getTokenLen_nil, add_zero, h.count]

theorem Tracks.of_parse (ht : resp.text ≠ [])
    (hde : rd'.detector = (rd.detector.parseStreamingIncrement resp.text).1)
    (hc : rd'.count = rd.count + γ.getTokenLen resp.text) {pieces' : List Piece}
    (hpi : pieceTexts pieces' = pieceTexts pieces ++ ((rd.detector.parseStreamingIncrement resp.text).2.1 ++
      (rd.detector.parseStreamingIncrement resp.text).2.2)) : Tracks γ d (resps ++ [resp]) rd' pieces' where
  detector := by rw [after_concat, if_neg ht, hde, h.detector]
  sound := by
    rw [hde]
    exact h.sound.parse _
  tags := by rw [hde, Detector.tags_parse, h.tags]
  buffer := by
    rw [hde, ← h.tags]
    rcases Detector.buffer_parse h.sound.streams resp.text with hn | ⟨hm, -⟩
    · exact .inl hn
    · exact .inr hm
  erases := by
    -- the new text is parsed behind what was kept back
    have hp := Detector.erases_parse h.sound.streams resp.text
    rw [h.tags] at hp
    have hb := h.erases.append (Erases.refl resp.text)
    have ha := (Erases.refl (pieceTexts pieces)).append hp
    rw [texts_concat, hpi, hde]
    rw [append_assoc] at hb ⊢
    exact hb.trans ha
  count := by rw [tokens_concat, hc, h.count]

theorem Tracks.reads {piece : Option Piece}
    (hre : Reads γ rd resp rd' piece) : Tracks γ d (resps ++ [resp]) rd' (pieces ++ piece.toList) := by
  cases hre with
  | silent hn hrd =>
    subst hrd
    refine h.of_text_nil (text_of_nil hn) ?_
    rw [toList_none, append_nil]
  | empty choice hr ht hrd =>
    subst hrd
    refine h.of_text_nil ((text_of_choice hr).trans ht) ?_
    rw [toList_some, pieceTexts_concat]
    exact append_nil _
  | held choice hr ht hde hc hpa =>
    rw [← text_of_choice hr] at ht hde hc hpa
    refine h.of_parse ht hde hc ?_
    rw [toList_none, append_nil, hpa]
    exact (append_nil _).symm
  | passed choice hr ht hde hc hpa p hp =>
    rw [← text_of_choice hr] at ht hde hc hpa hp
    refine h.of_parse ht hde hc ?_
    rw [toList_some, pieceTexts_concat, ← hp]

/-- The texts have been let through if and only if nothing is kept back. -/
theorem Tracks.erases_iff :
    Erases d.tags (texts resps) (pieceTexts pieces) ↔ (d.after resps).buffer = [] := by
  rw [← h.detector]
  have he := h.erases
  constructor
  · intro ha
    by_contra hne
    obtain ⟨tag, ht, hbe, hp⟩ := h.buffer.resolve_left hne
    obtain ⟨o, c, hb⟩ := h.sound.brackets
    rw [h.tags] at hb
    exact not_erases_of_beginning hb he ht hbe (Ne.symm hp) hne ha
  · intro hn
    rw [hn, append_nil] at he
    exact he

end

/-! ### The numbers of tokens -/

/-- The number of tokens up to the last piece. -/
def lastCount (pieces : List Piece) : Nat := (pieces.getLast?.map Piece.count).getD 0

theorem lastCount_concat (pieces : List Piece) (p : Piece) : lastCount (pieces ++ [p]) = p.count := by
  simp [lastCount]

/-- The last text is let through, or followed by a choice. -/
def ReportsAll (d : Detector) (resps : List CompletionResponse) : Prop :=
  ∀ front resp rest, LastText resps front resp rest → d.Passes front resp ∨ ∃ r ∈ rest, r.choices ≠ []

/-- **What the numbers of tokens of the pieces say about the chunks.** -/
structure Tallies (d : Detector) (resps : List CompletionResponse) (count : Nat) (pieces : List Piece) :
    Prop where
  bound : ∀ p ∈ pieces, p.count ≤ count
  none_iff : pending pieces = none ↔ d.KeepsNone resps
  kept_iff : ∀ front resp rest, LastText resps front resp rest →
    ((∃ p, pending pieces = some p ∧ p.count = count) ↔ d.Keeps front resp)
  last_iff : lastCount pieces = count ↔ ReportsAll d resps

theorem Tallies.start (d : Detector) : Tallies d [] 0 [] where
  bound := forall_mem_nil _
  none_iff := by
    exact iff_of_true rfl fun front resp rest hs => absurd hs.symm (by simp)
  kept_iff := fun front resp rest h => absurd h.split.symm (by simp)
  last_iff := iff_of_true rfl fun front resp rest h => absurd h.split.symm (by simp)

section

variable (h : Tallies d resps count pieces)
include h

theorem Tallies.lastCount_le : lastCount pieces ≤ count := by
  unfold lastCount
  cases hl : pieces.getLast? with
  | none => exact zero_le _
  | some p => exact h.bound p (mem_of_getLast? hl)

theorem Tallies.silent (hn : resp.choices = []) : Tallies d (resps ++ [resp]) count pieces where
  bound := h.bound
  none_iff := by
    have hnt : ¬ d.Keeps resps resp := fun hk => hk.text (text_of_nil hn)
    rw [keepsNone_concat, h.none_iff, and_iff_left hnt]
  kept_iff := by
    intro front r rest hl
    obtain ⟨rest', -, hl'⟩ := (lastText_concat_of_nil (text_of_nil hn)).1 hl
    exact h.kept_iff front r rest' hl'
  last_iff := by
    rw [h.last_iff]
    constructor
    · intro ha front r rest hl
      obtain ⟨rest', rfl, hl'⟩ := (lastText_concat_of_nil (text_of_nil hn)).1 hl
      rcases ha front r rest' hl' with hp | ⟨x, hx, hne⟩
      · exact .inl hp
      · exact .inr ⟨x, mem_append_left _ hx, hne⟩
    · intro ha front r rest hl
      rcases ha front r (rest ++ [resp]) ((lastText_concat_of_nil (text_of_nil hn)).2 ⟨rest, rfl, hl⟩)
        with hp | ⟨x, hx, hne⟩
      · exact .inl hp
      · rcases mem_append.1 hx with hx | hx
        · exact .inr ⟨x, hx, hne⟩
        · rw [mem_singleton.1 hx] at hne
          exact absurd hn hne

/-- A chunk with a choice and without a text reports the number of tokens. -/
theorem Tallies.empty {choice : CompletionChoice} (hr : resp.choices = [choice]) (ht : choice.text = []) :
    Tallies d (resps ++ [resp]) count (pieces ++ [⟨choice, ⟨[], [], []⟩, count⟩]) := by
  have hn : resp.text = [] := (text_of_choice hr).trans ht
  have hpe : pending (pieces ++ [⟨choice, ⟨[], [], []⟩, count⟩]) = pending pieces := by
    rw [pending_concat, if_neg fun hs => hs.2 ht]
  have hnt : ¬ d.Keeps resps resp := fun hk => hk.text hn
  refine ⟨?_, ?_, ?_, ?_⟩
  · exact forall_mem_append.2 ⟨h.bound, by simp⟩
  · rw [hpe, keepsNone_concat, h.none_iff, and_iff_left hnt]
  · intro front r rest hl
    obtain ⟨rest', -, hl'⟩ := (lastText_concat_of_nil hn).1 hl
    rw [hpe]
    exact h.kept_iff front r rest' hl'
  · refine iff_of_true (lastCount_concat _ _) ?_
    intro front r rest hl
    obtain ⟨rest', rfl, -⟩ := (lastText_concat_of_nil hn).1 hl
    exact .inr ⟨resp, by simp, by rw [hr]; exact cons_ne_nil _ _⟩

theorem Tallies.held (ht : resp.text ≠ [])
    (hh : ¬ d.Passes resps resp) {count' : Nat} (hc : count < count') :
    Tallies d (resps ++ [resp]) count' pieces where
  bound := fun p hp => le_trans (h.bound p hp) (le_of_lt hc)
  none_iff := by
    have hno : ¬ d.Keeps resps resp := fun hk => hh hk.passes
    rw [keepsNone_concat, h.none_iff, and_iff_left hno]
  kept_iff := by
    intro front r rest hl
    obtain ⟨rfl, rfl, rfl⟩ := (lastText_concat_of_text ht).1 hl
    refine iff_of_false ?_ fun hk => hh hk.passes
    rintro ⟨p, hp, heq⟩
    have hle := h.bound p (mem_of_pending hp)
    omega
  last_iff := by
    refine iff_of_false ?_ ?_
    · have hle := h.lastCount_le
      omega
    · intro ha
      rcases ha resps resp [] ((lastText_concat_of_text ht).2 ⟨rfl, rfl, rfl⟩) with hpa | ⟨r, hr, -⟩
      · exact hh hpa
      · cases hr

theorem Tallies.passed (ht : resp.text ≠ [])
    (hpa : d.Passes resps resp) (p : Piece) (hp : p.choice.text = resp.text)
    (hf : p.choice.finishReason = resp.finishReason) (hc : count < p.count) :
    Tallies d (resps ++ [resp]) p.count (pieces ++ [p]) := by
  have hs : needSplitLastResp p.choice ↔ d.Keeps resps resp := by
    rw [needSplitLastResp, hp, hf]
    exact ⟨fun hb => ⟨ht, hb.1, hpa⟩, fun hk => ⟨hk.finish, ht⟩⟩
  have hpe := pending_concat pieces p
  refine ⟨?_, ?_, ?_, ?_⟩
  · exact forall_mem_append.2 ⟨fun q hq => le_trans (h.bound q hq) (le_of_lt hc), by simp⟩
  · rw [hpe, keepsNone_concat, ← hs, ← h.none_iff]
    by_cases hk : needSplitLastResp p.choice
    · rw [if_pos hk]
      exact iff_of_false (fun hn => nomatch hn) fun hb => hb.2 hk
    · rw [if_neg hk, and_iff_left hk]
  · intro front r rest hl
    obtain ⟨rfl, rfl, rfl⟩ := (lastText_concat_of_text ht).1 hl
    rw [hpe, ← hs]
    by_cases hk : needSplitLastResp p.choice
    · rw [if_pos hk]
      exact iff_of_true ⟨p, rfl, rfl⟩ hk
    · rw [if_neg hk]
      refine iff_of_false ?_ hk
      rintro ⟨q, hq, heq⟩
      have hle := h.bound q (mem_of_pending hq)
      omega
  · refine iff_of_true (lastCount_concat _ _) ?_
    intro front r rest hl
    obtain ⟨rfl, rfl, rfl⟩ := (lastText_concat_of_text ht).1 hl
    exact .inl hpa

end

theorem Tallies.reads (hto : γ.FindsTokens) (h : Tallies d resps rd.count pieces)
    (hde : rd.detector = d.after resps) {piece : Option Piece} (hre : Reads γ rd resp rd' piece) :
    Tallies d (resps ++ [resp]) rd'.count (pieces ++ piece.toList) := by
  have hm : ∀ text : Text, text ≠ [] → rd.count < rd.count + γ.getTokenLen text :=
    fun text ht => Nat.lt_add_of_pos_right (getTokenLen_pos hto ht)
  cases hre with
  | silent hni hrd =>
    rw [toList_none, append_nil, hrd]
    exact h.silent hni
  | empty choice hr ht hrd =>
    rw [hrd]
    exact h.empty hr ht
  | held choice hr ht hd hc hpa =>
    rw [← text_of_choice hr] at ht hc hpa
    rw [toList_none, append_nil]
    exact h.held ht (fun hps => hps (hde ▸ hpa)) (hc ▸ hm _ ht)
  | passed choice hr ht hd hc hpa p =>
  have ht' := text_of_choice hr
  rw [← ht'] at ht hc hpa
  rw [hde] at hpa
  exact h.passed ht hpa ⟨choice, p, rd'.count⟩ ht'.symm (finishReason_of_choice hr).symm (hc ▸ hm _ ht)

end

end Llumnix.Chat
