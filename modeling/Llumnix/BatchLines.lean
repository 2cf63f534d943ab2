/-
**Lines: reading and writing them, cutting a file into shards, answering them.**

`WriteLines` and `ReadLines` are inverse to each other on lines without a newline, and appending one written
file to another appends their lines.  The validating reactor cuts the non-blank lines of the input into
shards; the in-progress reactor makes one response line of every request line.

* `flatten_shardPlan` — **the shards of a file together are its non-blank lines**.
-/

import Llumnix.BatchReactor

namespace Llumnix.Batch

open Interaction List

variable {lines : List Bytes} {content line : Bytes}

/-! ### Line files -/

/-- Every line with a newline after it. -/
def unlines (lines : List Bytes) : Bytes := lines.flatMap fun line => line ++ [newline]

@[simp] theorem unlines_append (lines lines' : List Bytes) :
    unlines (lines ++ lines') = unlines lines ++ unlines lines' :=
  flatMap_append

theorem joinLines_eq_unlines : ∀ {lines : List Bytes}, lines ≠ [] → joinLines lines = unlines lines
  | [line], _ => by simp [joinLines, unlines]
  | line :: line' :: lines, _ => by
      have ih : joinLines (line' :: lines) = unlines (line' :: lines) :=
        joinLines_eq_unlines (cons_ne_nil _ _)
      simp only [joinLines, intercalate_cons_cons, append_assoc] at ih ⊢
      rw [ih]
      simp [unlines]

/-- A written line file splits at the newlines, with an empty rest. -/
theorem splitOn_unlines (h : ∀ line ∈ lines, newline ∉ line) :
    (unlines lines).splitOn newline = lines ++ [[]] := by
  have hr : ∀ line ∈ lines ++ [[]], newline ∉ line :=
    forall_mem_append.2 ⟨h, forall_mem_singleton.2 not_mem_nil⟩
  have hj : unlines lines = [newline].intercalate (lines ++ [[]]) := by
    induction lines with
    | nil => simp [unlines]
    | cons line lines ih =>
    have ih := ih (fun l hl => h l (mem_cons_of_mem _ hl)) fun l hl =>
      hr l (mem_cons_of_mem _ hl)
    obtain ⟨next, others, hc⟩ : ∃ next others, lines ++ [[]] = next :: others :=
      exists_cons_of_ne_nil (by simp)
    rw [cons_append, hc, intercalate_cons_cons, ← hc, ← ih]
    simp [unlines]
  rw [hj]
  exact splitOn_intercalate newline hr (by simp)

theorem splitLines_unlines (h : ∀ line ∈ lines, newline ∉ line) : splitLines (unlines lines) = lines := by
  simp [splitLines, splitOn_unlines h]

theorem splitLines_joinLines (hne : lines ≠ []) (h : ∀ line ∈ lines, newline ∉ line) :
    splitLines (joinLines lines) = lines := by
  rw [joinLines_eq_unlines hne, splitLines_unlines h]

theorem notMem_of_mem_splitOn {x : UInt8} {piece : Bytes} (h : piece ∈ content.splitOn x) : x ∉ piece := by
  unfold splitOn at h
  induction content generalizing piece with
  | nil =>
    rw [splitOnP_nil, mem_singleton] at h
    rw [h]
    exact not_mem_nil
  | cons b content ih =>
  rw [splitOnP_cons_eq_if_modifyHead] at h
  split at h
  · rcases mem_cons.1 h with rfl | h
    · exact not_mem_nil
    · exact ih h
  rename_i hb
  -- the byte goes to the front of the first piece, and is no separator
  obtain ⟨first, others, hs⟩ := exists_cons_of_ne_nil (splitOnP_ne_nil (fun y => y == x) content)
  rw [hs, modifyHead_cons] at h
  rcases mem_cons.1 h with rfl | h
  · intro hm
    rcases mem_cons.1 hm with rfl | hm
    · exact hb (beq_self_eq_true x)
    · exact ih (hs ▸ mem_cons_self) hm
  · exact ih (hs ▸ mem_cons_of_mem _ h)

theorem newline_notMem_of_mem_splitLines (h : line ∈ splitLines content) : newline ∉ line := by
  simp only [splitLines] at h
  split at h
  · exact notMem_of_mem_splitOn (mem_of_mem_dropLast h)
  · exact notMem_of_mem_splitOn h

/-! ### Shards -/

theorem trimLeading_suffix (encodings : List Bytes) (fuel : Nat) (line : Bytes) :
    trimLeading encodings fuel line <:+ line := by
  induction fuel generalizing line with
  | zero => exact suffix_refl line
  | succ fuel ih =>
    rw [trimLeading]
    split
    · exact (ih _).trans (drop_suffix _ _)
    · exact suffix_refl line

theorem mem_of_mem_trimSpace {b : UInt8} (h : b ∈ trimSpace line) : b ∈ line := by
  simp only [trimSpace, mem_reverse] at h
  have hl := (trimLeading_suffix _ _ _).subset h
  exact (trimLeading_suffix _ _ _).subset (mem_reverse.1 hl)

variable (linesPerShard : Nat) (fileLines : List Bytes)

/-- The lines of a file that make a request: trimmed, and without the blank ones. -/
def requestLines : List Bytes :=
  (fileLines.map trimSpace).filter fun line => !line.isEmpty

/-- The shards that the loop of `shardInputFile` still cuts. -/
def shardPlanFrom (linesPerShard : Nat) (currentShardLines : List Bytes) :
    List Bytes → List (List Bytes)
  | [] => if currentShardLines.isEmpty then [] else [currentShardLines]
  | line :: lines =>
    if (trimSpace line).isEmpty then shardPlanFrom linesPerShard currentShardLines lines
    else if (currentShardLines ++ [trimSpace line]).length ≥ linesPerShard then
      (currentShardLines ++ [trimSpace line]) :: shardPlanFrom linesPerShard [] lines
    else shardPlanFrom linesPerShard (currentShardLines ++ [trimSpace line]) lines

def shardPlan : List (List Bytes) :=
  shardPlanFrom linesPerShard [] fileLines

theorem flatten_shardPlanFrom (current : List Bytes) :
    (shardPlanFrom linesPerShard current fileLines).flatten = current ++ requestLines fileLines := by
  induction fileLines generalizing current with
  | nil =>
    rw [shardPlanFrom]
    split
    · next he => simp [isEmpty_iff.1 he, requestLines]
    · simp [requestLines]
  | cons line lines ih =>
  rw [shardPlanFrom]
  split
  · rename_i hb
    rw [ih]
    simp [requestLines, hb]
  rename_i hline
  have hc : requestLines (line :: lines) = trimSpace line :: requestLines lines := by
    simp [requestLines, hline]
  split
  · rw [flatten_cons, ih, hc]
    simp
  · rw [ih, hc]
    simp

/-- **Cutting a file into shards loses no line and repeats none.** -/
theorem flatten_shardPlan : (shardPlan linesPerShard fileLines).flatten = requestLines fileLines :=
  flatten_shardPlanFrom linesPerShard fileLines []

theorem ne_nil_of_mem_shardPlanFrom {linesPerShard : Nat} {fileLines current shard : List Bytes}
    (h : shard ∈ shardPlanFrom linesPerShard current fileLines) : shard ≠ [] := by
  induction fileLines generalizing current with
  | nil =>
    rw [shardPlanFrom] at h
    split at h
    · cases h
    · rename_i hne
      rw [mem_singleton.1 h]
      exact fun heq => hne (isEmpty_iff.2 heq)
  | cons line lines ih =>
  rw [shardPlanFrom] at h
  split at h
  · exact ih h
  · split at h
    · rcases mem_cons.1 h with rfl | h
      · simp
      · exact ih h
    · exact ih h

theorem newline_notMem_of_mem_requestLines (h : line ∈ requestLines (splitLines content)) :
    newline ∉ line := by
  obtain ⟨hline, -⟩ := mem_filter.1 h
  obtain ⟨raw, hr, rfl⟩ := mem_map.1 hline
  exact fun hm => newline_notMem_of_mem_splitLines hr (mem_of_mem_trimSpace hm)

/-! ### Answers -/

/-- **A response to a request line**: what `processRequest` makes of it for some request id and some answer of
the inference service. The flag says whether it is an error. -/
def IsResponse (codec : Codec) (taskID : String) (line : Bytes) (response : Bytes × Bool) : Prop :=
  ∃ requestID, match codec.unmarshalRequest line with
    | .error e =>
      let r := createResponse codec taskID ((codec.extractCustomID line).getD "") requestID none []
        ("unexpected parsing error: " ++ e)
      response = (r.1, r.2.isSome)
    | .ok request => ∃ answer,
        let r := responseOf codec taskID request.customID requestID answer
        response = (r.1, r.2.isSome)

/-- **The output lines and error lines answer the request lines**: one response for each, in their order. -/
def Answers (codec : Codec) (taskID : String) (lines outputLines errorLines : List Bytes) : Prop :=
  ∃ responses, List.Forall₂ (IsResponse codec taskID) lines responses ∧
    outputLines = (responses.filter fun r => !r.2).map Prod.fst ∧
    errorLines = (responses.filter fun r => r.2).map Prod.fst

section

variable {codec : Codec} {taskID : String} {lines outputLines errorLines : List Bytes}

theorem answers_nil : Answers codec taskID [] [] [] := ⟨[], .nil, rfl, rfl⟩

section

variable (h : Answers codec taskID lines outputLines errorLines)
include h

theorem Answers.append {lines' outputLines' errorLines' : List Bytes}
    (h' : Answers codec taskID lines' outputLines' errorLines') :
    Answers codec taskID (lines ++ lines') (outputLines ++ outputLines') (errorLines ++ errorLines') := by
  obtain ⟨rs, hrs, rfl, rfl⟩ := h
  obtain ⟨rs', hrs', rfl, rfl⟩ := h'
  exact ⟨rs ++ rs', rel_append hrs hrs', by simp, by simp⟩

theorem Answers.snoc {line responseLine : Bytes}
    {isError : Bool} (hr : IsResponse codec taskID line (responseLine, isError)) :
    Answers codec taskID (lines ++ [line]) (if isError then outputLines else outputLines ++ [responseLine])
      (if isError then errorLines ++ [responseLine] else errorLines) := by
  have ho : Answers codec taskID [line] (if isError then [] else [responseLine])
      (if isError then [responseLine] else []) :=
    ⟨[(responseLine, isError)], .cons hr .nil, by cases isError <;> simp, by cases isError <;> simp⟩
  cases isError with
  | true | false => simpa using h.append ho

theorem Answers.length : outputLines.length + errorLines.length = lines.length := by
  obtain ⟨rs, hrs, rfl, rfl⟩ := h
  rw [hrs.length_eq, length_map, length_map, Nat.add_comm]
  simpa using (length_eq_length_filter_add (l := rs) fun r => r.2).symm

end

/-- An encoded response is one line; one that cannot be encoded is an empty line. -/
theorem newline_notMem_toOption (r : SingleLineResponse) :
    newline ∉ ((codec.marshalResponse r).toOption).getD [] := by
  cases h : codec.marshalResponse r with
  | error => exact not_mem_nil
  | ok line => exact codec.newline_notMem r line h

theorem newline_notMem_createResponse (customID requestID : String) (resp : Option HttpResponse)
    (respBody : Bytes) (errMessage : String) :
    newline ∉ (createResponse codec taskID customID requestID resp respBody errMessage).1 := by
  simp only [createResponse]
  split
  · next line h => exact codec.newline_notMem _ line h
  · exact newline_notMem_toOption _

theorem IsResponse.newline_notMem {line : Bytes} {response : Bytes × Bool}
    (h : IsResponse codec taskID line response) : newline ∉ response.1 := by
  obtain ⟨requestID, h⟩ := h
  split at h
  · obtain rfl := h
    exact newline_notMem_createResponse _ _ _ _ _
  · obtain ⟨answer, rfl⟩ := h
    unfold responseOf
    split
    · exact newline_notMem_createResponse _ _ _ _ _
    · split <;> exact newline_notMem_createResponse _ _ _ _ _

theorem newline_notMem_responses {responses : List (Bytes × Bool)}
    (h : List.Forall₂ (IsResponse codec taskID) lines responses) : ∀ r ∈ responses, newline ∉ r.1 := by
  induction h with
  | nil => exact fun r hr => absurd hr not_mem_nil
  | cons hre _ ih =>
    exact forall_mem_cons.2 ⟨hre.newline_notMem, ih⟩

theorem Answers.newline_notMem (h : Answers codec taskID lines outputLines errorLines) :
    (∀ line ∈ outputLines, newline ∉ line) ∧ ∀ line ∈ errorLines, newline ∉ line := by
  obtain ⟨rs, hrs, rfl, rfl⟩ := h
  have ha := newline_notMem_responses hrs
  constructor
  all_goals
    intro line hline
    obtain ⟨r, hr, rfl⟩ := mem_map.1 hline
    exact ha r (mem_filter.1 hr).1

end

/-! ### Answering lines -/

/-- The lines that `processShard` does not skip. -/
def nonEmptyLines (lines : List Bytes) : List Bytes := lines.filter fun line => !line.isEmpty

section

open Interaction.Prog Follows

variable {G : Type} {P : Protocol Cmd Cmd.Resp G} {g : G} {γ : Gateway} {task : BatchTask}
  {taskID : String}

theorem follows_sendWithRetry (hh : ∀ request, P.allowed g (.httpDo request) ∧
      ∀ r, P.advance g (.httpDo request) r = g) (request : HttpRequest) (retries : Nat) :
    Follows P (fun g' _ => g' = g) g (sendWithRetry request retries) := by
  induction retries with
  | zero => exact ⟨(hh request).1, fun r => (hh request).2 r⟩
  | succ retries ih =>
  refine issue (hh request).1 fun r => ?_
  rw [(hh request).2 r]
  cases r with
  | error => exact ih
  | ok =>
    dsimp only
    split
    · exact rfl
    · exact ih

section

variable (hu : P.allowed g .newUUID ∧ ∀ r, P.advance g .newUUID r = g)
  (hh : ∀ request, P.allowed g (.httpDo request) ∧ ∀ r, P.advance g (.httpDo request) r = g)
include hu hh

theorem follows_processRequest (line : Bytes) : Follows P
    (fun g' r => g' = g ∧ IsResponse γ.codec taskID line r) g (processRequest γ line task taskID) := by
  refine issue hu.1 fun requestID => ?_
  rw [hu.2 requestID]
  cases hline : γ.codec.unmarshalRequest line with
  | error =>
    refine ⟨rfl, requestID, ?_⟩
    rw [hline]
  | ok =>
    refine bind_of (follows_sendWithRetry hh _ _) fun g' answer hg' => ?_
    refine ⟨hg', requestID, ?_⟩
    rw [hline]
    exact ⟨answer, rfl⟩

/-- **The loop of `processShard` answers all lines that are not empty.** -/
theorem follows_processLines (lines : List Bytes) {before outputLines errorLines : List Bytes}
    (h : Answers γ.codec taskID before outputLines errorLines) :
    Follows P (fun g' x => g' = g ∧ ∃ r, x = .ok r ∧
        Answers γ.codec taskID (before ++ nonEmptyLines lines) r.1 r.2) g
      (processLines γ task taskID outputLines errorLines lines).run := by
  induction lines generalizing before outputLines errorLines with
  | nil => exact ⟨rfl, _, rfl, by simpa [nonEmptyLines] using h⟩
  | cons line lines ih =>
  simp only [processLines, taskStatusChanged, Bool.false_eq_true, if_false]
  split
  · next he => simpa [nonEmptyLines, he] using ih h
  rename_i hline
  have hc : before ++ nonEmptyLines (line :: lines) = (before ++ [line]) ++ nonEmptyLines lines := by
    simp [nonEmptyLines, hline]
  rw [hc]
  refine liftE (mono ?_ (follows_processRequest hu hh line))
  rintro g' ⟨responseLine, isError⟩ ⟨rfl, hr⟩
  have hs := h.snoc hr
  cases isError with
  | true | false => exact ih hs

end

end

end Llumnix.Batch
