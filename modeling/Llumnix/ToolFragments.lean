/-
**Fragments of tool calls.**

A fragment with the name of the function starts a call, and the arguments of the ones without a name belong
to the call before.  `mergeToolCalls`, which puts them together for an answer in one piece, first appends a
fragment with a name as a call, and then appends its arguments to the last call, which is now the fragment
itself.

* `merge_eq_join_iff` — **when they agree**, if the client of the stream gets some fragments more;
* `merged_once_iff` — **when every fragment is merged once**, in whatever groups they come.
-/

import Llumnix.ChunkProcessor

namespace Llumnix.Chat

open List

/-! ### The last element of a list -/

theorem modify_last_concat {α : Type} (l : List α) (x : α) (f : α → α) :
    (l ++ [x]).modify ((l ++ [x]).length - 1) f = l ++ [f x] := by
  rw [modify_eq_take_cons_drop (by simp)]
  simp

/-! ### Calls -/

/-- A call: the fragment with the name, and the arguments of the fragments that follow. -/
structure Call where
  head : ToolCall
  rest : Text
deriving DecidableEq

/-- The client of a stream puts a fragment where it belongs. -/
def appendFragment (calls : List ToolCall) (ext : ToolCall) : List ToolCall :=
  if ext.name ≠ [] then calls ++ [ext]
  else calls.modify (calls.length - 1) fun call => { call with arguments := call.arguments ++ ext.arguments }

variable (exts : List ToolCall)

/-- The fragments put together by the client of a stream. -/
def joinFragments : List ToolCall := exts.foldl appendFragment []

variable (cs : List Call)

/-- A fragment is noted with its call. -/
def addFragment (ext : ToolCall) : List Call :=
  if ext.name ≠ [] then cs ++ [⟨ext, []⟩]
  else cs.modify (cs.length - 1) fun c => { c with rest := c.rest ++ ext.arguments }

/-- **The fragments, call by call.** -/
def calls : List Call := exts.foldl addFragment []

def arguments : Text := exts.flatMap ToolCall.arguments

/-- The call in a stream. -/
def Call.joined (c : Call) : ToolCall := { c.head with arguments := c.head.arguments ++ c.rest }

/-- The call in one piece. -/
def Call.merged (c : Call) : ToolCall :=
  { c.head with arguments := c.head.arguments ++ c.head.arguments ++ c.rest }

theorem foldl_map_calls {step : List ToolCall → ToolCall → List ToolCall} {f : Call → ToolCall}
    (h : ∀ cs ext, step (cs.map f) ext = (addFragment cs ext).map f) (exts : List ToolCall) (cs : List Call) :
    exts.foldl step (cs.map f) = (exts.foldl addFragment cs).map f := by
  induction exts generalizing cs with
  | nil => rfl
  | cons ext exts ih => rw [foldl_cons, foldl_cons, h, ih]

theorem appendFragment_map (ext : ToolCall) :
    appendFragment (cs.map Call.joined) ext = (addFragment cs ext).map Call.joined := by
  unfold appendFragment addFragment
  by_cases hn : ext.name = []
  · rw [if_neg (not_not_intro hn), if_neg (not_not_intro hn)]
    rcases eq_nil_or_concat' cs with rfl | ⟨cs, c, rfl⟩
    · simp
    · rw [map_append, map_singleton, modify_last_concat, modify_last_concat,
        map_append, map_singleton]
      simp [Call.joined]
  · rw [if_pos hn, if_pos hn, map_append, map_singleton]
    simp [Call.joined]

theorem mergeToolCall_map (ext : ToolCall) :
    mergeToolCall (cs.map Call.merged) ext = (addFragment cs ext).map Call.merged := by
  unfold mergeToolCall addFragment
  dsimp only
  by_cases hn : ext.name = []
  · rw [if_neg (not_not_intro hn), if_neg (not_not_intro hn)]
    rcases eq_nil_or_concat' cs with rfl | ⟨cs, c, rfl⟩
    · simp
    · rw [map_append, map_singleton, modify_last_concat, modify_last_concat,
        map_append, map_singleton]
      by_cases ha : ext.arguments = []
      · simp [ha, Call.merged]
      · simp [ha, Call.merged]
  · rw [if_pos hn, if_pos hn, modify_last_concat, map_append, map_singleton]
    by_cases ha : ext.arguments = []
    · rw [if_neg (not_not_intro ha)]
      have hs : ({ ext with arguments := [] } : ToolCall) = ext := by rw [← ha]
      simp [Call.merged, ha, hs]
    · rw [if_pos ha]
      simp [Call.merged]

theorem joinFragments_eq : joinFragments exts = (calls exts).map Call.joined :=
  foldl_map_calls appendFragment_map exts []

theorem mergeToolCalls_eq : mergeToolCalls [] exts = (calls exts).map Call.merged :=
  foldl_map_calls mergeToolCall_map exts []

/-! ### Some fragments more -/

/-- Fragments without a name add their arguments to the last call. -/
theorem foldl_unnamed {exts : List ToolCall} (h : ∀ ext ∈ exts, ext.name = []) (cs : List Call) (c : Call) :
    exts.foldl addFragment (cs ++ [c]) = cs ++ [{ c with rest := c.rest ++ arguments exts }] := by
  induction exts generalizing c with
  | nil => simp [arguments]
  | cons ext exts ih =>
    have hn : ext.name = [] := h ext mem_cons_self
    rw [foldl_cons, addFragment, if_neg (not_not_intro hn), modify_last_concat,
      ih fun x hx => h x (mem_cons_of_mem _ hx)]
    simp [arguments]

theorem foldl_unnamed_nil {exts : List ToolCall} (h : ∀ ext ∈ exts, ext.name = []) :
    exts.foldl addFragment [] = [] := by
  refine exts.foldlRecOn (motive := fun cs : List Call => cs = []) _ rfl fun cs hcs ext hext => ?_
  rw [hcs, addFragment, if_neg (not_not_intro (h ext hext)), modify_nil]

/-- Each call has the fragment with its name. -/
theorem heads_calls (exts : List ToolCall) : (calls exts).map Call.head = exts.filter (·.name ≠ []) := by
  induction exts using reverseRecOn with
  | nil => rfl
  | append_singleton exts ext ih =>
    have hc : calls (exts ++ [ext]) = addFragment (calls exts) ext := foldl_concat ..
    rw [hc, filter_append, ← ih, addFragment]
    by_cases hn : ext.name = []
    · rw [if_neg (not_not_intro hn)]
      rcases eq_nil_or_concat' (calls exts) with he | ⟨cs, c, he⟩
      · simp [he, hn]
      · rw [he, modify_last_concat]
        simp [hn]
    · simp [hn]

/-- The two clients get the same calls. -/
@[mk_iff]
structure ToolsAgree (exts again : List ToolCall) : Prop where
  names : ∀ ext ∈ again, ext.name = []
  earlier : ∀ c ∈ (calls exts).dropLast, c.head.arguments = []
  last : ∀ c ∈ (calls exts).getLast?, c.head.arguments ++ c.rest = c.rest ++ arguments again

theorem merged_eq_joined_append_iff {c : Call} {v : Text} :
    c.merged = Call.joined { c with rest := c.rest ++ v } ↔ c.head.arguments ++ c.rest = c.rest ++ v := by
  constructor
  · intro h
    have ha := congrArg ToolCall.arguments h
    simpa [Call.merged, Call.joined] using ha
  · intro h
    rw [Call.merged, Call.joined, append_assoc, h]

theorem merged_eq_joined_iff {c : Call} : c.merged = c.joined ↔ c.head.arguments = [] := by
  have h : c.merged = Call.joined { c with rest := c.rest ++ [] } ↔ _ := merged_eq_joined_append_iff
  simpa using h

/-- **The two clients get the same calls if and only if** the fragments that only the stream has name no
function, only the last call has arguments in the fragment with its name, and these, moved behind the others,
are those that only the stream has. -/
theorem merge_eq_join_iff (again : List ToolCall) :
    mergeToolCalls [] exts = joinFragments (exts ++ again) ↔ ToolsAgree exts again := by
  have ha : calls (exts ++ again) = again.foldl addFragment (calls exts) := foldl_append
  rw [mergeToolCalls_eq, joinFragments_eq, toolsAgree_iff]
  by_cases hn : ∀ ext ∈ again, ext.name = []
  · rw [ha, and_iff_right hn]
    rcases eq_nil_or_concat' (calls exts) with hni | ⟨cs, c, hcs⟩
    · simp [hni, foldl_unnamed_nil hn]
    · rw [hcs, foldl_unnamed hn, dropLast_concat, getLast?_concat]
      simp [map_inj_left, merged_eq_joined_iff, merged_eq_joined_append_iff]
  · refine iff_of_false (fun h => hn ?_) fun h => hn h.1
    -- a fragment with a name would be one call more
    have hl := congrArg length h
    rw [length_map, length_map, ← length_map Call.head, ← length_map Call.head, heads_calls, heads_calls,
      filter_append, length_append] at hl
    simpa using length_eq_zero_iff.1 (Nat.left_eq_add.1 hl)

/-- **Fragments are merged once**, in any grouping, if and only if no fragment with a name has arguments. -/
theorem merged_once_iff (groups : List (List ToolCall)) :
    groups.foldl mergeToolCalls [] = joinFragments groups.flatten ↔
      ∀ ext ∈ groups.flatten, ext.name ≠ [] → ext.arguments = [] := by
  have hg : groups.foldl mergeToolCalls [] = mergeToolCalls [] groups.flatten := foldl_flatten.symm
  calc _ ↔ ∀ ext ∈ (calls groups.flatten).map Call.head, ext.arguments = [] := by
        simp only [hg, mergeToolCalls_eq, joinFragments_eq, map_inj_left, merged_eq_joined_iff, forall_mem_map]
    _ ↔ _ := by simp only [heads_calls, mem_filter, decide_eq_true_eq, and_imp]

theorem arguments_doubled : mergeToolCalls [] [⟨none, "", "", ['f'], ['x']⟩] ≠
    joinFragments [⟨none, "", "", ['f'], ['x']⟩] := by decide

end Llumnix.Chat
