/-
**Splitting of extra arguments.**

`safeSplitArgs` (`cmd/config/config.go`) cuts `llumnix-extra-args` at the commas outside quotes and brackets,
and takes the quotes off the values.

* `safeSplitArgs_join` — **splitting inverts joining**, whatever text is quoted or bracketed.
-/

import Mathlib.Data.List.DropRight

namespace Llumnix.ExtraArgs

open List

abbrev Text := List Char

/-- `unicode.IsSpace`. -/
def isSpace (c : Char) : Bool :=
  let n := c.toNat
  9 ≤ n && n ≤ 13 || 0x2000 ≤ n && n ≤ 0x200a ||
    n ∈ [0x20, 0x85, 0xa0, 0x1680, 0x2028, 0x2029, 0x202f, 0x205f, 0x3000]

/-- `strings.TrimSpace`. -/
def trimSpace (t : Text) : Text := (t.dropWhile isSpace).rdropWhile isSpace

/-- The loop of `safeSplitArgs` between two characters; `escaped` if the last one is a backslash. -/
structure Scan where
  escaped : Bool
  current : Text
  result : List Text
  inQuote : Option Char
  bracketDepth : ℕ

def Scan.flush (s : Scan) : Scan :=
  if s.current = [] then s else { s with current := [], result := s.result ++ [trimSpace s.current] }

def Scan.step (s : Scan) (ch : Char) : Scan :=
  let read := { s with escaped := ch = '\\' }
  let written := { read with current := s.current ++ [ch] }
  if s.escaped then written
  else if (ch = '\'' ∨ ch = '"') ∧ s.bracketDepth = 0 then
    match s.inQuote with
    | none => { written with inQuote := ch }
    | some q => if q = ch then { written with inQuote := none } else written
  else if s.inQuote ≠ none then written
  else if ch = '[' then { written with bracketDepth := s.bracketDepth + 1 }
  else if ch = ']' then { written with bracketDepth := s.bracketDepth - 1 }
  else if ch = ',' ∧ s.bracketDepth = 0 then read.flush
  else written

/-- Takes the quotes off the value of a segment. -/
def unquote (segment : Text) : Text :=
  let key := segment.takeWhile (· ≠ '=')
  match segment.dropWhile (· ≠ '=') with
  | '=' :: '\'' :: rest => if rest.getLast? = some '\'' then key ++ '=' :: rest.dropLast else segment
  | '=' :: '"' :: rest => if rest.getLast? = some '"' then key ++ '=' :: rest.dropLast else segment
  | _ => segment

def safeSplitArgs (input : Text) : List Text :=
  (input.foldl Scan.step ⟨false, [], [], none, 0⟩).flush.result.map unquote

/-- A key with a value to quote or to put in brackets. -/
structure Pair where
  key : Text
  bracketed : Bool
  value : Text
  key_plain : ∀ c ∈ key, c ∉ [',', '=', '\'', '"', '[', ']', '\\'] ∧ isSpace c = false
  value_plain : ∀ c ∈ value, c ∉ if bracketed then ['[', ']', '\\'] else ['\'', '\\']

namespace Pair

variable (p : Pair)

/-- The pair as it is written. -/
def text : Text :=
  p.key ++ '=' :: if p.bracketed then '[' :: p.value ++ [']'] else '\'' :: p.value ++ ['\'']

/-- The argument it stands for. -/
def arg : Text := p.key ++ '=' :: if p.bracketed then '[' :: p.value ++ [']'] else p.value

end Pair

theorem foldl_step_written {t : Text} {q : Option Char} {d : ℕ}
    (h : ∀ c ∈ t, ∀ current result, Scan.step ⟨false, current, result, q, d⟩ c =
      ⟨false, current ++ [c], result, q, d⟩) (current : Text) (result : List Text) :
    t.foldl Scan.step ⟨false, current, result, q, d⟩ = ⟨false, current ++ t, result, q, d⟩ := by
  induction t generalizing current with
  | nil => rw [append_nil, foldl_nil]
  | cons c t ih =>
    rw [forall_mem_cons] at h
    rw [foldl_cons, h.1, ih h.2, append_assoc, singleton_append]

/-- A pair is collected as it is written. -/
theorem Pair.foldl_step (p : Pair) (result : List Text) :
    p.text.foldl Scan.step ⟨false, [], result, none, 0⟩ = ⟨false, p.text, result, none, 0⟩ := by
  obtain ⟨key, bracketed, value, hk, hv⟩ := p
  have hk := foldl_step_written (t := key) (q := none) (d := 0) fun c hc current result => by
    have := (hk c hc).1
    simp_all [Scan.step]
  cases bracketed with
  | false =>
    have hv := foldl_step_written (t := value) (q := some '\'') (d := 0) fun c hc current result => by
      have hc := hv c hc
      have : '\'' ≠ c := fun he => hc (he ▸ mem_cons_self)
      simp_all [Scan.step]
    simp [Pair.text, hk, hv, Scan.step]
  | true =>
    have hv := foldl_step_written (t := value) (q := none) (d := 1) fun c hc current result => by
      have := hv c hc
      simp_all [Scan.step]
    simp [Pair.text, hk, hv, Scan.step]

theorem Pair.trimSpace_text (p : Pair) : trimSpace p.text = p.text := by
  have hl : p.text.dropWhile isSpace = p.text := by
    obtain ⟨_ | ⟨c, key⟩, bracketed, value, hk, hv⟩ := p
    · exact dropWhile_cons_of_neg (by decide)
    · exact dropWhile_cons_of_neg (by simp [(hk c mem_cons_self).2])
  rw [trimSpace, hl, rdropWhile_eq_self_iff]
  intro hne
  obtain ⟨key, _ | _, value, hk, hv⟩ := p <;> simp [Pair.text] <;> decide

theorem Pair.unquote_text (p : Pair) : unquote p.text = p.arg := by
  obtain ⟨key, bracketed, value, hk, hv⟩ := p
  have hk : ∀ c ∈ key, decide (c ≠ '=') = true := fun c hc => by
    have := (hk c hc).1
    simp_all
  simp only [unquote, Pair.text, Pair.arg, takeWhile_append_of_pos hk, dropWhile_append_of_pos hk]
  cases bracketed <;> simp

theorem foldl_step_join (pairs : List Pair) (result : List Text) :
    (([','].intercalate (pairs.map Pair.text)).foldl Scan.step ⟨false, [], result, none, 0⟩).flush.result =
      result ++ pairs.map Pair.text := by
  have hf (p : Pair) (result : List Text) : Scan.flush ⟨false, p.text, result, none, 0⟩ =
      ⟨false, [], result ++ [p.text], none, 0⟩ := by
    rw [Scan.flush, if_neg (by simp [Pair.text]), p.trimSpace_text]
  induction pairs generalizing result with
  | nil => simp [intercalate, Scan.flush]
  | cons p pairs ih =>
    cases pairs with
    | nil => simp [intercalate, p.foldl_step, hf]
    | cons p' pairs =>
      have hc : Scan.step ⟨false, p.text, result, none, 0⟩ ',' = ⟨false, [], result ++ [p.text], none, 0⟩ :=
        hf p result
      rw [map_cons, map_cons, intercalate_cons_cons, foldl_append, foldl_append, p.foldl_step, foldl_cons,
        foldl_nil, hc, ← map_cons, ih, append_assoc, singleton_append]

/-- **Splitting inverts joining.** -/
theorem safeSplitArgs_join (pairs : List Pair) :
    safeSplitArgs ([','].intercalate (pairs.map Pair.text)) = pairs.map Pair.arg := by
  rw [safeSplitArgs, foldl_step_join, nil_append, map_map]
  exact map_congr_left fun p _ => p.unquote_text

theorem safeSplitArgs_join_two :
    safeSplitArgs "name='a, b',ids=[1,2]".toList = ["name=a, b".toList, "ids=[1,2]".toList] :=
  safeSplitArgs_join [⟨"name".toList, false, "a, b".toList, by simp [isSpace], by simp⟩,
    ⟨"ids".toList, true, "1,2".toList, by simp [isSpace], by simp⟩]

end Llumnix.ExtraArgs
