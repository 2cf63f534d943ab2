/-
**The output loop of the client.**

All requests of a client share one loop.  It takes batches of outputs from the queue server, hands them on
to the output processor, and tells the instances about aborted requests that still produce outputs.  While a
request migrates, its outputs come from two instances and may overtake each other; each says how many tokens
the request has with it, and one that is early is put on a stash.  Nothing guards the call to the instance,
so the loop ends if it raises an exception.

* `loop_survives` — **as long as no call raises, and no request has outputs with and without a position,
  every batch is processed**;
* `cancellation_complete_iff` — **the requests of dead instances are cancelled only if there are none**.
-/

import Llumnix.GuardedRun
import Llumnix.OutputForwarder

namespace Llumnix.Outputs

open GuardedRun List Function

/-- A message of an instance: its outputs, and whether there are scheduler statistics with them. -/
structure LlumnixRequestOutputs where
  instanceId : String
  outputs : List EngineCoreOutput
  schedulerStats : Bool

/-- The client.  A request without an entry in `request_num_output_tokens` has `none`, and one whose last
output had no position has `some none`. -/
structure LlumnixClient where
  abortedRequests : Finset String := ∅
  requestInstances : String → List String := fun _ => []
  instanceRequests : String → Finset String := fun _ => ∅
  requestNumOutputTokens : String → Option (Option Nat) := fun _ => none
  coreOutputStash : String → List EngineCoreOutput := fun _ => []
  outputsQueue : List (List EngineCoreOutput) := []

variable (c : LlumnixClient) (requestId : String)

namespace LlumnixClient

def clearClientRequestStates : LlumnixClient :=
  { c with
    requestNumOutputTokens := update c.requestNumOutputTokens requestId none
    requestInstances := update c.requestInstances requestId []
    instanceRequests := fun i =>
      if i ∈ c.requestInstances requestId then (c.instanceRequests i).erase requestId
      else c.instanceRequests i
    coreOutputStash := update c.coreOutputStash requestId [] }

def abort : LlumnixClient :=
  { c.clearClientRequestStates requestId with abortedRequests := insert requestId c.abortedRequests }

def setInstance (instanceId : String) : LlumnixClient :=
  { c with
    requestInstances := update c.requestInstances requestId
      ((c.requestInstances requestId).dropLast ++ [instanceId]) }

/-- The position of a request: `request_num_output_tokens.get(request_id, 0)`. -/
def position : Option Nat :=
  (c.requestNumOutputTokens requestId).getD (some 0)

def stash (o : EngineCoreOutput) : LlumnixClient :=
  { c with
    coreOutputStash := update c.coreOutputStash o.requestId
      (c.coreOutputStash o.requestId ++ [o]) }

/-- What an output lets through, `none` if comparing with a position that is `None` raises. -/
def processOutputOrder (o : EngineCoreOutput) : Option (LlumnixClient × List EngineCoreOutput) :=
  match o.numOutputTokens with
  | none | some 0 => some (c, [o])
  | some currentLen =>
    (c.position o.requestId).map fun prevLen =>
      if prevLen + o.newTokenIds.length < currentLen then (c.stash o, []) else (c, [o])

/-- The last output let through is noted, and a finished request is forgotten. -/
def note (last : EngineCoreOutput) : LlumnixClient :=
  let c := { c with
    requestNumOutputTokens :=
      update c.requestNumOutputTokens requestId (some last.numOutputTokens) }
  if last.finished then c.clearClientRequestStates requestId else c

end LlumnixClient

open LlumnixClient

/-- The loop in the middle of a batch. -/
structure Turn where
  client : LlumnixClient
  requestsToAbort : List String := []
  processedOutputs : List EngineCoreOutput := []

/-- An output of a batch, with the requests the output processor knows. -/
def processOutput (requestStates : Finset String) (instanceId : String) (t : Turn)
    (o : EngineCoreOutput) : Except Turn Turn :=
  if o.requestId ∈ t.client.abortedRequests then
    .ok { t with requestsToAbort := t.requestsToAbort ++ [o.requestId] }
  else if o.requestId ∉ requestStates then .ok t
  else
    let client := t.client.setInstance o.requestId instanceId
    match client.processOutputOrder o with
    | none => .error { t with client := client }
    | some (client, processed) =>
      match processed.getLast? with
      | none => .ok { t with client := client }
      | some last =>
        .ok { t with
          client := client.note o.requestId last
          processedOutputs := t.processedOutputs ++ processed }

/-- The outputs of a batch, up to an exception. -/
def processOutputs (requestStates : Finset String) (instanceId : String) :
    List EngineCoreOutput → Turn → Except Turn Turn
  | [], t => .ok t
  | o :: outputs, t =>
    match processOutput requestStates instanceId t o with
    | .ok t => processOutputs requestStates instanceId outputs t
    | .error t => .error t

/-- How a call to an instance ends. -/
inductive CallOutcome
  | success
  | refused
  | raised
  deriving DecidableEq

/-- Where the loop is: it waits for a batch, it waits for an instance to answer, or it has ended. -/
inductive Phase
  | ready
  | calling (requestIds : List String)
  | ended

/-- The loop, with all outputs that have arrived, and the batches it has not processed. -/
structure Loop where
  client : LlumnixClient := {}
  phase : Phase := .ready
  arrived : List EngineCoreOutput := []
  unprocessed : List LlumnixRequestOutputs := []

/-- What happens to the loop: it takes a batch, with the requests then known; the instance it calls answers;
or a request is aborted, perhaps during a call. -/
inductive Event
  | batch (b : LlumnixRequestOutputs) (requestStates : Finset String)
  | answer (outcome : CallOutcome)
  | abort (requestId : String)

/-- The outputs of a batch are handed on. -/
def Turn.deliver (t : Turn) (schedulerStats : Bool) : LlumnixClient :=
  if t.processedOutputs ≠ [] ∨ schedulerStats = true then
    { t.client with outputsQueue := t.client.outputsQueue ++ [t.processedOutputs] }
  else t.client

variable (s : Loop) (b : LlumnixRequestOutputs)

/-- A batch, which nobody takes once the loop has ended. -/
def Loop.process (requestStates : Finset String) : Loop :=
  match processOutputs requestStates b.instanceId b.outputs ⟨s.client, [], []⟩ with
  | .error t => { s with client := t.client, phase := .ended, unprocessed := s.unprocessed ++ [b] }
  | .ok t =>
    { s with
      client := t.deliver b.schedulerStats
      phase := if t.requestsToAbort = [] then .ready else .calling t.requestsToAbort }

/-- The end of `_call_llumlet_abort_requests`. -/
def Loop.called (requestIds : List String) : CallOutcome → Loop
  | .success =>
    { s with
      client := { s.client with
        abortedRequests := s.client.abortedRequests \ requestIds.toFinset }
      phase := .ready }
  | .refused => { s with phase := .ready }
  | .raised => { s with phase := .ended }

def Loop.exec : Event → Option Loop
  | .abort requestId => some { s with client := s.client.abort requestId }
  | .answer outcome =>
    match s.phase with
    | .calling requestIds => some (s.called requestIds outcome)
    | _ => none
  | .batch b requestStates =>
    let s := { s with arrived := s.arrived ++ b.outputs }
    match s.phase with
    | .ready => some (s.process b requestStates)
    | .calling _ => none
    | .ended => some { s with unprocessed := s.unprocessed ++ [b] }

/-! ### One output -/

section

variable (c : LlumnixClient) (o : EngineCoreOutput) (requestId r : String)

theorem position_clear : (c.clearClientRequestStates requestId).position r =
    if r = requestId then some 0 else c.position r := by
  by_cases h : r = requestId <;>
    simp [position, clearClientRequestStates, h]

theorem position_note : (c.note requestId o).position r =
    if r = requestId then if o.finished then some 0 else o.numOutputTokens else c.position r := by
  cases hf : o.finished
  · by_cases h : r = requestId <;> simp [note, hf, position, h]
  · rw [note, hf, if_pos rfl, position_clear]
    by_cases h : r = requestId <;> simp [position, h]

theorem note_frame : (c.note requestId o).abortedRequests = c.abortedRequests ∧
    (c.note requestId o).outputsQueue = c.outputsQueue := by
  cases hf : o.finished <;> simp [note, clearClientRequestStates, hf]

theorem processOutputOrder_cases :
    (c.processOutputOrder o = none ∧ o.numOutputTokens ≠ none ∧ c.position o.requestId = none) ∨
      (c.processOutputOrder o = some (c.stash o, []) ∧ ∃ p, c.position o.requestId = some p ∧
        p + o.newTokenIds.length < o.numOutputTokens.getD 0) ∨
      c.processOutputOrder o = some (c, [o]) ∧ ∀ p, c.position o.requestId = some p →
        o.numOutputTokens.getD 0 ≤ p + o.newTokenIds.length := by
  unfold processOutputOrder
  split
  · simp [*]
  · simp [*]
  · next n _ hn =>
    cases hp : c.position o.requestId with
    | none => simp [hn]
    | some p =>
      by_cases hlt : p + o.newTokenIds.length < n
      · simp [hn, hlt]
      · simp [hn, hlt, Nat.not_lt.1 hlt]

end

section

variable {requestStates : Finset String} {instanceId : String} {t t' : Turn} {o : EngineCoreOutput}

theorem processOutput_cases (requestStates : Finset String) (instanceId : String) (t : Turn)
    (o : EngineCoreOutput) :
    (o.requestId ∈ t.client.abortedRequests ∧ processOutput requestStates instanceId t o =
        .ok { t with requestsToAbort := t.requestsToAbort ++ [o.requestId] }) ∨
      (o.requestId ∉ requestStates ∧ processOutput requestStates instanceId t o = .ok t) ∨
      (o.numOutputTokens ≠ none ∧ t.client.position o.requestId = none ∧
        processOutput requestStates instanceId t o =
          .error { t with client := t.client.setInstance o.requestId instanceId }) ∨
      (∃ p, t.client.position o.requestId = some p ∧ p + o.newTokenIds.length < o.numOutputTokens.getD 0 ∧
          processOutput requestStates instanceId t o =
            .ok { t with client := (t.client.setInstance o.requestId instanceId).stash o }) ∨
      (∀ p, t.client.position o.requestId = some p → o.numOutputTokens.getD 0 ≤ p + o.newTokenIds.length) ∧
        processOutput requestStates instanceId t o = .ok { t with
          client := (t.client.setInstance o.requestId instanceId).note o.requestId o
          processedOutputs := t.processedOutputs ++ [o] } := by
  unfold processOutput
  by_cases ha : o.requestId ∈ t.client.abortedRequests
  · exact .inl ⟨ha, if_pos ha⟩
  by_cases hk : o.requestId ∉ requestStates
  · exact .inr (.inl ⟨hk, by rw [if_neg ha, if_pos hk]⟩)
  rw [if_neg ha, if_neg hk]
  refine .inr (.inr ?_)
  rcases processOutputOrder_cases (t.client.setInstance o.requestId instanceId) o with
    ⟨ho, hn, hp⟩ | ⟨ho, p, hp, hlt⟩ | ⟨ho, hle⟩
  · exact .inl ⟨hn, hp, by simp only [ho]⟩
  · exact .inr (.inl ⟨p, hp, hlt, by simp only [ho, getLast?_nil]⟩)
  · exact .inr (.inr ⟨hle, by simp only [ho, getLast?_singleton]⟩)

end

/-! ### A batch -/

/-- How the outputs of one request pass: those let through, and the position. -/
def pass (st : List EngineCoreOutput × Nat) (o : EngineCoreOutput) : List EngineCoreOutput × Nat :=
  if st.2 + o.newTokenIds.length < o.numOutputTokens.getD 0 then st
  else (st.1 ++ [o], if o.finished then 0 else o.numOutputTokens.getD 0)

def outputsOf (r : String) (outputs : List EngineCoreOutput) : List EngineCoreOutput :=
  outputs.filter fun o => o.requestId = r

/-- **What the outputs of a batch do**, and those of a request that is known and has positions. -/
structure Passed (requestStates : Finset String) (outputs : List EngineCoreOutput) (t t' : Turn) :
    Prop where
  aborted : t'.client.abortedRequests = t.client.abortedRequests
  queue : t'.client.outputsQueue = t.client.outputsQueue
  own : ∀ r p, r ∉ t.client.abortedRequests →
    (∀ o ∈ outputs, o.requestId = r → r ∈ requestStates ∧ o.numOutputTokens ≠ none) →
    t.client.position r = some p →
    ∃ p', t'.client.position r = some p' ∧ (outputsOf r t'.processedOutputs, p') =
      (outputsOf r outputs).foldl pass (outputsOf r t.processedOutputs, p)

section

variable {requestStates : Finset String} {instanceId : String} {outputs : List EngineCoreOutput}
  {o : EngineCoreOutput} {t t' t'' : Turn}

theorem Passed.cons (h : Passed requestStates [o] t t') (h' : Passed requestStates outputs t' t'') :
    Passed requestStates (o :: outputs) t t'' where
  aborted := h'.aborted.trans h.aborted
  queue := h'.queue.trans h.queue
  own r p ha hr hp := by
    rw [forall_mem_cons] at hr
    obtain ⟨p', hp', heq⟩ := h.own r p ha (fun o' ho' => mem_singleton.1 ho' ▸ hr.1) hp
    obtain ⟨p'', hp'', heq'⟩ := h'.own r p' (h.aborted ▸ ha) hr.2 hp'
    refine ⟨p'', hp'', ?_⟩
    rw [heq', heq, ← foldl_append]
    simp only [outputsOf, ← filter_append, singleton_append]

theorem passed_of_ok (h : processOutput requestStates instanceId t o = .ok t') :
    Passed requestStates [o] t t' := by
  rcases processOutput_cases requestStates instanceId t o with ⟨ha, ho⟩ | ⟨hk, ho⟩ |
      ⟨-, -, ho⟩ | ⟨p, hp, hlt, ho⟩ | ⟨hle, ho⟩ <;> rw [ho] at h <;> cases h
  · refine ⟨rfl, rfl, fun r p hr _ hp => ⟨p, hp, ?_⟩⟩
    have hne : o.requestId ≠ r := fun hid => hr (hid ▸ ha)
    simp [outputsOf, hne]
  · refine ⟨rfl, rfl, fun r p _ hr hp => ⟨p, hp, ?_⟩⟩
    have hne : o.requestId ≠ r := fun hid => hk (hid ▸ (hr o (mem_singleton_self o) hid).1)
    simp [outputsOf, hne]
  · refine ⟨rfl, rfl, fun r p' _ _ hp' => ⟨p', hp', ?_⟩⟩
    by_cases hid : o.requestId = r
    · subst hid
      cases hp.symm.trans hp'
      simp [outputsOf, pass, hlt]
    · simp [outputsOf, hid]
  · obtain ⟨ha, hq⟩ := note_frame (t.client.setInstance o.requestId instanceId) o o.requestId
    have hpo := fun r =>
      position_note (t.client.setInstance o.requestId instanceId) o o.requestId r
    refine ⟨ha, hq, fun r p _ hr hp => ?_⟩
    by_cases hid : o.requestId = r
    · subst hid
      obtain ⟨n, hn⟩ := Option.ne_none_iff_exists'.1 (hr o (mem_singleton_self o) rfl).2
      have hle := hle p hp
      rw [hn, Option.getD_some] at hle
      refine ⟨if o.finished then 0 else n, ?_, by simp [outputsOf, pass, hn, hle]⟩
      rw [hpo, if_pos rfl, hn]
      split <;> rfl
    · refine ⟨p, ?_, by simp [outputsOf, hid]⟩
      rw [hpo, if_neg (Ne.symm hid)]
      exact hp

theorem passed_of_processOutputs (outputs : List EngineCoreOutput) : ∀ {t : Turn},
    processOutputs requestStates instanceId outputs t = .ok t' → Passed requestStates outputs t t' := by
  induction outputs with
  | nil =>
    rintro t ⟨⟩
    exact ⟨rfl, rfl, fun _ p _ _ hp => ⟨p, hp, rfl⟩⟩
  | cons o outputs ih =>
  intro t h
  rw [processOutputs] at h
  cases ho : processOutput requestStates instanceId t o with
  | error => simp [ho] at h
  | ok =>
    rw [ho] at h
    exact (passed_of_ok ho).cons (ih h)

theorem aborted_of_error (outputs : List EngineCoreOutput) : ∀ {t : Turn},
    processOutputs requestStates instanceId outputs t = .error t' →
      t'.client.abortedRequests = t.client.abortedRequests := by
  induction outputs with
  | nil => exact nofun
  | cons o outputs ih =>
  intro t h
  rw [processOutputs] at h
  cases ho : processOutput requestStates instanceId t o with
  | error =>
    rw [ho] at h
    cases h
    rcases processOutput_cases requestStates instanceId t o with ⟨-, h⟩ | ⟨-, h⟩ | ⟨-, -, h⟩ |
      ⟨_, -, -, h⟩ | ⟨-, h⟩ <;> cases ho.symm.trans h
    rfl
  | ok =>
    rw [ho] at h
    exact (ih h).trans (passed_of_ok ho).aborted

/-- **No request has outputs with and without a position.** -/
def Uniform (c : LlumnixClient) (outputs : List EngineCoreOutput) : Prop :=
  ∀ o ∈ outputs, o.numOutputTokens ≠ none → c.position o.requestId ≠ none ∧
    ∀ o' ∈ outputs, o'.requestId = o.requestId → o'.numOutputTokens ≠ none

instance (c : LlumnixClient) (outputs : List EngineCoreOutput) : Decidable (Uniform c outputs) :=
  inferInstanceAs (Decidable (∀ o ∈ outputs, _ → _))

variable (requestStates instanceId)

theorem uniform_processOutput (h : Uniform t.client (o :: outputs)) :
    ∃ t', processOutput requestStates instanceId t o = .ok t' ∧ Uniform t'.client outputs := by
  have hk : ∀ {t' : Turn}, (∀ r, r ≠ o.requestId → t'.client.position r = t.client.position r) →
      (o.numOutputTokens ≠ none → t.client.position o.requestId ≠ none →
        t'.client.position o.requestId ≠ none) → Uniform t'.client outputs := by
    intro t' hot how o' ho' hn
    obtain ⟨hpo, ha⟩ := h o' (mem_cons_of_mem _ ho') hn
    refine ⟨?_, fun u hu => ha u (mem_cons_of_mem _ hu)⟩
    by_cases hid : o'.requestId = o.requestId
    · rw [hid] at hpo ⊢
      exact how (ha o mem_cons_self hid.symm) hpo
    · rw [hot _ hid]
      exact hpo
  rcases processOutput_cases requestStates instanceId t o with ⟨-, ho⟩ | ⟨-, ho⟩ | ⟨hn, hp, -⟩ |
    ⟨p, hp, -, ho⟩ | ⟨-, ho⟩
  · exact ⟨_, ho, hk (fun _ _ => rfl) fun _ hp => hp⟩
  · exact ⟨_, ho, hk (fun _ _ => rfl) fun _ hp => hp⟩
  · exact absurd hp (h o mem_cons_self hn).1
  · exact ⟨_, ho, hk (fun _ _ => rfl) fun _ hp => hp⟩
  · refine ⟨_, ho, hk (fun r hr => ?_) fun hn _ => ?_⟩
    · exact (position_note _ _ _ r).trans (if_neg hr)
    · rw [position_note, if_pos rfl]
      split
      · exact nofun
      · exact hn

theorem exists_processOutputs (outputs : List EngineCoreOutput) : ∀ {t : Turn}, Uniform t.client outputs →
      ∃ t', processOutputs requestStates instanceId outputs t = .ok t' := by
  induction outputs with
  | nil => exact fun _ => ⟨_, rfl⟩
  | cons o outputs ih =>
    intro t h
    obtain ⟨u, ho, hu⟩ := uniform_processOutput requestStates instanceId h
    obtain ⟨t', ht'⟩ := ih hu
    exact ⟨t', by rw [processOutputs, ho]; exact ht'⟩

end

/-! ### The loop goes on -/

/-- **What the loop survives**: no call raises, and no request has outputs with and without a position. -/
def Calm : Event → Prop
  | .batch b _ => Uniform s.client b.outputs
  | .answer outcome => outcome ≠ .raised
  | .abort _ => True

instance (s : Loop) : ∀ e, Decidable (Calm s e) := by
  intro e
  unfold Calm
  split <;> infer_instance

/-- A call about the request ends well. -/
def Loop.Covers (e : Event) (r : String) : Prop :=
  e = .answer .success ∧ ∃ requestIds, s.phase = .calling requestIds ∧ r ∈ requestIds

section

variable {s u : Loop} {r : String}

theorem deliver_frame (t : Turn) (stats : Bool) :
    (t.deliver stats).abortedRequests = t.client.abortedRequests ∧
      ∀ r, (t.deliver stats).position r = t.client.position r := by
  unfold Turn.deliver
  split <;> exact ⟨rfl, fun _ => rfl⟩

theorem Loop.process_eq (requestStates : Finset String)
    (h : Uniform s.client b.outputs) : ∃ t, Passed requestStates b.outputs ⟨s.client, [], []⟩ t ∧
      s.process b requestStates = { s with
        client := t.deliver b.schedulerStats
        phase := if t.requestsToAbort = [] then .ready else .calling t.requestsToAbort } := by
  obtain ⟨t, ht⟩ := exists_processOutputs requestStates b.instanceId b.outputs (t := ⟨s.client, [], []⟩) h
  exact ⟨t, passed_of_processOutputs _ ht, by simp only [Loop.process, ht]⟩

theorem aborted_process (s : Loop) (b : LlumnixRequestOutputs) (requestStates : Finset String) :
    (s.process b requestStates).client.abortedRequests = s.client.abortedRequests := by
  unfold Loop.process
  split
  · next t ht => exact aborted_of_error _ ht
  · next t ht => exact (deliver_frame t _).1.trans (passed_of_processOutputs _ ht).aborted

/-- **An aborted request stays aborted until a call about it ends well.** -/
theorem aborted_exec {e : Event} (hex : s.exec e = some u) (hr : r ∈ s.client.abortedRequests) :
    r ∈ u.client.abortedRequests ∨ s.Covers e r := by
  cases e with
  | abort =>
    cases hex
    exact .inl (Finset.mem_insert_of_mem hr)
  | batch b requestStates =>
    simp only [Loop.exec] at hex
    split at hex <;> cases hex
    · exact .inl ((aborted_process _ b requestStates).symm ▸ hr)
    · exact .inl hr
  | answer outcome =>
  simp only [Loop.exec] at hex
  split at hex <;> cases hex
  next requestIds hp =>
  cases outcome with
  | refused | raised => exact .inl hr
  | success =>
    by_cases hc : r ∈ requestIds
    · exact .inr ⟨rfl, requestIds, hp, hc⟩
    · exact .inl (Finset.mem_sdiff.2 ⟨hr, by simpa using hc⟩)

theorem going_exec {e : Event} (hc : Calm s e) (hex : s.exec e = some u) (hs : s.phase ≠ .ended) :
    u.phase ≠ .ended ∧ u.unprocessed = s.unprocessed := by
  cases e with
  | abort =>
    cases hex
    exact ⟨hs, rfl⟩
  | batch b requestStates =>
    simp only [Loop.exec] at hex
    split at hex <;> cases hex
    · obtain ⟨t, -, heq⟩ := Loop.process_eq (s := { s with arrived := s.arrived ++ b.outputs }) b
        requestStates hc
      rw [heq]
      refine ⟨?_, rfl⟩
      dsimp only
      split <;> exact nofun
    · next he => exact absurd he hs
  | answer outcome =>
    simp only [Loop.exec] at hex
    split at hex <;> cases hex
    cases outcome with
    | success | refused => exact ⟨nofun, rfl⟩
    | raised => exact absurd rfl hc

/-- **The loop processes every batch**, as long as no call raises and no request has outputs with and without
a position; in any state an aborted request stays recorded until a call about it ends well. -/
theorem loop_survives :
    (Reaches Loop.exec Calm {} s → s.phase ≠ .ended ∧ s.unprocessed = []) ∧
      ∀ e u r, s.exec e = some u → r ∈ s.client.abortedRequests →
        r ∈ u.client.abortedRequests ∨ s.Covers e r := by
  refine ⟨fun h => ?_, fun e u r hex hr => aborted_exec hex hr⟩
  exact h.invariant (I := fun s => s.phase ≠ .ended ∧ s.unprocessed = []) ⟨nofun, rfl⟩
    fun s e u hc hex hs => (going_exec hc hex hs.1).imp_right (·.trans hs.2)

end

/-- An output without a position. -/
def plainOutput (requestId : String) : EngineCoreOutput := ⟨requestId, "s", [1], none, false⟩

/-- A request is aborted, and the batch with its next output is followed by one of another request. -/
def abortRun (outcome : CallOutcome) : List Event :=
  [.abort "a", .batch ⟨"i", [plainOutput "a"], false⟩ {"b"}, .answer outcome,
    .batch ⟨"i", [plainOutput "b"], false⟩ {"b"}]

/-- The instance refuses: the other request goes on, and the first one is still recorded. -/
theorem loop_survives_refused : ∃ s, Reaches Loop.exec Calm {} s ∧ s.unprocessed = [] ∧
    s.client.outputsQueue = [[plainOutput "b"]] ∧ "a" ∈ s.client.abortedRequests := by
  have hru : ∃ s ∈ runAll Loop.exec Calm {} (abortRun .refused),
      s.client.outputsQueue = [[plainOutput "b"]] ∧ "a" ∈ s.client.abortedRequests := by decide +kernel
  obtain ⟨s, hs, hq, ha⟩ := Reaches.of_exists hru
  exact ⟨s, hs, (loop_survives.1 hs).2, hq, ha⟩

/-- **The call raises**: nobody takes the next batch. -/
theorem call_ends_loop : ∃ s, Reaches Loop.exec free {} s ∧ s.unprocessed ≠ [] := by
  refine Reaches.of_exists (l := abortRun .raised) ?_
  decide +kernel

/-! ### Dead instances -/

/-- The outputs for a dead instance, in the order of a set, with the reason of the stop. -/
def abortOutputs (requestIds : Finset String) : Multiset (EngineCoreOutput × String) :=
  requestIds.val.map fun r => (⟨r, "", [], none, true⟩, "Server internal error, please retry.")

namespace LlumnixClient

/-- What is put into the queue of the server: a message for each dead instance that has requests. -/
def cancelDeadInstanceRequests (c : LlumnixClient) :
    List String → LlumnixClient × List (String × Multiset (EngineCoreOutput × String))
  | [] => (c, [])
  | i :: dead =>
    let outputs := abortOutputs (c.instanceRequests i)
    let (c, messages) := cancelDeadInstanceRequests
      { c with instanceRequests := update c.instanceRequests i ∅ } dead
    (c, if 0 < outputs.card then (i, outputs) :: messages else messages)

/-- The latest output of the request, which is not finished, came from one of the instances. -/
def OnInstances (c : LlumnixClient) (dead : List String) (r : String) : Prop :=
  ∃ i ∈ dead, (c.requestInstances r).getLast? = some i

/-- **Each request of the dead instances gets one output, and no other request gets any.** -/
def Cancels (c : LlumnixClient) (dead : List String) : Prop :=
  ∀ r, let n := (((c.cancelDeadInstanceRequests dead).2.map Prod.snd).sum.filter (·.1.requestId = r)).card
    (c.OnInstances dead r → n = 1) ∧ (¬ c.OnInstances dead r → n = 0)

end LlumnixClient

section

variable {s : Loop}

theorem requests_processOutputs {requestStates : Finset String} {instanceId : String} {t' : Turn}
    (outputs : List EngineCoreOutput) : ∀ {t : Turn}, (∀ i, t.client.instanceRequests i = ∅) →
      (processOutputs requestStates instanceId outputs t = .ok t' ∨
        processOutputs requestStates instanceId outputs t = .error t') →
      ∀ i, t'.client.instanceRequests i = ∅ := by
  induction outputs with
  | nil =>
    rintro t h (⟨⟨⟩⟩ | ⟨⟨⟩⟩)
    exact h
  | cons o outputs ih =>
  intro t h ht
  rw [processOutputs] at ht
  rcases processOutput_cases requestStates instanceId t o with ⟨-, ho⟩ | ⟨-, ho⟩ | ⟨-, -, ho⟩ |
    ⟨_, -, -, ho⟩ | ⟨-, ho⟩ <;> simp only [ho] at ht
  · exact ih (by exact h) ht
  · exact ih h ht
  · rcases ht with ⟨⟨⟩⟩ | ⟨⟨⟩⟩
    exact h
  · exact ih (by exact h) ht
  · refine ih (fun i => ?_) ht
    cases hf : o.finished <;> simp [note, clearClientRequestStates, setInstance, hf, h]

/-- **Nothing ever enters the index of the instances.** -/
theorem requests_reaches (h : Reaches Loop.exec free {} s) : ∀ i, s.client.instanceRequests i = ∅ := by
  refine h.invariant (I := fun s => ∀ i, s.client.instanceRequests i = ∅) (fun _ => rfl) ?_
  rintro s e u - hex hs
  cases e with
  | abort =>
    cases hex
    simp [LlumnixClient.abort, clearClientRequestStates, hs]
  | answer outcome =>
    simp only [Loop.exec] at hex
    split at hex <;> cases hex
    cases outcome <;> exact hs
  | batch b requestStates =>
    simp only [Loop.exec] at hex
    split at hex <;> cases hex
    · unfold Loop.process
      split
      · next ht => exact requests_processOutputs _ hs (.inr ht)
      · next t ht =>
        have ht := requests_processOutputs _ hs (.inl ht)
        unfold Turn.deliver
        split <;> exact ht
    · exact hs

theorem messages_nil (dead : List String) : ∀ {c : LlumnixClient}, (∀ i, c.instanceRequests i = ∅) →
    (c.cancelDeadInstanceRequests dead).2 = [] := by
  induction dead with
  | nil => exact fun _ => rfl
  | cons i dead ih =>
    intro c h
    have hu := ih (c := { c with instanceRequests := update c.instanceRequests i ∅ })
      fun j => by by_cases hj : j = i <;> simp [hj, h]
    simp [cancelDeadInstanceRequests, h, abortOutputs, hu]

/-- **The cancellation is complete iff there is nothing to cancel**, and the two indexes are inverse to each
other only while they are empty. -/
theorem cancellation_complete_iff (h : Reaches Loop.exec free {} s) (dead : List String) :
    (s.client.Cancels dead ↔ ∀ r, ¬ s.client.OnInstances dead r) ∧
      ((∀ r i, r ∈ s.client.instanceRequests i ↔ i ∈ s.client.requestInstances r) ↔
        ∀ r, s.client.requestInstances r = []) := by
  refine ⟨?_, by simp [requests_reaches h, eq_nil_iff_forall_not_mem]⟩
  simp only [Cancels, messages_nil dead (requests_reaches h)]
  constructor
  · intro hc r hr
    cases (hc r).1 hr
  · exact fun hn r => ⟨fun hr => absurd hr (hn r), fun _ => rfl⟩

/-- The instance of a request goes on, and another one dies. -/
theorem cancellation_complete_elsewhere :
    ∃ s, Loop.exec {} (.batch ⟨"i", [plainOutput "b"], false⟩ {"b"}) = some s ∧
      (s.client.requestInstances "b").getLast? = some "i" ∧ s.client.Cancels ["j"] := by
  refine ⟨_, rfl, by decide +kernel, (cancellation_complete_iff
    (.step (a := .batch ⟨"i", [plainOutput "b"], false⟩ {"b"}) .refl trivial rfl) ["j"]).1.2 ?_⟩
  rintro r ⟨i, hi, hl⟩
  rw [mem_singleton.1 hi] at hl
  change (update (fun _ => []) "b" ["i"] r).getLast? = _ at hl
  by_cases hr : r = "b" <;> simp [hr] at hl

/-- **A request whose instance dies** before the next output, and which is not told. -/
theorem request_of_dead_instance_remains :
    ¬ ∀ (s : Loop) (dead : List String), Reaches Loop.exec free {} s → s.client.Cancels dead := by
  intro ha
  have hru : ∃ s ∈ runAll Loop.exec free {} [.batch ⟨"i", [plainOutput "b"], false⟩ {"b"}],
      (s.client.requestInstances "b").getLast? = some "i" ∧
        (s.client.cancelDeadInstanceRequests ["i"]).2 = [] := by decide +kernel
  obtain ⟨s, hs, hi, hc⟩ := Reaches.of_exists hru
  have hn := (ha s ["i"] hs "b").1 ⟨"i", mem_singleton_self _, hi⟩
  simp [hc] at hn

end

end Llumnix.Outputs
