/-
**A client that goes away.**

The writer stops taking responses when it notices that the client has gone, and the handler does not look at
the request's context when it sends.  Once the 100 slots of the response channel are full, the handler waits
for ever: the response channel is not closed, and `OnPostRequest` does not run.  The same happens behind a
client that has not asked for a stream and has had its one response.

What saves a request is room: if, when the writer leaves, the responses still to come fit into the free
slots, and those of every chunk that is sent later fit as well, the handler comes to its end.  The number of
responses that can still come never exceeds the free slots, so that the handler is never stuck, and a rank
decreases with every step, so that nothing goes on for ever.

* `disconnect_strands_nothing` — **the request comes to its end on every maximal run** along such steps.
-/

import Llumnix.GatewayRelease
import Llumnix.Inevitable

namespace Llumnix.Gateway

open GuardedRun List State Nat Bool

variable {c : StreamChunk} {a : Action} {k n : ℕ}

/-! ### The responses to come -/

/-- The responses that a chunk leads to. -/
def StreamChunk.replies (c : StreamChunk) : ℕ := (handleChunk true c).1.length

def Next.isMore : Next → Bool
  | more => true
  | _ => false

/-- The handler asks for another chunk after this one. -/
def StreamChunk.goesOn (c : StreamChunk) : Bool := (handleChunk true c).2.isMore

/-- **The responses that a stream leads to.** -/
def replies : List StreamChunk → ℕ
  | [] => 0
  | c :: cs => c.replies + if c.goesOn then replies cs else 0

/-- What follows the responses in hand, if `n` responses are ahead in the stream. -/
def Next.owes (n : ℕ) : Next → ℕ
  | more => n
  | result none => 0
  | result (some _) => 1
  | finish => 0

/-- The responses ahead in the current attempt: those of the chunks in the channel, and one for an error
that may end the stream at any time. -/
def State.ahead (σ : State) : ℕ :=
  match σ.reader with
  | .closed => replies σ.chunks
  | _ => replies (σ.chunks ++ [.err contextErr])

/-- **The responses that can still come** before the reader sends another chunk of data. -/
def State.toCome (σ : State) : ℕ :=
  match σ.handler with
  | .retrying _ | .rescheduling _ | .forwarding | .backingOff _ | .fallingBack => 1
  | .receiving => σ.ahead
  | .handling c => c.replies + if c.goesOn then σ.ahead else 0
  | .writing msgs next => msgs.length + next.owes σ.ahead
  | .deciding none => 0
  | .deciding (some _) => 1
  | .closing | .releasing | .returned => 0

/-- The responses written for a chunk, and what follows them, are those it leads to. An error leads to one
either way: written now, or returned. -/
theorem handleChunk_owes (b : Bool) (c : StreamChunk) (n : ℕ) :
    (handleChunk b c).1.length + (handleChunk b c).2.owes n = c.replies + if c.goesOn then n else 0 := by
  have hs : ∀ c, (∀ e, c ≠ .err e) → handleChunk b c = handleChunk true c := by
    intro c hc
    cases c with
    | err e => exact absurd rfl (hc e)
    | eof p => cases p <;> rfl
    | data => rfl
  -- with the header sent, `Handle` returns no error
  have ht : ∀ c, (handleChunk true c).2.owes n = if c.goesOn then n else 0 := by
    intro c
    unfold StreamChunk.goesOn
    cases hn : (handleChunk true c).2 with
    | more | finish => rfl
    | result r =>
    cases r with
    | none => rfl
    | some =>
      have hc := err_of_handleChunk hn
      subst hc
      cases hn
  cases c with
  | err => cases b <;> rfl
  | eof | data =>
    rw [hs _ (by simp), ht]
    rfl

/-- It is for `internalRouteRequest` to return, not for `Handle`. -/
theorem handleChunk_ne_finish (b : Bool) (c : StreamChunk) : (handleChunk b c).2 ≠ .finish := by
  unfold handleChunk
  split
  · split <;> simp
  · simp
  · split
    · simp
    · split <;> simp
  · split
    · simp
    · split
      · simp
      · split
        · split <;> simp
        · simp

/-! ### The condition -/

/-- **The steps that leave enough room**: when the writer leaves before the request has been answered in full,
the responses still to come fit into the free slots, also with a chunk that the reader sends afterwards. -/
def Roomy (cfg : Config) (σ : State) : Action → Prop
  | .hangUp => σ.responses.length + σ.toCome ≤ slots
  | .deliver => cfg.clientStream = false → σ.responses.tail.length + σ.toCome ≤ slots
  | .emit => σ.writing = false → ∀ σ' ∈ emit σ, σ'.responses.length + σ'.toCome ≤ slots
  | _ => True

/-- The response channel is closed, and the post-request hook has run. -/
def Finished (σ : State) : Prop := σ.responseClosed = true ∧ σ.postRequested = true

/-! ### The last response -/

/-- Nothing is written after what is in hand. -/
def Next.Last : Next → Prop
  | result none => True
  | finish => True
  | _ => False

/-- The handler has no response left to write. -/
def Handler.Over : Handler → Prop
  | writing msgs next => msgs = [] ∧ next.Last
  | deciding none => True
  | closing => True
  | releasing => True
  | returned => True
  | _ => False

theorem Next.Last.owes {next : Next} (h : next.Last) (n : ℕ) : next.owes n = 0 := by
  cases next with
  | more => cases h
  | finish => rfl
  | result r =>
    cases r with
    | none => rfl
    | some => cases h

theorem toCome_of_over {σ : State} (h : σ.handler.Over) : σ.toCome = 0 := by
  unfold toCome
  cases hn : σ.handler with
  | writing =>
    rw [hn] at h
    obtain ⟨rfl, hl⟩ := h
    simp [hl.owes]
  | deciding r =>
    rw [hn] at h
    cases r with
    | none => rfl
    | some => cases h
  | closing | releasing | returned => rfl
  | retrying | rescheduling | forwarding | receiving | handling | backingOff | fallingBack => rw [hn] at h; cases h

theorem not_err_of_processAndWriteChunk {p : Processed} {done : Bool} {msgs : List ResponseMsg}
    (h : processAndWriteChunk p done = .ok msgs) (e : GatewayError) : .err e ∉ msgs := by
  cases p with
  | error => cases h
  | ok =>
    cases h
    intro hm
    rcases mem_append.1 hm with hm | hm
    · split at hm <;> simp at hm
    · split at hm <;> simp at hm

theorem handleChunk_err {b : Bool} {e : GatewayError} (h : .err e ∈ (handleChunk b c).1) :
    (handleChunk b c).1 = [.err e] ∧ (handleChunk b c).2.Last := by
  have hs : ∀ {e' : GatewayError} {next : Next}, next.Last → .err e ∈ [ResponseMsg.err e'] →
      [ResponseMsg.err e'] = [.err e] ∧ next.Last :=
    fun hl hme => ⟨congrArg (fun m => [m]) (mem_singleton.1 hme).symm, hl⟩
  unfold handleChunk at h ⊢
  cases c with
  | err =>
    cases b with
    | false => simp at h
    | true =>
      exact hs trivial h
  | eof p =>
    cases p with
    | none => simp at h
    | some p =>
    dsimp only at h ⊢
    split at h
    · rename_i hb
      rw [if_pos hb]
      exact hs trivial h
    · rename_i hb
      rw [if_neg hb]
      split at h
      · exact hs trivial h
      · next msgs hp => exact absurd h (not_err_of_processAndWriteChunk hp e)
  | data p =>
  dsimp only at h ⊢
  split at h
  · rename_i hb
    rw [if_pos hb]
    exact hs trivial h
  rename_i hb
  rw [if_neg hb]
  split at h
  · exact hs trivial h
  rename_i msgs hp
  -- without an error, all responses are messages
  have hm := not_err_of_processAndWriteChunk hp e
  split at h
  · split at h
    · exact absurd h hm
    · rename_i msgs' hp'
      rcases mem_append.1 h with h | h
      · exact absurd h hm
      · exact absurd h (not_err_of_processAndWriteChunk hp' e)
  · exact absurd h hm

/-! ### The invariant -/

/-- **The handler is never stuck**: the responses still to come fit into the free slots once the writer
has left. -/
structure Flows (cfg : Config) (σ : State) : Prop where
  bounded : σ.responses.length ≤ slots
  room : σ.writing = false → σ.responses.length + σ.toCome ≤ slots
  tidy : ∀ msgs next e, σ.handler = .writing msgs next → .err e ∈ msgs →
    msgs = [.err e] ∧ next.Last
  last : ∀ e, .err e ∈ σ.responses → σ.handler.Over
  closed : σ.responseClosed = true → σ.handler.Over
  deferred : σ.handler = .releasing ∨ σ.handler = .returned → σ.responseClosed = true
  hooked : σ.handler = .returned → σ.postRequested = true
  attempts : (σ.attempt : ℤ) ≤ cfg.retryMaxCount ∨ σ.handler.Over
  /-- A delay is only begun where another attempt is left. -/
  retries : ∀ e, σ.handler = .backingOff e → (σ.attempt : ℤ) < cfg.retryMaxCount

variable {cfg : Config} {σ σ' : State}

theorem flows_start (r : SchedulingResult) (held : List LLMInstance) : Flows cfg (start cfg r held) := by
  have hs : (start cfg r held).handler = .forwarding ∧ 0 ≤ cfg.retryMaxCount ∨
      (start cfg r held).handler = .closing := by
    by_cases hl : 0 ≤ cfg.retryMaxCount
    · exact .inl ⟨if_pos hl, hl⟩
    · exact .inr (if_neg hl)
  have hn : ∀ {hd : Handler}, (start cfg r held).handler = hd → hd = .forwarding ∨ hd = .closing := by
    rintro hd rfl
    exact hs.imp_left And.left
  exact {
    bounded := zero_le _
    room := fun hw => by cases hw
    tidy := fun msgs next e he => by rcases hn he with h | h <;> cases h
    last := fun e he => by cases he
    closed := fun hc => by cases hc
    deferred := fun he => by rcases he with he | he <;> rcases hn he with h | h <;> cases h
    hooked := fun he => by rcases hn he with h | h <;> cases h
    attempts := hs.imp And.right fun h => by rw [h]; trivial
    retries := fun e he => by rcases hn he with h | h <;> cases h }

theorem over_step (hs : Step cfg σ a σ') (h : σ.handler.Over) : σ'.handler.Over := by
  cases hs with
  | @written next he =>
    rw [he] at h
    cases next with
    | more => cases h.2
    | finish => trivial
    | result r =>
      cases r with
      | none => trivial
      | some => cases h.2
  | sent he =>
    rw [he] at h
    cases h.1
  | succeeded | closed | returned => trivial
  | _ =>
    first
    | exact h
    | (rw [‹σ.handler = _›] at h; cases h)

/-- What the reader does to the chunks does not change the responses ahead. -/
theorem toCome_congr (hh : σ'.handler = σ.handler) (ha : σ'.ahead = σ.ahead) : σ'.toCome = σ.toCome := by
  unfold toCome
  rw [hh, ha]

theorem ahead_cons {cs : List StreamChunk} (hc : σ.chunks = c :: cs)
    (hcs : σ'.chunks = cs) (hre : σ'.reader = σ.reader) :
    σ.ahead = c.replies + if c.goesOn then σ'.ahead else 0 := by
  simp only [ahead, hre, hc, hcs]
  cases σ.reader <;> rfl

/-- **A step brings no response** that was not to come already, unless a chunk is sent. -/
theorem toCome_step (hst : Step cfg σ a σ') (hem : a ≠ .emit) :
    σ'.responses.length + σ'.toCome ≤ σ.responses.length + σ.toCome := by
  cases hst with
  | exhausted he | unscheduled he =>
    split <;> simp [toCome, he, respond, Next.owes]
  | forwarded he =>
    cases hm : cfg.schedulingMode <;>
      simp [toCome, he, ahead, firstReader, replies, StreamChunk.replies, handleChunk]
  | receivedFirst he hc | received he hc =>
    refine Nat.add_le_add_left (le_of_eq ?_) _
    simp only [toCome, he]
    exact Eq.symm (ahead_cons hc rfl rfl)
  | @handled c he =>
    have ho := handleChunk_owes σ.headerResponded c σ.ahead
    have hsa : ∀ hd : Handler, ({ σ with handler := hd } : State).ahead = σ.ahead := fun _ => rfl
    simp only [toCome, he, hsa, ho, le_refl]
  | @written next he =>
    have hsa : ∀ hd : Handler, ({ σ with handler := hd } : State).ahead = σ.ahead := fun _ => rfl
    cases next with
    | more => simp [toCome, he, Next.handler, Next.owes, hsa]
    | finish => simp [toCome, he, Next.handler]
    | result r => cases r <;> simp [toCome, he, Next.handler, Next.owes]
  | @sent m msgs next he =>
    simp only [toCome, he, length_append, length_cons, length_nil]
    have hsa : ({ σ with responses := σ.responses ++ [m], handler := .writing msgs next } :
        State).ahead = σ.ahead := rfl
    rw [hsa]
    omega
  | prefilled hr | prefillFailed hr | decodeUnscheduled hr | decodeScheduled hr | connected hr | cutOff hr =>
    -- the reader is on its way before and after
    refine Nat.add_le_add_left (le_of_eq ?_) _
    refine toCome_congr rfl ?_
    (try split) <;> simp [ahead, hr]
  | ended | emitted => exact absurd rfl hem
  | delivered _ _ hre | deliveredLast _ _ _ hre => exact Nat.add_le_add_right (by simp [hre]) σ.toCome
  | _ =>
    first
    | exact le_refl _
    | simp [toCome, ‹σ.handler = _›, respond, Next.owes]

section

variable {a : Action}

theorem tidy_step (ht : ∀ msgs next e, σ.handler = .writing msgs next → .err e ∈ msgs →
      msgs = [.err e] ∧ next.Last)
    (hst : Step cfg σ a σ') {msgs : List ResponseMsg} {next : Next} {e : GatewayError}
    (hn : σ'.handler = .writing msgs next) (he : .err e ∈ msgs) : msgs = [.err e] ∧ next.Last := by
  have hr : ∀ e', respond e' = .writing msgs next → msgs = [.err e] ∧ next.Last := by
    intro e' heq
    cases heq
    exact ⟨by rw [mem_singleton.1 he], trivial⟩
  cases hst with
  | aborted | refused | interrupted | fallbackFailed => exact hr _ hn
  | exhausted | unscheduled =>
    split at hn
    · cases hn
    · exact hr _ hn
  | handled =>
    cases hn
    exact handleChunk_err he
  | sent hold =>
    cases hn
    obtain ⟨hs, -⟩ := ht _ _ e hold (mem_cons_of_mem _ he)
    rw [(cons.inj hs).2] at he
    cases he
  | @written next' => cases next' <;> cases hn
  | _ =>
    first
    | exact ht _ _ e hn he
    | cases hn

variable (h : Flows cfg σ) (hs : Step cfg σ a σ')

include h hs

theorem Flows.bounded_step : σ'.responses.length ≤ slots := by
  have hb := h.bounded
  cases hs with
  | sent he hro =>
    rw [length_append]
    exact hro
  | delivered _ _ hr | deliveredLast _ _ _ hr =>
    rw [hr, length_cons] at hb
    exact (le_succ _).trans hb
  | _ => exact hb

/-- A response that was written before is not an error, unless all has been written. -/
theorem Flows.last_step {e : GatewayError}
    (he : .err e ∈ σ'.responses) : σ'.handler.Over := by
  have hold : .err e ∈ σ.responses → σ'.handler.Over := fun hm => over_step hs (h.last e hm)
  cases hs with
  | @sent m msgs next hn hro =>
    rcases mem_append.1 he with hm | hm
    · exact hold hm
    · obtain ⟨hsi, hl⟩ := h.tidy _ next e hn (by
        rw [mem_singleton.1 hm]
        exact mem_cons_self)
      exact ⟨(cons.inj hsi).2, hl⟩
  | delivered _ _ hr | deliveredLast _ _ _ hr =>
    exact hold (hr ▸ mem_cons_of_mem _ he)
  | _ => exact hold he

theorem Flows.closed_step
    (hc : σ'.responseClosed = true) : σ'.handler.Over := by
  have hold : σ.responseClosed = true → σ'.handler.Over := fun hc => over_step hs (h.closed hc)
  cases hs with
  | closed | returned => trivial
  | _ => exact hold hc

theorem Flows.attempts_step : ((σ'.attempt : ℤ) ≤ cfg.retryMaxCount ∨ σ'.handler.Over) ∧
    ∀ e, σ'.handler = .backingOff e → (σ'.attempt : ℤ) < cfg.retryMaxCount := by
  have hle : σ'.attempt = σ.attempt → (σ'.attempt : ℤ) ≤ cfg.retryMaxCount ∨ σ'.handler.Over :=
    fun ha => h.attempts.imp (ha ▸ id) (over_step hs)
  cases hs with
  | delayed he _ hl =>
    refine ⟨hle rfl, fun _ _ => lt_of_le_of_ne (h.attempts.resolve_right fun ho => ?_) hl⟩
    rw [he] at ho
    cases ho
  | elapsed he => exact ⟨.inl (by have := h.retries _ he; push_cast; omega), fun _ hn => by cases hn⟩
  | exhausted | unscheduled => exact ⟨hle rfl, fun _ hn => by split at hn <;> cases hn⟩
  | @written next => exact ⟨hle rfl, fun _ hn => by cases next <;> cases hn⟩
  | _ =>
    first
    | exact ⟨hle rfl, h.retries⟩
    | exact ⟨hle rfl, fun _ hn => by cases hn⟩

theorem Flows.room_step (hok : Roomy cfg σ a)
    (hw : σ'.writing = false) : σ'.responses.length + σ'.toCome ≤ slots := by
  by_cases hem : a = .emit
  · subst hem
    cases hs with
    | ended hr => exact hok hw _ (by simp [emit, hr])
    | emitted hr hl => exact hok hw _ (by simp [emit, hr, hl])
  · have hle := toCome_step hs hem
    by_cases hwa : σ.writing = false
    · exact hle.trans (h.room hwa)
    -- the writer leaves in this step
    cases hs with
    | @deliveredLast m ms b _ hl hre =>
      rcases hl with hst | ⟨e, rfl⟩
      · have hro := hok hst
        rw [hre] at hro
        exact hro
      · have ho := h.last e (hre ▸ mem_cons_self)
        have hb := h.bounded
        have hz : ({ σ with responses := ms, headerResponded := b, writing := false } :
            State).toCome = 0 := toCome_of_over ho
        rw [hre, length_cons] at hb
        rw [hz]
        exact (le_succ _).trans hb
    | finished _ hre hcl =>
      have hz : ({ σ with writing := false } : State).toCome = 0 :=
        toCome_of_over (h.closed hcl)
      rw [hz]
      exact h.bounded
    | hungUp => exact hok
    | _ => exact absurd hw hwa

theorem Flows.deferred_step :
    (σ'.handler = .releasing ∨ σ'.handler = .returned → σ'.responseClosed = true) ∧
      (σ'.handler = .returned → σ'.postRequested = true) := by
  cases hs with
  | closed => exact ⟨fun _ => rfl, fun hn => by cases hn⟩
  | returned he => exact ⟨fun _ => h.deferred (.inl he), fun _ => rfl⟩
  | exhausted | unscheduled => split <;> simp [respond]
  | @written next => cases next <;> simp [Next.handler]
  | _ =>
    first
    | exact ⟨h.deferred, h.hooked⟩
    | simp [respond]

/-- **Every step that leaves enough room keeps the invariant.** -/
theorem flows_step (hok : Roomy cfg σ a) : Flows cfg σ' where
  bounded := h.bounded_step hs
  room := h.room_step hs hok
  tidy _ _ _ := tidy_step h.tidy hs
  last _ := h.last_step hs
  closed := h.closed_step hs
  deferred := (h.deferred_step hs).1
  hooked := (h.deferred_step hs).2
  attempts := (h.attempts_step hs).1
  retries := (h.attempts_step hs).2

end

/-! ### No state is stuck -/

theorem reader_moves (hr : σ.reader.Early) : ∃ a t, exec cfg σ a = some t := by
  rcases hr with hr | hr | hr
  · exact ⟨.prefill none, _, by simp only [exec, prefill, hr]; rfl⟩
  · exact ⟨.scheduleDecode (.failed ""), _, by
      simp only [exec, scheduleDecode, hr, Answer.Fits]; rfl⟩
  · exact ⟨.connect [], _, by simp only [exec, connect, hr]; rfl⟩

/-- **Until the request has come to its end, something can happen.** -/
theorem Flows.moves (h : Flows cfg σ) (he : ¬ Finished σ) : ∃ a t, exec cfg σ a = some t := by
  cases hn : σ.handler with
  | retrying | forwarding | handling | deciding | closing | releasing =>
    exact ⟨.route, _, by simp only [exec, routeStep, hn]; rfl⟩
  | rescheduling => exact ⟨.reschedule (.failed ""), _, by
      simp only [exec, reschedule, hn, Answer.Fits]; rfl⟩
  | receiving =>
    cases hc : σ.chunks with
    | cons => exact ⟨.route, _, by simp only [exec, routeStep, hn, hc]; rfl⟩
    | nil =>
    cases hr : σ.reader with
    | prefilling => exact reader_moves (.inl hr)
    | scheduling => exact reader_moves (.inr (.inl hr))
    | connecting => exact reader_moves (.inr (.inr hr))
    | emitting rest =>
      cases rest with
      | nil => exact ⟨.emit, _, by simp only [exec, emit, hr]; rfl⟩
      | cons => exact ⟨.emit, _, by
          simp only [exec, emit, hr, hc, length_nil, slots, zero_lt_succ, if_true]
          rfl⟩
    | closed => exact ⟨.route, _, by simp only [exec, routeStep, hn, hc, hr]; rfl⟩
  | writing msgs =>
    cases msgs with
    | nil => exact ⟨.route, _, by simp only [exec, routeStep, hn]; rfl⟩
    | cons =>
    by_cases hf : σ.responses.length < slots
    · exact ⟨.route, _, by simp only [exec, routeStep, hn, if_pos hf]; rfl⟩
    -- the channel is full, so the writer is there to take a response
    have hw : σ.writing = true := by
      by_contra hw
      have hro := h.room (by simpa using hw)
      have ht : 0 < σ.toCome := by
        simp only [toCome, hn, length_cons]
        omega
      omega
    cases hre : σ.responses with
    | nil => simp [hre, slots] at hf
    | cons => exact ⟨.deliver, _, by
        simp only [exec, deliver, hw, if_true, hre]; rfl⟩
  | backingOff => exact ⟨.backoff true, _, by simp only [exec, backoff, hn, if_true]; rfl⟩
  | fallingBack => exact ⟨.fallback none, _, by simp only [exec, fallback, hn]; rfl⟩
  | returned => exact absurd ⟨h.deferred (.inr hn), h.hooked hn⟩ he

/-! ### Nothing goes on for ever -/

/-- How far the handler is from its end, in whole phases of its attempts. -/
def State.phases (cfg : Config) (σ : State) : ℕ :=
  let left := 10 * (cfg.retryMaxCount - σ.attempt).toNat
  match σ.handler with
  | .retrying _ => left + 10
  | .rescheduling _ => left + 9
  | .forwarding => left + 8
  | .receiving | .handling _ | .writing _ .more | .writing _ (.result _) => left + 7
  | .deciding _ => left + 6
  | .backingOff _ => left + 5
  | .fallingBack => 4
  | .writing _ .finish => 3
  | .closing => 2
  | .releasing => 1
  | .returned => 0

def Reader.stages : Reader → ℕ
  | prefilling => 3
  | scheduling => 2
  | connecting => 1
  | _ => 0

/-- The work in hand: a response costs a send and a delivery, and a chunk costs its responses and its way
through the channel. -/
def Handler.work : Handler → ℕ
  | handling c => 2 * c.replies + 2
  | writing msgs _ => 2 * msgs.length + 1
  | _ => 0

/-- A stream that can be cut off has the cost of the error that then ends it on top. -/
def Reader.work : Reader → ℕ
  | emitting rest => (rest.map fun c => 2 * c.replies + 4).sum + 1 + if failing rest then 0 else 7
  | _ => 0

def State.work (σ : State) : ℕ :=
  (σ.chunks.map fun c => 2 * c.replies + 3).sum + σ.reader.work + σ.handler.work +
    σ.responses.length + (if σ.writing then 1 else 0) + if σ.cancelled then 0 else 1

def rank (cfg : Config) (σ : State) : ℕ × ℕ × ℕ := (σ.phases cfg, σ.reader.stages, σ.work)

/-- Ranks are compared lexicographically. -/
def Below : ℕ × ℕ × ℕ → ℕ × ℕ × ℕ → Prop := Prod.Lex (· < ·) (Prod.Lex (· < ·) (· < ·))

theorem below_wf : WellFounded Below :=
  WellFounded.prod_lex wellFounded_lt (WellFounded.prod_lex wellFounded_lt wellFounded_lt)

theorem below_of_phases (h : σ'.phases cfg < σ.phases cfg) : Below (rank cfg σ') (rank cfg σ) :=
  Prod.Lex.left _ _ h

theorem below_of_stages (hp : σ'.phases cfg = σ.phases cfg)
    (h : σ'.reader.stages < σ.reader.stages) : Below (rank cfg σ') (rank cfg σ) := by
  unfold rank
  rw [hp]
  exact Prod.Lex.right _ (Prod.Lex.left _ _ h)

theorem below_of_work (hp : σ'.phases cfg = σ.phases cfg)
    (hs : σ'.reader.stages = σ.reader.stages) (h : σ'.work < σ.work) :
    Below (rank cfg σ') (rank cfg σ) := by
  unfold rank
  rw [hp, hs]
  exact Prod.Lex.right _ (Prod.Lex.right _ h)

theorem failing_cons (c : StreamChunk) (rest : List StreamChunk) : failing (c :: rest) = failing [c] := by
  cases c <;> rfl

theorem rank_step (h : Flows cfg σ) (hs : Step cfg σ a σ') : Below (rank cfg σ') (rank cfg σ) := by
  cases hs with
  | aborted he | resumed he | unforwarded _ he | forwarded he | drained he | succeeded he
  | refused he | abandoned he | delayed he | closed he | returned he | rescheduled he
  | interrupted he | fellBack he | fallbackFailed _ he | exhausted he | unscheduled he =>
    refine below_of_phases ?_
    (try split) <;>
    · simp only [phases, he, respond]
      omega
  | elapsed he =>
    have hlt := h.retries _ he
    refine below_of_phases ?_
    simp only [phases, he, Nat.cast_add, Nat.cast_one]
    omega
  | receivedFirst he hch | received he hch =>
    refine below_of_work (by simp only [phases, he]) rfl ?_
    simp only [work, he, hch, Handler.work, map_cons, sum_cons]
    omega
  | @handled c he =>
    have ho := handleChunk_owes σ.headerResponded c 0
    have hl : (handleChunk σ.headerResponded c).1.length ≤ c.replies := by
      split at ho <;> omega
    refine below_of_work ?_ rfl ?_
    · simp only [phases, he]
      cases hn : (handleChunk σ.headerResponded c).2 with
      | more | result => rfl
      | finish => exact absurd hn (handleChunk_ne_finish _ c)
    · simp only [work, he, Handler.work]
      omega
  | @written next he =>
    cases next with
    | more =>
      refine below_of_work ?_ rfl ?_
      · simp only [phases, he, Next.handler]
      · simp only [work, he, Next.handler, Handler.work, length_nil]
        omega
    | result | finish =>
      refine below_of_phases ?_
      simp only [phases, he, Next.handler]
      omega
  | @sent m msgs next he =>
    refine below_of_work ?_ rfl ?_
    · simp only [phases, he]
      cases next <;> rfl
    · simp only [work, he, Handler.work, length_cons, length_append, length_nil]
      omega
  | prefilled hr | prefillFailed hr | decodeUnscheduled hr | connected hr =>
    refine below_of_stages rfl ?_
    simp [Reader.stages, hr]
  | decodeScheduled hr =>
    refine below_of_stages rfl ?_
    split <;> simp [Reader.stages, hr]
  | ended hr =>
    refine below_of_work rfl (by simp [Reader.stages, hr]) ?_
    simp only [work, hr, Reader.work, map_nil, sum_nil]
    omega
  | cutOff hr hf =>
    refine below_of_work rfl (by simp [Reader.stages, hr]) ?_
    have he : failing [.err contextErr] = true ∧ (StreamChunk.err contextErr).replies = 1 := ⟨rfl, rfl⟩
    simp only [work, hr, hf, he, Reader.work, map_cons, map_nil, sum_cons, sum_nil, if_true, false_eq_true,
      if_false]
    omega
  | @emitted c rest hr =>
    refine below_of_work rfl (by split <;> simp [Reader.stages, hr]) ?_
    cases hf : failing [c] <;>
    · simp only [work, hr, hf, Reader.work, failing_cons c rest, map_append, map_cons, map_nil,
        List.sum_append, sum_cons, sum_nil, if_true, false_eq_true, if_false]
      (try split) <;> omega
  | delivered hw _ hre =>
    refine below_of_work rfl rfl ?_
    simp only [work, hre, length_cons]
    omega
  | deliveredLast _ hw _ hre =>
    refine below_of_work rfl rfl ?_
    simp only [work, hre, hw, length_cons, if_true, false_eq_true, if_false]
    omega
  | finished hw | hungUp hw | disconnected hw =>
    refine below_of_work rfl rfl ?_
    simp only [work, hw, if_true, false_eq_true, if_false]
    omega

/-! ### The theorem -/

/-- **A disconnecting client strands nothing**: on every maximal run that leaves enough room,
`internalRouteRequest` closes the response channel and runs the post-request hook. -/
theorem disconnect_strands_nothing (cfg : Config) (a : Answer) (σ₀ : State)
    (hstart : dispatchRequest cfg a = some σ₀) :
    Inevitable (exec cfg) (Roomy cfg) Finished σ₀ := by
  obtain ⟨r, -, -, rfl⟩ := dispatchRequest_eq_some hstart
  refine Inevitable.of_decreasing below_wf (rank cfg) (fun σ h he => h.moves he) ?_
    (flows_start r a.allocated)
  intro σ b σ' h _ hok hex
  exact ⟨flows_step h (exec_step hex) hok, rank_step h (exec_step hex)⟩

theorem disconnect_strands_nothing_staged :
    ∃ σ₀, dispatchRequest stagedConfig (.scheduled [worker "p" .prefill]) = some σ₀ ∧
      Inevitable (exec stagedConfig) (Roomy stagedConfig) Finished σ₀ :=
  ⟨_, rfl, disconnect_strands_nothing stagedConfig (.scheduled [worker "p" .prefill]) _ rfl⟩

/-! ### A stranded request -/

/-- The writer has left, the channel is full, and the handler has another response to write. -/
structure Stranded (σ : State) : Prop where
  gone : σ.writing = false
  full : ¬ σ.responses.length < slots
  writes : ∃ m msgs next, σ.handler = .writing (m :: msgs) next
  running : σ.responseClosed = false

/-- **No step leads out.** -/
theorem stranded_step (h : Stranded σ) (hs : Step cfg σ a σ') : Stranded σ' := by
  obtain ⟨m, msgs, next, hn⟩ := h.writes
  cases hs with
  | sent _ hr => exact absurd hr h.full
  | written he =>
    cases hn.symm.trans he
  | delivered hw | deliveredLast _ hw | finished hw | hungUp hw =>
    rw [h.gone] at hw
    cases hw
  | _ =>
    first
    | exact ⟨h.gone, h.full, h.writes, h.running⟩
    | cases hn.symm.trans ‹σ.handler = _›

theorem not_inevitable_of_stranded (h : Stranded σ) : ¬ Inevitable (exec cfg) free Finished σ :=
  not_inevitable_of_trap (fun _ _ _ hs hex => ⟨trivial, stranded_step hs (exec_step hex)⟩)
    (fun s hs he => by
      have hc := he.1
      rw [hs.running] at hc
      cases hc) h

/-- A gateway without prefill and decode instances, and a streaming request. -/
def neutralConfig : Config where
  id := "req"
  schedulingMode := .neutral
  clientStream := true
  retryMaxCount := 0
  requestStateReportInterval := 0
  enableFullModeScheduling := false
  fallbackConfigs := 0

def token : StreamChunk := .data ⟨.response, .ok "x", false, .ok ""⟩

/-- The guard of a run that has not come to its end. -/
def unfinished (σ : State) (a : Action) : Prop := free σ a ∧ ¬ Finished σ

instance (σ : State) (a : Action) : Decidable (unfinished σ a) :=
  inferInstanceAs (Decidable (True ∧ ¬ (_ ∧ _)))

/-- The handler has a response to write. -/
def Handler.writes : Handler → Bool
  | writing (_ :: _) _ => true
  | _ => false

theorem exists_of_writes : ∀ {h : Handler}, h.writes = true → ∃ m msgs next, h = .writing (m :: msgs) next
  | .writing (m :: msgs) next, _ => ⟨m, msgs, next, rfl⟩

/-- A token on its way from the backend to the response channel. -/
def passToken : List Action := [.emit, .route, .route, .route, .route]

/-- While the writer sends a slow client the first token, the channel fills up, and the handler has one more.
Then the client goes. -/
def strandingRun : List Action :=
  [.route, .connect (replicate (slots + 2) token)] ++ passToken ++ [.deliver] ++
    (replicate slots passToken).flatten ++ [.emit, .route, .route, .disconnect, .hangUp]

/-- **A disconnecting client strands a request**: when it goes, the response channel is full and the
handler waits for a slot. -/
theorem disconnect_strands_request :
    ¬ ∀ (cfg : Config) (a : Answer) (σ₀ : State), dispatchRequest cfg a = some σ₀ →
      Inevitable (exec cfg) free Finished σ₀ := by
  intro ha
  let σ₀ := start neutralConfig [worker "n" .neutral] [worker "n" .neutral]
  have hi := ha neutralConfig (.scheduled [worker "n" .neutral]) σ₀ rfl
  have hr : ∃ σ ∈ runAll (exec neutralConfig) unfinished σ₀ strandingRun,
      σ.writing = false ∧ ¬ σ.responses.length < slots ∧
        σ.handler.writes = true ∧ σ.responseClosed = false := by decide +kernel
  obtain ⟨σ, hre, hg, hf, hn, hru⟩ := Reaches.of_exists hr
  exact not_inevitable_of_stranded ⟨hg, hf, exists_of_writes hn, hru⟩ (hi.of_reaches hre)

end Llumnix.Gateway
