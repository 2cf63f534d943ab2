/-
**The stage of a retry.**

In staged mode a request is scheduled twice, for its prefill and for its decode, and the request context
remembers the stage.  `HandleOpenAIRequest` sets it to prefill, `ScheduleDecode` and (with request-state
tracking) `OnPostPrefill` set it to decode, and nothing sets it back.  A retry schedules with the stage it
finds.  Since `OnPostPrefill` runs on the first chunk even if that chunk is an error, with request-state
tracking no retry after it asks for a prefill instance.

* `retries_ask_for_prefill` — **along steps that keep the stage every scheduling of `internalRouteRequest`
  asks for the prefill stage, and every attempt has a prefill instance**.
-/

import Llumnix.GatewayRelease

namespace Llumnix.Gateway

open GuardedRun List Option

/-! ### The condition and the property -/

def StreamChunk.isRetryable : StreamChunk → Bool
  | err e => e.isRetryable
  | _ => false

/-- **The steps that leave the stage of a retry alone**: while retries are left, only a prefill without
request-state tracking fails with a retryable error. -/
def FailsEarly (cfg : Config) (σ : State) : Action → Prop
  | .prefill (some e) => e.isRetryable = true →
      cfg.enableRequestStateTracking = false ∨ (σ.attempt : ℤ) = cfg.retryMaxCount
  | .connect stream => ∀ c ∈ stream, c.isRetryable = true → (σ.attempt : ℤ) = cfg.retryMaxCount
  | _ => True

instance (cfg : Config) (σ : State) : (a : Action) → Decidable (FailsEarly cfg σ a) := by
  rintro (_ | _ | _ | _ | ⟨_ | e⟩ | _ | _ | _ | _ | _ | _ | _) <;> (dsimp only [FailsEarly]; infer_instance)

/-- A scheduling that `internalRouteRequest` is about to issue is for the prefill stage, and an attempt
it is about to start has a prefill instance. -/
structure AsksForPrefill (σ : State) : Prop where
  schedule : ∀ e, σ.handler = .rescheduling e → σ.schedulingStage = .prefill
  attempt : σ.handler = .forwarding → ∃ w ∈ σ.schedulingResults, w.inferType = .prefill

/-! ### The invariant -/

/-- An error that may still become the result of the current attempt. -/
def State.Threatens (σ : State) (e : GatewayError) : Prop :=
  .err e ∈ σ.chunks ∨ (∃ rest, σ.reader = .emitting rest ∧ .err e ∈ rest) ∨
    σ.handler = .handling (.err e) ∨ (∃ msgs, σ.handler = .writing msgs (.result (some e))) ∨
      σ.handler = .deciding (some e)

def Handler.Between (hd : Handler) : Prop :=
  ∃ e, hd = .backingOff e ∨ hd = .retrying e ∨ hd = .rescheduling e

/-- A retry would ask for the prefill stage. -/
def State.Retriable (cfg : Config) (σ : State) : Prop :=
  σ.schedulingStage = .prefill ∧ cfg.enableRequestStateTracking = false

/-- **Retries find the request in its prefill.** -/
structure InPrefill (cfg : Config) (σ : State) : Prop where
  waits : Waits σ
  harmless : ∀ e, σ.Threatens e → e.isRetryable = true →
    σ.Retriable cfg ∨ (σ.attempt : ℤ) = cfg.retryMaxCount
  between : σ.handler.Between → σ.Retriable cfg
  early : σ.reader = .prefilling ∨ σ.reader = .scheduling → σ.schedulingStage = .prefill
  starting : σ.handler = .forwarding → σ.schedulingStage = .prefill ∧
    ∃ w ∈ σ.schedulingResults, w.inferType = .prefill

theorem InPrefill.asks {cfg : Config} {σ : State} (h : InPrefill cfg σ) : AsksForPrefill σ where
  schedule e he := (h.between ⟨e, .inr (.inr he)⟩).1
  attempt he := (h.starting he).2

variable {cfg : Config} {σ σ' : State}

theorem prefill_of_fits {a : Answer} {r : SchedulingResult} (hf : a.Fits .pdStaged .prefill)
    (hr : a.result = .ok r) : ∃ w ∈ r, w.inferType = .prefill := by
  have hro : r.map LLMInstance.inferType = [.prefill] := hf.roles_staged hr
  have hm : InferType.prefill ∈ r.map LLMInstance.inferType := by
    rw [hro]
    exact mem_singleton_self _
  obtain ⟨w, hw, ht⟩ := mem_map.1 hm
  exact ⟨w, hw, ht⟩

theorem inPrefill_start {r : SchedulingResult} {held : List LLMInstance}
    (h : ∃ w ∈ r, w.inferType = .prefill) : InPrefill cfg (State.start cfg r held) where
  waits := waits_start cfg r held
  harmless e he := by
    simp only [State.Threatens, State.start] at he
    split at he <;> rcases he with he | ⟨rest, he, -⟩ | he | ⟨msgs, he⟩ | he <;> cases he
  between hb := by
    simp only [State.start] at hb
    split at hb <;> obtain ⟨e, he | he | he⟩ := hb <;> cases he
  early hr := by
    rcases hr with hr | hr <;> cases hr
  starting _ := ⟨rfl, h⟩

/-- Steps that start neither an attempt nor a retry and bring no new error. -/
theorem InPrefill.move (h : InPrefill cfg σ) (hw : Waits σ')
    (ht : ∀ e, σ'.Threatens e → σ.Threatens e) (hbe : σ'.handler.Between → σ.handler.Between)
    (hsr : σ'.handler = .forwarding → σ.handler = .forwarding ∧ σ'.schedulingResults = σ.schedulingResults)
    (hst : σ'.schedulingStage = σ.schedulingStage) (ha : σ'.attempt = σ.attempt)
    (hrd : σ'.reader = .prefilling ∨ σ'.reader = .scheduling →
      σ.reader = .prefilling ∨ σ.reader = .scheduling) : InPrefill cfg σ' := by
  cases σ'
  obtain rfl := hst
  obtain rfl := ha
  exact {
    waits := hw
    harmless := fun e he => h.harmless e (ht e he)
    between := fun hb => h.between (hbe hb)
    early := fun hr => h.early (hrd hr)
    starting := fun hs => by
      rw [(hsr hs).2]
      exact h.starting (hsr hs).1 }

/-- The handler holds no error that could become the result of the attempt. -/
def Handler.Calm (hd : Handler) : Prop :=
  ∀ e, hd ≠ .handling (.err e) ∧ (∀ msgs, hd ≠ .writing msgs (.result (some e))) ∧
    hd ≠ .deciding (some e)

/-- With a calm handler, what threatens is on its way from the reader. -/
theorem threatens_of_calm (hc : σ'.handler.Calm) (hch : σ'.chunks = σ.chunks)
    (hre : σ'.reader = σ.reader) {e : GatewayError} (h : σ'.Threatens e) : σ.Threatens e := by
  rcases h with h | ⟨rest, hr, h⟩ | h | ⟨msgs, h⟩ | h
  · exact .inl (hch ▸ h)
  · exact .inr (.inl ⟨rest, hre ▸ hr, h⟩)
  · exact absurd h (hc e).1
  · exact absurd h ((hc e).2.1 msgs)
  · exact absurd h (hc e).2.2

/-- Steps of the handler to where it neither starts an attempt nor retries. -/
theorem InPrefill.rest (h : InPrefill cfg σ) (hw : Waits σ') (hca : σ'.handler.Calm)
    (hbe : σ'.handler.Between → σ.handler.Between) (hsr : σ'.handler ≠ .forwarding)
    (hst : σ'.schedulingStage = σ.schedulingStage) (ha : σ'.attempt = σ.attempt)
    (hc : σ'.chunks = σ.chunks) (hre : σ'.reader = σ.reader) : InPrefill cfg σ' :=
  h.move hw (fun _ => threatens_of_calm hca hc hre) hbe (fun hs => absurd hs hsr) hst ha (hre ▸ id)

/-- Steps of the handler between two attempts. -/
theorem InPrefill.retry (h : InPrefill cfg σ) (hr : σ.Retriable cfg) (hw : Waits σ')
    (hst : σ'.schedulingStage = σ.schedulingStage) (hre : σ'.reader = σ.reader)
    (hsr : σ'.handler = .forwarding → ∃ w ∈ σ'.schedulingResults, w.inferType = .prefill) :
    InPrefill cfg σ' where
  waits := hw
  harmless _ _ _ := .inl ⟨hst.trans hr.1, hr.2⟩
  between _ := ⟨hst.trans hr.1, hr.2⟩
  early hs := hst.trans (h.early (hre ▸ hs))
  starting hs := ⟨hst.trans hr.1, hsr hs⟩

/-- While the handler waits for a chunk, what threatens is on its way. -/
theorem State.Threatens.coming {e : GatewayError} (h : σ.Threatens e) (hn : σ.handler = .receiving) :
    .err e ∈ σ.chunks ∨ ∃ rest, σ.reader = .emitting rest ∧ .err e ∈ rest := by
  rw [State.Threatens, hn] at h
  rcases h with h | h | h | ⟨msgs, h⟩ | h
  · exact .inl h
  · exact .inr h
  all_goals cases h

theorem not_between_receiving (hn : σ.handler = .receiving) : ¬ σ.handler.Between := by
  rw [hn]
  rintro ⟨e, he | he | he⟩ <;> cases he

/-- The reader has not sent anything yet, so there is no error. -/
theorem inPrefill_of_early (hw : Waits σ) (he : σ.reader.Early)
    (hst : σ.reader = .prefilling ∨ σ.reader = .scheduling → σ.schedulingStage = .prefill) :
    InPrefill cfg σ := by
  obtain ⟨hn, -, hc⟩ := hw he
  exact {
    waits := hw
    harmless := fun e ht => by
      rcases ht.coming hn with h | ⟨rest, hr, -⟩
      · rw [hc] at h
        cases h
      · rw [Reader.Early, hr] at he
        simp at he
    between := fun hb => absurd hb (not_between_receiving hn)
    early := hst
    starting := fun hs => by
      rw [hn] at hs
      cases hs }

/-- The reader goes on to send a stream; the stage may have changed on the way. -/
theorem InPrefill.stream (h : InPrefill cfg σ) (hea : σ.reader.Early) {rest : List StreamChunk}
    (hsa : σ'.handler = σ.handler ∧ σ'.chunks = σ.chunks ∧ σ'.reader = .emitting rest)
    (hrs : ∀ e, .err e ∈ rest → e.isRetryable = true →
      σ'.Retriable cfg ∨ (σ'.attempt : ℤ) = cfg.retryMaxCount) : InPrefill cfg σ' := by
  obtain ⟨hn, -, hc⟩ := h.waits hea
  obtain ⟨hh, hc', hre⟩ := hsa
  exact {
    waits := fun he' => by
      rw [Reader.Early, hre] at he'
      simp at he'
    harmless := fun e he hrt => by
      rcases he.coming (hh.trans hn) with he | ⟨rest', hr, he⟩
      · rw [hc', hc] at he
        cases he
      · cases hre.symm.trans hr
        exact hrs e he hrt
    between := fun hb => absurd hb (not_between_receiving (hh.trans hn))
    early := fun hr => by
      rw [hre] at hr
      rcases hr with hr | hr <;> cases hr
    starting := fun hs => by
      rw [hh, hn] at hs
      cases hs }

/-- A chunk is received.  With request-state tracking the first chunk changes the stage, but then no
error that is on its way leads to a retry. -/
theorem InPrefill.received (h : InPrefill cfg σ) {c : StreamChunk} {cs : List StreamChunk}
    (hc : σ.chunks = c :: cs) (hw : Waits σ')
    (hsa : σ'.handler = .handling c ∧ σ'.chunks = cs ∧ σ'.reader = σ.reader ∧ σ'.attempt = σ.attempt)
    (hst : σ'.schedulingStage = σ.schedulingStage ∨ cfg.enableRequestStateTracking = true) :
    InPrefill cfg σ' := by
  obtain ⟨hn, hcs, hre, ha⟩ := hsa
  have hth : ∀ e, σ'.Threatens e → σ.Threatens e := by
    rintro e (he | ⟨rest, hr, he⟩ | he | ⟨msgs, he⟩ | he)
    · exact .inl (hc ▸ mem_cons_of_mem _ (hcs ▸ he))
    · exact .inr (.inl ⟨rest, hre ▸ hr, he⟩)
    · cases hn.symm.trans he
      exact .inl (hc ▸ mem_cons_self)
    · cases hn.symm.trans he
    · rw [hn] at he
      cases he
  exact {
    waits := hw
    harmless := fun e he hrt => by
      rw [ha]
      refine (h.harmless e (hth e he) hrt).imp_left fun hr => ?_
      rcases hst with hst | ht
      · exact ⟨hst.trans hr.1, hr.2⟩
      · rw [hr.2] at ht
        cases ht
    between := fun hb => by
      rw [hn] at hb
      obtain ⟨e, he | he | he⟩ := hb <;> cases he
    early := fun hr => by
      rw [hre] at hr
      rw [(h.waits (hr.imp id .inl)).2.2] at hc
      cases hc
    starting := fun hs => by
      rw [hn] at hs
      cases hs }

theorem inPrefill_step (hm : cfg.schedulingMode = .pdStaged) {a : Action}
    (hok : FailsEarly cfg σ a) (hst : Step cfg σ a σ') (h : InPrefill cfg σ) : InPrefill cfg σ' := by
  have hwa : Waits σ' := waits_step hst h.waits
  cases hst with
  | aborted | drained | succeeded | refused | abandoned | closed | interrupted | fellBack
  | fallbackFailed | returned | exhausted | unscheduled =>
    exact h.rest hwa (by (try split) <;> simp [Handler.Calm, respond])
      (by (try split) <;> simp [Handler.Between, respond]) (by (try split) <;> simp [respond]) rfl rfl rfl rfl
  | resumed he =>
    exact h.rest hwa (by simp [Handler.Calm]) (fun _ => ⟨_, .inr (.inl he)⟩) (by simp) rfl rfl rfl rfl
  | unforwarded text he hf =>
    -- the attempt has the prefill instance that the forwarder needs
    refine absurd (fun t ht => ?_) hf
    rw [hm] at ht
    simp only [needs, mem_singleton] at ht
    subst ht
    obtain ⟨w, hw, ht⟩ := (h.starting he).2
    rw [isNone_eq_false_iff, SchedulingResult.getInstanceByInferType, find?_isSome]
    exact ⟨w, hw, by simpa using ht⟩
  | forwarded he =>
    exact inPrefill_of_early hwa (by simp [Reader.Early, hm, firstReader]) fun _ => (h.starting he).1
  | receivedFirst he hch =>
    refine h.received hch hwa ⟨rfl, rfl, rfl, rfl⟩ ?_
    rw [onPostPrefill_eq]
    split
    · next htr => exact .inr htr
    · exact .inl rfl
  | received he hch => exact h.received hch hwa ⟨rfl, rfl, rfl, rfl⟩ (.inl rfl)
  | @handled c he =>
    refine h.move hwa ?_ (by simp [Handler.Between]) (by simp) rfl rfl id
    rintro e (he' | he' | he' | ⟨msgs, he'⟩ | he')
    · exact .inl he'
    · exact .inr (.inl he')
    · cases he'
    · have hc := err_of_handleChunk (Handler.writing.inj he').2
      exact .inr (.inr (.inl (hc ▸ he)))
    · cases he'
  | @written next he =>
    refine h.move hwa ?_ ?_ ?_ rfl rfl id
    · rintro e (he' | he' | he' | ⟨msgs, he'⟩ | he')
      · exact .inl he'
      · exact .inr (.inl he')
      · cases next <;> cases he'
      · cases next <;> cases he'
      · cases next <;> cases he'
        exact .inr (.inr (.inr (.inl ⟨[], he⟩)))
    · rintro ⟨e, he' | he' | he'⟩ <;> cases next <;> cases he'
    · cases next <;> simp [Next.handler]
  | @sent m msgs next he =>
    refine h.move hwa ?_ (by simp [Handler.Between]) (by simp) rfl rfl id
    rintro e (he' | he' | he' | ⟨msgs', he'⟩ | he')
    · exact .inl he'
    · exact .inr (.inl he')
    · cases he'
    · cases he'
      exact .inr (.inr (.inr (.inl ⟨_, he⟩)))
    · cases he'
  | @delayed e he hre hl =>
    have hr : σ.Retriable cfg := (h.harmless e (.inr (.inr (.inr (.inr he)))) hre).resolve_right hl
    exact h.retry hr hwa rfl rfl (by simp)
  | @elapsed e he => exact h.retry (h.between ⟨e, .inl he⟩) hwa rfl rfl (by simp)
  | @rescheduled e a r he hfi hrs =>
    have hr : σ.Retriable cfg := h.between ⟨e, .inr (.inr he)⟩
    rw [hm, hr.1] at hfi
    exact h.retry hr hwa rfl rfl fun _ => prefill_of_fits hfi hrs
  | prefilled hr => exact inPrefill_of_early hwa (.inr (.inl rfl)) fun _ => h.early (.inl hr)
  | prefillFailed hr he =>
    refine h.stream (.inl hr) ⟨rfl, rfl, rfl⟩ ?_
    intro e' he' hre
    cases mem_singleton.1 he'
    rcases he with rfl | rfl
    · exact (hok hre).imp_left fun htr => ⟨h.early (.inl hr), htr⟩
    · cases hre
  | decodeUnscheduled hr =>
    refine h.stream (.inr (.inl hr)) ⟨rfl, rfl, rfl⟩ ?_
    intro e' he' hre
    cases mem_singleton.1 he'
    cases hre
  | decodeScheduled hr hfi hrs =>
    split at hwa
    · rename_i hso
      rw [if_pos hso]
      exact inPrefill_of_early hwa (.inr (.inr rfl)) (by simp)
    · rename_i hso
      rw [if_neg hso]
      refine h.stream (.inr (.inl hr)) ⟨rfl, rfl, rfl⟩ ?_
      intro e' he' hre
      cases mem_singleton.1 he'
      cases hre
  | connected hr hrd =>
    refine h.stream (.inr (.inr hr)) ⟨rfl, rfl, rfl⟩ fun e he hre => ?_
    rcases hrd with rfl | rfl
    · exact .inr (hok _ he hre)
    · cases mem_singleton.1 he
      cases hre
  | cutOff =>
    -- the error that ends the stream is not retryable
    exact { h with
      waits := hwa
      harmless := fun e he hre => by
        rcases he with he | ⟨rest, he, hme⟩ | he
        · exact h.harmless e (.inl he) hre
        · cases he
          cases mem_singleton.1 hme
          cases hre
        · exact h.harmless e (.inr (.inr he)) hre
      early := fun hs => by simp at hs }
  | ended =>
    refine h.move hwa ?_ id (⟨·, rfl⟩) rfl rfl (by simp)
    rintro e (he | ⟨rest, he, -⟩ | he)
    · exact .inl he
    · cases he
    · exact .inr (.inr he)
  | @emitted c rest hr =>
    refine h.move hwa ?_ id (⟨·, rfl⟩) rfl rfl (by split <;> simp)
    rintro e (he | ⟨rest', he, hme⟩ | he)
    · rcases mem_append.1 he with he | he
      · exact .inl he
      · exact .inr (.inl ⟨_, hr, mem_singleton.1 he ▸ mem_cons_self⟩)
    · dsimp only at he
      split at he <;> cases he
      exact .inr (.inl ⟨_, hr, mem_cons_of_mem _ hme⟩)
    · exact .inr (.inr he)
  | delivered | deliveredLast | finished | hungUp | disconnected =>
    exact h.move hwa (fun _ he => he) id (⟨·, rfl⟩) rfl rfl id

/-! ### The theorem -/

/-- **Retries ask for the prefill stage**: in staged mode, along such steps, every scheduling is for the
prefill stage, and every attempt has a prefill instance. -/
theorem retries_ask_for_prefill (cfg : Config) (hmode : cfg.schedulingMode = .pdStaged) (a : Answer)
    (σ₀ σ : State) (hstart : dispatchRequest cfg a = some σ₀)
    (hrun : Reaches (exec cfg) (FailsEarly cfg) σ₀ σ) : AsksForPrefill σ := by
  obtain ⟨r, hf, hr, rfl⟩ := dispatchRequest_eq_some hstart
  rw [hmode] at hf
  have hi : InPrefill cfg σ :=
    hrun.invariant (inPrefill_start (prefill_of_fits hf hr)) fun _ _ _ hok hex h =>
      inPrefill_step hmode hok (exec_step hex) h
  exact hi.asks

/-- An attempt whose first chunk is a retryable error, up to the point where the next scheduling is
issued. -/
def failAndRetry : List Action :=
  [.emit, .route, .route, .route, .route, .backoff true, .route]

/-- A gateway with staged scheduling and without request-state tracking. -/
def untrackedConfig : Config := { stagedConfig with requestStateReportInterval := 0 }

theorem retries_ask_for_prefill_untracked : untrackedConfig.schedulingMode = .pdStaged ∧
      ∃ σ₀ σ, dispatchRequest untrackedConfig (.scheduled [worker "p" .prefill]) = some σ₀ ∧
        Reaches (exec untrackedConfig) (FailsEarly untrackedConfig) σ₀ σ ∧
          σ.handler = .rescheduling (.upstream 503) ∧ AsksForPrefill σ := by
  refine ⟨rfl, ?_⟩
  have hru : ∃ σ₀ ∈ dispatchRequest untrackedConfig (.scheduled [worker "p" .prefill]),
      ∃ σ ∈ runAll (exec untrackedConfig) (FailsEarly untrackedConfig) σ₀
        ([.route, .prefill (some (.upstream 503))] ++ failAndRetry),
          σ.handler = .rescheduling (.upstream 503) := ⟨_, rfl, _, rfl, rfl⟩
  obtain ⟨σ₀, hs, σ, hru, he⟩ := hru
  have hr := Reaches.of_runAll _ hru
  exact ⟨σ₀, σ, hs, hr, he, retries_ask_for_prefill untrackedConfig rfl _ σ₀ σ hs hr⟩

/-- **A retry asks for a decode instance**: the backend that is to decode answers with status 503, and
the retry finds the stage that `ScheduleDecode` has set. -/
theorem retry_asks_for_decode :
    ¬ ∀ (cfg : Config) (a : Answer) (σ₀ σ : State), cfg.schedulingMode = .pdStaged →
      dispatchRequest cfg a = some σ₀ → Reaches (exec cfg) free σ₀ σ → AsksForPrefill σ := by
  intro hal
  have hr : ∃ σ₀ ∈ dispatchRequest untrackedConfig (.scheduled [worker "p" .prefill]),
      ∃ σ ∈ runAll (exec untrackedConfig) free σ₀ (reachStream [.err (.upstream 503)] ++ failAndRetry),
        σ.handler = .rescheduling (.upstream 503) ∧ σ.schedulingStage = .decode := ⟨_, rfl, _, rfl, rfl, rfl⟩
  obtain ⟨σ₀, hs, σ, hr, hh, hst⟩ := hr
  have ha := hal untrackedConfig _ σ₀ σ rfl hs (Reaches.of_runAll _ hr)
  cases hst.symm.trans (ha.schedule _ hh)

end Llumnix.Gateway
