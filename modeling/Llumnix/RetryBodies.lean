/-
**The bodies of a retried request.**

In staged scheduling the KVT forwarder (`pkg/gateway/forwarder/pd_vllm_kvt_forwarder.go`) sends a prefill
body and, when the prefill has succeeded and a decode instance has been found, a decode body.  The prefill
body is built from a shallow copy of the request, which shares the map of the transfer parameters with it,
and the decode body from the request itself, so what an attempt records would be there in the next one.  But
the attempt that builds a decode body has been scheduled for its decode stage, a retry is scheduled for that
stage as well, and without a prefill instance `Forward` returns at once.

* `sends_fresh` — **every body is the one that a first attempt would send**.
-/

import Llumnix.FiniteMap
import Llumnix.GatewayStage

namespace Llumnix.Kvt

open FiniteMap Gateway GuardedRun

/-! ### The bodies -/

/-- The values of transfer parameters. -/
inductive Value
  | bool (b : Bool)
  | string (s : String)
  | number (n : Int)
  | json (text : String)
  deriving DecidableEq

abbrev Params := Finmap fun _ : String => Value

/-- The request as the forwarder uses it: `kvTransferParams` is nil or a map, the other fields but
`max_tokens` are only copied. -/
structure CompletionRequest (ρ : Type) where
  fields : ρ
  maxTokens : Option Nat
  kvTransferParams : Option Params

section

variable {ρ : Type} (req : CompletionRequest ρ) (pInstance : LLMInstance)

/-- The body of `buildPrefillRequestData`, and the request with the map that the body shares. -/
def buildPrefillRequestData : CompletionRequest ρ × CompletionRequest ρ :=
  ({ req with
      maxTokens := some 1
      kvTransferParams := some ((req.kvTransferParams.getD ∅).insert "do_remote_decode" (.bool true)) },
    { req with kvTransferParams := req.kvTransferParams.map (·.insert "do_remote_decode" (.bool true)) })

/-- `buildDecodeRequestData`: the body is the request itself. -/
def buildDecodeRequestData : CompletionRequest ρ :=
  { req with
    kvTransferParams := some ((((req.kvTransferParams.getD ∅).insert "remote_host"
      (.string pInstance.auxIp)).insert "remote_port" (.number pInstance.auxPort)).insert
        "do_remote_prefill" (.bool true)) }

/-- The bodies of a first attempt. -/
def prefillBody : CompletionRequest ρ := (buildPrefillRequestData req).1

def decodeBody : CompletionRequest ρ := buildDecodeRequestData (buildPrefillRequestData req).2 pInstance

/-- Building another prefill body changes nothing. -/
theorem buildPrefillRequestData_again :
    buildPrefillRequestData (buildPrefillRequestData req).2 = buildPrefillRequestData req := by
  cases hk : req.kvTransferParams <;> simp [buildPrefillRequestData, hk, Finmap.insert_insert]

end

/-! ### Requests with their bodies -/

inductive Body (ρ : Type)
  | prefill (body : CompletionRequest ρ)
  | decode (pInstance : LLMInstance) (body : CompletionRequest ρ)

/-- A request on its way through the gateway, with the bodies built so far. -/
structure State (ρ : Type) where
  gateway : Gateway.State
  req : CompletionRequest ρ
  sent : List (Body ρ)

variable {ρ : Type} (cfg : Config)

/-- What `doPrefill` and `doDecode` build in a step. -/
def State.build (s : State ρ) : Action → CompletionRequest ρ × List (Body ρ)
  | .prefill _ => ((buildPrefillRequestData s.req).2, [.prefill (buildPrefillRequestData s.req).1])
  | .connect _ =>
    match s.gateway.schedulingResults.getInstanceByInferType .prefill with
    | some pInstance =>
      (buildDecodeRequestData s.req pInstance, [.decode pInstance (buildDecodeRequestData s.req pInstance)])
    | none => (s.req, [])
  | _ => (s.req, [])

def exec (s : State ρ) (a : Action) : Option (State ρ) :=
  (Gateway.exec cfg s.gateway a).map fun σ => ⟨σ, (s.build a).1, s.sent ++ (s.build a).2⟩

/-- The body is the one of a first attempt with the same instances. -/
def Body.Fresh (req : CompletionRequest ρ) : Body ρ → Prop
  | prefill body => body = prefillBody req
  | decode pInstance body => body = decodeBody req pInstance

/-! ### The invariant -/

/-- No attempt gets as far as a body any more. -/
structure Spent (σ : Gateway.State) : Prop where
  stage : σ.schedulingStage = .decode
  late : ¬ σ.reader.Early
  starting : σ.handler = .forwarding → ∀ w ∈ σ.schedulingResults, w.inferType ≠ .prefill

/-- **The decode body comes last**: until it is built, the request is as the client has sent it, but for what
a prefill body adds. -/
structure Tidy (req : CompletionRequest ρ) (s : State ρ) : Prop where
  fresh : ∀ b ∈ s.sent, b.Fresh req
  waits : Waits s.gateway
  connecting : s.gateway.reader = .connecting → s.gateway.schedulingStage = .decode
  prefilled : s.gateway.reader = .scheduling ∨ s.gateway.reader = .connecting →
    s.req = (buildPrefillRequestData req).2
  clean : s.req = req ∨ s.req = (buildPrefillRequestData req).2 ∨ Spent s.gateway

variable {cfg} {σ σ' : Gateway.State} {a : Action} {req : CompletionRequest ρ} {s s' : State ρ}

/-- The stage never goes back. -/
theorem stage_step (hs : Step cfg σ a σ') :
    σ'.schedulingStage = σ.schedulingStage ∨ σ'.schedulingStage = .decode := by
  cases hs with
  | receivedFirst =>
    rw [onPostPrefill_eq]
    split
    · exact .inr rfl
    · exact .inl rfl
  | decodeUnscheduled | decodeScheduled => exact .inr rfl
  | _ => exact .inl rfl

theorem spent_step (hm : cfg.schedulingMode = .pdStaged) (hs : Step cfg σ a σ') (h : Spent σ) : Spent σ' := by
  refine ⟨(stage_step hs).elim (·.trans h.stage) id, ?_, ?_⟩
  · cases hs with
    | forwarded hn hf =>
      -- the forwarder misses the prefill instance
      have hso := hf .prefill (by rw [hm]; decide)
      obtain ⟨w, hw⟩ := Option.isSome_iff_exists.1 (Option.isNone_eq_false_iff.1 hso)
      exact absurd (by simpa using List.find?_some hw) (h.starting hn w (List.mem_of_find?_eq_some hw))
    | prefilled hr | decodeScheduled hr => exact absurd (by simp [Reader.Early, hr]) h.late
    | prefillFailed | decodeUnscheduled | connected | ended | cutOff => simp [Reader.Early]
    | emitted => split <;> simp [Reader.Early]
    | _ => exact h.late
  · cases hs with
    | @rescheduled _ a r _ hf hr =>
      intro _ w hw
      rw [hm, h.stage] at hf
      have hme := List.mem_map_of_mem (f := LLMInstance.inferType) hw
      rw [hf.roles_staged hr] at hme
      simp only [needs, List.mem_singleton] at hme
      simp [hme]
    | @written next => cases next <;> simp [Next.handler]
    | exhausted | unscheduled => split <;> simp [respond]
    | decodeScheduled hr => exact absurd (by simp [Reader.Early, hr]) h.late
    | _ =>
      first
      | exact h.starting
      | simp [respond]

/-- Steps in which no body is built. -/
theorem Tidy.keep (hm : cfg.schedulingMode = .pdStaged) (h : Tidy req s) (hs : Step cfg s.gateway a σ)
    (ha : ∀ r, a ≠ .prefill r) (hc : ∀ stream, a ≠ .connect stream) :
    Tidy req ⟨σ, s.req, s.sent⟩ where
  fresh := h.fresh
  waits := waits_step hs h.waits
  connecting hr := by
    cases hs with
    | forwarded => simp [firstReader, hm] at hr
    | decodeScheduled => rfl
    | prefilled | prefillFailed | connected | decodeUnscheduled | ended | cutOff => simp at hr
    | emitted => split at hr <;> simp at hr
    | receivedFirst hn hch =>
      rw [(h.waits (.inr (.inr hr))).2.2] at hch
      cases hch
    | _ => exact h.connecting hr
  prefilled hr := by
    cases hs with
    | forwarded => simp [firstReader, hm] at hr
    | prefilled | prefillFailed => exact absurd rfl (ha _)
    | connected => exact absurd rfl (hc _)
    | decodeScheduled hr' => exact h.prefilled (.inl hr')
    | decodeUnscheduled | ended | cutOff => simp at hr
    | emitted => split at hr <;> simp at hr
    | _ => exact h.prefilled hr
  clean := h.clean.imp_right (Or.imp_right (spent_step hm hs))

theorem tidy_step (hm : cfg.schedulingMode = .pdStaged) (hex : exec cfg s a = some s') (h : Tidy req s) :
    Tidy req s' := by
  obtain ⟨σ, hσ, rfl⟩ := Option.map_eq_some_iff.1 hex
  have hs := exec_step hσ
  cases a with
  | prefill r =>
    have hr : s.gateway.reader = .prefilling := by
      cases hs with
      | prefilled hr | prefillFailed hr => exact hr
    have hb : buildPrefillRequestData s.req = buildPrefillRequestData req := by
      rcases h.clean with hc | hc | hc
      · rw [hc]
      · rw [hc, buildPrefillRequestData_again]
      · exact absurd (.inl hr) hc.late
    refine ⟨?_, waits_step hs h.waits, fun hr' => ?_, fun _ => ?_, .inr (.inl ?_)⟩
    · simp only [State.build, hb, List.mem_append, List.mem_singleton]
      rintro b (hm | rfl)
      · exact h.fresh b hm
      · rfl
    · cases hs <;> cases hr'
    · simp only [State.build, hb]
    · simp only [State.build, hb]
  | connect stream =>
    have hr : s.gateway.reader = .connecting := by
      cases hs with
      | connected hr => exact hr
    have hq := h.prefilled (.inr hr)
    have hsp : Spent σ := by
      have hn := (h.waits (.inr (.inr hr))).1
      cases hs
      exact ⟨h.connecting hr, by simp [Reader.Early], fun hf => by cases hn.symm.trans hf⟩
    refine ⟨?_, waits_step hs h.waits, fun hr' => ?_, fun hr' => ?_, .inr (.inr hsp)⟩
    · simp only [State.build]
      intro b hm
      rcases List.mem_append.1 hm with hm | hm
      · exact h.fresh b hm
      · split at hm
        · rw [List.mem_singleton.1 hm, hq]
          rfl
        · cases hm
    · exact absurd (.inr (.inr hr')) hsp.late
    · exact absurd (hr'.elim (.inr ∘ .inl) (.inr ∘ .inr)) hsp.late
  | _ =>
    simp only [State.build, List.append_nil]
    exact h.keep hm hs (by simp) (by simp)

/-! ### The theorem -/

/-- **Every body is the one that a first attempt with the same instances would send**, in every run of a
staged request. -/
theorem sends_fresh (cfg : Config) (hmode : cfg.schedulingMode = .pdStaged) (a : Answer)
    (σ₀ : Gateway.State) (hstart : dispatchRequest cfg a = some σ₀) (req : CompletionRequest ρ) (s : State ρ)
    (hrun : Reaches (exec cfg) free ⟨σ₀, req, []⟩ s) : ∀ b ∈ s.sent, b.Fresh req := by
  obtain ⟨r, -, -, rfl⟩ := dispatchRequest_eq_some hstart
  have h₀ : Tidy req ⟨State.start cfg r a.allocated, req, []⟩ :=
    ⟨by simp, waits_start cfg r _, by simp [State.start], by simp [State.start], .inl rfl⟩
  exact (hrun.invariant h₀ fun _ _ _ _ hex h => tidy_step hmode hex h).fresh

/-- The first prefill is refused; the second attempt, on another instance, gets to its decode body. -/
theorem sends_fresh_retry : ∃ σ₀ s, dispatchRequest untrackedConfig (.scheduled [worker "p" .prefill]) = some σ₀ ∧
    Reaches (exec untrackedConfig) free ⟨σ₀, (⟨(), none, none⟩ : CompletionRequest Unit), []⟩ s ∧
      s.sent.length = 3 ∧ ∀ b ∈ s.sent, b.Fresh ⟨(), none, none⟩ := by
  have hru : ∃ σ₀ ∈ dispatchRequest untrackedConfig (.scheduled [worker "p" .prefill]),
      ∃ s ∈ runAll (exec untrackedConfig) free ⟨σ₀, (⟨(), none, none⟩ : CompletionRequest Unit), []⟩
        ([.route, .prefill (some (.upstream 503))] ++ failAndRetry ++
          [.reschedule (.scheduled [worker "q" .prefill])] ++ reachStream []), s.sent.length = 3 :=
    ⟨_, rfl, _, rfl, rfl⟩
  obtain ⟨σ₀, hs, s, hru, hl⟩ := hru
  have hr := Reaches.of_runAll _ hru
  exact ⟨σ₀, s, hs, hr, hl, sends_fresh untrackedConfig rfl _ σ₀ hs _ s hr⟩

end Llumnix.Kvt
