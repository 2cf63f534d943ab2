/-
**The order of the outputs of a migrated request.**

The outputs of a request cut its tokens into blocks, and each carries the position of its end.  The client
lets an output through if it begins where the last one ended.  Others it puts on the stash, and there they
stay.

* `keepsOrder_iff` — **the tokens arrive in order exactly if the outputs do**.
-/

import Llumnix.OutputLoop

namespace Llumnix.Outputs

open GuardedRun List

def EngineCoreOutput.position (o : EngineCoreOutput) : Nat := o.numOutputTokens.getD 0

/-- **The blocks of a request from a position on**: none is empty, each one begins where the one before
it ends, and only the last one finishes the request. -/
def Blocks : Nat → List EngineCoreOutput → Prop
  | _, [] => True
  | p, o :: rest => o.newTokenIds ≠ [] ∧ o.numOutputTokens = some (p + o.newTokenIds.length) ∧
      (o.finished = true ↔ rest = []) ∧ Blocks (p + o.newTokenIds.length) rest

/-- The outputs of a request that the client has handed on. -/
def Loop.handedOn (s : Loop) (r : String) : List EngineCoreOutput :=
  outputsOf r s.client.outputsQueue.flatten

/-- **The outputs of a request are handed on in order and, once all have arrived, completely**, with the
finishing one at the end. -/
structure KeepsOrder (r : String) (blocks : List EngineCoreOutput) (s : Loop) : Prop where
  ordered : (s.handedOn r).Pairwise fun o o' => o.position < o'.position
  complete : (outputsOf r s.arrived).Perm blocks →
    (s.handedOn r).Perm blocks ∧ ∀ o ∈ (s.handedOn r).getLast?, o.finished = true

/-- The runs of a loop that goes on and that serves the request: it is not aborted, it is known when one
of its outputs arrives, and its outputs have positions. -/
def Serves (r : String) (s : Loop) : Event → Prop
  | .batch b requestStates => Uniform s.client b.outputs ∧
      ∀ o ∈ b.outputs, o.requestId = r → r ∈ requestStates ∧ o.numOutputTokens ≠ none
  | .answer outcome => outcome ≠ .raised
  | .abort requestId => r ≠ requestId

instance (r : String) (s : Loop) : ∀ e, Decidable (Serves r s e) := by
  rintro (_ | _ | _) <;> (dsimp only [Serves]; infer_instance)

/-! ### What is handed on -/

section

variable {r : String} {s u : Loop}

/-- **What is handed on of a request is what passes of its outputs.** -/
structure Follows (r : String) (s : Loop) : Prop where
  going : s.phase ≠ .ended
  aborted : r ∉ s.client.abortedRequests
  handed : ∃ p, s.client.position r = some p ∧
    (s.handedOn r, p) = (outputsOf r s.arrived).foldl pass ([], 0)

theorem foldl_pass_append (handed : List EngineCoreOutput) (outputs : List EngineCoreOutput) :
    ∀ st : List EngineCoreOutput × Nat, outputs.foldl pass (handed ++ st.1, st.2) =
      (handed ++ (outputs.foldl pass st).1, (outputs.foldl pass st).2) := by
  induction outputs with
  | nil => exact fun _ => rfl
  | cons o outputs ih =>
  intro st
  simp only [foldl_cons, pass]
  split
  · exact ih st
  · rw [append_assoc]
    exact ih (st.1 ++ [o], _)

theorem handed_deliver (t : Turn) (stats : Bool) : outputsOf r (t.deliver stats).outputsQueue.flatten =
      outputsOf r t.client.outputsQueue.flatten ++ outputsOf r t.processedOutputs := by
  unfold Turn.deliver outputsOf
  split
  · simp
  · next h =>
    have hn : t.processedOutputs = [] := by
      by_contra hne
      exact h (.inl hne)
    simp [hn]

theorem Follows.exec (h : Follows r s) {e : Event} (hok : Serves r s e) (hex : s.exec e = some u) :
    Follows r u := by
  have hc : Calm s e := by
    cases e with
    | batch => exact hok.1
    | answer => exact hok
    | abort => trivial
  have hg := (going_exec hc hex h.going).1
  obtain ⟨p, hp, hh⟩ := h.handed
  cases e with
  | abort requestId =>
    cases hex
    refine ⟨hg, ?_, p, ?_, hh⟩
    · exact fun hm => h.aborted ((Finset.mem_insert.1 hm).resolve_left hok)
    · exact (position_clear s.client requestId r).trans ((if_neg hok).trans hp)
  | answer outcome =>
    simp only [Loop.exec] at hex
    split at hex <;> cases hex
    cases outcome with
    | success =>
      exact ⟨hg, fun hm => h.aborted (Finset.mem_sdiff.1 hm).1, p, hp, hh⟩
    | refused => exact ⟨hg, h.aborted, p, hp, hh⟩
    | raised => exact absurd rfl hok
  | batch b requestStates =>
  simp only [Loop.exec] at hex
  split at hex <;> cases hex
  · obtain ⟨t, hpa, heq⟩ := Loop.process_eq (s := { s with arrived := s.arrived ++ b.outputs }) b
      requestStates hok.1
    obtain ⟨hab, hpo⟩ := deliver_frame t b.schedulerStats
    obtain ⟨p', hp', hf⟩ := hpa.own r p h.aborted hok.2 hp
    rw [heq] at hg ⊢
    refine ⟨hg, ?_, p', (hpo r).trans hp', ?_⟩
    · rw [hab, hpa.aborted]
      exact h.aborted
    have ha := foldl_pass_append (s.handedOn r) (outputsOf r b.outputs) ([], p)
    rw [append_nil, hh] at ha
    rw [Loop.handedOn, handed_deliver, hpa.queue, outputsOf, outputsOf, outputsOf,
      filter_append, foldl_append]
    refine Eq.trans ?_ ha.symm
    have hen := congrArg Prod.snd hf
    refine Prod.ext ?_ hen
    exact congrArg (s.handedOn r ++ ·) (congrArg Prod.fst hf)
  · next he => exact absurd he h.going

theorem follows_of_reaches (h : Reaches Loop.exec (Serves r) {} s) : Follows r s :=
  h.invariant (I := Follows r) ⟨nofun, Finset.notMem_empty r, 0, rfl, rfl⟩
    fun _ _ _ hok hex hs => hs.exec hok hex

end

/-! ### Blocks -/

section

variable {p : Nat} {o : EngineCoreOutput} {blocks arrived : List EngineCoreOutput}

theorem Blocks.le_position (h : Blocks p blocks) (ho : o ∈ blocks) :
    o.newTokenIds ≠ [] ∧ p + o.newTokenIds.length ≤ o.position := by
  induction blocks generalizing p with
  | nil => cases ho
  | cons b blocks ih =>
    obtain ⟨hne, hp, -, hr⟩ := h
    rcases mem_cons.1 ho with rfl | ho
    · exact ⟨hne, by simp [EngineCoreOutput.position, hp]⟩
    · obtain ⟨hne, hle⟩ := ih hr ho
      exact ⟨hne, by omega⟩

theorem Blocks.pairwise (h : Blocks p blocks) : blocks.Pairwise fun o o' => o.position < o'.position := by
  induction blocks generalizing p with
  | nil => exact .nil
  | cons b blocks ih =>
  obtain ⟨-, hp, -, hr⟩ := h
  refine pairwise_cons.2 ⟨fun o ho => ?_, ih hr⟩
  obtain ⟨hne, hle⟩ := hr.le_position ho
  have hl := length_pos_iff.2 hne
  simp only [EngineCoreOutput.position, hp, Option.getD_some] at hle ⊢
  omega

theorem Blocks.finished (h : Blocks p blocks) : ∀ o ∈ blocks.getLast?, o.finished = true := by
  induction blocks generalizing p with
  | nil => exact nofun
  | cons b blocks ih =>
    obtain ⟨-, -, hf, hr⟩ := h
    cases blocks with
    | nil => simpa using hf
    | cons => simpa using ih hr

theorem Blocks.pass_cons (h : Blocks p (o :: blocks)) (handed : List EngineCoreOutput) :
    pass (handed, p) o = (handed ++ [o], if blocks = [] then 0 else p + o.newTokenIds.length) := by
  obtain ⟨-, hp, hfi, -⟩ := h
  by_cases hn : blocks = []
  · simp [pass, hp, hn, hfi.2 hn]
  · have hno : o.finished = false := Bool.eq_false_iff.2 fun hf => hn (hfi.1 hf)
    simp [pass, hp, hn, hno]

theorem Blocks.foldl_pass (h : Blocks p blocks) : ∀ handed : List EngineCoreOutput,
    (blocks.foldl pass (handed, p)).1 = handed ++ blocks := by
  induction blocks generalizing p with
  | nil => simp
  | cons b blocks ih =>
  intro handed
  rw [foldl_cons, h.pass_cons]
  split
  · next hn => simp [hn]
  · rw [ih h.2.2.2]
    simp

/-- **In any order only the first blocks pass**: an early one is put aside, and one that is not early is
the next. -/
theorem Blocks.pass_subperm (h : Blocks p blocks) (ha : arrived.Subperm blocks) :
    ∀ handed : List EngineCoreOutput, ∃ passed, passed <+: blocks ∧ passed.Sublist arrived ∧
      (arrived.foldl pass (handed, p)).1 = handed ++ passed := by
  induction arrived generalizing p blocks with
  | nil => exact fun handed => ⟨[], nil_prefix, .refl _, (append_nil _).symm⟩
  | cons o arrived ih =>
  intro handed
  by_cases he : p + o.newTokenIds.length < o.position
  · have hpa : pass (handed, p) o = (handed, p) := if_pos he
    obtain ⟨passed, hp, hs, heq⟩ := ih h ((sublist_cons_self _ _).subperm.trans ha) handed
    exact ⟨passed, hp, hs.cons _, by rw [foldl_cons, hpa, heq]⟩
  cases blocks with
  | nil => cases ha.subset mem_cons_self
  | cons b rest =>
  obtain rfl : o = b := by
    refine (mem_cons.1 (ha.subset mem_cons_self)).resolve_right fun ho => he ?_
    have hle := (h.2.2.2.le_position ho).2
    have hl := length_pos_iff.2 h.1
    omega
  have hr : arrived.Subperm rest := (subperm_cons o).1 ha
  rw [foldl_cons, h.pass_cons]
  by_cases hn : rest = []
  · subst hn
    obtain rfl : arrived = [] := subperm_nil.1 hr
    exact ⟨[o], prefix_rfl, .refl _, rfl⟩
  · rw [if_neg hn]
    obtain ⟨passed, hp, hs, heq⟩ := ih h.2.2.2 hr (handed ++ [o])
    refine ⟨o :: passed, (cons_prefix_cons).2 ⟨rfl, hp⟩, hs.cons_cons _, ?_⟩
    rw [heq, append_assoc, singleton_append]

end

/-- **The outputs of a request are handed on in order and completely exactly if, once all of them have
arrived, they have arrived in order.** -/
theorem keepsOrder_iff {r : String} {s : Loop} {blocks : List EngineCoreOutput}
    (hreach : Reaches Loop.exec (Serves r) {} s) (hblocks : Blocks 0 blocks)
    (harrived : (outputsOf r s.arrived).Subperm blocks) :
    KeepsOrder r blocks s ↔ ((outputsOf r s.arrived).Perm blocks → outputsOf r s.arrived = blocks) := by
  obtain ⟨p, -, hh⟩ := (follows_of_reaches hreach).handed
  replace hh : s.handedOn r = ((outputsOf r s.arrived).foldl pass ([], 0)).1 := congrArg Prod.fst hh
  obtain ⟨passed, hpr, hs, hpa⟩ := hblocks.pass_subperm harrived []
  rw [hpa, nil_append] at hh
  constructor
  · rintro ⟨-, hc⟩ hp
    have hl := (hh ▸ (hc hp).1).length_eq
    rw [← hs.eq_of_length (hl.trans hp.length_eq.symm)]
    exact hpr.eq_of_length hl
  · intro ha
    refine ⟨hh ▸ hblocks.pairwise.sublist hpr.sublist, fun hp => ?_⟩
    have heq : s.handedOn r = blocks := by
      rw [hh, ← nil_append passed, ← hpa, ha hp, hblocks.foldl_pass]
      rfl
    rw [heq]
    exact ⟨.refl _, hblocks.finished⟩

def twoBlocks : List EngineCoreOutput :=
  [⟨"a", "s", [1, 2], some 2, false⟩, ⟨"a", "s", [3], some 3, true⟩]

/-- They arrive from two instances, with an output of another request between them. -/
def migration (outputs : List EngineCoreOutput) : List Event :=
  outputs.flatMap fun o => [.batch ⟨"i", [o], false⟩ {"a", "b"},
    .batch ⟨"j", [plainOutput "b"], false⟩ {"a", "b"}]

theorem keepsOrder_twoBlocks : ∃ s, Reaches Loop.exec (Serves "a") {} s ∧
    (s.handedOn "a").length = 2 ∧ KeepsOrder "a" twoBlocks s := by
  have hru : ∃ s ∈ runAll Loop.exec (Serves "a") {} (migration twoBlocks),
      outputsOf "a" s.arrived = twoBlocks ∧ (s.handedOn "a").length = 2 := by decide +kernel
  obtain ⟨s, hs, ha, hl⟩ := Reaches.of_exists hru
  exact ⟨s, hs, hl, (keepsOrder_iff hs (by simp [twoBlocks, Blocks]) (ha ▸ .refl _)).2 fun _ => ha⟩

/-- **The second block overtakes the first one**, and is lost. -/
theorem overtaken_output_lost : ∃ s, Reaches Loop.exec (Serves "a") {} s ∧ Blocks 0 twoBlocks ∧
    (outputsOf "a" s.arrived).Perm twoBlocks ∧ ¬ KeepsOrder "a" twoBlocks s := by
  have hr : ∃ s ∈ runAll Loop.exec (Serves "a") {} (migration twoBlocks.reverse),
      outputsOf "a" s.arrived = twoBlocks.reverse ∧ (s.handedOn "a").length = 1 := by decide +kernel
  obtain ⟨s, hs, ha, hl⟩ := Reaches.of_exists hr
  have hp : (outputsOf "a" s.arrived).Perm twoBlocks := ha ▸ reverse_perm _
  refine ⟨s, hs, by simp [twoBlocks, Blocks], hp, fun hk => ?_⟩
  have hal := (hk.complete hp).1.length_eq
  rw [hl] at hal
  exact absurd hal (by decide)

end Llumnix.Outputs
