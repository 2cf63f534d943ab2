/-
**Forwarding the outputs of an engine step.**

A step of the engine leaves a group of outputs for each of its clients, and every output names the queue
server it is for.  The forwarder folds the groups into one message for each server, sends the messages, and
has the requests of the servers it could not reach aborted.  A group with several servers is spread over the
messages, by appending; a group with a single server replaces the message of that server.

* `forwardsOnce_iff` — **outputs are forwarded once exactly if no such group replaces anything**.
-/

import Mathlib.Data.Finmap

namespace Llumnix.Outputs

open List

/-- An output of the engine for a request; `numOutputTokens` is the entry of `kv_transfer_params`. -/
structure EngineCoreOutput where
  requestId : String
  queueServerAddress : String
  newTokenIds : List Nat
  numOutputTokens : Option Nat
  finished : Bool
  deriving DecidableEq

/-- The outputs of the message for each server. -/
abbrev RequestOutputs := Finmap fun _ : String => List EngineCoreOutput

/-- Whether the outputs name more than one server, after the given one. -/
def multiClients : Option String → List EngineCoreOutput → Bool
  | _, [] => false
  | none, o :: outputs => multiClients (some o.queueServerAddress) outputs
  | some previous, o :: outputs =>
    if previous ≠ o.queueServerAddress then true else multiClients (some previous) outputs

variable (groups : List (List EngineCoreOutput)) (t : RequestOutputs)

/-- Appending an output to the message of its server. -/
def appendOutput (o : EngineCoreOutput) : RequestOutputs :=
  t.insert o.queueServerAddress ((t.lookup o.queueServerAddress).getD [] ++ [o])

def addGroup (group : List EngineCoreOutput) : RequestOutputs :=
  match group with
  | [] => t
  | first :: _ =>
    if multiClients none group then group.foldl appendOutput t
    else t.insert first.queueServerAddress group

def requestOutputs : RequestOutputs := groups.foldl addGroup ∅

/-- Sending the messages, which end in the given order: the requests to abort. -/
def putNowaitToServers (order : List String) (dead : String → Bool) (t : RequestOutputs) : List String :=
  order.flatMap fun server =>
    if dead server then ((t.lookup server).getD []).map (·.requestId) else []

/-! ### The property -/

def sentTo (server : String) : List EngineCoreOutput :=
  ((requestOutputs groups).lookup server).getD []

/-- The outputs that name a server. -/
def naming (server : String) (outputs : List EngineCoreOutput) : List EngineCoreOutput :=
  outputs.filter fun o => o.queueServerAddress = server

/-- **Every output is forwarded once**, in the order of its group, and if a server cannot be reached,
exactly the requests with outputs for it are reported. -/
structure ForwardsOnce (groups : List (List EngineCoreOutput)) : Prop where
  sent : ∀ server, (sentTo groups server).Perm (naming server groups.flatten)
  ordered : ∀ server, ∀ group ∈ groups, (naming server group).Sublist (sentTo groups server)
  reported : ∀ order dead, (∀ server, server ∈ order ↔ server ∈ requestOutputs groups) →
    ∀ requestId, requestId ∈ putNowaitToServers order dead (requestOutputs groups) ↔
      ∃ o ∈ groups.flatten, dead o.queueServerAddress = true ∧ o.requestId = requestId

/-- A group whose outputs all name this one server. -/
def Overwrites (group : List EngineCoreOutput) (server : String) : Prop :=
  group ≠ [] ∧ ∀ o ∈ group, o.queueServerAddress = server

instance (group : List EngineCoreOutput) (server : String) : Decidable (Overwrites group server) :=
  inferInstanceAs (Decidable (_ ∧ _))

/-- **No group with a single server follows a group that has an output for this server.** -/
def Unshared : Prop :=
  groups.Pairwise fun earlier group => ∀ o ∈ earlier, ¬ Overwrites group o.queueServerAddress

/-! ### One group -/

theorem multiClients_some (server : String) (outputs : List EngineCoreOutput) :
    multiClients (some server) outputs = false ↔ ∀ o ∈ outputs, o.queueServerAddress = server := by
  induction outputs with
  | nil => simp [multiClients]
  | cons o outputs ih =>
    by_cases h : server = o.queueServerAddress
    · simp [multiClients, ← h, ih]
    · simp [multiClients, h, Ne.symm h]

theorem lookup_appendOutput (o : EngineCoreOutput) (server : String) :
    ((appendOutput t o).lookup server).getD [] = (t.lookup server).getD [] ++ naming server [o] := by
  by_cases h : o.queueServerAddress = server
  · subst h
    simp [appendOutput, naming]
  · simp [appendOutput, naming, h, Finmap.lookup_insert_of_ne _ (Ne.symm h)]

section

variable (groups : List (List EngineCoreOutput)) (group : List EngineCoreOutput) (server : String)

theorem lookup_foldl : ∀ t : RequestOutputs,
    ((group.foldl appendOutput t).lookup server).getD [] =
      (t.lookup server).getD [] ++ naming server group := by
  induction group with
  | nil => simp [naming]
  | cons o group ih =>
    intro t
    rw [foldl_cons, ih, lookup_appendOutput, append_assoc, naming, naming, naming,
      ← filter_append, singleton_append]

/-- **What a group does to a message**: it may replace what is there, and it adds its own outputs. -/
theorem lookup_addGroup : ((addGroup t group).lookup server).getD [] =
      (if Overwrites group server then [] else (t.lookup server).getD []) ++ naming server group := by
  cases group with
  | nil => simp [addGroup, Overwrites, naming]
  | cons first rest =>
  by_cases hm : multiClients none (first :: rest) = true
  · have hmi : ¬ Overwrites (first :: rest) server := by
      rintro ⟨-, ha⟩
      have hs : multiClients none (first :: rest) = false := by
        rw [multiClients, multiClients_some, ha first mem_cons_self]
        exact fun o ho => ha o (mem_cons_of_mem _ ho)
      simp [hs] at hm
    rw [addGroup, if_pos hm, lookup_foldl, if_neg hmi]
  · have ha : ∀ o ∈ first :: rest, o.queueServerAddress = first.queueServerAddress := by
      rw [multiClients, Bool.not_eq_true, multiClients_some] at hm
      simpa using hm
    rw [addGroup, if_neg hm]
    by_cases h : first.queueServerAddress = server
    · subst h
      have hse : naming first.queueServerAddress (first :: rest) = first :: rest :=
        filter_eq_self.2 fun o ho => decide_eq_true (ha o ho)
      rw [if_pos ⟨cons_ne_nil _ _, ha⟩, hse, Finmap.lookup_insert]
      rfl
    · have hn : naming server (first :: rest) = [] :=
        filter_eq_nil_iff.2 fun o ho => by simp [ha o ho, h]
      rw [if_neg fun hov => h (hov.2 first mem_cons_self), hn, append_nil,
        Finmap.lookup_insert_of_ne _ (Ne.symm h)]

/-! ### All groups -/

theorem sentTo_concat : sentTo (groups ++ [group]) server =
      (if Overwrites group server then [] else sentTo groups server) ++ naming server group := by
  rw [sentTo, requestOutputs, foldl_append, foldl_cons, foldl_nil, lookup_addGroup]
  rfl

theorem naming_concat : naming server (groups ++ [group]).flatten =
      naming server groups.flatten ++ naming server group := by
  simp [naming]

theorem unshared_concat : Unshared (groups ++ [group]) ↔
      Unshared groups ∧ ∀ server, Overwrites group server → naming server groups.flatten = [] := by
  simp only [Unshared, pairwise_append, pairwise_singleton, mem_singleton, true_and,
    forall_eq, naming, filter_eq_nil_iff, mem_flatten, decide_eq_true_eq]
  refine and_congr_right fun _ => ⟨?_, ?_⟩
  · rintro h server hov o ⟨earlier, he, ho⟩ rfl
    exact h earlier he o ho hov
  · intro h earlier he o ho hov
    exact h _ hov o ⟨earlier, he, ho⟩ rfl

end

theorem length_sentTo_le (groups : List (List EngineCoreOutput)) (server : String) :
    (sentTo groups server).length ≤ (naming server groups.flatten).length := by
  induction groups using reverseRecOn with
  | nil => simp [sentTo, requestOutputs]
  | append_singleton =>
    rw [sentTo_concat, naming_concat, length_append, length_append]
    split
    · simp
    · omega

variable {groups : List (List EngineCoreOutput)}

theorem sentTo_eq (h : Unshared groups) (server : String) :
    sentTo groups server = naming server groups.flatten := by
  induction groups using reverseRecOn with
  | nil => simp [sentTo, requestOutputs, naming]
  | append_singleton groups group ih =>
    obtain ⟨hg, hl⟩ := (unshared_concat _ _).1 h
    rw [sentTo_concat, naming_concat]
    split
    · next ho => rw [hl server ho]
    · rw [ih hg]

theorem unshared_of_length
    (h : ∀ server, (sentTo groups server).length = (naming server groups.flatten).length) :
    Unshared groups := by
  induction groups using reverseRecOn with
  | nil => exact .nil
  | append_singleton groups group ih =>
  have hs : ∀ server, (if Overwrites group server then [] else sentTo groups server).length =
      (naming server groups.flatten).length := by
    intro server
    have ha := h server
    rw [sentTo_concat, naming_concat, length_append, length_append] at ha
    omega
  refine (unshared_concat _ _).2 ⟨ih fun server => ?_, fun server ho => ?_⟩
  · have hle := length_sentTo_le groups server
    have hl := hs server
    split at hl
    · rw [length_nil] at hl
      omega
    · exact hl
  · have hl := hs server
    rw [if_pos ho] at hl
    exact length_eq_zero_iff.1 hl.symm

theorem mem_putNowaitToServers {order : List String} {dead : String → Bool}
    (hor : ∀ server, server ∈ order ↔ server ∈ requestOutputs groups)
    (h : ∀ server, sentTo groups server = naming server groups.flatten) (requestId : String) :
    requestId ∈ putNowaitToServers order dead (requestOutputs groups) ↔
      ∃ o ∈ groups.flatten, dead o.queueServerAddress = true ∧ o.requestId = requestId := by
  have hm : requestId ∈ putNowaitToServers order dead (requestOutputs groups) ↔
      ∃ server ∈ order, dead server = true ∧ ∃ o ∈ sentTo groups server, o.requestId = requestId := by
    simp only [putNowaitToServers, mem_flatMap, sentTo]
    refine exists_congr fun server => and_congr_right fun _ => ?_
    split <;> simp [*]
  rw [hm]
  constructor
  · rintro ⟨server, -, hde, o, ho, hid⟩
    rw [h, naming, mem_filter, decide_eq_true_eq] at ho
    exact ⟨o, ho.1, ho.2 ▸ hde, hid⟩
  rintro ⟨o, ho, hde, hid⟩
  have hs : o ∈ sentTo groups o.queueServerAddress := by
    rw [h, naming, mem_filter]
    exact ⟨ho, decide_eq_true rfl⟩
  refine ⟨_, (hor _).2 ?_, hde, o, hs, hid⟩
  by_contra hnone
  rw [sentTo, Finmap.lookup_eq_none.2 hnone] at hs
  cases hs

/-- **Every output is forwarded once exactly if no group with a single server follows a group that has
an output for this server.** -/
theorem forwardsOnce_iff (groups : List (List EngineCoreOutput)) :
    ForwardsOnce groups ↔ Unshared groups := by
  constructor
  · intro h
    exact unshared_of_length fun server => (h.sent server).length_eq
  · intro h
    have hs := sentTo_eq h
    refine ⟨fun server => hs server ▸ .refl _, fun server group hg => ?_, ?_⟩
    · rw [hs]
      exact (sublist_flatten_of_mem hg).filter _
    · intro order dead ho requestId
      exact mem_putNowaitToServers ho hs requestId

/-- **Two clients behind one server**: the output of the first one is lost. -/
theorem shared_server_loses_output : ¬ ∀ groups, ForwardsOnce groups := by
  intro h
  have hs := (h [[⟨"a", "s", [1], none, false⟩], [⟨"b", "s", [2], none, false⟩]]).sent "s"
  exact absurd hs.length_eq (by decide +kernel)

end Llumnix.Outputs
