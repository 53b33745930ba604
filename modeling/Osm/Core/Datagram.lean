import Mathlib.Data.List.Nodup
import Mathlib.Data.Set.Insert
import Mathlib.Tactic.Lemma

/-!
# Datagrams

A channel that may lose messages and deliver them in any order: a message that has been sent is
delivered at most once.
-/

namespace Osm.Core

variable {μ : Type*}

/-- A message is sent or delivered. -/
inductive Transfer (μ : Type*)
  | send (m : μ)
  | deliver (m : μ)

namespace Transfer

/-- The messages that are sent. -/
def sends (es : List (Transfer μ)) : List μ :=
  es.filterMap fun
    | send m    => some m
    | deliver _ => none

/-- The messages that are delivered. -/
def deliveries (es : List (Transfer μ)) : List μ :=
  es.filterMap fun
    | send _    => none
    | deliver m => some m

variable (es es' : List (Transfer μ)) (m : μ)

@[simp] lemma sends_append : sends (es ++ es') = sends es ++ sends es' := List.filterMap_append ..

@[simp] lemma deliveries_append : deliveries (es ++ es') = deliveries es ++ deliveries es' :=
  List.filterMap_append ..

@[simp] lemma sends_nil : sends ([] : List (Transfer μ)) = [] := rfl

@[simp] lemma sends_send : sends [send m] = [m] := rfl

@[simp] lemma sends_deliver : sends [deliver m] = [] := rfl

@[simp] lemma deliveries_nil : deliveries ([] : List (Transfer μ)) = [] := rfl

@[simp] lemma deliveries_send : deliveries [send m] = [] := rfl

@[simp] lemma deliveries_deliver : deliveries [deliver m] = [m] := rfl

end Transfer

/-- The messages that have been sent, and those that may still be delivered. -/
structure Channel (μ : Type*) where
  sent    : Set μ
  pending : Set μ

/-- What a channel does from its beginning on. A message that stays pending is lost. -/
inductive ChannelRun : List (Transfer μ) → Channel μ → Prop
  | nil : ChannelRun [] ⟨∅, ∅⟩
  | send {es : List (Transfer μ)} {c m} (hrun : ChannelRun es c) (h : m ∉ c.sent) :
      ChannelRun (es ++ [.send m]) ⟨insert m c.sent, insert m c.pending⟩
  | deliver {es : List (Transfer μ)} {c m} (hrun : ChannelRun es c) (h : m ∈ c.pending) :
      ChannelRun (es ++ [.deliver m]) ⟨c.sent, c.pending \ {m}⟩

namespace ChannelRun

open Transfer

variable {es : List (Transfer μ)} {c : Channel μ}

/-- What has been delivered has been sent; what may be delivered has been sent and has not been
delivered. -/
theorem spec (h : ChannelRun es c) :
    (∀ m, m ∈ c.sent ↔ m ∈ sends es) ∧ (∀ m ∈ deliveries es, m ∈ sends es) ∧
      ∀ m ∈ c.pending, m ∈ sends es ∧ m ∉ deliveries es := by
  induction h with
  | nil => simp
  | @send es c m _ hnew ih =>
    obtain ⟨hsent, hdelivered, hpending⟩ := ih
    have hundelivered : m ∉ deliveries es := fun hm => hnew ((hsent m).mpr (hdelivered m hm))
    simp only [sends_append, sends_send, deliveries_append, deliveries_send, List.append_nil,
      List.mem_append, List.mem_singleton, Set.mem_insert_iff]
    refine ⟨fun m' => ?_, fun m' hm' => .inl (hdelivered m' hm'), fun m' hm' => ?_⟩
    · rw [hsent, or_comm]
    · rcases hm' with rfl | hm'
      · exact ⟨.inr rfl, hundelivered⟩
      · exact ⟨.inl (hpending m' hm').1, (hpending m' hm').2⟩
  | @deliver es c m _ hm ih =>
    obtain ⟨hsent, hdelivered, hpending⟩ := ih
    simp only [sends_append, sends_deliver, deliveries_append, deliveries_deliver,
      List.append_nil, List.mem_append, List.mem_singleton, Set.mem_sdiff, Set.mem_singleton_iff]
    refine ⟨hsent, fun m' hm' => ?_, fun m' hm' => ?_⟩
    · rcases hm' with hm' | rfl
      · exact hdelivered m' hm'
      · exact (hpending m' hm).1
    · exact ⟨(hpending m' hm'.1).1, not_or.mpr ⟨(hpending m' hm'.1).2, hm'.2⟩⟩

/-- No message is delivered twice. -/
theorem nodup_deliveries (h : ChannelRun es c) : (deliveries es).Nodup := by
  induction h with
  | nil => simp
  | send _ _ ih => simpa using ih
  | @deliver es c m hrun hm ih =>
    have hnew := (hrun.spec.2.2 m hm).2
    rw [deliveries_append, deliveries_deliver]
    exact ih.append (List.nodup_singleton m) (List.disjoint_singleton.mpr hnew)

end ChannelRun

end Osm.Core
