import ReactNativeIroh.Core.GossipLaw

/-!
# What a step leaves of a gossip topic

The callbacks are not taken back, and one of them says what became of the join.  A broadcast
keeps its message and its answer.  The subscription stays registered until the host ends it.
-/

namespace Iroh.Core

open Transition

/-- The call says what became of the join. -/
def TopicCall.settles : TopicCall → Bool
  | .onStart | .joinFailed _ => true
  | .forwarded _ => false

/-- What a broadcast keeps. -/
structure Broadcast.Onward (b b' : Broadcast) : Prop where
  payload : b'.payload = b.payload
  answer : ∀ result, b.answer? = some result → b'.answer? = some result

theorem Broadcast.Onward.refl (b : Broadcast) : b.Onward b := ⟨rfl, fun _ h => h⟩

namespace GossipTopic

variable {handle : UInt64} {max : ℕ} {x y : GossipTopic} {a : TopicAction} {f : ForwardTask}

/-! ## The callbacks -/

theorem ForwardSteps.log (h : ForwardSteps x f y) :
    y.log = x.log ∨ ∃ c, y.log = x.log ++ [.forwarded c] := by
  cases h with
  | poll | next | error | park | drop | finish => exact .inl rfl
  | call c => exact .inr ⟨c, rfl⟩

theorem Steps.log_grows (h : Steps handle max x a y) : x.log <+: y.log := by
  cases h with
  | joined | insert | arrive | lookUp | unknown | unsubscribe | unsubscribed | closerLeaves =>
      exact List.prefix_rfl
  | failed | start => exact List.prefix_append _ _
  | broadcast _ _ hs =>
      exact hs.events.2.2.2.1 ▸ List.prefix_rfl
  | forward _ hs =>
      rcases hs.log with hlog | ⟨c, hlog⟩
      · exact hlog ▸ List.prefix_rfl
      · exact hlog ▸ List.prefix_append _ _

/-- What the callbacks say of the join. -/
structure Announces (x : GossipTopic) : Prop where
  settles : x.log.countP TopicCall.settles = if x.join = .started ∨ x.join = .failed then 1 else 0
  errors : ∀ line, .joinFailed line ∈ x.log → ∃ e, line = "error " ++ e

theorem Announces.congr (h : x.Announces) (hlog : y.log = x.log)
    (hjoin : y.join = .started ∨ y.join = .failed ↔ x.join = .started ∨ x.join = .failed) :
    y.Announces := by
  refine ⟨?_, ?_⟩
  · rw [hlog, h.settles]
    exact if_congr hjoin.symm rfl rfl
  · rw [hlog]
    exact h.errors

theorem Announces.call (h : x.Announces) {c : TopicCall} (hlog : y.log = x.log ++ [c])
    (hsettles : (if y.join = .started ∨ y.join = .failed then 1 else 0) =
      (if x.join = .started ∨ x.join = .failed then 1 else 0) + c.settles.toNat)
    (herror : ∀ line, c = .joinFailed line → ∃ e, line = "error " ++ e) : y.Announces := by
  refine ⟨?_, fun line hline => ?_⟩
  · rw [hlog, List.countP_append, List.countP_singleton, h.settles, hsettles]
    cases c.settles <;> rfl
  · rw [hlog] at hline
    rcases List.mem_append.mp hline with hold | hnew
    · exact h.errors line hold
    · exact herror line (List.mem_singleton.mp hnew).symm

theorem Announces.step (h : x.Announces) (hs : Steps handle max x a y) : y.Announces := by
  cases hs with
  | arrive | lookUp | unknown | unsubscribe | unsubscribed | closerLeaves =>
      exact h.congr rfl Iff.rfl
  | joined hj => exact h.congr rfl (by simp [hj])
  | insert hj => exact h.congr rfl (by simp [hj])
  | failed e hj =>
      refine h.call rfl (by simp [hj, TopicCall.settles]) fun line hc => ?_
      exact ⟨e, (TopicCall.joinFailed.inj hc).symm⟩
  | start hj => exact h.call rfl (by simp [hj, TopicCall.settles]) nofun
  | broadcast _ _ hs => exact h.congr hs.events.2.2.2.1 (by rw [hs.events.1])
  | forward _ hs =>
      have hjoin := hs.books.2.2.2.2.2.1
      rcases hs.log with hlog | ⟨c, hlog⟩
      · exact h.congr hlog (by rw [hjoin])
      · exact h.call hlog (by rw [hjoin]; rfl) nofun

theorem announces (hx : (gossipTopicMachine handle max).Reachable Any x) : x.Announces := by
  refine Machine.Invariant.reachable ⟨fun x hx => ?_, fun x a y h _ hy => h.step (steps hy)⟩ hx
  have hnew : x = {} := hx
  subst hnew
  exact ⟨rfl, nofun⟩

/-! ## The broadcasts -/

theorem BroadcastSteps.onward {i : ℕ} {b : Broadcast} (h : BroadcastSteps max x i b y) :
    ∃ b', y.broadcasts = x.broadcasts.set i b' ∧ b.Onward b' := by
  obtain ⟨payload, phase⟩ := b
  cases h with
  | refuse hp | spawn hp | send hp | fail _ hp | complete _ hp =>
      obtain rfl := hp
      exact ⟨_, rfl, rfl, nofun⟩
  | leave err hp =>
      obtain rfl := hp
      exact ⟨_, rfl, rfl, fun _ h => h⟩

/-- A broadcast goes on, and no other call changes it. -/
theorem Steps.broadcast_onward (h : Steps handle max x a y) {k : ℕ} {b : Broadcast}
    (hk : x.broadcasts[k]? = some b) : ∃ b', y.broadcasts[k]? = some b' ∧ b.Onward b' := by
  have hlt : k < x.broadcasts.length := (List.getElem?_eq_some_iff.mp hk).1
  cases h with
  | joined | failed | insert | start | arrive | unsubscribe | unsubscribed | closerLeaves =>
      exact ⟨b, hk, .refl b⟩
  | forward _ hs => exact ⟨b, hs.books.2.2.1 ▸ hk, .refl b⟩
  | lookUp | unknown => exact ⟨b, (List.getElem?_append_left hlt).trans hk, .refl b⟩
  | @broadcast _ i c _ _ hi hs =>
      obtain ⟨b', hy, hb'⟩ := hs.onward
      rw [hy]
      by_cases hik : i = k
      · subst hik
        obtain rfl := Option.some.inj (hi.symm.trans hk)
        exact ⟨b', List.getElem?_set_self hlt, hb'⟩
      · exact ⟨b, (List.getElem?_set_ne hik).trans hk, .refl b⟩

theorem Steps.broadcasts_length (h : Steps handle max x a y) (ha : a.ofHost = false) :
    y.broadcasts.length = x.broadcasts.length := by
  cases h with
  | joined | failed | insert | start | arrive | closerLeaves => rfl
  | forward _ hs => rw [hs.books.2.2.1]
  | broadcast _ _ hs =>
      obtain ⟨b', hy, -⟩ := hs.onward
      rw [hy, List.length_set]
  | lookUp | unknown | unsubscribe | unsubscribed => cases ha

/-! ## The subscription -/

theorem leaveSub_isRegistered : x.leaveSub.isRegistered = x.isRegistered := by
  rw [isRegistered, isRegistered, leaveSub]
  cases x.sub <;> rfl

theorem leaveSub_isSome : x.leaveSub.sub.isSome = x.sub.isSome := Option.isSome_map

theorem Steps.registered (h : Steps handle max x a y) (ha : a.ofHost = false) :
    (y.isRegistered = x.isRegistered ∧ y.sub.isSome = x.sub.isSome) ∨
      (x.join = .joined ∧ y.isRegistered = true) := by
  cases h with
  | joined | failed | start | arrive => exact .inl ⟨rfl, rfl⟩
  | insert hj => exact .inr ⟨hj, rfl⟩
  | forward _ hs =>
      have hsub := hs.books.1
      exact .inl ⟨by rw [isRegistered, hsub, isRegistered], by rw [hsub]⟩
  | closerLeaves => exact .inl ⟨leaveSub_isRegistered, leaveSub_isSome⟩
  | broadcast _ _ hs =>
      refine .inl ?_
      cases hs with
      | refuse | spawn | complete => exact ⟨rfl, rfl⟩
      | send | fail | leave => exact ⟨leaveSub_isRegistered, leaveSub_isSome⟩
  | lookUp | unknown | unsubscribe | unsubscribed => cases ha

/-! ## The calls of the host -/

/-- The host ends the subscription. -/
theorem Steps.unsubscribed_leaves (h : Steps handle max x .unsubscribe y) :
    y.log = x.log ∧ y.broadcasts = x.broadcasts ∧ y.isRegistered = false ∧
      y.sub.isSome = x.sub.isSome := by
  cases h with
  | unsubscribe hr => exact ⟨rfl, rfl, rfl, by rw [hr]; rfl⟩
  | unsubscribed hnone =>
      refine ⟨rfl, rfl, ?_, rfl⟩
      rw [isRegistered]
      cases hs : x.sub with
      | none => rfl
      | some r => exact hnone r hs
  | broadcast ha => cases ha

/-- The host broadcasts a message. -/
theorem broadcast_leaves (payload : String) :
    (x.broadcast handle payload).log = x.log ∧
      (x.broadcast handle payload).isRegistered = x.isRegistered ∧
      (x.broadcast handle payload).sub.isSome = x.sub.isSome ∧
      ∃ b, b.payload = payload ∧ (x.broadcast handle payload).broadcasts = x.broadcasts ++ [b] := by
  generalize hy : x.broadcast handle payload = y
  have hs : Steps handle 0 x (.broadcast payload) y := hy ▸ steps_broadcast payload
  cases hs with
  | lookUp _ hr =>
      refine ⟨rfl, ?_, by rw [hr]; rfl, _, rfl, rfl⟩
      rw [isRegistered, isRegistered, hr]
      rfl
  | unknown => exact ⟨rfl, rfl, rfl, _, rfl, rfl⟩
  | broadcast ha => cases ha

end GossipTopic

end Iroh.Core
