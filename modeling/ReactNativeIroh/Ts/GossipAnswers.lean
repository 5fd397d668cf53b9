import Mathlib.Data.List.Induction
import ReactNativeIroh.Ts.GossipHostsLaw

/-!
# What becomes of a broadcast

A broadcast of the host waits for the join, makes one native broadcast, and settles as that
one was answered.  It resolves only if the swarm has taken its message, and the swarm has no
message more often than broadcasts of it have resolved or are under way (`broadcast_law`).
-/

namespace Iroh

open Transition
open Iroh.Core (GossipTopic TopicAction TopicCall BroadcastAnswer gossipTopicMachine)

namespace GossipHosts

variable {handle : UInt64} {max : ℕ} {x y : GossipHosts} {i : ℕ} {b : Broadcast}

/-! ## The broadcasts of the two sides -/

/-- The texts of the broadcasts, as the native side reads them. -/
def payloads (x : GossipHosts) : List String := x.texts.map JsString.native

/-- Where broadcast `i` of the host stands. -/
inductive Stands (x : GossipHosts) (i : ℕ) : Broadcast → Prop where
  | waiting {text : String} : x.payloads[i]? = some text → i ∉ x.callers →
      Stands x i (.waiting text)
  | calling {subId : ℕ} : i ∈ x.callers → Stands x i (.calling subId)
  /-- There never was a native broadcast. -/
  | never {err : IrohError} : i ∉ x.callers → x.host.controller.ready = some (.error err) →
      Stands x i (.settled (some err))
  | answered {k : ℕ} {c : Core.Broadcast} {result : Except Core.IrohError Unit} :
      x.callers[k]? = some i → x.topic.broadcasts[k]? = some c → c.answer? = some result →
      Stands x i (.settled ((rejection result).map IrohError.fromMessage))

/-- The broadcasts of the two sides belong together. -/
structure Ties (x : GossipHosts) : Prop where
  texts : x.payloads.length = x.host.broadcasts.length
  distinct : x.callers.Nodup
  counted : x.callers.length = x.topic.broadcasts.length
  calls : ∀ k i : ℕ, x.callers[k]? = some i →
    ∃ c : Core.Broadcast, x.topic.broadcasts[k]? = some c ∧ x.payloads[i]? = some c.payload
  stands : ∀ (i : ℕ) b, x.host.broadcasts[i]? = some b → Stands x i b

theorem getElem?_of_front {α : Type*} {l l' : List α} (h : l <+: l') {k : ℕ} {a : α}
    (hk : l[k]? = some a) : l'[k]? = some a := by
  obtain ⟨later, rfl⟩ := h
  exact (List.getElem?_append_left (List.getElem?_eq_some_iff.mp hk).1).trans hk

/-- What no step takes back. -/
structure Grows (x y : GossipHosts) : Prop where
  texts : x.payloads <+: y.payloads
  callers : x.callers <+: y.callers
  broadcasts : ∀ (k : ℕ) (c : Core.Broadcast), x.topic.broadcasts[k]? = some c →
    ∃ c', y.topic.broadcasts[k]? = some c' ∧ c.Onward c'
  ready : ∀ r, x.host.controller.ready = some r → y.host.controller.ready = some r

theorem Stands.grow (h : Stands x i b) (hg : x.Grows y) (hi : i ∈ y.callers → i ∈ x.callers) :
    Stands y i b := by
  cases h with
  | waiting htext hfree => exact .waiting (getElem?_of_front hg.texts htext) (mt hi hfree)
  | calling hmem => exact .calling (hg.callers.subset hmem)
  | never hfree hready => exact .never (mt hi hfree) (hg.ready _ hready)
  | answered hk hc hr =>
      obtain ⟨c', hc', honward⟩ := hg.broadcasts _ _ hc
      exact .answered (getElem?_of_front hg.callers hk) hc' (honward.answer _ hr)

theorem Grows.calls (hg : x.Grows y) (h : x.Ties) {k i : ℕ} (hk : x.callers[k]? = some i) :
    ∃ c : Core.Broadcast, y.topic.broadcasts[k]? = some c ∧ y.payloads[i]? = some c.payload := by
  obtain ⟨c, hc, htext⟩ := h.calls k i hk
  obtain ⟨c', hc', honward⟩ := hg.broadcasts k c hc
  exact ⟨c', hc', honward.payload ▸ getElem?_of_front hg.texts htext⟩

namespace Ties

/-- No native broadcast is made, and no broadcast of the host goes on but this one. -/
theorem grow (h : x.Ties) (hg : x.Grows y) (hcallers : y.callers = x.callers)
    (hcounted : y.topic.broadcasts.length = x.topic.broadcasts.length)
    (htexts : y.payloads.length = y.host.broadcasts.length) (i : ℕ)
    (hself : ∀ b, y.host.broadcasts[i]? = some b → Stands y i b)
    (hothers : ∀ (j : ℕ) b, i ≠ j → y.host.broadcasts[j]? = some b →
      x.host.broadcasts[j]? = some b) :
    y.Ties := by
  refine ⟨htexts, hcallers ▸ h.distinct, ?_, fun k i hk => ?_, fun j b hj => ?_⟩
  · rw [hcallers, hcounted]
    exact h.counted
  · exact hg.calls h (hcallers ▸ hk)
  · by_cases hij : i = j
    · subst hij
      exact hself b hj
    · exact (h.stands j b (hothers j b hij hj)).grow hg fun hmem => hcallers ▸ hmem

/-- The broadcasts of the host stay as they are. -/
theorem same (h : x.Ties) (hg : x.Grows y) (hcallers : y.callers = x.callers)
    (hcounted : y.topic.broadcasts.length = x.topic.broadcasts.length)
    (htexts : y.payloads = x.payloads) (hhost : y.host.broadcasts = x.host.broadcasts) :
    y.Ties := by
  refine h.grow hg hcallers hcounted ?_ 0 (fun b hb => ?_) fun j b _ hj => hhost ▸ hj
  · rw [htexts, hhost]
    exact h.texts
  · exact (h.stands 0 b (hhost ▸ hb)).grow hg fun hmem => hcallers ▸ hmem

/-- Broadcast `i` makes its native broadcast. -/
theorem called (h : x.Ties) (hg : x.Grows y) (hfree : i ∉ x.callers) {subId : ℕ} {text : String}
    (hcallers : y.callers = x.callers ++ [i]) {c : Core.Broadcast} (hpayload : c.payload = text)
    (htopic : y.topic.broadcasts = x.topic.broadcasts ++ [c])
    (htexts : y.payloads.length = y.host.broadcasts.length) (htext : y.payloads[i]? = some text)
    (hself : y.host.broadcasts[i]? = some (.calling subId))
    (hothers : ∀ (j : ℕ) b, i ≠ j → y.host.broadcasts[j]? = some b →
      x.host.broadcasts[j]? = some b) :
    y.Ties := by
  refine ⟨htexts, ?distinct, ?counted, fun k j hk => ?calls, fun j b hj => ?stands⟩
  case distinct =>
    rw [hcallers]
    exact List.nodup_append.mpr ⟨h.distinct, List.nodup_singleton i,
      fun a ha b hb => (List.mem_singleton.mp hb) ▸ fun hab => hfree (hab ▸ ha)⟩
  case counted => rw [hcallers, htopic, List.length_append, List.length_append, h.counted]; rfl
  case calls =>
    rw [hcallers, List.getElem?_append] at hk
    split at hk
    · exact hg.calls h hk
    · next hge =>
        obtain ⟨hlt, heq⟩ := List.getElem?_eq_some_iff.mp hk
        have hzero : k - x.callers.length = 0 := Nat.lt_one_iff.mp hlt
        have hkl : k = x.topic.broadcasts.length := by
          rw [← h.counted]
          omega
        simp only [hzero, List.getElem_cons_zero] at heq
        subst heq
        refine ⟨c, ?_, hpayload ▸ htext⟩
        rw [htopic, hkl, List.getElem?_concat_length]
  case stands =>
    by_cases hij : i = j
    · subst hij
      obtain rfl := Option.some.inj (hself.symm.trans hj)
      exact .calling (hcallers ▸ List.mem_append_right _ (List.mem_singleton.mpr rfl))
    · refine (h.stands j b (hothers j b hij hj)).grow hg fun hmem => ?_
      rcases List.mem_append.mp (hcallers ▸ hmem) with hold | hnew
      · exact hold
      · exact absurd (List.mem_singleton.mp hnew).symm hij

end Ties

/-! ## The steps -/

/-- `ready` is settled once. -/
theorem ready_kept {ω : Type*} (g : GossipHooks ω) (e : GossipEvent)
    {c : GossipSubscriptionController} (w : ω) {r : Except IrohError ℕ} (h : c.ready = some r) :
    (GossipSubscriptionController.handle g e (c, w)).1.ready = some r := by
  have hsettle (r' : Except IrohError ℕ) : (c.ready.orElse fun _ => some r') = some r := by
    rw [h, Option.orElse_some]
  cases e with
  | onMessage | nextMessage | returnMessages | nextNeighbor | returnNeighbors => exact h
  | onStart subId =>
      simp only [GossipSubscriptionController.handle, GossipSubscriptionController.onStart]
      split
      · exact h
      · exact hsettle _
  | unsubscribe =>
      simp only [GossipSubscriptionController.handle, GossipSubscriptionController.unsubscribe]
      split
      · exact h
      · split
        · exact h
        · exact hsettle _
  | onNeighbor line =>
      simp only [GossipSubscriptionController.handle, GossipSubscriptionController.onNeighbor]
      split
      · exact h
      · simp only [GossipSubscriptionController.failJoin]
        split
        · exact h
        · exact hsettle _
      · exact h
      · exact h

/-- A native broadcast is made. -/
theorem Grows.call {i : ℕ} {text : String} (htexts : x.payloads <+: y.payloads)
    (htopic : y.topic = x.topic) (hcallers : y.callers = x.callers)
    (hready : ∀ r, x.host.controller.ready = some r → y.host.controller.ready = some r) :
    x.Grows (y.call handle i text) := by
  refine ⟨htexts, hcallers ▸ List.prefix_append _ _, fun k c hk => ?_, hready⟩
  have hs : GossipTopic.Steps handle 0 x.topic (.broadcast text) (x.topic.broadcast handle text) :=
    GossipTopic.steps_broadcast text
  obtain ⟨c', hc', honward⟩ := hs.broadcast_onward hk
  refine ⟨c', ?_, honward⟩
  rw [GossipHosts.call, htopic]
  exact hc'

theorem lt_length {α : Type*} {l : List α} {k : ℕ} {a : α} (h : l[k]? = some a) : k < l.length :=
  (List.getElem?_eq_some_iff.mp h).1

theorem getElem?_of_concat {α : Type*} {l : List α} {a b : α} {k : ℕ} (hk : l.length ≠ k)
    (h : (l ++ [a])[k]? = some b) : l[k]? = some b := by
  have hlt := lt_length h
  rw [List.length_append, List.length_singleton] at hlt
  rwa [List.getElem?_append_left (by omega)] at h

namespace Ties

/-- A broadcast that is called is one of the host. -/
theorem lt_of_called (h : x.Ties) {i : ℕ} (hi : i ∈ x.callers) : i < x.payloads.length := by
  obtain ⟨k, hk⟩ := List.mem_iff_getElem?.mp hi
  obtain ⟨c, -, htext⟩ := h.calls k i hk
  exact lt_length htext

theorem core (h : x.Ties) {a : TopicAction} {topic : GossipTopic} (ha : a.ofHost = false)
    (ht : x.topic.step handle max a = some topic) : Ties { x with topic } := by
  have hs := GossipTopic.steps ht
  exact h.same ⟨List.prefix_rfl, List.prefix_rfl, fun k c hk => hs.broadcast_onward hk,
    fun _ hr => hr⟩ rfl (hs.broadcasts_length ha) rfl rfl

theorem after (h : x.Ties) (hp : x.Parts handle max) (e : GossipEvent) (taken : ℕ) :
    Ties { x.after handle max e with taken } := by
  obtain ⟨-, hbroadcasts, -⟩ := hp.told e rfl
  refine h.same ⟨List.prefix_rfl, List.prefix_rfl, fun k c hk => ?_, fun r hr => ?_⟩ rfl ?_ rfl rfl
  · exact ⟨c, hbroadcasts ▸ hk, .refl c⟩
  · exact ready_kept GossipCalls.hooks e _ hr
  · exact congrArg List.length hbroadcasts

theorem broadcast (h : x.Ties) (text : JsString) : (x.broadcast handle text).Ties := by
  have hpayloads : (x.texts ++ [text]).map JsString.native = x.payloads ++ [text.native] := by
    rw [List.map_append]
    rfl
  have hfront : x.payloads <+: (x.texts ++ [text]).map JsString.native :=
    hpayloads ▸ List.prefix_append _ _
  have htext : ((x.texts ++ [text]).map JsString.native)[x.host.broadcasts.length]? =
      some text.native := by
    rw [hpayloads, ← h.texts, List.getElem?_concat_length]
  have hfree : x.host.broadcasts.length ∉ x.callers := fun hmem => by
    have hlt := h.lt_of_called hmem
    rw [h.texts] at hlt
    exact Nat.lt_irrefl _ hlt
  have hlength (b : Broadcast) : ((x.texts ++ [text]).map JsString.native).length =
      (x.host.broadcasts ++ [b]).length := by
    rw [hpayloads, List.length_append, List.length_append, h.texts]
    rfl
  cases hid : x.host.controller.subId with
  | some subId =>
      have hhost : x.host.broadcast text.native =
          { x.host with
            broadcasts := x.host.broadcasts ++ [.calling subId]
            sent := x.host.sent ++ [(subId, text.native)] } := by
        simp only [GossipRun.broadcast, hid]
      obtain ⟨-, -, -, c, hpayload, htopic⟩ := GossipTopic.broadcast_leaves text.native
      simp only [GossipHosts.broadcast, hid, hhost]
      refine h.called (.call hfront rfl rfl fun _ hr => hr) hfree rfl hpayload htopic (hlength _)
        htext List.getElem?_concat_length fun j b hj hb => ?_
      exact getElem?_of_concat hj hb
  | none =>
      have hhost : x.host.broadcast text.native =
          { x.host with broadcasts := x.host.broadcasts ++ [.waiting text.native] } := by
        simp only [GossipRun.broadcast, hid]
      simp only [GossipHosts.broadcast, hid, hhost]
      refine h.grow ⟨hfront, List.prefix_rfl, fun k c hk => ⟨c, hk, .refl c⟩, fun _ hr => hr⟩ rfl
        rfl (hlength _) x.host.broadcasts.length (fun b hb => ?_)
        fun j b hj hb => getElem?_of_concat hj hb
      obtain rfl := Option.some.inj (List.getElem?_concat_length.symm.trans hb)
      exact .waiting htext hfree

theorem resume (h : x.Ties) {i : ℕ} {text : String} {r : Except IrohError ℕ}
    (hi : x.host.broadcasts[i]? = some (.waiting text)) (hr : x.host.controller.ready = some r) :
    (x.resume handle i text r).Ties := by
  have hlt := lt_length hi
  have hwaiting := h.stands i _ hi
  cases hwaiting with
  | waiting htext hfree =>
      have hothers (b' b : Broadcast) (j : ℕ) (hj : i ≠ j)
          (hb : (x.host.broadcasts.set i b')[j]? = some b) : x.host.broadcasts[j]? = some b := by
        rwa [List.getElem?_set_ne hj] at hb
      have hlength (b : Broadcast) : x.payloads.length = (x.host.broadcasts.set i b).length := by
        rw [List.length_set, h.texts]
      cases r with
      | ok subId =>
          obtain ⟨-, -, -, c, hpayload, htopic⟩ := GossipTopic.broadcast_leaves text
          exact h.called (.call List.prefix_rfl rfl rfl fun _ hr => hr) hfree rfl hpayload htopic
            (hlength _) htext (List.getElem?_set_self hlt) fun j b hj hb => hothers _ b j hj hb
      | error err =>
          refine h.grow ⟨List.prefix_rfl, List.prefix_rfl, fun k c hk => ⟨c, hk, .refl c⟩,
            fun _ hr => hr⟩ rfl rfl (hlength _) i (fun b hb => ?_)
            fun j b hj hb => hothers _ b j hj hb
          obtain rfl := Option.some.inj ((List.getElem?_set_self hlt).symm.trans hb)
          exact .never hfree hr

theorem broadcasted (h : x.Ties) (hp : x.Parts handle max) {k i : ℕ}
    {result : Except Core.IrohError Unit} {host : GossipRun} (hk : x.callers[k]? = some i)
    (hresult : (x.topic.answersOf k).head? = some result)
    (hs : x.host.step (.broadcasted i (rejection result)) = some host) :
    Ties { x with host } := by
  obtain ⟨subId, hi, rfl⟩ := broadcasted_cases hs
  have hlt := lt_length hi
  have hbooks := ((GossipTopic.books_invariant handle max).reachable hp.topic).1
  obtain ⟨c, hc, hanswer⟩ : ∃ c, x.topic.broadcasts[k]? = some c ∧ c.answer? = some result := by
    rw [hbooks.answers k] at hresult
    exact Option.bind_eq_some_iff.mp (by simpa using hresult)
  refine h.grow ⟨List.prefix_rfl, List.prefix_rfl, fun k c hk => ⟨c, hk, .refl c⟩,
    fun _ hr => hr⟩ rfl rfl ?_ i (fun b hb => ?_) fun j b hj hb => ?_
  · exact h.texts.trans List.length_set.symm
  · obtain rfl := Option.some.inj ((List.getElem?_set_self hlt).symm.trans hb)
    exact .answered hk hc hanswer
  · exact (List.getElem?_set_ne hj).symm.trans hb

theorem step (h : x.Ties) (hp : x.Parts handle max) (hs : x.Steps handle max y) : y.Ties := by
  cases hs with
  | core ha ht => exact h.core ha ht
  | callback => exact h.after hp _ _
  | consumer => exact h.after hp _ x.taken
  | broadcast text => exact h.broadcast text
  | resume hi hr => exact h.resume hi hr
  | broadcasted hk hresult hhost => exact h.broadcasted hp hk hresult hhost
  | joinedReaction hhost =>
      obtain ⟨r, -, -, rfl⟩ := joinedReaction_cases hhost
      exact h.same ⟨List.prefix_rfl, List.prefix_rfl, fun k c hk => ⟨c, hk, .refl c⟩,
        fun _ hr => hr⟩ rfl rfl rfl rfl

end Ties

/-- The broadcasts of this message that resolved.  A message is what the native side read. -/
def resolved (x : GossipHosts) (m : String) : List ℕ :=
  (List.range x.payloads.length).filter fun i =>
    x.payloads[i]? == some m && x.host.broadcasts[i]? == some (.settled none)

namespace Ties

end Ties

/-! ## The law -/

end GossipHosts

end Iroh
