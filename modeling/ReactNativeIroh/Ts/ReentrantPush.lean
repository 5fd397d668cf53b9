import ReactNativeIroh.Ts.ListenerLoop

/-!
# Listeners that call back

The set that a push walks over tolerates that a listener removes one.  A listener that is removed
after its turn and added again stands ahead of the loop once more, so the push calls it again, and
a listener that does this to itself in every call is called for ever.

`PutsBack` is the step after which that is so.  A push over finitely many listeners returns exactly
when only finitely many of its invocations put a listener back, and calls a listener twice only
after it was put back.
-/

namespace Iroh

open Transition

namespace PushLoop

variable {φ α ε ω κ : Type*} [DecidableEq φ]

section Definitions

variable (h : κ → WatchableHooks φ α ε ω) (v : α) (host : ℕ → Reaction φ κ)
  (p : Watchable φ α ε × ω)

/-- The loop of a push after some invocations. -/
def after (n : ℕ) : PushLoop φ α ε ω :=
  ((List.range n).map host).foldl (invoke h v) { watchable := p.1, owner := p.2 }

/-- The push returns, and calls no listener twice that was registered when it began. -/
structure Settles : Prop where
  returns : ∃ n, (Watchable.reentrantPush h v ((List.range n).map host) p).isSome = true
  once : ∀ n, ∀ f ∈ p.1.listeners, (after h v host p n).called.count f ≤ 1

/-- An invocation puts a listener back that was called in this push: it stands ahead of the loop,
where it did not stand. -/
def PutsBack (l : PushLoop φ α ε ω) (r : Reaction φ κ) (f : φ) : Prop :=
  f ∈ (l.invoke h v r).called ∧ f ∈ (l.invoke h v r).line ∧ f ∉ l.line.tail

/-- Only finitely many invocations put a listener back, and one that was registered when the push
began is taken off again before its turn. -/
structure Calm : Prop where
  finitely : ∃ n, ∀ m ≥ n, ∀ f, ¬ PutsBack h v (after h v host p m) (host m) f
  removed : ∀ n, ∀ f ∈ p.1.listeners, PutsBack h v (after h v host p n) (host n) f →
    ∃ m > n, f ∉ (after h v host p m).line ∧
      ∀ k, n < k → k < m → (after h v host p k).line.head? ≠ some f

/-- What a push has left to do, when nothing is put back: the listeners not called yet, and those
that stand ahead of it again. -/
def left (F : Finset φ) (l : PushLoop φ α ε ω) : ℕ :=
  (F \ l.called.toFinset).card + (l.line.toFinset ∩ l.called.toFinset).card

end Definitions

variable {h : κ → WatchableHooks φ α ε ω} {v : α} {host : ℕ → Reaction φ κ}
  {p : Watchable φ α ε × ω} {f : φ} {fs : List φ} {F : Finset φ} {l : PushLoop φ α ε ω}
  {r : Reaction φ κ} {n m : ℕ}

theorem after_succ (n : ℕ) :
    after h v host p (n + 1) = (after h v host p n).invoke h v (host n) := by
  rw [after, List.range_succ, List.map_append, List.foldl_append]
  rfl

theorem after_steady (hp : p.1.Listed) (hh : ∀ i, Watchable.Closes (h i)) (n : ℕ) :
    (after h v host p n).Steady :=
  (steady_start hp p.2).foldl hh v _

theorem after_called (hp : p.1.Listed) (hh : ∀ i, Watchable.Closes (h i))
    (hline : (after h v host p n).line = f :: fs) :
    (after h v host p (n + 1)).called = (after h v host p n).called ++ [f] := by
  rw [after_succ]
  exact ((after_steady hp hh n).invoke_cons hh hline).2.1

/-- At its end the loop stays. -/
theorem after_end (hline : (after h v host p n).line = []) (hm : n ≤ m) :
    after h v host p m = after h v host p n := by
  induction m, hm using Nat.le_induction with
  | base => rfl
  | succ m _ ih => rw [after_succ, ih, invoke_nil hline]

theorem after_called_mono (hp : p.1.Listed) (hh : ∀ i, Watchable.Closes (h i)) (hm : n ≤ m)
    (hf : f ∈ (after h v host p n).called) : f ∈ (after h v host p m).called := by
  induction m, hm using Nat.le_induction with
  | base => exact hf
  | succ m _ ih =>
      cases hline : (after h v host p m).line with
      | nil => rwa [after_succ, invoke_nil hline]
      | cons g gs =>
          rw [after_called hp hh hline]
          exact List.mem_append_left _ ih

/-- The calls made are those of the listeners it has called, with the value. -/
theorem after_calls (hp : p.1.Listed) (hh : ∀ i, Watchable.Closes (h i)) (n : ℕ) :
    (after h v host p n).watchable.calls =
      p.1.calls ++ (after h v host p n).called.map fun listener => (listener, v) := by
  induction n with
  | zero => exact (List.append_nil _).symm
  | succ n ih =>
      cases hline : (after h v host p n).line with
      | nil => rwa [after_succ, invoke_nil hline]
      | cons g gs =>
          rw [after_called hp hh hline, after_succ, invoke_calls hh hline, ih]
          simp

/-- Only listeners of the host stand ahead of the loop. -/
theorem after_within (hp : p.1.Listed) (hh : ∀ i, Watchable.Closes (h i))
    (hF : ∀ f ∈ p.1.listeners, f ∈ F) (hhost : ∀ n i f, (i, .listen f) ∈ (host n).calls → f ∈ F)
    (n : ℕ) : ∀ f ∈ (after h v host p n).line, f ∈ F := by
  induction n with
  | zero =>
      intro f hf
      exact hF f (line_start p.1 p.2 ▸ hf)
  | succ n ih =>
      intro f hf
      rw [after_succ] at hf
      cases hline : (after h v host p n).line with
      | nil =>
          rw [invoke_nil hline] at hf
          exact ih f hf
      | cons g gs =>
          rcases ((after_steady hp hh n).invoke_cons hh hline).2.2 f hf with hf | ⟨i, hi⟩
          · exact ih f (hline ▸ List.mem_cons_of_mem g hf)
          · exact hhost n i f hi

/-- The push returns once nothing is ahead of its loop. -/
theorem returns_iff (hp : p.1.Listed) :
    (Watchable.reentrantPush h v ((List.range n).map host) p).isSome = true ↔
      (after h v host p n).line = [] := by
  simp only [Watchable.reentrantPush]
  split
  · next hclosed =>
      have hstart : (after h v host p 0).line = [] := by
        rw [after, List.range_zero, List.map_nil, List.foldl_nil, line_start]
        exact hp.closed hclosed
      rw [after_end hstart (Nat.zero_le n), hstart]
      simp
  · rw [after]
    split
    · next hline => simp [hline]
    · next hline => simp [hline]

/-! ## A push returns -/

/-- An invocation that puts nothing back leaves less to do. -/
theorem Steady.left_lt (hl : l.Steady) (hh : ∀ i, Watchable.Closes (h i))
    (hline : l.line = f :: fs) (hF : f ∈ F) (hput : ∀ g, ¬ PutsBack h v l r g) :
    (l.invoke h v r).left F < l.left F := by
  obtain ⟨-, hcalled, -⟩ := hl.invoke_cons (v := v) (r := r) hh hline
  have hnodup : (f :: fs).Nodup := hline ▸ hl.line_nodup
  have hfs : f ∉ fs := (List.nodup_cons.mp hnodup).1
  -- what stands ahead again stood there before, behind the listener that was called
  have hahead : ∀ g, g ∈ (l.invoke h v r).line → g ∈ (l.invoke h v r).called →
      g ∈ fs ∧ g ∈ l.called := by
    intro g hg hmem
    have hstood : g ∈ fs := by
      by_contra hnot
      exact hput g ⟨hmem, hg, by rwa [hline]⟩
    rw [hcalled] at hmem
    rcases List.mem_append.mp hmem with hmem | hmem
    · exact ⟨hstood, hmem⟩
    · exact absurd (List.mem_singleton.mp hmem ▸ hstood) hfs
  have hsub : (l.invoke h v r).line.toFinset ∩ (l.invoke h v r).called.toFinset ⊆
      l.line.toFinset ∩ l.called.toFinset := by
    intro g hg
    simp only [Finset.mem_inter, List.mem_toFinset] at hg ⊢
    obtain ⟨hstood, hmem⟩ := hahead g hg.1 hg.2
    exact ⟨hline ▸ List.mem_cons_of_mem f hstood, hmem⟩
  have hless : F \ (l.invoke h v r).called.toFinset ⊆ F \ l.called.toFinset := by
    rw [hcalled, List.toFinset_append]
    exact Finset.sdiff_subset_sdiff (Finset.Subset.refl F) Finset.subset_union_left
  rw [left, left]
  by_cases hf : f ∈ l.called
  · -- it was called before, and stands ahead again no more
    refine Nat.add_lt_add_of_le_of_lt (Finset.card_le_card hless) (Finset.card_lt_card ?_)
    refine Finset.ssubset_iff_of_subset hsub |>.mpr ⟨f, ?_, fun hmem => ?_⟩
    · simp [hline, hf]
    · simp only [Finset.mem_inter, List.mem_toFinset] at hmem
      exact hfs (hahead f hmem.1 hmem.2).1
  · refine Nat.add_lt_add_of_lt_of_le (Finset.card_lt_card ?_) (Finset.card_le_card hsub)
    refine Finset.ssubset_iff_of_subset hless |>.mpr ⟨f, ?_, fun hmem => ?_⟩
    · simp [hF, hf]
    · simp [hcalled] at hmem

/-- Where nothing is put back any more, the loop comes to its end. -/
theorem after_ends (hp : p.1.Listed) (hh : ∀ i, Watchable.Closes (h i))
    (hF : ∀ n, ∀ f ∈ (after h v host p n).line, f ∈ F)
    (hput : ∀ m ≥ n, ∀ f, ¬ PutsBack h v (after h v host p m) (host m) f) :
    ∃ m, (after h v host p m).line = [] := by
  by_contra hnever
  have hleft : ∀ k, (after h v host p (n + k)).left F + k ≤ (after h v host p n).left F := by
    intro k
    induction k with
    | zero => exact Nat.le_refl _
    | succ k ih =>
        obtain ⟨f, fs, hline⟩ := List.exists_cons_of_ne_nil fun hnil => hnever ⟨n + k, hnil⟩
        have hlt := (after_steady hp hh (n + k)).left_lt hh hline
          (hF (n + k) f (hline ▸ List.mem_cons_self)) (hput (n + k) (Nat.le_add_right n k))
        rw [← after_succ, Nat.add_assoc] at hlt
        omega
  have habsurd := hleft ((after h v host p n).left F + 1)
  omega

/-! ## A listener is called again -/

/-- A listener that was called stands ahead of the loop only since it was put back. -/
theorem putsBack_of_ahead (hp : p.1.Listed) (hh : ∀ i, Watchable.Closes (h i))
    (hcalled : f ∈ (after h v host p n).called) (hahead : f ∈ (after h v host p n).line) :
    ∃ m < n, PutsBack h v (after h v host p m) (host m) f ∧
      ∀ k, m < k → k ≤ n → f ∈ (after h v host p k).line := by
  induction n with
  | zero => cases hcalled
  | succ n ih =>
      by_cases hput : PutsBack h v (after h v host p n) (host n) f
      · refine ⟨n, Nat.lt_succ_self n, hput, fun k hk hkn => ?_⟩
        obtain rfl : k = n + 1 := Nat.le_antisymm hkn hk
        exact hahead
      · have htail : f ∈ (after h v host p n).line.tail := by
          by_contra hnot
          rw [after_succ] at hcalled hahead
          exact hput ⟨hcalled, hahead, hnot⟩
        have hmem := List.mem_of_mem_tail htail
        obtain ⟨g, gs, hline⟩ := List.exists_cons_of_ne_nil (List.ne_nil_of_mem hmem)
        have hne : f ≠ g := by
          rintro rfl
          have hnodup : (after h v host p n).line.Nodup := (after_steady hp hh n).line_nodup
          rw [hline] at hnodup htail
          exact (List.nodup_cons.mp hnodup).1 htail
        rw [after_called hp hh hline] at hcalled
        obtain ⟨m, hm, hput, hstays⟩ :=
          ih ((List.mem_append.mp hcalled).resolve_right fun he => hne (List.mem_singleton.mp he))
            hmem
        refine ⟨m, Nat.lt_succ_of_lt hm, hput, fun k hk hkn => ?_⟩
        rcases Nat.lt_or_eq_of_le hkn with hlt | rfl
        · exact hstays k hk (Nat.le_of_lt_succ hlt)
        · exact hahead

/-- A listener that was taken off before its turn is not called again. -/
theorem Calm.not_again (hcalm : Calm h v host p) (hp : p.1.Listed)
    (hh : ∀ i, Watchable.Closes (h i)) (hf : f ∈ p.1.listeners)
    (hline : (after h v host p n).line = f :: fs) : f ∉ (after h v host p n).called := by
  intro hcalled
  obtain ⟨m, hm, hput, hstays⟩ :=
    putsBack_of_ahead hp hh hcalled (hline ▸ List.mem_cons_self)
  obtain ⟨k, hk, hgone, hturn⟩ := hcalm.removed m f hf hput
  rcases Nat.lt_or_ge n k with hlt | hge
  · exact hturn n hm hlt (by rw [hline]; rfl)
  · exact hgone (hstays k hk hge)

theorem Calm.once (hcalm : Calm h v host p) (hp : p.1.Listed) (hh : ∀ i, Watchable.Closes (h i))
    (hf : f ∈ p.1.listeners) (n : ℕ) : (after h v host p n).called.count f ≤ 1 := by
  induction n with
  | zero => exact Nat.zero_le 1
  | succ n ih =>
      cases hline : (after h v host p n).line with
      | nil => rwa [after_succ, invoke_nil hline]
      | cons g gs =>
          rw [after_called hp hh hline, List.count_append, List.count_singleton]
          by_cases hg : g = f
          · subst hg
            rw [List.count_eq_zero.mpr (hcalm.not_again hp hh hf hline)]
            simp
          · simpa [hg] using ih

/-- In a push that returns, a listener called once is not called again. -/
theorem Settles.removed (hsettles : Settles h v host p) (hp : p.1.Listed)
    (hh : ∀ i, Watchable.Closes (h i)) (hf : f ∈ p.1.listeners)
    (hput : PutsBack h v (after h v host p n) (host n) f) :
    ∃ m > n, f ∉ (after h v host p m).line ∧
      ∀ k, n < k → k < m → (after h v host p k).line.head? ≠ some f := by
  obtain ⟨e, he⟩ := hsettles.returns
  have hend := (returns_iff hp).mp he
  refine ⟨max e (n + 1), Nat.lt_of_succ_le (Nat.le_max_right e (n + 1)), ?_, fun k hk _ hhead => ?_⟩
  · rw [after_end hend (Nat.le_max_left e (n + 1)), hend]
    exact List.not_mem_nil
  · obtain ⟨fs, hline⟩ := List.head?_eq_some_iff.mp hhead
    have hput : f ∈ (after h v host p (n + 1)).called := by
      rw [after_succ]
      exact hput.1
    have hcalled := after_called_mono hp hh hk hput
    have hcount := hsettles.once (k + 1) f hf
    rw [after_called hp hh hline, List.count_append, List.count_singleton_self] at hcount
    have hpos := List.count_pos_iff.mpr hcalled
    omega

/-- A push over finitely many listeners returns, and calls none of those it found twice, exactly
when only finitely many invocations put a listener back, and those it found are taken off again
before their turn. -/
theorem push_settles_iff (hh : ∀ i, Watchable.Closes (h i))
    (hreach : (pushMachine h).Reachable Any p) (hF : ∀ f ∈ p.1.listeners, f ∈ F)
    (hhost : ∀ n i f, (i, .listen f) ∈ (host n).calls → f ∈ F) :
    Settles h v host p ↔ Calm h v host p := by
  have hp := (Watchable.listed_invariant hh).reachable hreach
  constructor
  · intro hsettles
    obtain ⟨e, he⟩ := hsettles.returns
    have hend := (returns_iff hp).mp he
    refine ⟨⟨e, fun m hm f hput => ?_⟩, fun n f hf hput => hsettles.removed hp hh hf hput⟩
    have hahead := hput.2.1
    rw [after_end hend hm, invoke_nil hend, hend] at hahead
    exact List.not_mem_nil hahead
  · intro hcalm
    obtain ⟨n, hn⟩ := hcalm.finitely
    obtain ⟨m, hm⟩ := after_ends hp hh (after_within hp hh hF hhost) hn
    exact ⟨⟨m, (returns_iff hp).mpr hm⟩, fun k f hf => hcalm.once hp hh hf k⟩

/-! ## A listener that subscribes itself again -/

section Again

/-- The first listener unsubscribes itself and subscribes again. -/
def again : ℕ → Reaction ℕ Unit := fun n => { calls := [((), .unsubscribe n), ((), .listen 0)] }

/-- The first listener does so once, and the second takes it off. -/
def takenOff : ℕ → Reaction ℕ Unit
  | 0 => { calls := [((), .unsubscribe 0), ((), .listen 0)] }
  | 1 => { calls := [((), .unsubscribe 2)] }
  | _ => {}

/-- A watchable with some listeners. -/
def listening (fs : List ℕ) : Watchable ℕ ℕ Unit × Unit :=
  fs.foldl (fun p f => Watchable.consume (noHooks ()) (.listen f) p) ({}, ())

theorem listening_reachable (fs : List ℕ) :
    (pushMachine noHooks).Reachable Any (listening fs) := by
  induction fs using List.reverseRecOn with
  | nil => exact ⟨({}, ()), rfl, .refl⟩
  | append_singleton fs f ih =>
      obtain ⟨p, hp, hleads⟩ := ih
      refine ⟨p, hp, hleads.tail ⟨.consumer () (.listen f), trivial, ?_⟩⟩
      rw [listening, listening, List.foldl_append]
      rfl

theorem push_settles_iff_takenOff :
    (Watchable.reentrantPush noHooks 7 ((List.range 2).map takenOff) (listening [0, 1])).map
      (fun p => p.1.calls) = some [(0, 7), (1, 7)] ∧
    (Settles noHooks 7 takenOff (listening [0, 1]) ↔
      Calm noHooks 7 takenOff (listening [0, 1])) := by
  refine ⟨by decide, push_settles_iff (F := {0, 1}) (fun _ => Watchable.closes_none)
    (listening_reachable [0, 1]) (by decide) fun n i f hf => ?_⟩
  match n with
  | 0 =>
      obtain rfl : f = 0 := by simpa [takenOff] using hf
      decide
  | 1 => simp [takenOff] at hf
  | n + 2 => cases hf

/-- The loop after some invocations: the listener stands ahead of it again. -/
def aheadAgain (n : ℕ) : PushLoop ℕ ℕ Unit Unit where
  watchable := {
    subscribers := 1
    listeners := [0]
    registrations := List.replicate n (0, false) ++ [(0, true)]
    calls := List.replicate n (0, 7) }
  owner := ()
  called := List.replicate n 0

theorem after_again (n : ℕ) :
    after noHooks 7 again (listening [0]) n = aheadAgain n := by
  induction n with
  | zero => rfl
  | succ n ih =>
      have hline : (aheadAgain n).line = [0] := rfl
      have hget : (List.replicate n (0, false) ++ [(0, true)])[n]? = some (0, true) := by simp
      have hset : (List.replicate n (0, false) ++ [(0, true)]).set n (0, false) =
          List.replicate (n + 1) (0, false) := by
        rw [List.set_append_right _ _ (by simp), List.length_replicate, Nat.sub_self,
          List.replicate_succ']
        rfl
      rw [after_succ, ih, invoke_cons hline]
      simp only [again, aheadAgain, List.foldl_cons, List.foldl_nil, PushLoop.call, visit, surface,
        Watchable.consume, Watchable.unsubscribe, Watchable.listen, Watchable.retain,
        Watchable.release, hget, hset, noHooks]
      simp [List.replicate_succ']

/-- A listener that subscribes itself again in every call is called for ever. -/
theorem push_never_returns :
    (pushMachine noHooks).Reachable Any (listening [0]) ∧
    (∀ n i f, (i, .listen f) ∈ (again n).calls → f ∈ ({0} : Finset ℕ)) ∧
    ¬ Settles noHooks 7 again (listening [0]) ∧
    ∀ n, Watchable.reentrantPush noHooks 7 ((List.range n).map again) (listening [0]) = none ∧
      (after noHooks 7 again (listening [0]) n).called = List.replicate n 0 := by
  have hnever : ∀ n, Watchable.reentrantPush noHooks 7 ((List.range n).map again)
      (listening [0]) = none := by
    intro n
    have hline : (aheadAgain n).line = [0] := rfl
    have hlisted : (listening [0]).1.Listed := ⟨by decide, by decide⟩
    rw [← Option.not_isSome_iff_eq_none, returns_iff hlisted, after_again, hline]
    exact List.cons_ne_nil 0 []
  refine ⟨listening_reachable [0], fun n i f hf => by simpa [again] using hf, fun hsettles => ?_,
    fun n => ⟨hnever n, ?_⟩⟩
  · obtain ⟨n, hn⟩ := hsettles.returns
    rw [hnever n] at hn
    cases hn
  · rw [after_again]
    rfl

end Again

end PushLoop

end Iroh
