import ReactNativeIroh.Lib.Machine
import ReactNativeIroh.Ts.Downloads

/-!
# The download gate

`DownloadsRun` is the machine of the downloads of one endpoint.  Beside them it keeps
`starts`, the transfers whose `startDownload` was called, in the order of the calls, and
`reacted`, those whose completion reaction has run.  Transfers are numbered in the order
they are queued in, so `starts` is in that order when it is increasing.

A step is one turn of the host: a call that queues a transfer, a call or a native
callback of one transfer, a completion reaction, or the cascade of `close()`.  The gate
holds after every one of them, whatever reactions are still pending.
-/

namespace Iroh

open Transition

namespace DownloadCap

/-- `active <= maxConcurrentDownloads`. -/
def Bounds (cap : DownloadCap) (active : ℤ) : Prop := Number.le (.fin active) cap.limit = true

variable {cap : DownloadCap} {active : ℤ}

theorem bounds_zero (cap : DownloadCap) : cap.Bounds 0 := by
  rcases cap.normalized with h | ⟨k, -, h⟩
  · simp [Bounds, h, Number.le, Number.lt]
  · simp [Bounds, h, Number.le, Number.lt, Number.ofNat]

/-- A slot that is free may be taken. -/
theorem Bounds.of_admits (h : cap.admits active = true) : cap.Bounds (active + 1) := by
  rcases cap.normalized with hl | ⟨k, -, hl⟩
  · simp [Bounds, hl, Number.le, Number.lt]
  · have hlt : (active : ℚ) < k := by simpa [admits, hl, Number.lt, Number.ofNat] using h
    have hint : active + 1 ≤ k := by exact_mod_cast hlt
    have hle : ((active + 1 : ℤ) : ℚ) ≤ k := by exact_mod_cast hint
    simpa [Bounds, hl, Number.le, Number.lt, Number.ofNat] using hle

theorem Bounds.pred (h : cap.Bounds active) : cap.Bounds (active - 1) := by
  rcases cap.normalized with hl | ⟨k, -, hl⟩
  · simp [Bounds, hl, Number.le, Number.lt]
  · have hle : (active : ℚ) ≤ k := by
      simpa [Bounds, hl, Number.le, Number.lt, Number.ofNat] using h
    have hint : active - 1 ≤ k := by
      have : active ≤ k := by exact_mod_cast hle
      omega
    have hle' : ((active - 1 : ℤ) : ℚ) ≤ k := by exact_mod_cast hint
    simpa [Bounds, hl, Number.le, Number.lt, Number.ofNat] using hle'

/-- When no slot is free, all of them are taken. -/
theorem Bounds.full (h : cap.Bounds active) (hfull : cap.admits active = false) :
    cap.limit = .fin active := by
  rcases cap.normalized with hl | ⟨k, -, hl⟩
  · simp [admits, hl, Number.lt] at hfull
  · have hle : (active : ℚ) ≤ k := by
      simpa [Bounds, hl, Number.le, Number.lt, Number.ofNat] using h
    have hge : (k : ℚ) ≤ active := by
      simpa [admits, hl, Number.lt, Number.ofNat] using hfull
    rw [hl, Number.ofNat, le_antisymm hle hge]

/-- What is below a number in bounds is in bounds. -/
theorem Bounds.of_le {n : ℕ} {m : ℕ} (h : cap.Bounds m) (hle : n ≤ m) :
    Number.le (.ofNat n) cap.limit = true := by
  rcases cap.normalized with hl | ⟨k, -, hl⟩
  · simp [hl, Number.le, Number.lt, Number.ofNat]
  · have hm : (m : ℚ) ≤ k := by
      simpa [Bounds, hl, Number.le, Number.lt, Number.ofNat] using h
    have hn : (n : ℚ) ≤ m := by exact_mod_cast hle
    simpa [hl, Number.le, Number.lt, Number.ofNat] using hn.trans hm

end DownloadCap

namespace Downloads

variable {φ : Type*}

/-! ## The calls of `startDownload` -/

/-- The calls of `startDownload` made for a transfer that is shifted out of the queue. -/
def startsOne (next : ℕ) (d : Downloads φ) : List ℕ :=
  if d.transfers[next]?.any fun t => !t.isSettled then [next] else []

/-- The calls of `startDownload` the loop of `pumpDownloads` makes, in order. -/
def pumpStarts (throws : ℕ → Option IrohError) : List ℕ → Downloads φ → List ℕ
  | [], _ => []
  | next :: rest, d =>
      if d.maxConcurrentDownloads.admits d.activeDownloads then
        d.startsOne next ++ pumpStarts throws rest (d.start (throws next) next)
      else []
termination_by structural queue => queue

/-- The downloads as an event hands them to `pumpDownloads`. -/
def pumped : DownloadEvent φ → Downloads φ → Option ((ℕ → Option IrohError) × Downloads φ)
  | .download aborted throws, d =>
      let k := d.transfers.length
      let d := { d with transfers := d.transfers ++ [TransferController.new] }
      let d := if aborted then d.cancel k else d
      some (throws, { d with downloadQueue := d.downloadQueue ++ [k] })
  | .reaction k throws, d =>
      some (throws, { d with
        finished := d.finished.erase k
        activeDownloads := d.activeDownloads - 1 })
  | .transfer _ _, _ => none

/-- The calls of `startDownload` an event makes, in order. -/
def nativeStarts (e : DownloadEvent φ) (d : Downloads φ) : List ℕ :=
  match pumped e d with
  | some (throws, d) => pumpStarts throws d.downloadQueue d
  | none => []

theorem handle_pumped [DecidableEq φ] {e : DownloadEvent φ} {d d' : Downloads φ}
    {throws : ℕ → Option IrohError} (h : pumped e d = some (throws, d')) :
    handle e d = d'.pumpDownloads throws := by
  cases e with
  | download aborted throws =>
      obtain ⟨rfl, rfl⟩ := Prod.mk.inj (Option.some.inj h)
      rfl
  | reaction k throws =>
      obtain ⟨rfl, rfl⟩ := Prod.mk.inj (Option.some.inj h)
      rfl
  | transfer k e => cases h

/-! ## What the loop keeps -/

/-- Acting on a transfer leaves the queue and the gate alone. -/
theorem apply_rest (k : ℕ) (f : TransferController φ × List ℕ → TransferController φ × List ℕ)
    (d : Downloads φ) :
    ∃ transfers cancelled, transfers.length = d.transfers.length ∧
      d.apply k f = { d with transfers, cancelled } := by
  unfold apply
  split
  · exact ⟨d.transfers, d.cancelled, rfl, rfl⟩
  · exact ⟨_, _, List.length_set, rfl⟩

def Settled (t : TransferController φ) : Prop := t.isSettled = true

theorem Settled.later {t t' : TransferController φ} (h : Settled t) (hl : t.Later t') :
    Settled t' := by
  obtain ⟨r, hr⟩ := TransferController.isSettled_iff.mp h
  exact TransferController.isSettled_iff.mpr ⟨r, hl r hr⟩

/-- A transfer `begin()` does not wait for is settled. -/
theorem begin_settled {throws : Option IrohError} {t : TransferController φ}
    (h : (t.begin throws).2 = false) : Settled (t.begin throws).1 := by
  cases hs : t.isSettled with
  | true => exact Settled.later hs (TransferController.begin_later throws t)
  | false =>
      simp only [TransferController.isSettled] at hs
      cases throws with
      | none => simp [TransferController.begin, TransferController.isSettled, hs] at h
      | some error =>
          simp only [TransferController.begin, TransferController.isSettled, hs]
          exact ProgressHub.settle_isSettled (some error) t.hub

/-- Settled, and the native side has never heard of it. -/
structure Skipped (t : TransferController φ) : Prop where
  settled : Settled t
  unstarted : t.started = false

/-- What the loop keeps, where `queue` is what is left of the queue.  The transfers that
were started are those whose native promise or whose reaction is pending, and those whose
reaction has run. -/
structure Gated (cap : DownloadCap) (queue starts reacted : List ℕ) (d : Downloads φ) :
    Prop where
  capped : d.maxConcurrentDownloads = cap
  sorted : (starts ++ queue).Sublist (List.range d.transfers.length)
  begun : starts.Perm (d.running ++ d.finished ++ reacted)
  counted : d.activeDownloads = (d.running.length + d.finished.length : ℕ)
  bounded : cap.Bounds d.activeDownloads
  settled : ∀ k ∈ d.finished ++ reacted, d.Has Settled k
  started : ∀ k ∈ starts, d.Has Started k

/-- Nothing waits, or there is no slot for it. -/
def Served (d : Downloads φ) : Prop :=
  d.downloadQueue = [] ∨ d.maxConcurrentDownloads.admits d.activeDownloads = false

namespace Gated

variable {cap : DownloadCap} {d d' : Downloads φ} {k next : ℕ}
  {rest queue queue' starts reacted : List ℕ}

theorem has (h : d.Gated cap queue starts reacted) (hk : k ∈ starts ++ queue) :
    ∃ t, d.transfers[k]? = some t :=
  ⟨_, List.getElem?_eq_getElem (List.mem_range.mp (h.sorted.subset hk))⟩

theorem nodup (h : d.Gated cap queue starts reacted) : (starts ++ queue).Nodup :=
  h.sorted.nodup List.nodup_range

/-- Entries may leave the queue. -/
theorem drop (h : d.Gated cap queue starts reacted) (hq : queue'.Sublist queue) :
    d.Gated cap queue' starts reacted :=
  { h with sorted := ((List.Sublist.refl starts).append hq).trans h.sorted }

/-- The head of the queue takes a slot.  It is running, or its reaction is pending. -/
theorem takeSlot (h : d.Gated cap (next :: rest) starts reacted)
    (hslot : d.maxConcurrentDownloads.admits d.activeDownloads = true)
    (hcap : d'.maxConcurrentDownloads = d.maxConcurrentDownloads)
    (hlength : d'.transfers.length = d.transfers.length)
    (hactive : d'.activeDownloads = d.activeDownloads + 1)
    (hbegun : (d'.running ++ d'.finished).Perm (next :: (d.running ++ d.finished)))
    (hsettled : ∀ k ∈ d'.finished ++ reacted, d'.Has Settled k)
    (hstarted : ∀ k ∈ starts ++ [next], d'.Has Started k) :
    d'.Gated cap rest (starts ++ [next]) reacted where
  capped := hcap.trans h.capped
  sorted := by
    rw [hlength, List.append_assoc]
    exact h.sorted
  begun := by
    have hnext : (starts ++ [next]).Perm (next :: starts) := List.perm_append_singleton _ _
    exact (hnext.trans (h.begun.cons next)).trans (hbegun.symm.append_right reacted)
  counted := by
    have hlen := hbegun.length_eq
    rw [List.length_append, List.length_cons, List.length_append] at hlen
    rw [hactive, h.counted]
    omega
  bounded := by
    rw [hactive]
    exact .of_admits (h.capped ▸ hslot)
  settled := hsettled
  started := hstarted

/-- The head of the queue is started, or dropped when it was cancelled there. -/
theorem start (h : d.Gated cap (next :: rest) starts reacted)
    (hslot : d.maxConcurrentDownloads.admits d.activeDownloads = true)
    (throws : Option IrohError) :
    (d.start throws next).Gated cap rest (starts ++ d.startsOne next) reacted := by
  obtain ⟨t, ht⟩ := h.has (List.mem_append_right starts (List.mem_cons_self ..))
  cases hs : t.isSettled with
  | true =>
      have hone : d.startsOne next = [] := by simp [startsOne, ht, hs]
      rw [start_settled ht hs, hone, List.append_nil]
      exact h.drop (List.sublist_cons_self ..)
  | false =>
      have hone : d.startsOne next = [next] := by simp [startsOne, ht, hs]
      have hstart := start_unsettled ht hs throws
      have hnew : (d.start throws next).transfers[next]? = some (t.begin throws).1 := by
        rw [hstart]
        exact List.getElem?_set_self (List.getElem?_eq_some_iff.mp ht).1
      have hold : ∀ k ∈ d.finished ++ reacted, (d.start throws next).Has Settled k :=
        fun k hk => (h.settled k hk).later (start_later throws next d) fun _ _ => Settled.later
      have hstarted : ∀ k ∈ starts ++ [next], (d.start throws next).Has Started k := by
        intro k hk
        rcases List.mem_append.mp hk with hk | hk
        · exact (h.started k hk).start throws fun _ t _ => begin_started throws t
        · obtain rfl := List.mem_singleton.mp hk
          exact ⟨_, hnew, begin_started throws t⟩
      rw [hone]
      -- it waits for the native promise, or it threw and its reaction is pending
      cases hwaits : (t.begin throws).2 with
      | true =>
          rw [hwaits, if_pos rfl, if_pos rfl] at hstart
          refine h.takeSlot hslot (by rw [hstart]) (by simp [hstart]) (by rw [hstart]) ?_ ?_
            hstarted
          · rw [hstart, List.append_assoc]
            exact List.perm_middle
          · rw [hstart] at hold ⊢
            exact hold
      | false =>
          rw [hwaits, if_neg Bool.false_ne_true, if_neg Bool.false_ne_true] at hstart
          refine h.takeSlot hslot (by rw [hstart]) (by simp [hstart]) (by rw [hstart]) ?_ ?_
            hstarted
          · rw [hstart, ← List.append_assoc]
            exact List.perm_append_singleton _ _
          · intro k hk
            have hmem : k ∈ d.finished ++ reacted ∨ k = next := by
              rw [hstart] at hk
              simp only [List.mem_append, List.mem_singleton] at hk ⊢
              tauto
            rcases hmem with hk | rfl
            · exact hold k hk
            · exact ⟨_, hnew, begin_settled hwaits⟩

/-- The loop takes what is in front of the queue, until it is empty or no slot is free. -/
theorem pump (h : d.Gated cap queue starts reacted) (throws : ℕ → Option IrohError) :
    (Downloads.pump throws queue d).Gated cap (Downloads.pump throws queue d).downloadQueue
        (starts ++ pumpStarts throws queue d) reacted ∧
      (Downloads.pump throws queue d).Served := by
  induction queue generalizing d starts with
  | nil =>
      simp only [Downloads.pump, pumpStarts, List.append_nil]
      exact ⟨{ h with }, Or.inl rfl⟩
  | cons next rest ih =>
      simp only [Downloads.pump, pumpStarts]
      split
      · next hslot =>
          have hrest := ih (h.start hslot (throws next))
          rwa [List.append_assoc] at hrest
      · next hfull =>
          rw [List.append_nil]
          exact ⟨{ h with }, Or.inr (by simpa using hfull)⟩

/-- One transfer is acted on. -/
theorem apply {f : TransferController φ × List ℕ → TransferController φ × List ℕ}
    (h : d.Gated cap queue starts reacted)
    (hlater : ∀ (t : TransferController φ) w, t.Later (f (t, w)).1)
    (hstarted : ∀ t w, Started t → Started (f (t, w)).1) :
    (d.apply k f).Gated cap queue starts reacted := by
  have hsettled : ∀ j ∈ d.finished ++ reacted, (d.apply k f).Has Settled j :=
    fun j hj => (h.settled j hj).later (apply_later hlater) fun _ _ => Settled.later
  have hbegun : ∀ j ∈ starts, (d.apply k f).Has Started j :=
    fun j hj => (h.started j hj).apply fun _ => hstarted
  obtain ⟨ts, cs, hlength, hd⟩ := apply_rest k f d
  rw [hd] at hsettled hbegun ⊢
  exact ⟨h.capped, hlength ▸ h.sorted, h.begun, h.counted, h.bounded, hsettled, hbegun⟩

theorem cancel (h : d.Gated cap queue starts reacted) (k : ℕ) :
    (d.cancel k).Gated cap queue starts reacted :=
  h.apply (TransferController.cancel_later requestNativeCancel) fun t w ht =>
    (TransferController.cancel_started requestNativeCancel t w).trans ht

/-- A transfer is made, and queued last. -/
theorem make (h : d.Gated cap queue starts reacted) :
    ({ d with transfers := d.transfers ++ [TransferController.new] } : Downloads φ).Gated
      cap (queue ++ [d.transfers.length]) starts reacted := by
  refine ⟨h.capped, ?_, h.begun, h.counted, h.bounded, fun k hk => (h.settled k hk).make,
    fun k hk => (h.started k hk).make⟩
  rw [List.length_append, List.length_singleton, List.range_succ, ← List.append_assoc]
  exact h.sorted.append (.refl _)

/-- The native promise of a running transfer is settled. -/
theorem settle (h : d.Gated cap queue starts reacted) (hk : k ∈ d.running)
    (hsettled : d.Has Settled k) : (d.settled k).Gated cap queue starts reacted where
  capped := h.capped
  sorted := h.sorted
  begun := by
    refine h.begun.trans ?_
    have hperm := (List.perm_cons_erase hk).append_right (d.finished ++ reacted)
    refine List.perm_iff_count.mpr fun a => ?_
    have := List.perm_iff_count.mp hperm a
    simp only [Downloads.settled, List.count_append, List.count_cons, List.count_nil] at this ⊢
    omega
  counted := by
    have hpos := List.length_pos_of_mem hk
    simp only [Downloads.settled, List.length_append, List.length_singleton,
      List.length_erase_of_mem hk]
    rw [h.counted]
    omega
  bounded := h.bounded
  settled j hj := by
    simp only [Downloads.settled, List.mem_append, List.mem_singleton] at hj
    rcases hj with (hj | rfl) | hj
    · exact h.settled j (List.mem_append_left _ hj)
    · exact hsettled
    · exact h.settled j (List.mem_append_right _ hj)
  started := h.started

/-- A completion reaction runs, and its slot is free. -/
theorem react (h : d.Gated cap queue starts reacted) (hk : k ∈ d.finished) :
    ({ d with finished := d.finished.erase k, activeDownloads := d.activeDownloads - 1 } :
      Downloads φ).Gated cap queue starts (reacted ++ [k]) where
  capped := h.capped
  sorted := h.sorted
  begun := by
    refine h.begun.trans ?_
    have hperm := (List.perm_cons_erase hk).append_left d.running
    refine List.perm_iff_count.mpr fun a => ?_
    have := List.perm_iff_count.mp hperm a
    simp only [List.count_append, List.count_cons, List.count_nil] at this ⊢
    omega
  counted := by
    have hpos := List.length_pos_of_mem hk
    have hcounted := h.counted
    simp only [List.length_erase_of_mem hk]
    omega
  bounded := h.bounded.pred
  settled j hj := by
    refine h.settled j ?_
    simp only [List.mem_append, List.mem_singleton] at hj ⊢
    rcases hj with hj | hj | rfl
    · exact Or.inl (List.mem_of_mem_erase hj)
    · exact Or.inr hj
    · exact Or.inl hk
  started := h.started

/-- A queue that is cancelled and emptied. -/
theorem cancelQueued (h : d.Gated cap queue starts reacted) :
    d.cancelQueued.Gated cap [] starts reacted :=
  cancelQueued_keeps (P := fun d => d.Gated cap [] starts reacted) (fun _ k hd => hd.cancel k)
    { h.drop (List.nil_sublist queue) with }

/-- A transfer is cancelled or observed, or its native download reports. -/
theorem transfer [DecidableEq φ] (h : d.Gated cap queue starts reacted) (k : ℕ)
    (e : TransferEvent φ) :
    (d.apply k (TransferController.handle requestNativeCancel e)).Gated cap queue starts
      reacted :=
  h.apply (TransferController.handle_later requestNativeCancel e) fun t w ht =>
    (TransferController.handle_started requestNativeCancel e t w).trans ht

theorem new (cap : DownloadCap) :
    ({ maxConcurrentDownloads := cap } : Downloads φ).Gated cap [] [] [] where
  capped := rfl
  sorted := .refl _
  begun := .refl _
  counted := rfl
  bounded := cap.bounds_zero
  settled := nofun
  started := nofun

end Gated

/-! ## What a transfer keeps -/

/-- A property that a transfer keeps when the queue starts it and when it is cancelled. -/
structure Lasting (P : TransferController φ → Prop) : Prop where
  begin : ∀ throws t, t.isSettled = false → P t → P (t.begin throws).1
  cancel : ∀ t w, P t → P (TransferController.cancel requestNativeCancel (t, w)).1

namespace Lasting

variable {P : TransferController φ → Prop} {d : Downloads φ} {k : ℕ}

theorem start (hP : Lasting P) (h : d.Has P k) (throws : Option IrohError) (j : ℕ) :
    (d.start throws j).Has P k := by
  unfold Downloads.start
  split
  · exact h
  · next t ht =>
      cases hs : t.isSettled with
      | true => exact h
      | false => exact h.of_set ht rfl fun _ => hP.begin throws t hs

theorem pump (hP : Lasting P) (h : d.Has P k) (throws : ℕ → Option IrohError) (queue : List ℕ) :
    (Downloads.pump throws queue d).Has P k := by
  induction queue generalizing d with
  | nil => exact h
  | cons next rest ih =>
      simp only [Downloads.pump]
      split
      · exact ih (hP.start h (throws next) next)
      · exact h

theorem cancelOne (hP : Lasting P) (h : d.Has P k) (j : ℕ) : (d.cancel j).Has P k :=
  h.apply fun _ => hP.cancel

/-- Whatever happens to the downloads, the transfer keeps what it keeps when the event is
its own. -/
theorem handle [DecidableEq φ] (hP : Lasting P) (h : d.Has P k) (e : DownloadEvent φ)
    (he : ∀ e', e = .transfer k e' → ∀ t w, P t →
      P (TransferController.handle requestNativeCancel e' (t, w)).1) :
    (Downloads.handle e d).Has P k := by
  cases e with
  | download aborted throws =>
      cases aborted with
      | false =>
          refine hP.pump ?_ throws _
          exact h.make
      | true =>
          refine hP.pump ?_ throws _
          exact hP.cancelOne h.make d.transfers.length
  | reaction j throws =>
      refine hP.pump ?_ throws _
      exact h
  | transfer j e =>
      have happly : (d.apply j (TransferController.handle requestNativeCancel e)).Has P k :=
        h.apply fun hj => he e (by rw [hj])
      cases e with
      | cancel => exact happly
      | onStart _ => exact happly
      | onProgress _ => exact happly
      | downloaded _ => exact happly
      | consumer _ => exact happly

theorem cancelQueued (hP : Lasting P) (h : d.Has P k) : d.cancelQueued.Has P k :=
  cancelQueued_keeps (P := fun d => d.Has P k) (fun _ j hd => hP.cancelOne hd j) h

end Lasting

/-- What was skipped stays skipped. -/
theorem skipped_lasting : Lasting (Skipped (φ := φ)) where
  begin throws t hs ht := absurd ht.settled (by simp [Settled, hs])
  cancel t w ht :=
    ⟨ht.settled.later (TransferController.cancel_later requestNativeCancel t w),
      (TransferController.cancel_started requestNativeCancel t w).trans ht.unstarted⟩

theorem Skipped.handle [DecidableEq φ] {t : TransferController φ} (h : Skipped t)
    (e : TransferEvent φ) (w : List ℕ) :
    Skipped (TransferController.handle requestNativeCancel e (t, w)).1 :=
  ⟨h.settled.later (TransferController.handle_later requestNativeCancel e t w),
    (TransferController.handle_started requestNativeCancel e t w).trans h.unstarted⟩

end Downloads

/-! ## The machine -/

/-- The downloads of an endpoint, and the history of one run. -/
structure DownloadsRun (φ : Type*) where
  downloads : Downloads φ
  starts : List ℕ := []
  reacted : List ℕ := []

inductive DownloadAction (φ : Type*) where
  | event (e : DownloadEvent φ)
  | close

/-- The transfer whose completion reaction an event is. -/
def DownloadEvent.reaction? {φ : Type*} : DownloadEvent φ → Option ℕ
  | .reaction k _ => some k
  | _ => none

namespace DownloadsRun

variable {φ : Type*}

def after [DecidableEq φ] (x : DownloadsRun φ) (e : DownloadEvent φ) : DownloadsRun φ where
  downloads := Downloads.handle e x.downloads
  starts := x.starts ++ Downloads.nativeStarts e x.downloads
  reacted := x.reacted ++ e.reaction?.toList

def step [DecidableEq φ] (x : DownloadsRun φ) : DownloadAction φ → Option (DownloadsRun φ)
  | .event e => if x.downloads.enabled e then some (x.after e) else none
  | .close => some { x with downloads := x.downloads.cancelQueued }

/-- The transfers that were started and are not settled. -/
def live (x : DownloadsRun φ) : List ℕ :=
  x.starts.filter fun k => x.downloads.transfers[k]?.any fun t => !t.isSettled

/-- The transfers that were begun and whose completion reaction has not run. -/
def unreacted (x : DownloadsRun φ) : List ℕ := x.starts.filter fun k => decide (k ∉ x.reacted)

/-- What the gate of an endpoint with this cap guarantees in one state. -/
structure Gate (cap : DownloadCap) (x : DownloadsRun φ) : Prop where
  capped : Number.le (.ofNat x.live.length) cap.limit = true
  ordered : x.starts.Sublist (List.range x.downloads.transfers.length)
  once : x.starts.Nodup
  counted : x.downloads.activeDownloads = x.unreacted.length
  served : (∀ k ∈ x.downloads.downloadQueue, x.downloads.Has Downloads.Settled k) ∨
    cap.limit = .fin x.downloads.activeDownloads

structure Kept (cap : DownloadCap) (x : DownloadsRun φ) : Prop where
  valid : x.downloads.Valid
  gated : x.downloads.Gated cap x.downloads.downloadQueue x.starts x.reacted
  served : x.downloads.Served

variable {cap : DownloadCap} {x : DownloadsRun φ}

theorem Kept.pumped [DecidableEq φ] {e : DownloadEvent φ} {throws : ℕ → Option IrohError}
    {d : Downloads φ} {reacted : List ℕ} (he : Downloads.pumped e x.downloads = some (throws, d))
    (hgated : d.Gated cap d.downloadQueue x.starts reacted) :
    (Downloads.handle e x.downloads).Gated cap (Downloads.handle e x.downloads).downloadQueue
        (x.starts ++ Downloads.nativeStarts e x.downloads) reacted ∧
      (Downloads.handle e x.downloads).Served := by
  rw [Downloads.handle_pumped he, Downloads.nativeStarts, he]
  exact hgated.pump throws

theorem Kept.after [DecidableEq φ] (h : x.Kept cap) {e : DownloadEvent φ}
    (he : x.downloads.enabled e = true) : (x.after e).Kept cap := by
  have hvalid := h.valid.handle he
  cases e with
  | download aborted throws =>
      have hmade := h.gated.make
      have hqueued : ∃ d, Downloads.pumped (.download aborted throws) x.downloads =
          some (throws, d) ∧ d.Gated cap d.downloadQueue x.starts x.reacted := by
        refine ⟨_, rfl, ?_⟩
        cases aborted with
        | false => exact { hmade with }
        | true =>
            have hcancelled := hmade.cancel x.downloads.transfers.length
            simp only [if_true, Downloads.cancel, Downloads.apply_downloadQueue] at hcancelled ⊢
            exact { hcancelled with }
      obtain ⟨d, hd, hgate⟩ := hqueued
      obtain ⟨hgated, hserved⟩ := Kept.pumped hd hgate
      exact ⟨hvalid, by simpa [DownloadsRun.after, DownloadEvent.reaction?] using hgated, hserved⟩
  | reaction k throws =>
      have hk : k ∈ x.downloads.finished := by simpa [Downloads.enabled] using he
      obtain ⟨hgated, hserved⟩ := Kept.pumped (e := .reaction k throws) rfl (h.gated.react hk)
      exact ⟨hvalid, hgated, hserved⟩
  | transfer k e =>
      have happly := h.gated.transfer k e
      obtain ⟨ts, cs, -, hd⟩ := Downloads.apply_rest k
        (TransferController.handle Downloads.requestNativeCancel e) x.downloads
      have hgated : (Downloads.handle (.transfer k e) x.downloads).Gated cap
          x.downloads.downloadQueue x.starts x.reacted := by
        cases e with
        | cancel => exact happly
        | onStart transferId => exact happly
        | onProgress bytesReceived => exact happly
        | downloaded error =>
            have hk : k ∈ x.downloads.running := by simpa [Downloads.enabled] using he
            refine happly.settle (by rw [hd]; exact hk) ?_
            refine Downloads.Has.apply_self (h.valid.running k hk) fun t w _ => ?_
            exact ProgressHub.settle_isSettled error t.hub
        | consumer e => exact happly
      have hrest : (Downloads.handle (.transfer k e) x.downloads).downloadQueue =
            x.downloads.downloadQueue ∧
          (Downloads.handle (.transfer k e) x.downloads).activeDownloads =
            x.downloads.activeDownloads := by
        cases e <;> simp [Downloads.handle, Downloads.settled, hd]
      refine ⟨hvalid, ?_, ?_⟩
      · have hstarts : (x.after (.transfer k e)).starts = x.starts := List.append_nil _
        have hreacted : (x.after (.transfer k e)).reacted = x.reacted := List.append_nil _
        rw [hstarts, hreacted]
        exact hrest.1 ▸ hgated
      · refine h.served.imp (hrest.1.trans ·) fun hfull => ?_
        exact (hrest.2 ▸ hgated.capped.trans h.gated.capped.symm ▸ hfull :)

theorem Kept.close (h : x.Kept cap) :
    ({ x with downloads := x.downloads.cancelQueued } : DownloadsRun φ).Kept cap := by
  have hqueue := x.downloads.cancelQueued_downloadQueue
  refine ⟨h.valid.cancelQueued, ?_, Or.inl hqueue⟩
  simp only [hqueue]
  exact h.gated.cancelQueued

theorem new_kept (cap : DownloadCap) :
    ({ downloads := { maxConcurrentDownloads := cap } } : DownloadsRun φ).Kept cap :=
  ⟨Downloads.valid_new cap, .new cap, Or.inl rfl⟩

namespace Kept

theorem once (h : x.Kept cap) : x.starts.Nodup := h.gated.nodup.of_append_left

/-- The transfers that wait for their reaction are those whose promise is pending and
those whose reaction is pending. -/
theorem unreacted_perm (h : x.Kept cap) :
    x.unreacted.Perm (x.downloads.running ++ x.downloads.finished) := by
  have hnodup := (h.gated.begun.nodup_iff).mp h.once
  have hdisjoint := (List.nodup_append.mp hnodup).2.2
  refine (h.gated.begun.filter _).trans ?_
  rw [List.filter_append]
  have hreacted : x.reacted.filter (fun k => decide (k ∉ x.reacted)) = [] := by
    simp [List.filter_eq_nil_iff]
  have hpending : (x.downloads.running ++ x.downloads.finished).filter
      (fun k => decide (k ∉ x.reacted)) = x.downloads.running ++ x.downloads.finished := by
    refine List.filter_eq_self.mpr fun k hk => ?_
    simp only [decide_eq_true_eq]
    exact fun hr => hdisjoint k hk k hr rfl
  rw [hreacted, hpending, List.append_nil]

/-- A transfer that is started and not settled has its native promise pending. -/
theorem live_running (h : x.Kept cap) : x.live ⊆ x.downloads.running := by
  intro k hk
  obtain ⟨hstart, hunsettled⟩ := List.mem_filter.mp hk
  have hmem := h.gated.begun.subset hstart
  rw [List.append_assoc, List.mem_append] at hmem
  refine hmem.resolve_right fun hrest => ?_
  obtain ⟨t, ht, hsettled⟩ := h.gated.settled k hrest
  simp [ht, show t.isSettled = true from hsettled] at hunsettled

theorem gate (h : x.Kept cap) : x.Gate cap where
  capped := by
    have hbounded := h.gated.bounded
    rw [h.gated.counted] at hbounded
    refine hbounded.of_le ?_
    have hlive := List.subperm_of_subset (h.once.filter _) h.live_running
    exact hlive.length_le.trans (Nat.le_add_right ..)
  ordered := (List.sublist_append_left ..).trans h.gated.sorted
  once := h.once
  counted := by rw [h.gated.counted, h.unreacted_perm.length_eq, List.length_append]
  served := by
    refine h.served.imp (fun hempty => ?_) fun hfull => ?_
    · rw [hempty]
      exact nofun
    · rw [h.gated.capped] at hfull
      exact h.gated.bounded.full hfull

/-- A transfer that waits in the queue is skipped once it is cancelled. -/
theorem skipped_cancel (h : x.Kept cap) {k : ℕ} (hk : k ∈ x.downloads.downloadQueue) :
    (x.downloads.cancel k).Has Downloads.Skipped k := by
  refine (h.valid.waiting k hk).apply_self fun t w ht => ?_
  obtain ⟨e, he, -⟩ := ht.cancel_cancelled Downloads.requestNativeCancel w
  have hwaiting := ht.cancel Downloads.requestNativeCancel w
  exact ⟨TransferController.isSettled_iff.mpr ⟨_, he⟩, hwaiting.unstarted⟩

/-- What is skipped has no slot. -/
theorem not_started (h : x.Kept cap) {k : ℕ} (hk : x.downloads.Has Downloads.Skipped k) :
    k ∉ x.starts := by
  intro hstart
  obtain ⟨t, ht, hskipped⟩ := hk
  obtain ⟨u, hu, hstarted⟩ := h.gated.started k hstart
  obtain rfl := Option.some.inj (ht.symm.trans hu)
  exact absurd (hstarted.symm.trans hskipped.unstarted) (by decide)

end Kept

end DownloadsRun

/-- The machine of the downloads of an endpoint with this cap. -/
def downloadsMachine (φ : Type*) [DecidableEq φ] (cap : DownloadCap) :
    Machine (DownloadsRun φ) (DownloadAction φ) where
  init x := x = { downloads := { maxConcurrentDownloads := cap } }
  step := DownloadsRun.step

namespace DownloadsRun

variable {φ : Type*} [DecidableEq φ] {cap : DownloadCap} {x y : DownloadsRun φ}

theorem kept_invariant (cap : DownloadCap) :
    (downloadsMachine φ cap).Invariant Any (Kept cap) where
  init x hx := hx ▸ new_kept cap
  step x a y hx _ hy := by
    cases a with
    | event e =>
        simp only [downloadsMachine, step, Option.ite_none_right_eq_some, Option.some.injEq] at hy
        obtain ⟨he, rfl⟩ := hy
        exact hx.after he
    | close =>
        obtain rfl := Option.some.inj hy
        exact hx.close

/-- What is settled before it is started stays so for the rest of the run. -/
theorem skipped_leads {k : ℕ} (h : (downloadsMachine φ cap).Leads Any x y)
    (hk : x.downloads.Has Downloads.Skipped k) : y.downloads.Has Downloads.Skipped k := by
  refine h.keeps (I := fun x => x.downloads.Has Downloads.Skipped k) ?_ hk
  rintro x a y hx - hy
  cases a with
  | event e =>
      simp only [downloadsMachine, step, Option.ite_none_right_eq_some, Option.some.injEq] at hy
      obtain ⟨-, rfl⟩ := hy
      exact Downloads.skipped_lasting.handle hx e fun e' _ t w ht => ht.handle e' w
  | close =>
      obtain rfl := Option.some.inj hy
      exact Downloads.skipped_lasting.cancelQueued hx

/-- The gate holds in every state of every run, and a transfer that is cancelled while it
waits in the queue is never started. -/
theorem download_gate (cap : DownloadCap) (hx : (downloadsMachine φ cap).Reachable Any x) :
    x.Gate cap ∧ ∀ k ∈ x.downloads.downloadQueue, ∀ x',
      (downloadsMachine φ cap).step x (.event (.transfer k .cancel)) = some x' →
        ∀ y, (downloadsMachine φ cap).Leads Any x' y → k ∉ y.starts := by
  have hkept := (kept_invariant cap).reachable hx
  refine ⟨hkept.gate, fun k hk x' hx' y hy => ?_⟩
  have hskipped : x'.downloads.Has Downloads.Skipped k := by
    obtain rfl := Option.some.inj hx'
    exact hkept.skipped_cancel hk
  obtain ⟨x₀, hinit, hlead⟩ := hx
  have hreach : (downloadsMachine φ cap).Reachable Any y :=
    ⟨x₀, hinit, (hlead.tail ⟨_, trivial, hx'⟩).trans hy⟩
  exact ((kept_invariant cap).reachable hreach).not_started (skipped_leads hy hskipped)

/-- One download runs, a second and a third wait, and the second is cancelled before the
first is settled. -/
def secondCancelled : List (DownloadAction ℕ) :=
  [.event (.download false fun _ => none), .event (.download false fun _ => none),
    .event (.download false fun _ => none), .event (.transfer 1 .cancel),
    .event (.transfer 0 (.downloaded none)), .event (.reaction 0 fun _ => none)]

def oneSlot : DownloadCap := ⟨.ofNat 1, Or.inr ⟨1, le_rfl, rfl⟩⟩

def thirdRuns : DownloadsRun ℕ :=
  ((downloadsMachine ℕ oneSlot).run { downloads := { maxConcurrentDownloads := oneSlot } }
    secondCancelled).getD { downloads := { maxConcurrentDownloads := oneSlot } }

theorem download_gate_third : thirdRuns.starts = [0, 2] ∧ thirdRuns.Gate oneSlot :=
  ⟨by decide +kernel,
    (download_gate oneSlot (Machine.reachable_getD rfl (by decide +kernel) _)).1⟩

end DownloadsRun

end Iroh
