import Mathlib.Data.List.Nodup
import ReactNativeIroh.Ts.Number
import ReactNativeIroh.Ts.Transfer

/-!
# The download queue

An endpoint starts the transfers of its queue while fewer than
`maxConcurrentDownloads` are active.  A transfer is known by its number, the order of
the calls that made it.  A child of a collection is made and queued like any other
transfer.

A started transfer is active until the reaction to the promise of `begin()` has run.
`running` are the transfers whose native promise is pending, and `finished` those
whose promise of `begin()` is resolved and whose reaction is not yet run.  Which
native calls throw is an argument of the events that may start one.
-/

namespace Iroh

/-- A normalized cap: `Infinity`, or an integer from one on. -/
structure DownloadCap where
  limit : Number
  normalized : limit = .posInf ∨ ∃ k : ℕ, 1 ≤ k ∧ limit = .ofNat k

namespace DownloadCap

/-- `DEFAULT_MAX_CONCURRENT_DOWNLOADS`. -/
def default : Number := .ofNat 32

theorem default_normalized : default = .posInf ∨ ∃ k : ℕ, 1 ≤ k ∧ default = .ofNat k :=
  Or.inr ⟨32, by decide, rfl⟩

/-- The cap of an endpoint created with this `maxConcurrentDownloads`. -/
def ofOption (requested : Option Number) : DownloadCap :=
  match requested.getD default with
  | .posInf => ⟨.posInf, Or.inl rfl⟩
  | .fin q => ⟨Number.clamp (.fin q), Number.clamp_cases (by simp)⟩
  | _ => ⟨default, default_normalized⟩

/-- `active < maxConcurrentDownloads`. -/
def admits (cap : DownloadCap) (active : ℤ) : Bool := Number.lt (.fin active) cap.limit

end DownloadCap

structure Downloads (φ : Type*) where
  maxConcurrentDownloads : DownloadCap
  transfers : List (TransferController φ) := []
  downloadQueue : List ℕ := []
  activeDownloads : ℤ := 0
  running : List ℕ := []
  finished : List ℕ := []
  cancelled : List ℕ := []

/-- What can happen to the downloads.  `download` is a call that makes a transfer,
with whether its signal was aborted before.  `reaction` is the reaction to the promise
of `begin()`. -/
inductive DownloadEvent (φ : Type*) where
  | download (aborted : Bool) (throws : ℕ → Option IrohError)
  | transfer (k : ℕ) (e : TransferEvent φ)
  | reaction (k : ℕ) (throws : ℕ → Option IrohError)

namespace Downloads

variable {φ : Type*}

/-- `cancelDownload`, recording the native id it is called with. -/
def requestNativeCancel (transferId : ℕ) (cancelled : List ℕ) : List ℕ := cancelled ++ [transferId]

/-- Act on one transfer. -/
def apply (k : ℕ) (f : TransferController φ × List ℕ → TransferController φ × List ℕ)
    (d : Downloads φ) : Downloads φ :=
  match d.transfers[k]? with
  | none => d
  | some t =>
      let (t, cancelled) := f (t, d.cancelled)
      { d with transfers := d.transfers.set k t, cancelled }

@[simp] theorem apply_downloadQueue (k : ℕ)
    (f : TransferController φ × List ℕ → TransferController φ × List ℕ) (d : Downloads φ) :
    (d.apply k f).downloadQueue = d.downloadQueue := by
  unfold apply
  split
  · rfl
  · rfl

@[simp] theorem apply_running (k : ℕ)
    (f : TransferController φ × List ℕ → TransferController φ × List ℕ) (d : Downloads φ) :
    (d.apply k f).running = d.running := by
  unfold apply
  split
  · rfl
  · rfl

/-- Start a transfer that was shifted out of the queue.  One that was cancelled while
queued never occupies a slot. -/
def start (throws : Option IrohError) (k : ℕ) (d : Downloads φ) : Downloads φ :=
  match d.transfers[k]? with
  | none => d
  | some t =>
      if t.isSettled then d
      else
        let (t, downloading) := t.begin throws
        { d with
          transfers := d.transfers.set k t
          activeDownloads := d.activeDownloads + 1
          running := if downloading then d.running ++ [k] else d.running
          finished := if downloading then d.finished else d.finished ++ [k] }

/-- The loop of `pumpDownloads`, over the queue. -/
def pump (throws : ℕ → Option IrohError) : List ℕ → Downloads φ → Downloads φ
  | [], d => { d with downloadQueue := [] }
  | next :: rest, d =>
      if d.maxConcurrentDownloads.admits d.activeDownloads then
        pump throws rest (d.start (throws next) next)
      else { d with downloadQueue := next :: rest }
termination_by structural queue => queue

theorem start_settled {d : Downloads φ} {k : ℕ} {t : TransferController φ}
    (ht : d.transfers[k]? = some t) (hs : t.isSettled = true) (throws : Option IrohError) :
    d.start throws k = d := by
  simp only [start, ht, if_pos hs]

theorem start_unsettled {d : Downloads φ} {k : ℕ} {t : TransferController φ}
    (ht : d.transfers[k]? = some t) (hs : t.isSettled = false) (throws : Option IrohError) :
    d.start throws k =
      { d with
        transfers := d.transfers.set k (t.begin throws).1
        activeDownloads := d.activeDownloads + 1
        running := if (t.begin throws).2 then d.running ++ [k] else d.running
        finished := if (t.begin throws).2 then d.finished else d.finished ++ [k] } := by
  simp only [start, ht, if_neg (by rw [hs]; exact Bool.false_ne_true : ¬ t.isSettled = true)]

/-- Start queued transfers while concurrency slots are available. -/
def pumpDownloads (throws : ℕ → Option IrohError) (d : Downloads φ) : Downloads φ :=
  pump throws d.downloadQueue d

/-- Add the transfer to the queue and pump. -/
def enqueueDownload (throws : ℕ → Option IrohError) (k : ℕ) (d : Downloads φ) : Downloads φ :=
  pumpDownloads throws { d with downloadQueue := d.downloadQueue ++ [k] }

def cancel (k : ℕ) (d : Downloads φ) : Downloads φ :=
  d.apply k (TransferController.cancel requestNativeCancel)

/-- Make a transfer, cancel it if its signal was aborted, and queue it. -/
def download (aborted : Bool) (throws : ℕ → Option IrohError) (d : Downloads φ) : Downloads φ :=
  let k := d.transfers.length
  let d := { d with transfers := d.transfers ++ [TransferController.new] }
  (if aborted then d.cancel k else d).enqueueDownload throws k

/-- Cancel what waits in the queue. -/
def cancelQueued (d : Downloads φ) : Downloads φ :=
  d.downloadQueue.foldl (fun d k => d.cancel k) { d with downloadQueue := [] }

/-- The event is one that can happen now: a native callback follows the start of the
transfer, and a promise is settled once. -/
def enabled (d : Downloads φ) : DownloadEvent φ → Bool
  | .transfer k (.downloaded _) => decide (k ∈ d.running)
  | .transfer k (.onStart _) => d.transfers[k]?.any TransferController.started
  | .transfer k (.onProgress _) => d.transfers[k]?.any TransferController.started
  | .reaction k _ => decide (k ∈ d.finished)
  | _ => true

/-- The native promise of a transfer is settled. -/
def settled (k : ℕ) (d : Downloads φ) : Downloads φ :=
  { d with running := d.running.erase k, finished := d.finished ++ [k] }

def handle [DecidableEq φ] : DownloadEvent φ → Downloads φ → Downloads φ
  | .download aborted throws, d => d.download aborted throws
  | .transfer k (.downloaded error), d =>
      (d.apply k (TransferController.handle requestNativeCancel (.downloaded error))).settled k
  | .transfer k e, d => d.apply k (TransferController.handle requestNativeCancel e)
  | .reaction k throws, d =>
      pumpDownloads throws
        { d with finished := d.finished.erase k, activeDownloads := d.activeDownloads - 1 }

/-! ## What is settled stays settled -/

/-- One state of the downloads is a later one. -/
def Later (d d' : Downloads φ) : Prop :=
  ∀ (k : ℕ) (t : TransferController φ), d.transfers[k]? = some t →
    ∃ t', d'.transfers[k]? = some t' ∧ t.Later t'

variable {d d' d'' : Downloads φ} {k : ℕ}
  {f : TransferController φ × List ℕ → TransferController φ × List ℕ}

theorem Later.refl (d : Downloads φ) : d.Later d := fun _ t h => ⟨t, h, .refl t⟩

theorem Later.trans (h : d.Later d') (h' : d'.Later d'') : d.Later d'' := by
  intro k t ht
  obtain ⟨t', ht', hl⟩ := h k t ht
  obtain ⟨t'', ht'', hl'⟩ := h' k t' ht'
  exact ⟨t'', ht'', fun r hr => hl' r (hl r hr)⟩

/-- A transfer is replaced by a later state of it. -/
theorem later_set {t t' : TransferController φ} (ht : d.transfers[k]? = some t) (hl : t.Later t')
    (htransfers : d'.transfers = d.transfers.set k t') : d.Later d' := by
  intro j u hu
  rw [htransfers]
  by_cases hj : k = j
  · subst hj
    obtain rfl := Option.some.inj (ht.symm.trans hu)
    have hlt := (List.getElem?_eq_some_iff.mp ht).1
    exact ⟨t', by simp [hlt], hl⟩
  · exact ⟨u, by rw [List.getElem?_set_ne hj, hu], .refl u⟩

theorem apply_later (hf : ∀ (t : TransferController φ) w, t.Later (f (t, w)).1) :
    d.Later (d.apply k f) := by
  unfold apply
  split
  · exact .refl d
  · next t ht => exact later_set ht (hf t _) rfl

theorem start_later (throws : Option IrohError) (k : ℕ) (d : Downloads φ) :
    d.Later (d.start throws k) := by
  unfold start
  split
  · exact .refl d
  · next t ht =>
      split
      · exact .refl d
      · exact later_set ht (TransferController.begin_later throws t) rfl

theorem pump_later (throws : ℕ → Option IrohError) (queue : List ℕ) (d : Downloads φ) :
    d.Later (pump throws queue d) := by
  induction queue generalizing d with
  | nil => exact .refl d
  | cons next rest ih =>
      simp only [pump]
      split
      · exact (start_later _ next d).trans (ih _)
      · exact .refl d

theorem enqueueDownload_later (throws : ℕ → Option IrohError) (k : ℕ) (d : Downloads φ) :
    d.Later (d.enqueueDownload throws k) :=
  pump_later throws (d.downloadQueue ++ [k]) { d with downloadQueue := d.downloadQueue ++ [k] }

theorem cancel_later (k : ℕ) (d : Downloads φ) : d.Later (d.cancel k) :=
  apply_later (TransferController.cancel_later _)

theorem download_later (aborted : Bool) (throws : ℕ → Option IrohError) (d : Downloads φ) :
    d.Later (d.download aborted throws) := by
  have hmade : d.Later { d with transfers := d.transfers ++ [TransferController.new] } := by
    intro k t ht
    have hlt := (List.getElem?_eq_some_iff.mp ht).1
    exact ⟨t, by rw [List.getElem?_append_left hlt, ht], .refl t⟩
  refine hmade.trans ?_
  cases aborted with
  | false => exact enqueueDownload_later throws _ _
  | true => exact (cancel_later _ _).trans (enqueueDownload_later throws _ _)

theorem handle_later [DecidableEq φ] (e : DownloadEvent φ) (d : Downloads φ) :
    d.Later (handle e d) := by
  cases e with
  | download aborted throws => exact download_later aborted throws d
  | reaction k throws =>
      exact pump_later throws d.downloadQueue
        { d with finished := d.finished.erase k, activeDownloads := d.activeDownloads - 1 }
  | transfer k e =>
      have happly := apply_later (d := d) (k := k)
        (TransferController.handle_later requestNativeCancel e)
      cases e with
      | cancel => exact happly
      | onStart _ => exact happly
      | onProgress _ => exact happly
      | downloaded _ => exact happly
      | consumer _ => exact happly

/-! ## The invariant -/

/-- The transfer exists, and the property holds of it. -/
def Has (P : TransferController φ → Prop) (k : ℕ) (d : Downloads φ) : Prop :=
  ∃ t, d.transfers[k]? = some t ∧ P t

section Has

variable {P Q : TransferController φ → Prop} {j : ℕ}

theorem Has.of_set {t t' : TransferController φ} (h : d.Has P j) (ht : d.transfers[k]? = some t)
    (htransfers : d'.transfers = d.transfers.set k t') (hself : k = j → P t → P t') :
    d'.Has P j := by
  obtain ⟨u, hu, hP⟩ := h
  rw [Has, htransfers]
  by_cases hj : k = j
  · subst hj
    obtain rfl := Option.some.inj (ht.symm.trans hu)
    have hlt := (List.getElem?_eq_some_iff.mp ht).1
    exact ⟨t', by simp [hlt], hself rfl hP⟩
  · exact ⟨u, by rw [List.getElem?_set_ne hj, hu], hP⟩

theorem Has.apply (h : d.Has P j) (hf : k = j → ∀ t w, P t → P (f (t, w)).1) :
    (d.apply k f).Has P j := by
  unfold Downloads.apply
  split
  · exact h
  · next t ht => exact h.of_set ht rfl fun hj => hf hj t _

theorem Has.apply_self (h : d.Has P k) (hf : ∀ t w, P t → Q (f (t, w)).1) :
    (d.apply k f).Has Q k := by
  obtain ⟨t, ht, hP⟩ := h
  refine ⟨(f (t, d.cancelled)).1, ?_, hf t _ hP⟩
  simp only [Downloads.apply, ht]
  exact List.getElem?_set_self (List.getElem?_eq_some_iff.mp ht).1

theorem Has.start (h : d.Has P j) (throws : Option IrohError)
    (hP : k = j → ∀ t, P t → P (t.begin throws).1) : (d.start throws k).Has P j := by
  unfold Downloads.start
  split
  · exact h
  · next t ht =>
      split
      · exact h
      · exact h.of_set ht rfl fun hj => hP hj t

theorem Has.make (h : d.Has P k) :
    ({ d with transfers := d.transfers ++ [TransferController.new] } : Downloads φ).Has P k := by
  obtain ⟨t, ht, hP⟩ := h
  have hlt := (List.getElem?_eq_some_iff.mp ht).1
  exact ⟨t, (List.getElem?_append_left hlt).trans ht, hP⟩

theorem Has.later (h : d.Has P k) (hl : d.Later d') (hP : ∀ t t', P t → t.Later t' → P t') :
    d'.Has P k := by
  obtain ⟨t, ht, hPt⟩ := h
  obtain ⟨t', ht', htl⟩ := hl k t ht
  exact ⟨t', ht', hP t t' hPt htl⟩

end Has

def Started (t : TransferController φ) : Prop := t.started = true

/-- The invariant, where `queue` is what is left of the queue: its transfers wait, and
the native promises pending are those of transfers that were started. -/
structure Serves (queue : List ℕ) (d : Downloads φ) : Prop where
  nodup : queue.Nodup
  waiting : ∀ k ∈ queue, d.Has TransferController.Waiting k
  running : ∀ k ∈ d.running, d.Has Started k

def Valid (d : Downloads φ) : Prop := d.Serves d.downloadQueue

theorem begin_started (throws : Option IrohError) (t : TransferController φ) :
    Started (t.begin throws).1 := by
  simp only [Started, TransferController.begin]
  split
  · rfl
  · split
    · rfl
    · rfl

namespace Serves

variable {next : ℕ} {rest queue : List ℕ}

/-- The head of the queue is started. -/
theorem start (h : d.Serves (next :: rest)) (throws : Option IrohError) :
    (d.start throws next).Serves rest where
  nodup := h.nodup.of_cons
  waiting k hk := by
    refine (h.waiting k (List.mem_cons_of_mem _ hk)).start throws fun hj => ?_
    exact absurd (hj ▸ hk) (List.nodup_cons.mp h.nodup).1
  running k hk := by
    obtain ⟨t, ht, -⟩ := h.waiting next (List.mem_cons_self ..)
    cases hs : t.isSettled with
    | true =>
        rw [start_settled ht hs] at hk ⊢
        exact h.running k hk
    | false =>
        by_cases hnext : k = next
        · subst hnext
          refine ⟨(t.begin throws).1, ?_, begin_started throws t⟩
          rw [start_unsettled ht hs]
          exact List.getElem?_set_self (List.getElem?_eq_some_iff.mp ht).1
        · have hold : k ∈ d.running := by
            rw [start_unsettled ht hs] at hk
            simp only at hk
            split at hk
            · exact (List.mem_append.mp hk).resolve_right (by simpa using hnext)
            · exact hk
          exact (h.running k hold).start throws fun hj => absurd hj.symm hnext

theorem pump (h : d.Serves queue) (throws : ℕ → Option IrohError) :
    (Downloads.pump throws queue d).Valid := by
  induction queue generalizing d with
  | nil => exact ⟨List.nodup_nil, nofun, h.running⟩
  | cons next rest ih =>
      simp only [Downloads.pump]
      split
      · exact ih (h.start (throws next))
      · exact ⟨h.nodup, h.waiting, h.running⟩

/-- One transfer is acted on. -/
theorem apply (h : d.Serves queue)
    (hwaiting : k ∈ queue → ∀ t w, t.Waiting → (f (t, w)).1.Waiting)
    (hstarted : ∀ t w, Started t → Started (f (t, w)).1) : (d.apply k f).Serves queue where
  nodup := h.nodup
  waiting j hj := (h.waiting j hj).apply fun hkj => hwaiting (hkj ▸ hj)
  running j hj := by
    rw [apply_running] at hj
    exact (h.running j hj).apply fun _ => hstarted

theorem cancel (h : d.Serves queue) (k : ℕ) : (d.cancel k).Serves queue :=
  h.apply (fun _ _ w ht => ht.cancel requestNativeCancel w) fun t w ht =>
    (TransferController.cancel_started requestNativeCancel t w).trans ht

/-- A transfer is made and queued. -/
theorem make (h : d.Serves queue) :
    ({ d with transfers := d.transfers ++ [TransferController.new] } : Downloads φ).Serves
      (queue ++ [d.transfers.length]) := by
  refine ⟨?_, fun k hk => ?_, fun k hk => (h.running k hk).make⟩
  · rw [List.nodup_append]
    refine ⟨h.nodup, List.nodup_singleton _, fun j hj k hk hjk => ?_⟩
    obtain ⟨t, ht, -⟩ := h.waiting j hj
    obtain rfl := List.mem_singleton.mp hk
    exact absurd (List.getElem?_eq_some_iff.mp ht).1 (by omega)
  · rcases List.mem_append.mp hk with hk | hk
    · exact (h.waiting k hk).make
    · obtain rfl := List.mem_singleton.mp hk
      exact ⟨.new, List.getElem?_concat_length, TransferController.waiting_new⟩

end Serves

theorem valid_new (cap : DownloadCap) : ({ maxConcurrentDownloads := cap } : Downloads φ).Valid :=
  ⟨List.nodup_nil, nofun, nofun⟩

theorem Valid.pumpDownloads (h : d.Valid) (throws : ℕ → Option IrohError) :
    (d.pumpDownloads throws).Valid :=
  Serves.pump h throws

theorem Valid.enqueueDownload (h : d.Serves (d.downloadQueue ++ [k]))
    (throws : ℕ → Option IrohError) : (d.enqueueDownload throws k).Valid := by
  have hqueued : Valid { d with downloadQueue := d.downloadQueue ++ [k] } :=
    ⟨h.nodup, h.waiting, h.running⟩
  exact hqueued.pumpDownloads throws

theorem Valid.download (h : d.Valid) (aborted : Bool) (throws : ℕ → Option IrohError) :
    (d.download aborted throws).Valid := by
  have hmade : Serves (d.downloadQueue ++ [d.transfers.length])
      { d with transfers := d.transfers ++ [TransferController.new] } := Serves.make h
  cases aborted with
  | false => exact Valid.enqueueDownload hmade throws
  | true =>
      refine Valid.enqueueDownload ?_ throws
      rw [if_pos rfl, Downloads.cancel, apply_downloadQueue]
      exact hmade.cancel d.transfers.length

section Handle

variable [DecidableEq φ]

theorem Valid.transfer (h : d.Valid) {e : TransferEvent φ} (he : d.enabled (.transfer k e) = true) :
    (d.apply k (TransferController.handle requestNativeCancel e)).Valid := by
  unfold Valid
  rw [apply_downloadQueue]
  refine Serves.apply h (fun hk t w ht => ?_) fun t w ht =>
    (TransferController.handle_started requestNativeCancel e t w).trans ht
  cases hn : e.native with
  | false => exact ht.handle requestNativeCancel hn w
  | true =>
      -- what the native side reports on was started, and does not wait
      have hstarted : d.Has Started k := by
        cases e with
        | cancel => cases hn
        | consumer e => cases hn
        | downloaded error => exact h.running k (by simpa [enabled] using he)
        | onStart transferId => simpa [enabled, Option.any_eq_true, Has, Started] using he
        | onProgress bytesReceived => simpa [enabled, Option.any_eq_true, Has, Started] using he
      obtain ⟨u, hu, hwaiting⟩ := h.waiting k hk
      obtain ⟨v, hv, hbegun⟩ := hstarted
      obtain rfl := Option.some.inj (hu.symm.trans hv)
      exact absurd (hbegun.symm.trans hwaiting.unstarted) (by decide)

theorem Valid.handle (h : d.Valid) {e : DownloadEvent φ} (he : d.enabled e = true) :
    (handle e d).Valid := by
  cases e with
  | download aborted throws => exact h.download aborted throws
  | reaction k throws =>
      have hfreed : Valid
          { d with finished := d.finished.erase k, activeDownloads := d.activeDownloads - 1 } :=
        ⟨h.nodup, h.waiting, h.running⟩
      exact hfreed.pumpDownloads throws
  | transfer k e =>
      have hsame := h.transfer he
      cases e with
      | cancel => exact hsame
      | onStart transferId => exact hsame
      | onProgress bytesReceived => exact hsame
      | downloaded error =>
          exact ⟨hsame.nodup, hsame.waiting, fun j hj => hsame.running j (List.mem_of_mem_erase hj)⟩
      | consumer e => exact hsame

end Handle

/-! ## Cancelling the queue -/

theorem foldl_cancel_later (ks : List ℕ) (d : Downloads φ) :
    d.Later (ks.foldl (fun d k => d.cancel k) d) := by
  induction ks generalizing d with
  | nil => exact .refl d
  | cons k ks ih => exact (cancel_later k d).trans (ih _)

/-- What every cancel keeps holds once the queue is cancelled. -/
theorem cancelQueued_keeps {P : Downloads φ → Prop} (hP : ∀ d k, P d → P (d.cancel k))
    (h : P { d with downloadQueue := [] }) : P d.cancelQueued :=
  List.foldlRecOn d.downloadQueue _ h fun d hd k _ => hP d k hd

@[simp] theorem cancelQueued_downloadQueue (d : Downloads φ) :
    d.cancelQueued.downloadQueue = [] := by
  refine cancelQueued_keeps (P := fun d => d.downloadQueue = []) (fun d k hd => ?_) rfl
  exact (apply_downloadQueue _ _ _).trans hd

theorem foldl_cancel_cancelled (ks : List ℕ) (d : Downloads φ)
    (h : ∀ k ∈ ks, d.Has TransferController.Waiting k) :
    ∀ k ∈ ks, (ks.foldl (fun d k => d.cancel k) d).Has TransferController.Cancelled k := by
  induction ks generalizing d with
  | nil => exact nofun
  | cons j ks ih =>
      intro k hk
      rcases List.mem_cons.mp hk with rfl | hk
      · have hself : (d.cancel k).Has TransferController.Cancelled k :=
          (h k (List.mem_cons_self ..)).apply_self fun _ w ht =>
            ht.cancel_cancelled requestNativeCancel w
        exact hself.later (foldl_cancel_later ks _) fun _ _ ht => ht.later
      · refine ih (d.cancel j) (fun i hi => ?_) k hk
        exact (h i (List.mem_cons_of_mem _ hi)).apply fun _ _ w ht =>
          ht.cancel requestNativeCancel w

/-- What waited in the queue is settled as cancelled. -/
theorem Valid.cancelQueued_cancelled (h : d.Valid) (hk : k ∈ d.downloadQueue) :
    d.cancelQueued.Has TransferController.Cancelled k :=
  foldl_cancel_cancelled d.downloadQueue { d with downloadQueue := [] } h.waiting k hk

theorem Valid.cancelQueued (h : d.Valid) : d.cancelQueued.Valid := by
  unfold Valid
  rw [cancelQueued_downloadQueue]
  exact cancelQueued_keeps (P := fun d => d.Serves []) (fun d k hd => hd.cancel k)
    ⟨List.nodup_nil, nofun, h.running⟩

end Downloads

end Iroh
