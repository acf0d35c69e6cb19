import MoSidecar.StreamInput.Acks

/-!
# A cancelled upload taken for a whole one

When the client cancels its call, `reader->Next()` ends the stream as if the client had finished,
and `DoPut` goes on to `finish_upload`. That function announces the end of the input before it asks
`stopped()` for the first time. From there until the handler has called `fail_input`, a scan that
asks for the next batch sees the end of the input and takes the uploaded prefix for the whole.

The window is the only way this can happen: a scan that is not served between the announcement and
the cancellation never sees the end of an upload that was cancelled before it was finished.
-/

namespace MoSidecar.Upload

variable {cfg : UploadConfig} {script : List FlightStreamChunk} {ls : List UploadStep}
  {u u' : Upload} {l : UploadStep}

/-- The handler has announced the end of the input and not cancelled it yet. -/
def InWindow : DoPut → Prop
  | .awaitingEof polled => polled = false
  | .failing _ _ _ => True
  | _ => False

/-- The stream has ended by `cancel` or by `mark_not_needed`. -/
def Closed (s : StreamInput) : Prop := s.cancelled = true ∨ s.notNeeded = true

/-- The scan is not served on an open input while the handler of a cancelled call is in the
window. -/
def Guarded (u : Upload) (l : UploadStep) : Prop :=
  l = .nextBatch → u.stoppedAtFinish = true → InWindow u.handler → Closed u.input

/-- What holds once `finish_upload` was called for a cancelled call. -/
structure Cut (u : Upload) : Prop where
  stopped : u.stopped = true
  ended : u.input.producerEof = true
  empty : u.input.batch = none
  window : InWindow u.handler ∨ Closed u.input

/-! ## Ended streams stay ended -/

theorem Closed.nextBatch {s s' : StreamInput} {r : Except String (Option NativeBatchView)}
    (h : Closed s) (hs : s.nextBatch = some (s', r)) : Closed s' := by
  rcases StreamInput.nextBatch_cases hs with rfl | ⟨rfl, -⟩
  · exact h
  · exact h

theorem Closed.markConsumed {s : StreamInput} (h : Closed s) (sequence : UInt64) :
    Closed (s.markConsumed sequence) := by
  simpa [Closed] using h

theorem Closed.markNotNeeded {s : StreamInput} (h : Closed s) : Closed s.markNotNeeded := by
  rcases StreamInput.markNotNeeded_cases (s := s) with heq | ⟨heq, -⟩
  · rwa [heq]
  · rw [heq]
    exact .inr rfl

theorem Closed.cancel {s : StreamInput} (error : String) : Closed (s.cancel error) :=
  StreamInput.cancelled_or_notNeeded_cancel error

/-! ## The window closes with the cancellation -/

theorem Cut.nextBatch (h : Cut u) {r : Except String (Option NativeBatchView)} {s : StreamInput}
    (hs : u.input.nextBatch = some (s, r)) : Cut { u with input := s } := by
  refine ⟨h.stopped, ?_, ?_, h.window.imp id fun hc ↦ hc.nextBatch hs⟩
  · rcases StreamInput.nextBatch_cases hs with rfl | ⟨rfl, -⟩ <;> exact h.ended
  · rcases StreamInput.nextBatch_cases hs with rfl | ⟨rfl, -⟩ <;> exact h.empty

theorem Cut.close (h : Cut u) {s : StreamInput}
    (hs : s = u.input.markNotNeeded ∨ ∃ error, s = u.input.cancel error) :
    Cut (u.close s) := by
  rcases hs with rfl | ⟨error, rfl⟩
  · refine ⟨h.stopped, ?_, ?_, h.window.imp id Closed.markNotNeeded⟩
    · rcases StreamInput.markNotNeeded_cases (s := u.input) with heq | ⟨heq, -⟩ <;>
        simp [Upload.close, heq, h.ended]
    · rcases StreamInput.markNotNeeded_cases (s := u.input) with heq | ⟨heq, -⟩ <;>
        simp [Upload.close, heq, h.empty]
  · refine ⟨h.stopped, ?_, ?_, .inr (Closed.cancel error)⟩
    · rcases StreamInput.cancel_cases (s := u.input) error with heq | ⟨heq, -⟩ <;>
        simp [Upload.close, heq, h.ended]
    · rcases StreamInput.cancel_cases (s := u.input) error with heq | ⟨heq, -⟩ <;>
        simp [Upload.close, heq, h.empty]

/-- Only a call of `finish_upload` looks at the client's call for this purpose. -/
theorem step_stoppedAtFinish (hstep : step cfg u l = some u') (hl : l ≠ .finish) :
    u'.stoppedAtFinish = u.stoppedAtFinish := by
  revert hstep
  fun_cases step cfg u l <;> intro hstep
  all_goals
    first
    | exact absurd rfl hl
    | (cases hstep; rfl)
    | cases hstep
    | (obtain ⟨r, -, rfl⟩ := Option.map_eq_some_iff.mp hstep; rfl)

/-- Only the scan finds the end of the input. -/
theorem step_consumerEof (hstep : step cfg u l = some u') (hl : l ≠ .nextBatch) :
    u'.input.consumerEof = u.input.consumerEof := by
  revert hstep
  fun_cases step cfg u l <;> intro hstep
  case case1 s hattach =>
    cases hstep
    rw [(StreamInput.attach_eq_ok.mp hattach).2.2]
  all_goals
    first
    | exact absurd rfl hl
    | (cases hstep; rfl)
    | (cases hstep; simp [published, consume, Upload.close])
    | cases hstep

/-- A handler past `finish_upload` has nothing more to write into the slot. -/
theorem Cut.step (hinv : Invariant cfg script u) (h : Cut u) (hstep : step cfg u l = some u') :
    Cut u' := by
  have hpoint := h.ended
  have hat := hinv.point
  -- the upload has ended: at a point where the producer is still open nothing can happen
  cases l with
  | attach =>
    cases hpc : u.handler with
    | attaching => simp [AtPoint, hpc, h.ended] at hat
    | _ => simp [Upload.step, hpc] at hstep
  | writeAck failure =>
    cases hpc : u.handler with
    | acking ack last =>
      have hclosed : Closed u.input := h.window.resolve_left (by simp [hpc, InWindow])
      cases failure <;>
      · simp only [Upload.step, hpc] at hstep
        obtain rfl := Option.some.inj hstep
        exact ⟨h.stopped, h.ended, h.empty, .inr hclosed⟩
    | _ => simp [Upload.step, hpc] at hstep
  | read | readCancelled | readError text =>
    cases hpc : u.handler with
    | reading =>
      simp only [AtPoint, hpc] at hat
      simp [hat.1.writable] at hpoint
    | _ => simp [Upload.step, hpc] at hstep
  | publish =>
    cases hpc : u.handler with
    | publishing b => simp [AtPoint, hpc, h.ended] at hat
    | _ => simp [Upload.step, hpc] at hstep
  | poll =>
    cases hpc : u.handler with
    | awaitingSlot b polled => simp [AtPoint, hpc] at hat
    | awaitingRelease b polled => simp [AtPoint, hpc, h.ended] at hat
    | awaitingEof polled =>
      cases polled with
      | true => simp [Upload.step, hpc] at hstep
      | false =>
        simp only [Upload.step, hpc, afterPoll, h.stopped, if_true] at hstep
        obtain rfl := Option.some.inj hstep
        exact ⟨rfl, h.ended, h.empty, .inl trivial⟩
    | _ => simp [Upload.step, hpc] at hstep
  | wake =>
    cases hpc : u.handler with
    | awaitingSlot b polled => simp [AtPoint, hpc] at hat
    | awaitingRelease b polled => simp [AtPoint, hpc, h.ended] at hat
    | awaitingEof polled =>
      cases polled with
      | false => simp [Upload.step, hpc] at hstep
      | true =>
        have hclosed : Closed u.input := h.window.resolve_left (by simp [hpc, InWindow])
        simp only [Upload.step, hpc] at hstep
        obtain rfl := Option.some.inj hstep
        exact ⟨h.stopped, h.ended, h.empty, .inr hclosed⟩
    | _ => simp [Upload.step, hpc] at hstep
  | finish =>
    cases hpc : u.handler with
    | finishing =>
      simp only [AtPoint, hpc] at hat
      simp [hat.1.writable] at hpoint
    | _ => simp [Upload.step, hpc] at hstep
  | fail =>
    cases hpc : u.handler with
    | failing error status unwound =>
      have hcut : Cut (u.close (u.input.cancel error)) := h.close (.inr ⟨error, rfl⟩)
      simp only [Upload.step, hpc] at hstep
      obtain rfl := Option.some.inj hstep
      exact ⟨hcut.stopped, hcut.ended, hcut.empty, .inr (Closed.cancel error)⟩
    | _ => simp [Upload.step, hpc] at hstep
  | detach =>
    cases hpc : u.handler with
    | detaching status thrown =>
      have hclosed : Closed u.input := h.window.resolve_left (by simp [hpc, InWindow])
      cases status <;> cases thrown <;>
      · simp only [Upload.step, hpc] at hstep
        obtain rfl := Option.some.inj hstep
        exact ⟨h.stopped, h.ended, h.empty, .inr hclosed⟩
    | _ => simp [Upload.step, hpc] at hstep
  | cancelCall =>
    simp only [Upload.step] at hstep
    obtain rfl := Option.some.inj hstep
    exact ⟨rfl, h.ended, h.empty, h.window⟩
  | nextBatch =>
    simp only [Upload.step, Option.map_eq_some_iff] at hstep
    obtain ⟨⟨s, r⟩, hr, rfl⟩ := hstep
    exact h.nextBatch hr
  | markConsumed sequence =>
    simp only [Upload.step] at hstep
    obtain rfl := Option.some.inj hstep
    rw [consume_of_released_none (StreamInput.released_of_batch_none h.empty sequence)]
    exact h
  | markNotNeeded =>
    simp only [Upload.step] at hstep
    obtain rfl := Option.some.inj hstep
    exact h.close (.inl rfl)
  | cancel error =>
    simp only [Upload.step] at hstep
    obtain rfl := Option.some.inj hstep
    exact h.close (.inr ⟨error, rfl⟩)

/-- `finish_upload` opens the window, unless the stream has ended before. -/
theorem Invariant.cut_of_finish (hinv : Invariant cfg script u)
    (hstep : Upload.step cfg u .finish = some u') :
    u.input.producerEof = false ∧ u'.stoppedAtFinish = u.stopped ∧
      u'.input.consumerEof = false ∧ (u.stopped = true → Cut u') := by
  cases hpc : u.handler with
  | finishing =>
    have hat := hinv.point
    simp only [AtPoint, hpc] at hat
    have hempty := hinv.accounting.batch_eq_none hat.1.accepted
    have hunended : u.input.consumerEof = false := by
      cases hc : u.input.consumerEof with
      | false => rfl
      | true => exact absurd (hinv.accounting.ended hc).1 (by simp [hat.1.writable])
    simp only [Upload.step, hpc] at hstep
    obtain rfl := Option.some.inj hstep
    refine ⟨hat.1.writable, rfl, hunended, fun hstopped ↦ ⟨hstopped, rfl, hempty, ?_⟩⟩
    rw [StreamInput.finishWait]
    split_ifs with hwait hcancelled
    · exact .inl rfl
    · exact .inr (.inl hcancelled)
    · refine .inr (.inr ?_)
      have hc : u.input.endOfUpload.consumerEof = false := hunended
      simpa [hc, hcancelled] using hwait
  | _ => simp [Upload.step, hpc] at hstep

/-! ## When a cancelled upload is taken for a whole one -/

/-- In the window an open input ends for a scan that asks. -/
theorem Cut.nextBatch_eof (h : Cut u) (hopen : ¬Closed u.input)
    {r : Except String (Option NativeBatchView)} {s : StreamInput}
    (hs : u.input.nextBatch = some (s, r)) : s.consumerEof = true := by
  rw [Closed, not_or, Bool.not_eq_true, Bool.not_eq_true] at hopen
  rw [StreamInput.nextBatch] at hs
  simp only [StreamInput.ready, h.ended, h.empty, hopen.1, hopen.2, Bool.or_true, Bool.or_false,
    Bool.false_eq_true, if_true, if_false] at hs
  rw [← (Prod.mk.inj (Option.some.inj hs)).1]

/-- What is known after every run: the handshake, the window, and the account of truncations. -/
structure Account (cfg : UploadConfig) (script : List FlightStreamChunk) (ls : List UploadStep)
    (u : Upload) : Prop where
  invariant : Invariant cfg script u
  cut : u.stoppedAtFinish = true → Cut u
  whole : (u.stoppedAtFinish = true → u.input.consumerEof = false) ↔
    (machine cfg).Meets Guarded (.init script) ls

theorem Account.init : Account cfg script [] (.init script) where
  invariant := Invariant.init
  cut := nofun
  whole := iff_of_true nofun trivial

theorem Account.step (h : Account cfg script ls u)
    (hrun : (machine cfg).run (.init script) ls = some u)
    (hstep : (machine cfg).step u l = some u') : Account cfg script (ls ++ [l]) u' := by
  have hinv := h.invariant.step l hstep
  have hmeets : (machine cfg).Meets Guarded (.init script) (ls ++ [l]) ↔
      (machine cfg).Meets Guarded (.init script) ls ∧ Guarded u l := by
    rw [Machine.meets_concat_iff]
    refine and_congr_right fun _ ↦ ⟨fun hall ↦ hall u hrun, fun hu s' hs' ↦ ?_⟩
    obtain rfl : u = s' := Option.some.inj (hrun.symm.trans hs')
    exact hu
  by_cases hfinish : l = .finish
  · subst hfinish
    obtain ⟨hwritable, hstopped, hunended, hcut⟩ := h.invariant.cut_of_finish hstep
    have hbefore : u.stoppedAtFinish = true → u.input.consumerEof = false := fun hs ↦ by
      simp [(h.cut hs).ended] at hwritable
    refine ⟨hinv, fun hs ↦ hcut (hstopped ▸ hs), iff_of_true (fun _ ↦ hunended) ?_⟩
    exact hmeets.mpr ⟨h.whole.mp hbefore, fun hl ↦ nomatch hl⟩
  have hsame := step_stoppedAtFinish hstep hfinish
  refine ⟨hinv, fun hs ↦ (h.cut (hsame ▸ hs)).step h.invariant hstep, ?_⟩
  rw [hmeets, ← h.whole, hsame]
  by_cases hnext : l = .nextBatch
  · subst hnext
    by_cases hs : u.stoppedAtFinish = true
    · have hcut := h.cut hs
      simp only [machine, Upload.step, Option.map_eq_some_iff] at hstep
      obtain ⟨⟨s, r⟩, hr, rfl⟩ := hstep
      by_cases hclosed : Closed u.input
      · -- on a closed input the call changes nothing
        have heq : s = u.input := by
          rcases StreamInput.nextBatch_cases hr with heq | ⟨-, -, -, -, hc, hn⟩
          · exact heq
          · simp [Closed, hc, hn] at hclosed
        rw [heq]
        exact (and_iff_left fun _ _ _ ↦ hclosed).symm
      · have hwindow := hcut.window.resolve_right hclosed
        refine iff_of_false (fun hno ↦ ?_) fun hguard ↦ hclosed (hguard.2 rfl hs hwindow)
        exact absurd (hno hs) (by simp [hcut.nextBatch_eof hclosed hr])
    · exact iff_of_true (fun h' ↦ absurd h' hs) ⟨fun h' ↦ absurd h' hs, fun _ h' ↦ absurd h' hs⟩
  · rw [step_consumerEof hstep hnext]
    exact (and_iff_left fun hl ↦ absurd hl hnext).symm

/-- **When a cancelled upload passes for a whole one.** In a run in which the client's call was
cancelled before `finish_upload`, the scan never sees the end of the input just if it is not served
on the open input between the announcement of the end and the cancellation. -/
theorem no_eof_iff_guarded (cfg : UploadConfig) (script : List FlightStreamChunk)
    (ls : List UploadStep) (u : Upload) (hrun : (machine cfg).run (.init script) ls = some u) :
    (u.stoppedAtFinish = true → u.input.consumerEof = false) ↔
      (machine cfg).Meets Guarded (.init script) ls :=
  (Machine.run_induction (P := Account cfg script) Account.init
    (fun _ _ _ _ hrun h hstep ↦ h.step hrun hstep) hrun).whole

/-- The client sends one of two batches and cancels; the scan is not served meanwhile. -/
def cancelledUpload : List UploadStep :=
  [.attach, .writeAck none] ++ oneFrame 1
    ++ [.cancelCall, .readCancelled, .finish, .poll, .fail, .detach]

theorem no_eof_iff_guarded_cancelledUpload :
    ∃ u, (machine nullConfig).run (.init (nullScript 2)) cancelledUpload = some u ∧
      u.stoppedAtFinish = true ∧ ((u.stoppedAtFinish = true → u.input.consumerEof = false) ↔
        (machine nullConfig).Meets Guarded (.init (nullScript 2)) cancelledUpload) := by
  have hstopped : ((machine nullConfig).run (.init (nullScript 2)) cancelledUpload).map
      (·.stoppedAtFinish) = some true := by decide +kernel
  obtain ⟨u, hrun, hs⟩ := Option.map_eq_some_iff.mp hstopped
  exact ⟨u, hrun, hs, no_eof_iff_guarded nullConfig (nullScript 2) cancelledUpload u hrun⟩

/-- The same upload with a scan that asks for the next batch right after the announcement: it is
told that the input ends, with the second batch never sent. -/
theorem truncated_upload :
    ∃ u, (machine nullConfig).run (.init (nullScript 2)) ([.attach, .writeAck none] ++ oneFrame 1
        ++ [.cancelCall, .readCancelled, .finish, .nextBatch]) = some u ∧
      u.stoppedAtFinish = true ∧ u.input.consumerEof = true ∧ u.input.notNeeded = false ∧
        u.pending = [nullChunk 4294967295 2] := by
  have hrun : ((machine nullConfig).run (.init (nullScript 2)) ([.attach, .writeAck none]
      ++ oneFrame 1 ++ [.cancelCall, .readCancelled, .finish, .nextBatch])).map
      (fun u ↦ (u.stoppedAtFinish, u.input.consumerEof, u.input.notNeeded, u.pending))
      = some (true, true, false, [nullChunk 4294967295 2]) := by decide +kernel
  obtain ⟨u, hu, hfields⟩ := Option.map_eq_some_iff.mp hrun
  obtain ⟨hstopped, hrest⟩ := Prod.mk.inj hfields
  obtain ⟨heof, hrest⟩ := Prod.mk.inj hrest
  obtain ⟨hneeded, hpending⟩ := Prod.mk.inj hrest
  exact ⟨u, hu, hstopped, heof, hneeded, hpending⟩

end MoSidecar.Upload
