import MoSidecar.Machine.Run
import MoSidecar.StreamInput.Slot

/-!
# The slot between one producer and one consumer

The slot of a stream input with one sequential thread that uploads to it, one that reads from it,
and any number of others that end the stream. The upload handler of the server is one such producer;
here a producer may call what it likes in any order, one call at a time. A frame that does not
decode throws before the mutex is taken, so `publish` starts with the decoded frame.

The producer's waits are timed, so they always end. The consumer's wait is not: it sleeps until
somebody notifies it, or until it wakes up for no reason. Whether it sleeps is part of the state,
and nobody may forget to wake it: that a sleeping consumer has nothing to do is an invariant.
-/

namespace MoSidecar

/-- Where the producer is. -/
inductive ProducerPoint where
  | idle
  /-- In the first loop of `publish`; `polled` once `stopped()` has answered no. -/
  | awaitingSlot (b : NativeBatchView) (polled : Bool)
  /-- In the second loop of `publish`. -/
  | awaitingRelease (b : NativeBatchView) (polled : Bool)
  /-- In the loop of `finish_upload`. -/
  | awaitingEof (polled : Bool)
  deriving DecidableEq

/-- Where the consumer is. -/
inductive ConsumerPoint where
  | idle
  /-- In the wait of `next_batch`: asleep, or woken and about to take the mutex. -/
  | waiting (asleep : Bool)
  deriving DecidableEq

/-- A stream input, its producer and its consumer. -/
structure Rendezvous where
  input : StreamInput := {}
  producer : ProducerPoint := .idle
  consumer : ConsumerPoint := .idle
  deriving DecidableEq

/-- Who does what next. -/
inductive RendezvousStep where
  | attach
  | publish (b : NativeBatchView)
  | finishUpload
  | detach
  /-- A waiting loop of the producer asks `stopped()`. -/
  | poll (stopped : Bool)
  /-- A timed wait of the producer ends. -/
  | wake
  | nextBatch
  /-- The wait of the consumer ends, notified or not. -/
  | resume
  | markConsumed (sequence : UInt64)
  | markNotNeeded
  | cancel (error : String)
  deriving DecidableEq

namespace Rendezvous

variable (c : Rendezvous)

/-- `condition_.notify_all()`, as far as the consumer is concerned. -/
def notify : Rendezvous :=
  match c.consumer with
  | .idle => c
  | .waiting _ => { c with consumer := .waiting false }

/-- Where the producer goes from a section of `publish`. -/
def afterPublish (b : NativeBatchView) : PublishOutcome → ProducerPoint
  | .returned _ => .idle
  | .awaitingSlot => .awaitingSlot b false
  | .awaitingRelease => .awaitingRelease b false

/-- The effect of a section of `publish`; one that fills the slot notifies. -/
def published (b : NativeBatchView) (r : StreamInput × PublishOutcome) : Rendezvous :=
  let c' := { c with input := r.1, producer := afterPublish b r.2 }
  match r.2 with
  | .awaitingRelease => c'.notify
  | _ => c'

/-- Where the producer goes from a section of `finish_upload`. -/
def afterFinish : Option (Except ArrowError UploadInputAck) → ProducerPoint
  | none => .awaitingEof false
  | some _ => .idle

/-- `next_batch`, from the call or from a wake-up to the next wait or the return. -/
def take : Rendezvous :=
  match c.input.nextBatch with
  | none => { c with consumer := .waiting true }
  | some (s, _) => { c with input := s, consumer := .idle }

/-- One step of the three. -/
def step : RendezvousStep → Option Rendezvous
  | .attach =>
    match c.producer, c.input.attach with
    | .idle, .ok s => some { c with input := s }
    | .idle, .error _ => some c
    | _, _ => none
  | .publish b =>
    match c.producer with
    | .idle => some (c.published b (c.input.publish b))
    | _ => none
  | .finishUpload =>
    match c.producer with
    | .idle =>
      some (notify
        { c with
          input := c.input.endOfUpload
          producer := afterFinish c.input.endOfUpload.finishWait })
    | _ => none
  | .detach =>
    match c.producer with
    | .idle => some (notify { c with input := c.input.detach })
    | _ => none
  | .poll stopped =>
    match c.producer with
    | .awaitingSlot b false =>
      some { c with producer := if stopped then .idle else .awaitingSlot b true }
    | .awaitingRelease b false =>
      some { c with producer := if stopped then .idle else .awaitingRelease b true }
    | .awaitingEof false => some { c with producer := if stopped then .idle else .awaitingEof true }
    | _ => none
  | .wake =>
    match c.producer with
    | .awaitingSlot b true => some (c.published b (c.input.publishSlot b))
    | .awaitingRelease b true => some { c with producer := afterPublish b c.input.publishRelease }
    | .awaitingEof true => some { c with producer := afterFinish c.input.finishWait }
    | _ => none
  | .nextBatch =>
    match c.consumer with
    | .idle => some c.take
    | .waiting _ => none
  | .resume =>
    match c.consumer with
    | .idle => none
    | .waiting _ => some c.take
  | .markConsumed sequence =>
    match c.consumer with
    | .idle => some { c with input := c.input.markConsumed sequence }
    | .waiting _ => none
  | .markNotNeeded => some (notify { c with input := c.input.markNotNeeded })
  | .cancel error => some (notify { c with input := c.input.cancel error })

/-- The interleavings of the three. -/
def machine : Machine Rendezvous RendezvousStep := ⟨step⟩

/-- The producer is in a loop whose condition to wait holds. -/
def ProducerBlocked : Prop :=
  match c.producer with
  | .idle => False
  | .awaitingSlot _ _ | .awaitingRelease _ _ => c.input.occupied = true
  | .awaitingEof _ => c.input.finishWait = none

/-- The consumer waits and its predicate is false. -/
def ConsumerBlocked : Prop :=
  match c.consumer with
  | .idle => False
  | .waiting _ => c.input.ready = false

end Rendezvous

/-! ## What the flags say of the slot -/

namespace StreamInput

variable {s s' : StreamInput} {b : NativeBatchView}

/-- A stream ends in one way, and with an empty slot. -/
structure OneOutcome (s : StreamInput) : Prop where
  not_both : ¬(s.cancelled = true ∧ s.notNeeded = true)
  needed : s.consumerEof = true → s.notNeeded = false
  closed : s.cancelled = true ∨ s.notNeeded = true → s.batch = none
  ended : s.consumerEof = true → s.producerEof = true ∧ s.batch = none

/-- No flag of the end of a stream is reset. -/
structure Later (s s' : StreamInput) : Prop where
  cancelled : s.cancelled = true → s'.cancelled = true
  notNeeded : s.notNeeded = true → s'.notNeeded = true
  producerEof : s.producerEof = true → s'.producerEof = true
  consumerEof : s.consumerEof = true → s'.consumerEof = true

/-- What a section keeps. -/
structure Keeps (s s' : StreamInput) : Prop extends Later s s' where
  oneOutcome : OneOutcome s'

theorem Later.refl (s : StreamInput) : Later s s := ⟨id, id, id, id⟩

theorem Later.trans {s'' : StreamInput} (h : Later s s') (h' : Later s' s'') : Later s s'' where
  cancelled hc := h'.cancelled (h.cancelled hc)
  notNeeded hn := h'.notNeeded (h.notNeeded hn)
  producerEof hp := h'.producerEof (h.producerEof hp)
  consumerEof hc := h'.consumerEof (h.consumerEof hc)

theorem oneOutcome_init : OneOutcome {} := ⟨nofun, nofun, fun _ ↦ rfl, nofun⟩

namespace OneOutcome

theorem keeps (h : OneOutcome s) : Keeps s s := ⟨.refl s, h⟩

theorem attach (h : OneOutcome s) (hattach : s.attach = .ok s') : Keeps s s' := by
  obtain ⟨-, -, rfl⟩ := attach_eq_ok.mp hattach
  exact ⟨⟨id, id, id, id⟩, h.not_both, h.needed, h.closed, h.ended⟩

theorem detach (h : OneOutcome s) : Keeps s s.detach :=
  ⟨⟨id, id, id, id⟩, h.not_both, h.needed, h.closed, h.ended⟩

theorem endOfUpload (h : OneOutcome s) : Keeps s s.endOfUpload :=
  ⟨⟨id, id, fun _ ↦ rfl, id⟩, h.not_both, h.needed, h.closed,
    fun heof ↦ ⟨rfl, (h.ended heof).2⟩⟩

/-- The slot is filled under the mutex that the flags were read under. -/
theorem publishSlot (h : OneOutcome s) (hwritable : s.producerEof = false) :
    Keeps s (s.publishSlot b).1 := by
  rw [StreamInput.publishSlot]
  split_ifs with hoccupied hcancelled hneeded
  · exact h.keeps
  · exact h.keeps
  · exact h.keeps
  · refine ⟨⟨id, id, id, id⟩, h.not_both, h.needed, ?_, fun heof ↦ ?_⟩
    · rintro (hc | hn)
      · exact absurd hc hcancelled
      · exact absurd hn hneeded
    · rw [(h.ended heof).1] at hwritable
      cases hwritable

theorem publish (h : OneOutcome s) : Keeps s (s.publish b).1 := by
  rw [StreamInput.publish]
  split_ifs with hclosed hsequence
  · exact h.keeps
  · exact h.keeps
  · rw [Bool.or_eq_true, not_or, Bool.not_eq_true, Bool.not_eq_true] at hclosed
    exact h.publishSlot hclosed.2

theorem nextBatch (h : OneOutcome s) {r : Except String (Option NativeBatchView)}
    (hnext : s.nextBatch = some (s', r)) : Keeps s s' := by
  rcases nextBatch_cases hnext with rfl | ⟨rfl, -, heof, hbatch, hcancelled, hneeded⟩
  · exact h.keeps
  · refine ⟨⟨id, id, id, fun _ ↦ rfl⟩, h.not_both, fun _ ↦ hneeded, h.closed, ?_⟩
    exact fun _ ↦ ⟨heof, hbatch⟩

theorem markConsumed (h : OneOutcome s) (sequence : UInt64) :
    Keeps s (s.markConsumed sequence) := by
  rw [StreamInput.markConsumed]
  cases s.released sequence with
  | none => exact h.keeps
  | some b =>
    exact ⟨⟨id, id, id, id⟩, h.not_both, h.needed, fun _ ↦ rfl,
      fun heof ↦ ⟨(h.ended heof).1, rfl⟩⟩

theorem markNotNeeded (h : OneOutcome s) : Keeps s s.markNotNeeded := by
  rcases markNotNeeded_cases (s := s) with heq | ⟨heq, hcancelled, heof⟩
  · rw [heq]
    exact h.keeps
  · rw [heq]
    refine ⟨⟨id, fun _ ↦ rfl, id, id⟩, ?_, ?_, fun _ ↦ rfl, fun hc ↦ ⟨(h.ended hc).1, rfl⟩⟩
    · simp [hcancelled]
    · simp [heof]

theorem cancel (h : OneOutcome s) (error : String) : Keeps s (s.cancel error) := by
  rcases cancel_cases (s := s) error with heq | ⟨heq, hcancelled, hneeded⟩
  · rw [heq]
    exact h.keeps
  · rw [heq]
    refine ⟨⟨fun _ ↦ rfl, id, id, id⟩, ?_, h.needed, fun _ ↦ rfl,
      fun hc ↦ ⟨(h.ended hc).1, rfl⟩⟩
    simp [hneeded]

end OneOutcome

/-- Whoever waits for the slot or for the end of the stream leaves the other side work to do. -/
theorem ready_of_occupied (h : s.occupied = true) : s.ready = true := by
  rw [occupied, Bool.and_eq_true, Bool.and_eq_true] at h
  rw [ready, h.1.1]
  rfl

theorem ready_of_producerEof (h : s.producerEof = true) : s.ready = true := by
  rw [ready, h]
  simp

/-- A section of `publish` that changes anything fills the slot. -/
theorem publishSlot_cases (s : StreamInput) (b : NativeBatchView) :
    (s.publishSlot b).1 = s ∨ (s.publishSlot b).2 = .awaitingRelease := by
  rw [publishSlot]
  split_ifs
  · exact .inl rfl
  · exact .inl rfl
  · exact .inl rfl
  · exact .inr rfl

theorem publish_cases (s : StreamInput) (b : NativeBatchView) :
    (s.publish b).1 = s ∨ (s.publish b).2 = .awaitingRelease := by
  rw [publish]
  split_ifs
  · exact .inl rfl
  · exact .inl rfl
  · exact publishSlot_cases s b

theorem publishSlot_producerEof (s : StreamInput) (b : NativeBatchView) :
    (s.publishSlot b).1.producerEof = s.producerEof := by
  rw [publishSlot]
  split_ifs <;> rfl

/-- A `publish` that has to wait for the slot was called before the end of the upload. -/
theorem producerEof_of_publish (h : (s.publish b).2 = .awaitingSlot) :
    (s.publish b).1.producerEof = false := by
  rw [publish] at h ⊢
  split_ifs at h ⊢ with hclosed
  rw [Bool.or_eq_true, not_or, Bool.not_eq_true, Bool.not_eq_true] at hclosed
  rw [publishSlot_producerEof]
  exact hclosed.2

theorem nextBatch_eq_none : s.nextBatch = none ↔ s.ready = false := by
  rw [nextBatch]
  split_ifs with hready hcancelled hneeded
  · simp [hready]
  · simp [hready]
  · rw [hready]
    cases s.batch <;> simp
  · simpa using hready

end StreamInput

namespace Rendezvous

variable {c c' : Rendezvous} {b : NativeBatchView}

/-- **The invariant**: the stream has one outcome, the upload is as far as the producer is, and a
consumer that sleeps has nothing to wake up for. -/
structure Sound (c : Rendezvous) : Prop where
  oneOutcome : c.input.OneOutcome
  writable : ∀ b polled, c.producer = .awaitingSlot b polled → c.input.producerEof = false
  finishing : ∀ polled, c.producer = .awaitingEof polled → c.input.producerEof = true
  asleep : c.consumer = .waiting true → c.input.ready = false

@[simp] theorem notify_input (c : Rendezvous) : c.notify.input = c.input := by
  rw [notify]
  split <;> rfl

@[simp] theorem notify_producer (c : Rendezvous) : c.notify.producer = c.producer := by
  rw [notify]
  split <;> rfl

/-- After a notification nobody sleeps. -/
theorem notify_consumer_ne (c : Rendezvous) : c.notify.consumer ≠ .waiting true := by
  rw [notify]
  split
  · rename_i hidle
    rw [hidle]
    exact nofun
  · simp

theorem Sound.notify (hone : c.input.OneOutcome)
    (hwritable : ∀ b polled, c.producer = .awaitingSlot b polled → c.input.producerEof = false)
    (hfinishing : ∀ polled, c.producer = .awaitingEof polled → c.input.producerEof = true) :
    c.notify.Sound where
  oneOutcome := by
    rw [notify_input]
    exact hone
  writable b polled h := by
    rw [notify_input]
    exact hwritable b polled (notify_producer c ▸ h)
  finishing polled h := by
    rw [notify_input]
    exact hfinishing polled (notify_producer c ▸ h)
  asleep h := absurd h (notify_consumer_ne c)

theorem afterPublish_eq_awaitingSlot {o : PublishOutcome} {b' : NativeBatchView} {polled : Bool}
    (h : afterPublish b o = .awaitingSlot b' polled) : o = .awaitingSlot := by
  cases o <;> simp [afterPublish] at h ⊢

theorem afterPublish_ne_awaitingEof (b : NativeBatchView) (o : PublishOutcome) (polled : Bool) :
    afterPublish b o ≠ .awaitingEof polled := by
  cases o <;> simp [afterPublish]

@[simp] theorem published_input (c : Rendezvous) (b : NativeBatchView)
    (r : StreamInput × PublishOutcome) : (c.published b r).input = r.1 := by
  rw [published]
  split <;> simp

/-- A section of `publish` wakes the consumer if it gives it something to do. -/
theorem Sound.published (h : c.Sound) {r : StreamInput × PublishOutcome}
    (hone : r.1.OneOutcome) (hfills : r.1 = c.input ∨ r.2 = .awaitingRelease)
    (hwritable : r.2 = .awaitingSlot → r.1.producerEof = false) : (c.published b r).Sound := by
  have hslot : ∀ b' polled, afterPublish b r.2 = .awaitingSlot b' polled →
      r.1.producerEof = false :=
    fun b' polled h ↦ hwritable (afterPublish_eq_awaitingSlot h)
  have heof : ∀ polled, afterPublish b r.2 = .awaitingEof polled → r.1.producerEof = true :=
    fun polled h ↦ absurd h (afterPublish_ne_awaitingEof b r.2 polled)
  rw [Rendezvous.published]
  split
  · exact Sound.notify hone hslot heof
  · rename_i hne
    have hinput : r.1 = c.input := hfills.resolve_right hne
    refine ⟨hone, hslot, heof, fun hasleep ↦ ?_⟩
    rw [hinput]
    exact h.asleep hasleep

/-- The consumer goes to sleep only on a false predicate. -/
theorem Sound.take (h : c.Sound) : c.take.Sound ∧ StreamInput.Later c.input c.take.input := by
  rw [Rendezvous.take]
  split
  · rename_i hnext
    refine ⟨⟨h.oneOutcome, h.writable, h.finishing, fun _ ↦ ?_⟩, .refl _⟩
    exact StreamInput.nextBatch_eq_none.mp hnext
  · rename_i s r hnext
    have hkeeps := h.oneOutcome.nextBatch hnext
    have hproducer : s.producerEof = c.input.producerEof := by
      rcases StreamInput.nextBatch_cases hnext with rfl | ⟨rfl, -⟩
      · rfl
      · rfl
    refine ⟨⟨hkeeps.oneOutcome, ?_, ?_, nofun⟩, hkeeps.toLater⟩
    · intro b polled hslot
      rw [hproducer]
      exact h.writable b polled hslot
    · intro polled hslot
      rw [hproducer]
      exact h.finishing polled hslot

/-- The producer moves on without touching the input. -/
theorem Sound.moves (h : c.Sound) {p : ProducerPoint}
    (hslot : ∀ b polled, p = .awaitingSlot b polled → c.input.producerEof = false)
    (heof : ∀ polled, p = .awaitingEof polled → c.input.producerEof = true) :
    Sound { c with producer := p } := ⟨h.oneOutcome, hslot, heof, h.asleep⟩

theorem Sound.poll (h : c.Sound) {stopped : Bool} (hstep : c.step (.poll stopped) = some c') :
    c'.Sound ∧ c'.input = c.input := by
  rw [step] at hstep
  split at hstep
  · rename_i b hpoint
    obtain rfl := Option.some.inj hstep
    exact ⟨h.moves (fun _ _ _ ↦ h.writable b false hpoint) (by cases stopped <;> simp), rfl⟩
  · rename_i b hpoint
    obtain rfl := Option.some.inj hstep
    exact ⟨h.moves (by cases stopped <;> simp) (by cases stopped <;> simp), rfl⟩
  · rename_i hpoint
    obtain rfl := Option.some.inj hstep
    exact ⟨h.moves (by cases stopped <;> simp) (fun _ _ ↦ h.finishing false hpoint), rfl⟩
  · cases hstep

theorem Sound.wake (h : c.Sound) (hstep : c.step .wake = some c') :
    c'.Sound ∧ StreamInput.Later c.input c'.input := by
  rw [step] at hstep
  split at hstep
  · rename_i b hpoint
    obtain rfl := Option.some.inj hstep
    have hopen := h.writable b true hpoint
    have hkeeps := h.oneOutcome.publishSlot (b := b) hopen
    refine ⟨h.published hkeeps.oneOutcome (StreamInput.publishSlot_cases c.input b) fun _ ↦ ?_, ?_⟩
    · rw [StreamInput.publishSlot_producerEof]
      exact hopen
    · rw [published_input]
      exact hkeeps.toLater
  · rename_i b hpoint
    obtain rfl := Option.some.inj hstep
    refine ⟨h.moves (fun b' polled hslot ↦ ?_) (fun polled heof ↦ ?_), .refl _⟩
    · have hawaits := afterPublish_eq_awaitingSlot hslot
      rw [StreamInput.publishRelease] at hawaits
      split_ifs at hawaits
    · exact absurd heof (afterPublish_ne_awaitingEof b _ polled)
  · rename_i hpoint
    obtain rfl := Option.some.inj hstep
    refine ⟨h.moves (fun b' polled hslot ↦ ?_) (fun _ _ ↦ h.finishing true hpoint), .refl _⟩
    cases hwait : c.input.finishWait <;> simp [hwait, afterFinish] at hslot
  · cases hstep

/-- What one step keeps. -/
theorem Sound.step (h : c.Sound) {l : RendezvousStep} (hstep : c.step l = some c') :
    c'.Sound ∧ StreamInput.Later c.input c'.input := by
  cases l with
  | attach =>
    rw [Rendezvous.step] at hstep
    split at hstep
    · rename_i s hpoint hattach
      obtain rfl := Option.some.inj hstep
      obtain ⟨-, -, rfl⟩ := StreamInput.attach_eq_ok.mp hattach
      have hkeeps := h.oneOutcome.attach hattach
      exact ⟨⟨hkeeps.oneOutcome, h.writable, h.finishing, h.asleep⟩, hkeeps.toLater⟩
    · obtain rfl := Option.some.inj hstep
      exact ⟨h, .refl _⟩
    · cases hstep
  | publish b =>
    -- whoever changes the input notifies, so what a sleeper waits for is tested again
    rw [Rendezvous.step] at hstep
    split at hstep
    · obtain rfl := Option.some.inj hstep
      have hkeeps := h.oneOutcome.publish (b := b)
      refine ⟨h.published hkeeps.oneOutcome (StreamInput.publish_cases c.input b)
        StreamInput.producerEof_of_publish, ?_⟩
      rw [published_input]
      exact hkeeps.toLater
    · cases hstep
  | finishUpload =>
    rw [Rendezvous.step] at hstep
    split at hstep
    · obtain rfl := Option.some.inj hstep
      have hkeeps := h.oneOutcome.endOfUpload
      refine ⟨Sound.notify hkeeps.oneOutcome (fun b polled hslot ↦ ?_) (fun _ _ ↦ rfl), ?_⟩
      · cases hwait : c.input.endOfUpload.finishWait <;> simp [hwait, afterFinish] at hslot
      · rw [notify_input]
        exact hkeeps.toLater
    · cases hstep
  | detach =>
    rw [Rendezvous.step] at hstep
    split at hstep
    · rename_i hpoint
      obtain rfl := Option.some.inj hstep
      have hkeeps := h.oneOutcome.detach
      refine ⟨Sound.notify hkeeps.oneOutcome h.writable h.finishing, ?_⟩
      rw [notify_input]
      exact hkeeps.toLater
    · cases hstep
  | poll stopped =>
    obtain ⟨hsound, hinput⟩ := h.poll hstep
    rw [hinput]
    exact ⟨hsound, .refl _⟩
  | wake => exact h.wake hstep
  | nextBatch =>
    rw [Rendezvous.step] at hstep
    split at hstep
    · obtain rfl := Option.some.inj hstep
      exact h.take
    · cases hstep
  | resume =>
    rw [Rendezvous.step] at hstep
    split at hstep
    · cases hstep
    · obtain rfl := Option.some.inj hstep
      exact h.take
  | markConsumed sequence =>
    -- the consumer makes this call itself, so it is not asleep
    rw [Rendezvous.step] at hstep
    split at hstep
    · rename_i hpoint
      obtain rfl := Option.some.inj hstep
      have hkeeps := h.oneOutcome.markConsumed sequence
      have hproducer : (c.input.markConsumed sequence).producerEof = c.input.producerEof := by
        rw [StreamInput.markConsumed]
        cases c.input.released sequence <;> rfl
      refine ⟨⟨hkeeps.oneOutcome, ?_, ?_, ?_⟩, hkeeps.toLater⟩
      · intro b polled hslot
        rw [hproducer]
        exact h.writable b polled hslot
      · intro polled heof
        rw [hproducer]
        exact h.finishing polled heof
      · intro hasleep
        rw [hpoint] at hasleep
        cases hasleep
    · cases hstep
  | markNotNeeded =>
    obtain rfl := Option.some.inj hstep
    have hkeeps := h.oneOutcome.markNotNeeded
    have hproducer : c.input.markNotNeeded.producerEof = c.input.producerEof := by
      rw [StreamInput.markNotNeeded]
      split_ifs <;> rfl
    rw [notify_input]
    refine ⟨Sound.notify hkeeps.oneOutcome ?_ ?_, hkeeps.toLater⟩
    · intro b polled hslot
      exact hproducer.trans (h.writable b polled hslot)
    · intro polled heof
      exact hproducer.trans (h.finishing polled heof)
  | cancel error =>
    obtain rfl := Option.some.inj hstep
    have hkeeps := h.oneOutcome.cancel error
    have hproducer : (c.input.cancel error).producerEof = c.input.producerEof := by
      rw [StreamInput.cancel]
      split_ifs <;> rfl
    rw [notify_input]
    refine ⟨Sound.notify hkeeps.oneOutcome ?_ ?_, hkeeps.toLater⟩
    · intro b polled hslot
      exact hproducer.trans (h.writable b polled hslot)
    · intro polled heof
      exact hproducer.trans (h.finishing polled heof)

/-! ## Runs -/

variable {ls : List RendezvousStep}

theorem sound_init : Sound {} := ⟨StreamInput.oneOutcome_init, nofun, nofun, nofun⟩

theorem Sound.run (h : c.Sound) (hrun : machine.run c ls = some c') :
    c'.Sound ∧ StreamInput.Later c.input c'.input :=
  Machine.invariant (I := fun d ↦ d.Sound ∧ StreamInput.Later c.input d.input) ⟨h, .refl _⟩
    (fun _ _ _ hd hstep ↦ ⟨(hd.1.step hstep).1, hd.2.trans (hd.1.step hstep).2⟩) hrun

/-- The two sides never wait for each other. -/
theorem Sound.not_blocked (h : c.Sound) : ¬(c.ProducerBlocked ∧ c.ConsumerBlocked) := by
  rintro ⟨hproducer, hconsumer⟩
  have hready : c.input.ready = true := by
    rw [ProducerBlocked] at hproducer
    split at hproducer
    · cases hproducer
    · exact StreamInput.ready_of_occupied hproducer
    · exact StreamInput.ready_of_occupied hproducer
    · rename_i polled hpoint
      exact StreamInput.ready_of_producerEof (h.finishing polled hpoint)
  rw [ConsumerBlocked] at hconsumer
  split at hconsumer
  · cases hconsumer
  · rw [hready] at hconsumer
    cases hconsumer

/-- **A stream ends once**, in one way and with an empty slot, and nobody waits for somebody who
waits for him: at any time of a run, and for whatever comes later. -/
theorem one_outcome {before after : List RendezvousStep} {c c' : Rendezvous}
    (hbefore : machine.run {} before = some c) (hafter : machine.run c after = some c') :
    ¬(c.input.cancelled = true ∧ c.input.notNeeded = true) ∧
      (c.input.cancelled = true → c'.input.cancelled = true) ∧
      (c.input.notNeeded = true → c'.input.notNeeded = true) ∧
      ¬(c.input.notNeeded = true ∧ c.input.consumerEof = true) ∧
      (c.input.cancelled = true ∨ c.input.notNeeded = true →
        c.input.batch = none ∧ c'.input.batch = none) ∧
      (c.input.consumerEof = true →
        c.input.producerEof = true ∧ c.input.batch = none ∧ c'.input.batch = none) ∧
      ¬(c.ProducerBlocked ∧ c.ConsumerBlocked) ∧
      (c.consumer = .waiting true → c.input.ready = false) := by
  obtain ⟨h, -⟩ := sound_init.run hbefore
  obtain ⟨h', hlater⟩ := h.run hafter
  refine ⟨h.oneOutcome.not_both, hlater.cancelled, hlater.notNeeded, ?_, ?_, ?_, h.not_blocked,
    h.asleep⟩
  · rintro ⟨hneeded, heof⟩
    rw [h.oneOutcome.needed heof] at hneeded
    cases hneeded
  · intro hclosed
    exact ⟨h.oneOutcome.closed hclosed,
      h'.oneOutcome.closed (hclosed.imp hlater.cancelled hlater.notNeeded)⟩
  · intro heof
    obtain ⟨hproducer, hbatch⟩ := h.oneOutcome.ended heof
    exact ⟨hproducer, hbatch, (h'.oneOutcome.ended (hlater.consumerEof heof)).2⟩

/-- A frame is taken from a consumer that was asleep before it came; a second frame is dropped by
`mark_not_needed` while its producer waits. -/
def dropped : List RendezvousStep :=
  [.nextBatch, .attach, .publish ⟨1, 1, 1, by decide, by decide, by decide⟩, .resume,
    .markConsumed 1, .poll false, .wake, .publish ⟨2, 1, 1, by decide, by decide, by decide⟩,
    .markNotNeeded]

theorem one_outcome_dropped :
    ∃ c c', machine.run {} dropped = some c ∧ c.input.notNeeded = true ∧
      machine.run c [.cancel "late", .poll false, .wake, .finishUpload] = some c' ∧
      c.input.batch = none ∧ c'.input.batch = none := by
  have hbefore : (machine.run {} dropped).map (·.input.notNeeded) = some true := by
    decide
  obtain ⟨c, hc, hneeded⟩ := Option.map_eq_some_iff.mp hbefore
  have hafter : ((machine.run {} dropped).bind fun c ↦
      machine.run c [.cancel "late", .poll false, .wake, .finishUpload]).isSome = true := by
    decide
  rw [hc] at hafter
  obtain ⟨c', hc'⟩ := Option.isSome_iff_exists.mp hafter
  obtain ⟨-, -, -, -, hclosed, -⟩ := one_outcome hc hc'
  exact ⟨c, c', hc, hneeded, hc', hclosed (.inr hneeded)⟩

end Rendezvous

end MoSidecar
