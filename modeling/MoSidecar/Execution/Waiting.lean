import MoSidecar.Execution.ResultStream
import MoSidecar.Machine.Waiting

/-!
# The worker's sleep

`publish` waits twice without a timeout: until the slot is empty, and until the reader has taken the
frame. Either wait also ends when the execution becomes terminal. Whoever takes the frame notifies
under the mutex; but `cancel` and `fail_gpu_unavailable` set the flag in one section and notify much
later, after all inputs were cancelled and the mutex was taken once more. In between the worker
sleeps in vain, and it is shown here that it never does without somebody on the way to wake it.

All other waits of an execution end by themselves after 100 ms, so only the worker sleeps here.
-/

namespace MoSidecar

/-- The worker stands in one of the waits of `publish`. -/
def WorkerThread.publishes : WorkerThread → Bool
  | .running (.publishing ..) | .running (.published ..) => true
  | _ => false

/-- The predicate of these waits. -/
def EntryControl.proceeds (c : EntryControl) : Bool := c.frame.isNone || c.terminal

/-- What the worker waits for, if it does, is there. -/
def EntryControl.wakeful (c : EntryControl) : Bool := !c.worker.publishes || c.proceeds

/-- The calls of an execution past the section that makes it terminal, which have still to call
`notify_all`. -/
def EntryCall.owesNotice : EntryCall → Prop
  | .quiesce _ => True
  | _ => False

namespace ExecutionEntry

open EntryControl

variable {ι : Type*} {cfg : ExecutionConfig} {s s' : ExecutionEntry} {t : Option ι} {f : EntryCall}
  {k : EntryAnswer} {new : List EntryCall}

/-- A section of `run` is not run in a wait whose predicate is false. -/
theorem wakeful_of_runStep {c c' : EntryControl} {point : RunPoint} {calls : List EntryCall}
    (hw : c.worker = .running point) (hrun : c.runStep cfg k point = some (c', calls)) :
    c.wakeful = true := by
  rw [wakeful, hw]
  cases section_of_runStep hrun with
  | unpublished hterminal | untaken hterminal => simp [proceeds, hterminal]
  | taken hempty => simp [proceeds, hempty]
  | published hterminal =>
    rw [runStep, if_neg (by simp [hterminal])] at hrun
    split_ifs at hrun with hfull
    rw [Option.not_isSome_iff_eq_none] at hfull
    simp [proceeds, hfull]
  | @threw point =>
    cases point <;> first | rfl | contradiction
  | _ => rfl

/-- The waits of `publish`, and the calls of `notify_all` on `condition_`. -/
def waits (cfg : ExecutionConfig) (ι : Type*) : (program cfg ι).Waits where
  sleeps s
    | none, .run => if s.wakeful then none else some .run
    | _, _ => none
  ready s
    | none, _ => s.wakeful
    | some _, _ => true
  notifies s _ f k :=
    match f with
    | .readNext => !(k.stopped && !s.terminal) && s.frame.isSome
    | .readOn => s.frame.isSome
    | .run =>
      match s.worker with
      | .running (.publishing ..) => s.proceeds && !s.terminal
      | _ => false
    | _ => false
  announces
    | .maybeNotifyTerminal => true
    | _ => false
  rouses _ _ := false
  not_ready {s t f g} h := by
    split at h
    · split_ifs at h with hready
      simpa using hready
    · cases h
  stays {s t f g} h := by
    split at h
    · split_ifs at h
      exact .inl (Option.some.inj h).symm
    · cases h

/-- An execution and its threads, nobody asleep. -/
def rested (ι : Type*) :
    Threads (Program.Waits.State ExecutionEntry (Option ι) EntryCall) (Option ι)
      (Program.Notifying EntryCall) where
  shared := { shared := {} }
  calls _ := []

/-! ## Who wakes the worker -/

theorem wakeful_readSlot {c : EntryControl} {expired : Bool} (hframe : c.frame = none) :
    (c.readSlot expired).1.wakeful = c.wakeful := by
  simp only [readSlot, hframe]
  split_ifs <;> simp [wakeful, proceeds, hframe]

theorem wakeful_start {c : EntryControl} (h : c.start.wakeful = true) : c.wakeful = true := by
  rw [start] at h
  split_ifs at h with hno
  · exact h
  · simp only [Bool.or_eq_true, not_or, Bool.not_eq_true] at hno
    rw [wakeful]
    cases hw : c.worker with
    | running point => simp [hw, WorkerThread.joinable] at hno
    | _ => rfl

/-- **What may wake the worker.** A section of another thread that ends the worker's wait notifies,
or goes on to a call that will. -/
theorem wakeful_of_exec (hexec : s.exec cfg t f k = some (s', new))
    (hquiet : (waits cfg ι).notifies s t f k = false) (hready : s'.wakeful = true) (ht : t ≠ none) :
    s.wakeful = true ∨ ∃ g ∈ new, g.owesNotice := by
  have hslot : f = .readNext ∨ f = .readOn → s.frame = none ∨ s' = s := by
    rintro (rfl | rfl)
    · by_cases hstopped : (k.stopped && !s.terminal) = true
      · simp only [exec, if_pos hstopped] at hexec
        exact .inr (Prod.mk.inj (Option.some.inj hexec)).1.symm
      · rw [Bool.not_eq_true] at hstopped
        simp only [waits, hstopped, Bool.not_false, Bool.true_and] at hquiet
        exact .inl (Option.isSome_eq_false_iff.mp hquiet |> Option.isNone_iff_eq_none.mp)
    · exact .inl (by simpa [waits] using hquiet)
  cases section_of_exec hexec with
  | claim =>
    refine .inl ?_
    simp only [setControl, EntryControl.claim] at hready
    split_ifs at hready <;> exact hready
  | start => exact .inl (wakeful_start hready)
  | readNext expired =>
    refine .inl ?_
    rcases hslot (.inl rfl) with hframe | hsame
    · rwa [setControl, wakeful_readSlot hframe] at hready
    · rwa [hsame] at hready
  | readOn expired =>
    refine .inl ?_
    rcases hslot (.inr rfl) with hframe | hsame
    · rwa [setControl, wakeful_readSlot hframe] at hready
    · rwa [hsame] at hready
  | terminateQuiesced hquiesced =>
    refine .inl ?_
    cases t with
    | none => exact absurd rfl ht
    | some i => exact hready
  -- the flag is set here, and the one who set it goes on to the call of `notify_all`
  | terminate => exact .inr ⟨_, List.mem_cons_of_mem _ List.mem_cons_self, trivial⟩
  | join hw =>
    refine .inl ?_
    rw [wakeful, hw]
    rfl
  | run hw hrun => exact .inl (wakeful_of_runStep hw hrun)
  | _ => exact .inl hready

theorem covers (cfg : ExecutionConfig) (ι : Type*) :
    (waits cfg ι).Covers (fun s ↦ Sound s.toEntryControl) Unstarted EntryCall.owesNotice where
  call {s t f s'} _ hcall u g hready := by
    cases u with
    | some i => rfl
    | none =>
      cases t with
      | none =>
        simp only [program, call] at hcall
        split at hcall
        · next hw =>
          show s.wakeful = true
          rw [wakeful, hw]
          rfl
        · cases hcall
      | some i =>
        simp only [program, call] at hcall
        split at hcall <;> cases hcall <;> exact hready
  sleep {s t f g} h := by
    simp only [waits] at h
    split at h
    · exact id
    · cases h
  exec {s t f k s' new} _ _ hexec hquiet := by
    by_cases howes : f.owesNotice
    · cases f with
      | quiesce unstarted =>
        obtain ⟨rfl, rfl⟩ := Prod.mk.inj (Option.some.inj hexec)
        exact .inr ⟨_, List.mem_cons_self, .inr rfl⟩
      | _ => exact howes.elim
    · by_cases hnew : ∃ g ∈ new, g.owesNotice
      · obtain ⟨g, hg, hgowes⟩ := hnew
        exact .inr ⟨g, hg, .inl hgowes⟩
      · refine .inl ⟨fun u hu g hready ↦ ?_, howes⟩
        cases u with
        | some i => rfl
        | none => exact (wakeful_of_exec hexec hquiet hready (Ne.symm hu)).resolve_right hnew
  ambient {s a s'} _ hambient _ u g hready := by
    obtain ⟨i, -, rfl⟩ := Option.map_eq_some_iff.mp hambient
    cases u with
    | some i => rfl
    | none => exact hready

/-! ## Nobody is in the way -/

/-- A loop over the inputs. -/
def OverInputs : Program.Notifying EntryCall → Prop
  | .frame (.cancelAll ..) | .frame (.markAllNotNeeded _) => True
  | _ => False

/-- What may stand above what on a stack: nothing stands below `run`, and only loops over the inputs
above that which will notify. -/
def Above (upper lower : Program.Notifying EntryCall) : Prop :=
  upper ≠ .frame .run ∧ (Program.Waits.Due EntryCall.owesNotice lower → OverInputs upper)

/-- A section that notifies leaves nothing but the worker's frame. -/
theorem eq_run_of_notifies (hexec : s.exec cfg t f k = some (s', new))
    (hnotifies : (waits cfg ι).notifies s t f k = true) : ∀ g ∈ new, g = .run := by
  have hread : ∀ expired, s.frame.isSome = true → (s.readSlot expired).2 = [] := by
    intro expired hframe
    obtain ⟨frame, hframe⟩ := Option.isSome_iff_exists.mp hframe
    rw [readSlot, hframe]
  cases f with
  | readNext =>
    obtain ⟨hstays, hframe⟩ := Bool.and_eq_true_iff.mp hnotifies
    rw [Bool.not_eq_true'] at hstays
    rw [exec, if_neg (by rw [hstays]; exact Bool.false_ne_true), hread _ hframe] at hexec
    obtain ⟨rfl, rfl⟩ := Prod.mk.inj (Option.some.inj hexec)
    exact List.forall_mem_nil _
  | readOn =>
    rw [exec, hread _ hnotifies] at hexec
    obtain ⟨rfl, rfl⟩ := Prod.mk.inj (Option.some.inj hexec)
    exact List.forall_mem_nil _
  | run =>
    simp only [waits] at hnotifies
    split at hnotifies
    · next hw =>
      cases section_of_exec hexec with
      | run hw' hrun =>
        obtain rfl := WorkerThread.running.inj (hw.symm.trans hw')
        cases section_of_runStep hrun with
        | threw hpoint => cases hpoint
        | unpublished | published => exact List.forall_mem_singleton.mpr rfl
    · cases hnotifies
  | _ => cases hnotifies

/-- The frames that a section leaves stand in this order, whatever is announced among them. -/
theorem pairwise_announced (hexec : s.exec cfg t f k = some (s', new)) :
    (new.flatMap (waits cfg ι).announced).Pairwise Above := by
  cases section_of_exec hexec with
  | readNext expired | readOn expired =>
    simp only [readSlot]
    split
    · exact .nil
    · split_ifs <;> simp [Program.Waits.announced, waits, Above, EntryCall.cancel,
        Program.Waits.Due, EntryCall.owesNotice]
  | run hw hrun =>
    cases section_of_runStep hrun with
    | threw hpoint hbefore =>
      rcases hbefore with rfl | rfl <;> simp [Program.Waits.announced, waits, Above,
        EntryCall.failGpuUnavailable, Program.Waits.Due, EntryCall.owesNotice]
    | @finished status outcome =>
      cases outcome <;> simp [Program.Waits.announced, waits, Above, releaseInputs, OverInputs,
        Program.Waits.Due, EntryCall.owesNotice]
    | _ =>
      simp [Program.Waits.announced, waits, Above, EntryCall.cancel, Program.Waits.Due,
        EntryCall.owesNotice]
  | _ =>
    simp [Program.Waits.announced, waits, Above, EntryCall.cancel, OverInputs, Program.Waits.Due,
      EntryCall.owesNotice]

theorem ne_run_of_exec (hexec : s.exec cfg t f k = some (s', new)) (hrun : f ≠ .run) :
    ∀ g ∈ new, g ≠ .run := by
  cases section_of_exec hexec with
  | run => exact absurd rfl hrun
  | readNext expired | readOn expired =>
    intro g hg
    rcases readSlot_calls hg with rfl | rfl <;> exact nofun
  | _ => simp [EntryCall.cancel]

/-- A loop over the inputs leaves nothing but what is left of it. -/
theorem loop_of_exec (hexec : s.exec cfg t f k = some (s', new)) (hloop : OverInputs (.frame f)) :
    (waits cfg ι).leaves ((waits cfg ι).notifies s t f k) new = [] ∨
      ∃ g, OverInputs g ∧ (waits cfg ι).leaves ((waits cfg ι).notifies s t f k) new = [g] := by
  cases f with
  | cancelAll error todo =>
    cases todo with
    | nil =>
      cases hexec
      exact .inl rfl
    | cons ref todo =>
      cases hexec
      exact .inr ⟨.frame (.cancelAll error todo), trivial, rfl⟩
  | markAllNotNeeded todo =>
    cases todo with
    | nil =>
      cases hexec
      exact .inl rfl
    | cons ref todo =>
      cases hexec
      exact .inr ⟨.frame (.markAllNotNeeded todo), trivial, rfl⟩
  | _ => exact hloop.elim

variable [DecidableEq ι]

theorem stacked (cfg : ExecutionConfig) (ι : Type*) [DecidableEq ι] :
    Program.Stacked (waits cfg ι).program Above where
  among {s t f k s' new} hexec := by
    cases f with
    | notify =>
      obtain ⟨rfl, rfl⟩ := Prod.mk.inj (Option.some.inj hexec)
      exact .nil
    | frame f =>
      rcases Program.Waits.exec_cases (Program.Waits.program_exec_frame hexec).2 with
        ⟨g, -, -, rfl⟩ | ⟨⟨s'', calls⟩, -, hr, -, rfl⟩
      · exact List.pairwise_singleton _ _
      · rw [Program.Waits.leaves]
        split_ifs with hnotifies
        · refine List.pairwise_cons.mpr ⟨fun n hn ↦ ⟨?_, fun hdue ↦ ?_⟩, pairwise_announced hr⟩
          · intro heq
            cases heq
          obtain ⟨g, hg, hn⟩ := List.mem_flatMap.mp hn
          obtain rfl := eq_run_of_notifies hr hnotifies g hg
          obtain rfl := List.mem_singleton.mp hn
          exact hdue.elim
        · exact pairwise_announced hr
  above {s t f k s' new g b} hexec hg habove := by
    cases f with
    | notify =>
      obtain ⟨rfl, rfl⟩ := Prod.mk.inj (Option.some.inj hexec)
      cases hg
    | frame f =>
      have hrun : f ≠ .run := fun h ↦ habove.1 (congrArg Program.Notifying.frame h)
      rcases Program.Waits.exec_cases (Program.Waits.program_exec_frame hexec).2 with
        ⟨g', hsleeps, -, rfl⟩ | ⟨⟨s'', calls⟩, -, hr, -, rfl⟩
      · simp only [waits] at hsleeps
        split at hsleeps
        · exact absurd rfl hrun
        · cases hsleeps
      · refine ⟨?_, fun hdue ↦ ?_⟩
        · rintro rfl
          have hframe : EntryCall.run ∈ ((waits cfg ι).leaves
              ((waits cfg ι).notifies s.shared t f k) calls).filterMap Program.Notifying.frame? :=
            List.mem_filterMap.mpr ⟨_, hg, rfl⟩
          rw [Program.Waits.filterMap_leaves] at hframe
          exact ne_run_of_exec hr hrun .run hframe rfl
        · rcases loop_of_exec hr (habove.2 hdue) with hnil | ⟨g', hloop, hone⟩
          · rw [hnil] at hg
            cases hg
          · rw [hone] at hg
            obtain rfl := List.mem_singleton.mp hg
            exact hloop

/-- A thread of the server is never held up by what stands above its call of `notify_all`. -/
theorem enabled_of_due {s : Program.Waits.State ExecutionEntry (Option ι) EntryCall} {i : ι}
    {n : Program.Notifying EntryCall} (hawake : s.asleep (some i) = none)
    (hn : Program.Waits.Due EntryCall.owesNotice n ∨ OverInputs n) :
    ((waits cfg ι).program.exec s (some i) n {}).isSome := by
  cases n with
  | notify => rfl
  | frame f =>
    simp only [Program.Waits.program, hawake]
    cases f with
    | quiesce unstarted => rfl
    | cancelAll error todo => cases todo <;> rfl
    | markAllNotNeeded todo => cases todo <;> rfl
    | _ => exact (hn.elim id id).elim

/-- **The worker is not left asleep.** In every state of every run, however the sections of the
worker, the reader, the handlers and any cancellations interleave and whatever wakes threads
besides: the worker sleeps in `publish` only, and either its frame has not been taken and the
execution is not terminal, or a thread of the server is on its way to a call of `notify_all` and
free to go on. -/
theorem worker_woken (cfg : ExecutionConfig)
    (ms : List (Move (Option ι) (Program.Notifying EntryCall) EntryAnswer
      ((Bytes × InputTraffic) ⊕ Option ι)))
    (c : Threads (Program.Waits.State ExecutionEntry (Option ι) EntryCall) (Option ι)
      (Program.Notifying EntryCall)) (f : EntryCall)
    (hrun : (waits cfg ι).program.machine.run (rested ι) ms = some c)
    (hasleep : c.shared.asleep none = some f) :
    c.calls none = [.frame .run] ∧
      ((c.shared.shared.worker.publishes = true ∧ c.shared.shared.frame.isSome ∧
          c.shared.shared.terminal = false) ∨
        ∃ i, (∃ n ∈ c.calls (some i), Program.Waits.Due EntryCall.owesNotice n) ∧
          ((waits cfg ι).program.machine.step c (.exec (some i) {})).isSome) := by
  have hrested : ∀ t, (rested ι).shared.asleep t = none := fun _ ↦ rfl
  have hplaced := Program.Waits.placed_run hrested hrun
  have horder := (stacked cfg ι).run (c := rested ι) (fun _ ↦ rfl) hrun
  have hsleeper : ∀ {t g}, c.shared.asleep t = some g → t = none ∧ g = .run := by
    intro t g hg
    obtain ⟨⟨s, g', hfell⟩, -⟩ := hplaced t g hg
    simp only [waits] at hfell
    split at hfell
    · split_ifs at hfell
      exact ⟨rfl, (Option.some.inj hfell).symm⟩
    · cases hfell
  obtain ⟨-, rfl⟩ := hsleeper hasleep
  obtain ⟨-, rest, hstack⟩ := hplaced none .run hasleep
  have hworker := horder none
  rw [hstack] at hworker
  obtain rfl : rest = [] := List.eq_nil_iff_forall_not_mem.mpr fun n hn ↦
    (List.rel_of_pairwise_cons hworker hn).1 rfl
  refine ⟨hstack, ?_⟩
  rcases Program.Waits.no_lost_wakeup (covers cfg ι) (assertional cfg ι) (holds_init (ι := ι)).1
    (fun _ ↦ rfl) hrested hrun hasleep with hready | ⟨u, n, hn, hdue⟩
  · simp only [waits, wakeful, proceeds, Bool.or_eq_false_iff, Bool.not_eq_false'] at hready
    obtain ⟨hpublishes, hfull, hterminal⟩ := hready
    exact .inl ⟨hpublishes, by simpa using hfull, hterminal⟩
  · cases u with
    | none =>
      -- the worker's own stack has no room for it
      rw [hstack] at hn
      obtain rfl := List.mem_singleton.mp hn
      exact hdue.elim
    | some i =>
      refine .inr ⟨i, ⟨n, hn, hdue⟩, ?_⟩
      have hawake : c.shared.asleep (some i) = none := by
        cases hi : c.shared.asleep (some i) with
        | none => rfl
        | some g => cases (hsleeper hi).1
      cases hcalls : c.calls (some i) with
      | nil =>
        rw [hcalls] at hn
        cases hn
      | cons top rest =>
        have htop : Program.Waits.Due EntryCall.owesNotice top ∨ OverInputs top := by
          rw [hcalls] at hn
          rcases List.mem_cons.mp hn with rfl | hn
          · exact .inl hdue
          · exact .inr ((List.rel_of_pairwise_cons (hcalls ▸ horder (some i)) hn).2 hdue)
        simp only [Program.machine, hcalls, Option.isSome_map]
        exact enabled_of_due hawake htop

/-- The worker hands over a frame and falls asleep; a cancellation has set the flag, and has still
to notify. -/
def sleepThroughCancel : List (Move (Option Unit) (Program.Notifying EntryCall) EntryAnswer
    ((Bytes × InputTraffic) ⊕ Option Unit)) :=
  [.call (some ()) (.frame .claim), .exec (some ()) {}, .call (some ()) (.frame .start),
    .exec (some ()) {}, .call none (.frame .run), .exec none {}, .exec none {}, .exec none {},
    .exec none {}, .exec none {}, .exec none {}, .call (some ()) (.frame (.cancel false)),
    .exec (some ()) {}]

theorem worker_woken_sleepThroughCancel :
    ∃ c, (waits twoRows Unit).program.machine.run (rested Unit) sleepThroughCancel = some c ∧
      c.shared.asleep none = some .run ∧ c.shared.shared.terminal = true ∧
        ((waits twoRows Unit).program.machine.step c (.exec (some ()) {})).isSome := by
  have hend : ((waits twoRows Unit).program.machine.run (rested Unit) sleepThroughCancel).map
      (fun c ↦ (c.shared.asleep none, c.shared.shared.terminal)) = some (some .run, true) := by
    decide +kernel
  obtain ⟨c, hrun, hfields⟩ := Option.map_eq_some_iff.mp hend
  obtain ⟨hasleep, hterminal⟩ := Prod.mk.inj hfields
  refine ⟨c, hrun, hasleep, hterminal, ?_⟩
  rcases (worker_woken twoRows sleepThroughCancel c .run hrun hasleep).2 with
    ⟨-, -, hgoes⟩ | ⟨⟨⟩, -, hfree⟩
  · cases hterminal.symm.trans hgoes
  · exact hfree

end ExecutionEntry

end MoSidecar
