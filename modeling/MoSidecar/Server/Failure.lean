import MoSidecar.Server.Accounting

/-!
# Preparations that fail

`prepare` fails before it has a reservation, or gives the reservation up, or commits its entry and
ends it, if it must not be returned. In the last case others may have found the entry, and it goes
when they are done with it. Nothing is left of a preparation that has failed then: neither its slot
nor a record, an entry or a byte.

Records and entries are told apart by the serial of their reservation.
-/

open Function (update)

namespace MoSidecar

/-- The preparation that a call is a section of. -/
def RegistryCall.preparation? : RegistryCall → Option Building
  | .drawTicket b | .construct b _ | .commit b _ | .releaseReservation b _ _ | .unwind b _ => some b
  | _ => none

/-- A section of `prepare` that has no reservation, or none any more. -/
def RegistryCall.asks : RegistryCall → Bool
  | .prepare .. | .awaitPrepared .. | .replay .. | .abandon .. => true
  | _ => false

namespace TicketRegistry

variable {cfg : RegistryConfig} {s r : TicketRegistry} {g : RegistryCall} {a : RegistryAnswer}
  {calls : List RegistryCall}

/-- Nothing has changed but what is counted of requests. -/
structure Unchanged (s r : TicketRegistry) : Prop where
  entries : r.entries = s.entries
  idempotency : r.idempotency = s.idempotency
  reserved : r.reserved = s.reserved
  capacity : r.admission.capacityBytes = s.admission.capacityBytes
  current : r.admission.currentBytes = s.admission.currentBytes

/-- `prepare` returns, without a reservation. -/
theorem unchanged_of_exec {ret : PrepareReturn} (hg : g.asks = true)
    (hexec : s.exec cfg g a = some (r, calls)) (hret : r.returns = s.returns ++ [ret]) :
    Unchanged s r := by
  cases effect_of_exec hexec with
  | refused hfails hcapacity hcurrent => exact ⟨rfl, rfl, rfl, hcapacity, hcurrent⟩
  | reserved =>
    -- a reservation is made, and nothing is returned
    exact absurd hret (by simp [reserve])
  | waiting | found | retrying | expired | replayed | alreadyClaimed | abandoned =>
    exact ⟨rfl, rfl, rfl, rfl, rfl⟩
  | _ => cases hg

end TicketRegistry

namespace SidecarServer

variable {cfg : SidecarConfig} {ι : Type*} {s s' : SidecarServer} {k : ServerAnswer}
  {f : ServerCall} {new : List ServerCall} {T : Bytes} {e : PreparedEntry} {i : ℕ}
  {n : Option Reservation → ℕ}

/-! ## What the sections of a preparation touch -/

/-- Nothing has changed but what is of one reservation. -/
structure Confined (i : ℕ) (s s' : SidecarServer) : Prop where
  records : ∀ key r, r.serial ≠ i →
    (s'.registry.idempotency.lookup key = some r ↔ s.registry.idempotency.lookup key = some r)
  entries : ∀ T e, e.serial ≠ i →
    (s'.registry.entries.lookup T = some e ↔ s.registry.entries.lookup T = some e)
  alive : ∀ e, e.serial ≠ i → (e ∈ s'.alive ↔ e ∈ s.alive)

/-- A section of a preparation, or one of the entry that it has built. -/
def OfReservation (s : SidecarServer) (i : ℕ) : ServerCall → Prop
  | .registry g => ∃ b, g.preparation? = some b ∧ b.serial = i
  | .entry T _ _ | .drop T | .destroy T | .release T => (T, i) ∈ s.registry.drawn
  | _ => False

theorem Confined.of_eq (hidempotency : s'.registry.idempotency = s.registry.idempotency)
    (hentries : s'.registry.entries = s.registry.entries) (halive : s'.alive = s.alive) :
    Confined i s s' where
  records key r _ := by rw [hidempotency]
  entries T e _ := by rw [hentries]
  alive e _ := by rw [halive]

/-- The entry is constructed. -/
theorem Confined.of_cons (hidempotency : s'.registry.idempotency = s.registry.idempotency)
    (hentries : s'.registry.entries = s.registry.entries) (halive : s'.alive = e :: s.alive)
    (he : e.serial = i) : Confined i s s' where
  records key r _ := by rw [hidempotency]
  entries T e _ := by rw [hentries]
  alive e' he' := by
    rw [halive, List.mem_cons, or_iff_right]
    rintro rfl
    exact he' he

/-- The reservation is given up. -/
theorem Confined.of_erase {b : Building} (hF : Founded cfg s fun o ↦ n o + holding o f)
    {g : RegistryCall} (hf : f = .registry g) (hg : g.building? = some b)
    (hidempotency : s'.registry.idempotency = s.registry.idempotency.erase b.key)
    (hentries : s'.registry.entries = s.registry.entries) (halive : s'.alive = s.alive) :
    Confined b.serial s s' where
  records key r hr := by
    subst hf
    obtain ⟨r', hr', -, hserial, -⟩ := hF.registry.reservation hg
    rw [hidempotency]
    refine lookup_erase_iff (p := (·.serial = b.serial)) (fun v hv ↦ ?_) hr
    rw [hr'] at hv
    obtain rfl := Option.some.inj hv
    exact hserial
  entries T e _ := by rw [hentries]
  alive e _ := by rw [halive]

/-- The entry is committed. -/
theorem Confined.of_commit {b : Building} {r : IdempotencyRecord}
    (hF : Founded cfg s fun o ↦ n o + holding o (.registry (.commit b T)))
    (hdrawn : (T, b.serial) ∈ s.registry.drawn)
    (hr : s.registry.idempotency.lookup b.key = some r)
    (hidempotency : s'.registry.idempotency = (s.registry.committed b T r).idempotency)
    (hentries : s'.registry.entries = (s.registry.committed b T r).entries)
    (halive : s'.alive = s.alive) : Confined b.serial s s' where
  records key r' hr' := by
    obtain ⟨q, hq, -, hserial, -⟩ := hF.registry.reservation (f := .commit b T) rfl
    obtain rfl : q = r := Option.some.inj (hq.symm.trans hr)
    rw [hidempotency]
    refine lookup_insert_iff (p := (·.serial = b.serial)) (fun v hv ↦ ?_) hserial hr'
    rw [hr] at hv
    obtain rfl := Option.some.inj hv
    exact hserial
  entries T' e he := by
    have hfresh := hF.registry.lookup_eq_none (f := .commit b T) rfl hdrawn
    have hinsert : (s.registry.committed b T r).entries = s.registry.entries.insert T (b.entry T) :=
      emplace_of_lookup_none hfresh
    rw [hentries, hinsert]
    refine lookup_insert_iff (p := (·.serial = b.serial)) (fun v hv ↦ ?_) rfl he
    rw [hfresh] at hv
    cases hv
  alive e _ := by rw [halive]

/-- The terminal callback removes the entry and its record. -/
theorem Confined.of_remove (hF : Founded cfg s n) (hT : (T, i) ∈ s.registry.drawn)
    (he : s.registry.entries.lookup T = some e)
    (hr : s'.registry = s.registry.remove T) (halive : s'.alive = s.alive) :
    Confined i s s' := by
  have hserial : e.serial = i := by
    have hexposed := (hF.registry.entry he).1
    exact hF.registry.serials.drawn T _ _ (hF.registry.serials.exposed T _ hexposed).1 hT
  obtain ⟨-, r, hrecord, -, -, hr', -⟩ := hF.registry.recorded.matched.recordOf he
  have hremove : s.registry.remove T = { s.registry with
      idempotency := s.registry.idempotency.erase e.key
      entries := s.registry.entries.erase T } := by
    rw [TicketRegistry.remove, he]
  refine ⟨fun key q hq ↦ ?_, fun T' e' he' ↦ ?_, fun e' _ ↦ by rw [halive]⟩
  · rw [hr, hremove]
    refine lookup_erase_iff (p := (·.serial = i)) (fun v hv ↦ ?_) hq
    rw [hrecord] at hv
    obtain rfl := Option.some.inj hv
    exact hr'.trans hserial
  · rw [hr, hremove]
    refine lookup_erase_iff (p := (·.serial = i)) (fun v hv ↦ ?_) he'
    rw [he] at hv
    obtain rfl := Option.some.inj hv
    exact hserial

/-- The entry is destroyed. -/
theorem Confined.of_release (hF : Founded cfg s n) (hT : (T, i) ∈ s.registry.drawn)
    (hdrawn : ∀ e ∈ s.alive, (e.ticket, e.serial) ∈ s.registry.drawn) :
    Confined i s (s.releaseLease T) := by
  obtain ⟨-, -, admission, hr⟩ := registry_releaseLease s T
  refine ⟨fun key r _ ↦ by rw [hr], fun T' e _ ↦ by rw [hr], fun e he ↦ ?_⟩
  rw [releaseLease]
  split
  · exact .rfl
  · show e ∈ s.alive.filter (·.ticket ≠ T) ↔ e ∈ s.alive
    rw [List.mem_filter, and_iff_left_iff_imp]
    intro hmem
    refine decide_eq_true fun hticket ↦ he ?_
    exact hF.registry.serials.drawn T _ _ (hticket ▸ hdrawn e hmem) hT

/-- A section of a preparation that has no entry. -/
theorem Confined.of_aside {g : RegistryCall} {a : RegistryAnswer} {b : Building}
    {calls : List RegistryCall} (hF : Founded cfg s fun o ↦ n o + holding o (.registry g))
    (hg : g.aside = true) (hb : g.preparation? = some b)
    (hexec : s.registry.exec cfg.toRegistryConfig g a = some (s'.registry, calls))
    (halive : s'.alive = s.alive) : Confined b.serial s s' := by
  cases g with
  | drawTicket b' =>
    simp only [TicketRegistry.exec] at hexec
    cases hticket : a.ticket with
    | none =>
      rw [hticket] at hexec
      obtain ⟨hr, -⟩ := Prod.mk.inj (Option.some.inj hexec)
      exact .of_eq (by rw [← hr]) (by rw [← hr]) halive
    | some T =>
      simp only [hticket, TicketRegistry.drawTicket] at hexec
      split_ifs at hexec <;> obtain ⟨hr, -⟩ := Prod.mk.inj (Option.some.inj hexec) <;>
        exact .of_eq (by rw [← hr]) (by rw [← hr]) halive
  | releaseReservation b' built what =>
    obtain rfl := Option.some.inj hb
    cases built with
    | none =>
      obtain ⟨hr, -⟩ := Prod.mk.inj (Option.some.inj hexec)
      exact .of_erase hF rfl rfl (by rw [← hr]; rfl) (by rw [← hr]; rfl) halive
    | some T => cases hg
  | unwind b' what =>
    obtain ⟨hr, -⟩ := Prod.mk.inj (Option.some.inj hexec)
    exact .of_eq (by rw [← hr]; rfl) (by rw [← hr]; rfl) halive
  | construct | commit => cases hg
  | _ => cases hb

/-- **The sections of a preparation** touch what is of their reservation only. -/
theorem confined_of_effect (hF : Founded cfg s fun o ↦ n o + holding o f) (hA : Informed cfg f s)
    (hdrawn : ∀ e ∈ s.alive, (e.ticket, e.serial) ∈ s.registry.drawn) (hf : OfReservation s i f)
    (h : Effect cfg s f s' new) : Confined i s s' := by
  cases h with
  | aside hg hexec =>
    obtain ⟨b, hb, rfl⟩ := hf
    exact .of_aside hF hg hb hexec rfl
  | found hg hexec =>
    obtain ⟨b, hb, rfl⟩ := hf
    exact .of_aside hF hg hb hexec rfl
  | sweep hg =>
    obtain ⟨b, hb, -⟩ := hf
    rcases hg with rfl | rfl | rfl <;> cases hb
  | draw | threw => exact .of_eq rfl rfl rfl
  | @unshrunk b T what herror =>
    obtain ⟨b', hb, rfl⟩ := hf
    obtain rfl := Option.some.inj hb
    exact .of_cons (e := b.entry T) rfl rfl rfl rfl
  | @built b T bytes admission =>
    obtain ⟨b', hb, rfl⟩ := hf
    obtain rfl := Option.some.inj hb
    exact .of_cons (e := Building.entry { b with lease := bytes } T) rfl rfl rfl rfl
  | @unwound b T what =>
    obtain ⟨b', hb, rfl⟩ := hf
    obtain rfl := Option.some.inj hb
    exact .of_erase hF rfl rfl rfl rfl rfl
  | @retracted b T hstopped =>
    obtain ⟨b', hb, rfl⟩ := hf
    obtain rfl := Option.some.inj hb
    exact .of_erase hF rfl rfl rfl rfl rfl
  | @withdrawn b T r status hrunning hr hmarked =>
    obtain ⟨b', hb, rfl⟩ := hf
    obtain rfl := Option.some.inj hb
    exact .of_commit hF (hA.registry (.commit b T) rfl).2 hr rfl rfl rfl
  | @committed b T r hrunning hr hmarked =>
    obtain ⟨b', hb, rfl⟩ := hf
    obtain rfl := Option.some.inj hb
    exact .of_commit hF (hA.registry (.commit b T) rfl).2 hr rfl rfl rfl
  | removed he => exact .of_remove hF hf he rfl rfl
  | release => exact .of_release hF hf hdrawn
  | entry | unlisted | ran | exited | drop | destroy => exact .of_eq rfl rfl rfl
  | _ => first | exact absurd hf id | (obtain ⟨b, hb, -⟩ := hf; cases hb)

/-! ## Failures without a reservation -/

theorem unchanged_of_effect {ret : PrepareReturn} {g : RegistryCall} (hg : g.asks = true)
    (hret : s'.registry.returns = s.registry.returns ++ [ret])
    (h : Effect cfg s (.registry g) s' new) :
    s.registry.Unchanged s'.registry ∧ s'.alive = s.alive := by
  cases h with
  | aside hg' hexec => exact ⟨TicketRegistry.unchanged_of_exec hg hexec hret, rfl⟩
  | found hg' hexec => exact ⟨TicketRegistry.unchanged_of_exec hg hexec hret, rfl⟩
  | sweep hg' => rcases hg' with rfl | rfl | rfl <;> cases hg
  | replayed | refused => exact ⟨⟨rfl, rfl, rfl, rfl, rfl⟩, rfl⟩
  | _ => cases hg

/-! ## Entries that are registered -/

/-- A call that is about to end an execution. -/
def Ends (T : Bytes) : ServerCall → Prop
  | .entry T' _ (.cancelAndJoin _) | .entry T' _ (.terminate _) => T' = T
  | _ => False

/-- The call of `prepare` that has built an entry has returned it. -/
def ReturnedOwn (s : SidecarServer) (e : PreparedEntry) : Prop :=
  ∃ ret ∈ s.registry.returns, ret.outcome = .entry e true

/-- Calls that are over stay over. -/
theorem returns_of_effect (h : Effect cfg s f s' new) :
    s.registry.returns ⊆ s'.registry.returns := by
  cases h with
  | aside hg hexec hapart => exact hapart.returns
  | found hg hexec hapart => exact hapart.returns
  | sweep hg hnodup horder hall hr =>
    rw [registry_foldl_retain, hr]
    exact List.Subset.refl _
  | @removed T worker e he =>
    show s.registry.returns ⊆ (s.registry.remove T).returns
    rw [(s.registry.remove_frame T).2.2.1]
    exact List.Subset.refl _
  | @release T =>
    obtain ⟨-, -, admission, hr⟩ := registry_releaseLease s T
    rw [hr]
    exact List.Subset.refl _
  | committed | replayed | refused => exact List.subset_append_left _ _
  | _ => exact List.Subset.refl _

/-- An entry is registered by the section that returns it, or that goes on to end it. -/
theorem listed_of_effect (hF : Founded cfg s fun o ↦ n o + holding o f) (hA : Informed cfg f s)
    (he : s'.registry.entries.lookup T = some e) (h : Effect cfg s f s' new) :
    s.registry.entries.lookup T = some e ∨ s'.ReturnedOwn e ∨ ∃ g ∈ new, Ends T g := by
  cases h with
  | aside hg hexec hapart | found hg hexec hapart => exact .inl (hapart.entries ▸ he)
  | sweep hg hnodup horder hall hr =>
    rw [registry_foldl_retain, hr] at he
    exact .inl he
  | @withdrawn b T' r status hrunning hr hmarked =>
    have hdrawn : (T', b.serial) ∈ s.registry.drawn := (hA.registry (.commit b T') rfl).2
    have hmap : (s.registry.committed b T' r).entries.lookup
        = update s.registry.entries.lookup T' (some (b.entry T')) :=
      TicketRegistry.lookup_committed (hF.registry.lookup_eq_none (f := .commit b T') rfl hdrawn)
    rcases eq_some_of_eq_update hmap he with ⟨rfl, -⟩ | ⟨-, hold⟩
    · exact .inr (.inr ⟨_, List.mem_cons_self, rfl⟩)
    · exact .inl hold
  | @committed b T' r hrunning hr hmarked =>
    have hdrawn : (T', b.serial) ∈ s.registry.drawn := (hA.registry (.commit b T') rfl).2
    have hmap : (s.registry.committed b T' r).entries.lookup
        = update s.registry.entries.lookup T' (some (b.entry T')) :=
      TicketRegistry.lookup_committed (hF.registry.lookup_eq_none (f := .commit b T') rfl hdrawn)
    rcases eq_some_of_eq_update hmap he with ⟨rfl, hnew⟩ | ⟨-, hold⟩
    · obtain rfl := Option.some.inj hnew
      exact .inr (.inl ⟨_, List.mem_append_right _ List.mem_cons_self, rfl⟩)
    · exact .inl hold
  | @removed T' worker e' he' =>
    rcases eq_some_of_eq_update (s.registry.lookup_remove T') he with ⟨-, hnone⟩ | ⟨-, hold⟩
    · cases hnone
    · exact .inl hold
  | @release T' =>
    obtain ⟨-, -, admission, hr⟩ := registry_releaseLease s T'
    rw [hr] at he
    exact .inl he
  | _ => exact .inl he

/-- A call that ends an execution goes on with that until the execution is terminal. -/
theorem ends_of_effect (hF : Founded cfg s n) (hf : Ends T f) (h : Effect cfg s f s' new) :
    (s'.entry T).terminal = true ∨ ∃ g ∈ new, Ends T g := by
  cases h with
  | @entry T' worker g a e calls hg hexec =>
    cases g with
    | cancelAndJoin timedOut =>
      obtain rfl : T' = T := hf
      cases hexec
      exact .inr ⟨_, List.mem_cons_self, rfl⟩
    | terminate cause =>
      obtain rfl : T' = T := hf
      refine .inl ?_
      rw [entry_setEntry_self]
      exact ExecutionEntry.terminal_of_terminate (hF.entries T').sound hexec
    | _ => cases hf
  | _ => cases hf

/-! ## Runs -/

variable [Fintype ι] [DecidableEq ι] {c c' : Threads SidecarServer ι ServerCall} {t : ι}
  {rest : List ServerCall} {m : Move ι ServerCall ServerAnswer (Bytes × Bytes × InputTraffic)}
  {ms : List (Move ι ServerCall ServerAnswer (Bytes × Bytes × InputTraffic))}

omit [Fintype ι] in
/-- The entry is returned by its own call, or ended, or about to be ended. -/
def Promised (c : Threads SidecarServer ι ServerCall) (T : Bytes) (e : PreparedEntry) : Prop :=
  c.shared.ReturnedOwn e ∨ (c.shared.entry T).terminal = true ∨ ∃ t, ∃ f ∈ c.calls t, Ends T f

/-- What has been promised of an entry is kept. -/
theorem promised_of_step (hrun : (program cfg ι).machine.run (init cfg ι) ms = some c)
    (hstep : (program cfg ι).machine.step c m = some c')
    (hreturns : c.shared.registry.returns ⊆ c'.shared.registry.returns)
    (hexec : ∀ t k f rest, m = .exec t k → c.calls t = f :: rest → Ends T f → Promised c' T e)
    (h : Promised c T e) : Promised c' T e := by
  rcases h with ⟨ret, hret, hown⟩ | hterminal | ⟨t, f, hf, hends⟩
  · exact .inl ⟨ret, hreturns hret, hown⟩
  · exact .inr (.inl (terminal_of_step hrun hstep hterminal))
  · rcases Program.mem_of_step hstep hf with hf' | ⟨k, rest, hm, hstack⟩
    · exact .inr (.inr ⟨t, f, hf', hends⟩)
    · exact hexec t k f rest hm hstack hends

/-- **What is registered** was returned by the call that has built it, or is ended by that call. -/
theorem promised_of_run (hrun : (program cfg ι).machine.run (init cfg ι) ms = some c)
    (he : c.shared.registry.entries.lookup T = some e) : Promised c T e := by
  refine Machine.run_induction (P := fun _ c ↦ ∀ e, c.shared.registry.entries.lookup T = some e →
    Promised c T e) (fun e he ↦ ?_) ?_ hrun e he
  · cases he
  · intro ms' c₁ m c₂ hrun₁ ih hstep e he
    obtain ⟨⟨-, hs⟩, hknows⟩ := run_invariant hrun₁
    cases m with
    | call t f =>
      obtain ⟨-, s, hcall, rfl⟩ := Program.step_call_eq_some.mp hstep
      have hidle := (idle_of_call hs hcall).1
      refine promised_of_step hrun₁ hstep hidle.registry.returns ?_
        (ih e (by rwa [← hidle.registry.entries]))
      rintro t' k' f' rest' ⟨⟩
    | exec t k =>
      obtain ⟨f, rest, s', new, hstack, hexec, rfl⟩ := Program.step_exec_eq_some.mp hstep
      have hmem : f ∈ c₁.calls t := by
        rw [hstack]
        exact List.mem_cons_self
      have hF := founded_apart hrun₁ hmem
      have heffect : Effect cfg c₁.shared f s' new := effect_of_step (k := k) hrun₁ hstack hexec
      have hnew : ∀ g ∈ new, Ends T g → Promised ⟨s', update c₁.calls t (new ++ rest)⟩ T e := by
        intro g hg hends
        refine .inr (.inr ⟨t, g, ?_, hends⟩)
        show g ∈ update c₁.calls t (new ++ rest) t
        rw [Function.update_self]
        exact List.mem_append_left _ hg
      rcases listed_of_effect hF (hknows t f hmem).1 he heffect with hold | hown | ⟨g, hg, hends⟩
      · refine promised_of_step hrun₁ hstep (returns_of_effect heffect) ?_ (ih e hold)
        rintro t' k' f' rest' ⟨⟩ hstack' hends
        obtain ⟨rfl, rfl⟩ := List.cons.inj (hstack.symm.trans hstack')
        rcases ends_of_effect hF hends heffect with hterminal | ⟨g, hg, hends'⟩
        · exact .inr (.inl hterminal)
        · exact hnew g hg hends'
      · exact .inl hown
      · exact hnew g hg hends
    | ambient a =>
      obtain ⟨s, ha, rfl⟩ := Program.step_ambient_eq_some.mp hstep
      have hidle := idle_of_ambient ha
      refine promised_of_step hrun₁ hstep hidle.registry.returns ?_
        (ih e (by rwa [← hidle.registry.entries]))
      rintro t' k' f' rest' ⟨⟩

/-! ## When everybody is done -/

/-- The handlers of an execution are calls of the server. -/
theorem handlers_eq (hrun : (program cfg ι).machine.run (init cfg ι) ms = some c) (T : Bytes) :
    (c.shared.entry T).activeHandlers
      = Program.weight (Program.liftWeight (toEntry T) ExecutionEntry.counted) c := by
  have hledger := ((ExecutionEntry.tally_counted (cfg.executions T) Unit).ledger
    (ExecutionEntry.assertional (cfg.executions T) Unit)).lift (entry_part cfg ι T)
  have hinit := ExecutionEntry.holds_init (ι := Unit)
  refine (hledger.run (c := init cfg ι) ⟨⟨hinit.1, ?_⟩, nofun⟩ hrun).1.2
  exact (weight_init _).symm

/-- An execution without a worker that is terminal is about to be quiesced. -/
theorem quiescing_of_unsettled (hrun : (program cfg ι).machine.run (init cfg ι) ms = some c)
    (h : (c.shared.entry T).Unsettled) :
    ∃ t, ∃ f ∈ c.calls t, toEntry T f = some (.quiesce true) := by
  have hassertional := ExecutionEntry.assertional_ordered (cfg.executions T) Unit
  have hdebt := (ExecutionEntry.debt_quiesce (cfg.executions T) Unit).lift
    (entry_part cfg ι T) hassertional
  obtain ⟨hinit, -⟩ : Founded cfg (init cfg ι).shared
      (fun o ↦ Program.weight (holding o) (init cfg ι)) ∧ Coherent (init cfg ι).shared :=
    founded_init
  have hsettled : ¬((init cfg ι).shared.entry T).Unsettled := by
    rintro ⟨hterminal, -, -⟩
    cases hterminal
  obtain ⟨t, f, hf, g, hg, rfl⟩ := hdebt.run (hassertional.lift (entry_part cfg ι T))
    ⟨hinit.entries T, fun t f hf ↦ absurd hf List.not_mem_nil⟩ hsettled hrun h
  exact ⟨t, f, hf, hg⟩

/-- A call of an entry mentions it. -/
theorem toEntry_eq_none (hT : T ∉ mentions f) : toEntry T f = none := by
  cases f with
  | entry T' worker g =>
    refine if_neg ?_
    rintro rfl
    exact hT List.mem_cons_self
  | joining identity e g =>
    refine if_neg ?_
    rintro rfl
    exact hT List.mem_cons_self
  | _ => rfl

/-- Nobody has anything to do with an execution any more, and it has no worker. -/
structure Left (c : Threads SidecarServer ι ServerCall) (T : Bytes) : Prop where
  unmentioned : ∀ t, ∀ f ∈ c.calls t, T ∉ mentions f
  idle : (c.shared.entry T).worker.working = false

/-- An execution that has ended and been left is not registered. -/
theorem unlisted_of_left (hrun : (program cfg ι).machine.run (init cfg ι) ms = some c)
    (hleft : Left c T) (hterminal : (c.shared.entry T).terminal = true) :
    c.shared.registry.entries.lookup T = none := by
  obtain ⟨⟨hF, -⟩, -⟩ := run_invariant hrun
  have hnone : ∀ t, ∀ f ∈ c.calls t, toEntry T f = none :=
    fun t f hf ↦ toEntry_eq_none (hleft.unmentioned t f hf)
  have hsettled : ¬(c.shared.entry T).Unsettled := fun hunsettled ↦ by
    obtain ⟨t, f, hf, hg⟩ := quiescing_of_unsettled hrun hunsettled
    rw [hnone t f hf] at hg
    cases hg
  have hquiesced := (hF.entries T).quiesced_of_terminal hterminal hleft.idle hsettled
  have hhandlers : (c.shared.entry T).activeHandlers = 0 := by
    rw [handlers_eq hrun]
    refine Program.weight_eq_zero fun t f hf ↦ ?_
    rw [Program.liftWeight, hnone t f hf]
    rfl
  refine (notified_of_quiet hrun (fun t f hf hnotifies ↦ ?_) ?_).2
  · rw [Notifies, hnone t f hf] at hnotifies
    rcases hnotifies with h | h <;> cases h
  · rw [ExecutionEntry.isQuiet, hquiesced, hhandlers]
    rfl

/-- A preparation is over, and nobody has anything to do with what it has built. -/
structure Over (c : Threads SidecarServer ι ServerCall) (i : ℕ) : Prop where
  sections : ∀ t, ∀ f ∈ c.calls t, ∀ g b, f = .registry g → g.preparation? = some b → b.serial ≠ i
  left : ∀ T, (T, i) ∈ c.shared.registry.drawn → Left c T

/-- Nothing is left of a preparation: what is there belongs to others. -/
structure Undone (c : Threads SidecarServer ι ServerCall) (i : ℕ) : Prop where
  records : ∀ key r, c.shared.registry.idempotency.lookup key = some r → r.serial ≠ i
  entries : ∀ T e, c.shared.registry.entries.lookup T = some e → e.serial ≠ i
  alive : ∀ e ∈ c.shared.alive, e.serial ≠ i
  /-- The slots are those of the calls that have a reservation. -/
  reserved : c.shared.registry.reserved = Program.weight (holding none) c
  /-- The bytes are on the leases of calls and of entries. -/
  current : c.shared.registry.admission.currentBytes.toNat
    = Program.weight leased c + (c.shared.alive.map (·.lease.toNat)).sum

/-- Who has a pointer to an entry mentions it, or is preparing it. -/
theorem mentions_of_owned (hf : Informed cfg f s) (hT : T ∈ owned f) :
    T ∈ mentions f ∨ ∃ g b, f = .registry g ∧ g.preparation? = some b ∧
      (T, b.serial) ∈ s.registry.drawn := by
  cases f with
  | registry g =>
    cases g with
    | commit b T' =>
      obtain rfl := List.mem_singleton.mp hT
      exact .inr ⟨_, b, rfl, rfl, (hf.registry (.commit b T) rfl).2⟩
    | releaseReservation b built what =>
      refine .inr ⟨_, b, rfl, rfl, (hf.registry (.releaseReservation b built what) rfl).2 T ?_⟩
      exact Option.mem_toList.mp hT
    | replay | deliver | claimEntry => exact .inl hT
    | _ => cases hT
  | entry T' worker g =>
    rw [owned] at hT
    split_ifs at hT
    · exact .inl hT
    · cases hT
  | each cause todo held => exact .inl (List.mem_append_right _ hT)
  | joining | opening | results | drop => exact .inl hT
  | _ => cases hT

/-- Nothing that is registered is of a preparation that is over and has failed. -/
theorem unlisted_of_over (hrun : (program cfg ι).machine.run (init cfg ι) ms = some c)
    (hfails : ∀ e, e.serial = i → ¬c.shared.ReturnedOwn e) (hover : Over c i)
    (he : c.shared.registry.entries.lookup T = some e) : e.serial ≠ i := by
  rintro rfl
  obtain ⟨⟨hF, -⟩, -⟩ := run_invariant hrun
  have hleft := hover.left T (hF.registry.serials.exposed T _ (hF.registry.entry he).1).1
  rcases promised_of_run hrun he with hown | hterminal | ⟨t, f, hf, hends⟩
  · exact hfails e rfl hown
  · rw [unlisted_of_left hrun hleft hterminal] at he
    cases he
  · refine hleft.unmentioned t f hf ?_
    cases f with
    | entry T' worker g =>
      cases g with
      | cancelAndJoin | terminate =>
        obtain rfl : T' = T := hends
        exact List.mem_cons_self
      | _ => cases hends
    | _ => cases hends

/-- A record of a preparation that is over is that of an entry. -/
theorem unrecorded_of_over (hrun : (program cfg ι).machine.run (init cfg ι) ms = some c)
    (hover : Over c i)
    (hentries : ∀ T e, c.shared.registry.entries.lookup T = some e → e.serial ≠ i) {key : Bytes}
    {r : IdempotencyRecord} (hr : c.shared.registry.idempotency.lookup key = some r) :
    r.serial ≠ i := by
  rintro rfl
  obtain ⟨⟨hF, -⟩, -⟩ := run_invariant hrun
  have hmatched := hF.registry.recorded.matched
  cases hpreparing : r.preparing with
  | false =>
    obtain ⟨e, he, hkey⟩ := hmatched.entryOf hr hpreparing
    obtain ⟨-, r', hr', -, -, hserial, -⟩ := hmatched.recordOf he
    rw [hkey, hr] at hr'
    obtain rfl := Option.some.inj hr'
    exact hentries r.ticket e he hserial.symm
  | true =>
    -- some call holds the reservation
    let ρ : Reservation := ⟨key, r.serial, r.fingerprint⟩
    have hcount : Program.weight (holding (some ρ)) c
        = (Reserves c.shared.registry.idempotency.lookup ρ).toNat := hF.registry.recorded.owned ρ
    rw [Reserves, hr, Option.any_some, Reservation.holds, hpreparing, beq_self_eq_true,
      beq_self_eq_true] at hcount
    have hsome : Program.weight (holding (some ρ)) c ≠ 0 := fun hzero ↦ by
      rw [hzero] at hcount
      cases hcount
    refine hsome (Program.weight_eq_zero fun t f hf ↦ ?_)
    cases f with
    | registry g =>
      show TicketRegistry.holding (some ρ) g = 0
      rw [TicketRegistry.holding]
      cases hb : g.building? with
      | none => rfl
      | some b =>
        refine if_neg fun heq ↦ hover.sections t _ hf g b rfl ?_ (congrArg (·.serial) heq.symm)
        cases g with
        | drawTicket | construct | commit | releaseReservation => exact hb
        | _ => cases hb
    | _ => rfl

/-- The entry of a preparation that is over and has failed is gone. -/
theorem not_alive_of_over (hrun : (program cfg ι).machine.run (init cfg ι) ms = some c)
    (hover : Over c i)
    (hentries : ∀ T e, c.shared.registry.entries.lookup T = some e → e.serial ≠ i)
    (he : e ∈ c.shared.alive) : e.serial ≠ i := by
  rintro rfl
  obtain ⟨⟨hF, -⟩, hknows⟩ := run_invariant hrun
  have hserials := hF.registry.serials
  have hdrawn := (run_accounted hrun).1.drawn e he
  have hleft := hover.left e.ticket hdrawn
  have hcreated : c.shared.created e.ticket = 0 := by
    have hidle := hleft.idle
    rw [WorkerThread.working_eq, Bool.or_eq_false_iff] at hidle
    rw [created, hidle.1]
    rfl
  refine (not_alive_iff_unheld hrun hcreated).mpr ⟨?_, fun t f hf ↦ ⟨fun hT ↦ ?_, fun hT ↦ ?_⟩⟩
    (List.mem_map_of_mem he)
  · by_contra hsome
    obtain ⟨e', he'⟩ := Option.ne_none_iff_exists'.mp hsome
    have hdrawn' := (hserials.exposed _ _ (hF.registry.entry he').1).1
    exact hentries _ e' he' (hserials.drawn _ _ _ hdrawn' hdrawn)
  · rcases mentions_of_owned (hknows t f hf).1 hT with hmentions | ⟨g, b, rfl, hb, hT'⟩
    · exact hleft.unmentioned t f hf hmentions
    · exact hover.sections t _ hf g b rfl hb (hserials.drawn _ _ _ hT' hdrawn)
  · refine hleft.unmentioned t f hf ?_
    cases f with
    | destroy | release => exact hT
    | _ => cases hT

/-! ## Failures -/

/-- What a preparation does to the server if it fails, in a state. -/
structure Atomic (cfg : SidecarConfig) (c : Threads SidecarServer ι ServerCall) : Prop where
  /-- Where it returns without a reservation, it has changed nothing. -/
  unreserved : ∀ t g rest k c' ret, c.calls t = .registry g :: rest → g.asks = true →
    (program cfg ι).machine.step c (.exec t k) = some c' →
    c'.shared.registry.returns = c.shared.registry.returns ++ [ret] →
      c.shared.registry.Unchanged c'.shared.registry ∧ c'.shared.alive = c.shared.alive
  /-- Its sections touch nothing of another reservation. -/
  confined : ∀ i t f rest k c', c.calls t = f :: rest → OfReservation c.shared i f →
    (program cfg ι).machine.step c (.exec t k) = some c' → Confined i c.shared c'.shared
  /-- When it is over, and has not returned its entry, nothing is left of it. -/
  undone : ∀ i, (∀ e, e.serial = i → ¬c.shared.ReturnedOwn e) → Over c i → Undone c i

/-- **A preparation that fails is undone**, in every reachable state of the server. -/
theorem prepare_atomic (cfg : SidecarConfig)
    (ms : List (Move ι ServerCall ServerAnswer (Bytes × Bytes × InputTraffic)))
    (c : Threads SidecarServer ι ServerCall)
    (hrun : (program cfg ι).machine.run (init cfg ι) ms = some c) : Atomic cfg c := by
  obtain ⟨⟨hF, -⟩, hknows⟩ := run_invariant hrun
  constructor
  · intro t g rest k c' ret hstack hg hstep hret
    obtain ⟨s', new, hexec, hshared, -⟩ := step_exec_cons hstack hstep
    rw [hshared] at hret ⊢
    exact unchanged_of_effect hg hret (effect_of_step hrun hstack hexec)
  · intro i t f rest k c' hstack hf hstep
    obtain ⟨s', new, hexec, hshared, -⟩ := step_exec_cons hstack hstep
    have hmem : f ∈ c.calls t := by
      rw [hstack]
      exact List.mem_cons_self
    rw [hshared]
    exact confined_of_effect (founded_apart hrun hmem) (hknows t f hmem).1
      (run_accounted hrun).1.drawn hf (effect_of_step hrun hstack hexec)
  · intro i hfails hover
    have hentries : ∀ T e, c.shared.registry.entries.lookup T = some e → e.serial ≠ i :=
      fun T e he ↦ unlisted_of_over hrun hfails hover he
    exact ⟨fun key r hr ↦ unrecorded_of_over hrun hover hentries hr, hentries,
      fun e he ↦ not_alive_of_over hrun hover hentries he, hF.registry.recorded.reserved,
      (run_accounted hrun).1.current⟩

/-- A preparation is cancelled before it has drawn its ticket, and ends the entry that it
commits. -/
def withdrawOnce : List (Move Bool ServerCall ServerAnswer (Bytes × Bytes × InputTraffic)) :=
  deliverOnce.take 3 ++ [.call true (.registry (.cancelAndJoinIdempotency TicketRegistry.oneKey)),
    .exec true {}, .exec true { registry := { stopped := true } }] ++
    (deliverOnce.drop 3).take 3 ++ List.replicate 13 (.exec false {})

theorem prepare_atomic_withdrawOnce :
    ∃ c, (program oneExecution Bool).machine.run (init oneExecution Bool) withdrawOnce = some c ∧
      c.shared.registry.reservations = 1 ∧ Undone c 0 := by
  have hends : ((program oneExecution Bool).machine.run (init oneExecution Bool) withdrawOnce).map
      (fun c ↦ decide (c.shared.registry.reservations = 1 ∧ (∀ t, (c.calls t).isEmpty = true) ∧
        (∀ ret ∈ c.shared.registry.returns, ret.outcome.fails = true) ∧
        c.shared.registry.drawn = [([7], 0)] ∧ (c.shared.entry [7]).worker.working = false))
      = some true := by
    decide +kernel
  obtain ⟨c, hrun, hc⟩ := Option.map_eq_some_iff.mp hends
  obtain ⟨hreservations, hidle, hreturns, hdrawn, hworker⟩ := of_decide_eq_true hc
  have hnone : ∀ t, c.calls t = [] := fun t ↦ List.isEmpty_iff.mp (hidle t)
  refine ⟨c, hrun, hreservations,
    (prepare_atomic oneExecution withdrawOnce c hrun).undone 0 (fun e _ ↦ ?_) ⟨?_, ?_⟩⟩
  · rintro ⟨ret, hret, hown⟩
    have hfails := hreturns ret hret
    rw [hown] at hfails
    cases hfails
  · intro t f hf
    rw [hnone t] at hf
    cases hf
  · intro T hT
    rw [hdrawn, List.mem_singleton] at hT
    obtain ⟨rfl, -⟩ := Prod.mk.inj hT
    refine ⟨fun t f hf ↦ ?_, hworker⟩
    rw [hnone t] at hf
    cases hf

end SidecarServer

end MoSidecar
