import MoSidecar.Registry.Tickets

/-!
# Records, entries and reservations

The two maps of the registry as functions, and what holds between them: a record that is not
preparing names the ticket of an entry with its key, an entry has such a record, and a record that
is preparing belongs to exactly one call of `prepare`.

That a call is the only one with its key cannot be said of one call alone. It is said with the
number of calls that hold a given reservation, which the rule of ledgers keeps equal to one or zero
by what the map of records says. The lemmas below are about the updates of the maps that occur in
the registry: a reservation is made, ended or committed, a record is marked, an entry is removed.
-/

open Function (update)

namespace MoSidecar

/-! ## Maps as functions -/

section Maps

variable {α β : Type*} [DecidableEq α] {m : AList fun _ : α ↦ β} {k : α} {v : β}

theorem lookup_insert_eq_update : (m.insert k v).lookup = update m.lookup k (some v) := by
  funext a
  by_cases h : a = k
  · subst h
    rw [AList.lookup_insert, Function.update_self]
  · rw [AList.lookup_insert_ne h, Function.update_of_ne h]

theorem lookup_erase_eq_update : (m.erase k).lookup = update m.lookup k none := by
  funext a
  by_cases h : a = k
  · subst h
    rw [AList.lookup_erase, Function.update_self]
  · rw [AList.lookup_erase_ne h, Function.update_of_ne h]

/-- What a map that was changed in one place holds is new or old. -/
theorem eq_some_of_eq_update {f g : α → Option β} {o : Option β} {a : α} {b : β}
    (hg : g = update f k o) (h : g a = some b) : a = k ∧ o = some b ∨ a ≠ k ∧ f a = some b := by
  by_cases hk : a = k
  · subst hk
    rw [hg, Function.update_self] at h
    exact .inl ⟨rfl, h⟩
  · rw [hg, Function.update_of_ne hk] at h
    exact .inr ⟨hk, h⟩

/-- What is not concerned by a change in one place is there after it exactly if it was before. -/
theorem lookup_insert_iff {p : β → Prop} {a : α} {b : β} (hold : ∀ u, m.lookup k = some u → p u)
    (hnew : p v) (hb : ¬p b) : (m.insert k v).lookup a = some b ↔ m.lookup a = some b := by
  by_cases ha : a = k
  · subst ha
    rw [AList.lookup_insert]
    refine ⟨fun h ↦ ?_, fun h ↦ absurd (hold b h) hb⟩
    exact absurd (Option.some.inj h ▸ hnew) hb
  · rw [AList.lookup_insert_ne ha]

theorem lookup_erase_iff {p : β → Prop} {a : α} {b : β} (hold : ∀ u, m.lookup k = some u → p u)
    (hb : ¬p b) : (m.erase k).lookup a = some b ↔ m.lookup a = some b := by
  by_cases ha : a = k
  · subst ha
    rw [AList.lookup_erase]
    exact ⟨nofun, fun h ↦ absurd (hold b h) hb⟩
  · rw [AList.lookup_erase_ne ha]

theorem emplace_of_lookup_none (h : m.lookup k = none) : emplace m k v = m.insert k v := by
  rw [emplace, h]
  rfl

theorem length_keys_insert (h : m.lookup k = none) :
    (m.insert k v).keys.length = m.keys.length + 1 := by
  have hmem : k ∉ m.keys := fun hk ↦ AList.lookup_eq_none.mp h (AList.mem_keys.mpr hk)
  rw [AList.keys_insert, List.erase_of_not_mem hmem, List.length_cons]

theorem length_keys_erase_le : (m.erase k).keys.length ≤ m.keys.length := by
  rw [AList.keys_erase]
  exact List.length_erase_le

end Maps

/-! ## Records and entries -/

/-- A map from idempotency keys to records. -/
abbrev RecordMap := Bytes → Option IdempotencyRecord

/-- A map from tickets to entries. -/
abbrev EntryMap := Bytes → Option PreparedEntry

/-- The records that are not preparing and the entries correspond to each other. -/
structure Matched (records : RecordMap) (entries : EntryMap) : Prop where
  entryOf : ∀ {k r}, records k = some r → r.preparing = false →
    ∃ e, entries r.ticket = some e ∧ e.key = k
  recordOf : ∀ {T e}, entries T = some e → e.ticket = T ∧ ∃ r, records e.key = some r ∧
    r.preparing = false ∧ r.ticket = T ∧ r.serial = e.serial ∧
      r.fingerprint = e.request.fingerprint

namespace Matched

variable {records : RecordMap} {entries : EntryMap} {k T : Bytes}

/-- The entry of a record is the one with its key. -/
theorem eq_of_key (h : Matched records entries) {T' : Bytes} {e e' : PreparedEntry}
    (he : entries T = some e) (he' : entries T' = some e') (hkey : e.key = e'.key) : T = T' := by
  obtain ⟨-, r, hr, -, hT, -⟩ := h.recordOf he
  obtain ⟨-, r', hr', -, hT', -⟩ := h.recordOf he'
  rw [hkey, hr'] at hr
  obtain rfl := Option.some.inj hr
  exact hT.symm.trans hT'

/-- Changes at a key that is not committed, before or after. -/
theorem update_uncommitted (h : Matched records entries) {o : Option IdempotencyRecord}
    (hk : ∀ r, records k = some r → r.preparing = true)
    (ho : ∀ r, o = some r → r.preparing = true) :
    Matched (update records k o) entries where
  entryOf {k' r} hr hcommitted := by
    by_cases hk' : k' = k
    · subst hk'
      rw [Function.update_self] at hr
      rw [ho r hr] at hcommitted
      cases hcommitted
    · rw [Function.update_of_ne hk'] at hr
      exact h.entryOf hr hcommitted
  recordOf {T e} he := by
    obtain ⟨hT, r, hr, hcommitted, hrest⟩ := h.recordOf he
    refine ⟨hT, r, ?_, hcommitted, hrest⟩
    rw [Function.update_of_ne, hr]
    intro hkey
    rw [hk r (hkey ▸ hr)] at hcommitted
    cases hcommitted

/-- A record is marked. -/
theorem update_mark (h : Matched records entries) {r : IdempotencyRecord}
    (hr : records k = some r) :
    Matched (update records k (some { r with cancelRequested := true })) entries where
  entryOf {k' r'} hr' hcommitted := by
    by_cases hk' : k' = k
    · subst hk'
      rw [Function.update_self] at hr'
      obtain rfl := Option.some.inj hr'
      exact h.entryOf (r := r) hr hcommitted
    · rw [Function.update_of_ne hk'] at hr'
      exact h.entryOf hr' hcommitted
  recordOf {T e} he := by
    obtain ⟨hT, r', hr', hrest⟩ := h.recordOf he
    refine ⟨hT, ?_⟩
    by_cases hkey : e.key = k
    · rw [hkey, hr] at hr'
      obtain rfl := Option.some.inj hr'
      refine ⟨{ r with cancelRequested := true }, ?_, hrest⟩
      rw [hkey, Function.update_self]
    · exact ⟨r', by rw [Function.update_of_ne hkey, hr'], hrest⟩

/-- An entry is committed under a fresh ticket. -/
theorem update_commit (h : Matched records entries) {r : IdempotencyRecord} {e : PreparedEntry}
    (hr : records e.key = some r) (hpreparing : r.preparing = true)
    (hfresh : entries e.ticket = none) (hserial : r.serial = e.serial)
    (hfingerprint : r.fingerprint = e.request.fingerprint) :
    Matched (update records e.key (some { r with ticket := e.ticket, preparing := false }))
      (update entries e.ticket (some e)) where
  entryOf {k' r'} hr' hcommitted := by
    by_cases hk' : k' = e.key
    · subst hk'
      rw [Function.update_self] at hr'
      obtain rfl := Option.some.inj hr'
      exact ⟨e, Function.update_self .., rfl⟩
    · rw [Function.update_of_ne hk'] at hr'
      obtain ⟨e', he', hkey⟩ := h.entryOf hr' hcommitted
      refine ⟨e', ?_, hkey⟩
      rw [Function.update_of_ne, he']
      intro hT
      rw [hT, hfresh] at he'
      cases he'
  recordOf {T e'} he' := by
    by_cases hT : T = e.ticket
    · subst hT
      rw [Function.update_self] at he'
      obtain rfl := Option.some.inj he'
      exact ⟨rfl, _, Function.update_self .., rfl, rfl, hserial, hfingerprint⟩
    · rw [Function.update_of_ne hT] at he'
      obtain ⟨hT', r', hr', hcommitted, hrest⟩ := h.recordOf he'
      refine ⟨hT', r', ?_, hcommitted, hrest⟩
      rw [Function.update_of_ne, hr']
      intro hkey
      rw [hkey, hr] at hr'
      obtain rfl := Option.some.inj hr'
      rw [hpreparing] at hcommitted
      cases hcommitted

/-- An entry is removed with its record. -/
theorem update_remove (h : Matched records entries) {e : PreparedEntry} (he : entries T = some e) :
    Matched (update records e.key none) (update entries T none) where
  entryOf {k' r'} hr' hcommitted := by
    by_cases hk' : k' = e.key
    · subst hk'
      rw [Function.update_self] at hr'
      cases hr'
    · rw [Function.update_of_ne hk'] at hr'
      obtain ⟨e', he', hkey⟩ := h.entryOf hr' hcommitted
      refine ⟨e', ?_, hkey⟩
      rw [Function.update_of_ne, he']
      intro hT
      rw [hT, he] at he'
      obtain rfl := Option.some.inj he'
      exact hk' hkey.symm
  recordOf {T' e'} he' := by
    by_cases hT : T' = T
    · subst hT
      rw [Function.update_self] at he'
      cases he'
    · rw [Function.update_of_ne hT] at he'
      obtain ⟨hT', r', hr', hrest⟩ := h.recordOf he'
      refine ⟨hT', r', ?_, hrest⟩
      rw [Function.update_of_ne, hr']
      intro hkey
      exact hT (h.eq_of_key he' he hkey)

end Matched

/-! ## Reservations -/

/-- What a call of `prepare` holds from its reservation on. -/
structure Reservation where
  key : Bytes
  serial : ℕ
  fingerprint : Bytes
  deriving DecidableEq

def Building.reservation (b : Building) : Reservation := ⟨b.key, b.serial, b.request.fingerprint⟩

/-- The record of a reservation. -/
def Reservation.holds (ρ : Reservation) (r : IdempotencyRecord) : Bool :=
  r.preparing && r.serial == ρ.serial && r.fingerprint == ρ.fingerprint

/-- The map has the record of a reservation. -/
def Reserves (records : RecordMap) (ρ : Reservation) : Bool := (records ρ.key).any ρ.holds

/-- Every reservation is held by as many calls as it has records. -/
def Owned (records : RecordMap) (n : Reservation → ℕ) : Prop :=
  ∀ ρ, n ρ = (Reserves records ρ).toNat

section Owned

variable {records : RecordMap} {n : Reservation → ℕ} {ρ : Reservation} {k : Bytes}

/-- A record is that of one reservation for its key. -/
theorem Reservation.eq_of_holds {ρ' : Reservation} {r : IdempotencyRecord} (hkey : ρ'.key = ρ.key)
    (hr : ρ.holds r = true) (hr' : ρ'.holds r = true) : ρ' = ρ := by
  simp only [Reservation.holds, Bool.and_eq_true, beq_iff_eq] at hr hr'
  obtain ⟨⟨-, hserial⟩, hfingerprint⟩ := hr
  obtain ⟨⟨-, hserial'⟩, hfingerprint'⟩ := hr'
  cases ρ
  cases ρ'
  simp_all

/-- A change at a key that no reservation notices. -/
theorem Owned.update_unnoticed (h : Owned records n) {o : Option IdempotencyRecord}
    (ho : ∀ ρ : Reservation, o.any ρ.holds = (records k).any ρ.holds) :
    Owned (update records k o) n := by
  intro ρ
  rw [h ρ, Reserves, Reserves]
  by_cases hk : ρ.key = k
  · rw [hk, Function.update_self, ho]
  · rw [Function.update_of_ne hk]

/-- A reservation is made for a key without a record. -/
theorem Owned.update_start (h : Owned records n) {r : IdempotencyRecord}
    (hnone : records ρ.key = none) (hr : ρ.holds r = true) :
    Owned (update records ρ.key (some r)) fun ρ' ↦ n ρ' + if ρ' = ρ then 1 else 0 := by
  intro ρ'
  show n ρ' + (if ρ' = ρ then 1 else 0) = _
  rw [h ρ', Reserves, Reserves]
  by_cases hk : ρ'.key = ρ.key
  · rw [hk, hnone, Function.update_self, Option.any_none, Option.any_some, Bool.toNat_false,
      Nat.zero_add]
    by_cases heq : ρ' = ρ
    · rw [if_pos heq, heq, hr]
      rfl
    · rw [if_neg heq, Bool.eq_false_iff.mpr fun hr' ↦ heq (Reservation.eq_of_holds hk hr hr')]
      rfl
  · rw [if_neg fun heq ↦ hk (by rw [heq]), Function.update_of_ne hk, Nat.add_zero]

/-- The record of a call that holds a reservation. -/
theorem Owned.record (h : Owned records fun ρ' ↦ n ρ' + if ρ' = ρ then 1 else 0) :
    n ρ = 0 ∧ ∃ r, records ρ.key = some r ∧ ρ.holds r = true := by
  have hρ : n ρ + 1 = (Reserves records ρ).toNat := by simpa using h ρ
  cases hreserves : Reserves records ρ with
  | false =>
    rw [hreserves] at hρ
    cases hρ
  | true =>
    rw [hreserves] at hρ
    exact ⟨Nat.succ.inj hρ, (Option.any_eq_true _ _).mp hreserves⟩

/-- A reservation ends, and its record with it. -/
theorem Owned.update_stop (h : Owned records fun ρ' ↦ n ρ' + if ρ' = ρ then 1 else 0)
    {o : Option IdempotencyRecord} (ho : ∀ r, o = some r → r.preparing = false) :
    Owned (update records ρ.key o) n := by
  obtain ⟨hzero, r, hr, hholds⟩ := h.record
  intro ρ'
  by_cases heq : ρ' = ρ
  · subst heq
    rw [hzero, Reserves, Function.update_self]
    cases o with
    | none => rfl
    | some r' => simp [Reservation.holds, ho r' rfl]
  · have hold : n ρ' = (Reserves records ρ').toNat := by simpa [heq] using h ρ'
    rw [hold, Reserves, Reserves]
    by_cases hk : ρ'.key = ρ.key
    · have hno : ρ'.holds r = false :=
        Bool.eq_false_iff.mpr fun hr' ↦ heq (Reservation.eq_of_holds hk hholds hr')
      rw [hk, hr, Function.update_self, Option.any_some, hno]
      cases o with
      | none => rfl
      | some r' => simp [Reservation.holds, ho r' rfl]
    · rw [Function.update_of_ne hk]

end Owned

end MoSidecar
