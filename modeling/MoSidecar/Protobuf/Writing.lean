import MoSidecar.Protobuf.Records

/-!
# Writing records

The shortest groups of a number, and messages written with them. A message of records reads back as
those records (`splits_encodeAll`); and whatever the lengths of its byte strings, no two lists of
records are written alike (`encodeAll_injective`), so that a writer that leaves out the fields of
default value still tells any two values apart (`Entry.eq_of_encodeAll_eq`).
-/

namespace Protobuf

/-! ## Numbers -/

/-- The shortest groups of a number. -/
def groups (n : ℕ) : List UInt8 :=
  if n < 128 then [n.toUInt8] else (n % 128 + 128).toUInt8 :: groups (n / 128)

theorem groups_of_lt {n : ℕ} (h : n < 128) : groups n = [n.toUInt8] := by rw [groups, if_pos h]

theorem groups_of_not_lt {n : ℕ} (h : ¬n < 128) :
    groups n = (n % 128 + 128).toUInt8 :: groups (n / 128) := by
  rw [groups, if_neg h]

theorem toNat_toUInt8_of_lt {n : ℕ} (h : n < 256) : n.toUInt8.toNat = n := by
  rw [Nat.toUInt8_eq, UInt8.toNat_ofNat']
  exact Nat.mod_eq_of_lt h

theorem varint_groups (n : ℕ) : Varint (groups n) n := by
  induction n using groups.induct with
  | case1 n h =>
    have hlast := Varint.last (b := n.toUInt8)
    rw [toNat_toUInt8_of_lt (by omega)] at hlast
    rw [groups_of_lt h]
    exact hlast h
  | case2 n h ih =>
    have hbyte : (n % 128 + 128).toUInt8.toNat = n % 128 + 128 := toNat_toUInt8_of_lt (by omega)
    have hmore := Varint.more (b := (n % 128 + 128).toUInt8) (by omega) ih
    rw [hbyte, Nat.add_sub_cancel, Nat.mod_add_div] at hmore
    rw [groups_of_not_lt h]
    exact hmore

theorem length_groups_le {n k : ℕ} (hk : 0 < k) (h : n < 2 ^ (7 * k)) : (groups n).length ≤ k := by
  induction n using groups.induct generalizing k with
  | case1 n hn =>
    rw [groups_of_lt hn]
    exact hk
  | case2 n hn ih =>
    obtain ⟨k, rfl⟩ : ∃ j, k = j + 1 := ⟨k - 1, by omega⟩
    have hpow : 2 ^ (7 * (k + 1)) = 128 * 2 ^ (7 * k) := by
      rw [Nat.mul_succ, Nat.pow_add, Nat.mul_comm]
    rw [hpow] at h
    have hk0 : 0 < k := by
      by_contra h0
      obtain rfl : k = 0 := by omega
      omega
    rw [groups_of_not_lt hn, List.length_cons]
    exact Nat.succ_le_succ (ih hk0 (by omega))

theorem word_groups (v : UInt64) : Word (groups v.toNat) v where
  varint := varint_groups v.toNat
  length_le := length_groups_le (by decide) (Nat.lt_trans v.toNat_lt (by decide))

/-! ## Records -/

namespace Payload

theorem wireType_le (p : Payload) : p.wireType ≤ 2 := by
  cases p with
  | varint v => exact Nat.zero_le 2
  | bytes b => exact Nat.le_refl 2

def encode : Payload → List UInt8
  | varint v => groups v.toNat
  | bytes b => groups b.length ++ b

theorem encodes_encode {p : Payload} (h : p.contents.length < 2 ^ 64) : p.Encodes p.encode := by
  cases p with
  | varint v => exact .varint (word_groups v)
  | bytes b =>
    have hlength : b.length.toUInt64.toNat = b.length := by
      rw [Nat.toUInt64_eq, UInt64.toNat_ofNat']
      exact Nat.mod_eq_of_lt h
    have hword := word_groups b.length.toUInt64
    rw [hlength] at hword
    exact .bytes hword hlength

/-- A field has one default value. -/
theorem eq_of_size_eq_zero {p q : Payload} (hwire : p.wireType = q.wireType) (hp : p.size = 0)
    (hq : q.size = 0) : p = q := by
  cases p with
  | varint v =>
    cases q with
    | varint w => exact congrArg varint (UInt64.toNat_inj.mp (hp.trans hq.symm))
    | bytes c => cases hwire
  | bytes b =>
    cases q with
    | varint w => cases hwire
    | bytes c =>
      rw [List.length_eq_zero_iff.mp hp, List.length_eq_zero_iff.mp hq]

theorem encode_append_inj {p q : Payload} (hwire : p.wireType = q.wireType)
    {rest rest' : List UInt8} (h : p.encode ++ rest = q.encode ++ rest') :
      p = q ∧ rest = rest' := by
  cases p with
  | varint v =>
    cases q with
    | varint w =>
      obtain ⟨-, hvalue, hrest⟩ := (varint_groups v.toNat).append_inj (varint_groups w.toNat) h
      exact ⟨congrArg varint (UInt64.toNat_inj.mp hvalue), hrest⟩
    | bytes b => cases hwire
  | bytes b =>
    cases q with
    | varint w => cases hwire
    | bytes c =>
      rw [encode, encode, List.append_assoc, List.append_assoc] at h
      obtain ⟨-, hlength, htail⟩ := (varint_groups b.length).append_inj (varint_groups c.length) h
      obtain ⟨rfl, hrest⟩ := List.append_inj htail hlength
      exact ⟨rfl, hrest⟩

end Payload

namespace Record

/-- The record of a field. -/
def of (k : ℕ) (p : Payload) : Record := ⟨(8 * k + p.wireType).toUInt64, p⟩

theorem toNat_tag_of {k : ℕ} (hk : k < 2 ^ 32) (p : Payload) :
    (of k p).tag.toNat = 8 * k + p.wireType := by
  have hwire := p.wireType_le
  rw [of, Nat.toUInt64_eq, UInt64.toNat_ofNat']
  omega

theorem field_of {k : ℕ} (hk : k < 2 ^ 32) (p : Payload) : (of k p).field = k := by
  have hwire := p.wireType_le
  rw [field, toNat_tag_of hk]
  omega

theorem wireType_of {k : ℕ} (hk : k < 2 ^ 32) (p : Payload) :
    (of k p).wireType = (of k p).payload.wireType := by
  have hwire := p.wireType_le
  rw [wireType, toNat_tag_of hk, show (of k p).payload = p from rfl]
  omega

def encode (r : Record) : List UInt8 := groups r.tag.toNat ++ r.payload.encode

theorem encodes_encode {r : Record} (hwire : r.wireType = r.payload.wireType)
    (h : r.payload.contents.length < 2 ^ 64) : r.Encodes r.encode where
  wireType_eq := hwire
  eq_append := ⟨_, _, word_groups r.tag, Payload.encodes_encode h, rfl⟩

theorem encode_ne_nil (r : Record) : r.encode ≠ [] :=
  List.append_ne_nil_of_left_ne_nil (varint_groups r.tag.toNat).ne_nil _

theorem encode_append_inj {r s : Record} (hr : r.wireType = r.payload.wireType)
    (hs : s.wireType = s.payload.wireType) {rest rest' : List UInt8}
    (h : r.encode ++ rest = s.encode ++ rest') : r = s ∧ rest = rest' := by
  rw [encode, encode, List.append_assoc, List.append_assoc] at h
  obtain ⟨-, htag, htail⟩ :=
    (varint_groups r.tag.toNat).append_inj (varint_groups s.tag.toNat) h
  have htag := UInt64.toNat_inj.mp htag
  have hwire : r.payload.wireType = s.payload.wireType := by
    rw [← hr, ← hs, wireType, wireType, htag]
  obtain ⟨hpayload, hrest⟩ := Payload.encode_append_inj hwire htail
  cases r
  cases s
  exact ⟨congrArg₂ Record.mk htag hpayload, hrest⟩

end Record

/-! ## Messages -/

/-- Records written one after another. -/
def encodeAll (rs : List Record) : List UInt8 := rs.flatMap Record.encode

theorem encodeAll_append (rs rs' : List Record) :
    encodeAll (rs ++ rs') = encodeAll rs ++ encodeAll rs' := List.flatMap_append

theorem length_encodeAll_perm {rs rs' : List Record} (h : rs.Perm rs') :
    (encodeAll rs).length = (encodeAll rs').length := (h.flatMap_right Record.encode).length_eq

theorem encodeAll_ne_nil {rs : List Record} (h : rs ≠ []) : encodeAll rs ≠ [] := by
  obtain ⟨r, rs, rfl⟩ := List.exists_cons_of_ne_nil h
  rw [encodeAll, List.flatMap_cons]
  exact List.append_ne_nil_of_left_ne_nil r.encode_ne_nil _

/-- Tags, numbers and lengths take at most ten bytes each. -/
theorem length_encodeAll_le {rs : List Record}
    (h : ∀ r ∈ rs, r.payload.contents.length < 2 ^ 64) :
    (encodeAll rs).length ≤ 20 * rs.length + (rs.map (·.payload.contents.length)).sum := by
  induction rs with
  | nil => exact Nat.le_refl 0
  | cons r rs ih =>
    rw [List.forall_mem_cons] at h
    have hrest := ih h.2
    have htag := (word_groups r.tag).length_le
    have hpayload : r.payload.encode.length ≤ 10 + r.payload.contents.length := by
      cases hp : r.payload with
      | varint v =>
        exact Nat.le_add_right_of_le (word_groups v).length_le
      | bytes b =>
        have hlength : b.length < 2 ^ (7 * 10) := by
          have hb := h.1
          rw [hp, Payload.contents] at hb
          omega
        rw [Payload.encode, Payload.contents, List.length_append]
        have := length_groups_le (by decide) hlength
        omega
    rw [encodeAll, List.flatMap_cons, List.length_append, ← encodeAll, Record.encode,
      List.length_append, List.length_cons, List.map_cons, List.sum_cons]
    omega

/-- What is written reads back. -/
theorem splits_encodeAll {rs : List Record}
    (h : ∀ r ∈ rs, r.wireType = r.payload.wireType ∧ r.payload.contents.length < 2 ^ 64) :
    Splits (encodeAll rs) rs := by
  induction rs with
  | nil => exact .nil
  | cons r rs ih =>
    rw [List.forall_mem_cons] at h
    rw [encodeAll, List.flatMap_cons]
    exact .cons (Record.encodes_encode h.1.1 h.1.2) (ih h.2)

theorem encodeAll_injective {rs rs' : List Record}
    (hrs : ∀ r ∈ rs, r.wireType = r.payload.wireType)
    (hrs' : ∀ r ∈ rs', r.wireType = r.payload.wireType) (h : encodeAll rs = encodeAll rs') :
    rs = rs' := by
  induction rs generalizing rs' with
  | nil =>
    cases rs' with
    | nil => rfl
    | cons r' rs' =>
      rw [encodeAll, encodeAll, List.flatMap_cons] at h
      exact absurd (List.append_eq_nil_iff.mp h.symm).1 r'.encode_ne_nil
  | cons r rs ih =>
    cases rs' with
    | nil =>
      rw [encodeAll, encodeAll, List.flatMap_cons] at h
      exact absurd (List.append_eq_nil_iff.mp h).1 r.encode_ne_nil
    | cons r' rs' =>
      rw [List.forall_mem_cons] at hrs hrs'
      rw [encodeAll, encodeAll, List.flatMap_cons, List.flatMap_cons] at h
      obtain ⟨rfl, htail⟩ := Record.encode_append_inj hrs.1 hrs'.1 h
      rw [ih hrs.2 hrs'.2 htail]

/-! ## Messages that leave default values out -/

/-- A field of a message: whether it is written at its default too, and its value. -/
structure Entry where
  field : ℕ
  always : Bool
  payload : Payload
  deriving DecidableEq

namespace Entry

/-- The record of the field, if it is written. -/
def records (e : Entry) : List Record :=
  if e.payload.size = 0 ∧ !e.always then [] else [Record.of e.field e.payload]

/-- The same field of two values. -/
structure Alike (e e' : Entry) : Prop where
  field_eq : e.field = e'.field
  always_eq : e.always = e'.always
  wireType_eq : e.payload.wireType = e'.payload.wireType

theorem field_of_mem_records {e : Entry} (h : e.field < 2 ^ 32) {r : Record}
    (hr : r ∈ e.records) : r.field = e.field := by
  rw [records] at hr
  split_ifs at hr
  · exact absurd hr List.not_mem_nil
  · obtain rfl := List.mem_singleton.mp hr
    exact Record.field_of h _

theorem field_of_mem_flatMap {es : List Entry} (h : ∀ e ∈ es, e.field < 2 ^ 32) {r : Record}
    (hr : r ∈ es.flatMap records) : r.field ∈ es.map field := by
  obtain ⟨e, he, hr⟩ := List.mem_flatMap.mp hr
  rw [field_of_mem_records (h e he) hr]
  exact List.mem_map_of_mem he

theorem map_field_eq {es es' : List Entry} (h : List.Forall₂ Alike es es') :
    es.map field = es'.map field := by
  induction h with
  | nil => rfl
  | cons he _ ih => rw [List.map_cons, List.map_cons, he.field_eq, ih]

theorem field_lt_of_alike {es es' : List Entry} (h : List.Forall₂ Alike es es')
    (hfields : ∀ e ∈ es, e.field < 2 ^ 32) : ∀ e ∈ es', e.field < 2 ^ 32 := by
  intro e he
  have hmem := List.mem_map_of_mem (f := field) he
  rw [← map_field_eq h] at hmem
  obtain ⟨e'', he'', hfield⟩ := List.mem_map.mp hmem
  exact hfield ▸ hfields e'' he''

/-- The records of a list of entries tell the values of the entries. -/
theorem eq_of_flatMap_records_eq {es es' : List Entry} (halike : List.Forall₂ Alike es es')
    (hfields : ∀ e ∈ es, e.field < 2 ^ 32) (hnodup : (es.map field).Nodup)
    (h : es.flatMap records = es'.flatMap records) : es = es' := by
  induction halike with
  | nil => rfl
  | @cons e e' es es' he hes ih =>
    rw [List.forall_mem_cons] at hfields
    rw [List.map_cons, List.nodup_cons] at hnodup
    rw [List.flatMap_cons, List.flatMap_cons] at h
    have hmap := map_field_eq hes
    have hfields' := field_lt_of_alike hes hfields.2
    have hsmall' : e'.field < 2 ^ 32 := he.field_eq ▸ hfields.1
    -- A record of the first field is not among the records of the others.
    have hfirst {r : Record} (hr : r.field = e.field) : r ∉ es.flatMap records := fun hmem ↦
      hnodup.1 (hr ▸ field_of_mem_flatMap hfields.2 hmem)
    have hfirst' {r : Record} (hr : r.field = e.field) : r ∉ es'.flatMap records := fun hmem ↦
      hnodup.1 (hmap ▸ hr ▸ field_of_mem_flatMap hfields' hmem)
    have hboth : e = e' ∧ es.flatMap records = es'.flatMap records := by
      obtain ⟨k, always, p⟩ := e
      obtain ⟨k', always', p'⟩ := e'
      obtain ⟨rfl, rfl, hwire⟩ := he
      simp only [records] at h
      split_ifs at h with hp hp' hp'
      · exact ⟨congrArg (Entry.mk k always) (Payload.eq_of_size_eq_zero hwire hp.1 hp'.1), h⟩
      · refine absurd ?_ (hfirst (Record.field_of hfields.1 p'))
        rw [List.nil_append] at h
        rw [h]
        exact List.mem_cons_self
      · refine absurd ?_ (hfirst' (Record.field_of hfields.1 p))
        rw [List.nil_append] at h
        rw [← h]
        exact List.mem_cons_self
      · obtain ⟨hrecord, hrest⟩ := List.cons.inj h
        obtain rfl : p = p' := congrArg Record.payload hrecord
        exact ⟨rfl, hrest⟩
    rw [hboth.1, ih hfields.2 hnodup.2 hboth.2]

theorem wireType_of_mem_records {es : List Entry} (h : ∀ e ∈ es, e.field < 2 ^ 32) :
    ∀ r ∈ es.flatMap records, r.wireType = r.payload.wireType := by
  intro r hr
  obtain ⟨e, he, hr⟩ := List.mem_flatMap.mp hr
  rw [records] at hr
  split_ifs at hr
  · exact absurd hr List.not_mem_nil
  · obtain rfl := List.mem_singleton.mp hr
    exact Record.wireType_of (h e he) _

/-- Two values written alike are alike in every field. -/
theorem eq_of_encodeAll_eq {es es' : List Entry} (halike : List.Forall₂ Alike es es')
    (hfields : ∀ e ∈ es, e.field < 2 ^ 32) (hnodup : (es.map field).Nodup)
    (h : encodeAll (es.flatMap records) = encodeAll (es'.flatMap records)) : es = es' := by
  have hfields' := field_lt_of_alike halike hfields
  refine eq_of_flatMap_records_eq halike hfields hnodup ?_
  exact encodeAll_injective (wireType_of_mem_records hfields) (wireType_of_mem_records hfields') h

/-- A writer tells values apart if their entries do. -/
theorem injective_of_entries {M : Type} {write : M → List UInt8} {entries : M → List Entry}
    (hwrite : ∀ m, write m = encodeAll ((entries m).flatMap records))
    (halike : ∀ m m', List.Forall₂ Alike (entries m) (entries m'))
    (hfields : ∀ m, ∀ e ∈ entries m, e.field < 2 ^ 32)
    (hnodup : ∀ m, ((entries m).map field).Nodup) (hentries : Function.Injective entries) :
    Function.Injective write := by
  intro m m' h
  rw [hwrite, hwrite] at h
  exact hentries (eq_of_encodeAll_eq (halike m m') (hfields m) (hnodup m) h)

end Entry

end Protobuf
