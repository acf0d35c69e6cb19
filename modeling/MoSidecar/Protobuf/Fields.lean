import MoSidecar.Protobuf.Writing

/-!
# Messages of numbered fields

A message whose fields are numbered from one and written once each. Its reader keeps the fields it
has met as the bits of a word and stores every payload in the value it builds. `Message.runs_iff`
says what a run of such a reader has seen: records of distinct fields, each of a payload the field
takes.

How a tag numbers a field is a parameter: a reader need not look at all the bits of the tag.
-/

namespace Protobuf

/-! ## Small numbers marked in a word -/

/-- The number `k`, from one on, is marked in the word. -/
def Marked (seen : UInt64) (k : ℕ) : Prop := seen.toNat.testBit (k - 1) = true

instance (seen : UInt64) (k : ℕ) : Decidable (Marked seen k) :=
  inferInstanceAs (Decidable (_ = true))

def markField (seen : UInt64) (k : ℕ) : UInt64 := seen ||| 1 <<< (k - 1).toUInt64

theorem not_marked_zero (k : ℕ) : ¬Marked 0 k := by simp [Marked]

theorem toNat_mask {k : ℕ} (hk : k ≤ 64) (hpos : 1 ≤ k) :
    ((1 : UInt64) <<< (k - 1).toUInt64).toNat = 2 ^ (k - 1) := by
  have hshift : (k - 1).toUInt64.toNat % 64 = k - 1 := by
    rw [Nat.toUInt64_eq, UInt64.toNat_ofNat']
    omega
  have hlt : 2 ^ (k - 1) < 2 ^ 64 := Nat.pow_lt_pow_right (by decide) (by omega)
  rw [UInt64.toNat_shiftLeft, hshift, UInt64.toNat_one, Nat.one_shiftLeft, Nat.mod_eq_of_lt hlt]

theorem marked_markField {seen : UInt64} {j k : ℕ} (hj : 1 ≤ j) (hk : k ≤ 64) (hpos : 1 ≤ k) :
    Marked (markField seen k) j ↔ Marked seen j ∨ j = k := by
  rw [Marked, Marked, markField, UInt64.toNat_or, toNat_mask hk hpos, Nat.testBit_or,
    Bool.or_eq_true, Nat.testBit_two_pow, decide_eq_true_iff]
  refine or_congr_right ?_
  omega

/-- The test a reader makes for a mark. -/
theorem and_mask_ne_zero (seen : UInt64) {k : ℕ} (hk : k ≤ 64) (hpos : 1 ≤ k) :
    seen &&& 1 <<< (k - 1).toUInt64 ≠ 0 ↔ Marked seen k := by
  rw [Marked, Ne, ← UInt64.toNat_inj, UInt64.toNat_and, toNat_mask hk hpos, UInt64.toNat_zero,
    Nat.and_two_pow]
  cases seen.toNat.testBit (k - 1) <;> simp

/-- A word with just the first numbers marked. -/
theorem eq_full_iff {seen : UInt64} {n : ℕ}
    (hseen : ∀ k, 1 ≤ k → Marked seen k → k ≤ n) :
    seen.toNat = 2 ^ n - 1 ↔ ∀ k, 1 ≤ k → k ≤ n → Marked seen k := by
  constructor
  · intro h k hpos hk
    rw [Marked, h, Nat.testBit_two_pow_sub_one, decide_eq_true_iff]
    omega
  · intro h
    refine Nat.eq_of_testBit_eq fun j ↦ ?_
    rw [Nat.testBit_two_pow_sub_one, Bool.eq_iff_iff, decide_eq_true_iff]
    constructor
    · intro hj
      have := hseen (j + 1) (by omega) hj
      omega
    · intro hj
      exact h (j + 1) (by omega) (by omega)

/-! ## The reader of a message -/

/-- What the reader of a message does with a record. -/
structure Message (M : Type) where
  key : Record → ℕ
  maximum : ℕ
  maximum_le : maximum ≤ 64
  Fits : ℕ → Payload → Prop
  store : ℕ → Payload → M → M

namespace Message

variable {M : Type} (T : Message M)

/-- The record is one of the message's, with a payload its field takes. -/
structure Takes (r : Record) : Prop where
  pos : 1 ≤ T.key r
  le : T.key r ≤ T.maximum
  fits : T.Fits (T.key r) r.payload

def step (r : Record) (s t : UInt64 × M) : Prop :=
  T.Takes r ∧ ¬Marked s.1 (T.key r) ∧
    t = (markField s.1 (T.key r), T.store (T.key r) r.payload s.2)

/-- The marks of the records' fields. -/
def marks (rs : List Record) (seen : UInt64) : UInt64 :=
  rs.foldl (fun seen r ↦ markField seen (T.key r)) seen

/-- The value the records leave. -/
def fill (rs : List Record) (m : M) : M :=
  rs.foldl (fun m r ↦ T.store (T.key r) r.payload m) m

theorem marked_marks {rs : List Record} (hrs : ∀ r ∈ rs, T.Takes r) (seen : UInt64) {j : ℕ}
    (hj : 1 ≤ j) : Marked (T.marks rs seen) j ↔ Marked seen j ∨ j ∈ rs.map T.key := by
  induction rs generalizing seen with
  | nil => simp [marks]
  | cons r rs ih =>
    have hr := hrs r List.mem_cons_self
    rw [marks, List.foldl_cons, ← marks, ih fun s hs ↦ hrs s (List.mem_cons_of_mem _ hs),
      marked_markField hj (Nat.le_trans hr.le T.maximum_le) hr.pos, List.map_cons, List.mem_cons,
      or_assoc]

theorem runs_iff {rs : List Record} {s t : UInt64 × M} :
    Runs T.step rs s t ↔ (∀ r ∈ rs, T.Takes r) ∧ (rs.map T.key).Nodup ∧
      (∀ r ∈ rs, ¬Marked s.1 (T.key r)) ∧ t = (T.marks rs s.1, T.fill rs s.2) := by
  induction rs generalizing s with
  | nil =>
    constructor
    · intro h
      cases h
      exact ⟨List.forall_mem_nil _, List.nodup_nil, List.forall_mem_nil _, rfl⟩
    · rintro ⟨-, -, -, rfl⟩
      exact .nil
  | cons r rs ih =>
    -- A field is unmarked after the first record exactly when it is another's and was unmarked.
    have hmark (hr : T.Takes r) (k : ℕ) (hk : 1 ≤ k) :
        ¬Marked (markField s.1 (T.key r)) k ↔ ¬Marked s.1 k ∧ k ≠ T.key r := by
      rw [marked_markField hk (Nat.le_trans hr.le T.maximum_le) hr.pos, not_or]
    rw [List.map_cons, List.nodup_cons, List.forall_mem_cons, List.forall_mem_cons]
    constructor
    · intro h
      cases h with
      | cons hstep hrest =>
        obtain ⟨hr, hnew, rfl⟩ := hstep
        obtain ⟨hrs, hnodup, hunmarked, rfl⟩ := ih.mp hrest
        refine ⟨⟨hr, hrs⟩, ⟨fun hmem ↦ ?_, hnodup⟩, ⟨hnew, fun r' hr' ↦ ?_⟩, rfl⟩
        · obtain ⟨r', hr', hkey⟩ := List.mem_map.mp hmem
          exact ((hmark hr _ (hrs r' hr').pos).mp (hunmarked r' hr')).2 hkey
        · exact ((hmark hr _ (hrs r' hr').pos).mp (hunmarked r' hr')).1
    · rintro ⟨⟨hr, hrs⟩, ⟨hfresh, hnodup⟩, ⟨hnew, hunmarked⟩, rfl⟩
      refine .cons ⟨hr, hnew, rfl⟩ (ih.mpr ⟨hrs, hnodup, fun r' hr' ↦ ?_, rfl⟩)
      refine (hmark hr _ (hrs r' hr').pos).mpr ⟨hunmarked r' hr', fun hkey ↦ hfresh ?_⟩
      exact List.mem_map.mpr ⟨r', hr', hkey⟩

/-- From no marks, the marks are all there exactly when every field has its record. -/
theorem marks_eq_full_iff {rs : List Record} (hrs : ∀ r ∈ rs, T.Takes r)
    (hnodup : (rs.map T.key).Nodup) :
    (T.marks rs 0).toNat = 2 ^ T.maximum - 1 ↔
      (rs.map T.key).Perm (List.range' 1 T.maximum) := by
  have hmarked {j : ℕ} (hj : 1 ≤ j) : Marked (T.marks rs 0) j ↔ j ∈ rs.map T.key := by
    rw [T.marked_marks hrs _ hj, or_iff_right (not_marked_zero j)]
  have hbounds {j : ℕ} (hj : j ∈ rs.map T.key) : 1 ≤ j ∧ j ≤ T.maximum := by
    obtain ⟨r, hr, rfl⟩ := List.mem_map.mp hj
    exact ⟨(hrs r hr).pos, (hrs r hr).le⟩
  rw [eq_full_iff fun k hk hmark ↦ (hbounds ((hmarked hk).mp hmark)).2,
    List.perm_ext_iff_of_nodup hnodup List.nodup_range']
  refine forall_congr' fun j ↦ ?_
  rw [List.mem_range'_1]
  constructor
  · intro h
    refine ⟨fun hj ↦ ⟨(hbounds hj).1, by have := (hbounds hj).2; omega⟩, fun hj ↦ ?_⟩
    exact (hmarked hj.1).mp (h hj.1 (by omega))
  · intro h hpos hle
    exact (hmarked hpos).mpr (h.mpr ⟨hpos, by omega⟩)

/-! ## What is stored -/

/-- A way to read the fields of a value back. -/
structure Lawful (field : ℕ → M → Payload) : Prop where
  field_store : ∀ {k p m}, T.Fits k p → 1 ≤ k → k ≤ T.maximum → field k (T.store k p m) = p
  field_store_of_ne : ∀ {j k p m}, j ≠ k → field j (T.store k p m) = field j m

variable {T} {field : ℕ → M → Payload}

theorem Lawful.field_fill_of_notMem (h : T.Lawful field) {rs : List Record} {m : M} {k : ℕ}
    (hk : k ∉ rs.map T.key) : field k (T.fill rs m) = field k m := by
  induction rs generalizing m with
  | nil => rfl
  | cons r rs ih =>
    rw [List.map_cons, List.mem_cons, not_or] at hk
    rw [fill, List.foldl_cons, ← fill, ih hk.2, h.field_store_of_ne hk.1]

/-- Records of some fields of `m`, each once, and of all in which it differs from `m₀`. -/
structure Renders (T : Message M) (field : ℕ → M → Payload) (m₀ m : M) (rs : List Record) :
    Prop where
  nodup : (rs.map T.key).Nodup
  takes : ∀ r ∈ rs, T.Takes r
  payload_eq : ∀ r ∈ rs, r.payload = field (T.key r) m
  eq_of_notMem : ∀ k, 1 ≤ k → k ≤ T.maximum → k ∉ rs.map T.key → field k m₀ = field k m

/-- Each field holds the payload of its record. -/
theorem Lawful.field_fill (h : T.Lawful field) {rs : List Record} (hrs : ∀ r ∈ rs, T.Takes r)
    (hnodup : (rs.map T.key).Nodup) {m : M} {r : Record} (hr : r ∈ rs) :
    field (T.key r) (T.fill rs m) = r.payload := by
  induction rs generalizing m with
  | nil => exact absurd hr List.not_mem_nil
  | cons s rs ih =>
    rw [List.map_cons, List.nodup_cons] at hnodup
    rw [fill, List.foldl_cons, ← fill]
    rcases List.mem_cons.mp hr with rfl | hr
    · have hs := hrs r List.mem_cons_self
      rw [h.field_fill_of_notMem hnodup.1, h.field_store hs.fits hs.pos hs.le]
    · exact ih (fun s hs ↦ hrs s (List.mem_cons_of_mem _ hs)) hnodup.2 hr

/-- How the records of the fields `ks` read. -/
structure Reads (T : Message M) (field : ℕ → M → Payload) (m : M) (ks : List ℕ) : Prop where
  key_of : ∀ k p, 1 ≤ k → k ≤ T.maximum → T.key (.of k p) = k
  maximum_lt : T.maximum < 2 ^ 32
  nodup : ks.Nodup
  bounds : ∀ k ∈ ks, 1 ≤ k ∧ k ≤ T.maximum
  fits : ∀ k ∈ ks, T.Fits k (field k m)
  length_lt : ∀ k ∈ ks, (field k m).contents.length < 2 ^ 64

theorem Reads.map_key {m : M} {ks : List ℕ} (h : T.Reads field m ks) :
    (ks.map fun k ↦ Record.of k (field k m)).map T.key = ks := by
  rw [List.map_map]
  exact (List.map_congr_left fun k hk ↦
    h.key_of k _ (h.bounds k hk).1 (h.bounds k hk).2).trans (List.map_id ks)

theorem Reads.renders {m₀ m : M} {ks : List ℕ} (h : T.Reads field m ks)
    (hdefault : ∀ k, 1 ≤ k → k ≤ T.maximum → k ∉ ks → field k m₀ = field k m) :
    T.Renders field m₀ m (ks.map fun k ↦ Record.of k (field k m)) := by
  have hkey {k : ℕ} (hk : k ∈ ks) : T.key (.of k (field k m)) = k :=
    h.key_of k _ (h.bounds k hk).1 (h.bounds k hk).2
  refine ⟨?_, fun r hr ↦ ?_, fun r hr ↦ ?_, ?_⟩
  · rw [h.map_key]
    exact h.nodup
  · obtain ⟨k, hk, rfl⟩ := List.mem_map.mp hr
    refine ⟨?_, ?_, ?_⟩
    · rw [hkey hk]
      exact (h.bounds k hk).1
    · rw [hkey hk]
      exact (h.bounds k hk).2
    · rw [hkey hk]
      exact h.fits k hk
  · obtain ⟨k, hk, rfl⟩ := List.mem_map.mp hr
    rw [hkey hk]
    rfl
  · rw [h.map_key]
    exact hdefault

theorem Reads.splits {m : M} {ks : List ℕ} (h : T.Reads field m ks) :
    Splits (encodeAll (ks.map fun k ↦ Record.of k (field k m)))
      (ks.map fun k ↦ Record.of k (field k m)) := by
  refine splits_encodeAll fun r hr ↦ ?_
  obtain ⟨k, hk, rfl⟩ := List.mem_map.mp hr
  refine ⟨Record.wireType_of ?_ _, h.length_lt k hk⟩
  have := (h.bounds k hk).2
  have := h.maximum_lt
  omega

/-- Records of all fields are those of the fields in some order. -/
theorem exists_perm_range {m : M} {n : ℕ} {rs : List Record}
    (hperm : rs.Perm ((List.range' 1 n).map fun k ↦ Record.of k (field k m))) :
    ∃ ks : List ℕ, ks.Perm (List.range' 1 n) ∧ rs = ks.map fun k ↦ Record.of k (field k m) := by
  have hcomp : Relation.Comp (· = List.map (fun k ↦ Record.of k (field k m)) ·) List.Perm rs
      (List.range' 1 n) := by
    rw [List.eq_map_comp_perm]
    exact hperm
  obtain ⟨ks, hrs, hks⟩ := hcomp
  exact ⟨ks, hks, hrs⟩

theorem mem_iff_of_perm {ks : List ℕ} (hperm : ks.Perm (List.range' 1 T.maximum)) {k : ℕ} :
    k ∈ ks ↔ 1 ≤ k ∧ k ≤ T.maximum := by
  rw [hperm.mem_iff, List.mem_range'_1, Nat.add_comm, Nat.lt_succ_iff]

theorem Reads.of_perm {m : M} {ks : List ℕ} (hperm : ks.Perm (List.range' 1 T.maximum))
    (hkey : ∀ k p, 1 ≤ k → k ≤ T.maximum → T.key (.of k p) = k)
    (hmaximum : T.maximum < 2 ^ 32)
    (hfits : ∀ k, 1 ≤ k → k ≤ T.maximum → T.Fits k (field k m))
    (hlength : ∀ k, 1 ≤ k → k ≤ T.maximum → (field k m).contents.length < 2 ^ 64) :
    T.Reads field m ks where
  key_of := hkey
  maximum_lt := hmaximum
  nodup := hperm.nodup_iff.mpr List.nodup_range'
  bounds k hk := (mem_iff_of_perm hperm).mp hk
  fits k hk := by
    obtain ⟨hpos, hle⟩ := (mem_iff_of_perm hperm).mp hk
    exact hfits k hpos hle
  length_lt k hk := by
    obtain ⟨hpos, hle⟩ := (mem_iff_of_perm hperm).mp hk
    exact hlength k hpos hle

theorem Reads.renders_of_perm {m : M} {ks : List ℕ} (h : T.Reads field m ks)
    (hperm : ks.Perm (List.range' 1 T.maximum)) (m₀ : M) :
    T.Renders field m₀ m (ks.map fun k ↦ Record.of k (field k m)) :=
  h.renders fun _ hpos hle hmem ↦ absurd ((mem_iff_of_perm hperm).mpr ⟨hpos, hle⟩) hmem

theorem encodeAll_ne_nil_of_perm {m : M} {ks : List ℕ}
    (hperm : ks.Perm (List.range' 1 T.maximum)) (hmaximum : T.maximum ≠ 0) :
    encodeAll (ks.map fun k ↦ Record.of k (field k m)) ≠ [] := by
  refine encodeAll_ne_nil fun hnil ↦ hmaximum ?_
  have hlength := hperm.length_eq
  rw [List.map_eq_nil_iff.mp hnil, List.length_range'] at hlength
  exact hlength.symm

/-- Such records, in whatever order, take `m₀` to `m`. -/
theorem Lawful.field_fill_of_renders (h : T.Lawful field) {m₀ m : M} {rs : List Record}
    (hrs : T.Renders field m₀ m rs) {k : ℕ} (hk : 1 ≤ k) (hle : k ≤ T.maximum) :
    field k (T.fill rs m₀) = field k m := by
  by_cases hmem : k ∈ rs.map T.key
  · obtain ⟨r, hr, rfl⟩ := List.mem_map.mp hmem
    rw [h.field_fill hrs.takes hrs.nodup hr, hrs.payload_eq r hr]
  · rw [h.field_fill_of_notMem hmem, hrs.eq_of_notMem k hk hle hmem]

end Message

end Protobuf
