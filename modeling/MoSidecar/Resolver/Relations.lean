import MoSidecar.Machine.Custody
import MoSidecar.Resolver.Resolution

/-!
# Files and views of resolved reads

A manifest file is in the hands of the call that makes it, then of the relation that is returned,
then of its destructor. A view is in the hands of a relation, and its name in those of the call that
has drawn it before. That nothing is used by two and nothing is left over is the invariant of
`Program.Custody`, once for files and once for views.

The names of files are chosen by `mkostemp`, so that no other file has the name. The names of views
are random, and a view replaces another one of its name: what is said of views holds as long as
`RAND_bytes` has not repeated itself.
-/

open Function (update)

namespace MoSidecar

namespace ReadWorld

variable {cfg : ReadConfig} {ι : Type*} {s s' : ReadWorld cfg} {f : ReadCall cfg} {k : ReadAnswer}
  {new : List (ReadCall cfg)}

/-! ## Sections -/

/-- The file that a call has, and what is in the file, as far as the call relies on it. -/
def fileOf? : ReadCall cfg → Option (Bytes × Option Bytes)
  | .writeManifest r path written => some (path, some (r.response.manifest.take written))
  | .closeManifest r path | .nameTae r path | .bindTae r path _ =>
    some (path, some r.response.manifest)
  | .dropView r => r.read.manifestPath?.map fun path ↦ (path, none)
  | .unlinkManifest path => some (path, none)
  | _ => none

/-- What a call does with a view. -/
inductive ViewUse where
  | binding
  | dropping
  deriving DecidableEq

/-- The view that a call has. -/
def viewOf? : ReadCall cfg → Option ((ℕ × Bytes) × ViewUse)
  | .bindTae r _ name => some ((r.conn, name), .binding)
  | .bindStream r name => some ((r.conn, name), .binding)
  | .dropView r => some ((r.conn, r.relationName), .dropping)
  | _ => none

/-- What a section does. -/
inductive Section (s : ReadWorld cfg) : ReadCall cfg → ReadWorld cfg → List (ReadCall cfg) → Prop
  /-- A call throws that has no file. -/
  | threw {f : ReadCall cfg} {what : ReadError ⊕ Thrown} (hfile : fileOf? f = none)
    (hview : viewOf? f = none) : Section s f (s.throws what) []
  | accepted {conn : ℕ} {request : TaeRead} {schema : Option Bytes} {r : Resolution cfg} :
    Section s (.resolveTae conn request schema) s [.openManifest r]
  | opened {r : Resolution cfg} {path : Bytes} (hfree : s.files path = none) :
    Section s (.openManifest r) (s.setFile path (some [])) [.writeManifest r path 0]
  | interrupted {r : Resolution cfg} {path : Bytes} {written : ℕ} :
    Section s (.writeManifest r path written) s [.writeManifest r path written]
  | wrote {r : Resolution cfg} {path : Bytes} {written count : ℕ} :
    Section s (.writeManifest r path written)
      (s.setFile path (some (((s.files path).getD []) ++
        (r.response.manifest.drop written).take count)))
      [.writeManifest r path (written + count)]
  | written {r : Resolution cfg} {path : Bytes} {written : ℕ}
    (hall : r.response.manifest.length ≤ written) :
    Section s (.writeManifest r path written) s [.closeManifest r path]
  /-- A call throws that has a file. -/
  | gaveUp {f : ReadCall cfg} {path : Bytes} {contents : Option Bytes}
    {what : ReadError ⊕ Thrown} (hfile : fileOf? f = some (path, contents))
    (hview : ∀ v, viewOf? f = some v → v.2 = .binding) :
    Section s f (s.throws what) [.unlinkManifest path]
  | closed {r : Resolution cfg} {path : Bytes} :
    Section s (.closeManifest r path) s [.nameTae r path]
  | namedTae {r : Resolution cfg} {path random : Bytes} (hlength : random.length = 16) :
    Section s (.nameTae r path) { s with drawn := random :: s.drawn }
      [.bindTae r path (randomRelationName .tae random)]
  | boundTae {r : Resolution cfg} {path name : Bytes} :
    Section s (.bindTae r path name) (s.relate (r.relation path name)) []
  | acceptedStream {conn : ℕ} {request : StreamRead} {schema : Option Bytes}
    {r : StreamResolution cfg} :
    Section s (.resolveStream conn request schema) s [.createInput r]
  | created {r : StreamResolution cfg} {inputs : StreamInputRegistry StreamInput}
    {constructed : Except Thrown StreamInput} {input : StreamInput}
    (hcreate : (s.inputs r.conn).create r.request.streamRef constructed = .ok (inputs, input)) :
    Section s (.createInput r) { s with inputs := update s.inputs r.conn inputs } [.nameStream r]
  | namedStream {r : StreamResolution cfg} {random : Bytes} (hlength : random.length = 16) :
    Section s (.nameStream r) { s with drawn := random :: s.drawn }
      [.bindStream r (randomRelationName .stream random)]
  | boundStream {r : StreamResolution cfg} {name : Bytes} :
    Section s (.bindStream r name) (s.relate (r.relation name)) []
  | unbound {r : StreamResolution cfg} {name : Bytes} {what : ReadError ⊕ Thrown} {error : String} :
    Section s (.bindStream r name)
      ((s.cancelInput r.conn r.request.streamRef error).throws what) []
  | dropped {r : ResolvedRelation cfg} :
    Section s (.dropView r) (s.query r.conn (dropStatement r.relationName))
      (r.read.manifestPath?.map .unlinkManifest).toList
  | leftView {r : ResolvedRelation cfg} :
    Section s (.dropView r) { s with leftViews := (r.conn, r.relationName) :: s.leftViews }
      (r.read.manifestPath?.map .unlinkManifest).toList
  | unlinked {path : Bytes} : Section s (.unlinkManifest path) (s.setFile path none) []
  | leftFile {path : Bytes} :
    Section s (.unlinkManifest path) { s with leftFiles := path :: s.leftFiles } []

/-- **Every section** is one of these. -/
theorem section_of_exec (h : s.exec f k = some (s', new)) : Section s f s' new := by
  cases f with
  | resolveTae conn request schema =>
    simp only [exec] at h
    split at h <;> cases h
    · exact .threw rfl rfl
    · exact .accepted
  | openManifest r =>
    simp only [exec] at h
    split at h
    · cases h
      exact .threw rfl rfl
    · split_ifs at h with hfree
      cases h
      exact .opened hfree.2.2
  | writeManifest r path written =>
    simp only [exec] at h
    split_ifs at h with hmore
    · split at h
      · cases h
        exact .interrupted
      · cases h
        exact .gaveUp rfl (fun _ hv ↦ by cases hv)
      · split_ifs at h
        cases h
        exact .wrote
    · cases h
      exact .written (Nat.le_of_not_lt hmore)
  | closeManifest r path =>
    simp only [exec] at h
    split_ifs at h <;> cases h
    · exact .closed
    · exact .gaveUp rfl (fun _ hv ↦ by cases hv)
  | nameTae r path =>
    simp only [exec] at h
    split at h
    · cases h
      exact .gaveUp rfl (fun _ hv ↦ by cases hv)
    · split_ifs at h with hlength
      cases h
      exact .namedTae hlength
  | bindTae r path name =>
    simp only [exec] at h
    split at h <;> cases h
    · exact .gaveUp rfl (fun _ hv ↦ by cases hv; rfl)
    · exact .boundTae
  | resolveStream conn request schema =>
    simp only [exec] at h
    split at h <;> cases h
    · exact .threw rfl rfl
    · exact .acceptedStream
  | createInput r =>
    simp only [exec] at h
    split at h
    · cases h
      exact .threw rfl rfl
    · next inputs input hcreate =>
      cases h
      exact .created hcreate
  | nameStream r =>
    simp only [exec] at h
    split at h
    · cases h
      exact .threw rfl rfl
    · split_ifs at h with hlength
      cases h
      exact .namedStream hlength
  | bindStream r name =>
    simp only [exec] at h
    split at h <;> cases h
    · exact .unbound
    · exact .boundStream
  | dropView r =>
    simp only [exec] at h
    split_ifs at h <;> cases h
    · exact .dropped
    · exact .leftView
  | unlinkManifest path =>
    simp only [exec] at h
    split_ifs at h <;> cases h
    · exact .unlinked
    · exact .leftFile

/-! ## Files -/

/-- The manifest that a relation was made of: the one that the request is signed for. -/
def SignedManifest (r : ResolvedRelation cfg) (manifest : Bytes) : Prop :=
  ∀ request path, r.read = .tae request path → cfg.sha256Bytes manifest = request.manifestSha256

/-- The custody of files. -/
def fileCustody (cfg : ReadConfig) :
    Program.Custody (ReadWorld cfg) (ReadCall cfg) Bytes (Option Bytes) (ResolvedRelation cfg) where
  holds := fileOf?
  owners := relations
  has r := r.read.manifestPath?
  Free s path := s.files path = none
  Held s path expected := ∃ contents, s.files path = some contents ∧ ∀ x ∈ expected, contents = x
  Owned s path r := ∃ manifest, s.files path = some manifest ∧ SignedManifest r manifest
  Lost s path := path ∈ s.leftFiles ∧ s.files path ≠ none

/-- What leaves the file of a path alone, and the relations. -/
theorem alike_file {path : Bytes} (hfile : s'.files path = s.files path)
    (hleft : s.leftFiles ⊆ s'.leftFiles) (howners : (fileCustody cfg).ownersOf s' path =
      (fileCustody cfg).ownersOf s path) : (fileCustody cfg).Alike s s' path where
  free h := hfile.trans h
  held _ h := h.imp fun _ hx ↦ ⟨hfile.trans hx.1, hx.2⟩
  owned _ h := h.imp fun _ hx ↦ ⟨hfile.trans hx.1, hx.2⟩
  lost h := ⟨hleft h.1, hfile.trans_ne h.2⟩
  owners := howners

theorem alike_file_of_eq (hfiles : s'.files = s.files) (hleft : s'.leftFiles = s.leftFiles)
    (hrelations : s'.relations = s.relations) (path : Bytes) :
    (fileCustody cfg).Alike s s' path :=
  alike_file (congrFun hfiles path) (by rw [hleft]; exact List.Subset.refl _)
    (congrArg (List.filter _) hrelations)

theorem alike_setFile {path path' : Bytes} {contents : Option Bytes} (h : path' ≠ path) :
    (fileCustody cfg).Alike s (s.setFile path contents) path' :=
  alike_file (Function.update_of_ne h ..) (List.Subset.refl _) rfl

/-- A file that a call has, and goes on with. -/
theorem files_kept {path : Bytes} {expected expected' : Option Bytes} {g : ReadCall cfg}
    {n : Bytes × Option Bytes → ℕ}
    (h : (fileCustody cfg).Kept s fun b ↦ n b + (fileCustody cfg).weight b f)
    (hf : fileOf? f = some (path, expected)) (hg : fileOf? g = some (path, expected'))
    (hothers : ∀ path', path' ≠ path → (fileCustody cfg).Alike s s' path')
    (howners : (fileCustody cfg).ownersOf s' path = (fileCustody cfg).ownersOf s path)
    (hfile : ∀ contents, s.files path = some contents → (∀ x ∈ expected, contents = x) →
      ∃ contents', s'.files path = some contents' ∧ ∀ x ∈ expected', contents' = x) :
    (fileCustody cfg).Kept s' fun b ↦ n b + ([g].map ((fileCustody cfg).weight b)).sum := by
  obtain ⟨⟨contents, hcontents, hexpected⟩, hnone, hempty⟩ := h.of_held hf
  refine h.exec (r := path) (fun b hb ↦ ?_) (List.forall_mem_singleton.mpr fun b hb ↦ ?_) hothers
    (Program.Custody.Place.of_one hnone hg (hfile contents hcontents hexpected)
      (howners.trans hempty))
  · rw [← Option.some.inj (hf.symm.trans hb)]
  · rw [← Option.some.inj (hg.symm.trans hb)]

/-- A file that a call gives up. -/
theorem files_done {path : Bytes} {expected : Option Bytes} {n : Bytes × Option Bytes → ℕ}
    (h : (fileCustody cfg).Kept s fun b ↦ n b + (fileCustody cfg).weight b f)
    (hf : fileOf? f = some (path, expected))
    (hothers : ∀ path', path' ≠ path → (fileCustody cfg).Alike s s' path')
    (hplace : (∃ contents, s.files path = some contents ∧ ∀ x ∈ expected, contents = x) →
      (∀ k, n (path, k) = 0) → (fileCustody cfg).ownersOf s path = [] →
        (fileCustody cfg).Place s' path fun k ↦ n (path, k)) :
    (fileCustody cfg).Kept s' fun b ↦ n b + (([] : List (ReadCall cfg)).map
      ((fileCustody cfg).weight b)).sum := by
  obtain ⟨hheld, hnone, hempty⟩ := h.of_held hf
  refine h.exec (r := path) (fun b hb ↦ ?_) (List.forall_mem_nil _) hothers
    (hplace hheld hnone hempty)
  rw [← Option.some.inj (hf.symm.trans hb)]

theorem query_cases (s : ReadWorld cfg) (conn : ℕ) (statement : Bytes) :
    s.query conn statement = s ∨ ∃ name, droppedView statement = some name ∧
      s.query conn statement = s.setView conn name none := by
  rw [query]
  split
  · next name hname => exact .inr ⟨name, hname, rfl⟩
  · exact .inl rfl

theorem alike_query (conn : ℕ) (statement path : Bytes) :
    (fileCustody cfg).Alike s (s.query conn statement) path := by
  rcases query_cases s conn statement with h | ⟨name, -, h⟩ <;> rw [h]
  · exact .refl s path
  · refine alike_file_of_eq ?_ ?_ ?_ path <;> rfl

/-- A destructor keeps the file until it unlinks it. -/
theorem files_of_dropping {r : ResolvedRelation cfg} {n : Bytes × Option Bytes → ℕ}
    (h : (fileCustody cfg).Kept s fun b ↦ n b + (fileCustody cfg).weight b (.dropView r))
    (hsame : ∀ path, (fileCustody cfg).Alike s s' path) :
    (fileCustody cfg).Kept s' fun b ↦ n b +
      ((r.read.manifestPath?.map ReadCall.unlinkManifest).toList.map
        ((fileCustody cfg).weight b)).sum := by
  cases hpath : r.read.manifestPath? with
  | none =>
    have hf : fileOf? (.dropView r) = none := congrArg (Option.map _) hpath
    exact h.exec_none hf (List.forall_mem_nil _) hsame
  | some path =>
    have hf : fileOf? (.dropView r) = some (path, none) := congrArg (Option.map _) hpath
    have hfile : ∀ contents, s.files path = some contents → ∃ contents', s'.files path
        = some contents' ∧ ∀ x ∈ (none : Option Bytes), contents' = x := by
      intro contents hcontents
      exact (hsame path).held none ⟨contents, hcontents, fun _ hx ↦ by cases hx⟩
    exact files_kept h hf rfl (fun path' _ ↦ hsame path') (hsame path).owners
      fun contents hcontents _ ↦ hfile contents hcontents

/-- A new file was in nobody's hands. -/
theorem files_of_opening {r : Resolution cfg} {path : Bytes} {n : Bytes × Option Bytes → ℕ}
    (h : (fileCustody cfg).Kept s fun b ↦ n b + (fileCustody cfg).weight b (.openManifest r))
    (hfree : s.files path = none) :
    (fileCustody cfg).Kept (s.setFile path (some [])) fun b ↦
      n b + ([ReadCall.writeManifest r path 0].map ((fileCustody cfg).weight b)).sum := by
  have hnone : ∀ k, n (path, k) + (fileCustody cfg).weight (path, k) (.openManifest r)
      = n (path, k) := fun k ↦ by
    rw [Program.Custody.weight_of_none rfl, Nat.add_zero]
  have hplace : (∀ k, n (path, k) = 0) ∧ (fileCustody cfg).ownersOf s path = [] := by
    cases h path with
    | free _ hn howners => exact ⟨fun k ↦ (hnone k).symm.trans (hn k), howners⟩
    | held _ hheld =>
      obtain ⟨contents, hcontents, -⟩ := hheld
      cases hfree.symm.trans hcontents
    | owned _ howned =>
      obtain ⟨manifest, hmanifest, -⟩ := howned
      cases hfree.symm.trans hmanifest
    | lost hlost => exact absurd hfree hlost.2
  refine h.exec (r := path) (fun b hb ↦ by cases hb)
    (List.forall_mem_singleton.mpr fun b hb ↦ ?_) (fun path' hne ↦ alike_setFile hne)
    (Program.Custody.Place.of_one (k := some []) hplace.1 rfl
      ⟨[], Function.update_self .., fun x hx ↦ Option.some.inj hx⟩ hplace.2)
  rw [← Option.some.inj hb]

/-- **Files are in one place each.** -/
theorem files_of_section {n : Bytes × Option Bytes → ℕ}
    (h : (fileCustody cfg).Kept s fun b ↦ n b + (fileCustody cfg).weight b f)
    (hsection : Section s f s' new) :
    (fileCustody cfg).Kept s' fun b ↦ n b + (new.map ((fileCustody cfg).weight b)).sum := by
  have hsame : s'.files = s.files → s'.leftFiles = s.leftFiles → s'.relations = s.relations →
      ∀ path, (fileCustody cfg).Alike s s' path := alike_file_of_eq
  have hnone : fileOf? f = none → (∀ g ∈ new, fileOf? g = none) →
      (∀ path, (fileCustody cfg).Alike s s' path) →
      (fileCustody cfg).Kept s' fun b ↦ n b + (new.map ((fileCustody cfg).weight b)).sum :=
    h.exec_none
  cases hsection with
  | threw hfile => exact hnone hfile (List.forall_mem_nil _) (hsame rfl rfl rfl)
  | accepted | acceptedStream | created | namedStream =>
    exact hnone rfl (List.forall_mem_singleton.mpr rfl) (hsame rfl rfl rfl)
  | unbound => exact hnone rfl (List.forall_mem_nil _) (hsame rfl rfl rfl)
  | opened hfree => exact files_of_opening h hfree
  | interrupted =>
    exact files_kept h rfl rfl (fun path' _ ↦ .refl s path') rfl fun x hx hall ↦ ⟨x, hx, hall⟩
  | @wrote r path written count =>
    refine files_kept h rfl rfl (fun path' hne ↦ alike_setFile hne) rfl fun x hx hall ↦
      ⟨_, Function.update_self .., ?_⟩
    rintro _ ⟨⟩
    rw [hx, Option.getD_some, hall _ rfl, ← List.take_add]
  | @written r path written hall =>
    refine files_kept h rfl rfl (fun path' _ ↦ .refl s path') rfl fun x hx hexp ↦ ⟨x, hx, ?_⟩
    rintro _ ⟨⟩
    rw [hexp _ rfl, List.take_of_length_le hall]
  | gaveUp hfile =>
    exact files_kept h hfile rfl (fun path' _ ↦ hsame rfl rfl rfl path') rfl
      fun x hx _ ↦ ⟨x, hx, fun _ hy ↦ by cases hy⟩
  | closed =>
    exact files_kept h rfl rfl (fun path' _ ↦ .refl s path') rfl fun x hx hall ↦ ⟨x, hx, hall⟩
  | namedTae =>
    exact files_kept h rfl rfl (fun path' _ ↦ hsame rfl rfl rfl path') rfl
      fun x hx hall ↦ ⟨x, hx, hall⟩
  | @boundTae r path name =>
    have hrelations : (fileCustody cfg).owners (s.relate (r.relation path name))
        = r.relation path name :: (fileCustody cfg).owners s := rfl
    have howners := Program.Custody.ownersOf_cons hrelations
    refine files_done h rfl (fun path' hne ↦ alike_file rfl (List.Subset.refl _) ?_)
      fun ⟨x, hx, hall⟩ hn hempty ↦ .owned (r.relation path name) ⟨x, hx, ?_⟩ hn ?_
    · exact (howners path').trans (if_neg fun heq ↦ hne (Option.some.inj heq).symm)
    · rintro request path' ⟨⟩
      rw [hall _ rfl]
      exact r.manifest_digest
    · exact (howners path).trans ((if_pos rfl).trans (by rw [hempty]))
  | @boundStream r name =>
    refine hnone rfl (List.forall_mem_nil _) fun path ↦ alike_file rfl (List.Subset.refl _) ?_
    have hrelations : (fileCustody cfg).owners (s.relate (r.relation name))
        = r.relation name :: (fileCustody cfg).owners s := rfl
    exact (Program.Custody.ownersOf_cons hrelations path).trans
      (if_neg fun heq : none = some path ↦ by cases heq)
  | dropped => exact files_of_dropping h (alike_query _ _)
  | leftView => exact files_of_dropping h (hsame rfl rfl rfl)
  | unlinked =>
    exact files_done h rfl (fun path' hne ↦ alike_setFile hne) fun _ hn hempty ↦
      .free (Function.update_self ..) hn hempty
  | leftFile =>
    refine files_done h rfl (fun path' _ ↦ alike_file rfl (List.subset_cons_self _ _) rfl)
      fun ⟨x, hx, _⟩ hn hempty ↦ .lost ⟨List.mem_cons_self, ?_⟩ hn hempty
    exact fun hnone ↦ by cases hnone.symm.trans hx

theorem files_of_call {n : Bytes × Option Bytes → ℕ} (h : (fileCustody cfg).Kept s n)
    (hcall : s.call f = some s') :
    (fileCustody cfg).Kept s' fun b ↦ n b + (fileCustody cfg).weight b f := by
  cases f with
  | resolveTae | resolveStream =>
    cases hcall
    exact h.call_none rfl (.refl s)
  | dropView r =>
    simp only [call] at hcall
    split_ifs at hcall with hr
    cases hcall
    have hrelations : (fileCustody cfg).owners { s with relations := s.relations.erase r }
        = ((fileCustody cfg).owners s).erase r := rfl
    have hothers : ∀ path, r.read.manifestPath? ≠ some path →
        (fileCustody cfg).Alike s { s with relations := s.relations.erase r } path :=
      fun path hne ↦ alike_file rfl (List.Subset.refl _)
        (Program.Custody.ownersOf_erase_of_ne hrelations hne)
    cases hpath : r.read.manifestPath? with
    | none =>
      refine h.call_none (congrArg (Option.map _) hpath) fun path ↦ hothers path fun heq ↦ ?_
      cases hpath.symm.trans heq
    | some path =>
      obtain ⟨⟨manifest, hmanifest, -⟩, hnone, hone⟩ := h.of_owner hr hpath
      refine h.call (k := none) (congrArg (Option.map _) hpath) (fun path' hne ↦ hothers path' ?_)
        hnone ⟨manifest, hmanifest, fun _ hx ↦ by cases hx⟩ ?_
      · rw [hpath]
        exact fun heq ↦ hne (Option.some.inj heq).symm
      · rw [Program.Custody.ownersOf_erase hrelations, hone, List.erase_cons_head]
  | _ => cases hcall

theorem files_ledger (cfg : ReadConfig) (ι : Type*) :
    Program.Ledger (program cfg ι) (fileCustody cfg).weight (fileCustody cfg).Kept
      fun _ _ _ ↦ True where
  call h hcall := ⟨files_of_call h hcall, trivial, fun _ _ ↦ id⟩
  exec h _ hexec :=
    ⟨files_of_section h (section_of_exec hexec), fun _ _ ↦ trivial, fun _ _ ↦ id⟩
  ambient {_ a} _ _ := a.elim

/-! ## Views -/

/-- The name of a view is one that has been drawn. -/
def Drawn (s : ReadWorld cfg) (v : ℕ × Bytes) : Prop :=
  ∃ kind, ∃ random ∈ s.drawn, v.2 = randomRelationName kind random

theorem Drawn.quote_not_mem {v : ℕ × Bytes} (h : s.Drawn v) : quote ∉ v.2 := by
  obtain ⟨kind, random, -, hname⟩ := h
  rw [hname]
  exact quote_not_mem_randomRelationName kind random

theorem Drawn.mono {v : ℕ × Bytes} (h : s.Drawn v) (hdrawn : s.drawn ⊆ s'.drawn) : s'.Drawn v :=
  h.imp fun _ ↦ fun ⟨random, hrandom, hname⟩ ↦ ⟨random, hdrawn hrandom, hname⟩

/-- The custody of views. -/
def viewCustody (cfg : ReadConfig) :
    Program.Custody (ReadWorld cfg) (ReadCall cfg) (ℕ × Bytes) ViewUse (ResolvedRelation cfg) where
  holds := viewOf?
  owners := relations
  has r := some (r.conn, r.relationName)
  Free s v := s.views v.1 v.2 = none
  Held s v use := s.Drawn v ∧ (use = .binding → s.views v.1 v.2 = none)
  Owned s v r := s.Drawn v ∧ s.views v.1 v.2 = some r.source
  Lost s v := s.Drawn v ∧ v ∈ s.leftViews

theorem alike_view {v : ℕ × Bytes} (hview : s'.views v.1 v.2 = s.views v.1 v.2)
    (hdrawn : s.drawn ⊆ s'.drawn) (hleft : s.leftViews ⊆ s'.leftViews)
    (howners : (viewCustody cfg).ownersOf s' v = (viewCustody cfg).ownersOf s v) :
    (viewCustody cfg).Alike s s' v where
  free h := hview.trans h
  held _ h := ⟨h.1.mono hdrawn, fun huse ↦ hview.trans (h.2 huse)⟩
  owned _ h := ⟨h.1.mono hdrawn, hview.trans h.2⟩
  lost h := ⟨h.1.mono hdrawn, hleft h.2⟩
  owners := howners

theorem alike_view_of_eq (hviews : s'.views = s.views) (hdrawn : s.drawn ⊆ s'.drawn)
    (hleft : s'.leftViews = s.leftViews) (hrelations : s'.relations = s.relations) (v : ℕ × Bytes) :
    (viewCustody cfg).Alike s s' v :=
  alike_view (by rw [hviews]) hdrawn (by rw [hleft]; exact List.Subset.refl _)
    (congrArg (List.filter _) hrelations)

theorem views_setView_self (s : ReadWorld cfg) (conn : ℕ) (name : Bytes)
    (source : Option ReadSource) : (s.setView conn name source).views conn name = source := by
  change update s.views conn _ conn name = source
  rw [Function.update_self, Function.update_self]

theorem views_setView_of_ne {v : ℕ × Bytes} {conn : ℕ} {name : Bytes} (h : v ≠ (conn, name))
    (source : Option ReadSource) :
    (s.setView conn name source).views v.1 v.2 = s.views v.1 v.2 := by
  change update s.views conn _ v.1 v.2 = _
  by_cases hconn : v.1 = conn
  · have hname : v.2 ≠ name := fun hname ↦ h (Prod.ext hconn hname)
    rw [hconn, Function.update_self, Function.update_of_ne hname]
  · rw [Function.update_of_ne hconn]

/-- A view that a call gives up. -/
theorem views_done {v : ℕ × Bytes} {use : ViewUse} {n : (ℕ × Bytes) × ViewUse → ℕ}
    (h : (viewCustody cfg).Kept s fun b ↦ n b + (viewCustody cfg).weight b f)
    (hf : viewOf? f = some (v, use)) (hnew : ∀ g ∈ new, viewOf? g = none)
    (hothers : ∀ v', v' ≠ v → (viewCustody cfg).Alike s s' v')
    (hplace : s.Drawn v → (use = .binding → s.views v.1 v.2 = none) → (∀ k, n (v, k) = 0) →
      (viewCustody cfg).ownersOf s v = [] →
        (viewCustody cfg).Place s' v fun k ↦ n (v, k)) :
    (viewCustody cfg).Kept s' fun b ↦ n b + (new.map ((viewCustody cfg).weight b)).sum := by
  obtain ⟨⟨hdrawn, hbinding⟩, hnone, hempty⟩ := h.of_held hf
  refine h.exec (r := v) (fun b hb ↦ ?_) (fun g hg b hb ↦ ?_) hothers ?_
  · rw [← Option.some.inj (hf.symm.trans hb)]
  · cases (hnew g hg).symm.trans hb
  · have hzero := Program.Custody.sum_weight_of_none (C := viewCustody cfg) hnew
    simpa only [hzero, Nat.add_zero] using hplace hdrawn hbinding hnone hempty

/-- A name that is drawn is in nobody's hands, if it was not drawn before. -/
theorem views_of_naming {kind : ReadKind} {conn : ℕ} {random : Bytes} {g : ReadCall cfg}
    {n : (ℕ × Bytes) × ViewUse → ℕ} (hlengths : ∀ drawn ∈ s.drawn, drawn.length = 16)
    (h : (viewCustody cfg).Kept s fun b ↦ n b + (viewCustody cfg).weight b f)
    (hf : viewOf? f = none) (hlength : random.length = 16) (hfresh : random ∉ s.drawn)
    (hg : viewOf? g = some ((conn, randomRelationName kind random), .binding)) :
    (viewCustody cfg).Kept { s with drawn := random :: s.drawn } fun b ↦
      n b + ([g].map ((viewCustody cfg).weight b)).sum := by
  have hdrawn : ∀ v : ℕ × Bytes, v.2 = randomRelationName kind random → ¬s.Drawn v := by
    rintro v hv ⟨kind', random', hrandom, hname⟩
    have hlengths' : random.length = random'.length := hlength.trans (hlengths random' hrandom).symm
    obtain ⟨-, rfl⟩ := randomRelationName_inj hlengths' (hv.symm.trans hname)
    exact hfresh hrandom
  have hno : ¬s.Drawn (conn, randomRelationName kind random) := hdrawn _ rfl
  have hnone : ∀ k, n ((conn, randomRelationName kind random), k) +
      (viewCustody cfg).weight ((conn, randomRelationName kind random), k) f
        = n ((conn, randomRelationName kind random), k) := fun k ↦ by
    rw [Program.Custody.weight_of_none hf, Nat.add_zero]
  have hsame : ∀ v, (viewCustody cfg).Alike s { s with drawn := random :: s.drawn } v :=
    alike_view_of_eq rfl (List.subset_cons_self _ _) rfl rfl
  have hplace : s.views conn (randomRelationName kind random) = none ∧
      (∀ k, n ((conn, randomRelationName kind random), k) = 0) ∧
        (viewCustody cfg).ownersOf s (conn, randomRelationName kind random) = [] := by
    cases h (conn, randomRelationName kind random) with
    | free hfree hn howners => exact ⟨hfree, fun k ↦ (hnone k).symm.trans (hn k), howners⟩
    | held _ hheld => exact absurd hheld.1 hno
    | owned _ howned => exact absurd howned.1 hno
    | lost hlost => exact absurd hlost.1 hno
  refine h.exec (r := (conn, randomRelationName kind random))
    (fun b hb ↦ by cases hf.symm.trans hb) (List.forall_mem_singleton.mpr fun b hb ↦ ?_)
    (fun v _ ↦ hsame v) (Program.Custody.Place.of_one hplace.2.1 hg
      ⟨⟨kind, random, List.mem_cons_self, rfl⟩, fun _ ↦ hplace.1⟩ hplace.2.2)
  rw [← Option.some.inj (hg.symm.trans hb)]

/-- A relation is returned with its view. -/
theorem views_of_binding {r : ResolvedRelation cfg} {n : (ℕ × Bytes) × ViewUse → ℕ}
    (h : (viewCustody cfg).Kept s fun b ↦ n b + (viewCustody cfg).weight b f)
    (hf : viewOf? f = some ((r.conn, r.relationName), .binding)) :
    (viewCustody cfg).Kept (s.relate r) fun b ↦
      n b + (([] : List (ReadCall cfg)).map ((viewCustody cfg).weight b)).sum := by
  have hrelations : (viewCustody cfg).owners (s.relate r) = r :: (viewCustody cfg).owners s := rfl
  have howners := Program.Custody.ownersOf_cons hrelations
  refine views_done h hf (List.forall_mem_nil _) (fun v hne ↦ ?_)
    fun hdrawn _ hn hempty ↦ .owned r ⟨hdrawn, views_setView_self ..⟩ hn ?_
  · exact alike_view (views_setView_of_ne hne _) (List.Subset.refl _) (List.Subset.refl _)
      ((howners v).trans (if_neg fun heq ↦ hne (Option.some.inj heq).symm))
  · exact (howners _).trans ((if_pos rfl).trans (by rw [hempty]))

/-- **Views are in one place each.** -/
theorem views_of_section {n : (ℕ × Bytes) × ViewUse → ℕ}
    (hlengths : ∀ random ∈ s.drawn, random.length = 16) (hnodup : s'.drawn.Nodup)
    (h : (viewCustody cfg).Kept s fun b ↦ n b + (viewCustody cfg).weight b f)
    (hsection : Section s f s' new) :
    (viewCustody cfg).Kept s' fun b ↦ n b + (new.map ((viewCustody cfg).weight b)).sum := by
  have hsame : s'.views = s.views → s'.drawn = s.drawn → s'.leftViews = s.leftViews →
      s'.relations = s.relations → ∀ v, (viewCustody cfg).Alike s s' v :=
    fun hviews hdrawn ↦ alike_view_of_eq hviews (by rw [hdrawn]; exact List.Subset.refl _)
  have hnone : viewOf? f = none → (∀ g ∈ new, viewOf? g = none) →
      (∀ v, (viewCustody cfg).Alike s s' v) →
      (viewCustody cfg).Kept s' fun b ↦ n b + (new.map ((viewCustody cfg).weight b)).sum :=
    h.exec_none
  have hunlink : ∀ (r : ResolvedRelation cfg) (g : ReadCall cfg),
      g ∈ (r.read.manifestPath?.map ReadCall.unlinkManifest).toList → viewOf? g = none := by
    intro r g hg
    obtain ⟨path, -, rfl⟩ := Option.map_eq_some_iff.mp (Option.mem_toList.mp hg)
    rfl
  cases hsection with
  | threw hfile hview => exact hnone hview (List.forall_mem_nil _) (hsame rfl rfl rfl rfl)
  | accepted | acceptedStream | created | opened | interrupted | wrote | written | closed =>
    exact hnone rfl (List.forall_mem_singleton.mpr rfl) (hsame rfl rfl rfl rfl)
  | gaveUp hfile hview =>
    cases hv : viewOf? f with
    | none => exact hnone hv (List.forall_mem_singleton.mpr rfl) (hsame rfl rfl rfl rfl)
    | some v =>
      exact views_done h hv (List.forall_mem_singleton.mpr rfl)
        (fun v' _ ↦ hsame rfl rfl rfl rfl v')
        fun _ hbinding hn hempty ↦ .free (hbinding (hview v hv)) hn hempty
  | namedTae hlength | namedStream hlength =>
    exact views_of_naming hlengths h rfl hlength (List.nodup_cons.mp hnodup).1 rfl
  | @boundTae r path name => exact views_of_binding (r := r.relation path name) h rfl
  | @boundStream r name => exact views_of_binding (r := r.relation name) h rfl
  | unbound =>
    exact views_done h rfl (List.forall_mem_nil _) (fun v' _ ↦ hsame rfl rfl rfl rfl v')
      fun _ hbinding hn hempty ↦ .free (hbinding rfl) hn hempty
  | @dropped r =>
    obtain ⟨⟨hdrawn, -⟩, -, -⟩ :=
      h.of_held (r := (r.conn, r.relationName)) (k := ViewUse.dropping) rfl
    -- the statement names the view that is the relation's own
    have hquery : s.query r.conn (dropStatement r.relationName)
        = s.setView r.conn r.relationName none := by
      rw [query, droppedView_dropStatement hdrawn.quote_not_mem]
    rw [hquery]
    refine views_done h rfl (hunlink r) (fun v' hne ↦ ?_) fun _ _ hn hempty ↦
      .free (views_setView_self ..) hn hempty
    exact alike_view (views_setView_of_ne hne _) (List.Subset.refl _) (List.Subset.refl _) rfl
  | @leftView r =>
    refine views_done h rfl (hunlink r) (fun v' _ ↦ ?_) fun hdrawn _ hn hempty ↦
      .lost ⟨hdrawn, List.mem_cons_self⟩ hn hempty
    exact alike_view rfl (List.Subset.refl _) (List.subset_cons_self _ _) rfl
  | unlinked | leftFile => exact hnone rfl (List.forall_mem_nil _) (hsame rfl rfl rfl rfl)

theorem views_of_call {n : (ℕ × Bytes) × ViewUse → ℕ} (h : (viewCustody cfg).Kept s n)
    (hcall : s.call f = some s') :
    (viewCustody cfg).Kept s' fun b ↦ n b + (viewCustody cfg).weight b f := by
  cases f with
  | resolveTae | resolveStream =>
    cases hcall
    exact h.call_none rfl (.refl s)
  | dropView r =>
    simp only [call] at hcall
    split_ifs at hcall with hr
    cases hcall
    have hrelations : (viewCustody cfg).owners { s with relations := s.relations.erase r }
        = ((viewCustody cfg).owners s).erase r := rfl
    obtain ⟨⟨hdrawn, -⟩, hnone, hone⟩ := h.of_owner hr rfl
    refine h.call (k := ViewUse.dropping) rfl (fun v hne ↦ ?_) hnone ⟨hdrawn, nofun⟩ ?_
    · exact alike_view rfl (List.Subset.refl _) (List.Subset.refl _)
        (Program.Custody.ownersOf_erase_of_ne hrelations fun heq ↦ hne (Option.some.inj heq).symm)
    · rw [Program.Custody.ownersOf_erase hrelations, hone, List.erase_cons_head]
  | _ => cases hcall

/-- What `RAND_bytes` has answered is not forgotten. -/
theorem drawn_of_section (h : Section s f s' new) :
    (∀ random ∈ s'.drawn, random ∈ s.drawn ∨ random.length = 16) ∧
      s.drawn.Sublist s'.drawn := by
  have hsame : s'.drawn = s.drawn → (∀ random ∈ s'.drawn, random ∈ s.drawn ∨ random.length = 16) ∧
      s.drawn.Sublist s'.drawn := fun heq ↦ by
    rw [heq]
    exact ⟨fun _ ↦ .inl, List.Sublist.refl _⟩
  cases h with
  | namedTae hlength | namedStream hlength =>
    refine ⟨fun random hrandom ↦ ?_, List.sublist_cons_self _ _⟩
    rcases List.mem_cons.mp hrandom with rfl | hold
    · exact .inr hlength
    · exact .inl hold
  | @dropped r =>
    rcases query_cases s r.conn (dropStatement r.relationName) with heq | ⟨name, -, heq⟩
    · exact hsame (congrArg drawn heq)
    · exact hsame ((congrArg drawn heq).trans rfl)
  | _ => exact hsame rfl

theorem drawn_of_call (h : s.call f = some s') : s'.drawn = s.drawn := by
  cases f with
  | resolveTae | resolveStream =>
    cases h
    rfl
  | dropView r =>
    simp only [call] at h
    split_ifs at h
    cases h
    rfl
  | _ => cases h

/-- The views, as long as `RAND_bytes` has not repeated itself. -/
structure ViewsKept (s : ReadWorld cfg) (n : (ℕ × Bytes) × ViewUse → ℕ) : Prop where
  lengths : ∀ random ∈ s.drawn, random.length = 16
  kept : s.drawn.Nodup → (viewCustody cfg).Kept s n

theorem views_ledger (cfg : ReadConfig) (ι : Type*) :
    Program.Ledger (program cfg ι) (viewCustody cfg).weight ViewsKept fun _ _ _ ↦ True where
  call h hcall := by
    have hdrawn := drawn_of_call hcall
    refine ⟨⟨by rw [hdrawn]; exact h.lengths, fun hnodup ↦ ?_⟩, trivial, fun _ _ ↦ id⟩
    rw [hdrawn] at hnodup
    exact views_of_call (h.kept hnodup) hcall
  exec h _ hexec := by
    have hsection := section_of_exec hexec
    obtain ⟨hlengths, hsub⟩ := drawn_of_section hsection
    refine ⟨⟨fun random hrandom ↦ ?_, fun hnodup ↦ ?_⟩, fun _ _ ↦ trivial, fun _ _ ↦ id⟩
    · exact (hlengths random hrandom).elim (h.lengths random) id
    · exact views_of_section h.lengths hnodup (h.kept (hnodup.sublist hsub)) hsection
  ambient {_ a} _ _ := a.elim

/-! ## Inputs -/

/-- The input that the view of a stream points to is there. -/
def HasInput (s : ReadWorld cfg) (conn : ℕ) (streamRef : Bytes) : Prop :=
  streamRef ∈ (s.inputs conn).inputs.map Prod.fst

def RelationInput (r : ResolvedRelation cfg) (s : ReadWorld cfg) : Prop :=
  ∀ request, r.read = .stream request → s.HasInput r.conn request.streamRef

/-- What a call knows of the input that it has made. -/
def CallInput (f : ReadCall cfg) (s : ReadWorld cfg) : Prop :=
  match f with
  | .nameStream r | .bindStream r _ => s.HasInput r.conn r.request.streamRef
  | .dropView r => RelationInput r s
  | _ => True

/-- Inputs stay. -/
theorem hasInput_of_section (h : Section s f s' new) {conn : ℕ} {streamRef : Bytes}
    (hinput : s.HasInput conn streamRef) : s'.HasInput conn streamRef := by
  have hsame : s'.inputs = s.inputs → s'.HasInput conn streamRef := fun heq ↦ by
    rw [HasInput, heq]
    exact hinput
  cases h with
  | @created r inputs constructed input hcreate =>
    by_cases hconn : conn = r.conn
    · subst hconn
      obtain ⟨made, -, hcreate⟩ := bind_eq_ok.mp hcreate
      split_ifs at hcreate
      obtain ⟨rfl, -⟩ := Prod.mk.inj (Except.ok.inj hcreate)
      change streamRef ∈ (update s.inputs r.conn _ r.conn).inputs.map Prod.fst
      rw [Function.update_self]
      exact List.mem_cons_of_mem _ hinput
    · have hother : update s.inputs r.conn inputs conn = s.inputs conn :=
        Function.update_of_ne hconn ..
      change streamRef ∈ (update s.inputs r.conn inputs conn).inputs.map Prod.fst
      rw [hother]
      exact hinput
  | @unbound r name what error =>
    by_cases hconn : conn = r.conn
    · subst hconn
      change streamRef ∈ (update s.inputs r.conn _ r.conn).inputs.map Prod.fst
      rw [Function.update_self, List.map_map]
      obtain ⟨i, hi, hname⟩ := List.mem_map.mp hinput
      refine List.mem_map.mpr ⟨i, hi, ?_⟩
      rw [Function.comp_apply]
      split_ifs <;> exact hname
    · change streamRef ∈ (update s.inputs r.conn _ conn).inputs.map Prod.fst
      rw [Function.update_of_ne hconn]
      exact hinput
  | @dropped r =>
    rcases query_cases s r.conn (dropStatement r.relationName) with heq | ⟨name, -, heq⟩
    · exact hsame (congrArg inputs heq)
    · exact hsame ((congrArg inputs heq).trans rfl)
  | _ => exact hsame rfl

theorem inputs_assertional (cfg : ReadConfig) (ι : Type*) :
    Program.Assertional (program cfg ι) (fun s ↦ ∀ r ∈ s.relations, RelationInput r s)
      fun _ f s ↦ CallInput f s where
  call {s t f s'} hs hcall := by
    replace hcall : s.call f = some s' := hcall
    have hlater : s'.inputs = s.inputs → ∀ g, CallInput g s → CallInput g s' := by
      intro heq g hg
      cases g with
      | nameStream | bindStream | dropView =>
        simpa only [CallInput, RelationInput, HasInput, heq] using hg
      | _ => trivial
    cases f with
    | resolveTae | resolveStream =>
      cases hcall
      exact ⟨hs, trivial, fun _ _ ↦ id⟩
    | dropView r =>
      simp only [call] at hcall
      split_ifs at hcall with hr
      cases hcall
      exact ⟨fun r' hr' ↦ hs r' (List.mem_of_mem_erase hr'), hs r hr, fun _ ↦ hlater rfl⟩
    | _ => cases hcall
  exec {s t f k s' new} hs hf hexec := by
    have hsection : Section s f s' new := section_of_exec hexec
    have hkeeps : ∀ conn ref, s.HasInput conn ref → s'.HasInput conn ref :=
      fun _ _ ↦ hasInput_of_section hsection
    have hlater : ∀ g, CallInput g s → CallInput g s' := by
      intro g hg
      cases g with
      | nameStream | bindStream => exact hkeeps _ _ hg
      | dropView => exact fun request hrequest ↦ hkeeps _ _ (hg request hrequest)
      | _ => trivial
    have hsame : s'.relations = s.relations → ∀ r ∈ s'.relations, RelationInput r s' :=
      fun heq r hr request hrequest ↦ hkeeps _ _ (hs r (heq ▸ hr) request hrequest)
    refine ⟨?_, ?_, fun _ ↦ hlater⟩
    · cases hsection with
      | boundTae =>
        intro r hr request hrequest
        rcases List.mem_cons.mp hr with rfl | hold
        · cases hrequest
        · exact hkeeps _ _ (hs r hold request hrequest)
      | boundStream =>
        intro r hr request hrequest
        rcases List.mem_cons.mp hr with rfl | hold
        · cases hrequest
          exact hkeeps _ _ hf
        · exact hkeeps _ _ (hs r hold request hrequest)
      | @dropped r =>
        rcases query_cases s r.conn (dropStatement r.relationName) with heq | ⟨name, -, heq⟩
        · exact hsame (congrArg relations heq)
        · exact hsame ((congrArg relations heq).trans rfl)
      | _ => exact hsame rfl
    · cases hsection with
      | @created r inputs constructed input hcreate =>
        refine List.forall_mem_singleton.mpr ?_
        obtain ⟨made, -, hcreate⟩ := bind_eq_ok.mp hcreate
        split_ifs at hcreate
        obtain ⟨rfl, -⟩ := Prod.mk.inj (Except.ok.inj hcreate)
        change r.request.streamRef ∈ (update s.inputs r.conn _ r.conn).inputs.map Prod.fst
        rw [Function.update_self]
        exact List.mem_cons_self
      | namedStream => exact List.forall_mem_singleton.mpr hf
      | dropped | leftView =>
        intro g hg
        obtain ⟨path, -, rfl⟩ := Option.map_eq_some_iff.mp (Option.mem_toList.mp hg)
        trivial
      | threw | boundTae | boundStream | unbound | unlinked | leftFile =>
        exact List.forall_mem_nil _
      | _ => exact List.forall_mem_singleton.mpr trivial
  ambient {_ a} _ _ := a.elim

/-! ## Runs -/

/-- What holds of the files and views of resolved reads. -/
structure Resolved (cfg : ReadConfig) [Fintype ι] (c : Threads (ReadWorld cfg) ι (ReadCall cfg)) :
    Prop where
  /-- A relation is of a read of its execution, with the schema that the read is signed for. -/
  authentic : ∀ r ∈ c.shared.relations, cfg.Authentic r.conn r.read.queryId r.read.accountId
    r.read.capabilityHash r.read.schemaDigest r.canonicalSchema
  /-- Its file is the manifest that the read is signed for. -/
  manifest : ∀ r ∈ c.shared.relations, ∀ request path, r.read = .tae request path →
    ∃ manifest, c.shared.files path = some manifest ∧
      cfg.sha256Bytes manifest = request.manifestSha256
  /-- The input that its view points to is there. -/
  input : ∀ r ∈ c.shared.relations, RelationInput r c.shared
  /-- A file has one owner. -/
  file : ∀ path, ((fileCustody cfg).ownersOf c.shared path).length +
    Program.weight ((fileCustody cfg).having path) c ≤ 1
  /-- A file that is there has an owner, or could not be removed. -/
  files : ∀ path, c.shared.files path ≠ none → path ∈ c.shared.leftFiles ∨
    (∃ r ∈ c.shared.relations, r.read.manifestPath? = some path) ∨
      ∃ t, ∃ f ∈ c.calls t, ∃ contents, fileOf? f = some (path, contents)
  /-- A relation's view selects from its file or input. -/
  view : c.shared.drawn.Nodup → ∀ r ∈ c.shared.relations,
    c.shared.views r.conn r.relationName = some r.source
  /-- A view that is there is that of a relation, or is being dropped, or could not be dropped. -/
  views : c.shared.drawn.Nodup → ∀ conn name, c.shared.views conn name ≠ none →
    (conn, name) ∈ c.shared.leftViews ∨
      (∃ r ∈ c.shared.relations, (r.conn, r.relationName) = (conn, name)) ∨
        ∃ t, ∃ r, .dropView r ∈ c.calls t ∧ (r.conn, r.relationName) = (conn, name)

variable [Fintype ι] [DecidableEq ι]

/-- An execution without a name, and digests that are the bytes themselves. -/
def plainReads : ReadConfig where
  queryId _ := []
  accountId _ := 0
  capabilityHash := []
  sha256Bytes := id
  parsesSchema _ := true

/-- Two reads are resolved at the same time. The response to the one arrives in two pieces, a write
is interrupted, and the view is bound; the other one's file cannot be written. -/
def resolveTwo : List (Move Bool (ReadCall plainReads) ReadAnswer Empty) :=
  let answer : ServiceAnswer := ⟨true, [[0x0a, 0x0b, 0x1a, 0x01, 0x01, 0x28, 0x00], [0x42, 0x01,
    0x02, 0x4a, 0x01, 0x03, 0x12, 0x01, 0x03, 0x1a, 0x01, 0x02]],
    some ⟨200, ascii "application/x-protobuf"⟩⟩
  [.call false (.resolveTae 0 oneRead (some [2])), .call true (.resolveTae 1 oneRead (some [2])),
    .exec false { service := answer }, .exec true { service := answer },
    .exec false { created := some (manifestPattern ++ ascii "aaaaaa") },
    .exec true { created := some (manifestPattern ++ ascii "bbbbbb") },
    .exec false {}, .exec true { write := .failed }, .exec false { write := .wrote 1 },
    .exec false {}, .exec false {}, .exec false { random := some (List.replicate 16 0xab) },
    .exec false {}]

end ReadWorld

end MoSidecar
