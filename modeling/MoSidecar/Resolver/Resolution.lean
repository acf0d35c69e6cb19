import MoSidecar.Machine.Threads
import MoSidecar.Registry.Charge
import MoSidecar.Resolver.Names
import MoSidecar.Resolver.Service

/-!
# Resolved reads

`matrixone_tae_read_resolver` turns the reads of a plan into views. For a `TaeRead` it asks the read
service for the manifest, checks the answer, puts the manifest into a private file and binds a view
to that; for a `StreamRead` it makes an input and binds a view to that. A resolved read owns its
view and its file, and its destructor drops the one and unlinks the other.

## What stands for what

* Every execution has a connection of its own, and a resolver for it; the resolvers of different
  executions run at the same time and share the directory of the manifests.
* A system call, a statement and a call of the read service are sections of their own. What they
  answer is up to the surroundings: a write may be interrupted or write a part, and each of them may
  fail.
* A read or a relation cannot be built unless it has passed the checks, so frames and relations
  carry what was checked.
-/

open Function (update)

namespace MoSidecar

/-- What the resolvers are bound to, by connection, and the functions they use. -/
structure ReadConfig where
  queryId : ℕ → Bytes
  accountId : ℕ → UInt64
  capabilityHash : Bytes
  sha256Bytes : Bytes → Bytes
  /-- Whether `ParseFromString` takes the bytes for a schema. -/
  parsesSchema : Bytes → Bool

namespace ReadConfig

variable (cfg : ReadConfig) (conn : ℕ)

/-- The resolver of a connection, with what a call of the read service meets with. -/
def resolver (a : ServiceAnswer) : Resolver where
  queryId := cfg.queryId conn
  accountId := cfg.accountId conn
  capabilityHash := cfg.capabilityHash
  sha256Bytes := cfg.sha256Bytes
  callReadService _ := (callReadService a).mapError .inl
  parsesSchema := cfg.parsesSchema

/-- A read of the execution that the connection is for, of this schema. -/
structure Authentic (queryId : Bytes) (accountId : UInt64) (capabilityHash schemaDigest : Bytes)
    (schema : Bytes) : Prop where
  queryId_eq : queryId = cfg.queryId conn
  accountId_eq : accountId = cfg.accountId conn
  capabilityHash_eq : capabilityHash = cfg.capabilityHash
  digest : cfg.sha256Bytes schema = schemaDigest

/-- `resolve` on a `StreamRead`, up to the input: the schema, serialized, if that does not fail. -/
def resolveStream (request : StreamRead) (requestedSchema : Option Bytes) :
    Except ReadError Bytes :=
  if request.queryId ≠ cfg.queryId conn ∨ request.accountId ≠ cfg.accountId conn then
    .error (.authenticationFailed "StreamRead identity does not match the Flight execution")
  else if request.capabilityHash ≠ cfg.capabilityHash then
    .error (.authenticationFailed "StreamRead capability hash does not match this sidecar")
  else match requestedSchema with
  | none => .error (.readResolutionFailed "cannot serialize the requested stream schema")
  | some requestedSchemaBytes =>
    if cfg.sha256Bytes requestedSchemaBytes ≠ request.schemaDigest then
      .error (.authenticationFailed "StreamRead schema digest does not match the requested schema")
    else .ok requestedSchemaBytes

end ReadConfig

/-! ## Checked reads -/

/-- The response that is accepted for a `TaeRead`. -/
structure Resolution (cfg : ReadConfig) where
  conn : ℕ
  request : TaeRead
  response : ResolveResponse
  authentic : cfg.Authentic conn request.queryId request.accountId request.capabilityHash
    request.schemaDigest response.canonicalSchema
  manifest_digest : cfg.sha256Bytes response.manifest = request.manifestSha256

/-- A `StreamRead` that is accepted, with its schema. -/
structure StreamResolution (cfg : ReadConfig) where
  conn : ℕ
  request : StreamRead
  schema : Bytes
  authentic : cfg.Authentic conn request.queryId request.accountId request.capabilityHash
    request.schemaDigest schema

/-- The request that a relation was made for, and what it is made of. -/
inductive ResolvedRead where
  | tae (request : TaeRead) (manifestPath : Bytes)
  | stream (request : StreamRead)
  deriving DecidableEq

namespace ResolvedRead

def queryId : ResolvedRead → Bytes
  | .tae request _ => request.queryId
  | .stream request => request.queryId

def accountId : ResolvedRead → UInt64
  | .tae request _ => request.accountId
  | .stream request => request.accountId

def capabilityHash : ResolvedRead → Bytes
  | .tae request _ => request.capabilityHash
  | .stream request => request.capabilityHash

def schemaDigest : ResolvedRead → Bytes
  | .tae request _ => request.schemaDigest
  | .stream request => request.schemaDigest

def manifestPath? : ResolvedRead → Option Bytes
  | .tae _ manifestPath => some manifestPath
  | .stream _ => none

end ResolvedRead

/-- `resolved_tae_relation` and `resolved_stream_relation`. -/
structure ResolvedRelation (cfg : ReadConfig) where
  conn : ℕ
  relationName : Bytes
  canonicalSchema : Bytes
  read : ResolvedRead
  authentic : cfg.Authentic conn read.queryId read.accountId read.capabilityHash read.schemaDigest
    canonicalSchema
  deriving DecidableEq

/-- What a view selects from. -/
inductive ReadSource where
  | taeScan (manifestPath : Bytes)
  | streamScan (streamRef : Bytes)
  deriving DecidableEq

/-- The view that a relation is made with. -/
def ResolvedRelation.source {cfg : ReadConfig} (r : ResolvedRelation cfg) : ReadSource :=
  match r.read with
  | .tae _ manifestPath => .taeScan manifestPath
  | .stream request => .streamScan request.streamRef

/-! ## The program -/

/-- What the resolvers work on, and what they have done. -/
structure ReadWorld (cfg : ReadConfig) where
  /-- The directory of the manifests. -/
  files : Bytes → Option Bytes := fun _ ↦ none
  /-- The temporary views of a connection. -/
  views : ℕ → Bytes → Option ReadSource := fun _ _ ↦ none
  /-- The inputs of an execution. -/
  inputs : ℕ → StreamInputRegistry StreamInput := fun _ ↦ {}
  /-- The relations that were returned and not destroyed. -/
  relations : List (ResolvedRelation cfg) := []
  /-- What `RAND_bytes` has answered. -/
  drawn : List Bytes := []
  thrown : List (ReadError ⊕ Thrown) := []
  /-- The files that `unlink` has failed to remove. -/
  leftFiles : List Bytes := []
  /-- The views that were not dropped. -/
  leftViews : List (ℕ × Bytes) := []

/-- What `write` answers. -/
inductive WriteAnswer where
  | wrote (count : ℕ)
  | interrupted
  | failed

/-- What a section learns from outside. -/
structure ReadAnswer where
  service : ServiceAnswer := ⟨false, [], none⟩
  /-- `mkostemp`, unless it fails. -/
  created : Option Bytes := none
  write : WriteAnswer := .interrupted
  closed : Bool := true
  /-- `RAND_bytes`, unless it fails. -/
  random : Option Bytes := none
  /-- What the binding of the view throws, if it does. -/
  bound : Option String := none
  /-- The constructor of an input, unless it throws. -/
  constructed : Except Thrown StreamInput := .ok {}
  /-- Whether the statement that drops a view is carried out. -/
  dropped : Bool := true
  unlinked : Bool := true

/-- The calls of the resolvers, each at the point where its thread takes it up again. -/
inductive ReadCall (cfg : ReadConfig) where
  /-- `resolve` on a `TaeRead`, with the schema serialized, unless that fails. -/
  | resolveTae (conn : ℕ) (request : TaeRead) (requestedSchema : Option Bytes)
  /-- The constructor of `temporary_manifest`. -/
  | openManifest (r : Resolution cfg)
  /-- Its loop. -/
  | writeManifest (r : Resolution cfg) (path : Bytes) (written : ℕ)
  | closeManifest (r : Resolution cfg) (path : Bytes)
  | nameTae (r : Resolution cfg) (path : Bytes)
  | bindTae (r : Resolution cfg) (path relationName : Bytes)
  /-- `resolve` on a `StreamRead`. -/
  | resolveStream (conn : ℕ) (request : StreamRead) (requestedSchema : Option Bytes)
  | createInput (r : StreamResolution cfg)
  | nameStream (r : StreamResolution cfg)
  | bindStream (r : StreamResolution cfg) (relationName : Bytes)
  /-- The destructor of a relation. -/
  | dropView (r : ResolvedRelation cfg)
  | unlinkManifest (path : Bytes)

/-- The pattern of the names of manifests, without the six characters that `mkostemp` chooses. -/
def manifestPattern : Bytes := ascii "/tmp/mo-sidecar-manifest-"

namespace ReadWorld

variable {cfg : ReadConfig} (s : ReadWorld cfg)

/-- A call throws. -/
def throws (what : ReadError ⊕ Thrown) : ReadWorld cfg := { s with thrown := what :: s.thrown }

/-- `resolution_failed`. -/
def resolutionFailed (message : String) : ReadWorld cfg :=
  s.throws (.inl (.readResolutionFailed message))

def setFile (path : Bytes) (contents : Option Bytes) : ReadWorld cfg :=
  { s with files := update s.files path contents }

def setView (conn : ℕ) (name : Bytes) (source : Option ReadSource) : ReadWorld cfg :=
  { s with views := update s.views conn (update (s.views conn) name source) }

/-- A statement is carried out. -/
def query (conn : ℕ) (statement : Bytes) : ReadWorld cfg :=
  match droppedView statement with
  | some name => s.setView conn name none
  | none => s

/-- `input->cancel`. -/
def cancelInput (conn : ℕ) (streamRef : Bytes) (error : String) : ReadWorld cfg :=
  { s with
    inputs := update s.inputs conn
      { inputs := (s.inputs conn).inputs.map fun i ↦
          if i.1 = streamRef then (i.1, i.2.cancel error) else i } }

/-- The relation that `resolve` returns. -/
def relate (r : ResolvedRelation cfg) : ReadWorld cfg :=
  { (s.setView r.conn r.relationName (some r.source)) with relations := r :: s.relations }

end ReadWorld

theorem mapError_eq_ok {ε ε' α : Type*} {f : ε → ε'} {r : Except ε α} {x : α} :
    r.mapError f = .ok x ↔ r = .ok x := by
  cases r <;> simp [Except.mapError]

/-- The service has answered with the response, and its schema can be parsed. -/
theorem Resolver.answered_of_resolve {resolver : Resolver} {request : TaeRead} {schema : Bytes}
    {response : ResolveResponse} (h : resolver.resolve request (some schema) = .ok response) :
    ∃ body, resolver.callReadService (serializeResolveRequest request schema) = .ok body ∧
      parseResolveResponse body = .ok response ∧
        resolver.parsesSchema response.canonicalSchema = true := by
  unfold resolve at h
  split_ifs at h
  simp only at h
  split_ifs at h
  split at h
  · cases h
  · cases h
  · next body hbody =>
    split at h
    · cases h
    · next response' hparsed =>
      split_ifs at h with hecho hmanifest hschema hparses
      obtain rfl := Except.ok.inj h
      exact ⟨body, hbody, hparsed, by simpa using hparses⟩

theorem Resolver.resolve_of_answered {resolver : Resolver} {request : TaeRead} {schema body : Bytes}
    {response : ResolveResponse}
    (hidentity : request.queryId = resolver.queryId ∧ request.accountId = resolver.accountId ∧
      request.capabilityHash = resolver.capabilityHash)
    (hbody : resolver.callReadService (serializeResolveRequest request schema) = .ok body)
    (hparsed : parseResolveResponse body = .ok response)
    (haccepts : resolver.Accepts request schema response)
    (hdigest : resolver.sha256Bytes schema = request.schemaDigest)
    (hparses : resolver.parsesSchema response.canonicalSchema = true) :
    resolver.resolve request (some schema) = .ok response := by
  obtain ⟨hquery, haccount, hhash⟩ := hidentity
  unfold resolve
  simp only [hbody, hparsed, hquery, haccount, hhash, hdigest, haccepts.taeRead_eq,
    haccepts.manifest_digest, haccepts.schema_digest]
  simp [haccepts.canonicalSchema_eq, haccepts.canonicalSchema_eq ▸ hparses]

namespace Resolution

variable {cfg : ReadConfig}

/-- What `resolve` accepts has passed its checks. -/
theorem checked {conn : ℕ} {a : ServiceAnswer} {request : TaeRead} {requestedSchema : Option Bytes}
    {response : ResolveResponse}
    (h : (cfg.resolver conn a).resolve request requestedSchema = .ok response) :
    cfg.Authentic conn request.queryId request.accountId request.capabilityHash
      request.schemaDigest response.canonicalSchema ∧
      cfg.sha256Bytes response.manifest = request.manifestSha256 := by
  obtain ⟨schema, -, haccepts⟩ := Resolver.accepts_of_resolve h
  refine ⟨?_, haccepts.manifest_digest⟩
  unfold Resolver.resolve at h
  split_ifs at h with hidentity hhash
  rw [not_or, not_not, not_not] at hidentity
  exact ⟨hidentity.1, hidentity.2, not_not.mp hhash, haccepts.schema_digest⟩

/-- A response that `resolve` accepts. -/
structure Accepted (cfg : ReadConfig) (conn : ℕ) (a : ServiceAnswer) (request : TaeRead)
    (schema : Bytes) (response : ResolveResponse) : Prop where
  authentic : cfg.Authentic conn request.queryId request.accountId request.capabilityHash
    request.schemaDigest schema
  /-- The service can be called, and answers with a response of the right kind. -/
  answered : a.valid = true ∧
    ∃ r, a.response = some r ∧ r.status = 200 ∧ isProtobuf r.contentType = true
  /-- The response is what arrived, in whatever pieces, and not too long. -/
  length_le : a.chunks.flatten.length ≤ maxResponseBytes
  parsed : parseResolveResponse a.chunks.flatten = .ok response
  echo : response.taeRead = serializeTaeRead request
  manifest_digest : cfg.sha256Bytes response.manifest = request.manifestSha256
  canonicalSchema_eq : response.canonicalSchema = schema
  parses : cfg.parsesSchema schema = true

/-- **What `resolve` accepts**, exactly. -/
theorem resolve_eq_ok {conn : ℕ} {a : ServiceAnswer} {request : TaeRead}
    {requestedSchema : Option Bytes} {response : ResolveResponse} :
    (cfg.resolver conn a).resolve request requestedSchema = .ok response ↔
      ∃ schema, requestedSchema = some schema ∧ Accepted cfg conn a request schema response := by
  constructor
  · intro h
    obtain ⟨schema, rfl, haccepts⟩ := Resolver.accepts_of_resolve h
    obtain ⟨body, hbody, hparsed, hparses⟩ := Resolver.answered_of_resolve h
    obtain ⟨hvalid, rfl, hlength, hresponse⟩ := callReadService_eq_ok.mp (mapError_eq_ok.mp hbody)
    have hauthentic := (checked h).1
    rw [haccepts.canonicalSchema_eq] at hauthentic hparses
    exact ⟨schema, rfl, hauthentic, ⟨hvalid, hresponse⟩, hlength, hparsed, haccepts.taeRead_eq,
      haccepts.manifest_digest, haccepts.canonicalSchema_eq, hparses⟩
  · rintro ⟨schema, rfl, h⟩
    have hbody := callReadService_eq_ok.mpr ⟨h.answered.1, rfl, h.length_le, h.answered.2⟩
    have hcall : (cfg.resolver conn a).callReadService (serializeResolveRequest request schema)
        = .ok a.chunks.flatten := mapError_eq_ok.mpr hbody
    refine Resolver.resolve_of_answered ⟨h.authentic.queryId_eq, h.authentic.accountId_eq,
      h.authentic.capabilityHash_eq⟩ hcall h.parsed ⟨h.echo, h.manifest_digest,
        h.canonicalSchema_eq, ?_⟩ h.authentic.digest ?_
    · rw [h.canonicalSchema_eq]
      exact h.authentic.digest
    · rw [h.canonicalSchema_eq]
      exact h.parses

/-- The relation that is made of a manifest file. -/
def relation (r : Resolution cfg) (path relationName : Bytes) : ResolvedRelation cfg where
  conn := r.conn
  relationName := relationName
  canonicalSchema := r.response.canonicalSchema
  read := .tae r.request path
  authentic := r.authentic

end Resolution

namespace StreamResolution

variable {cfg : ReadConfig}

theorem checked {conn : ℕ} {request : StreamRead} {requestedSchema : Option Bytes} {schema : Bytes}
    (h : cfg.resolveStream conn request requestedSchema = .ok schema) :
    cfg.Authentic conn request.queryId request.accountId request.capabilityHash
      request.schemaDigest schema := by
  unfold ReadConfig.resolveStream at h
  split_ifs at h with hidentity hhash
  rw [not_or, not_not, not_not] at hidentity
  cases requestedSchema with
  | none => cases h
  | some bytes =>
    simp only at h
    split_ifs at h with hdigest
    obtain rfl := Except.ok.inj h
    exact ⟨hidentity.1, hidentity.2, not_not.mp hhash, not_not.mp hdigest⟩

def relation (r : StreamResolution cfg) (relationName : Bytes) : ResolvedRelation cfg where
  conn := r.conn
  relationName := relationName
  canonicalSchema := r.schema
  read := .stream r.request
  authentic := r.authentic

end StreamResolution

namespace ReadWorld

variable {cfg : ReadConfig} (s : ReadWorld cfg)

/-- The functions a thread may enter. A destructor takes its relation over. -/
def call : ReadCall cfg → Option (ReadWorld cfg)
  | .resolveTae .. | .resolveStream .. => some s
  | .dropView r =>
    if r ∈ s.relations then some { s with relations := s.relations.erase r } else none
  | _ => none

/-- The next section of a call. -/
def exec (f : ReadCall cfg) (k : ReadAnswer) : Option (ReadWorld cfg × List (ReadCall cfg)) :=
  match f with
  | .resolveTae conn request requestedSchema =>
    match h : (cfg.resolver conn k.service).resolve request requestedSchema with
    | .error what => some (s.throws (.inl what), [])
    | .ok response =>
      some (s, [.openManifest ⟨conn, request, response, (Resolution.checked h).1,
        (Resolution.checked h).2⟩])
  | .openManifest r =>
    match k.created with
    | none => some (s.resolutionFailed "cannot create a private manifest file", [])
    | some path =>
      if manifestPattern.isPrefixOf path ∧ path.length = manifestPattern.length + 6 ∧
          s.files path = none then
        some (s.setFile path (some []), [.writeManifest r path 0])
      else none
  | .writeManifest r path written =>
    if written < r.response.manifest.length then
      match k.write with
      | .interrupted => some (s, [.writeManifest r path written])
      | .failed =>
        some (s.resolutionFailed "cannot write the private manifest file", [.unlinkManifest path])
      | .wrote count =>
        if 0 < count ∧ count ≤ r.response.manifest.length - written then
          some (s.setFile path (some (((s.files path).getD []) ++
              (r.response.manifest.drop written).take count)),
            [.writeManifest r path (written + count)])
        else none
    else some (s, [.closeManifest r path])
  | .closeManifest r path =>
    if k.closed then some (s, [.nameTae r path])
    else some (s.resolutionFailed "cannot close the private manifest file", [.unlinkManifest path])
  | .nameTae r path =>
    match k.random with
    | none =>
      some (s.resolutionFailed "cannot generate a query-local relation name",
        [.unlinkManifest path])
    | some random =>
      if random.length = 16 then
        some ({ s with drawn := random :: s.drawn },
          [.bindTae r path (randomRelationName .tae random)])
      else none
  | .bindTae r path relationName =>
    match k.bound with
    | some what =>
      some (s.resolutionFailed ("cannot bind the authenticated TAE manifest: " ++ what),
        [.unlinkManifest path])
    | none => some (s.relate (r.relation path relationName), [])
  | .resolveStream conn request requestedSchema =>
    match h : cfg.resolveStream conn request requestedSchema with
    | .error what => some (s.throws (.inl what), [])
    | .ok schema => some (s, [.createInput ⟨conn, request, schema, StreamResolution.checked h⟩])
  | .createInput r =>
    match (s.inputs r.conn).create r.request.streamRef k.constructed with
    | .error what => some (s.throws (.inr what), [])
    | .ok (inputs, _) => some ({ s with inputs := update s.inputs r.conn inputs }, [.nameStream r])
  | .nameStream r =>
    match k.random with
    | none => some (s.resolutionFailed "cannot generate a query-local relation name", [])
    | some random =>
      if random.length = 16 then
        some ({ s with drawn := random :: s.drawn },
          [.bindStream r (randomRelationName .stream random)])
      else none
  | .bindStream r relationName =>
    match k.bound with
    | some what =>
      some ((s.cancelInput r.conn r.request.streamRef
          "StreamRead relation binding failed").resolutionFailed
            ("cannot bind the authenticated StreamRead: " ++ what), [])
    | none => some (s.relate (r.relation relationName), [])
  | .dropView r =>
    some (if k.dropped then s.query r.conn (dropStatement r.relationName)
        else { s with leftViews := (r.conn, r.relationName) :: s.leftViews },
      (r.read.manifestPath?.map .unlinkManifest).toList)
  | .unlinkManifest path =>
    some (if k.unlinked then s.setFile path none
      else { s with leftFiles := path :: s.leftFiles }, [])

/-- The resolvers and their threads as a program. -/
def program (cfg : ReadConfig) (ι : Type*) :
    Program (ReadWorld cfg) ι (ReadCall cfg) ReadAnswer Empty where
  call s _ f := s.call f
  exec s _ f k := s.exec f k
  ambient _ a := a.elim

/-- No read has been resolved. -/
def init (cfg : ReadConfig) (ι : Type*) : Threads (ReadWorld cfg) ι (ReadCall cfg) where
  shared := {}
  calls _ := []

end ReadWorld

end MoSidecar
