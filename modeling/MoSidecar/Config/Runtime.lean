import MoSidecar.Config.Endpoint

/-!
# What the sidecar is started with

`load_runtime_config` reads the environment of the process. Without a port there is no server, and
nothing else is looked at. With one, every path and the endpoint of reads must be given, a number
that is given must be in its range, and the six credentials must be readable. The first that is not
is thrown; what is loaded otherwise is said by `loadRuntimeConfig_eq_ok`, one setting at a time.
-/

namespace MoSidecar

/-- `getenv`. -/
abbrev Environment := String → Option Bytes

/-- A variable that is set to something. -/
def setting (env : Environment) (name : String) : Option Bytes :=
  (env name).filter (· ≠ [])

/-- `required_env`. -/
def requiredEnv (env : Environment) (name : String) : Except Thrown Bytes :=
  match setting env name with
  | none => .error (.invalidArgument (name ++ " is required"))
  | some value => .ok value

/-! ## Numbers without a sign -/

/-- `std::from_chars` for an unsigned number of 64 bits: the number, and what is left behind it. -/
def fromCharsUnsigned (value : Bytes) : Option (UInt64 × Bytes) :=
  let digits := value.takeWhile isDigit
  if digits.isEmpty ∨ decimalValue digits > 2 ^ 64 - 1 then none
  else some (UInt64.ofNat (decimalValue digits), value.dropWhile isDigit)

/-- `parse_integer`, for an unsigned number of 64 bits. -/
def parseUnsigned (name : String) (value : Bytes) (minimum maximum : UInt64) :
    Except Thrown UInt64 :=
  match fromCharsUnsigned value with
  | none => .error (.invalidArgument (name ++ " is outside the accepted range"))
  | some (parsed, rest) =>
    if rest ≠ [] ∨ parsed < minimum ∨ parsed > maximum then
      .error (.invalidArgument (name ++ " is outside the accepted range"))
    else .ok parsed

/-- `optional_integer`, for an unsigned number of 64 bits. -/
def optionalInteger (env : Environment) (name : String) (default minimum maximum : UInt64) :
    Except Thrown UInt64 :=
  match setting env name with
  | some value => parseUnsigned name value minimum maximum
  | none => .ok default

/-! ## Credentials -/

/-- What a file answers that is opened at its end, and read from its start up to there. -/
structure CredentialFile where
  opens : Bool
  /-- `tellg`, which is negative where it fails. -/
  position : ℤ
  /-- `read`, unless it fails. -/
  read : Option Bytes
  length_read : ∀ contents ∈ read, contents.length = position

/-- A path in a message, a character for a byte. -/
def pathText (path : Bytes) : String := String.ofList (path.map fun b ↦ Char.ofNat b.toNat)

/-- The size that `read_secret_file` allows unless it is told otherwise. -/
def kMaxSecretBytes : ℕ := 1024 * 1024

/-- `read_secret_file`. -/
def readSecretFile (files : Bytes → CredentialFile) (path : Bytes) : Except Thrown Bytes :=
  let input := files path
  if !input.opens then
    .error (.exception ("cannot open credential file: " ++ pathText path))
  else if input.position < 0 ∨ input.position > kMaxSecretBytes then
    .error (.exception ("credential file exceeds size limit: " ++ pathText path))
  else if input.position = 0 then
    .error (.exception ("credential file is empty: " ++ pathText path))
  else
    match input.read with
    | none => .error (.exception ("cannot read credential file: " ++ pathText path))
    | some contents => .ok contents

/-! ## The configuration -/

/-- `runtime_config`. -/
structure RuntimeConfig where
  flightHost : Bytes
  flightPort : ℤ
  flightCertPath : Bytes
  flightKeyPath : Bytes
  flightClientCaPath : Bytes
  readEndpoint : HttpsEndpoint
  readCaPath : Bytes
  readClientCertPath : Bytes
  readClientKeyPath : Bytes
  maxActiveTickets : UInt64
  maxBatchBytes : UInt64
  streamInputCapacityBytes : UInt64
  fatalShutdownGraceMs : UInt64
  ticketTtlMs : UInt64
  deriving DecidableEq

/-- The settings of `load_runtime_config`, for a port that is given. -/
def loadSettings (env : Environment) (port : Bytes) : Except Thrown RuntimeConfig := do
  let flightPort ← parseInteger "MO_SIDECAR_FLIGHT_PORT" port 1 65535
  let flightHost := (setting env "MO_SIDECAR_FLIGHT_HOST").getD (ascii "0.0.0.0")
  let flightCertPath ← requiredEnv env "MO_SIDECAR_FLIGHT_CERT"
  let flightKeyPath ← requiredEnv env "MO_SIDECAR_FLIGHT_KEY"
  let flightClientCaPath ← requiredEnv env "MO_SIDECAR_FLIGHT_CLIENT_CA"
  let readEndpoint ← parseHttpsEndpoint (← requiredEnv env "MO_SIDECAR_READ_URL")
  let readCaPath ← requiredEnv env "MO_SIDECAR_READ_CA"
  let readClientCertPath ← requiredEnv env "MO_SIDECAR_READ_CLIENT_CERT"
  let readClientKeyPath ← requiredEnv env "MO_SIDECAR_READ_CLIENT_KEY"
  let maxActiveTickets ← optionalInteger env "MO_SIDECAR_MAX_ACTIVE_TICKETS" 128 1 4096
  let maxBatchBytes ← optionalInteger env "MO_SIDECAR_MAX_BATCH_BYTES" (64 * 1024 * 1024)
    (64 * 1024) (1024 * 1024 * 1024)
  let streamInputCapacityBytes ← optionalInteger env "MO_SIDECAR_STREAM_INPUT_CAPACITY_BYTES"
    (2 * 1024 * 1024 * 1024) (64 * 1024 * 1024) (1024 * 1024 * 1024 * 1024)
  let fatalShutdownGraceMs ← optionalInteger env "MO_SIDECAR_FATAL_SHUTDOWN_GRACE_MS" 5000 100 60000
  let ticketTtlMs ← optionalInteger env "MO_SIDECAR_TICKET_TTL_MS" (15 * 60 * 1000) 1000
    (20 * 60 * 1000)
  return ⟨flightHost, flightPort, flightCertPath, flightKeyPath, flightClientCaPath, readEndpoint,
    readCaPath, readClientCertPath, readClientKeyPath, maxActiveTickets, maxBatchBytes,
    streamInputCapacityBytes, fatalShutdownGraceMs, ticketTtlMs⟩

/-- `load_runtime_config`. -/
def loadRuntimeConfig (env : Environment) (files : Bytes → CredentialFile) :
    Except Thrown (Option RuntimeConfig) :=
  match setting env "MO_SIDECAR_FLIGHT_PORT" with
  | none => .ok none
  | some port => do
    let result ← loadSettings env port
    let _ ← readSecretFile files result.flightCertPath
    let _ ← readSecretFile files result.flightKeyPath
    let _ ← readSecretFile files result.flightClientCaPath
    let _ ← readSecretFile files result.readCaPath
    let _ ← readSecretFile files result.readClientCertPath
    let _ ← readSecretFile files result.readClientKeyPath
    return some result

/-! ## What is loaded -/

variable {env : Environment} {files : Bytes → CredentialFile} {name : String}
  {value port path contents : Bytes} {number default minimum maximum : UInt64}
  {config : RuntimeConfig}

/-- Digits that spell a number within bounds. -/
def IsNumber (minimum maximum : UInt64) (digits : Bytes) (number : UInt64) : Prop :=
  (digits ≠ [] ∧ ∀ c ∈ digits, isDigit c = true) ∧ (minimum ≤ number ∧ number ≤ maximum) ∧
    number.toNat = decimalValue digits

/-- All that `from_chars` can read as an unsigned number. -/
theorem fromCharsUnsigned_eq_some : fromCharsUnsigned value = some (number, []) ↔
    (value ≠ [] ∧ ∀ c ∈ value, isDigit c = true) ∧ number.toNat = decimalValue value := by
  have hnumber := number.toNat_lt
  rw [fromCharsUnsigned]
  by_cases hdigits : ∀ c ∈ value, isDigit c = true
  · rw [List.takeWhile_eq_self_iff.mpr hdigits, List.dropWhile_eq_nil_iff.mpr hdigits]
    simp only [List.isEmpty_iff]
    split_ifs with hbad
    · refine iff_of_false nofun fun h ↦ ?_
      rcases hbad with hempty | hover
      · exact h.1.1 hempty
      · omega
    · rw [not_or] at hbad
      rw [Option.some.injEq, Prod.mk.injEq, ← UInt64.toNat_inj, UInt64.toNat_ofNat',
        Nat.mod_eq_of_lt (by omega), and_iff_left rfl, eq_comm]
      exact (and_iff_right ⟨hbad.1, hdigits⟩).symm
  · refine iff_of_false (fun h ↦ ?_) fun h ↦ hdigits h.1.2
    split_ifs at h
    exact hdigits (List.dropWhile_eq_nil_iff.mp (Prod.mk.inj (Option.some.inj h)).2)

theorem parseUnsigned_eq_ok : parseUnsigned name value minimum maximum = .ok number ↔
    IsNumber minimum maximum value number := by
  have hok : parseUnsigned name value minimum maximum = .ok number ↔
      fromCharsUnsigned value = some (number, []) ∧ minimum ≤ number ∧ number ≤ maximum := by
    rw [parseUnsigned]
    cases hread : fromCharsUnsigned value with
    | none => exact iff_of_false nofun fun h ↦ nomatch h.1
    | some p =>
      obtain ⟨parsed, rest⟩ := p
      simp only [Option.some.injEq, Prod.mk.injEq]
      split_ifs with hbad
      · refine iff_of_false nofun ?_
        rintro ⟨⟨rfl, rfl⟩, hlow, hhigh⟩
        rcases hbad with hrest | hbelow | habove
        · exact hrest rfl
        · exact UInt64.not_lt.mpr hlow hbelow
        · exact UInt64.not_lt.mpr hhigh habove
      · rw [not_or, not_or, not_not, UInt64.not_lt, gt_iff_lt, UInt64.not_lt] at hbad
        obtain ⟨rfl, hrange⟩ := hbad
        constructor
        · intro h
          obtain rfl := Except.ok.inj h
          exact ⟨⟨rfl, rfl⟩, hrange⟩
        · rintro ⟨⟨rfl, -⟩, -⟩
          rfl
  rw [hok, fromCharsUnsigned_eq_some, IsNumber]
  tauto

/-- A number that is set to something in its range, or is its default. -/
def IsNumberSetting (env : Environment) (name : String) (default minimum maximum number : UInt64) :
    Prop :=
  (setting env name = none ∧ number = default) ∨
    ∃ value, setting env name = some value ∧ IsNumber minimum maximum value number

theorem optionalInteger_eq_ok : optionalInteger env name default minimum maximum = .ok number ↔
    IsNumberSetting env name default minimum maximum number := by
  rw [optionalInteger, IsNumberSetting]
  cases setting env name with
  | none => simp [eq_comm]
  | some value => simp [parseUnsigned_eq_ok]

theorem requiredEnv_eq_ok : requiredEnv env name = .ok value ↔ setting env name = some value := by
  rw [requiredEnv]
  cases setting env name <;> simp

/-- A number that is set is in its range, if its default is. -/
theorem IsNumberSetting.bounds (h : IsNumberSetting env name default minimum maximum number)
    (hdefault : minimum ≤ default ∧ default ≤ maximum) : minimum ≤ number ∧ number ≤ maximum := by
  rcases h with ⟨-, rfl⟩ | ⟨value, -, hnumber⟩
  · exact hdefault
  · exact hnumber.2.1

/-- A credential of a size that is allowed. -/
def IsCredential (files : Bytes → CredentialFile) (path contents : Bytes) : Prop :=
  (files path).opens = true ∧ (files path).read = some contents ∧ contents ≠ [] ∧
    contents.length ≤ kMaxSecretBytes

theorem readSecretFile_eq_ok :
    readSecretFile files path = .ok contents ↔ IsCredential files path contents := by
  rw [readSecretFile, IsCredential]
  simp only [Bool.not_eq_true']
  split_ifs with hclosed hsize hempty
  · simp [hclosed]
  · refine iff_of_false nofun fun h ↦ ?_
    have hlength := (files path).length_read contents h.2.1
    have hle := h.2.2.2
    omega
  · refine iff_of_false nofun fun h ↦ ?_
    have hlength := (files path).length_read contents h.2.1
    exact h.2.2.1 (List.length_eq_zero_iff.mp (by omega))
  · rw [Bool.not_eq_false] at hclosed
    cases hread : (files path).read with
    | none => simp
    | some bytes =>
      have hlength := (files path).length_read bytes hread
      constructor
      · intro h
        obtain rfl := Except.ok.inj h
        exact ⟨hclosed, rfl, List.ne_nil_of_length_pos (by omega), by omega⟩
      · intro h
        rw [Option.some.inj h.2.1]

namespace RuntimeConfig

/-- What a configuration has to do with the environment, given a port. -/
structure IsSetBy (config : RuntimeConfig) (env : Environment) (port : Bytes) : Prop where
  flightPort : IsPort port config.flightPort
  flightHost : config.flightHost
    = (setting env "MO_SIDECAR_FLIGHT_HOST").getD (ascii "0.0.0.0")
  flightCertPath : setting env "MO_SIDECAR_FLIGHT_CERT" = some config.flightCertPath
  flightKeyPath : setting env "MO_SIDECAR_FLIGHT_KEY" = some config.flightKeyPath
  flightClientCaPath : setting env "MO_SIDECAR_FLIGHT_CLIENT_CA" = some config.flightClientCaPath
  readEndpoint : ∃ url, setting env "MO_SIDECAR_READ_URL" = some url ∧
    parseHttpsEndpoint url = .ok config.readEndpoint
  readCaPath : setting env "MO_SIDECAR_READ_CA" = some config.readCaPath
  readClientCertPath : setting env "MO_SIDECAR_READ_CLIENT_CERT" = some config.readClientCertPath
  readClientKeyPath : setting env "MO_SIDECAR_READ_CLIENT_KEY" = some config.readClientKeyPath
  maxActiveTickets : IsNumberSetting env "MO_SIDECAR_MAX_ACTIVE_TICKETS" 128 1 4096
    config.maxActiveTickets
  maxBatchBytes : IsNumberSetting env "MO_SIDECAR_MAX_BATCH_BYTES" (64 * 1024 * 1024) (64 * 1024)
    (1024 * 1024 * 1024) config.maxBatchBytes
  streamInputCapacityBytes : IsNumberSetting env "MO_SIDECAR_STREAM_INPUT_CAPACITY_BYTES"
    (2 * 1024 * 1024 * 1024) (64 * 1024 * 1024) (1024 * 1024 * 1024 * 1024)
    config.streamInputCapacityBytes
  fatalShutdownGraceMs : IsNumberSetting env "MO_SIDECAR_FATAL_SHUTDOWN_GRACE_MS" 5000 100 60000
    config.fatalShutdownGraceMs
  ticketTtlMs : IsNumberSetting env "MO_SIDECAR_TICKET_TTL_MS" (15 * 60 * 1000) 1000
    (20 * 60 * 1000) config.ticketTtlMs

/-- Its credentials can be read. -/
def HasCredentials (config : RuntimeConfig) (files : Bytes → CredentialFile) : Prop :=
  ∀ path ∈ [config.flightCertPath, config.flightKeyPath, config.flightClientCaPath,
    config.readCaPath, config.readClientCertPath, config.readClientKeyPath],
    ∃ contents, IsCredential files path contents

end RuntimeConfig

theorem loadSettings_eq_ok : loadSettings env port = .ok config ↔ config.IsSetBy env port := by
  simp only [loadSettings, bind_eq_ok, parseInteger_eq_ok, requiredEnv_eq_ok, optionalInteger_eq_ok]
  constructor
  · rintro ⟨flightPort, hport, cert, hcert, key, hkey, clientCa, hclientCa, url, hurl, endpoint,
      hendpoint, readCa, hreadCa, readCert, hreadCert, readKey, hreadKey, tickets, htickets, batch,
      hbatch, capacity, hcapacity, grace, hgrace, ttl, httl, h⟩
    obtain rfl := Except.ok.inj h
    exact ⟨hport, rfl, hcert, hkey, hclientCa, ⟨url, hurl, hendpoint⟩, hreadCa, hreadCert, hreadKey,
      htickets, hbatch, hcapacity, hgrace, httl⟩
  · intro h
    obtain ⟨url, hurl, hendpoint⟩ := h.readEndpoint
    refine ⟨_, h.flightPort, _, h.flightCertPath, _, h.flightKeyPath, _, h.flightClientCaPath, url,
      hurl, _, hendpoint, _, h.readCaPath, _, h.readClientCertPath, _, h.readClientKeyPath, _,
      h.maxActiveTickets, _, h.maxBatchBytes, _, h.streamInputCapacityBytes, _,
      h.fatalShutdownGraceMs, _, h.ticketTtlMs, ?_⟩
    rw [← h.flightHost]
    rfl

/-- There is no server without a port. -/
theorem loadRuntimeConfig_eq_none :
    loadRuntimeConfig env files = .ok none ↔ setting env "MO_SIDECAR_FLIGHT_PORT" = none := by
  rw [loadRuntimeConfig]
  cases setting env "MO_SIDECAR_FLIGHT_PORT" with
  | none => exact iff_of_true rfl rfl
  | some port =>
    refine iff_of_false (fun h ↦ ?_) nofun
    simp only [bind_eq_ok] at h
    obtain ⟨result, hresult, cert, hcert, key, hkey, clientCa, hclientCa, readCa, hreadCa, readCert,
      hreadCert, readKey, hreadKey, h⟩ := h
    cases Except.ok.inj h

/-- What is loaded, setting by setting. -/
theorem loadRuntimeConfig_eq_ok : loadRuntimeConfig env files = .ok (some config) ↔
    (∃ port, setting env "MO_SIDECAR_FLIGHT_PORT" = some port ∧ config.IsSetBy env port) ∧
      config.HasCredentials files := by
  rw [loadRuntimeConfig]
  cases setting env "MO_SIDECAR_FLIGHT_PORT" with
  | none => exact iff_of_false nofun nofun
  | some port =>
    simp only [bind_eq_ok, loadSettings_eq_ok, readSecretFile_eq_ok, RuntimeConfig.HasCredentials,
      List.forall_mem_cons]
    constructor
    · rintro ⟨loaded, hset, _, hcert, _, hkey, _, hclientCa, _, hreadCa, _, hreadCert, _, hreadKey,
        h⟩
      obtain rfl := Option.some.inj (Except.ok.inj h)
      exact ⟨⟨port, rfl, hset⟩, ⟨_, hcert⟩, ⟨_, hkey⟩, ⟨_, hclientCa⟩, ⟨_, hreadCa⟩,
        ⟨_, hreadCert⟩, ⟨_, hreadKey⟩, List.forall_mem_nil _⟩
    · rintro ⟨⟨port', hport, hset⟩, ⟨_, hcert⟩, ⟨_, hkey⟩, ⟨_, hclientCa⟩, ⟨_, hreadCa⟩,
        ⟨_, hreadCert⟩, ⟨_, hreadKey⟩, -⟩
      obtain rfl := Option.some.inj hport
      exact ⟨config, hset, _, hcert, _, hkey, _, hclientCa, _, hreadCa, _, hreadCert, _, hreadKey,
        rfl⟩

end MoSidecar
