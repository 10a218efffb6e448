import LobsterProxy.Base.Text
import Mathlib.Tactic.SplitIfs

/-! The configuration: built-in defaults, a file over them, the environment over both, and the
overrides of the command line last. Every layer keeps a configuration tidy, and the server
starts only with one that does not hand the accounts to the network. -/

namespace Lobster
namespace Config

structure ServerConfig where
  host : String
  port : UInt16
  apiKey : Option String
  deriving DecidableEq, Repr

structure ModelConfig where
  default : String
  deriving DecidableEq, Repr

structure UpstreamConfig where
  baseUrl : String
  loginPortal : String
  proxy : Option String
  connectTimeoutSecs : UInt64
  deriving DecidableEq, Repr

structure AuthConfig where
  dir : String
  seedDirs : List String
  deriving DecidableEq, Repr

structure TimeoutConfig where
  firstEventSecs : UInt64
  firstSemanticSecs : UInt64
  streamIdleSecs : UInt64
  semanticIdleSecs : UInt64
  deriving DecidableEq, Repr

structure LimitConfig where
  shadowMaxSessions : UInt64
  shadowTtlSecs : UInt64
  stickyTtlSecs : UInt64
  stickyMax : UInt64
  credCooldownSecs : UInt64
  hardCreditCooldownSecs : UInt64
  modelCooldownSecs : UInt64
  modelCooldownMaxSecs : UInt64
  refreshMarginSecs : UInt64
  keepaliveSecs : UInt64
  maxBodyBytes : UInt64
  shutdownTimeoutSecs : UInt64
  deriving DecidableEq, Repr

structure CheckinConfig where
  enabled : Bool
  intervalSecs : UInt64
  deriving DecidableEq, Repr

end Config

open Config in
structure Config where
  server : ServerConfig
  model : ModelConfig
  upstream : UpstreamConfig
  auth : AuthConfig
  timeouts : TimeoutConfig
  limits : LimitConfig
  checkin : CheckinConfig
  logLevel : String
  secret : Option String
  deriving DecidableEq, Repr

namespace Config

/-- The defaults, with the credential directory that is found next to the program. -/
def builtIn (authDir : String) : Config where
  server := ⟨"127.0.0.1", 8090, none⟩
  model := ⟨"deepseek-flash"⟩
  upstream := ⟨"https://lobsterai-server.youdao.com", "https://lobsterai.youdao.com", none, 15⟩
  auth := ⟨authDir, []⟩
  timeouts := ⟨90, 240, 120, 300⟩
  limits := {
    shadowMaxSessions := 256
    shadowTtlSecs := 600
    stickyTtlSecs := 1800
    stickyMax := 512
    credCooldownSecs := 300
    hardCreditCooldownSecs := 12 * 3600
    modelCooldownSecs := 600
    modelCooldownMaxSecs := 86400
    refreshMarginSecs := 600
    keepaliveSecs := 86400
    maxBodyBytes := 100 * 1024 * 1024
    shutdownTimeoutSecs := 30 }
  checkin := ⟨true, 3600⟩
  logLevel := "info"
  secret := none

section Layers

structure FileServer where
  host : Option String
  port : Option UInt16
  apiKey : Option String

structure FileModel where
  default : Option String

structure FileUpstream where
  baseUrl : Option String
  loginPortal : Option String
  proxy : Option String
  connectTimeoutSecs : Option UInt64

structure FileAuth where
  dir : Option String
  seedDirs : Option (List String)

structure FileTimeouts where
  firstEventSecs : Option UInt64
  firstSemanticSecs : Option UInt64
  streamIdleSecs : Option UInt64
  semanticIdleSecs : Option UInt64

structure FileLimits where
  shadowMaxSessions : Option UInt64
  shadowTtlSecs : Option UInt64
  stickyTtlSecs : Option UInt64
  stickyMax : Option UInt64
  credCooldownSecs : Option UInt64
  hardCreditCooldownSecs : Option UInt64
  modelCooldownSecs : Option UInt64
  modelCooldownMaxSecs : Option UInt64
  refreshMarginSecs : Option UInt64
  keepaliveSecs : Option UInt64
  maxBodyBytes : Option UInt64
  shutdownTimeoutSecs : Option UInt64

structure FileCheckin where
  enabled : Option Bool
  intervalSecs : Option UInt64

/-- What a configuration file says; every key may be missing. -/
structure FileConfig where
  server : FileServer
  model : FileModel
  upstream : FileUpstream
  auth : FileAuth
  timeouts : FileTimeouts
  limits : FileLimits
  checkin : FileCheckin
  logLevel : Option String
  secret : Option String

def trimSlashes (url : String) : String := String.ofList (url.toList.rdropWhile fun c => c = '/')

def filled (text : Option String) : Option String := text.filter fun text => text ≠ ""

def applyFile (config : Config) (file : FileConfig) : Config where
  server := {
    host := file.server.host.getD config.server.host
    port := file.server.port.getD config.server.port
    apiKey := (filled file.server.apiKey) <|> config.server.apiKey }
  model := ⟨file.model.default.getD config.model.default⟩
  upstream := {
    baseUrl := (file.upstream.baseUrl.map trimSlashes).getD config.upstream.baseUrl
    loginPortal := (file.upstream.loginPortal.map trimSlashes).getD config.upstream.loginPortal
    -- an empty proxy turns an earlier one off
    proxy := file.upstream.proxy.elim config.upstream.proxy fun proxy => filled (some proxy)
    connectTimeoutSecs := file.upstream.connectTimeoutSecs.getD config.upstream.connectTimeoutSecs }
  auth := {
    dir := file.auth.dir.getD config.auth.dir
    seedDirs := file.auth.seedDirs.getD config.auth.seedDirs }
  timeouts := {
    firstEventSecs := file.timeouts.firstEventSecs.getD config.timeouts.firstEventSecs
    firstSemanticSecs := file.timeouts.firstSemanticSecs.getD config.timeouts.firstSemanticSecs
    streamIdleSecs := file.timeouts.streamIdleSecs.getD config.timeouts.streamIdleSecs
    semanticIdleSecs := file.timeouts.semanticIdleSecs.getD config.timeouts.semanticIdleSecs }
  limits := {
    shadowMaxSessions := file.limits.shadowMaxSessions.getD config.limits.shadowMaxSessions
    shadowTtlSecs := file.limits.shadowTtlSecs.getD config.limits.shadowTtlSecs
    stickyTtlSecs := file.limits.stickyTtlSecs.getD config.limits.stickyTtlSecs
    stickyMax := file.limits.stickyMax.getD config.limits.stickyMax
    credCooldownSecs := file.limits.credCooldownSecs.getD config.limits.credCooldownSecs
    hardCreditCooldownSecs :=
      file.limits.hardCreditCooldownSecs.getD config.limits.hardCreditCooldownSecs
    modelCooldownSecs := file.limits.modelCooldownSecs.getD config.limits.modelCooldownSecs
    modelCooldownMaxSecs := file.limits.modelCooldownMaxSecs.getD config.limits.modelCooldownMaxSecs
    refreshMarginSecs := file.limits.refreshMarginSecs.getD config.limits.refreshMarginSecs
    keepaliveSecs := file.limits.keepaliveSecs.getD config.limits.keepaliveSecs
    maxBodyBytes := file.limits.maxBodyBytes.getD config.limits.maxBodyBytes
    shutdownTimeoutSecs := file.limits.shutdownTimeoutSecs.getD config.limits.shutdownTimeoutSecs }
  checkin := {
    enabled := file.checkin.enabled.getD config.checkin.enabled
    intervalSecs := file.checkin.intervalSecs.getD config.checkin.intervalSecs }
  logLevel := file.logLevel.getD config.logLevel
  secret := file.secret <|> config.secret

abbrev Environment := String → Option String

def applyEnv (config : Config) (var : Environment) : Config :=
  { config with
    auth := { config.auth with dir := (filled (var "LOBSTERAI_AUTH_DIR")).getD config.auth.dir }
    server := { config.server with
      apiKey := (filled (var "LOBSTERAI_PROXY_API_KEY")) <|> config.server.apiKey }
    upstream := { config.upstream with
      baseUrl :=
        ((filled (var "LOBSTERAI_UPSTREAM_BASE")).map trimSlashes).getD config.upstream.baseUrl
      loginPortal :=
        ((filled (var "LOBSTERAI_LOGIN_PORTAL")).map trimSlashes).getD config.upstream.loginPortal
      proxy := (filled (var "LOBSTERAI_PROXY_URL")) <|> config.upstream.proxy } }

end Layers

inductive ConfigError where
  | read (path source : String)
  | parse (path source : String)
  | invalid (message : String)
  deriving DecidableEq, Repr

def isLoopback (config : Config) : Bool :=
  config.server.host = "127.0.0.1" || config.server.host = "::1" || config.server.host = "localhost"

def validate (config : Config) : Except ConfigError Unit :=
  if !config.isLoopback && config.server.apiKey.isNone then
    .error (.invalid ("api_key must be set when binding a non-loopback address " ++
      "(otherwise the LobsterAI accounts are exposed to the network)"))
  else if config.upstream.baseUrl = "" then .error (.invalid "upstream.base_url must not be empty")
  else .ok ()

/-- The files of the machine, and the parser of their texts. -/
structure Machine where
  exists? : String → Bool
  readToString : String → Except String String
  parse : String → Except String FileConfig
  authDir : String
  var : Environment

structure Arguments where
  config : Option String
  host : Option String
  port : Option UInt16

section Start
variable (machine : Machine)

def readFile (path : String) : Except ConfigError FileConfig :=
  match machine.readToString path with
  | .error source => .error (.read path source)
  | .ok text =>
    match machine.parse text with
    | .error source => .error (.parse path source)
    | .ok file => .ok file

def configPath (explicitPath : Option String) : Option String :=
  explicitPath.or (if machine.exists? "config.toml" then some "config.toml" else none)

/-- The defaults, under the file when there is one. -/
def loadFile (path : Option String) : Except ConfigError Config :=
  match path with
  | none => .ok (builtIn machine.authDir)
  | some path => (readFile machine path).map (applyFile (builtIn machine.authDir))

def load (explicitPath : Option String) : Except ConfigError Config := do
  let config ← loadFile machine (configPath machine explicitPath)
  let config := applyEnv config machine.var
  validate config
  return config

def override (arguments : Arguments) (config : Config) : Config :=
  { config with server := { config.server with
      host := arguments.host.getD config.server.host
      port := arguments.port.getD config.server.port } }

/-- What `serve` runs with: the overrides are checked once more. -/
def start (arguments : Arguments) : Except ConfigError Config := do
  let config ← load machine arguments.config
  let config := override arguments config
  validate config
  return config

end Start

section Tidy
variable {config : Config} {text : Option String}

/-- No slash at the end: a path that starts with one can be put after it. -/
def Slashless (url : String) : Prop := url.toList.getLast? ≠ some '/'

/-- What every layer keeps: no empty key, no empty proxy, and origins without a slash at the end. -/
structure Tidy (config : Config) : Prop where
  apiKey : config.server.apiKey ≠ some ""
  proxy : config.upstream.proxy ≠ some ""
  baseUrl : Slashless config.upstream.baseUrl
  loginPortal : Slashless config.upstream.loginPortal

theorem filled_ne (text : Option String) : filled text ≠ some "" := by
  intro h
  have hne := (Option.filter_eq_some_iff.mp h).2
  simp at hne

theorem or_ne (h : text ≠ some "") (set : Option String) : (filled set <|> text) ≠ some "" := by
  cases hset : filled set with
  | none => exact h
  | some value =>
    intro hvalue
    exact filled_ne set (hset.trans hvalue)

theorem slashless_trimSlashes (url : String) : Slashless (trimSlashes url) := by
  unfold Slashless trimSlashes
  rw [String.toList_ofList]
  intro hlast
  have hne : url.toList.rdropWhile (fun c => decide (c = '/')) ≠ [] := by
    intro hnil
    rw [hnil] at hlast
    cases hlast
  rw [List.getLast?_eq_some_getLast hne] at hlast
  have hnot := List.rdropWhile_last_not (fun c => decide (c = '/')) url.toList hne
  rw [Option.some.inj hlast] at hnot
  exact hnot (decide_eq_true rfl)

theorem slashless_getD (set : Option String) {url : String} (h : Slashless url) :
    Slashless ((set.map trimSlashes).getD url) := by
  cases set with
  | none => exact h
  | some value => exact slashless_trimSlashes value

theorem tidy_builtIn (authDir : String) : Tidy (builtIn authDir) := by
  have hserver : Slashless "https://lobsterai-server.youdao.com" := by
    unfold Slashless
    decide +kernel
  have hportal : Slashless "https://lobsterai.youdao.com" := by
    unfold Slashless
    decide +kernel
  exact ⟨nofun, nofun, hserver, hportal⟩

theorem Tidy.applyFile (h : Tidy config) (file : FileConfig) : Tidy (applyFile config file) where
  apiKey := or_ne h.apiKey _
  proxy := by
    show (file.upstream.proxy.elim config.upstream.proxy fun proxy => filled (some proxy)) ≠ some ""
    cases file.upstream.proxy with
    | none => exact h.proxy
    | some proxy => exact filled_ne (some proxy)
  baseUrl := slashless_getD _ h.baseUrl
  loginPortal := slashless_getD _ h.loginPortal

theorem Tidy.applyEnv (h : Tidy config) (var : Environment) : Tidy (applyEnv config var) where
  apiKey := or_ne h.apiKey _
  proxy := or_ne h.proxy _
  baseUrl := slashless_getD _ h.baseUrl
  loginPortal := slashless_getD _ h.loginPortal

theorem Tidy.override (h : Tidy config) (arguments : Arguments) :
    Tidy (override arguments config) :=
  ⟨h.apiKey, h.proxy, h.baseUrl, h.loginPortal⟩

end Tidy

section Sound
variable {machine : Machine} {arguments : Arguments} {config : Config}

/-- A tidy configuration that is not open to the network. -/
structure Sound (config : Config) : Prop extends Tidy config where
  closed : config.isLoopback = true ∨ ∃ key, config.server.apiKey = some key ∧ key ≠ ""
  origin : config.upstream.baseUrl ≠ ""

theorem validate_ok (h : validate config = .ok ()) :
    (config.isLoopback = true ∨ config.server.apiKey.isSome = true) ∧
    config.upstream.baseUrl ≠ "" := by
  unfold validate at h
  split_ifs at h with hopen hbase
  refine ⟨?_, hbase⟩
  cases hloopback : config.isLoopback with
  | true => exact .inl rfl
  | false =>
    rw [hloopback, Bool.not_false, Bool.true_and] at hopen
    exact .inr (Option.isSome_iff_ne_none.mpr fun hnone => hopen (by rw [hnone]; rfl))

theorem Tidy.sound (h : Tidy config) (hvalid : validate config = .ok ()) : Sound config where
  toTidy := h
  closed := by
    rcases (validate_ok hvalid).1 with hloopback | hkey
    · exact .inl hloopback
    · obtain ⟨key, hkey⟩ := Option.isSome_iff_exists.mp hkey
      refine .inr ⟨key, hkey, ?_⟩
      rintro rfl
      exact h.apiKey hkey
  origin := (validate_ok hvalid).2

theorem eq_of_checked {checked : Config}
    (h : (do validate checked; return checked) = Except.ok config) :
    checked = config ∧ validate config = .ok () := by
  cases hvalid : validate checked with
  | error err =>
    rw [hvalid] at h
    cases h
  | ok _ =>
    rw [hvalid] at h
    cases h
    exact ⟨rfl, hvalid⟩

theorem tidy_of_loadFile {path : Option String} (h : loadFile machine path = .ok config) :
    Tidy config := by
  cases path with
  | none =>
    cases h
    exact tidy_builtIn machine.authDir
  | some path =>
    unfold loadFile at h
    dsimp only at h
    cases hread : readFile machine path with
    | error err =>
      rw [hread] at h
      cases h
    | ok file =>
      rw [hread] at h
      cases h
      exact (tidy_builtIn machine.authDir).applyFile file

theorem tidy_of_load {explicitPath : Option String} (h : load machine explicitPath = .ok config) :
    Tidy config := by
  unfold load at h
  cases hfile : loadFile machine (configPath machine explicitPath) with
  | error err =>
    rw [hfile] at h
    cases h
  | ok layered =>
    rw [hfile] at h
    obtain ⟨rfl, -⟩ := eq_of_checked h
    exact (tidy_of_loadFile hfile).applyEnv machine.var

/-- Whatever the file, the environment and the command line say, the server starts only with a
sound configuration. -/
theorem sound_of_start (h : start machine arguments = .ok config) : Sound config := by
  unfold start at h
  cases hload : load machine arguments.config with
  | error err =>
    rw [hload] at h
    cases h
  | ok loaded =>
    rw [hload] at h
    obtain ⟨rfl, hvalid⟩ := eq_of_checked h
    exact ((tidy_of_load hload).override arguments).sound hvalid

end Sound
end Config
end Lobster
