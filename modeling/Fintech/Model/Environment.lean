import Mathlib.Data.Rat.Defs
import Fintech.Model.Text

/-!
# The environment

`validateEnvironment`: what the variables of a process must be for it to start, and the values that the services then
read. `Number` and the URL parser are parameters.
-/

namespace Fintech

inductive PaymentProviderSetting | disabled | mock | paystack
  deriving DecidableEq, Repr

inductive NodeEnv | development | test | production
  deriving DecidableEq, Repr

inductive LogLevel | fatal | error | warn | info | debug | trace | silent
  deriving DecidableEq, Repr

/-- `z.infer<typeof environmentSchema>` -/
structure Environment where
  authRateLimit : Int
  apiDocsEnabled : Option Bool
  metricsToken : Option String
  paymentProvider : PaymentProviderSetting
  paystackSecretKey : Option String
  mockProviderWebhookSecret : Option String
  nodeEnv : NodeEnv
  port : Int
  databaseUrl : String
  jwtAccessSecret : String
  jwtAccessTtlSeconds : Int
  corsOrigin : String
  logLevel : LogLevel
  webhookEncryptionKey : Option String
  redisUrl : String
  outboxPollIntervalMs : Int
  deriving DecidableEq

namespace Environment

def exampleJwtSecret : String := "replace-with-at-least-32-random-characters"

/-- `new URL(value)`, of which the schema reads two parts. -/
structure Url where
  protocol : String
  origin : String

inductive Number | nan | infinite | finite (q : ℚ)

/-- What the schema uses of the language: `Number(s)` and `new URL(s)`. -/
structure Parsers where
  number : String → Number
  url : String → Option Url

/-- `/^sk_(test|live)_[A-Za-z0-9]+$/` -/
def isPaystackKey (s : String) : Bool :=
  let rest := s.toList.drop 8
  ["sk_test_", "sk_live_"].any (fun w => s.toList.take 8 == w.toList) && !rest.isEmpty &&
    rest.all fun c => ('A' ≤ c && c ≤ 'Z') || ('a' ≤ c && c ≤ 'z') || ('0' ≤ c && c ≤ '9')

/-- `/^[0-9a-fA-F]{n}$/` -/
def isHex (n : Nat) (s : String) : Bool :=
  s.length == n && s.toList.all fun c => ('0' ≤ c && c ≤ '9') || ('a' ≤ c && c ≤ 'f') || ('A' ≤ c && c ≤ 'F')

/-- What zod makes of one field. A text or a number that fails a check is dirty: the refinement still runs, on what was
given. Where a field is aborted there is nothing to refine. -/
inductive Field (α : Type)
  | valid (value : α)
  | dirty (given : String)
  | aborted

inductive Status | valid | dirty | aborted
  deriving DecidableEq

namespace Field
variable {α : Type}

def status : Field α → Status
  | valid _ => .valid
  | dirty _ => .dirty
  | aborted => .aborted

def valid? : Field α → Option α
  | valid a => some a
  | _ => none

/-- The value that the refinement reads. -/
def value? (ofGiven : String → α) : Field α → Option α
  | valid a => some a
  | dirty given => some (ofGiven given)
  | aborted => none

def ofCheck (ok : Bool) (a : α) (given : String) : Field α := if ok then valid a else dirty given

end Field

/-- `z.coerce.number().int().min(low).max(high).default(standard)` -/
def integer (parsers : Parsers) (low high standard : Int) : Option String → Field Int
  | none => .valid standard
  | some s =>
      match parsers.number s with
      | .nan => .aborted
      | .infinite => .dirty s
      | .finite q => .ofCheck (q.den = 1 ∧ low ≤ q.num ∧ q.num ≤ high) q.num s

/-- `z.enum(names).default(standard)` -/
def choice {α : Type} (names : List (String × α)) (standard : α) : Option String → Field α
  | none => .valid standard
  | some s =>
      match names.lookup s with
      | some a => .valid a
      | none => .aborted

/-- `z.string()` with a check, required. -/
def required (check : String → Bool) : Option String → Field String
  | none => .aborted
  | some s => .ofCheck (check s) s s

/-- `z.preprocess((value) => (value === '' ? undefined : value), z.string()….optional())` -/
def unlessEmpty (check : String → Bool) (given : Option String) : Field (Option String) :=
  match given.filter fun s => s ≠ "" with
  | none => .valid none
  | some s => .ofCheck (check s) (some s) s

/-- The fields of the schema. -/
structure Fields where
  authRateLimit : Field Int
  apiDocsEnabled : Field (Option Bool)
  metricsToken : Field (Option String)
  paymentProvider : Field PaymentProviderSetting
  paystackSecretKey : Field (Option String)
  mockProviderWebhookSecret : Field (Option String)
  nodeEnv : Field NodeEnv
  port : Field Int
  databaseUrl : Field String
  jwtAccessSecret : Field String
  jwtAccessTtlSeconds : Field Int
  corsOrigin : Field String
  logLevel : Field LogLevel
  webhookEncryptionKey : Field (Option String)
  redisUrl : Field String
  outboxPollIntervalMs : Field Int

/-- `environmentSchema`, up to its refinement. -/
def fields (parsers : Parsers) (config : String → Option String) : Fields where
  authRateLimit := integer parsers 1 10000 60 (config "AUTH_RATE_LIMIT")
  apiDocsEnabled := choice [("true", some true), ("false", some false)] none (config "API_DOCS_ENABLED")
  metricsToken := unlessEmpty (fun s => 32 ≤ jsLength s) (config "METRICS_TOKEN")
  paymentProvider := choice [("disabled", .disabled), ("mock", .mock), ("paystack", .paystack)] .disabled
    (config "PAYMENT_PROVIDER")
  paystackSecretKey := unlessEmpty isPaystackKey (config "PAYSTACK_SECRET_KEY")
  mockProviderWebhookSecret := unlessEmpty (fun s => 32 ≤ jsLength s) (config "MOCK_PROVIDER_WEBHOOK_SECRET")
  nodeEnv := choice [("development", .development), ("test", .test), ("production", .production)] .development
    (config "NODE_ENV")
  port := integer parsers 1 65535 3000 (config "PORT")
  databaseUrl := required (fun s => 1 ≤ jsLength s) (config "DATABASE_URL")
  jwtAccessSecret := required (fun s => 32 ≤ jsLength s && s != exampleJwtSecret) (config "JWT_ACCESS_SECRET")
  jwtAccessTtlSeconds := integer parsers 60 86400 900 (config "JWT_ACCESS_TTL_SECONDS")
  corsOrigin := required (fun s => 1 ≤ jsLength s) (some ((config "CORS_ORIGIN").getD "http://localhost:3000"))
  logLevel := choice [("fatal", .fatal), ("error", .error), ("warn", .warn), ("info", .info), ("debug", .debug),
    ("trace", .trace), ("silent", .silent)] .info (config "LOG_LEVEL")
  webhookEncryptionKey := unlessEmpty (isHex 64) (config "WEBHOOK_ENCRYPTION_KEY")
  redisUrl := required (fun s => (parsers.url s).isSome) (some ((config "REDIS_URL").getD "redis://localhost:6380"))
  outboxPollIntervalMs := integer parsers 100 60000 1000 (config "OUTBOX_POLL_INTERVAL_MS")

/-- The fields that `superRefine` reads. -/
structure Refined where
  paymentProvider : PaymentProviderSetting
  paystackSecretKey : Option String
  mockProviderWebhookSecret : Option String
  nodeEnv : NodeEnv
  corsOrigin : String

def refined (env : Environment) : Refined where
  paymentProvider := env.paymentProvider
  paystackSecretKey := env.paystackSecretKey
  mockProviderWebhookSecret := env.mockProviderWebhookSecret
  nodeEnv := env.nodeEnv
  corsOrigin := env.corsOrigin

namespace Fields

def all : Fields → Option Environment
  | ⟨.valid authRateLimit, .valid apiDocsEnabled, .valid metricsToken, .valid paymentProvider, .valid paystackSecretKey,
      .valid mockProviderWebhookSecret, .valid nodeEnv, .valid port, .valid databaseUrl, .valid jwtAccessSecret,
      .valid jwtAccessTtlSeconds, .valid corsOrigin, .valid logLevel, .valid webhookEncryptionKey, .valid redisUrl,
      .valid outboxPollIntervalMs⟩ =>
      some {
        authRateLimit, apiDocsEnabled, metricsToken, paymentProvider, paystackSecretKey, mockProviderWebhookSecret,
        nodeEnv, port, databaseUrl, jwtAccessSecret, jwtAccessTtlSeconds, corsOrigin, logLevel, webhookEncryptionKey,
        redisUrl, outboxPollIntervalMs }
  | _ => none

def statuses (f : Fields) : List (String × Status) :=
  [("AUTH_RATE_LIMIT", f.authRateLimit.status), ("API_DOCS_ENABLED", f.apiDocsEnabled.status),
    ("METRICS_TOKEN", f.metricsToken.status), ("PAYMENT_PROVIDER", f.paymentProvider.status),
    ("PAYSTACK_SECRET_KEY", f.paystackSecretKey.status),
    ("MOCK_PROVIDER_WEBHOOK_SECRET", f.mockProviderWebhookSecret.status), ("NODE_ENV", f.nodeEnv.status),
    ("PORT", f.port.status), ("DATABASE_URL", f.databaseUrl.status), ("JWT_ACCESS_SECRET", f.jwtAccessSecret.status),
    ("JWT_ACCESS_TTL_SECONDS", f.jwtAccessTtlSeconds.status), ("CORS_ORIGIN", f.corsOrigin.status),
    ("LOG_LEVEL", f.logLevel.status), ("WEBHOOK_ENCRYPTION_KEY", f.webhookEncryptionKey.status),
    ("REDIS_URL", f.redisUrl.status), ("OUTBOX_POLL_INTERVAL_MS", f.outboxPollIntervalMs.status)]

/-- The paths of the fields that have an issue. -/
def failing (f : Fields) : List String := (f.statuses.filter fun x => x.2 ≠ .valid).map Prod.fst

/-- What the refinement reads, unless some field is aborted. -/
def refined (f : Fields) : Option Refined :=
  if f.statuses.any fun x => x.2 = .aborted then none
  else do
    return {
      paymentProvider := ← f.paymentProvider.valid?
      paystackSecretKey := ← f.paystackSecretKey.value? some
      mockProviderWebhookSecret := ← f.mockProviderWebhookSecret.value? some
      nodeEnv := ← f.nodeEnv.valid?
      corsOrigin := ← f.corsOrigin.value? id }

end Fields

def isHttpsOrigin (parsers : Parsers) (value : String) : Bool :=
  (parsers.url value).any fun url => url.protocol == "https:" && url.origin == value

def isLiveKey (key : String) : Bool := key.toList.take 8 == "sk_live_".toList

/-- The issues of `superRefine`, each with its path. -/
def issues (parsers : Parsers) (config : Refined) : List (String × String) :=
  let origins := (config.corsOrigin.toList.splitOn ',').map fun cs => jsTrim (.ofList cs)
  [(decide (config.nodeEnv = .production ∧ ¬ origins.all (isHttpsOrigin parsers)),
      "CORS_ORIGIN", "Production requires explicit HTTPS origins without paths"),
    (decide (config.paymentProvider = .paystack ∧ config.paystackSecretKey = none),
      "PAYSTACK_SECRET_KEY", "Paystack secret key is required"),
    (decide (config.nodeEnv ≠ .production ∧ config.paystackSecretKey.any isLiveKey),
      "PAYSTACK_SECRET_KEY", "Live Paystack keys require production mode"),
    (decide (config.paymentProvider = .mock ∧ config.nodeEnv = .production),
      "PAYMENT_PROVIDER", "Mock payments cannot be enabled in production"),
    (decide (config.paymentProvider = .mock ∧ config.mockProviderWebhookSecret = none),
      "MOCK_PROVIDER_WEBHOOK_SECRET", "A private mock webhook secret is required")].filterMap fun i =>
    if i.1 then some i.2 else none

/-- The fields with an issue, and the issues of the refinement. -/
structure Invalid where
  fields : List String
  refinement : List (String × String)

end Environment

open Environment in
def validateEnvironment (parsers : Parsers) (config : String → Option String) : Except Invalid Environment :=
  let parsed := fields parsers config
  let found := parsed.refined.elim [] (issues parsers)
  match parsed.all, found with
  | some env, [] => .ok env
  | _, _ => .error ⟨parsed.failing, found⟩

end Fintech
