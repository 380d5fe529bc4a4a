import Fintech.Model.Callbacks
import Fintech.Proof.LedgerInput
import Fintech.Proof.Numerals

/-!
# The environments that a process starts with

`validateEnvironment` accepts the environments whose fields are within their bounds and whose selected provider is
enabled for the guards at run time, and no others.
-/

namespace Fintech

/-! ## An environment -/

def sampleEnvironment : Environment where
  authRateLimit := 20
  apiDocsEnabled := none
  metricsToken := none
  paymentProvider := .mock
  paystackSecretKey := none
  mockProviderWebhookSecret := some "0123456789abcdef0123456789abcdef"
  nodeEnv := .test
  port := 3000
  databaseUrl := "postgresql://localhost/fintech"
  jwtAccessSecret := "0123456789abcdef0123456789abcdef"
  jwtAccessTtlSeconds := 900
  corsOrigin := "http://localhost:3000"
  logLevel := .info
  webhookEncryptionKey := none
  redisUrl := "redis://localhost:6379"
  outboxPollIntervalMs := 1000

namespace Environment

variable {parsers : Parsers}

/-! ## Fields -/

theorem Field.ofCheck_eq_valid {α : Type} {ok : Bool} {a b : α} {given : String} :
    Field.ofCheck ok a given = .valid b ↔ ok = true ∧ a = b := by
  cases ok <;> simp [Field.ofCheck]

theorem integer_eq_valid {low high standard n : Int} {given : Option String}
    (h : integer parsers low high standard given = .valid n) (within : low ≤ standard ∧ standard ≤ high) : low ≤ n ∧ n ≤ high := by
  cases given with
  | none =>
      cases h
      exact within
  | some s =>
      simp only [integer] at h
      split at h
      · cases h
      · cases h
      · obtain ⟨checked, same⟩ := Field.ofCheck_eq_valid.mp h
        cases same
        exact (of_decide_eq_true checked).2

theorem integer_toString {low high n : Int} (standard : Int) (decimal : parsers.number (toString n) = .finite n)
    (within : low ≤ n ∧ n ≤ high) : integer parsers low high standard (some (toString n)) = .valid n := by
  simp only [integer, decimal]
  exact Field.ofCheck_eq_valid.mpr ⟨by simpa using within, rfl⟩

theorem unlessEmpty_eq_valid {check : String → Bool} {given v : Option String} (h : unlessEmpty check given = .valid v) :
    ∀ s ∈ v, check s = true := by
  unfold unlessEmpty at h
  split at h
  · cases h
    simp
  · obtain ⟨checked, same⟩ := Field.ofCheck_eq_valid.mp h
    cases same
    simpa using checked

theorem unlessEmpty_self {p : String → Bool} {v : Option String} (checked : ∀ s ∈ v, p s = true)
    (empty : p "" = false) : unlessEmpty p v = .valid v := by
  cases v with
  | none => rfl
  | some s =>
      have checked := checked s rfl
      have nonempty : s ≠ "" := by
        rintro rfl
        cases empty.symm.trans checked
      simp [unlessEmpty, Option.filter, nonempty, checked, Field.ofCheck]

theorem required_eq_valid {check : String → Bool} {given : Option String} {s : String} :
    required check given = .valid s ↔ given = some s ∧ check s = true := by
  cases given with
  | none => simp [required]
  | some t =>
      rw [required, Field.ofCheck_eq_valid, Option.some.injEq]
      constructor
      · rintro ⟨checked, rfl⟩
        exact ⟨rfl, checked⟩
      · rintro ⟨rfl, checked⟩
        exact ⟨checked, rfl⟩

/-- What the fields of the schema check. -/
structure Parsed (parsers : Parsers) (env : Environment) : Prop where
  authRateLimit : 1 ≤ env.authRateLimit ∧ env.authRateLimit ≤ 10000
  metricsToken : ∀ s ∈ env.metricsToken, 32 ≤ jsLength s
  paystackSecretKey : ∀ s ∈ env.paystackSecretKey, isPaystackKey s = true
  mockProviderWebhookSecret : ∀ s ∈ env.mockProviderWebhookSecret, 32 ≤ jsLength s
  port : 1 ≤ env.port ∧ env.port ≤ 65535
  databaseUrl : 1 ≤ jsLength env.databaseUrl
  jwtAccessSecret : 32 ≤ jsLength env.jwtAccessSecret ∧ env.jwtAccessSecret ≠ exampleJwtSecret
  jwtAccessTtlSeconds : 60 ≤ env.jwtAccessTtlSeconds ∧ env.jwtAccessTtlSeconds ≤ 86400
  corsOrigin : 1 ≤ jsLength env.corsOrigin
  webhookEncryptionKey : ∀ s ∈ env.webhookEncryptionKey, isHex 64 s = true
  redisUrl : (parsers.url env.redisUrl).isSome = true
  outboxPollIntervalMs : 100 ≤ env.outboxPollIntervalMs ∧ env.outboxPollIntervalMs ≤ 60000

/-- The fields of an environment. -/
def read (env : Environment) : Fields where
  authRateLimit := .valid env.authRateLimit
  apiDocsEnabled := .valid env.apiDocsEnabled
  metricsToken := .valid env.metricsToken
  paymentProvider := .valid env.paymentProvider
  paystackSecretKey := .valid env.paystackSecretKey
  mockProviderWebhookSecret := .valid env.mockProviderWebhookSecret
  nodeEnv := .valid env.nodeEnv
  port := .valid env.port
  databaseUrl := .valid env.databaseUrl
  jwtAccessSecret := .valid env.jwtAccessSecret
  jwtAccessTtlSeconds := .valid env.jwtAccessTtlSeconds
  corsOrigin := .valid env.corsOrigin
  logLevel := .valid env.logLevel
  webhookEncryptionKey := .valid env.webhookEncryptionKey
  redisUrl := .valid env.redisUrl
  outboxPollIntervalMs := .valid env.outboxPollIntervalMs

theorem all_eq_some {f : Fields} {env : Environment} : f.all = some env ↔ f = read env := by
  constructor
  · intro h
    unfold Fields.all at h
    split at h
    · cases h
      rfl
    · cases h
  · rintro rfl
    rfl

theorem parsed_of_fields {config : String → Option String} {env : Environment} (h : fields parsers config = read env) :
    Parsed parsers env := by
  have jwt := (required_eq_valid.mp (congrArg Fields.jwtAccessSecret h)).2
  simp only [Bool.and_eq_true, decide_eq_true_eq, bne_iff_ne] at jwt
  have cors : required (fun s => 1 ≤ jsLength s) (some ((config "CORS_ORIGIN").getD "http://localhost:3000")) =
    .valid env.corsOrigin := congrArg Fields.corsOrigin h
  have redis : required (fun s => (parsers.url s).isSome) (some ((config "REDIS_URL").getD "redis://localhost:6380")) =
    .valid env.redisUrl := congrArg Fields.redisUrl h
  exact {
    authRateLimit := integer_eq_valid (congrArg Fields.authRateLimit h) (by decide)
    metricsToken := by simpa using unlessEmpty_eq_valid (congrArg Fields.metricsToken h)
    paystackSecretKey := unlessEmpty_eq_valid (congrArg Fields.paystackSecretKey h)
    mockProviderWebhookSecret := by simpa using unlessEmpty_eq_valid (congrArg Fields.mockProviderWebhookSecret h)
    port := integer_eq_valid (congrArg Fields.port h) (by decide)
    databaseUrl := by simpa using (required_eq_valid.mp (congrArg Fields.databaseUrl h)).2
    jwtAccessSecret := jwt
    jwtAccessTtlSeconds := integer_eq_valid (congrArg Fields.jwtAccessTtlSeconds h) (by decide)
    corsOrigin := by simpa using (required_eq_valid.mp cors).2
    webhookEncryptionKey := unlessEmpty_eq_valid (congrArg Fields.webhookEncryptionKey h)
    redisUrl := (required_eq_valid.mp redis).2
    outboxPollIntervalMs := integer_eq_valid (congrArg Fields.outboxPollIntervalMs h) (by decide) }

/-! ## Variables for an environment -/

def providerName : PaymentProviderSetting → String
  | .disabled => "disabled"
  | .mock => "mock"
  | .paystack => "paystack"

def nodeEnvName : NodeEnv → String
  | .development => "development"
  | .test => "test"
  | .production => "production"

def levelName : LogLevel → String
  | .fatal => "fatal"
  | .error => "error"
  | .warn => "warn"
  | .info => "info"
  | .debug => "debug"
  | .trace => "trace"
  | .silent => "silent"

/-- Variables that set every field. -/
def written (env : Environment) : List (String × Option String) := [
  ("AUTH_RATE_LIMIT", some (toString env.authRateLimit)),
  ("API_DOCS_ENABLED", env.apiDocsEnabled.map fun on => if on then "true" else "false"),
  ("METRICS_TOKEN", env.metricsToken),
  ("PAYMENT_PROVIDER", some (providerName env.paymentProvider)),
  ("PAYSTACK_SECRET_KEY", env.paystackSecretKey),
  ("MOCK_PROVIDER_WEBHOOK_SECRET", env.mockProviderWebhookSecret),
  ("NODE_ENV", some (nodeEnvName env.nodeEnv)),
  ("PORT", some (toString env.port)),
  ("DATABASE_URL", some env.databaseUrl),
  ("JWT_ACCESS_SECRET", some env.jwtAccessSecret),
  ("JWT_ACCESS_TTL_SECONDS", some (toString env.jwtAccessTtlSeconds)),
  ("CORS_ORIGIN", some env.corsOrigin),
  ("LOG_LEVEL", some (levelName env.logLevel)),
  ("WEBHOOK_ENCRYPTION_KEY", env.webhookEncryptionKey),
  ("REDIS_URL", some env.redisUrl),
  ("OUTBOX_POLL_INTERVAL_MS", some (toString env.outboxPollIntervalMs))]

def config (env : Environment) (name : String) : Option String := ((written env).lookup name).join

/-- The numbers that the fields hold are read from their decimal numerals. -/
def ReadsNumerals (parsers : Parsers) : Prop := ∀ n : Int, 0 < n → n ≤ 86400 → parsers.number (toString n) = .finite n

theorem ReadsNumerals.integer (decimal : ReadsNumerals parsers) {low high n : Int} (standard : Int)
    (within : low ≤ n ∧ n ≤ high) (pos : 0 < low) (le : high ≤ 86400) :
    integer parsers low high standard (some (toString n)) = .valid n :=
  integer_toString standard (decimal n (by omega) (by omega)) within

theorem fields_config (decimal : ReadsNumerals parsers) {env : Environment} (h : Parsed parsers env) :
    fields parsers (config env) = read env := by
  have empty : decide (32 ≤ jsLength "") = false := by decide
  have rate := decimal.integer 60 h.authRateLimit (by decide) (by decide)
  have docs : choice [("true", some true), ("false", some false)] none
      (env.apiDocsEnabled.map fun on => if on then "true" else "false") = .valid env.apiDocsEnabled := by
    rcases env.apiDocsEnabled with _ | _ | _ <;> rfl
  have metrics := unlessEmpty_self (p := fun s => decide (32 ≤ jsLength s)) (by simpa using h.metricsToken) empty
  have provider : choice [("disabled", .disabled), ("mock", .mock), ("paystack", .paystack)] PaymentProviderSetting.disabled
      (some (providerName env.paymentProvider)) = .valid env.paymentProvider := by
    cases env.paymentProvider <;> rfl
  have key := unlessEmpty_self h.paystackSecretKey (by decide)
  have secret := unlessEmpty_self (p := fun s => decide (32 ≤ jsLength s)) (by simpa using h.mockProviderWebhookSecret) empty
  have mode : choice [("development", .development), ("test", .test), ("production", .production)] NodeEnv.development
      (some (nodeEnvName env.nodeEnv)) = .valid env.nodeEnv := by
    cases env.nodeEnv <;> rfl
  have port := decimal.integer 3000 h.port (by decide) (by decide)
  have ttl := decimal.integer 900 h.jwtAccessTtlSeconds (by decide) (by decide)
  have level : choice [("fatal", .fatal), ("error", .error), ("warn", .warn), ("info", .info), ("debug", .debug),
      ("trace", .trace), ("silent", .silent)] LogLevel.info (some (levelName env.logLevel)) = .valid env.logLevel := by
    cases env.logLevel <;> rfl
  have encryption := unlessEmpty_self h.webhookEncryptionKey (by decide)
  have poll := decimal.integer 1000 h.outboxPollIntervalMs (by decide) (by decide)
  have database := @required_eq_valid (fun s => decide (1 ≤ jsLength s)) (some env.databaseUrl) env.databaseUrl
  have jwt := @required_eq_valid (fun s => decide (32 ≤ jsLength s) && s != exampleJwtSecret) (some env.jwtAccessSecret)
    env.jwtAccessSecret
  have cors := @required_eq_valid (fun s => decide (1 ≤ jsLength s)) (some env.corsOrigin) env.corsOrigin
  have redis := @required_eq_valid (fun s => (parsers.url s).isSome) (some env.redisUrl) env.redisUrl
  simp only [fields, read, config, written, List.lookup_cons, String.reduceBEq, Option.join_some, Option.getD_some, rate, docs,
    metrics, provider, key, secret, mode, port, ttl, level, encryption, poll, database.mpr ⟨rfl, by simpa using h.databaseUrl⟩,
    jwt.mpr ⟨rfl, by simpa using h.jwtAccessSecret⟩, cors.mpr ⟨rfl, by simpa using h.corsOrigin⟩, redis.mpr ⟨rfl, h.redisUrl⟩]

/-! ## The guards at run time -/

/-- What `validateEnvironment` promises of an environment. -/
structure Valid (parsers : Parsers) (env : Environment) : Prop where
  parsed : Parsed parsers env
  mock : env.paymentProvider = .mock → MockPaymentProvider.isEnabled env = true
  paystack : env.paymentProvider = .paystack → PaystackProvider.isEnabled env = true
  /-- Also of a key that is not used. -/
  live : ∀ key ∈ env.paystackSecretKey, isLiveKey key = true → env.nodeEnv = .production
  origins : env.nodeEnv = .production → ∀ origin ∈ env.corsOrigin.toList.splitOn ',',
    isHttpsOrigin parsers (jsTrim (.ofList origin)) = true

theorem issues_eq_nil {given : Refined} : issues parsers given = [] ↔
    (given.nodeEnv = .production → ∀ origin ∈ given.corsOrigin.toList.splitOn ',',
      isHttpsOrigin parsers (jsTrim (.ofList origin)) = true) ∧
    (given.paymentProvider = .paystack → given.paystackSecretKey ≠ none) ∧
    (∀ key ∈ given.paystackSecretKey, isLiveKey key = true → given.nodeEnv = .production) ∧
    (given.paymentProvider = .mock → given.nodeEnv ≠ .production ∧ given.mockProviderWebhookSecret ≠ none) := by
  have origins : ((given.corsOrigin.toList.splitOn ',').map fun cs => jsTrim (.ofList cs)).all (isHttpsOrigin parsers) = true ↔
      ∀ origin ∈ given.corsOrigin.toList.splitOn ',', isHttpsOrigin parsers (jsTrim (.ofList origin)) = true := by
    simp only [List.all_map, List.all_eq_true, Function.comp]
  have live : given.paystackSecretKey.any isLiveKey = true ↔ ∃ key ∈ given.paystackSecretKey, isLiveKey key = true := by
    simp only [Option.any_eq_true, Option.mem_def]
  simp only [issues, List.filterMap_eq_nil_iff, List.forall_mem_cons, ite_eq_right_iff, reduceCtorEq, imp_false,
    decide_eq_true_eq, origins, live]
  constructor
  · rintro ⟨https, key, test, mode, secret, _⟩
    refine ⟨fun production => ?_, fun selected none => key ⟨selected, none⟩, fun key mem isLive => ?_, fun selected => ?_⟩
    · by_contra some
      exact https ⟨production, some⟩
    · by_contra other
      exact test ⟨other, key, mem, isLive⟩
    · exact ⟨fun production => mode ⟨selected, production⟩, fun none => secret ⟨selected, none⟩⟩
  · rintro ⟨https, key, test, mock⟩
    refine ⟨fun h => h.2 (https h.1), fun h => key h.1 h.2, ?_, fun h => (mock h.1).1 h.2, fun h => (mock h.1).2 h.2, by simp⟩
    rintro ⟨other, key, mem, isLive⟩
    exact other (test key mem isLive)

theorem valid_iff {env : Environment} (parsed : Parsed parsers env) : Valid parsers env ↔ issues parsers env.refined = [] := by
  refine Iff.trans ?_ issues_eq_nil.symm
  change _ ↔ (env.nodeEnv = .production → _) ∧ (env.paymentProvider = .paystack → env.paystackSecretKey ≠ none) ∧
    (∀ key ∈ env.paystackSecretKey, _ → env.nodeEnv = .production) ∧
    (env.paymentProvider = .mock → env.nodeEnv ≠ .production ∧ env.mockProviderWebhookSecret ≠ none)
  constructor
  · intro h
    refine ⟨h.origins, fun selected none => ?_, h.live, fun selected => ?_⟩
    · have enabled := h.paystack selected
      simp [PaystackProvider.isEnabled, none] at enabled
    · have enabled := h.mock selected
      simp only [MockPaymentProvider.isEnabled, decide_eq_true_eq] at enabled
      refine ⟨enabled.2.1, fun none => ?_⟩
      simp [none] at enabled
  · rintro ⟨origins, key, live, mock⟩
    refine ⟨parsed, fun selected => ?_, fun selected => ?_, live, origins⟩
    · obtain ⟨mode, there⟩ := mock selected
      obtain ⟨secret, same⟩ := Option.ne_none_iff_exists'.mp there
      have long := parsed.mockProviderWebhookSecret secret same
      simp only [MockPaymentProvider.isEnabled, decide_eq_true_eq]
      exact ⟨selected, mode, by simpa [same] using long⟩
    · obtain ⟨secret, same⟩ := Option.ne_none_iff_exists'.mp (key selected)
      have shaped := parsed.paystackSecretKey secret same
      have live := live secret same
      simp only [PaystackProvider.isEnabled, decide_eq_true_eq]
      refine ⟨selected, ?_⟩
      simp only [same, Option.any_some, shaped, Bool.true_and, Bool.or_eq_true, Bool.not_eq_true', decide_eq_true_eq]
      cases test : isLiveKey secret with
      | false => exact .inl rfl
      | true => exact .inr (live test)

theorem refined_read (env : Environment) : (read env).refined = some env.refined := rfl

theorem validateEnvironment_eq_ok {config : String → Option String} {env : Environment} :
    validateEnvironment parsers config = .ok env ↔ fields parsers config = read env ∧ issues parsers env.refined = [] := by
  constructor
  · intro h
    simp only [validateEnvironment] at h
    split at h
    · rename_i env' parsed none
      cases h
      have parsed := all_eq_some.mp parsed
      rw [parsed, refined_read] at none
      exact ⟨parsed, none⟩
    · cases h
  · rintro ⟨parsed, none⟩
    have all : (read env).all = some env := rfl
    simp only [validateEnvironment, parsed, refined_read, Option.elim_some, none, all]

theorem valid_of_validated {config : String → Option String} {env : Environment}
    (h : validateEnvironment parsers config = .ok env) : Valid parsers env := by
  obtain ⟨parsed, none⟩ := validateEnvironment_eq_ok.mp h
  exact (valid_iff (parsed_of_fields parsed)).mpr none

/-- What `validateEnvironment` returns has its fields within their bounds, and a selected provider that the guards at
run time enable; and it returns every such environment when its variables are set to it. -/
theorem environments_exact (decimal : ReadsNumerals parsers) (env : Environment) :
    (∀ given, validateEnvironment parsers given = .ok env → Valid parsers env) ∧
    (Valid parsers env → validateEnvironment parsers (config env) = .ok env) := by
  refine ⟨fun given ok => valid_of_validated ok, fun h => ?_⟩
  exact validateEnvironment_eq_ok.mpr ⟨fields_config decimal h.parsed, (valid_iff h.parsed).mp h⟩

def sampleParsers : Parsers where
  number s := (bigInt? s).elim .nan fun n => .finite n
  url s := if s = "redis://localhost:6379" then some ⟨"redis:", "null"⟩ else none

theorem environments_exact_sample : Valid sampleParsers sampleEnvironment ∧
    validateEnvironment sampleParsers (config sampleEnvironment) = .ok sampleEnvironment := by
  have decimal : ReadsNumerals sampleParsers := by
    intro n pos _
    simp only [sampleParsers, bigInt?_toString pos, Option.elim_some]
  have parsed : Parsed sampleParsers sampleEnvironment := by
    constructor <;> decide
  have valid := (valid_iff parsed).mpr (by decide)
  exact ⟨valid, (environments_exact decimal sampleEnvironment).2 valid⟩

end Environment

end Fintech
