import Fintech.Model.Callbacks
import Fintech.Model.Wallets

/-!
# Authentication

`PasswordService`, the access tokens of `AuthService`, and `JwtAuthGuard`. Signing and verifying a token are
parameters.
-/

namespace Fintech

namespace PasswordService

def scryptN : Nat := 32768
def scryptR : Nat := 8
def scryptP : Nat := 3

def hash (node : Node) (salt : Digest 16) (password : String) : String :=
  "$".intercalate ["scrypt", toString scryptN, toString scryptR, toString scryptP, Encoding.base64Url.encode salt.1,
    Encoding.base64Url.encode (node.scrypt password salt.1).1]

def verify (node : Node) (password encodedHash : String) : Bool :=
  match (encodedHash.toList.splitOn '$').map String.ofList with
  | [algorithm, n, r, p, encodedSalt, encodedKey] =>
      let salt := Encoding.base64Url.decode encodedSalt
      let expectedKey := Encoding.base64Url.decode encodedKey
      algorithm == "scrypt" && node.number n == some scryptN && node.number r == some scryptR &&
        node.number p == some scryptP && encodedSalt != "" && encodedKey != "" && salt.length == 16 &&
        expectedKey.length == 64 && (node.scrypt password salt).1 == expectedKey
  | _ => false

def verifyOrBurn (node : Node) (password : String) (encodedHash : Option String) : Bool :=
  match encodedHash.filter fun s => s ≠ "" with
  | none => false
  | some encodedHash => verify node password encodedHash

end PasswordService

/-! ## Access tokens -/

/-- The payload of a verified token, as far as its values are strings. -/
structure AccessTokenPayload where
  sub : Option String
  email : Option String
  type : Option String
  deriving DecidableEq

/-- `JwtService`, with the algorithm, the issuer and the audience of the services; times in seconds. -/
structure JwtService where
  sign (secret : String) (payload : AccessTokenPayload) (now expiresIn : Int) : String
  verify (secret token : String) (now : Int) : Option AccessTokenPayload

namespace AuthService

structure AccessToken where
  accessToken : String
  tokenType : String
  expiresIn : Int
  deriving DecidableEq

def accessPayload (user : SafeUser) : AccessTokenPayload := ⟨some user.id.text, some user.email, some "access"⟩

def issueAccessToken (jwt : JwtService) (env : Environment) (now : Int) (user : SafeUser) : AccessToken where
  accessToken := jwt.sign env.jwtAccessSecret (accessPayload user) now env.jwtAccessTtlSeconds
  tokenType := "Bearer"
  expiresIn := env.jwtAccessTtlSeconds

end AuthService

namespace UsersService

def findByEmailWithPassword (email : String) (db : Db) : Option User :=
  db.users.rows.find? fun u => u.email = normalizeEmail email

def findSafeById (id : String) (db : Db) : Except DbError (Option SafeUser) := do
  return (db.users.find? (← castUuid id)).map toSafeUser

end UsersService

/-- `AuthService.login`, once the user has been looked up. -/
def AuthService.login (node : Node) (user : Option User) (password : String) : Except HttpException SafeUser :=
  match user with
  | some user =>
      if PasswordService.verifyOrBurn node password (some user.passwordHash) then .ok (UsersService.toSafeUser user)
      else .error (unauthorized "Invalid email or password")
  | none => .error (unauthorized "Invalid email or password")

/-! ## The guard -/

namespace JwtAuthGuard

/-- `split(/\s+/)` of a text without spaces at its ends. -/
def words (s : String) : List String :=
  ((s.toList.splitOnP isJsSpace).filter fun cs => !cs.isEmpty).map String.ofList

def extractBearerToken (authorization : Option String) : Except HttpException String :=
  match (authorization.map fun s => words (jsTrim s)) with
  | some [scheme, token] =>
      if toLowerCase scheme = "bearer" then .ok token else .error (unauthorized "Bearer access token is required")
  | _ => .error (unauthorized "Bearer access token is required")

/-- The subject of the token of a request. -/
def authenticate (jwt : JwtService) (env : Environment) (now : Int) (authorization : Option String) :
    Except HttpException String := do
  let token ← extractBearerToken authorization
  let some payload := jwt.verify env.jwtAccessSecret token now
    | .error (unauthorized "Invalid or expired access token")
  let some sub := payload.sub.filter fun sub => payload.type = some "access" ∧ sub ≠ ""
    | .error (unauthorized "Invalid access token")
  return sub

/-- The user that the subject names, when the guard looks it up. -/
def findUser (sub : String) (db : Db) : Except HttpException SafeUser :=
  match UsersService.findSafeById sub db with
  | .error _ => .error (unauthorized "Invalid or expired access token")
  | .ok none => .error (unauthorized "Invalid access token")
  | .ok (some user) => .ok user

end JwtAuthGuard

end Fintech
