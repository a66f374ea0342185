import Nidra.Lib.Numeric
import Nidra.Lib.PyText
import Nidra.Lib.PyUuid

/-
  This file defines how callers of the API are registered,
  logged in and recognised: passwords, tokens, the three
  routes, and the dependencies that other routes read the
  caller from.

  Key definitions include:
    * `TextRules`, `Bcrypt`, `Jwt`
    * `AuthConfig`
    * `decodeToken`, `issueTokens`
    * `RegisterRequest`, `RegisterRequest.parse`
    * `Accounts`, `Accounts.insert`
    * `register`, `selectUser`, `finishLogin`, `refresh`
    * `currentPrincipal`, `currentTenantUuid`
-/

namespace Nidra

namespace Api

namespace Auth

------------------------------------------------------------
-- What the program calls
------------------------------------------------------------

/- A text that the database can hold: it has no NUL. -/
def isStorable (text : String) : Bool :=
  !text.toList.contains (Char.ofNat 0)

/-
  Lower case in Python, and what the database compares, which
  keeps every NUL a text has.
-/
structure TextRules where
  lower : String → String
  citext : String → String
  isStorable_of_citext :
    ∀ text text', citext text = citext text' →
      isStorable text = isStorable text'

/-
  The password hashes. A text stands for its UTF-8 bytes; a
  check may be refused instead of answered.
-/
structure Bcrypt (Salt : Type) where
  hashpw : String → Salt → String
  checkpw : String → String → Option Bool
  checkpw_hashpw :
    ∀ password salt,
      password.utf8ByteSize ≤ 72 →
        checkpw password (hashpw password salt) = some true

/- What a token says; a claim may be missing. -/
structure Claims where
  sub : Option String
  tenantId : Option String
  role : Option String
  type : Option String
  iat : ℤ
  exp : Option ℤ
  jti : String
deriving DecidableEq

def Claims.expiredAt
    (claims : Claims)
    (now : ℤ) : Bool :=
  match claims.exp with
  | none => false
  | some exp => decide (exp < now)

/- Signed tokens, for one key and one algorithm. -/
structure Jwt (Token : Type) where
  encode : Claims → Token
  decode : Token → ℤ → Option Claims
  decode_encode :
    ∀ claims now,
      decode (encode claims) now =
        if claims.expiredAt now then none else some claims
  expiredAt_of_decode :
    ∀ token claims now,
      decode token now = some claims →
        claims.expiredAt now = false

------------------------------------------------------------
-- Settings
------------------------------------------------------------

def defaultRole : String := "analyst"

/- The two kinds of tokens. -/
inductive TokenType where
  | access
  | refresh
deriving DecidableEq

def TokenType.text : TokenType → String
  | .access => "access"
  | .refresh => "refresh"

theorem TokenType.text_injective :
    Function.Injective TokenType.text := by
  intro a b hText
  cases a with
  | access =>
      cases b with
      | access => rfl
      | refresh => exact absurd hText (by decide)
  | refresh =>
      cases b with
      | access => exact absurd hText (by decide)
      | refresh => rfl

/- How long a token of a kind is good for, in seconds. -/
structure AuthConfig where
  accessTtlMin : ℚ := 30
  refreshTtlDays : ℚ := 7

def AuthConfig.ttl
    (cfg : AuthConfig) : TokenType → ℚ
  | .access => cfg.accessTtlMin * 60
  | .refresh => cfg.refreshTtlDays * 86400

------------------------------------------------------------
-- Refusals
------------------------------------------------------------

/- An answer that refuses a request. -/
structure Refused where
  status : ℕ
  detail : String
deriving DecidableEq

def credentialsError (detail : String) : Refused :=
  { status := 401
    detail := detail }

def badCredentials : Refused :=
  credentialsError "Could not validate credentials"

def badLogin : Refused :=
  credentialsError "Invalid email or password"

def emailTaken : Refused :=
  { status := 409
    detail := "An account with this email already exists" }

/- The answer to an exception that no route catches. -/
def serverError : Refused :=
  { status := 500
    detail := "Internal Server Error" }

------------------------------------------------------------
-- Passwords
------------------------------------------------------------

def minPasswordBytes : ℕ := 8

def maxPasswordBytes : ℕ := 72

section Passwords

variable {Salt : Type}
variable (bcrypt : Bcrypt Salt)

/- Too long, or a hash that is none, is not a match. -/
def verifyPassword
    (password passwordHash : String) : Bool :=
  if maxPasswordBytes < password.utf8ByteSize then false
  else (bcrypt.checkpw password passwordHash).getD false

theorem verifyPassword_hashpw
    {password : String}
    (hShort : password.utf8ByteSize ≤ maxPasswordBytes)
    (salt : Salt) :
    verifyPassword bcrypt password
        (bcrypt.hashpw password salt) =
      true := by
  unfold verifyPassword
  rw [if_neg (Nat.not_lt.mpr hShort),
    bcrypt.checkpw_hashpw password salt hShort]
  rfl

end Passwords

------------------------------------------------------------
-- Tokens
------------------------------------------------------------

/- When the tokens of an answer are made, and their ids. -/
structure Minting where
  at_ : TokenType → ℚ
  jti : TokenType → String

/- The claims of a token of a kind. -/
def claimsOf
    (cfg : AuthConfig)
    (type : TokenType)
    (userId tenantId : Uuid)
    (role : String)
    (minting : Minting) : Claims :=
  { sub := some userId.str
    tenantId := some tenantId.str
    role := some role
    type := some type.text
    iat := truncate (minting.at_ type)
    exp := some (truncate (minting.at_ type + cfg.ttl type))
    jti := minting.jti type }

/- A claim that is missing or empty says nothing. -/
def isSaid (claim : Option String) : Bool :=
  match claim with
  | none => false
  | some text => text ≠ ""

section Tokens

variable {Token : Type}
variable (jwt : Jwt Token)

/- Check signature, expiry and kind of a token. -/
def decodeToken
    (token : Token)
    (now : ℚ)
    (expected : TokenType) : Except Refused Claims :=
  match jwt.decode token ⌊now⌋ with
  | none => .error badCredentials
  | some claims =>
      if claims.type ≠ some expected.text then
        .error badCredentials
      else if ¬ (isSaid claims.sub ∧ isSaid claims.tenantId) then
        .error badCredentials
      else .ok claims

/- An access token and a refresh token. -/
structure TokenPair (Token : Type) where
  accessToken : Token
  refreshToken : Token
  expiresIn : ℤ

def issueTokens
    (cfg : AuthConfig)
    (userId tenantId : Uuid)
    (role : String)
    (minting : Minting) : TokenPair Token :=
  let token := fun type =>
    jwt.encode (claimsOf cfg type userId tenantId role minting)
  { accessToken := token .access
    refreshToken := token .refresh
    expiresIn := truncate (cfg.ttl .access) }

end Tokens

------------------------------------------------------------
-- Requests
------------------------------------------------------------

/- An address as it is stored: stripped and in lower case. -/
def normaliseEmail
    (rules : TextRules)
    (value : String) : String :=
  rules.lower (PyText.strip value)

/- The characters of an address beside its one `@`. -/
def isAddressChar (c : Char) : Bool :=
  c ≠ '@' && !PyText.isSpace c

/- A dot that is neither at the start nor at the end. -/
def hasInnerDot (text : List Char) : Bool :=
  text.tail.dropLast.contains '.'

/-
  `^[^@\s]+@[^@\s]+\.[^@\s]+$`; the dollar sign also stands
  before a final line break.
-/
def matchesEmail (email : String) : Bool :=
  let chars :=
    if email.toList.getLast? = some '\n' then
      email.toList.dropLast
    else email.toList
  match PyText.pieces (· = '@') chars with
  | [name, domain] =>
      name ≠ [] && name.all isAddressChar &&
        domain.all isAddressChar && hasInnerDot domain
  | _ => false

/- What is wrong with a field of a request. -/
inductive FieldError where
  | tooShort (field : String) (least : ℕ)
  | tooLong (field : String) (most : ℕ)
  | value (field message : String)
deriving DecidableEq

def parseEmail
    (rules : TextRules)
    (value : String) : Except FieldError String :=
  if 320 < value.length then .error (.tooLong "email" 320)
  else
    let email := normaliseEmail rules value
    if matchesEmail email then .ok email
    else .error (.value "email" "not a valid email address")

def parsePassword
    (value : String) : Except FieldError String :=
  if value.utf8ByteSize < minPasswordBytes then
    .error
      (.value "password" "password must be at least 8 bytes")
  else if maxPasswordBytes < value.utf8ByteSize then
    .error
      (.value "password" "password must be at most 72 bytes")
  else .ok value

def parseOrgName
    (value : String) : Except FieldError String :=
  if value.length < 1 then .error (.tooShort "org_name" 1)
  else if 200 < value.length then
    .error (.tooLong "org_name" 200)
  else
    let orgName := PyText.strip value
    if orgName = "" then
      .error (.value "org_name" "org_name must not be blank")
    else .ok orgName

/- A sign-up whose fields have been checked. -/
structure RegisterRequest where
  email : String
  password : String
  orgName : String
  email_matches : matchesEmail email = true
  password_long : minPasswordBytes ≤ password.utf8ByteSize
  password_short : password.utf8ByteSize ≤ maxPasswordBytes
  orgName_ne : orgName ≠ ""

/- The error of a field that was refused. -/
def errorOf {α : Type} : Except FieldError α → List FieldError
  | .error error => [error]
  | .ok _ => []

theorem matches_of_parseEmail
    {rules : TextRules}
    {value email : String}
    (hEmail : parseEmail rules value = .ok email) :
    email = normaliseEmail rules value ∧
      matchesEmail email = true := by
  unfold parseEmail at hEmail
  split at hEmail
  · cases hEmail
  · dsimp only at hEmail
    split at hEmail
    · rename_i hMatches
      cases hEmail
      exact ⟨rfl, hMatches⟩
    · cases hEmail

theorem bounds_of_parsePassword
    {value password : String}
    (hPassword : parsePassword value = .ok password) :
    password = value ∧
      minPasswordBytes ≤ password.utf8ByteSize ∧
        password.utf8ByteSize ≤ maxPasswordBytes := by
  unfold parsePassword at hPassword
  split at hPassword
  · cases hPassword
  · split at hPassword
    · cases hPassword
    · rename_i hLong hShort
      cases hPassword
      exact
        ⟨rfl, Nat.not_lt.mp hLong, Nat.not_lt.mp hShort⟩

theorem ne_of_parseOrgName
    {value orgName : String}
    (hOrgName : parseOrgName value = .ok orgName) :
    orgName ≠ "" := by
  unfold parseOrgName at hOrgName
  split at hOrgName
  · cases hOrgName
  · split at hOrgName
    · cases hOrgName
    · dsimp only at hOrgName
      split at hOrgName
      · cases hOrgName
      · rename_i hNe
        cases hOrgName
        exact hNe

/- Check every field; one error for each that is wrong. -/
def RegisterRequest.parse
    (rules : TextRules)
    (email password orgName : String) :
    Except (List FieldError) RegisterRequest :=
  match hEmail : parseEmail rules email,
      hPassword : parsePassword password,
      hOrgName : parseOrgName orgName with
  | .ok email', .ok password', .ok orgName' =>
      .ok
        { email := email'
          password := password'
          orgName := orgName'
          email_matches := (matches_of_parseEmail hEmail).2
          password_long :=
            (bounds_of_parsePassword hPassword).2.1
          password_short :=
            (bounds_of_parsePassword hPassword).2.2
          orgName_ne := ne_of_parseOrgName hOrgName }
  | email', password', orgName' =>
      .error
        (errorOf email' ++ errorOf password' ++
          errorOf orgName')

/- A login with its address as it is looked up. -/
structure LoginRequest where
  email : String
  password : String

def LoginRequest.parse
    (rules : TextRules)
    (email password : String) : LoginRequest :=
  { email := normaliseEmail rules email
    password := password }

------------------------------------------------------------
-- The tables
------------------------------------------------------------

/- A row of the table of tenants. -/
structure TenantRow where
  id : Uuid
  name : String
deriving DecidableEq

/- A row of the table of users. -/
structure UserRow where
  id : Uuid
  tenantId : Uuid
  email : String
  passwordHash : String
  role : Option String
deriving DecidableEq

/- Both tables. -/
structure Accounts where
  tenants : List TenantRow := []
  users : List UserRow := []

/- The role that a row gives its user. -/
def UserRow.roleText (row : UserRow) : String :=
  match row.role with
  | none => defaultRole
  | some role => if role = "" then defaultRole else role

/- What becomes of a transaction. -/
inductive Inserted where
  | committed (tables : Accounts)
  | conflict
  | unstorable

/-
  Insert a tenant and its user in one transaction. A primary
  key or an address that is taken takes it back, and so does
  a text that the database cannot hold: that one is refused
  before its statement is run.
-/
def Accounts.insert
    (rules : TextRules)
    (tables : Accounts)
    (tenant : TenantRow)
    (user : UserRow) : Inserted :=
  if ¬ isStorable tenant.name then .unstorable
  else if
      tables.tenants.any (fun row => row.id = tenant.id) then
    .conflict
  else if ¬ isStorable user.email then .unstorable
  else if
      tables.users.any (fun row =>
        row.id = user.id ∨
          rules.citext row.email =
            rules.citext user.email) then
    .conflict
  else
    .committed
      { tenants := tables.tenants ++ [tenant]
        users := tables.users ++ [user] }

------------------------------------------------------------
-- The routes
------------------------------------------------------------

/- What registration created. -/
structure AccountResponse where
  tenantId : Uuid
  userId : Uuid
  email : String
  role : String

section Routes

variable {Salt Token : Type}
variable (rules : TextRules)
variable (bcrypt : Bcrypt Salt)
variable (jwt : Jwt Token)
variable (cfg : AuthConfig)

/- The ids and the salt that a registration draws. -/
structure Drawn (Salt : Type) where
  tenantId : Uuid
  userId : Uuid
  salt : Salt

/- The user row of a registration. -/
def userOf
    (body : RegisterRequest)
    (drawn : Drawn Salt) : UserRow :=
  { id := drawn.userId
    tenantId := drawn.tenantId
    email := body.email
    passwordHash := bcrypt.hashpw body.password drawn.salt
    role := some defaultRole }

/-
  Create a tenant and its first user, or neither. Only a
  conflict is caught.
-/
def register
    (tables : Accounts)
    (body : RegisterRequest)
    (drawn : Drawn Salt) :
    Except Refused AccountResponse × Accounts :=
  match tables.insert rules
      { id := drawn.tenantId
        name := body.orgName }
      (userOf bcrypt body drawn) with
  | .conflict => (.error emailTaken, tables)
  | .unstorable => (.error serverError, tables)
  | .committed tables' =>
      (.ok
        { tenantId := drawn.tenantId
          userId := drawn.userId
          email := body.email
          role := defaultRole },
        tables')

/- The row of an address; a query holds no NUL either. -/
def selectUser
    (tables : Accounts)
    (email : String) : Except Refused (Option UserRow) :=
  if ¬ isStorable email then .error serverError
  else
    .ok
      (tables.users.find? (fun row =>
        rules.citext row.email = rules.citext email))

/- The row that a login is for, if its password is right. -/
def grantOfLogin
    (body : LoginRequest)
    (row : Option UserRow) : Except Refused UserRow :=
  match row with
  | none => .error badLogin
  | some row =>
      if verifyPassword bcrypt body.password row.passwordHash
      then .ok row
      else .error badLogin

def tokensFor
    (row : UserRow)
    (minting : Minting) : TokenPair Token :=
  issueTokens jwt cfg row.id row.tenantId row.roleText minting

/- Exchange credentials for a pair of tokens. -/
def finishLogin
    (body : LoginRequest)
    (row : Option UserRow)
    (minting : Minting) : Except Refused (TokenPair Token) :=
  (grantOfLogin bcrypt body row).map
    (fun row => tokensFor jwt cfg row minting)

/- The row that the claims of a token name. -/
def rowOfClaims
    (tables : Accounts)
    (claims : Claims) : Option UserRow := do
  let userId ← Uuid.ofText (claims.sub.getD "")
  let tenantId ← Uuid.ofText (claims.tenantId.getD "")
  tables.users.find? (fun row =>
    row.id = userId ∧ row.tenantId = tenantId)

/- The claims and the row that a refresh is for. -/
def grantOfRefresh
    (tables : Accounts)
    (token : Token)
    (now : ℚ) : Except Refused (Claims × UserRow) := do
  let claims ← decodeToken jwt token now .refresh
  match rowOfClaims tables claims with
  -- Deleted, or moved to another tenant, or not one of ours.
  | none => .error badCredentials
  | some row => .ok (claims, row)

/- Trade a refresh token for a fresh pair. -/
def refresh
    (tables : Accounts)
    (token : Token)
    (now : ℚ)
    (minting : Minting) : Except Refused (TokenPair Token) :=
  (grantOfRefresh jwt tables token now).map
    (fun grant => tokensFor jwt cfg grant.2 minting)

------------------------------------------------------------
-- The caller of another route
------------------------------------------------------------

/- The caller, as the token describes them. -/
structure Principal where
  userId : String
  tenantId : String
  role : String
deriving DecidableEq

def principalOf (claims : Claims) : Principal :=
  { userId := claims.sub.getD ""
    tenantId := claims.tenantId.getD ""
    role := claims.role.getD "" }

/- The header of a request: its scheme and its token. -/
structure Credentials (Token : Type) where
  scheme : String
  token : Token

def verifyWsToken
    (token : Token)
    (now : ℚ) : Except Refused Principal := do
  let claims ← decodeToken jwt token now .access
  return principalOf claims

/- The caller of a request with these credentials. -/
def currentPrincipal
    (credentials : Option (Credentials Token))
    (now : ℚ) : Except Refused Principal :=
  match credentials with
  | none => .error (credentialsError "Not authenticated")
  | some credentials =>
      if PyText.lower credentials.scheme ≠ "bearer" then
        .error (credentialsError "Not authenticated")
      else verifyWsToken jwt credentials.token now

/- The tenant that every query of a request is filtered by. -/
def currentTenantUuid
    (credentials : Option (Credentials Token))
    (now : ℚ) : Except Refused Uuid := do
  let principal ← currentPrincipal jwt credentials now
  match Uuid.ofText principal.tenantId with
  | none =>
      .error
        (credentialsError "token does not carry a valid tenant")
  | some tenant => .ok tenant

end Routes

end Auth

end Api

end Nidra
