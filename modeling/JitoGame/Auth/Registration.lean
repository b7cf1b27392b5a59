import JitoGame.Auth.Services

namespace JitoGame.Auth.Registration

open Transactions

structure Libraries extends Env where
  isEmail : String → Bool
  toLowerCase : String → String

structure RegisterDto where
  username : String
  password : String
  email : Option String
  phone : Option String
  displayName : Option String
  deriving DecidableEq

def RegisterDto.valid (env : Libraries) (dto : RegisterDto) : Bool :=
  1 ≤ dto.username.length ∧ dto.username.length ≤ 50 ∧
    8 ≤ dto.password.length ∧ dto.password.length ≤ 100 ∧ dto.email.all env.isEmail ∧
    dto.phone.all (fun s => s.length ≤ 20) ∧ dto.displayName.all fun s => s.length ≤ 100

structure Call where
  dto : RegisterDto
  ip : String
  deriving DecidableEq

inductive Tag
  | findExisting
  | insertUser
  | insertPointsAccount
  deriving DecidableEq

-- the keys of the unique indexes
inductive Lock
  | username (s : String)
  | email (s : String)
  | phone (s : String)
  | account (userId : Uuid)
  deriving DecidableEq

inductive Write (Hash : Type)
  | insertUser (row : User Hash)
  | insertPointsAccount (userId : Uuid) (balanceMinor : ℤ)

def Write.apply {Hash : Type} : Write Hash → Db Hash → Db Hash
  | .insertUser row, d => { d with users := d.users ++ [row] }
  | .insertPointsAccount userId balanceMinor, d =>
    { d with balances := d.balances ++ [(userId, balanceMinor)] }

inductive Err
  | fault
  | uniqueViolation
  | databaseError
  | rateLimitExceeded (retryAfter : ℕ)
  | validationError
  | conflict
  deriving DecidableEq

def Err.status : Err → Option ℕ
  | .rateLimitExceeded _ => some 429
  | .validationError => some 400
  | .conflict => some 409
  | .fault | .uniqueViolation | .databaseError => none

def Err.message : Err → String
  | .rateLimitExceeded _ => "Too many requests. Please try again later."
  | .validationError =>
    "At least one of email or phone is required. INTERIM — NEEDS CLIENT CONFIRMATION."
  | .conflict => "Username or contact is already registered."
  | .fault | .uniqueViolation | .databaseError => ""

abbrev schema (env : Libraries) : Schema where
  Db := Db env.Hash
  Lock := Lock
  Write := Write env.Hash
  Id := Uuid
  Tag := Tag
  Call := Call
  Err := Err
  Res := UserProfile
  apply := Write.apply
  fault := .fault

variable (env : Libraries)

def registerRateIpMax : ℕ := 3
def registerRateIpWindow : ℕ := 60 * 60

def checkRateLimit (max windowSeconds : ℕ) : Prog (schema env) Unit := do
  let current ← Prog.outside
  Prog.require (current ≤ max) (Err.rateLimitExceeded windowSeconds)

def truthy (s : Option String) : Bool := s.any fun s => s ≠ ""

def RegisterDto.normalEmail (dto : RegisterDto) : Option String :=
  dto.email.map fun s => env.toLowerCase (trim s)

def RegisterDto.normalPhone (dto : RegisterDto) : Option String := dto.phone.map trim

def existing (username : String) (email phone : Option String) (u : User env.Hash) : Bool :=
  u.username = username ∨ (truthy email ∧ u.email = email) ∨ (truthy phone ∧ u.phone = phone)

-- PostgreSQL refuses a text with a NUL, as a parameter too
def searchable (username : String) (email phone : Option String) : Bool :=
  fitsText username ∧ email.all fitsText ∧ phone.all fitsText

def advisoryUniquenessCheck (username : String) (email phone : Option String) :
    Prog (schema env) Unit := do
  Prog.require (searchable username email phone = true) Err.databaseError
  let v ← Prog.select .findExisting
  Prog.require (v.db.users.any (existing env username email phone) = false) Err.conflict

def userRow (id : Uuid) (dto : RegisterDto) (passwordHash : env.Hash) (createdAt : ℕ) : User env.Hash where
  id := id
  username := trim dto.username
  email := dto.normalEmail env
  phone := dto.normalPhone
  passwordHash := passwordHash
  displayName := dto.displayName.map trim
  status := .active
  failedLoginCount := 0
  lockedUntil := none
  lastLoginAt := none
  createdAt := createdAt

def fits {Hash : Type} (row : User Hash) : Bool :=
  fitsVarchar 50 row.username ∧ row.email.all (fitsVarchar 255) ∧ row.phone.all (fitsVarchar 20) ∧
    row.displayName.all (fitsVarchar 100)

def keyTaken {Hash : Type} (column : User Hash → Option String) (key : String) (d : Db Hash) : Bool :=
  d.users.any fun u => column u = some key

def insertKey (lock : String → Lock) (column : User env.Hash → Option String) :
    Option String → Prog (schema env) Unit
  | none => pure ()
  | some key => Prog.insert (S := schema env) .insertUser (lock key) (keyTaken column key) [] .uniqueViolation

def createUser (row : User env.Hash) : Prog (schema env) Unit := do
  Prog.require (fits row = true) Err.databaseError
  insertKey env .username (fun u => some u.username) (some row.username)
  insertKey env .email (·.email) row.email
  insertKey env .phone (·.phone) row.phone
  let _ ← Prog.exec (S := schema env) .insertUser (fun _ => none) (fun _ => [.insertUser row])

def createPointsAccount (userId : Uuid) : Prog (schema env) Unit :=
  Prog.insert (S := schema env) .insertPointsAccount (.account userId)
    (fun d => d.balances.any fun b => b.1 = userId) [.insertPointsAccount userId 0] .uniqueViolation

-- the client's address names the key of the rate limit
def register (dto : RegisterDto) (_ip : String) : Prog (schema env) UserProfile := do
  checkRateLimit env registerRateIpMax registerRateIpWindow
  let email := dto.normalEmail env
  let phone := dto.normalPhone
  Prog.require (truthy email ∨ truthy phone) Err.validationError
  advisoryUniquenessCheck env (trim dto.username) email phone
  let salt ← Prog.outside
  let createdAt ← Prog.outside
  try
    let id ← Prog.fresh
    let user := userRow env id dto (env.hash dto.password salt) createdAt
    Prog.transaction do
      createUser env user
      createPointsAccount env user.id
    pure (AuthService.toProfile env.toEnv user)
  catch err =>
    if err = Err.uniqueViolation then throw Err.conflict else throw err

def body (c : Call) : Prog (schema env) UserProfile := register env c.dto c.ip

end JitoGame.Auth.Registration
