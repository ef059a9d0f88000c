import Gaoming.GoRuntime

/-!
# Principals, tokens and share requests

The identities of `pkg/access`, the check of a share request, and the hash under
which tokens are stored. The hash function itself is a parameter.
-/

namespace Gaoming

inductive Kind
  | user
  | share
  | demo
  | agent
  | worker
  deriving DecidableEq, Repr

structure Principal where
  kind : Kind
  tenantID : ℤ := 0
  tenantCode : String := ""
  userID : ℤ := 0
  role : String := ""
  hostUID : String := ""
  workerID : String := ""
  shareID : String := ""
  allowedHosts : List String := []
  fields : List String := []
  deriving DecidableEq

namespace Principal

def isUser (p : Principal) : Bool :=
  p.kind = .user && 0 < p.userID && p.tenantCode ≠ "" && (p.role = "admin" || p.role = "member")

def isAdmin (p : Principal) : Bool := p.isUser && p.role = "admin"

def actor (p : Principal) : String := if !p.isUser then "" else "user:" ++ toString p.userID

def allowsHost (p : Principal) (tenant uid : String) : Bool :=
  if p.tenantCode = "" || tenant ≠ p.tenantCode || uid = "" then false
  else if p.isUser then true
  else if p.kind ≠ .share && p.kind ≠ .demo then false
  else p.allowedHosts.contains uid

def allowsField (p : Principal) (field : String) : Bool :=
  if p.isUser then true else p.fields.contains field

end Principal

inductive AccessError
  | forbidden
  | unauthorized
  | notFound
  | quota
  | invalidShare
  | invalidShareHost
  | invalidShareField
  | random
  | database
  deriving DecidableEq

/-- The texts of `pkg/access`; the other two come from the driver and the random source. -/
def AccessError.text : AccessError → Option String
  | .forbidden => some "forbidden"
  | .unauthorized => some "unauthorized"
  | .notFound => some "resource not found"
  | .quota => some "access quota exceeded"
  | .invalidShare => some "invalid share title, hosts, fields or lifetime"
  | .invalidShareHost => some "invalid or duplicate share host"
  | .invalidShareField => some "invalid or duplicate share field"
  | .random | .database => none

structure CreateShareRequest where
  title : String
  hostUIDs : List String
  fields : List String
  ttlSeconds : ℤ
  deriving DecidableEq

/-- The loop over the hosts, with those already seen. -/
def validateShareHosts : List String → List String → Except AccessError Unit
  | _, [] => .ok ()
  | seen, uid :: rest =>
    if uid = "" || 64 < uid.utf8ByteSize || seen.contains uid || trimSpace uid ≠ uid then
      .error .invalidShareHost
    else validateShareHosts (uid :: seen) rest

def validateShareFields : List String → List String → Except AccessError Unit
  | _, [] => .ok ()
  | seen, field :: rest =>
    if seen.contains field ||
        (field ≠ "hostname" && field ≠ "status" && field ≠ "metrics") then
      .error .invalidShareField
    else validateShareFields (field :: seen) rest

def validateShareRequest (req : CreateShareRequest) : Except AccessError Unit :=
  if trimSpace req.title = "" || 128 < req.title.utf8ByteSize || req.hostUIDs.isEmpty ||
      100 < req.hostUIDs.length || req.ttlSeconds < 60 || 7 * 24 * 3600 < req.ttlSeconds ||
      req.fields.isEmpty || 3 < req.fields.length then
    .error .invalidShare
  else
    match validateShareHosts [] req.hostUIDs with
    | .error e => .error e
    | .ok () => validateShareFields [] req.fields

/-- The position of a character in the URL-safe base64 alphabet. -/
def base64Value (c : Char) : Option ℕ :=
  if 'A' ≤ c ∧ c ≤ 'Z' then some (c.toNat - 'A'.toNat)
  else if 'a' ≤ c ∧ c ≤ 'z' then some (c.toNat - 'a'.toNat + 26)
  else if '0' ≤ c ∧ c ≤ '9' then some (c.toNat - '0'.toNat + 52)
  else if c = '-' then some 62
  else if c = '_' then some 63
  else none

/-- The texts that decode to 32 bytes and encode back to themselves: 43 digits, the last
of which leaves its two spare bits zero. -/
def canonicalToken (raw : String) : Bool :=
  raw.utf8ByteSize = 43 && raw.toList.all (fun c => (base64Value c).isSome) &&
    (raw.toList.getLast?.bind base64Value).any (· % 4 = 0)

/-- `TokenHash`, over the SHA-256 digest in hexadecimal. -/
def tokenHash (sha256 : String → String) (raw : String) : String :=
  if canonicalToken raw then sha256 raw else ""

end Gaoming
