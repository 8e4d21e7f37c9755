import IdentityVault.Text.Quoted

/-! What can go wrong, by cause. Every failure has a coarse kind, for callers that only choose an answer by it,
    and one wording. -/

namespace IdentityVault

inductive Field where
  | id
  | email
  | password
  | passwordHash
  deriving DecidableEq, Repr

namespace Field

def label : Field → String
  | id => "id"
  | email => "email"
  | password => "password"
  | passwordHash => "hashed password"

end Field

/-- Why an input is refused for its form. -/
inductive Malformed where
  | empty (field : Field)
  /-- A cipher key does not have the one length it can have. -/
  | keyLength (expected actual : Nat)
  /-- A sealed message is shorter than its fixed parts. -/
  | sealedLength (least actual : Nat)
  /-- An object path is empty or could leave the directory of objects. -/
  | objectPath (path : String)
  /-- The bytes are no plain container of a private key. -/
  | pkcs1
  /-- The bytes are no tagged container of a private key. -/
  | pkcs8
  /-- A refusal worded by another layer. -/
  | worded (text : String)
  deriving DecidableEq, Repr

namespace Malformed

/-- What the reader of containers says, whatever is wrong with one. -/
def unreadable : String := "malformed container"

def message : Malformed → String
  | empty f => s!"invalid {f.label}: empty"
  | keyLength e n => s!"invalid cipher key length: expected {e}, got {n}"
  | sealedLength e n => s!"ciphertext too short: expected at least {e} bytes, got {n}"
  | objectPath p => "invalid object path: " ++ Text.quote p
  | pkcs1 => "invalid PKCS#1 private key: " ++ unreadable
  | pkcs8 => "invalid PKCS#8 private key: " ++ unreadable
  | worded t => t

end Malformed

inductive Failure where
  | notFound
  | alreadyExists
  /-- A login attempt failed, for whatever reason. -/
  | invalidCredential
  /-- A secret does not match a hash, or the hash cannot be used. -/
  | verificationFailed
  | malformed (cause : Malformed)
  | unsupportedFormat (name : String)
  /-- A PEM block holds something else than a private key. -/
  | blockType (label : String)
  | notRsaKey
  | noTransaction
  | transactionFinalized
  | transactionBound
  | deadlineExceeded
  | storage (detail : String)
  | crypto (detail : String)
  | io (detail : String)
  | serialization (detail : String)
  deriving DecidableEq, Repr

namespace Failure

/-- The coarse classes of failures. -/
inductive Kind where
  | notFound
  | alreadyExists
  | invalidCredential
  | malformedInput
  | unsupportedFormat
  | transactionState
  | backend
  deriving DecidableEq, Repr

def kind : Failure → Kind
  | notFound => .notFound
  | alreadyExists => .alreadyExists
  | invalidCredential | verificationFailed => .invalidCredential
  | malformed _ | blockType _ | notRsaKey => .malformedInput
  | unsupportedFormat _ => .unsupportedFormat
  | noTransaction | transactionFinalized | transactionBound | deadlineExceeded => .transactionState
  | storage _ | crypto _ | io _ | serialization _ => .backend

def isNotFound : Failure → Bool
  | notFound => true
  | _ => false

def message : Failure → String
  | notFound => "not found entity"
  | alreadyExists => "already exists entity"
  | invalidCredential => "invalid credential"
  | verificationFailed => "verification failed"
  | malformed c => "malformed input: " ++ c.message
  | unsupportedFormat n => "unsupported format: " ++ n
  | blockType l => "invalid block type: " ++ Text.quote l
  | notRsaKey => "not an RSA key"
  | noTransaction => "no transaction"
  | transactionFinalized => "transaction already finalized"
  | transactionBound => "transaction already bound to this context"
  | deadlineExceeded => "deadline exceeded"
  | storage d => "Storage error: " ++ d
  | crypto d => "Crypto error: " ++ d
  | io d => "IO error: " ++ d
  | serialization d => "Serialization error: " ++ d

/-- No connection was free for another transaction. -/
def poolExhausted : Failure := storage "connection pool exhausted"

end Failure

/-- The result of an operation that can fail. -/
abbrev Outcome := Except Failure

end IdentityVault
