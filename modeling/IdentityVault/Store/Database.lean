import IdentityVault.Store.Tables

/-! A database of shared tables and a bounded number of connections. Every transaction works on a private copy of
    the tables as they were when it began, and keeps a log of its writes; a commit replays the log on the tables as
    they are then, all of it or nothing. -/

namespace IdentityVault

/-- The name of an open transaction; it is never used twice. -/
abbrev TxId := Nat

/-- A question to the row store, or a change of it, with the type of its answer. -/
inductive Query : Type → Type where
  | user (id : Id) : Query User
  | users (filter : UserFilter) : Query (List User)
  | countUsers (filter : UserFilter) : Query Nat
  | insertUser (user : User) : Query Unit
  | updateUser (user : User) : Query Unit
  | credentialOf (user : Id) : Query Credential
  | credentialByEmail (email : Email) : Query Credential
  | insertCredential (credential : Credential) : Query Unit
  | updateCredential (credential : Credential) : Query Unit

/-- An open transaction: its copy of the tables, and its writes in order. -/
structure Transaction where
  snapshot : Tables
  log : List Write
  deriving DecidableEq, Repr

namespace Transaction

/-- Tries a write on the copy, and keeps it in the log if it is allowed. -/
def write (t : Transaction) (w : Write) : Outcome Unit × Transaction :=
  match t.snapshot.apply w with
  | .ok tables => (.ok (), ⟨tables, t.log ++ [w]⟩)
  | .error f => (.error f, t)

/-- The row that was looked for. -/
def found {α : Type} : Option α → Outcome α
  | some a => .ok a
  | none => .error .notFound

/-- The answer of the transaction's copy. -/
def perform {α : Type} (t : Transaction) : Query α → Outcome α × Transaction
  | .user id => (found (t.snapshot.users.get? id), t)
  | .users f => (.ok (t.snapshot.list f), t)
  | .countUsers f => (.ok (t.snapshot.list f).length, t)
  | .insertUser u => t.write (.insertUser u)
  | .updateUser u => t.write (.updateUser u)
  | .credentialOf user => (found (t.snapshot.credentialOf? user), t)
  | .credentialByEmail e =>
    (found ((t.snapshot.userByEmail? e).bind fun u => t.snapshot.credentialOf? u.id), t)
  | .insertCredential c => t.write (.insertCredential c)
  | .updateCredential c => t.write (.updateCredential c)

end Transaction

/-- The shared tables, and the transactions that are open on one connection each. -/
structure Database where
  capacity : Nat
  tables : Tables
  opened : List (TxId × Transaction)
  nextTx : TxId
  deriving DecidableEq, Repr

namespace Database

def standardCapacity : Nat := 10

/-- The greatest number of connections that can be counted. -/
def mostCapacity : Nat := (1 <<< 61) - 1

def new (capacity : Nat) : Database := ⟨capacity, .empty, [], 0⟩

/-- The number of connections that no transaction holds. -/
def available (d : Database) : Nat := d.capacity - d.opened.length

/-- The transaction with the given name, while it is open. -/
def tx? (d : Database) (t : TxId) : Option Transaction := (d.opened.find? (·.1 == t)).map (·.2)

/-- Begins a transaction, if a connection is free. -/
def begin (d : Database) : Outcome TxId × Database :=
  if d.available = 0 then (.error .poolExhausted, d)
  else (.ok d.nextTx, { d with opened := (d.nextTx, ⟨d.tables, []⟩) :: d.opened, nextTx := d.nextTx + 1 })

/-- Ends a transaction and frees its connection. Its writes are lost. -/
def release (d : Database) (t : TxId) : Database := { d with opened := d.opened.filter (·.1 != t) }

/-- Ends a transaction and, if its log can be replayed, publishes its writes. -/
def commit (d : Database) (t : TxId) : Outcome Unit × Database :=
  match d.tx? t with
  | none => (.error .transactionFinalized, d)
  | some x =>
    match d.tables.replay x.log with
    | .ok tables => (.ok (), { d.release t with tables })
    | .error f => (.error f, d.release t)

/-- Ends a transaction without publishing its writes. -/
def rollback (d : Database) (t : TxId) : Outcome Unit × Database :=
  match d.tx? t with
  | none => (.error .transactionFinalized, d)
  | some _ => (.ok (), d.release t)

/-- Asks an open transaction. -/
def query {α : Type} (d : Database) (t : TxId) (q : Query α) : Outcome α × Database :=
  match d.tx? t with
  | none => (.error .transactionFinalized, d)
  | some x =>
    let (answer, x) := x.perform q
    (answer, { d with opened := d.opened.map fun e => if e.1 == t then (t, x) else e })

end Database
end IdentityVault
