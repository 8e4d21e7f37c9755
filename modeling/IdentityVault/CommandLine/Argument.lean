import IdentityVault.Text.Decimal

/-! What a command line can hold: options with and without a value, and positional arguments, each with a grammar
    for its value. -/

namespace IdentityVault.CommandLine

/-- Why a command line is not carried out. -/
inductive Usage where
  | missingArgument
  | unknownArgument
  | unknownCommand
  /-- A value is missing, or is none of those that are possible. -/
  | invalidValue
  /-- A value cannot be read. -/
  | unreadableValue
  /-- An argument is given twice. -/
  | conflict
  /-- A flag is given a value. -/
  | surplusValue
  | missingCommand
  | help
  /-- Help is shown because nothing was given. -/
  | helpInstead
  | version
  deriving DecidableEq, Repr

inductive Value where
  | flag
  | text (s : String)
  | number (n : Nat)
  deriving DecidableEq, Repr

def signed? (s : List Char) : Option Int :=
  let digits? (r : List Char) : Option Nat :=
    if r ≠ [] ∧ r.all Text.isDigit then some (Text.digitsValue r) else none
  match s with
  | '+' :: r => (digits? r).map fun n => (n : Int)
  | '-' :: r => (digits? r).map fun n => -(n : Int)
  | r => (digits? r).map fun n => (n : Int)

inductive Grammar where
  | text
  /-- A text that is not empty. -/
  | path
  /-- A number of 64 bits, without a minus sign. -/
  | word64
  /-- A number of 32 bits, which may have a minus sign if it is zero. -/
  | word32
  | choice (names : List String)
  deriving DecidableEq, Repr

namespace Grammar

def read (s : String) : Grammar → Except Usage Value
  | text => .ok (.text s)
  | path => if s.isEmpty then .error .invalidValue else .ok (.text s)
  | word64 =>
    match signed? s.toList with
    | some n => if s.toList.head? ≠ some '-' ∧ n < 1 <<< 64 then .ok (.number n.toNat) else .error .unreadableValue
    | none => .error .unreadableValue
  | word32 =>
    match signed? s.toList with
    | some n => if 0 ≤ n ∧ n < 1 <<< 32 then .ok (.number n.toNat) else .error .unreadableValue
    | none => .error .unreadableValue
  | choice names => if s ∈ names then .ok (.text s) else .error .invalidValue

end Grammar

inductive Role where
  | takes (value : Grammar)
  /-- Stands for itself and has no value. -/
  | stands
  | ends (usage : Usage)
  deriving DecidableEq, Repr

/-- An argument: with a name it is an option, and without one it is known by its place. -/
structure Argument where
  key : String
  long : Option String
  short : Option Char
  role : Role
  standIn : Option String
  required : Bool
  deriving DecidableEq, Repr

namespace Argument

def option (name : String) (value : Grammar) : Argument := ⟨name, some name, none, .takes value, none, false⟩

def positional (key : String) (value : Grammar) : Argument := ⟨key, none, none, .takes value, none, true⟩

def flag (name : String) (short : Char) (role : Role) : Argument := ⟨name, some name, some short, role, none, false⟩

def withShort (a : Argument) (c : Char) : Argument := { a with short := some c }

def withVariable (a : Argument) (v : String) : Argument := { a with standIn := some v }

def mandatory (a : Argument) : Argument := { a with required := true }

end Argument
end IdentityVault.CommandLine
