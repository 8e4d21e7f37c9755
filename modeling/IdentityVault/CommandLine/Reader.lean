import IdentityVault.CommandLine.Argument

/-! Reading the arguments of a program or of one of its commands. What an option is given is checked when the next
    option begins, at the next argument that is known by its place, or at the end. -/

namespace IdentityVault.CommandLine

structure Level where
  arguments : List Argument
  commands : List String
  deriving Repr

namespace Level

def positionals (l : Level) : List Argument := l.arguments.filter fun a => a.long.isNone && a.short.isNone

def longOption? (l : Level) (name : String) : Option Argument := l.arguments.find? (·.long == some name)

def shortOption? (l : Level) (c : Char) : Option Argument := l.arguments.find? (·.short == some c)

end Level

inductive Look where
  /-- Two dashes alone: what follows is known by its place. -/
  | separator
  | long (name : String) (value : Option String)
  | short (letters : List Char)
  | plain
  deriving DecidableEq, Repr

namespace Look

def ofText (s : String) : Look :=
  match s.toList with
  | ['-', '-'] => separator
  | '-' :: '-' :: r =>
    let name := r.takeWhile (· ≠ '=')
    long (String.ofList name)
      (if name.length = r.length then none else some (String.ofList (r.drop (name.length + 1))))
  | ['-'] => plain
  | '-' :: r => short r
  | _ => plain

end Look

structure Reading where
  given : List (String × Value)
  /-- The argument that was seen last, with its value if it has one yet. -/
  pending : Option (Argument × Option String)
  /-- The separator was seen. -/
  separated : Bool
  /-- The number of arguments that were known by their place. -/
  placed : Nat
  deriving DecidableEq, Repr

namespace Reading

def start : Reading := ⟨[], none, false, 0⟩

def value? (r : Reading) (key : String) : Option Value := (r.given.find? (·.1 == key)).map (·.2)

def waiting (r : Reading) : Bool :=
  match r.pending with
  | some (_, none) => true
  | _ => false

/-- Takes an argument with what it was given. -/
def take (r : Reading) (a : Argument) (raw : Option String) : Except Usage Reading :=
  match a.role, raw with
  | .ends u, _ => .error u
  | .takes _, none => .error .invalidValue
  | .takes g, some s =>
    if (r.value? a.key).isSome then .error .conflict
    else do pure { r with given := (a.key, ← g.read s) :: r.given }
  | .stands, _ =>
    if (r.value? a.key).isSome then .error .conflict
    else .ok { r with given := (a.key, .flag) :: r.given }

def settle (r : Reading) : Except Usage Reading :=
  match r.pending with
  | none => .ok r
  | some (a, raw) => take { r with pending := none } a raw

/-- Reads an option, and the value that is attached to it. -/
def option (r : Reading) (a : Argument) (attached : Option String) : Except Usage Reading :=
  match a.role, attached with
  | .takes _, some s => do (← r.settle).take a (some s)
  | .takes _, none => do pure { ← r.settle with pending := some (a, none) }
  | _, some _ => .error .surplusValue
  | _, none => do (← r.settle).take a none

/-- Reads letters that each stand for an option. What follows one that takes a value is its value. -/
def letters (l : Level) (r : Reading) : List Char → Except Usage Reading
  | [] => .ok r
  | c :: rest =>
    match l.shortOption? c with
    | none => .error .unknownArgument
    | some a =>
      match a.role, rest with
      | .takes _, [] => r.option a none
      | .takes _, '=' :: v => r.option a (some (String.ofList v))
      | .takes _, v => r.option a (some (String.ofList v))
      | _, _ => do letters l (← r.option a none) rest

def plain (l : Level) (r : Reading) (s : String) : Except Usage Reading :=
  match l.positionals[r.placed]? with
  | some a => do pure { ← r.settle with pending := some (a, some s), placed := r.placed + 1 }
  | none =>
    .error (if l.commands.isEmpty || (r.separated && l.commands.contains s) then .unknownArgument
      else .unknownCommand)

/-- Reads an argument that is not the name of a command. -/
def argument (l : Level) (r : Reading) (s : String) : Except Usage Reading :=
  if r.separated then r.plain l s
  else match Look.ofText s with
    | .separator => .ok { r with separated := true }
    | .long name value => match l.longOption? name with
      | none => .error .unknownArgument
      | some a => r.option a value
    | .short cs => r.letters l cs
    | .plain => match r.pending with
      | some (a, none) => .ok { r with pending := some (a, some s) }
      | _ => r.plain l s

def arguments (l : Level) (r : Reading) : List String → Except Usage (Reading × Option (String × List String))
  | [] => .ok (r, none)
  | s :: rest =>
    if !r.separated && !r.waiting && l.commands.contains s then .ok (r, some (s, rest))
    else do arguments l (← r.argument l s) rest

/-- The values that the environment has for arguments that are not given. -/
def standIns (l : Level) (environment : String → Option String) (r : Reading) :
    Except Usage (List (String × Value)) :=
  (l.arguments.filter fun a => (r.value? a.key).isNone).foldlM (fun found a =>
    match a.standIn.bind environment, a.role with
    | some s, .takes g => do pure ((a.key, ← g.read s) :: found)
    | _, _ => pure found) []

end Reading

/-- The values of arguments: those that are given, and those from the environment. -/
structure Values where
  given : List (String × Value)
  standIns : List (String × Value)
  deriving DecidableEq, Repr

namespace Values

/-- The values at the end of a reading. -/
def ofReading (l : Level) (environment : String → Option String) (r : Reading) : Except Usage Values := do
  let r ← r.settle
  pure ⟨r.given, ← r.standIns l environment⟩

def given? (v : Values) (key : String) : Option Value := (v.given.find? (·.1 == key)).map (·.2)

def standIn? (v : Values) (key : String) : Option Value := (v.standIns.find? (·.1 == key)).map (·.2)

def value? (v : Values) (key : String) : Option Value := (v.given? key).or (v.standIn? key)

def text? (v : Values) (key : String) : Option String :=
  match v.value? key with
  | some (.text s) => some s
  | _ => none

def number? (v : Values) (key : String) : Option Nat :=
  match v.value? key with
  | some (.number n) => some n
  | _ => none

/-- Every argument that must be given has a value. -/
def complete (v : Values) (l : Level) : Except Usage Unit :=
  if l.arguments.all fun a => !a.required || (v.value? a.key).isSome then .ok () else .error .missingArgument

end Values
end IdentityVault.CommandLine
