import Variability.CommandLine.Help
import Variability.Text.Cut

/-!
Arguments of the program. A line of arguments names a command, with switches that count for every
command before it and switches of the command and its operands behind it. Each part is read from
left to right, and what an argument says is checked when the next one begins: so a question for
help is answered unless something before it is wrong.
-/

namespace Variability.CommandLine

inductive Question where
  | help (topic : Topic) (detail : HelpDetail)
  | version
  deriving DecidableEq, Repr

inductive Misuse where
  | usage
  /-- Neither the line nor the environment says anything. -/
  | silence
  deriving DecidableEq, Repr

inductive Refusal where
  | question (question : Question)
  | misuse (misuse : Misuse)
  deriving DecidableEq, Repr

namespace Refusal

def usage : Refusal :=
  misuse .usage

def help (topic : Topic) (detail : HelpDetail) : Refusal :=
  question (.help topic detail)

end Refusal

/-- A switch and its value; one that takes none has an empty value. -/
structure Setting where
  switch : Switch
  value : String
  deriving DecidableEq, Repr

structure Part where
  settings : List Setting
  operands : List String
  deriving DecidableEq, Repr

namespace Part

def values (p : Part) (s : Switch) : List String :=
  p.settings.filterMap fun setting =>
    if setting.switch = s then some setting.value else none

def has (p : Part) (s : Switch) : Bool :=
  p.settings.any (·.switch = s)

/-- Adds a setting. Its value has to be readable, and only a repeatable switch stands twice. -/
def set (p : Part) (s : Switch) (value : String) : Except Refusal Part :=
  if s.kind.accepts value && (s.isRepeatable || !p.has s) then
    .ok { p with settings := p.settings ++ [⟨s, value⟩] }
  else .error .usage

def addOperands (p : Part) (kind : ValueKind) (operands : List String) : Except Refusal Part :=
  if operands.all kind.accepts then .ok { p with operands := p.operands ++ operands }
  else .error .usage

end Part

inductive Argument where
  /-- Two hyphens: only operands follow. -/
  | divider
  | long (name : List Char) (value : Option (List Char))
  /-- Letters behind one hyphen. -/
  | letters (letters : List Char)
  | operand
  deriving DecidableEq, Repr

def Argument.ofText : List Char → Argument
  | ['-', '-'] => divider
  | '-' :: '-' :: text =>
    match Text.cut? ['='] text with
    | none => long text none
    | some (name, value) => long name (some value)
  | '-' :: c :: cs => letters (c :: cs)
  | _ => operand

inductive Pending where
  /-- A switch that waits for its value, or has just got it. -/
  | switch (switch : Switch) (value : Option String)
  | operands (operands : List String)
  deriving DecidableEq, Repr

structure Reading where
  part : Part
  pending : Option Pending
  /-- Whether two hyphens were met. -/
  operandsOnly : Bool
  deriving DecidableEq, Repr

namespace Reading

def start : Reading :=
  ⟨⟨[], []⟩, none, false⟩

def operandKind (t : Topic) : ValueKind :=
  t.operand?.elim .text Operand.kind

def settle (t : Topic) (r : Reading) : Except Refusal Reading :=
  match r.pending with
  | none => .ok r
  | some (.switch _ none) => .error .usage
  | some (.switch s (some value)) =>
    (r.part.set s value).map fun part => { r with part, pending := none }
  | some (.operands operands) =>
    (r.part.addOperands (operandKind t) operands).map fun part => { r with part, pending := none }

/-- Takes a switch with the value that is attached to it, or a switch without a value. -/
def take (t : Topic) (r : Reading) (s : Switch) (value : String) : Except Refusal Reading := do
  let r ← r.settle t
  return { r with part := ← r.part.set s value }

/-- Takes a switch without a value. A question ends the reading. -/
def takeBare (t : Topic) (r : Reading) (s : Switch) (detail : HelpDetail) :
    Except Refusal Reading := do
  let r ← r.settle t
  match s with
  | .help => .error (.help t detail)
  | .version => .error (.question .version)
  | s => return { r with part := ← r.part.set s "" }

def await (t : Topic) (r : Reading) (s : Switch) : Except Refusal Reading :=
  (r.settle t).map fun r => { r with pending := some (.switch s none) }

def takeLong (t : Topic) (r : Reading) (name : List Char) (value : Option (List Char)) :
    Except Refusal Reading :=
  match t.switches.find? (·.name.toList = name), value with
  | none, _ => .error .usage
  | some s, none => if s.kind = .nothing then r.takeBare t s .full else r.await t s
  | some s, some value =>
    if s.kind = .nothing then .error .usage else r.take t s (String.ofList value)

/-- Takes letters behind a hyphen. What follows the letter of a switch with a value is the
value. -/
def takeLetters (t : Topic) (r : Reading) : List Char → Except Refusal Reading
  | [] => .ok r
  | c :: cs =>
    match t.switches.find? (·.letter? = some c) with
    | none => .error .usage
    | some s =>
      if s.kind = .nothing then do takeLetters t (← r.takeBare t s .brief) cs
      else
        match cs with
        | [] => r.await t s
        | '=' :: value => r.take t s (String.ofList value)
        | value => r.take t s (String.ofList value)

/-- Takes an operand. Operands in a row are checked together. -/
def takeOperand (t : Topic) (r : Reading) (operand : String) : Except Refusal Reading :=
  match t.operand?, r.pending with
  | none, _ => .error .usage
  | some o, some (.operands operands) =>
    if o.gathers then .ok { r with pending := some (.operands (operands ++ [operand])) }
    else .error .usage
  | some o, _ => do
    let r ← r.settle t
    if o.gathers || r.part.operands.isEmpty then
      return { r with pending := some (.operands [operand]) }
    else .error .usage

def awaited? (r : Reading) : Option Switch :=
  match r.pending with
  | some (.switch s none) => some s
  | some (.switch _ (some _)) | some (.operands _) | none => none

def step (t : Topic) (r : Reading) (argument : String) : Except Refusal Reading :=
  if r.operandsOnly then r.takeOperand t argument
  else
    match Argument.ofText argument.toList with
    | .divider => .ok { r with operandsOnly := true }
    | .long name value => r.takeLong t name value
    | .letters letters => r.takeLetters t letters
    | .operand =>
      match r.awaited? with
      | some s => .ok { r with pending := some (.switch s (some argument)) }
      | none => r.takeOperand t argument

def endsBefore (r : Reading) (argument : String) : Bool :=
  !r.operandsOnly && r.awaited?.isNone && Argument.ofText argument.toList = .operand

/-- Reads the part before the command, and gives the command and what follows. -/
def readLeading (r : Reading) : List String → Except Refusal (Reading × List String)
  | [] => .ok (r, [])
  | argument :: rest =>
    if r.endsBefore argument then .ok (r, argument :: rest)
    else
      match r.step .program argument with
      | .error e => .error e
      | .ok r => readLeading r rest

/-- Ends a part. The environment has to be readable where the part leaves it to it, and nothing is
both quiet and verbose. -/
def finish (t : Topic) (env : Environment) (r : Reading) : Except Refusal Part := do
  let p := (← r.settle t).part
  let readable := t.switches.all fun s => p.has s || (env.value? s).all s.kind.accepts
  if readable && !(p.has .quiet && p.has .verbose) then return p else .error .usage

end Reading

def helpOn : List String → Refusal
  | [] => .help .program .full
  | [name] =>
    if name = Topic.helpName then .help .help .full
    else
      match Verb.ofName? name with
      | none => .usage
      | some verb => .help (.command verb) .full
  | _ => .usage

/-- A line of arguments that names a command: what stands before and behind it. -/
structure Line where
  verb : Verb
  before : Part
  behind : Part
  deriving DecidableEq, Repr

/-- Reads a line of arguments. The part behind the command is read before the other is ended. -/
def Line.read (env : Environment) (arguments : List String) : Except Refusal Line := do
  let (leading, rest) ← Reading.start.readLeading arguments
  match rest with
  | [] =>
    let before ← leading.finish .program env
    let said := !before.settings.isEmpty ||
      Topic.program.switches.any fun s => (env.value? s).isSome
    .error (.misuse (if said then .usage else .silence))
  | name :: rest =>
    if name = Topic.helpName then .error (helpOn rest)
    else
      match Verb.ofName? name with
      | none => .error .usage
      | some verb =>
        let t := Topic.command verb
        let behind ← (← rest.foldlM (Reading.step t) .start).finish t env
        let before ← leading.finish .program env
        return ⟨verb, before, behind⟩

end Variability.CommandLine
