import TaggedUnion.Command.Sweep
import TaggedUnion.Command.Generate

/-! # The arguments of the program

    The arguments name an action and give its options, which begin with two hyphens. The
    value of an option follows it as an argument of its own, or behind an equals sign.

    Arguments are read from left to right, and the first that means nothing, or asks for
    the version or for help, ends the reading. What is missing is found at the end.
-/

namespace TaggedUnion.Command

/-- What the program can do. -/
inductive Action where
  | check
  | generate
  | sweep
deriving Repr, DecidableEq

/-- The options that have a value. -/
inductive Setting where
  | schema
  | union
  | output
  | runtimePath
  | maxArity
deriving Repr, DecidableEq

/-- The word for an action. -/
def Action.label : Action → String
  | .check => "check"
  | .generate => "generate"
  | .sweep => "sweep"

/-- All actions. -/
def Action.all : List Action := [.check, .generate, .sweep]

/-- The options of an action. -/
def Action.settings : Action → List Setting
  | .check => [.schema, .union]
  | .generate => [.schema, .union, .output, .runtimePath]
  | .sweep => [.maxArity, .output, .runtimePath]

/-- The word for an option, which follows the hyphens. -/
def Setting.label : Setting → String
  | .schema => "schema"
  | .union => "union"
  | .output => "output"
  | .runtimePath => "runtime-path"
  | .maxArity => "max-arity"

/-- The values that an option may have: a path is not empty, and an arity is a number. -/
def Setting.accepts (o : Setting) (value : String) : Bool :=
  match o with
  | .schema | .output => value != ""
  | .union | .runtimePath => true
  | .maxArity => (Text.natural? value).isSome

/-! ### What arguments can mean -/

/-- A command with its options. -/
inductive Invocation where
  | check (schema : String) (union : Option String)
  | generate (schema union root runtimePath : String)
  | sweep (greatest : Option Nat) (root runtimePath : String)
deriving Repr, DecidableEq

/-- Why arguments mean nothing. -/
inductive Misuse where
  /-- An argument that may not stand where it does. -/
  | unexpected (argument : String)
  /-- An option without its value. -/
  | missingValue (option : Setting)
  /-- An option with a value that it cannot have. -/
  | badValue (option : Setting) (value : String)
  /-- An option that is given again. -/
  | repeated (option : Setting)
  /-- An option that has to be given. -/
  | missing (option : Setting)
  /-- There is no action. -/
  | noAction
deriving Repr, DecidableEq

/-- The wording of a cause. -/
def Misuse.message : Misuse → String
  | .unexpected a => s!"unexpected argument '{a}'"
  | .missingValue o => s!"a value is required for '--{o.label}'"
  | .badValue o v => s!"invalid value '{v}' for '--{o.label}'"
  | .repeated o => s!"'--{o.label}' cannot be used more than once"
  | .missing o => s!"'--{o.label}' is required"
  | .noAction => "an action is required"

/-- What ends the reading of arguments where they are no command. -/
inductive Halt where
  /-- The version is asked for. -/
  | version
  /-- Help is asked for. -/
  | help
  | misuse (cause : Misuse)
deriving Repr, DecidableEq

/-! ### Single arguments -/

/-- The form of an argument. -/
inductive Argument where
  /-- Two hyphens alone: no options follow. -/
  | escape
  /-- Two hyphens and a word, with the value behind an equals sign. -/
  | long (word : String) (value : Option String)
  /-- A hyphen and letters, each a flag of its own. -/
  | short (letters : List Char)
  /-- Anything else; a lone hyphen is among it. -/
  | plain (text : String)
deriving Repr, DecidableEq

/-- The form of an argument is seen from its first two characters. -/
def Argument.ofText (s : String) : Argument :=
  match s.toList with
  | ['-', '-'] => .escape
  | '-' :: '-' :: cs =>
    .long (String.ofList (cs.takeWhile (· ≠ '=')))
      (match cs.dropWhile (· ≠ '=') with
        | [] => none
        | _ :: value => some (String.ofList value))
  | '-' :: c :: cs => .short (c :: cs)
  | _ => .plain s

/-- An argument that can be the value of the option before it. -/
def isValue (s : String) : Bool :=
  match Argument.ofText s with
  | .plain _ => true
  | _ => false

/-- Reads the flags in an argument. The commands keep no log, so a flag that asks for a
    longer one is accepted and means nothing. The version may be asked for before the
    action only. -/
def shortFlags (beforeAction : Bool) (argument : String) : List Char → Except Halt Unit
  | [] => .ok ()
  | 'v' :: cs => shortFlags beforeAction argument cs
  | 'h' :: _ => .error .help
  | 'V' :: _ =>
    if beforeAction then .error .version else .error (.misuse (.unexpected argument))
  | _ => .error (.misuse (.unexpected argument))

/-- Reads a flag that is a word. -/
def longFlag (beforeAction : Bool) (argument word : String) (value : Option String) :
    Except Halt Unit :=
  if value.isSome then .error (.misuse (.unexpected argument))
  else if word = "verbose" then .ok ()
  else if word = "help" then .error .help
  else if word = "version" ∧ beforeAction then .error .version
  else .error (.misuse (.unexpected argument))

/-! ### Options -/

/-- The values of options. -/
abbrev Settings := List (Setting × String)

/-- The settings with one more value. -/
def Settings.give (given : Settings) (o : Setting) (value : String) : Except Halt Settings :=
  if (given.lookup o).isSome then .error (.misuse (.repeated o))
  else if o.accepts value then .ok ((o, value) :: given)
  else .error (.misuse (.badValue o value))

/-- The value of an option that has to be given. -/
def Settings.require (given : Settings) (o : Setting) : Except Halt String :=
  match given.lookup o with
  | some value => .ok value
  | none => .error (.misuse (.missing o))

/-- Reads the arguments behind an action. -/
def readSettings (action : Action) (given : Settings) : List String → Except Halt Settings
  | [] => .ok given
  | s :: rest =>
    match Argument.ofText s with
    | .plain _ => .error (.misuse (.unexpected s))
    | .escape =>
      match rest with
      | [] => .ok given
      | a :: _ => .error (.misuse (.unexpected a))
    | .short letters => do
      shortFlags false s letters
      readSettings action given rest
    | .long word value =>
      match action.settings.find? (·.label == word), value with
      | none, _ => do
        longFlag false s word value
        readSettings action given rest
      | some o, some v => do
        let given ← given.give o v
        readSettings action given rest
      | some o, none =>
        match rest with
        | [] => .error (.misuse (.missingValue o))
        | v :: rest =>
          if isValue v then do
            let given ← given.give o v
            readSettings action given rest
          else .error (.misuse (.missingValue o))

/-- The command that an action with settings is. -/
def Invocation.ofSettings (action : Action) (given : Settings) : Except Halt Invocation :=
  let root := (given.lookup .output).getD
  let runtimePath := (given.lookup .runtimePath).getD defaultRuntimePath
  match action with
  | .check => do
    return .check (← given.require .schema) (given.lookup .union)
  | .generate => do
    return .generate (← given.require .schema) (← given.require .union) (root generateRoot)
      runtimePath
  | .sweep =>
    .ok (.sweep ((given.lookup .maxArity).bind Text.natural?) (root sweepRoot) runtimePath)

/-! ### All arguments -/

/-- The word that asks for help where an action is expected. -/
def helpWord : String := "help"

/-- Reads the arguments behind the word that asks for help: nothing, or one action. -/
def readHelp : List String → Halt
  | [] => .help
  | [topic] =>
    if topic ∈ helpWord :: Action.all.map Action.label then .help
    else .misuse (.unexpected topic)
  | topic :: _ => .misuse (.unexpected topic)

/-- Reads the arguments of the program. -/
def Invocation.read : List String → Except Halt Invocation
  | [] => .error (.misuse .noAction)
  | s :: rest =>
    match Argument.ofText s with
    | .escape => .error (.misuse (rest.head?.elim .noAction .unexpected))
    | .short letters => do
      shortFlags true s letters
      Invocation.read rest
    | .long word value => do
      longFlag true s word value
      Invocation.read rest
    | .plain word =>
      match Action.all.find? (·.label == word) with
      | some action => do
        let given ← readSettings action [] rest
        Invocation.ofSettings action given
      | none => .error (if word = helpWord then readHelp rest else .misuse (.unexpected s))

end TaggedUnion.Command
