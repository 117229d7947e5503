import LoopTiling.Text.Digit

/-!
# Command arguments

A command line is options of the program, a command, and options of the command. An option may be
shortened to any start that no other option has; its value stands behind it or is attached, to a
long name after an equals sign and to a short one directly. What starts with a dash is an option,
unless it is a negative number or has a blank in it. Arguments are read from left to right, and the
first that asks for help or cannot be read settles the outcome.
-/
namespace LoopTiling.Command

inductive Key
  | help
  | verbose
  | layersFile
  | workload
  | arch
  | noPad
  | index
  | random
  | seed
  | output
deriving DecidableEq

structure OptionSpec where
  key : Key
  names : List String
  takesValue : Bool

/-- An option as it stands on a command line: its name there and the value attached to it. -/
structure Use where
  spec : OptionSpec
  name : List Char
  attached : Option (List Char)

inductive Token
  /-- A command, a value, or something left over. -/
  | plain
  | separator
  | option (use : Use)
  | unknown
  /-- The start of several options. -/
  | ambiguous

def helpSpec : OptionSpec := ⟨.help, ["-h", "--help"], false⟩

def mainSpecs : List OptionSpec :=
  [helpSpec, ⟨.verbose, ["-v", "--verbose"], false⟩, ⟨.layersFile, ["--layers-file"], true⟩]

def problemSpecs : List OptionSpec :=
  [helpSpec, ⟨.workload, ["-w", "--workload"], true⟩, ⟨.arch, ["-a", "--arch"], true⟩,
    ⟨.noPad, ["--no-pad-primes"], false⟩]

def decodeSpecs : List OptionSpec :=
  problemSpecs ++ [⟨.index, ["--index"], true⟩, ⟨.random, ["--random"], false⟩,
    ⟨.seed, ["--seed"], true⟩, ⟨.output, ["-o", "--output"], true⟩]

def specOf? (specs : List OptionSpec) (name : List Char) : Option OptionSpec :=
  specs.find? fun s => s.names.any fun n => n.toList = name

def splitAtEquals (arg : List Char) : Option (List Char × List Char) :=
  match arg.dropWhile (· ≠ '=') with
  | _ :: value => some (arg.takeWhile (· ≠ '='), value)
  | [] => none

def startingWith (specs : List OptionSpec) (start : List Char) (attached : Option (List Char)) :
    List Use :=
  specs.flatMap fun s =>
    (s.names.filter fun n => start.isPrefixOf n.toList).map fun n => ⟨s, n.toList, attached⟩

/-- The options that an argument may stand for when it is no full name. -/
def candidates (specs : List OptionSpec) (arg : List Char) : List Use :=
  match arg with
  | '-' :: '-' :: _ =>
    match splitAtEquals arg with
    | some (start, value) => startingWith specs start (some value)
    | none => startingWith specs arg none
  | '-' :: c :: value =>
    match specOf? specs ['-', c] with
    | some s => [⟨s, ['-', c], some value⟩]
    | none => []
  | _ => []

/-- A text without the line end behind it, if there is one. -/
def withoutLineEnd (arg : List Char) : List Char :=
  if arg.getLast? = some '\n' then arg.dropLast else arg

/-- Whether a text is a negative number: a dash and digits, one point among or in front of them
allowed, and one line end behind them. -/
def isNegativeNumber (arg : List Char) : Bool :=
  let isDigit := fun c => (Text.digitValue? c).isSome
  match withoutLineEnd arg with
  | '-' :: rest =>
    match rest.dropWhile isDigit with
    | [] => !rest.isEmpty
    | '.' :: digits => !digits.isEmpty && digits.all isDigit
    | _ => false
  | _ => false

def classify (specs : List OptionSpec) (arg : List Char) : Token :=
  match arg with
  | '-' :: _ :: _ =>
    if arg = ['-', '-'] then .separator
    else
      match specOf? specs arg with
      | some s => .option ⟨s, arg, none⟩
      | none =>
        match (splitAtEquals arg).bind fun p => (specOf? specs p.1).map fun s => (s, p) with
        | some (s, name, value) => .option ⟨s, name, some value⟩
        | none =>
          match candidates specs arg with
          | [use] => .option use
          | _ :: _ :: _ => .ambiguous
          | [] => if isNegativeNumber arg || arg.any (· = ' ') then .plain else .unknown
  | _ => .plain

def classifyAll (specs : List OptionSpec) (args : List String) : List (String × Token) :=
  args.map fun a => (a, classify specs a.toList)

def hasAmbiguous : List (String × Token) → Bool
  | [] => false
  | (_, .separator) :: _ => false
  | (_, .ambiguous) :: _ => true
  | _ :: rest => hasAmbiguous rest

abbrev Setting := Key × Option String

/-- An option and what is attached to its short name: a value, or other short options. The key is
that of an option that still needs a value; nothing comes of what fits no option. -/
def expandShort (specs : List OptionSpec) (spec : OptionSpec) :
    List Char → Option (List Setting × Option Key)
  | [] => some (if spec.takesValue then ([], some spec.key) else ([(spec.key, none)], none))
  | c :: rest =>
    if spec.takesValue then some ([(spec.key, some (String.ofList (c :: rest)))], none)
    else do
      let (settings, open?) ← expandShort specs (← specOf? specs ['-', c]) rest
      return ((spec.key, none) :: settings, open?)

/-- The settings that the use of an option makes, and the key of one that still needs a value. -/
def Use.expand (specs : List OptionSpec) (use : Use) : Option (List Setting × Option Key) :=
  match use.attached with
  | none => expandShort specs use.spec []
  | some value =>
    if use.spec.takesValue then some ([(use.spec.key, some (String.ofList value))], none)
    else if value.isEmpty || use.name.length ≠ 2 then none
    else expandShort specs use.spec value

variable [Text.DigitLimit]

/-- Whether a setting may follow others: numbers must read as such, and a mapping is either named
by its index or drawn. -/
def isAdmissible (before : List Setting) : Setting → Bool
  | (.index, some v) =>
    (Text.readInt? v.toList).isSome && !before.any fun s => s.1 = .random
  | (.random, _) => !before.any fun s => s.1 = .index
  | (.seed, some v) => (Text.readInt? v.toList).isSome
  | _ => true

inductive Scan
  | help
  | refused
  /-- All settings, and whether something is left over. -/
  | finished (settings : List Setting) (leftover : Bool)
  /-- The settings in front of a command, whether something is left over, the command and its
  arguments. -/
  | command (settings : List Setting) (leftover : Bool) (name : String) (args : List String)

/-- Adds settings to those before, or stops at the first that asks for help or is not
admissible. -/
def accept (before : List Setting) : List Setting → Except Scan (List Setting)
  | [] => .ok before
  | s :: rest =>
    if s.1 = .help then .error .help
    else if isAdmissible before s then accept (before ++ [s]) rest
    else .error .refused

/-- Reads arguments from left to right. What is neither an option nor a value is the command, where
one is awaited, and left over elsewhere. -/
def scan (specs : List OptionSpec) (awaitsCommand : Bool) :
    (before : List Setting) → (leftover : Bool) → List (String × Token) → Scan
  | before, leftover, [] => .finished before leftover
  | before, leftover, (arg, token) :: rest =>
    match token with
    | .plain =>
      if awaitsCommand then .command before leftover arg (rest.map Prod.fst)
      else scan specs awaitsCommand before true rest
    | .separator => .refused
    | .ambiguous => .refused
    | .unknown => scan specs awaitsCommand before true rest
    | .option use =>
      match use.expand specs with
      | none => .refused
      | some (settings, none) =>
        match accept before settings with
        | .error outcome => outcome
        | .ok settings => scan specs awaitsCommand settings leftover rest
      | some (settings, some key) =>
        match rest with
        | (value, .plain) :: rest =>
          match accept before (settings ++ [(key, some value)]) with
          | .error outcome => outcome
          | .ok settings => scan specs awaitsCommand settings leftover rest
        | _ => .refused

def scanAll (specs : List OptionSpec) (awaitsCommand : Bool) (args : List String) : Scan :=
  let tokens := classifyAll specs args
  if hasAmbiguous tokens then .refused else scan specs awaitsCommand [] false tokens

/-- The last value that settings give a key, unless it is empty. -/
def valueOf? (key : Key) (settings : List Setting) : Option String :=
  match (settings.reverse.lookup key).join with
  | some v => if v.isEmpty then none else some v
  | none => none

/-- The last value that settings give a key, which may be empty. -/
def textOf? (key : Key) (settings : List Setting) : Option String :=
  (settings.reverse.lookup key).join

def numberOf? (key : Key) (settings : List Setting) : Option Int :=
  (textOf? key settings).bind fun v => Text.readInt? v.toList

def isSet (key : Key) (settings : List Setting) : Bool := settings.any fun s => s.1 = key

structure Problem where
  /-- A file, or the name of a layer. -/
  workload : String
  /-- A file, or else the default hierarchy. -/
  arch : Option String
  /-- Whether the bounds of a named layer are rounded up. -/
  pad : Bool

inductive Pick
  | index (n : Int)
  | random (seed : Option Int)

inductive Request
  | info (problem : Problem)
  | size (problem : Problem)
  | decode (problem : Problem) (pick : Pick) (output : Option String)
  | layers

/-- A command line that can be carried out; without a request it shows how the program is used. -/
structure Invocation where
  verbose : Bool
  layersFile : Option String
  request : Option Request

inductive Reading
  | help
  | refused
  | accepted (invocation : Invocation)

/-- The workload and the hierarchy that settings choose; a workload has to be chosen. -/
def problemOf? (settings : List Setting) : Option Problem :=
  (textOf? .workload settings).map fun workload =>
    ⟨workload, valueOf? .arch settings, !isSet .noPad settings⟩

/-- Which mapping settings choose; one has to be chosen. -/
def pickOf? (settings : List Setting) : Option Pick :=
  if isSet .random settings then some (.random (numberOf? .seed settings))
  else (numberOf? .index settings).map .index

def specsOf? : String → Option (List OptionSpec)
  | "info" => some problemSpecs
  | "size" => some problemSpecs
  | "decode" => some decodeSpecs
  | "layers" => some [helpSpec]
  | _ => none

def requestOf? (command : String) (settings : List Setting) : Option Request :=
  match command with
  | "info" => (problemOf? settings).map .info
  | "size" => (problemOf? settings).map .size
  | "decode" => do
    return .decode (← problemOf? settings) (← pickOf? settings) (valueOf? .output settings)
  | "layers" => some .layers
  | _ => none

def readCommand (settings : List Setting) (leftover : Bool) (command : String)
    (args : List String) : Reading :=
  match specsOf? command with
  | none => .refused
  | some specs =>
    match scanAll specs false args with
    | .help => .help
    | .finished own ownLeftover =>
      match requestOf? command own with
      | none => .refused
      | some request =>
        if leftover || ownLeftover then .refused
        else .accepted ⟨isSet .verbose settings, valueOf? .layersFile settings, some request⟩
    | _ => .refused

def readArguments (args : List String) : Reading :=
  match scanAll mainSpecs true args with
  | .help => .help
  | .refused => .refused
  | .finished settings leftover =>
    if leftover then .refused
    else .accepted ⟨isSet .verbose settings, valueOf? .layersFile settings, none⟩
  | .command settings leftover name own => readCommand settings leftover name own

end LoopTiling.Command
