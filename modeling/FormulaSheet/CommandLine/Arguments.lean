/-!
# Arguments of a command

A command takes one argument, and options that stand before or after it. An option has a letter and
a word, so that it is written `-s` or `--set`; the value of an option follows as the next argument,
or is attached to it. After `--` nothing is taken for an option.
-/

namespace FormulaSheet.CommandLine

/-- The name by which the program is called, as its messages show it. -/
def programName : String := "rowcalc"

/-- The usage line that shows no command in particular. -/
def generalUsage : String := programName ++ " <COMMAND>"

/-- An option. `value?` is what usage lines call its value, if it takes one; the value has to be one
of the choices, if there are any. A repeatable option may be given more than once. -/
structure Switch where
  letter : Char
  word : String
  value? : Option String
  choices : List String
  repeatable : Bool
deriving DecidableEq, Repr

def Switch.label (s : Switch) : String :=
  match s.value? with
  | some value => "--" ++ s.word ++ " <" ++ value ++ ">"
  | none => "--" ++ s.word

/-- The form of a command: its name, what usage lines call its argument, whether that may be the
empty text, and its options. -/
structure Form where
  name : String
  argument : String
  mayBeEmpty : Bool
  switches : List Switch
deriving DecidableEq, Repr

def Form.usage (form : Form) : String :=
  programName ++ " " ++ form.name ++ (if form.switches.isEmpty then "" else " [OPTIONS]") ++
    " <" ++ form.argument ++ ">"

/-- How the command is called with its argument alone. -/
def Form.shortUsage (form : Form) : String :=
  programName ++ " " ++ form.name ++ " <" ++ form.argument ++ ">"

/-- Why arguments are refused. -/
inductive UsageFault where
  /-- Nothing of this name is known. With a tip it could be meant as the argument. -/
  | unexpected (name : String) (tip : Bool) (usage : String)
  | missingArgument (argument usage : String)
  | missingValue (label : String) (choices : List String)
  | unexpectedValue (value label usage : String)
  | invalidValue (value label : String) (choices : List String)
  | repeated (label usage : String)
  | unknownCommand (name : String)
  | missingCommand
deriving DecidableEq, Repr

def choicesText (choices : List String) : String :=
  if choices.isEmpty then "" else "\n  [possible values: " ++ ", ".intercalate choices ++ "]"

def UsageFault.reason : UsageFault → String
  | unexpected name tip _ =>
    "unexpected argument '" ++ name ++ "' found" ++
      (if tip then "\n\n  tip: to pass '" ++ name ++ "' as a value, use '-- " ++ name ++ "'"
        else "")
  | missingArgument argument _ =>
    "the following required arguments were not provided:\n  <" ++ argument ++ ">"
  | missingValue label choices =>
    "a value is required for '" ++ label ++ "' but none was supplied" ++ choicesText choices
  | unexpectedValue value label _ =>
    "unexpected value '" ++ value ++ "' for '" ++ label ++ "' found; no more were expected"
  | invalidValue value label choices =>
    "invalid value '" ++ value ++ "' for '" ++ label ++ "'" ++ choicesText choices
  | repeated label _ => "the argument '" ++ label ++ "' cannot be used multiple times"
  | unknownCommand name => "unrecognized subcommand '" ++ name ++ "'"
  | missingCommand => "'" ++ programName ++ "' requires a subcommand but one was not provided"

/-- The usage line that goes with the reason. -/
def UsageFault.usage? : UsageFault → Option String
  | unexpected _ _ usage | missingArgument _ usage | unexpectedValue _ _ usage
  | repeated _ usage => some usage
  | unknownCommand _ | missingCommand => some generalUsage
  | missingValue _ _ | invalidValue _ _ _ => none

/-- What is printed where arguments are refused. -/
def UsageFault.message (f : UsageFault) : String :=
  "error: " ++ f.reason ++ "\n\n" ++
    (match f.usage? with
      | some usage => "Usage: " ++ usage ++ "\n\n"
      | none => "") ++
    "For more information, try '--help'.\n"

/-- What was given to a command: its argument, and its options with their values. -/
structure Given where
  argument? : Option String
  settings : List (Switch × String)
deriving DecidableEq, Repr

/-- The values of an option, in the order in which they were given. -/
def Given.values (g : Given) (s : Switch) : List String :=
  (g.settings.filter fun p => p.1 == s).map Prod.snd

def Given.has (g : Given) (s : Switch) : Bool := g.settings.any fun p => p.1 == s

/-- A text that is read as an option: more than a dash, and a dash first. -/
def looksLikeOption (arg : String) : Bool :=
  match arg.toList with
  | '-' :: _ :: _ => true
  | _ => false

namespace Form

def takeArgument (form : Form) (g : Given) (arg : String) : Except UsageFault Given :=
  match g.argument? with
  | none =>
    if arg.isEmpty && !form.mayBeEmpty then .error (.missingValue ("<" ++ form.argument ++ ">") [])
    else .ok { g with argument? := some arg }
  | some _ => .error (.unexpected arg false form.usage)

/-- Takes an option, which has to be repeatable to be given again. -/
def takeSetting (form : Form) (g : Given) (s : Switch) (value : String) : Except UsageFault Given :=
  if g.has s && !s.repeatable then .error (.repeated s.label form.usage)
  else if !s.choices.isEmpty && !s.choices.contains value then
    if value.isEmpty then .error (.missingValue s.label s.choices)
    else .error (.invalidValue value s.label s.choices)
  else .ok { g with settings := g.settings ++ [(s, value)] }

/-- The options in one argument, and the last of them if its value is still to come. -/
structure Cluster where
  settings : List (Switch × String)
  waiting? : Option Switch

/-- The value attached to a letter, behind an equals sign or at once. -/
def attached : List Char → String
  | '=' :: value => String.ofList value
  | value => String.ofList value

/-- Reads letters behind a dash. A letter with a value takes all that follows it. -/
def letters (form : Form) : List Char → Except UsageFault Cluster
  | [] => .ok ⟨[], none⟩
  | c :: rest =>
    match form.switches.find? fun s => s.letter == c with
    | none => .error (.unexpected (String.ofList ['-', c]) true form.usage)
    | some s =>
      match s.value?, rest with
      | some _, [] => .ok ⟨[], some s⟩
      | some _, _ => .ok ⟨[(s, attached rest)], none⟩
      | none, _ => (letters form rest).map fun more =>
        { more with settings := (s, "") :: more.settings }

/-- Reads a word behind two dashes. A value may be attached behind an equals sign. -/
def word (form : Form) (cs : List Char) : Except UsageFault Cluster :=
  let name := String.ofList (cs.takeWhile (· != '='))
  match form.switches.find? fun s => s.word == name with
  | none => .error (.unexpected ("--" ++ name) true form.usage)
  | some s =>
    match s.value?, cs.dropWhile (· != '=') with
    | some _, [] => .ok ⟨[], some s⟩
    | some _, _ :: value => .ok ⟨[(s, String.ofList value)], none⟩
    | none, [] => .ok ⟨[(s, "")], none⟩
    | none, _ :: value => .error (.unexpectedValue (String.ofList value) s.label form.usage)

/-- Reads an argument that looks like an option. -/
def cluster (form : Form) (arg : String) : Except UsageFault Cluster :=
  match arg.toList.drop 1 with
  | '-' :: cs => form.word cs
  | cs => form.letters cs

/-- Refuses an option in the place of the value of another one. -/
def refuseOption (form : Form) (s : Switch) (value : String) : Except UsageFault Unit :=
  if value = "--" then .error (.missingValue s.label s.choices)
  else if looksLikeOption value then
    match form.cluster value with
    | .error f => .error f
    | .ok _ => .error (.missingValue s.label s.choices)
  else .ok ()

def takeAll (form : Form) : List String → Given → Except UsageFault Given
  | [], g => .ok g
  | arg :: rest, g =>
    if arg = "--" then rest.foldlM form.takeArgument g
    else if looksLikeOption arg then
      match form.cluster arg with
      | .error f => .error f
      | .ok found =>
        match found.settings.foldlM (fun g p => form.takeSetting g p.1 p.2) g with
        | .error f => .error f
        | .ok g =>
          match found.waiting? with
          | none => takeAll form rest g
          | some s =>
            match rest with
            | [] => .error (.missingValue s.label s.choices)
            | value :: rest =>
              match form.refuseOption s value, form.takeSetting g s value with
              | .error f, _ | _, .error f => .error f
              | .ok _, .ok g => takeAll form rest g
    else
      match form.takeArgument g arg with
      | .error f => .error f
      | .ok g => takeAll form rest g

/-- The argument and the options of a command. -/
def read (form : Form) (args : List String) : Except UsageFault (String × Given) := do
  let g ← form.takeAll args ⟨none, []⟩
  match g.argument? with
  | some argument => return (argument, g)
  | none => throw (.missingArgument form.argument form.shortUsage)

end Form

end FormulaSheet.CommandLine
