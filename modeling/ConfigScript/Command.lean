import ConfigScript.Loader

set_option autoImplicit false

/-!
# The command line

    events FILE [-t|--tag NAME]...    prints the events of a configuration, one per line
    json FILE [-t|--tag NAME]...      prints a configuration as JSON

Each tag that is named becomes a constructor for the script.
-/

namespace ConfigScript

inductive Report where
  | events
  | json
  deriving DecidableEq, Repr

structure Command where
  report : Report
  file : String
  tags : List String
  deriving DecidableEq, Repr

namespace Command

structure Arguments where
  file : Option String
  tags : List String

def Arguments.takeFile? (arguments : Arguments) (word : String) : Option Arguments :=
  if arguments.file.isSome || word.isEmpty then none
  else some { arguments with file := some word }

/-- Whether a word can only be an option. A single dash is an ordinary word. -/
def isOption (word : String) : Bool :=
  word.startsWith "-" && word ≠ "-"

def attachedTag? (word : String) : Option String :=
  match word.toList with
  | '-' :: '-' :: 't' :: 'a' :: 'g' :: '=' :: tag => some (String.ofList tag)
  | '-' :: 't' :: '=' :: tag => some (String.ofList tag)
  | '-' :: 't' :: c :: tag => some (String.ofList (c :: tag))
  | _ => none

/-- Reads the words after a report. After two dashes every word is ordinary. -/
def readArguments? (arguments : Arguments) : List String → Option Arguments
  | [] => some arguments
  | word :: rest =>
    if word = "--" then rest.foldlM Arguments.takeFile? arguments
    else if word = "-t" ∨ word = "--tag" then
      match rest with
      | tag :: rest =>
        if isOption tag then none
        else readArguments? { arguments with tags := tag :: arguments.tags } rest
      | [] => none
    else
      match attachedTag? word with
      | some tag => readArguments? { arguments with tags := tag :: arguments.tags } rest
      | none =>
        if isOption word then none
        else
          match arguments.takeFile? word with
          | some arguments => readArguments? arguments rest
          | none => none

def read? : List String → Option Command
  | [] => none
  | word :: rest =>
    let report? : Option Report :=
      if word = "events" then some .events else if word = "json" then some .json else none
    match report?, readArguments? ⟨none, []⟩ rest with
    | some report, some ⟨some file, tags⟩ => some ⟨report, file, tags.reverse⟩
    | _, _ => none

def load (command : Command) (options : Options) (state : FileState) : Except Error Document :=
  let loader : Except Error Loader :=
    if command.tags.isEmpty then .ok { Loader.initial with options }
    else { Loader.initial with options }.register ⟨"cli", command.tags⟩
  match loader with
  | .ok loader => loader.load .script (.file command.file state)
  | .error error => .error error

/-- The line of an event: its address, padded to 24 characters, and the event. -/
def eventLine (event : Event) (path : Path) : String :=
  let address := path.location
  address ++ String.ofList (List.replicate (24 - address.length) ' ') ++ " " ++ event.describe

def failureText (error : Error) : String :=
  match error with
  | .script => "Error: " ++ error.message
  | .io fault =>
    "Error: " ++ error.message ++ "\n\nCaused by:\n    " ++ fault.message ++ "\n"
  | _ => "Error: " ++ error.message ++ "\n"

structure Outcome where
  lines : List String
  failure : Option Error

def eventLines : List (Item Invalid) → Outcome
  | [] => ⟨[], none⟩
  | .ok (event, path) :: rest =>
    let outcome := eventLines rest
    { outcome with lines := eventLine event path :: outcome.lines }
  | .error invalid :: _ => ⟨[], some (.invalidStream invalid.path invalid.fault)⟩

/-- Answers a request whose walk ends after at most the given number of items. -/
def run (command : Command) (options : Options) (state : FileState) (pulls : Nat) : Outcome :=
  match command.load options state with
  | .error error => ⟨[], some error⟩
  | .ok document =>
    match command.report with
    | .events => eventLines (document.walker.items pulls)
    | .json =>
      match document.read? .json with
      | some (.ok (.json value)) => ⟨[value.pretty], none⟩
      | some (.error error) => ⟨[], some error⟩
      | _ => ⟨[], none⟩

end Command

end ConfigScript
