/-!
# Arguments

Options start with a dash and can stand between the paths; after two dashes everything is a path. Long
options have their value after `=` or in the next argument, short ones directly behind them as well, and
short options without a value can share one dash. No option may be given twice, and no path or value may
be empty.
-/

namespace Exemplar.CommandLine

/-- How a report is written. -/
inductive Format where
  | text
  | json
deriving DecidableEq, Repr

/-- What a run is asked to do. -/
structure Arguments where
  paths : List String := []
  format? : Option Format := none
  config? : Option String := none
  verbose : Bool := false
  noColor : Bool := false
  showHardcoded : Bool := false
deriving DecidableEq, Repr

inductive Opt where
  | format
  | config
  | verbose
  | noColor
  | showHardcoded
deriving DecidableEq, Repr

namespace Opt

def ofLong? (name : List Char) : Option Opt :=
  if name = "format".toList then some format
  else if name = "config".toList then some config
  else if name = "verbose".toList then some verbose
  else if name = "no-color".toList then some noColor
  else if name = "show-hardcoded".toList then some showHardcoded
  else none

def ofShort? (c : Char) : Option Opt :=
  if c = 'c' then some config
  else if c = 'v' then some verbose
  else none

def takesValue : Opt → Bool
  | format | config => true
  | verbose | noColor | showHardcoded => false

end Opt

namespace Arguments

def setValue (arguments : Arguments) (value : String) : Opt → Option Arguments
  | .format =>
    if arguments.format?.isSome then none
    else if value = "text" then some { arguments with format? := some .text }
    else if value = "json" then some { arguments with format? := some .json }
    else none
  | .config =>
    if arguments.config?.isSome || value = "" then none
    else some { arguments with config? := some value }
  | .verbose | .noColor | .showHardcoded => none

def setFlag (arguments : Arguments) : Opt → Option Arguments
  | .verbose => if arguments.verbose then none else some { arguments with verbose := true }
  | .noColor => if arguments.noColor then none else some { arguments with noColor := true }
  | .showHardcoded =>
    if arguments.showHardcoded then none else some { arguments with showHardcoded := true }
  | .format | .config => none

def addPath (arguments : Arguments) (path : String) : Option Arguments :=
  if path = "" then none else some { arguments with paths := arguments.paths ++ [path] }

/-- A text without an equals sign in front. -/
def withoutEquals : List Char → List Char
  | '=' :: cs => cs
  | cs => cs

/-- Reads short options that share a dash. The last one can still need a value. -/
def addShort (arguments : Arguments) : List Char → Option (Arguments × Option Opt)
  | [] => some (arguments, none)
  | c :: cs => do
    let opt ← Opt.ofShort? c
    if opt.takesValue then
      if cs.isEmpty then return (arguments, some opt)
      else return (← arguments.setValue (String.ofList (withoutEquals cs)) opt, none)
    else addShort (← arguments.setFlag opt) cs

/-- Reads a long option. It can still need a value. -/
def addLong (arguments : Arguments) (text : List Char) : Option (Arguments × Option Opt) := do
  let opt ← Opt.ofLong? (text.takeWhile (· != '='))
  match text.dropWhile (· != '=') with
  | _ :: value => return (← arguments.setValue (String.ofList value) opt, none)
  | [] =>
    if opt.takesValue then return (arguments, some opt)
    else return (← arguments.setFlag opt, none)

/-- Whether an argument is an option rather than a path or value. -/
def isOption (text : String) : Bool :=
  text.toList.head? == some '-' && text != "-"

/-- Reads what is left of the arguments, where an option may wait for its value. -/
def addAll (arguments : Arguments) (pending : Option Opt) : List String → Option Arguments
  | [] => if pending.isSome then none else some arguments
  | text :: rest =>
    match pending with
    | some opt =>
      if isOption text then none
      else do addAll (← arguments.setValue text opt) none rest
    | none =>
      match text.toList with
      | ['-', '-'] => rest.foldlM addPath arguments
      | '-' :: '-' :: long => do
        let (arguments, pending) ← arguments.addLong long
        addAll arguments pending rest
      | '-' :: c :: short => do
        let (arguments, pending) ← arguments.addShort (c :: short)
        addAll arguments pending rest
      | _ => do addAll (← arguments.addPath text) none rest

/-- Reads arguments. Without any path, the current directory is meant. -/
def ofList? (texts : List String) : Option Arguments := do
  let arguments ← addAll {} none texts
  if arguments.paths.isEmpty then return { arguments with paths := ["."] } else return arguments

end Arguments

end Exemplar.CommandLine
