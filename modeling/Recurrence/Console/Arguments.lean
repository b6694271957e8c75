import Recurrence.Console.Number
import Recurrence.Crontab.Format
import Recurrence.Text.Segment

namespace Recurrence.Console

/-! The arguments of the command line. Options have a long name and often a letter; the
value of an option is the rest of its own argument or the next argument, whatever that
looks like. Letters may be put together behind one hyphen. Behind two hyphens alone there
are no options any more. -/

abbrev Argument := List Char

inductive OptionName where
  | version | verbose | format | runs | fields
deriving DecidableEq, Repr

structure OptionForm where
  name : OptionName
  long : String
  letter : Option Char
  takesValue : Bool

/-- What a list of arguments consists of. Flags have an empty value. -/
structure Scanned where
  options : List (OptionName × Argument)
  arguments : List Argument

namespace Scanned

def withOptions (scanned : Scanned) (options : List (OptionName × Argument)) : Scanned :=
  { scanned with options := options ++ scanned.options }

def withArgument (scanned : Scanned) (argument : Argument) : Scanned :=
  { scanned with arguments := argument :: scanned.arguments }

def has (scanned : Scanned) (name : OptionName) : Bool :=
  scanned.options.any (·.1 = name)

/-- The value of an option. The last one counts. -/
def value? (scanned : Scanned) (name : OptionName) : Option Argument :=
  (scanned.options.reverse.find? (·.1 = name)).map (·.2)

end Scanned

/-- The options in one argument, and the one among them that still waits for its value. -/
structure OptionArgument where
  options : List (OptionName × Argument)
  awaiting : Option OptionName

/-- Letters behind one hyphen. What follows a letter that takes a value is its value. -/
def readLetters? (forms : List OptionForm) : List Char → Option OptionArgument
  | [] => some ⟨[], none⟩
  | letter :: rest =>
      match forms.find? (·.letter = some letter) with
      | none => none
      | some form =>
          if form.takesValue then
            some (if rest = [] then ⟨[], some form.name⟩ else ⟨[(form.name, rest)], none⟩)
          else (readLetters? forms rest).map fun further =>
            { further with options := (form.name, []) :: further.options }

/-- A long option, perhaps with a value behind an equals sign. -/
def readLong? (form : OptionForm) (value : Option Argument) : Option OptionArgument :=
  match value, form.takesValue with
  | some value, true => some ⟨[(form.name, value)], none⟩
  | none, true => some ⟨[], some form.name⟩
  | none, false => some ⟨[(form.name, [])], none⟩
  | some _, false => none

def readOption? (forms : List OptionForm) (argument : Argument) : Option OptionArgument :=
  let (name, value) := match Text.splitFirst? '=' argument with
    | some (name, value) => (name, some value)
    | none => (argument, none)
  match forms.find? (·.long.toList = name) with
  | some form => readLong? form value
  | none => if ['-', '-'].isPrefixOf argument then none else readLetters? forms (argument.drop 1)

def isOption (argument : Argument) : Bool :=
  argument.head? == some '-' && 1 < argument.length

/-- Takes options and other arguments apart. Unless they may be mixed, the options end at
the first other argument. -/
def scan? (forms : List OptionForm) (mixed : Bool) : List Argument → Option Scanned
  | [] => some ⟨[], []⟩
  | argument :: rest =>
      if argument = ['-', '-'] then some ⟨[], rest⟩
      else if isOption argument then
        match readOption? forms argument with
        | none => none
        | some ⟨options, none⟩ => (scan? forms mixed rest).map (·.withOptions options)
        | some ⟨options, some name⟩ =>
            match rest with
            | [] => none
            | value :: others =>
                (scan? forms mixed others).map (·.withOptions (options ++ [(name, value)]))
      else if mixed then (scan? forms mixed rest).map (·.withArgument argument)
      else some ⟨[], argument :: rest⟩

/-! Commands -/

inductive Command where
  | version
  | interpret (text : List Char) (format : Option Crontab.Format) (runs : Option Int)
  | validate (expression : List Char) (format : Option Crontab.Format)
  | explain (expression : List Char) (fields : Bool)
  | next (expression : List Char) (format : Option Crontab.Format) (runs : Option Int)
deriving DecidableEq, Repr

namespace Command

def generalOptions : List OptionForm :=
  [⟨.version, "--version", some 'v', false⟩, ⟨.verbose, "--verbose", none, false⟩]

def formatOption : OptionForm := ⟨.format, "--format", some 'f', true⟩

def format? (scanned : Scanned) : Option (Option Crontab.Format) :=
  match scanned.value? .format with
  | none => some none
  | some name => (Crontab.Format.ofText? name).map some

def runs? (scanned : Scanned) : Option (Option Int) :=
  match scanned.value? .runs with
  | none => some none
  | some text => (readNumber? text).map some

def only? (scanned : Scanned) : Option Argument :=
  match scanned.arguments with
  | [argument] => some argument
  | _ => none

def ofName? (name : Argument) (arguments : List Argument) : Option Command := do
  if name = "translate".toList then
    let scanned ← scan? [formatOption, ⟨.runs, "--next", some 'n', true⟩] true arguments
    return .interpret (← only? scanned) (← format? scanned) (← runs? scanned)
  else if name = "validate".toList then
    let scanned ← scan? [formatOption] true arguments
    return .validate (← only? scanned) (← format? scanned)
  else if name = "explain".toList then
    let scanned ← scan? [⟨.fields, "--fields", none, false⟩] true arguments
    return .explain (← only? scanned) (scanned.has .fields)
  else if name = "next".toList then
    let scanned ← scan? [⟨.runs, "--count", some 'c', true⟩, formatOption] true arguments
    return .next (← only? scanned) (← format? scanned) (← runs? scanned)
  else none

/-- The command that the arguments give, if they are used rightly. The version is told
whatever else they say. -/
def ofArguments? (arguments : List Argument) : Option Command := do
  let scanned ← scan? generalOptions false arguments
  if scanned.has .version then return .version
  else match scanned.arguments with
    | [] => none
    | name :: others => ofName? name others

end Command

end Recurrence.Console
