import Transact.Number.Literal
import Transact.Scenario.Basic
import Transact.Value.Json

/-! # The command line

Plays one scenario and prints its report. Everything about the arguments is decided here: which ones
are options, what their values mean, and which fault is reported if there are several. -/

namespace Transact.CommandLine

/-! ## Options -/

/-- What can be set on the command line. -/
inductive Setting where
  | sends
  | address
  | failSend
  | dropLink
  | rejectDischarge
  | rollback
deriving DecidableEq, Inhabited

namespace Setting

/-- All settings. -/
def list : List Setting := [sends, address, failSend, dropLink, rejectDischarge, rollback]

/-- The letter of an option, if it has one. -/
def letter : Setting → Option Char
  | sends => some 'n'
  | address => some 'a'
  | failSend => some 'f'
  | dropLink | rejectDischarge | rollback => none

/-- The long name of a setting. -/
def long : Setting → String
  | sends => "--sends"
  | address => "--address"
  | failSend => "--fail-send"
  | dropLink => "--drop-link"
  | rejectDischarge => "--reject-discharge"
  | rollback => "--rollback"

/-- What an option calls its value, if it takes one. -/
def valueName : Setting → Option String
  | sends => some "number"
  | address => some "name"
  | failSend => some "index"
  | dropLink | rejectDischarge | rollback => none

/-- Whether a setting is followed by a value. -/
def takesValue (s : Setting) : Bool := s.valueName.isSome

/-- The forms of an option, as messages show them. -/
def usage (s : Setting) : String :=
  let short := match s.letter with
    | none => ""
    | some c => .ofList ['-', c, ',', ' ']
  let value := match s.valueName with
    | none => ""
    | some name => s!" <{name}>"
  short ++ s.long ++ value

/-- The setting of this letter. -/
def ofLetter? (c : Char) : Option Setting := list.find? (·.letter = some c)

/-- The setting of this long name. -/
def ofLong? (name : List Char) : Option Setting := list.find? (·.long.toList = name)

end Setting

/-! ## Faults -/

/-- What can be wrong with a command line. -/
inductive Fault where
  | badCount (setting : Setting) (value : String)
  | missingValue (setting : Setting)
  | unknownOption (argument : String)
deriving DecidableEq, Inhabited

/-- What the caller is told of it. -/
def Fault.message : Fault → String
  | badCount setting value =>
    s!"error: option '{setting.usage}' argument '{value}' is invalid. " ++
      "must be a non-negative integer"
  | missingValue setting => s!"error: option '{setting.usage}' argument missing"
  | unknownOption argument => s!"error: unknown option '{argument}'"

/-! ## Arguments -/

/-- Whether an argument has the form of an option. -/
def looksLikeOption (argument : List Char) : Bool :=
  match argument with
  | '-' :: _ :: _ => true
  | _ => false

/-- Whether an argument asks for the version, also by a group of letters that begins with `V`. -/
def asksVersion (argument : List Char) : Bool :=
  argument = "--version".toList || argument.take 2 = ['-', 'V']

/-- The arguments from the first option on; none if the version is asked for before a `--`. What
comes before the first option names the one command there is, or nothing. -/
def optionsPart : (seen : Bool) → List String → Option (List String)
  | _, [] => some []
  | seen, argument :: rest =>
    if argument = "--" then some (if seen then argument :: rest else [])
    else if asksVersion argument.toList then none
    else if seen || looksLikeOption argument.toList then
      (optionsPart true rest).map (argument :: ·)
    else optionsPart false rest

/-- An option that stands alone, apart from its value. -/
def alone? : List Char → Option Setting
  | ['-', c] => Setting.ofLetter? c
  | cs => Setting.ofLong? cs

/-- An option with its value in the same argument: after the letter, or after an equals sign. -/
def joined? (cs : List Char) : Option (Setting × String) :=
  let found := match cs with
    | '-' :: '-' :: rest =>
      let name := rest.takeWhile (· ≠ '=')
      match rest.dropWhile (· ≠ '=') with
      | '=' :: value => (Setting.ofLong? ('-' :: '-' :: name)).map ((·, String.ofList value))
      | _ => none
    | '-' :: c :: value => (Setting.ofLetter? c).map ((·, String.ofList value))
    | _ => none
  found.filter (·.1.takesValue)

/-- What the arguments said so far, and the first of them that is no option here. -/
structure Draft where
  options : Scenario.Options := {}
  unknown : Option String := none

/-- Reads a count: a natural number in any notation. -/
def count (setting : Setting) (value : String) : Except Fault Number :=
  match Number.read? value with
  | some n => if n.isInteger && !n.isNegative then .ok n else .error (.badCount setting value)
  | none => .error (.badCount setting value)

/-- Gives an option its value; an option without one is switched on. -/
def assign (setting : Setting) (value : String) (o : Scenario.Options) :
    Except Fault Scenario.Options :=
  match setting with
  | .sends => (count .sends value).map fun n => { o with sends := n }
  | .address => .ok { o with address := value }
  | .failSend => (count .failSend value).map fun n => { o with failSend := some n }
  | .dropLink => .ok { o with dropLink := true }
  | .rejectDischarge => .ok { o with rejectDischarge := true }
  | .rollback => .ok { o with rollback := true }

/-- Takes in the value of a setting. -/
def Draft.assign (setting : Setting) (value : String) (d : Draft) : Except Fault Draft :=
  (CommandLine.assign setting value d.options).map fun options => { d with options }

/-- Reads the arguments in order. **An option that takes a value takes the next argument,** whatever
it looks like; a later value replaces an earlier one. -/
def read : List String → Draft → Except Fault Draft
  | [], d => .ok d
  | argument :: rest, d =>
    let cs := argument.toList
    if argument = "--" then .ok d
    else match alone? cs, joined? cs, rest with
      | some setting, _, rest =>
        if setting.takesValue then
          match rest with
          | [] => .error (.missingValue setting)
          | value :: rest => (d.assign setting value).bind (read rest)
        else (d.assign setting "").bind (read rest)
      | none, some (setting, value), rest => (d.assign setting value).bind (read rest)
      | none, none, rest =>
        read rest (if looksLikeOption cs && d.unknown.isNone
          then { d with unknown := some argument } else d)

/-- The options that the arguments give. An unknown option is reported after all values are read. -/
def parse (arguments : List String) : Except Fault Scenario.Options :=
  match read arguments {} with
  | .error fault => .error fault
  | .ok d => match d.unknown with
    | some argument => .error (.unknownOption argument)
    | none => .ok d.options

/-! ## The program -/

/-- What the program prints, and the code it exits with. -/
structure Answer where
  exit : Nat
  stdout : String := ""
  stderr : String := ""
deriving DecidableEq, Inhabited

/-- What is shown if the version is asked for. -/
def version : String := "0.1.0"

/-- Prints a report; only a failed transaction is a failure of the program. -/
def answer (r : Scenario.Report) : Answer where
  exit := if r.outcome = .failed then 1 else 0
  stdout := r.toValue.pretty ++ "\n"

/-- Runs the program. It halts only if the scenario does. -/
def run (arguments : List String) : Except Halt Answer :=
  match optionsPart false arguments with
  | none => .ok { exit := 0, stdout := version ++ "\n" }
  | some arguments => match parse arguments with
    | .error fault => .ok { exit := 1, stderr := fault.message ++ "\n" }
    | .ok options => (Scenario.run options).map answer

end Transact.CommandLine
