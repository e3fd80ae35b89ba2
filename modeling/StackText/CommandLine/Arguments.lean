/-!
# Command-line arguments

Options are written in full, `--name=value` or `--name value`; a flag takes no
value. In the second form a value that begins with a minus sign is taken only by
options for signed numbers, and only if it looks like a number. Two minus signs
alone end the options, and one alone is an operand like any other.
-/
namespace StackText.CommandLine

inductive OptionName where
  | version | stackCapacity | mode | width
  | int | uint | float | str | bool | nil
  deriving DecidableEq, Repr

namespace OptionName

def long : OptionName → String
  | .version => "version"
  | .stackCapacity => "stack-capacity"
  | .mode => "mode"
  | .width => "width"
  | .int => "int"
  | .uint => "uint"
  | .float => "float"
  | .str => "str"
  | .bool => "bool"
  | .nil => "nil"

/-- Whether the option is followed by a value. -/
def takesValue : OptionName → Bool
  | .version | .nil => false
  | _ => true

/-- Whether the value may be a negative number of its own. -/
def takesNegative : OptionName → Bool
  | .stackCapacity | .int | .float => true
  | _ => false

end OptionName

inductive UsageError where
  | unknownArgument (arg : String)
  | missingValue (option : OptionName)
  | unexpectedValue (option : OptionName)
  | invalidValue (option : OptionName) (text : String)
  | repeated (option : OptionName)
  | missingCommand
  | unknownCommand (name : String)
  | emptyFileName
  /-- Not exactly one value to encode was given. -/
  | oneValueNeeded
  deriving DecidableEq, Repr

def UsageError.message : UsageError → String
  | .unknownArgument arg => "unexpected argument '" ++ arg ++ "'"
  | .missingValue option => "a value is needed for '--" ++ option.long ++ "'"
  | .unexpectedValue option => "no value is allowed for '--" ++ option.long ++ "'"
  | .invalidValue option text => "invalid value '" ++ text ++ "' for '--" ++ option.long ++ "'"
  | .repeated option => "'--" ++ option.long ++ "' cannot be used more than once"
  | .missingCommand => "a command is needed: decode, ops, pretty or encode"
  | .unknownCommand name => "unknown command '" ++ name ++ "'"
  | .emptyFileName => "the name of a file cannot be empty"
  | .oneValueNeeded => "exactly one of --int, --uint, --float, --str, --bool and --nil is needed"

/-- The arguments of one place of the command line. -/
structure Arguments where
  /-- The options in order, with their values; a flag has the empty value. -/
  options : List (OptionName × String) := []
  /-- All other arguments, in order. -/
  operands : List String := []
  /-- What was left unread. -/
  rest : List String := []
  deriving Repr

namespace Arguments

def addOption (option : OptionName) (value : String) (a : Arguments) : Arguments :=
  { a with options := (option, value) :: a.options }

def addOperand (operand : String) (a : Arguments) : Arguments :=
  { a with operands := operand :: a.operands }

/-- Whether the characters after a minus sign look like a number: digits, with at
most one point after the first of them, and with at most one exponent mark, which
is neither first nor last and has no point after it. -/
def looksNumeric (cs : List Char) : Bool :=
  let mantissa := cs.takeWhile (· != 'e')
  let whole := mantissa.takeWhile (· != '.')
  let tenths := mantissa.dropWhile (· != '.')
  let exponent := cs.dropWhile (· != 'e')
  whole.all Char.isDigit && (tenths.drop 1).all Char.isDigit && (exponent.drop 1).all Char.isDigit &&
    whole != [] && exponent.length != 1

/-- Whether an argument can be the value of the option before it. -/
def isValueOf (option : OptionName) (arg : String) : Bool :=
  match arg.toList with
  | '-' :: c :: rest => option.takesNegative && looksNumeric (c :: rest)
  | _ => true

/-- Reads arguments. With `toCommand` the first one that is no option is left unread
with all that follow it. A request of the version ends the reading at once. -/
def read (known : List OptionName) (toCommand : Bool) :
    List String → Except UsageError Arguments
  | [] => .ok {}
  | arg :: rest =>
      match arg.toList with
      | ['-', '-'] => if toCommand then .ok { rest := arg :: rest } else .ok { operands := rest }
      | '-' :: '-' :: body =>
          let name := String.ofList (body.takeWhile (· != '='))
          match known.find? fun o => o.long == name with
          | none => .error (.unknownArgument arg)
          | some option =>
              match option.takesValue, body.dropWhile (· != '=') with
              | true, _ :: value =>
                  (read known toCommand rest).map (addOption option (String.ofList value))
              | true, [] =>
                  match rest with
                  | [] => .error (.missingValue option)
                  | value :: rest =>
                      if isValueOf option value then
                        (read known toCommand rest).map (addOption option value)
                      else .error (.missingValue option)
              | false, _ :: _ => .error (.unexpectedValue option)
              | false, [] =>
                  if option = .version then .ok { options := [(.version, "")] }
                  else (read known toCommand rest).map (addOption option "")
      | '-' :: letter :: _ =>
          if letter = 'V' ∧ .version ∈ known then .ok { options := [(.version, "")] }
          else .error (.unknownArgument arg)
      | _ =>
          if toCommand then .ok { rest := arg :: rest }
          else (read known toCommand rest).map (addOperand arg)

/-- The value of an option, which may be given once. -/
def value? (a : Arguments) (option : OptionName) : Except UsageError (Option String) :=
  match a.options.filter fun o => o.1 == option with
  | [] => .ok none
  | [(_, value)] => .ok (some value)
  | _ => .error (.repeated option)

/-- The value of an option, read by a function that may refuse it. -/
def parsed? {α : Type} (a : Arguments) (option : OptionName) (parse : String → Option α) :
    Except UsageError (Option α) := do
  match ← a.value? option with
  | none => return none
  | some text =>
      match parse text with
      | some x => return some x
      | none => throw (.invalidValue option text)

end Arguments
end StackText.CommandLine
