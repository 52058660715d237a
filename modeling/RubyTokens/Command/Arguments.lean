import RubyTokens.Text.DecimalDigit

/-! Command lines. Arguments are values or options; a long option may be cut short as long as it
stays the only one with that beginning, and may have its value attached behind an equals sign. A
negative number and a text with a space in it are values; behind a separator, two dashes on their
own, all arguments are. The last setting of an option holds.

A separator is taken out of the place that it stands in: that of the value before it, else that of
the value behind it, which may then be two dashes too. Two dashes in the place of any other value,
or attached to an option, are taken out as well and leave the place vacant. -/

namespace RubyTokens

/-- An option by its full name; one with a value says which values it accepts. -/
structure CommandOption where
  name : String
  accepts? : Option (String → Bool) := none

/-- What is wrong with a command line. -/
inductive UsageError where
  | ambiguous (argument : String)
  | unknown (argument : String)
  | needsValue (option : String)
  | takesNoValue (option : String)
  | badValue (option value : String)
  | wrongCount (values : Nat)
  deriving DecidableEq, Repr

/-- What stands in the place of a value: nothing if the place was left vacant. -/
abbrev Operand := Option String

/-- A command line that was read: a request for help, or values and settings, the latest first. -/
inductive CommandLine where
  | help
  | ready (values : List Operand) (settings : List (String × Operand))
  deriving DecidableEq, Repr

namespace CommandLine

def helpName : String := "--help"

def shortHelpName : String := "-h"

def separator : String := "--"

/-- An argument in front of a separator by its form. An option that is not known has no name. -/
inductive Form where
  | value (text : String)
  | option (name? : Option String) (attached : Option String) (text : String)
  deriving DecidableEq, Repr

/-- A dash with digits behind it, or with digits, a point and digits; a line feed may follow. -/
def isNegativeNumber (cs : List Char) : Bool :=
  match if cs.getLast? = some '\n' then cs.dropLast else cs with
  | '-' :: body =>
    match body.takeWhile isDecimalDigit, body.dropWhile isDecimalDigit with
    | _ :: _, [] => true
    | _, '.' :: ds => ds ≠ [] && ds.all isDecimalDigit
    | _, _ => false
  | _ => false

/-- The two parts around the first equals sign. -/
def splitEquals (cs : List Char) : List Char × Option (List Char) :=
  match cs.dropWhile (· ≠ '=') with
  | [] => (cs, none)
  | _ :: value => (cs.takeWhile (· ≠ '='), some value)

/-- The form of an argument, where `names` are the full names. -/
def formOf (names : List String) (arg : String) : Except UsageError Form :=
  let cs := arg.toList
  let (front, attached) := splitEquals cs
  let attached := attached.map String.ofList
  let isLong := cs.take 2 = ['-', '-']
  if cs.head? ≠ some '-' ∨ cs = ['-'] then .ok (.value arg)
  else if arg ∈ names then .ok (.option (some arg) none arg)
  else if attached.isSome ∧ String.ofList front ∈ names then
    .ok (.option (some (String.ofList front)) attached arg)
  else
    let candidates :=
      if isLong then names.filter fun n => front.isPrefixOf n.toList
      else if cs.take 2 = shortHelpName.toList then [shortHelpName]
      else []
    match candidates with
    | [name] =>
      .ok (.option (some name) (if isLong then attached else some (String.ofList (cs.drop 2))) arg)
    | _ :: _ :: _ => .error (.ambiguous arg)
    | [] =>
      if isNegativeNumber cs ∨ ' ' ∈ cs then .ok (.value arg) else .ok (.option none none arg)

/-- The text as an operand; a separator leaves its place vacant. -/
def operandOf (text : String) : Operand := if text = separator then none else some text

/-- What the arguments in front of a separator come to: values and settings so far, the latest
first, the first argument that has no place, and whether the last argument is a value. -/
structure Reading where
  values : List Operand := []
  settings : List (String × Operand) := []
  stray : Option String := none
  endsInValue : Bool := false
  deriving DecidableEq, Repr

namespace Reading

def addValue (r : Reading) (operand : Operand) : Reading :=
  { r with values := operand :: r.values, endsInValue := true }

def addSetting (r : Reading) (name : String) (operand : Operand) : Reading :=
  { r with settings := (name, operand) :: r.settings, endsInValue := false }

def addStray (r : Reading) (text : String) : Reading :=
  { r with stray := r.stray.or (some text), endsInValue := false }

/-- Adds the arguments behind a separator. -/
def addBehind (r : Reading) : List String → Reading
  | [] => if r.endsInValue then r else r.addStray separator
  | text :: texts =>
    let first := if r.endsInValue then operandOf text else some text
    (texts.map operandOf).foldl addValue (r.addValue first)

end Reading

/-- Reads forms one after the other; none if one of them asks for help. An option accepts a vacant
place. -/
def readForms (options : List CommandOption) (r : Reading) :
    List Form → Except UsageError (Option Reading)
  | [] => .ok (some r)
  | .value v :: rest => readForms options (r.addValue (some v)) rest
  | .option none _ text :: rest => readForms options (r.addStray text) rest
  | .option (some name) attached _ :: rest =>
    if name = helpName ∨ name = shortHelpName then
      if attached.all fun a => name = shortHelpName ∧ a ≠ "" ∧ a.toList.all (· = 'h') then .ok none
      else .error (.takesNoValue name)
    else
      match (options.find? (·.name = name)).bind CommandOption.accepts? with
      | none =>
        if attached.isSome then .error (.takesNoValue name)
        else readForms options (r.addSetting name (some "")) rest
      | some accepts =>
        match attached, rest with
        | some v, rest =>
          if (operandOf v).all accepts then
            readForms options (r.addSetting name (operandOf v)) rest
          else .error (.badValue name v)
        | none, .value v :: rest =>
          if accepts v then readForms options (r.addSetting name (some v)) rest
          else .error (.badValue name v)
        | none, _ => .error (.needsValue name)

/-- Reads a command line with a fixed number of values. -/
def read (options : List CommandOption) (valueCount : Nat) (args : List String) :
    Except UsageError CommandLine := do
  let names := shortHelpName :: helpName :: options.map CommandOption.name
  let forms ← (args.takeWhile (· ≠ separator)).mapM (formOf names)
  match ← readForms options {} forms with
  | none => return .help
  | some r =>
    let r := match args.dropWhile (· ≠ separator) with
      | [] => r
      | _ :: behind => r.addBehind behind
    if r.values.length ≠ valueCount then throw (.wrongCount r.values.length)
    match r.stray with
    | some arg => throw (.unknown arg)
    | none => return .ready r.values.reverse r.settings

end CommandLine

end RubyTokens
