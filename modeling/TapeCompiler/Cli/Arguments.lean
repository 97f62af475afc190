import TapeCompiler.Assembly.Frame
import TapeCompiler.Cli.Usage
import TapeCompiler.Numeral.Literal
import TapeCompiler.Text.Digit

/-!
# Reading the command line

Arguments are read twice.  The first pass looks at each argument alone and
tells options from the rest; everything behind a lone `--` belongs to the
rest.  A long option may be shortened as long as only one option starts so,
and may carry its value behind `=`.  Options with one dash may be written
together behind one dash.  An argument that starts with a dash is still no
option if it is a dash alone, a negative number, or holds a space and starts
like no option.

The second pass goes from left to right, takes values for the options that
need one, and the first other argument as the source.  It stops at the first
error, and at a request for help.  That the source is missing, or that
arguments are left over, is found at the end.
-/

namespace TapeCompiler
namespace Cli

open Text

/-- An option as it occurs: whether with one dash, and with the value that is
attached to it. -/
structure Occurrence where
  setting : Setting
  short : Bool
  attached : Option String := none
deriving DecidableEq, Repr

/-- What an argument is by itself. -/
inductive Reading where
  /-- No option: a source, or the value of an option. -/
  | plain
  /-- The `--` behind which there are no options. -/
  | separator
  /-- An option. -/
  | option (occurrence : Occurrence)
  /-- Meant to be an option, but there is none like it. -/
  | unknown
deriving DecidableEq, Repr

/-- The text before the first `=` and, if there is one, the text behind it. -/
def splitAtEquals (text : List Char) : List Char × Option (List Char) :=
  (text.takeWhile (· != '='), (text.dropWhile (· != '=')).tail?)

/-- Whether a text is a negative number: a dash and digits, perhaps with a
point among or before them.  A newline at the end does not count. -/
def isNegativeNumber (text : List Char) : Bool :=
  match text with
  | '-' :: rest =>
      let number := if rest.getLast? = some '\n' then rest.dropLast else rest
      let whole := number.takeWhile isDecimal
      match number.dropWhile isDecimal with
      | [] => !whole.isEmpty
      | '.' :: places => !places.isEmpty && places.all isDecimal
      | _ => false
  | _ => false

/-- The options, with their spellings, that a text starting with a dash could
be short for. -/
def candidates (text : List Char) : List (String × Occurrence) :=
  let (name, attached) := splitAtEquals text
  match text with
  | '-' :: '-' :: _ =>
      (Setting.spelled.filter fun entry => name.isPrefixOf entry.1.toList).map
        fun (spelling, setting) =>
          (spelling, { setting, short := false, attached := attached.map String.ofList })
  | _ =>
      (Setting.spelled.filter fun entry => entry.1.toList = text.take 2).map
        fun (spelling, setting) =>
          (spelling, { setting, short := true, attached := some (String.ofList (text.drop 2)) })

/-- Whether a spelling has one dash. -/
def isShort (spelling : List Char) : Bool :=
  match spelling with
  | '-' :: '-' :: _ => false
  | _ => true

/-- Reads an argument other than `--` by itself. -/
def classify (argument : String) : Except UsageError Reading :=
  let text := argument.toList
  if text.head? != some '-' then
    .ok .plain
  else
    match Setting.ofSpelling? argument with
    | some setting => .ok (.option { setting, short := isShort text })
    | none =>
        if text.length = 1 then
          .ok .plain
        else
          let (name, attached) := splitAtEquals text
          match attached, Setting.ofSpelling? (String.ofList name) with
          | some value, some setting =>
              .ok (.option
                { setting, short := isShort text, attached := some (String.ofList value) })
          | _, _ =>
              match candidates text with
              | [(_, occurrence)] => .ok (.option occurrence)
              | [] =>
                  if isNegativeNumber text || text.contains ' ' then .ok .plain
                  else .ok .unknown
              | several => .error (.ambiguous argument (several.map (·.1)))

/-- The first pass. -/
def classifyAll : List String → Except UsageError (List (String × Reading))
  | [] => .ok []
  | argument :: rest =>
      if argument = "--" then
        .ok ((argument, .separator) :: rest.map fun other => (other, .plain))
      else do
        let reading ← classify argument
        return (argument, reading) :: (← classifyAll rest)

/-- The choices that a command line makes. -/
structure Choices where
  strict : Bool := false
  /-- The tape size; nothing if it was given without a value. -/
  tapeSize : Option Int := some Assembly.defaultTapeSize
  assembler : Option String := none
  keepAssembly : Bool := false
  emit : Bool := false
  run : Bool := false
  verbose : Bool := false
deriving DecidableEq, Repr

/-- Why a command line is not carried out. -/
inductive Stop where
  /-- Help was asked for. -/
  | help
  /-- The command line is wrong. -/
  | wrong (error : UsageError)
deriving DecidableEq, Repr

namespace Choices

/-- Makes the choice of an option without a value. -/
def choose (choices : Choices) : Setting → Except Stop Choices
  | .help => .error .help
  | .strict => .ok { choices with strict := true }
  | .keepAssembly => .ok { choices with keepAssembly := true }
  | .emit =>
      if choices.run then .error (.wrong (.conflict .emit .run))
      else .ok { choices with emit := true }
  | .run =>
      if choices.emit then .error (.wrong (.conflict .run .emit))
      else .ok { choices with run := true }
  | .verbose => .ok { choices with verbose := true }
  | .tapeSize => .ok choices
  | .assembler => .ok choices

/-- Makes the choice of an option with a value.  A value `--` is taken away as
if it were the separator. -/
def assign (choices : Choices) (setting : Setting) (value : String) : Except Stop Choices :=
  let value? := if value = "--" then none else some value
  match setting with
  | .assembler => .ok { choices with assembler := value? }
  | .tapeSize =>
      match value? with
      | none => .ok { choices with tapeSize := none }
      | some text =>
          match Numeral.readLiteral .ten text with
          | .ok size => .ok { choices with tapeSize := some size }
          | .error _ => .error (.wrong (.notAnInteger setting text))
  | _ => .ok choices

end Choices

/-- The options written together behind one dash, after the first of them. -/
def cluster (setting : Setting) : List Char → Except UsageError (List Setting)
  | [] => .ok [setting]
  | c :: rest =>
      match Setting.ofSpelling? (String.ofList ['-', c]) with
      | some next => do return setting :: (← cluster next rest)
      | none => .error (.unexpectedValue setting (String.ofList (c :: rest)))

/-- Where the second pass stands. -/
structure Progress where
  choices : Choices := {}
  source : Option String := none
  /-- The option that waits for its value. -/
  waiting : Option Setting := none
  /-- Whether the argument just before was taken as the source. -/
  sourceJustTaken : Bool := false
  /-- The arguments without a use, in order. -/
  unused : List String := []
deriving DecidableEq, Repr

namespace Progress

/-- Sets an argument aside. -/
def setAside (progress : Progress) (argument : String) : Progress :=
  { progress with unused := progress.unused ++ [argument], sourceJustTaken := false }

/-- Takes an argument that is no option. -/
def takePlain (progress : Progress) (argument : String) : Progress :=
  match progress.source with
  | none => { progress with source := some argument, sourceJustTaken := true }
  | some _ => progress.setAside argument

/-- Takes the separator.  It disappears behind the source, and in front of the
argument that becomes the source. -/
def takeSeparator (progress : Progress) (atEnd : Bool) : Progress :=
  if progress.sourceJustTaken || (progress.source.isNone && !atEnd) then
    { progress with sourceJustTaken := false }
  else
    progress.setAside "--"

/-- Takes options without a value. -/
def takeFlags (progress : Progress) (settings : List Setting) : Except Stop Progress := do
  let choices ← settings.foldlM Choices.choose progress.choices
  return { progress with choices, sourceJustTaken := false }

/-- Takes the value of an option. -/
def takeValue (progress : Progress) (setting : Setting) (value : String) :
    Except Stop Progress := do
  let choices ← progress.choices.assign setting value
  return { progress with choices, waiting := none, sourceJustTaken := false }

/-- Takes an option. -/
def takeOption (progress : Progress) (occurrence : Occurrence) : Except Stop Progress :=
  let setting := occurrence.setting
  match setting.takesValue, occurrence.attached with
  | true, some value => progress.takeValue setting value
  | true, none => .ok { progress with waiting := some setting, sourceJustTaken := false }
  | false, none => progress.takeFlags [setting]
  | false, some value =>
      if occurrence.short ∧ value ≠ "" then
        match cluster setting value.toList with
        | .ok settings => progress.takeFlags settings
        | .error error => .error (.wrong error)
      else
        .error (.wrong (.unexpectedValue setting value))

/-- Takes an argument with its reading. -/
def take (progress : Progress) (argument : String) (reading : Reading) (atEnd : Bool) :
    Except Stop Progress :=
  match progress.waiting, reading with
  | some setting, .plain => progress.takeValue setting argument
  | some setting, _ => .error (.wrong (.missingValue setting))
  | none, .plain => .ok (progress.takePlain argument)
  | none, .separator => .ok (progress.takeSeparator atEnd)
  | none, .option occurrence => progress.takeOption occurrence
  | none, .unknown => .ok (progress.setAside argument)

/-- The second pass. -/
def takeAll (progress : Progress) : List (String × Reading) → Except Stop Progress
  | [] => .ok progress
  | (argument, reading) :: rest => do
      (← progress.take argument reading rest.isEmpty).takeAll rest

end Progress

/-- A command line as understood. -/
structure Arguments where
  source : String
  choices : Choices
deriving DecidableEq, Repr

/-- Reads a command line. -/
def Arguments.read (arguments : List String) : Except Stop Arguments := do
  let readings ←
    match classifyAll arguments with
    | .ok readings => pure readings
    | .error error => throw (.wrong error)
  let progress ← Progress.takeAll {} readings
  if let some setting := progress.waiting then
    throw (.wrong (.missingValue setting))
  match progress.source with
  | none => throw (.wrong .missingSource)
  | some source =>
      if progress.unused.isEmpty then
        return { source, choices := progress.choices }
      else
        throw (.wrong (.unrecognized progress.unused))

end Cli
end TapeCompiler
