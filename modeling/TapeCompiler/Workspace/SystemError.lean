import TapeCompiler.Text.Quoted

/-!
# Errors of the operating system
-/

namespace TapeCompiler
namespace Workspace

/-- Why the operating system refused a file operation or a launch. -/
inductive SystemError where
  | noEntry
  | execFormat
  | permissionDenied
  | notDirectory
  | isDirectory
  | nameTooLong
  | tooManyLevels
deriving DecidableEq, Repr

namespace SystemError

/-- The error number. -/
def number : SystemError → Nat
  | noEntry => 2
  | execFormat => 8
  | permissionDenied => 13
  | notDirectory => 20
  | isDirectory => 21
  | nameTooLong => 36
  | tooManyLevels => 40

/-- The error in words. -/
def text : SystemError → String
  | noEntry => "No such file or directory"
  | execFormat => "Exec format error"
  | permissionDenied => "Permission denied"
  | notDirectory => "Not a directory"
  | isDirectory => "Is a directory"
  | nameTooLong => "File name too long"
  | tooManyLevels => "Too many levels of symbolic links"

/-- The report on an error that concerns a path. -/
def message (error : SystemError) (path : String) : String :=
  s!"[Errno {error.number}] {error.text}: {Text.quoted path}"

end SystemError
end Workspace
end TapeCompiler
