import TapeCompiler.Compiler.Error
import TapeCompiler.Text.Utf8
import TapeCompiler.Workspace.Path
import TapeCompiler.Workspace.SystemError

/-!
# Failures of file and assembler work
-/

namespace TapeCompiler
namespace Workspace

open Text

/-- Why an executable could not be made. -/
inductive ToolError where
  /-- The assembler that was asked for is not there. -/
  | notFound (candidate : String)
  /-- No assembler was asked for and none was found. -/
  | noneFound
  /-- The assembler could not be started. -/
  | launchFailed (assembler : String) (error : SystemError)
  /-- The assembler reported an error. -/
  | rejected (status : Int) (detail : String)
deriving DecidableEq, Repr

/-- The report on an assembler problem. -/
def ToolError.message : ToolError → String
  | .notFound candidate => s!"Assembler not found: {candidate}"
  | .noneFound => "Could not find ilasm. Pass --ilasm or set BFCIL_ILASM."
  | .launchFailed assembler error =>
      s!"Failed to launch {assembler}: {error.message assembler}"
  | .rejected status detail =>
      s!"ilasm exited with status {status}" ++ (if detail = "" then "" else "\n" ++ detail)

/-- Why work on files did not succeed. -/
inductive Failure where
  /-- The source was not compiled. -/
  | compile (error : Compiler.CompileError)
  /-- The operating system refused to open a path. -/
  | system (error : SystemError) (path : String)
  /-- A path holds the character NUL. -/
  | nulInPath
  /-- A path has no last component to build a name from. -/
  | emptyName (path : Path)
  /-- There is no encoding of this name. -/
  | unknownEncoding (name : String)
  /-- Assembly text that is not ASCII cannot be written. -/
  | notAscii
  /-- The output of the assembler is not UTF-8. -/
  | notUtf8 (error : Utf8.DecodeError)
  /-- There is a problem with the assembler. -/
  | tool (error : ToolError)
deriving DecidableEq, Repr

/-- The report on a failure.  A text that is not ASCII is reported without a text
of its own. -/
def Failure.message : Failure → String
  | .compile error => error.message
  | .system error path => error.message path
  | .nulInPath => "embedded null byte"
  | .emptyName path => s!"PosixPath({quoted path.render}) has an empty name"
  | .unknownEncoding name => s!"unknown encoding: {name}"
  | .notAscii => ""
  | .notUtf8 error => error.message
  | .tool error => error.message

end Workspace
end TapeCompiler
