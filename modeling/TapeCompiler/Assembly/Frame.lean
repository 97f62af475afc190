import TapeCompiler.Assembly.Name

/-!
# The program frame

A complete assembly program: one class with the tape and the cursor as static
fields, a static constructor that allocates the tape, and an entry point that
runs the instruction body.  The entry point declares the one `char` variable
that the body uses as scratch.
-/

namespace TapeCompiler
namespace Assembly

open Text

/-- The tape size in bytes of a program that is given none. -/
def defaultTapeSize : Int := 0x26e8f0

/-- A tape size as the operand of its allocation. -/
def tapeSizeText (size : Nat) : String :=
  "0x" ++ String.ofList (hexadecimal 1 size)

/-- What stands before the name of the assembly. -/
def frameHead : String :=
  ".assembly extern mscorlib\n\x7b\n  auto\n\x7d\n"

/-- What stands between the class name and the tape size. -/
def frameConstructors : String :=
  "       extends [mscorlib]System.Object\n" ++
  "\x7b\n" ++
  "  .field private static initonly uint8[] Memory\n" ++
  "  .field private static int32 Counter\n" ++
  "\n" ++
  "  .method public hidebysig specialname rtspecialname\n" ++
  "          instance void  .ctor() cil managed\n" ++
  "  \x7b\n" ++
  "    .maxstack  8\n" ++
  "    ldarg.0\n" ++
  "    call       instance void [mscorlib]System.Object::.ctor()\n" ++
  "    nop\n" ++
  "    ret\n" ++
  "  \x7d\n" ++
  "\n" ++
  "  .method private hidebysig specialname rtspecialname static\n" ++
  "          void  .cctor() cil managed\n" ++
  "  \x7b\n" ++
  "    .maxstack  8\n"

/-- What stands between the allocation of the tape and the body. -/
def frameEntry : String :=
  "    ret\n" ++
  "  \x7d\n" ++
  "\n" ++
  "  .method private hidebysig static void  Main(string[] args) cil managed\n" ++
  "  \x7b\n" ++
  "    .entrypoint\n" ++
  "    .maxstack  8\n" ++
  "    .locals init ([0] char c)\n" ++
  "\n"

/-- What stands behind the body. -/
def frameTail : String :=
  "    ret\n  \x7d\n\x7d\n"

/-- The program around a body, with a tape of `size` bytes. -/
def frame (body program : String) (size : Nat) : String :=
  frameHead ++
  ".assembly " ++ quoteName program ++ " \x7b\x7d\n" ++
  ".module " ++ quoteName (program ++ ".exe") ++ "\n" ++
  "\n" ++
  ".class private auto ansi beforefieldinit " ++ quoteName program ++ ".Program\n" ++
  frameConstructors ++
  "    ldc.i4     " ++ tapeSizeText size ++ "\n" ++
  "    newarr     [mscorlib]System.Byte\n" ++
  "    stsfld     uint8[] " ++ quoteName program ++ ".Program::Memory\n" ++
  frameEntry ++
  body ++
  frameTail

/-- The program around a body, if the tape size is positive. -/
def frame? (body program : String) (size : Int) : Option String :=
  if 0 < size then some (frame body program size.toNat) else none

end Assembly
end TapeCompiler
