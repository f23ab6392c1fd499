import Lane.Compilation
import Lane.Digest.Md5
import Lane.Llvm.Emit

set_option relaxedAutoImplicit false
set_option autoImplicit false

/-!
# Compilation units

A source file is compiled on its own, under settings that are the same for all files of a build.

## Main definitions

* `Lane.BuildSettings`: what besides the source decides the output.
* `Lane.UnitResult`: what compiling a file has given.
* `Lane.BuildSettings.compile`: compile a file.
* `Lane.BuildSettings.key`: the key under which the output of a file is stored.
-/

namespace Lane

/-- The version of the compiler. -/
def compilerVersion : String := "0.3.1"

/-- What besides the source decides the output of a file. -/
structure BuildSettings where
  width : Int
  /-- The output format: `ir` for code, and LLVM otherwise. -/
  format : String
  /-- Whether files are only analysed. -/
  isCheck : Bool := false
  deriving DecidableEq, Repr, Inhabited

/-- Why the compiler itself failed. -/
inductive InternalError where
  | fault (f : Fault)
  | emission (module : String) (e : Llvm.EmitError)
  deriving DecidableEq, Repr, Inhabited

/-- The message of an internal error, where it has one. -/
def InternalError.message? : InternalError → Option String
  | .fault f => f.message?
  | .emission module e => e.message? module

/-- An internal error in words. -/
def InternalError.text : InternalError → String
  | .fault f => f.text
  | .emission module e => e.text module

/-- What compiling a file has given. -/
structure UnitResult where
  compilation : Compilation
  output : Except InternalError (Option String)
  deriving Inhabited

namespace BuildSettings

/-- The settings as text. -/
def text (s : BuildSettings) : String :=
  "width=" ++ toString s.width ++ " emit=" ++ s.format ++ " check=" ++ toString s.isCheck

/-- The key under which the output of a source is stored, for a version of the compiler. -/
def keyOf (source : List UInt8) (settings version : String) : String :=
  Md5.hex (source ++ ("\x00" ++ settings ++ "\x00" ++ version).toUTF8.toList)

/-- The key under which the output of a source is stored. -/
def key (s : BuildSettings) (source : List UInt8) : String := keyOf source s.text compilerVersion

/-- The text of a module in the output format. -/
def write (s : BuildSettings) (m : Code.Module) : Except InternalError String :=
  if s.format = "ir" then .ok m.text
  else match m.llvmText with
    | .ok t => .ok t
    | .error e => .error (.emission m.name e)

/-- A text, or nothing if it is empty. -/
def nonempty (t : String) : Option String := if t.isEmpty then none else some t

/-- The output of a compilation: nothing unless it went through all stages and has something to
write. -/
def output (s : BuildSettings) (c : Compilation) : Except InternalError (Option String) :=
  match c.fault, c.packed with
  | some f, _ => .error (.fault f)
  | none, some p => if c.isOk then (s.write p.module).map nonempty else .ok none
  | none, none => .ok none

/-- Compile a file. -/
def compile (s : BuildSettings) (file : String) (source : List UInt8) : UnitResult :=
  let last := if s.isCheck then Stage.analyze else .vectorize
  let c := Compilation.run ⟨file, Rune.decode source, s.width⟩ last false
  ⟨c, s.output c⟩

end BuildSettings

end Lane
