/-! Faults: the causes for which reading, importing or expanding ends without a result. A line
number counts from one in the lines that were being read, which are those of the imported file
inside `imported`. -/
namespace QuestScript

inductive ReadFault where
  | missing
  | notDirectory
  | isDirectory
  | nameTooLong
  | nulByte
  | notText
  deriving DecidableEq

namespace ReadFault

def message : ReadFault → String
  | .missing => "No such file or directory (os error 2)"
  | .notDirectory => "Not a directory (os error 20)"
  | .isDirectory => "Is a directory (os error 21)"
  | .nameTooLong => "File name too long (os error 36)"
  | .nulByte => "file name contained an unexpected NUL byte"
  | .notText => "stream did not contain valid UTF-8"

end ReadFault

inductive Fault where
  | malformedDefinition (line : Nat) (text : String)
  | unterminated (line : Nat) (name : String)
  | misplacedImport (line : Nat)
  | unknownMacro (line : Nat) (name : String)
  /-- The imported file is missing or defines no such macro. -/
  | importNotFound (line : Nat) (name file : String)
  | imported (file : String) (source : Fault)
  | malformedImport (text : String)
  | malformedInsertion (line : Nat) (text : String)
  | unexpectedEnd (line : Nat)
  /-- A settings file is refused. What is wrong with it, which the program says after the name of the
  file, is left out. -/
  | refusedSettings (file : String)
  | unreadable (cause : ReadFault)
  deriving DecidableEq

namespace Fault

def message : Fault → String
  | .malformedDefinition line text => s!"line {line}: macro definition has no name: `{text}`"
  | .unterminated line name => s!"line {line}: macro `{name}` is missing `end macro`"
  | .misplacedImport line =>
    s!"line {line}: `import macro` is not allowed inside a macro definition"
  | .unknownMacro line name => s!"line {line}: unknown macro `{name}`"
  | .importNotFound line name file => s!"line {line}: macro `{name}` not found in `{file}`"
  | .imported file source => s!"in `{file}`: {source.message}"
  | .malformedImport text => s!"malformed import directive: `{text}`"
  | .malformedInsertion line text => s!"line {line}: malformed macro insertion: `{text}`"
  | .unexpectedEnd line => s!"line {line}: `end macro` outside of a macro definition"
  | .refusedSettings file => s!"config error in {file}"
  | .unreadable cause => s!"I/O error: {cause.message}"

def line? : Fault → Option Nat
  | .malformedDefinition line _ => some line
  | .unterminated line _ => some line
  | .misplacedImport line => some line
  | .unknownMacro line _ => some line
  | .importNotFound line _ _ => some line
  | .malformedInsertion line _ => some line
  | .unexpectedEnd line => some line
  | .imported .. => none
  | .malformedImport _ => none
  | .refusedSettings _ => none
  | .unreadable _ => none

end Fault

end QuestScript
