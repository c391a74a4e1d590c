import SpendTrace.Text.Printable
import SpendTrace.Text.Numeral
import SpendTrace.Decimal.Shortest

/-!
# Why a document is refused

A document is read in one pass and refused at the first fault in text order. There are three kinds
of fault: the text ends too early, the text is not JSON (or nests too deep, or writes a number or
a string that has no value), or it is JSON of the wrong shape. Each fault is a value here; its
wording is in `Error.message` alone.

The printed text of a fault also names the line and the column at which the reading stopped. They
are left open here: they are parameters of `Error.textAt`, and `Error.message` is what the printed
text begins with, wherever that was.
-/

namespace SpendTrace.Json

/-! ## Faults of the text -/

/-- What was being read when the text ended. -/
inductive Ended where
  | list
  | object
  | string
  | value
  deriving DecidableEq, Repr

/-- What is wrong with the text. -/
inductive Fault where
  | expectedColon
  | expectedListCommaOrEnd
  | expectedObjectCommaOrEnd
  | expectedWord
  | expectedValue
  | invalidEscape
  | invalidNumber
  | numberOutOfRange
  | controlCharacter
  | keyNotString
  | loneSurrogate
  | unfinishedSurrogate
  | trailingComma
  | trailingCharacters
  | nestedTooDeep
  deriving DecidableEq, Repr

/-! ## Faults of the shape -/

/-- What was found where something else was expected. -/
inductive Found where
  | null
  | boolean (value : Bool)
  | integer (value : Int)
  | double (value : Decimal.Binary64)
  | string (value : String)
  | sequence
  | map
  deriving DecidableEq, Repr

/-- How a value misses the shape that is expected of it. -/
inductive Mismatch where
  | missingField (name : String)
  | duplicateField (name : String)
  | unknownVariant (name : String) (expected : List String)
  | invalidType (found : Found) (expected : String)
  | invalidValue (found : Found) (expected : String)
  | invalidLength (length : Nat) (expected : String)
  | noAlternative (union : String)
  | refused (reason : String)
  deriving DecidableEq, Repr

/-- Why a document is refused. -/
inductive Error where
  | ended (inside : Ended)
  | malformed (fault : Fault)
  | mismatch (cause : Mismatch)
  deriving DecidableEq, Repr

/-! ## Wording -/

def Ended.message : Ended → String
  | .list => "EOF while parsing a list"
  | .object => "EOF while parsing an object"
  | .string => "EOF while parsing a string"
  | .value => "EOF while parsing a value"

def Fault.message : Fault → String
  | .expectedColon => "expected `:`"
  | .expectedListCommaOrEnd => "expected `,` or `]`"
  | .expectedObjectCommaOrEnd => "expected `,` or `\x7d`"
  | .expectedWord => "expected ident"
  | .expectedValue => "expected value"
  | .invalidEscape => "invalid escape"
  | .invalidNumber => "invalid number"
  | .numberOutOfRange => "number out of range"
  | .controlCharacter => "control character (\\u0000-\\u001F) found while parsing a string"
  | .keyNotString => "key must be a string"
  | .loneSurrogate => "lone leading surrogate in hex escape"
  | .unfinishedSurrogate => "unexpected end of hex escape"
  | .trailingComma => "trailing comma"
  | .trailingCharacters => "trailing characters"
  | .nestedTooDeep => "recursion limit exceeded"

def Found.message : Found → String
  | .null => "null"
  | .boolean true => "boolean `true`"
  | .boolean false => "boolean `false`"
  | .integer i => "integer `" ++ String.ofList (Text.integer i) ++ "`"
  | .double x => "floating point `" ++ String.ofList x.text ++ "`"
  | .string s => "string " ++ Text.quoted s
  | .sequence => "sequence"
  | .map => "map"

/-- The names that would have been accepted, as a phrase. -/
def alternatives : List String → String
  | [a, b] => "expected `" ++ a ++ "` or `" ++ b ++ "`"
  | names => "expected one of " ++ ", ".intercalate (names.map fun n => "`" ++ n ++ "`")

def Mismatch.message : Mismatch → String
  | .missingField name => "missing field `" ++ name ++ "`"
  | .duplicateField name => "duplicate field `" ++ name ++ "`"
  | .unknownVariant name expected => "unknown variant `" ++ name ++ "`, " ++ alternatives expected
  | .invalidType found expected => "invalid type: " ++ found.message ++ ", expected " ++ expected
  | .invalidValue found expected => "invalid value: " ++ found.message ++ ", expected " ++ expected
  | .invalidLength n expected =>
    "invalid length " ++ String.ofList (Text.digits n) ++ ", expected " ++ expected
  | .noAlternative union => "data did not match any variant of untagged enum " ++ union
  | .refused reason => reason

/-- The wording of a fault, without its place in the document. -/
def Error.message : Error → String
  | .ended inside => inside.message
  | .malformed fault => fault.message
  | .mismatch cause => cause.message

/-- What is printed for a fault that was noticed at this place in the document. -/
def Error.textAt (e : Error) (line column : Nat) : String :=
  e.message ++ (" at line " ++ String.ofList (Text.digits line) ++
    (" column " ++ String.ofList (Text.digits column)))

theorem Error.message_prefix_textAt (e : Error) (line column : Nat) :
    e.message.toList <+: (e.textAt line column).toList := by
  rw [textAt, String.toList_append]
  exact List.prefix_append _ _

/-- The kinds of fault that a caller may tell apart. -/
inductive Category where
  | eof
  | text
  | data
  deriving DecidableEq, Repr

def Error.category : Error → Category
  | .ended _ => .eof
  | .malformed _ => .text
  | .mismatch _ => .data

end SpendTrace.Json
