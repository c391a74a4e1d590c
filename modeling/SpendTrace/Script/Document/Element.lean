import SpendTrace.Json.Read
import SpendTrace.Json.Value
import SpendTrace.Script.Element

/-!
# Documents of script elements

An element is written as an object with a `type` and, for literals, a `value`, or as the array of
the two. A value sent with an opcode is read and dropped; a literal without one is refused.
-/

namespace SpendTrace.Script

open Json (Tree Value Error)

/-! ## Reading -/

/-- The value of a tree that has been checked. -/
def ElementValue.ofTree? : Tree → Option ElementValue
  | .boolean b => some (.boolean b)
  | .number n => n.read.toOption.map .number
  | .string s => s.read.toOption.map .text
  | _ => none

/-- A value. All of its tree is checked first, since no shape is preferred. -/
def ElementValue.read (depth : Nat) (t : Tree) : Except Error ElementValue := do
  t.check depth
  match ElementValue.ofTree? t with
  | some v => .ok v
  | none => .error (.mismatch (.noAlternative "ElementValue"))

namespace Element

/-- The members of an element that have been read. -/
structure Draft where
  kind : Option String := none
  value : Option (Option ElementValue) := none

def Draft.member (depth : Nat) (d : Draft) (name : String) (t : Tree) : Except Error Draft :=
  if name = "type" then do
    .ok { d with kind := ← Json.fill name d.kind (Json.readString t) }
  else if name = "value" then do
    .ok { d with value := ← Json.fill name d.value (Json.readOption (ElementValue.read depth) t) }
  else t.skip.map fun _ => d

/-- The kind and the value that a tree writes. -/
def readParts (depth : Nat) : Tree → Except Error (String × Option ElementValue)
  | .object members ending => Tree.enter depth fun depth => do
    let d ← Json.foldMembers (Draft.member depth) {} members ending
    let kind ← Json.demand "type" d.kind
    .ok (kind, d.value.join)
  | .array items ending => Tree.enter depth fun depth => do
    let es : Json.Entries := ⟨items, ending⟩
    let (kind, es) ← es.next 0 "struct ElementDocument with 2 elements" Json.readString
    let (value, es) ← es.nextOption (ElementValue.read depth)
    es.finish
    .ok (kind, value)
  | t => .error (t.unexpected "struct ElementDocument")

/-- An element, put together from its parts. -/
def read (depth : Nat) (t : Tree) : Except Error Element := do
  let (kind, value) ← readParts depth t
  match ofParts kind value with
  | .ok e => .ok e
  | .error m => .error (.mismatch (.refused m.message))

/-- A list of elements. -/
def readList (depth : Nat) (t : Tree) : Except Error (List Element) :=
  Json.readList read depth t

def ofJson (s : String) : Except Error Element :=
  Json.readText read s

end Element

/-! ## Writing -/

def ElementValue.document : ElementValue → Value
  | .boolean b => .boolean b
  | .number n => .number n
  | .text s => .string s

def Element.document (e : Element) : Value :=
  .object (("type", .string e.kind) :: Value.optional "value" (e.value.map ElementValue.document))

def Element.listDocument (elements : List Element) : Value :=
  .array (elements.map Element.document)

end SpendTrace.Script
