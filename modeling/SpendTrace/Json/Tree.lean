import SpendTrace.Json.Token

/-!
# JSON trees

What a text spells, as far as it can be made out: a tree whose containers are either closed or
broken off by the fault at which the text goes wrong. Nothing behind that fault is in the tree, so
whoever walks the tree in order and stops at the first fault, of the text or of the shape, reports
the first fault in text order.

* `Tree.skip` walks a tree and only checks its spelling.
* `Tree.check` walks a tree whose values will be needed: they must exist, and the nesting is
  limited.
-/

namespace SpendTrace.Json

/-- The fault that ends an unfinished container: as a reader of the container reports it, and as one
that skips the container does. -/
structure Stop where
  read : Error
  skip : Error
  deriving DecidableEq

inductive Tree where
  | null
  | boolean (value : Bool)
  | number (value : Reading Number)
  | string (value : Reading String)
  /-- A word that starts like one of the three words. -/
  | misspelled (error : Error)
  /-- Nothing that could start a value. -/
  | missing (read skip : Error)
  | array (items : List Tree) (ending : Option Stop)
  | object (members : List (Reading String × Tree)) (ending : Option Stop)

/-! ## Walking a tree -/

/-- What a skipped container's end says. -/
def skipEnding : Option Stop → Except Error Unit
  | none => .ok ()
  | some stop => .error stop.skip

/-- What a read container's end says. -/
def readEnding : Option Stop → Except Error Unit
  | none => .ok ()
  | some stop => .error stop.read

namespace Tree

mutual

/-- Checks the spelling alone. -/
def skip : Tree → Except Error Unit
  | null => .ok ()
  | boolean _ => .ok ()
  | number n => n.skip
  | string s => s.skip
  | misspelled e => .error e
  | missing _ e => .error e
  | array items ending => do
    skipItems items
    skipEnding ending
  | object members ending => do
    skipMembers members
    skipEnding ending

def skipItems : List Tree → Except Error Unit
  | [] => .ok ()
  | t :: ts => do
    skip t
    skipItems ts

def skipMembers : List (Reading String × Tree) → Except Error Unit
  | [] => .ok ()
  | (key, t) :: ts => do
    key.skip
    skip t
    skipMembers ts

end

/-- Enters a container, of which `depth` more may be entered. -/
def enter {α : Type} (depth : Nat) (inside : Nat → Except Error α) : Except Error α :=
  match depth with
  | 0 => .error (.malformed .nestedTooDeep)
  | d + 1 => inside d

mutual

/-- Checks that every part has a value and that at most `depth` containers lie inside each other. -/
def check (depth : Nat) : Tree → Except Error Unit
  | null => .ok ()
  | boolean _ => .ok ()
  | number n => n.read.map fun _ => ()
  | string s => s.read.map fun _ => ()
  | misspelled e => .error e
  | missing e _ => .error e
  | array items ending => enter depth fun d => do
    checkItems d items
    readEnding ending
  | object members ending => enter depth fun d => do
    checkMembers d members
    readEnding ending

def checkItems (depth : Nat) : List Tree → Except Error Unit
  | [] => .ok ()
  | t :: ts => do
    check depth t
    checkItems depth ts

def checkMembers (depth : Nat) : List (Reading String × Tree) → Except Error Unit
  | [] => .ok ()
  | (key, t) :: ts => do
    let _ ← key.read
    check depth t
    checkMembers depth ts

end

end Tree

/-! ## What is due next

The tokens are read from left to right. The containers that are still open around the place that has
been reached are kept innermost first, each with what it holds so far, latest first. -/

/-- An open container around a value. -/
inductive Frame where
  | item (before : List Tree)
  | member (before : List (Reading String × Tree)) (key : Reading String)

inductive Cursor where
  /-- A value is due, and nothing else. -/
  | value (around : List Frame)
  /-- Just behind an opening bracket. -/
  | openArray (around : List Frame)
  | afterItem (before : List Tree) (around : List Frame)
  /-- Just behind an opening brace. -/
  | openObject (around : List Frame)
  | afterMember (before : List (Reading String × Tree)) (around : List Frame)
  /-- Behind a comma in an object. -/
  | nextKey (before : List (Reading String × Tree)) (around : List Frame)
  /-- Behind a key. -/
  | colon (before : List (Reading String × Tree)) (key : Reading String) (around : List Frame)
  /-- The outermost value is complete. -/
  | complete (tree : Tree)
  /-- The text has gone wrong. -/
  | broken (tree : Tree)

namespace Stop

/-- A fault that is the same for everybody. -/
def same (e : Error) : Stop := ⟨e, e⟩

end Stop

namespace Cursor

/-- The value that was due around has been read. -/
def deliver (t : Tree) : List Frame → Cursor
  | [] => complete t
  | .item before :: around => afterItem (t :: before) around
  | .member before key :: around => afterMember ((key, t) :: before) around

/-- Closes every open container around a tree at which the text went wrong. -/
def breakOff (t : Tree) (stop : Stop) : List Frame → Tree
  | [] => t
  | .item before :: around => breakOff (.array (t :: before).reverse (some stop)) stop around
  | .member before key :: around =>
    breakOff (.object ((key, t) :: before).reverse (some stop)) stop around

/-- The text goes wrong where a value is due. -/
def missingValue (read skip : Error) (around : List Frame) : Cursor :=
  broken (breakOff (.missing read skip) (.same read) around)

/-- The text goes wrong inside an array, but not in an item. -/
def brokenArray (before : List Tree) (e : Error) (around : List Frame) : Cursor :=
  broken (breakOff (.array before.reverse (some (.same e))) (.same e) around)

/-- The text goes wrong inside an object, but not in a member. -/
def brokenObject (before : List (Reading String × Tree)) (stop : Stop)
    (around : List Frame) : Cursor :=
  broken (breakOff (.object before.reverse (some stop)) stop around)

/-- A token that may not be skipped ends the text. -/
def scalar {α : Type} (r : Reading α) (t : Tree) (around : List Frame) : Cursor :=
  match r.skip with
  | .ok _ => deliver t around
  | .error e => broken (breakOff t (.same e) around)

/-- A token where a value is due. -/
def startValue (around : List Frame) : Token → Cursor
  | .openBracket => openArray around
  | .openBrace => openObject around
  | .null => deliver .null around
  | .boolean b => deliver (.boolean b) around
  | .number n => scalar n (.number n) around
  | .string s => scalar s (.string s) around
  | .misspelled e => broken (breakOff (.misspelled e) (.same e) around)
  | .closeBracket =>
    match around with
    | .item _ :: _ =>
      missingValue (.malformed .trailingComma) (.malformed .expectedValue) around
    | _ => missingValue (.malformed .expectedValue) (.malformed .expectedValue) around
  | _ => missingValue (.malformed .expectedValue) (.malformed .expectedValue) around

/-- A token where a key is due. -/
def startMember (before : List (Reading String × Tree)) (around : List Frame) :
    Token → Cursor
  | .string key =>
    match key.skip with
    | .ok _ => colon before key around
    | .error e => broken (breakOff (.missing e e) (.same e) (.member before key :: around))
  | .closeBrace =>
    brokenObject before ⟨.malformed .trailingComma, .malformed .keyNotString⟩ around
  | _ => brokenObject before (.same (.malformed .keyNotString)) around

/-- The place that is reached with one more token. -/
def step : Cursor → Token → Cursor
  | value around, t => startValue around t
  | openArray around, .closeBracket => deliver (.array [] none) around
  | openArray around, t => startValue (.item [] :: around) t
  | afterItem before around, .comma => value (.item before :: around)
  | afterItem before around, .closeBracket => deliver (.array before.reverse none) around
  | afterItem before around, _ => brokenArray before (.malformed .expectedListCommaOrEnd) around
  | openObject around, .closeBrace => deliver (.object [] none) around
  | openObject around, t => startMember [] around t
  | afterMember before around, .comma => nextKey before around
  | afterMember before around, .closeBrace => deliver (.object before.reverse none) around
  | afterMember before around, _ =>
    brokenObject before (.same (.malformed .expectedObjectCommaOrEnd)) around
  | nextKey before around, t => startMember before around t
  | colon before key around, .colon => value (.member before key :: around)
  | colon before key around, _ =>
    missingValue (.malformed .expectedColon) (.malformed .expectedColon)
      (.member before key :: around)
  | complete t, _ => complete t
  | broken t, _ => broken t

/-- Behind an opening bracket a value is due, unless the list is closed. -/
theorem step_openArray {t : Token} (h : t ≠ .closeBracket) (around : List Frame) :
    (openArray around).step t = startValue (.item [] :: around) t := by
  cases t with
  | closeBracket => exact absurd rfl h
  | _ => rfl

theorem step_openObject {t : Token} (h : t ≠ .closeBrace) (around : List Frame) :
    (openObject around).step t = startMember [] around t := by
  cases t with
  | closeBrace => exact absurd rfl h
  | _ => rfl

/-- The tree when the text ends here. -/
def finish : Cursor → Tree
  | value around =>
    breakOff (.missing (.ended .value) (.ended .value)) (.same (.ended .value)) around
  | openArray around =>
    breakOff (.array [] (some (.same (.ended .list)))) (.same (.ended .list)) around
  | afterItem before around =>
    breakOff (.array before.reverse (some (.same (.ended .list)))) (.same (.ended .list)) around
  | openObject around =>
    breakOff (.object [] (some (.same (.ended .object)))) (.same (.ended .object)) around
  | afterMember before around =>
    breakOff (.object before.reverse (some (.same (.ended .object)))) (.same (.ended .object))
      around
  | nextKey before around =>
    breakOff (.object before.reverse (some ⟨.ended .value, .ended .object⟩))
      (.same (.ended .value)) around
  | colon before key around =>
    breakOff (.missing (.ended .object) (.ended .object)) (.same (.ended .object))
      (.member before key :: around)
  | complete t => t
  | broken t => t

end Cursor

/-! ## Texts -/

/-- The tree of a text, and whether anything but white space follows a complete tree. -/
structure Parsed where
  tree : Tree
  trailing : Bool

/-- Reads tokens from the given place on. -/
def readTokens : Cursor → List Token → Parsed
  | .complete t, ts => ⟨t, !ts.isEmpty⟩
  | c, [] => ⟨c.finish, false⟩
  | c, t :: ts => readTokens (c.step t) ts

/-- What a text spells. -/
def parse (s : List Char) : Parsed :=
  readTokens (.value []) (tokens s)

end SpendTrace.Json
