import SpendTrace.Json.Tree

/-!
# Reading values from trees

The readers of the simple values and of the three ways in which a document writes a record or a
name: as an object, as the array of its fields, as a name with or without an empty payload. Each
reader walks its tree in order and stops at the first fault.
-/

namespace SpendTrace.Json

/-! ## Unexpected values -/

def Number.found : Number → Found
  | .integer i _ => .integer i
  | .double x => .double x

/-- The fault that `found` stands where something else was expected. -/
def invalidType (found : Found) (expected : String) : Error :=
  .mismatch (.invalidType found expected)

/-- What to report of a leaf that was not expected: its own fault, if it has one. -/
def Reading.unexpected {α : Type} (r : Reading α) (found : α → Found) (expected : String) : Error :=
  match r.read with
  | .ok a => invalidType (found a) expected
  | .error e => e

/-- What to report of a tree that stands where something else was expected. -/
def Tree.unexpected (expected : String) : Tree → Error
  | .null => invalidType .null expected
  | .boolean b => invalidType (.boolean b) expected
  | .number n => n.unexpected Number.found expected
  | .string s => s.unexpected Found.string expected
  | .misspelled e => e
  | .missing e _ => e
  | .array _ _ => invalidType .sequence expected
  | .object _ _ => invalidType .map expected

/-! ## Simple values -/

/-- A string, where `expected` says what it is for. -/
def readStringAs (expected : String) : Tree → Except Error String
  | .string s => s.read
  | t => .error (t.unexpected expected)

def readString : Tree → Except Error String :=
  readStringAs "a string"

def readBool : Tree → Except Error Bool
  | .boolean b => .ok b
  | t => .error (t.unexpected "a boolean")

def readUnit : Tree → Except Error Unit
  | .null => .ok ()
  | t => .error (t.unexpected "unit")

/-- A natural number below `bound`, where `expected` names the type of such numbers. -/
def readNatural (bound : Nat) (expected : String) : Tree → Except Error Nat
  | .number n => do
    match ← n.read with
    | .integer i _ =>
      if 0 ≤ i ∧ i < bound then .ok i.toNat
      else .error (.mismatch (.invalidValue (.integer i) expected))
    | .double x => .error (invalidType (.double x) expected)
  | t => .error (t.unexpected expected)

def readUInt32 (t : Tree) : Except Error UInt32 :=
  (readNatural UInt32.size "u32" t).map UInt32.ofNat

def readUInt64 (t : Tree) : Except Error UInt64 :=
  (readNatural UInt64.size "u64" t).map UInt64.ofNat

/-- A value that may be null. -/
def readOption {α : Type} (read : Tree → Except Error α) : Tree → Except Error (Option α)
  | .null => .ok none
  | t => (read t).map some

/-- An array of values. -/
def readList {α : Type} (read : Nat → Tree → Except Error α) (depth : Nat) :
    Tree → Except Error (List α)
  | .array items ending => Tree.enter depth fun d => do
    let xs ← items.mapM (read d)
    readEnding ending
    .ok xs
  | t => .error (t.unexpected "a sequence")

/-! ## Records written as objects -/

/-- The members of an object, each handed with its name to `step`. -/
def foldMembers {σ : Type} (step : σ → String → Tree → Except Error σ) (draft : σ)
    (members : List (Reading String × Tree)) (ending : Option Stop) : Except Error σ := do
  let draft ← members.foldlM (fun draft (key, t) => do
    let name ← key.read
    step draft name t) draft
  readEnding ending
  .ok draft

/-- Fills a field that is still empty. -/
def fill {α : Type} (name : String) (field : Option α) (value : Except Error α) :
    Except Error (Option α) :=
  match field with
  | some _ => .error (.mismatch (.duplicateField name))
  | none => value.map some

/-- The value of a field that a record cannot do without. -/
def demand {α : Type} (name : String) (field : Option α) : Except Error α :=
  match field with
  | some a => .ok a
  | none => .error (.mismatch (.missingField name))

/-! ## Records written as arrays -/

/-- The entries of an array that have not been read yet. -/
structure Entries where
  items : List Tree
  ending : Option Stop

namespace Entries

variable {α : Type}

/-- The next entry, if there is one. -/
def next? (es : Entries) (read : Tree → Except Error α) : Except Error (Option α × Entries) :=
  match es.items with
  | [] => do
    readEnding es.ending
    .ok (none, es)
  | t :: ts => do
    let a ← read t
    .ok (some a, { es with items := ts })

/-- The entry at `index`, which must be there. -/
def next (es : Entries) (index : Nat) (record : String) (read : Tree → Except Error α) :
    Except Error (α × Entries) := do
  match ← es.next? read with
  | (some a, es) => .ok (a, es)
  | (none, _) => .error (.mismatch (.invalidLength index record))

/-- An entry that may be null or missing. -/
def nextOption (es : Entries) (read : Tree → Except Error α) :
    Except Error (Option α × Entries) := do
  let (a, es) ← es.next? (readOption read)
  .ok (a.join, es)

/-- All entries have been read. -/
def finish (es : Entries) : Except Error Unit :=
  match es.items, es.ending with
  | [], none => .ok ()
  | [], some stop =>
    match stop.read with
    | .ended _ => .error stop.read
    | _ => .error (.malformed .trailingCharacters)
  | .missing (.malformed .trailingComma) _ :: _, _ => .error (.malformed .trailingComma)
  | _ :: _, _ => .error (.malformed .trailingCharacters)

end Entries

/-! ## Names -/

/-- The meaning of one of the names in a table. -/
def lookup {α : Type} (table : List (String × α)) (name : String) : Except Error α :=
  match table.lookup name with
  | some a => .ok a
  | none => .error (.mismatch (.unknownVariant name (table.map Prod.fst)))

/-- A name, written as a string. -/
def readName {α : Type} (table : List (String × α)) (t : Tree) : Except Error α := do
  let name ← readStringAs "variant identifier" t
  lookup table name

/-- A name, written as a string or as an object with that one member, which is null. An object
without a member lacks the name, and so the value that was expected. A key that is no string is a
fault of the text here, as it is in any object. -/
def readVariant {α : Type} (table : List (String × α)) (depth : Nat) : Tree → Except Error α
  | .string s => do
    let name ← s.read
    lookup table name
  | .object members ending => Tree.enter depth fun _ =>
    match members with
    | [] => do
      readEnding ending
      .error (.malformed .expectedValue)
    | (key, t) :: rest => do
      let name ← key.read
      let a ← lookup table name
      readUnit t
      match rest, ending with
      | [], none => .ok a
      | [], some stop =>
        if stop.read = .ended .object then .error stop.read
        else .error (.malformed .expectedValue)
      | _ :: _, _ => .error (.malformed .expectedValue)
  | .missing e _ => .error e
  | _ => .error (.malformed .expectedValue)

/-! ## Texts -/

/-- How many containers may lie inside each other in what is read. -/
def maxDepth : Nat := 127

/-- Reads a whole text. -/
def readText {α : Type} (read : Nat → Tree → Except Error α) (s : String) : Except Error α := do
  let p := parse s.toList
  let a ← read maxDepth p.tree
  if p.trailing then .error (.malformed .trailingCharacters) else .ok a

end SpendTrace.Json
