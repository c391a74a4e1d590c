import SpendTrace.Opcode.Category

/-!
# The table of element kinds

Which kinds of script elements belong to which category, and when a table of that form is sound:
every row lists something, and no kind is listed twice.
-/

namespace SpendTrace.Opcode

/-! ## Literal markers -/

/-- The kind of a pushed byte string. -/
def scriptConstant : String := "ScriptConstant"

/-- The kind of a pushed number. -/
def scriptNum : String := "ScriptNum"

/-- The kinds that stand for a value instead of naming an opcode. -/
def literalMarkers : List String := [scriptConstant, scriptNum]

/-- Whether a kind stands for a value. -/
def isLiteralMarker (kind : String) : Bool :=
  literalMarkers.contains kind

theorem isLiteralMarker_iff (kind : String) :
    isLiteralMarker kind = true ↔ kind = scriptConstant ∨ kind = scriptNum := by
  simp [isLiteralMarker, literalMarkers]

/-! ## Tables -/

/-- A row gives kinds of one category; a category may have several rows. -/
abbrev Table := List (Category × List String)

namespace Table

/-- Whether two kinds are spelled with the same bytes. -/
def sameKind (a b : String) : Bool :=
  let xs := a.toUTF8.data.toList
  let ys := b.toUTF8.data.toList
  xs.length = ys.length && (xs.zip ys).all fun p => p.1 = p.2

/-- No kind of one row occurs later in that row or in the rows below it. -/
def rowIsDistinct (below : Table) : List String → Bool
  | [] => true
  | kind :: kinds =>
    !kinds.any (sameKind kind) && !below.any (fun row => row.2.any (sameKind kind)) &&
      rowIsDistinct below kinds

/-- Every row lists a kind and no kind is listed twice. -/
def isConsistent : Table → Bool
  | [] => true
  | (_, kinds) :: rows => !kinds.isEmpty && rowIsDistinct rows kinds && isConsistent rows

/-- The kinds in the order in which they are listed, each with its category. -/
def listed (table : Table) : List (String × Category) :=
  table.flatMap fun (category, kinds) => kinds.map fun kind => (kind, category)

/-- The kinds listed for one category. -/
def kindsOf (table : Table) (category : Category) : List String :=
  (table.filter (·.1 = category)).flatMap Prod.snd

end Table

/-! ## The standard table -/

/-- The opcodes of the script language, with the two literal markers as the values. -/
def standardTable : Table :=
  [(.values, literalMarkers),
    (.stackOps,
      ["OP_TOALTSTACK", "OP_FROMALTSTACK", "OP_2DROP", "OP_2DUP", "OP_3DUP", "OP_2OVER", "OP_2ROT",
        "OP_2SWAP", "OP_IFDUP", "OP_DEPTH", "OP_DROP", "OP_DUP", "OP_NIP", "OP_OVER", "OP_PICK",
        "OP_ROLL", "OP_ROT", "OP_SWAP", "OP_TUCK"]),
    (.cryptoOps,
      ["OP_RIPEMD160", "OP_SHA1", "OP_SHA256", "OP_HASH160", "OP_HASH256", "OP_CODESEPARATOR",
        "OP_CHECKSIG", "OP_CHECKSIGVERIFY", "OP_CHECKMULTISIG", "OP_CHECKMULTISIGVERIFY"]),
    (.constantOps,
      ["OP_0", "OP_FALSE", "OP_PUSHDATA1", "OP_PUSHDATA2", "OP_PUSHDATA4", "OP_1NEGATE", "OP_1",
        "OP_TRUE", "OP_2", "OP_3", "OP_4", "OP_5", "OP_6", "OP_7", "OP_8", "OP_9", "OP_10", "OP_11",
        "OP_12", "OP_13", "OP_14", "OP_15", "OP_16", "OP_PUSHDATA"]),
    (.bitwiseLogicOps,
      ["OP_INVERT", "OP_AND", "OP_OR", "OP_XOR", "OP_EQUAL", "OP_EQUALVERIFY"]),
    (.arithmeticOps,
      ["OP_1ADD", "OP_1SUB", "OP_2MUL", "OP_2DIV", "OP_NEGATE", "OP_ABS", "OP_NOT", "OP_0NOTEQUAL",
        "OP_ADD", "OP_SUB", "OP_MUL", "OP_DIV", "OP_MOD", "OP_LSHIFT", "OP_RSHIFT", "OP_BOOLAND",
        "OP_BOOLOR", "OP_NUMEQUAL", "OP_NUMEQUALVERIFY", "OP_NUMNOTEQUAL", "OP_LESSTHAN",
        "OP_GREATERTHAN", "OP_LESSTHANOREQUAL", "OP_GREATERTHANOREQUAL", "OP_MIN", "OP_MAX",
        "OP_WITHIN"]),
    (.flowControlOps,
      ["OP_NOP", "OP_IF", "OP_NOTIF", "OP_ELSE", "OP_ENDIF", "OP_VERIFY", "OP_RETURN"]),
    (.locktimeOps,
      ["OP_CHECKLOCKTIMEVERIFY", "OP_CHECKSEQUENCEVERIFY", "OP_NOP2", "OP_NOP3"]),
    (.pseudoOps, ["OP_PUBKEYHASH", "OP_PUBKEY", "OP_INVALIDOPCODE"]),
    (.reservedOps,
      ["OP_RESERVED", "OP_VER", "OP_VERIF", "OP_VERNOTIF", "OP_RESERVED1", "OP_RESERVED2",
        "OP_NOP1", "OP_NOP4", "OP_NOP5", "OP_NOP6", "OP_NOP7", "OP_NOP8", "OP_NOP9", "OP_NOP10"]),
    (.spliceOps, ["OP_CAT", "OP_SUBSTR", "OP_LEFT", "OP_RIGHT", "OP_SIZE"])]

end SpendTrace.Opcode
