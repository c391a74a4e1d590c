import SpendTrace.Opcode.Table

/-!
# Looking up the category of a kind

A table turned around: an index from element kinds to categories. It is built row by row, and a
table with a defect is refused with the first one.
-/

namespace SpendTrace.Opcode

/-- Why a table has no index. -/
inductive Defect where
  | duplicateMember (kind : String) (first second : Category)
  | emptyCategory (category : Category)
  deriving DecidableEq, Repr

def Defect.message : Defect → String
  | .duplicateMember kind first second =>
    "'" ++ kind ++ "' is listed under both " ++ first.name ++ " and " ++ second.name
  | .emptyCategory category => "category " ++ category.name ++ " has no members"

/-- The category of each indexed kind. -/
structure Index where
  entries : List (String × Category)
  distinct : (entries.map Prod.fst).Nodup

namespace Index

/-- The category of a kind, if the kind is indexed. -/
def classify (index : Index) (kind : String) : Option Category :=
  index.entries.lookup kind

/-- The number of indexed kinds. -/
def size (index : Index) : Nat :=
  index.entries.length

def isEmpty (index : Index) : Bool :=
  index.entries.isEmpty

/-- The kinds of one category. -/
def members (index : Index) (category : Category) : List String :=
  (index.entries.filter (·.2 = category)).map Prod.fst

/-! ## Building -/

def empty : Index := ⟨[], List.nodup_nil⟩

theorem not_mem_of_classify_eq_none {index : Index} {kind : String}
    (h : index.classify kind = none) : kind ∉ index.entries.map Prod.fst := by
  intro hm
  obtain ⟨⟨k, c⟩, hk, rfl⟩ := List.mem_map.1 hm
  have := List.lookup_eq_none_iff.1 h (k, c) hk
  simp at this

/-- Adds a kind that is not indexed yet. -/
def insert (index : Index) (category : Category) (kind : String) : Except Defect Index :=
  match h : index.classify kind with
  | some first => .error (.duplicateMember kind first category)
  | none =>
    .ok ⟨(kind, category) :: index.entries,
      List.nodup_cons.2 ⟨not_mem_of_classify_eq_none h, index.distinct⟩⟩

/-- Adds the kinds of a row. -/
def insertRow (index : Index) (row : Category × List String) : Except Defect Index :=
  if row.2.isEmpty then .error (.emptyCategory row.1)
  else row.2.foldlM (fun index kind => index.insert row.1 kind) index

/-- The index of a table, or the first defect of the table. -/
def build (table : Table) : Except Defect Index :=
  table.foldlM insertRow empty

end Index

/-! ## The standard index -/

/-- The index of the standard table, as it comes out of the building: the entries in the order in
which they were added, the last one first. -/
def standard : Index := ⟨standardTable.listed.reverse, by decide +kernel⟩

/-- The category under which a kind is displayed; other kinds are unclassified. -/
def classify (kind : String) : Option Category :=
  standard.classify kind

end SpendTrace.Opcode
