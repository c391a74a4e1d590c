import Mathlib.Data.List.Nodup
import SpendTrace.Opcode.Index
import SpendTrace.Proofs.Except

/-!
# The tables that have an index

A table can be checked without an index being built: every kind is compared, byte by byte, with
those that are listed after it, in its own row and in the rows below. The index is built the other
way round, where every kind is looked up among those that were listed before it. Both find out the
same.

* `Table.Sound`: every row lists a kind, and no kind is listed twice.
* `Table.isConsistent_iff`: the check looks for that.
* `Index.foldlM_insertRow_eq_ok`: so does the builder, and the index it builds lists what the table
  lists.
* `isConsistent_standardTable`, `build_standardTable`: the standard table passes, and its index is
  the standard one.
* `consistent_iff_indexed` is the main statement.
-/

namespace SpendTrace.Opcode

namespace Table

/-- The kinds in the order in which they are listed. -/
def kinds (table : Table) : List String :=
  table.flatMap Prod.snd

/-- Every row lists a kind, and no kind is listed twice. -/
structure Sound (table : Table) : Prop where
  row_ne_nil : ∀ row ∈ table, row.2 ≠ []
  nodup : table.kinds.Nodup

theorem kinds_cons (row : Category × List String) (rows : Table) :
    kinds (row :: rows) = row.2 ++ rows.kinds := rfl

/-! ## The check -/

/-- Lists that are equally long and agree everywhere are the same. -/
theorem eq_of_zip {a b : List UInt8} (hlength : a.length = b.length)
    (h : ∀ p ∈ a.zip b, p.1 = p.2) : a = b := by
  refine List.ext_getElem hlength fun i hi hj => ?_
  exact h (a[i], b[i]) (List.mem_iff_getElem.2 ⟨i, by simp; omega, by simp⟩)

/-- Kinds are the same if their bytes are. -/
theorem sameKind_iff (a b : String) : sameKind a b = true ↔ a = b := by
  constructor
  · intro h
    simp only [sameKind, Bool.and_eq_true, decide_eq_true_eq, List.all_eq_true] at h
    have hbytes := Array.toList_inj.1 (eq_of_zip h.1 h.2)
    exact String.toByteArray_inj.1 (ByteArray.ext hbytes)
  · rintro rfl
    have hzip (l : List UInt8) : (l.zip l).all fun p => p.1 = p.2 := by
      induction l with
      | nil => rfl
      | cons x l ih => simp [ih]
    simp [sameKind, hzip]

theorem any_sameKind_eq_false (kinds : List String) (kind : String) :
    kinds.any (sameKind kind) = false ↔ kind ∉ kinds := by
  simp [← Bool.not_eq_true, sameKind_iff]

theorem any_row_eq_false (rows : Table) (kind : String) :
    (rows.any fun row => row.2.any (sameKind kind)) = false ↔ kind ∉ rows.kinds := by
  induction rows with
  | nil => simp [kinds]
  | cons row rows ih =>
    rw [List.any_cons, Bool.or_eq_false_iff, any_sameKind_eq_false, ih, kinds_cons,
      List.mem_append, not_or]

/-- A row is distinct if none of its kinds is listed again, be it in the row or below it. -/
theorem rowIsDistinct_iff (below : Table) (row : List String) :
    rowIsDistinct below row = true ↔ row.Nodup ∧ ∀ kind ∈ row, kind ∉ below.kinds := by
  induction row with
  | nil => simp [rowIsDistinct]
  | cons kind row ih =>
    rw [rowIsDistinct, Bool.and_eq_true, Bool.and_eq_true, Bool.not_eq_true', Bool.not_eq_true',
      any_sameKind_eq_false, any_row_eq_false, ih, List.nodup_cons, List.forall_mem_cons]
    constructor
    · rintro ⟨⟨hrow, hbelow⟩, hnodup, hrest⟩
      exact ⟨⟨hrow, hnodup⟩, hbelow, hrest⟩
    · rintro ⟨⟨hrow, hnodup⟩, hbelow, hrest⟩
      exact ⟨⟨hrow, hbelow⟩, hnodup, hrest⟩

theorem nodup_kinds_cons (row : Category × List String) (rows : Table) :
    (kinds (row :: rows)).Nodup ↔
      (row.2.Nodup ∧ ∀ kind ∈ row.2, kind ∉ rows.kinds) ∧ rows.kinds.Nodup := by
  rw [kinds_cons, List.nodup_append]
  constructor
  · rintro ⟨hrow, hrows, hapart⟩
    exact ⟨⟨hrow, fun kind hkind hbelow => hapart kind hkind kind hbelow rfl⟩, hrows⟩
  · rintro ⟨⟨hrow, hbelow⟩, hrows⟩
    refine ⟨hrow, hrows, ?_⟩
    rintro kind hkind _ hother rfl
    exact hbelow kind hkind hother

theorem sound_nil : Sound [] := ⟨by simp, List.nodup_nil⟩

theorem sound_cons (row : Category × List String) (rows : Table) :
    Sound (row :: rows) ↔
      row.2 ≠ [] ∧ (row.2.Nodup ∧ ∀ kind ∈ row.2, kind ∉ rows.kinds) ∧ Sound rows := by
  constructor
  · rintro ⟨hne, hnodup⟩
    obtain ⟨hrow, hrows⟩ := List.forall_mem_cons.1 hne
    obtain ⟨hdistinct, hbelow⟩ := (nodup_kinds_cons row rows).1 hnodup
    exact ⟨hrow, hdistinct, hrows, hbelow⟩
  · rintro ⟨hrow, hdistinct, hrows, hbelow⟩
    exact ⟨List.forall_mem_cons.2 ⟨hrow, hrows⟩, (nodup_kinds_cons row rows).2 ⟨hdistinct, hbelow⟩⟩

/-- The check passes exactly the sound tables. -/
theorem isConsistent_iff (table : Table) : table.isConsistent = true ↔ table.Sound := by
  induction table with
  | nil => simp [isConsistent, sound_nil]
  | cons row rows ih =>
    simp [isConsistent, sound_cons, rowIsDistinct_iff, ih, and_assoc]

end Table

/-! ## The builder -/

namespace Index

/-- The indexed kinds, in the order in which they were added. -/
def kinds (index : Index) : List String :=
  (index.entries.map Prod.fst).reverse

/-- The entries that a row adds, the last one first. -/
def rowEntries (row : Category × List String) : List (String × Category) :=
  (row.2.map fun kind => (kind, row.1)).reverse

variable {index index' : Index}

theorem nodup_kinds (index : Index) : index.kinds.Nodup :=
  List.nodup_reverse.2 index.distinct

theorem ext_entries (h : index.entries = index'.entries) : index = index' := by
  cases index
  cases index'
  congr

theorem classify_eq_none_iff (index : Index) (kind : String) :
    index.classify kind = none ↔ kind ∉ index.kinds := by
  refine ⟨fun h => ?_, fun h => ?_⟩
  · simpa [kinds] using not_mem_of_classify_eq_none h
  · refine List.lookup_eq_none_iff.2 fun entry hentry => ?_
    simp only [kinds, List.mem_reverse, List.mem_map, not_exists, not_and] at h
    simpa using fun heq => h entry hentry heq.symm

/-- A kind can be added if it is not indexed yet. -/
theorem insert_eq_ok {category : Category} {kind : String} :
    index.insert category kind = .ok index' ↔
      kind ∉ index.kinds ∧ index'.entries = (kind, category) :: index.entries := by
  rw [← classify_eq_none_iff]
  unfold insert
  split
  · next first h => simp [h]
  · next h =>
    refine ⟨fun hok => ?_, fun hboth => ?_⟩
    · obtain rfl := Except.ok.inj hok
      exact ⟨h, rfl⟩
    · exact congrArg Except.ok (ext_entries hboth.2.symm)

theorem kinds_of_entries {category : Category} {kind : String}
    (h : index'.entries = (kind, category) :: index.entries) :
    index'.kinds = index.kinds ++ [kind] := by
  simp [kinds, h]

theorem kinds_of_rowEntries {row : Category × List String}
    (h : index'.entries = rowEntries row ++ index.entries) :
    index'.kinds = index.kinds ++ row.2 := by
  simp [kinds, h, rowEntries, Function.comp_def]

/-- A kind that is indexed already cannot be added again. -/
theorem not_nodup_of_mem {kind : String} (h : kind ∈ index.kinds) (row : List String) :
    ¬(index.kinds ++ kind :: row).Nodup := by
  intro hnodup
  exact (List.nodup_append.1 hnodup).2.2 kind h kind List.mem_cons_self rfl

theorem exists_insert_eq_ok {kind : String} (h : kind ∉ index.kinds) (category : Category) :
    ∃ added, index.insert category kind = .ok added ∧
      added.entries = (kind, category) :: index.entries := by
  have hnone := (classify_eq_none_iff index kind).2 h
  refine ⟨⟨(kind, category) :: index.entries,
    List.nodup_cons.2 ⟨not_mem_of_classify_eq_none hnone, index.distinct⟩⟩, ?_, rfl⟩
  exact insert_eq_ok.2 ⟨h, rfl⟩

/-- A row can be added if no kind of it is indexed yet or occurs in it twice. -/
theorem foldlM_insert_eq_ok {category : Category} {row : List String} :
    row.foldlM (fun index kind => index.insert category kind) index = .ok index' ↔
      (index.kinds ++ row).Nodup ∧
        index'.entries = rowEntries (category, row) ++ index.entries := by
  induction row generalizing index with
  | nil =>
    have hnodup := index.nodup_kinds
    simp only [List.foldlM_nil, List.append_nil, rowEntries, List.map_nil, List.reverse_nil,
      List.nil_append]
    refine ⟨fun h => ⟨hnodup, by cases h; rfl⟩, fun h => ?_⟩
    exact congrArg Except.ok (ext_entries h.2.symm)
  | cons kind row ih =>
    rw [List.foldlM_cons, Except.bind_eq_ok]
    by_cases hmem : kind ∈ index.kinds
    · refine ⟨?_, fun h => absurd h.1 (not_nodup_of_mem hmem row)⟩
      rintro ⟨added, hadded, -⟩
      exact absurd hmem (insert_eq_ok.1 hadded).1
    · obtain ⟨added, hadded, hentries⟩ := exists_insert_eq_ok hmem category
      have hstep := @ih added
      rw [kinds_of_entries hentries, hentries, List.append_assoc] at hstep
      simp only [hadded, Except.ok.injEq, exists_eq_left', hstep]
      simp [rowEntries]

theorem insertRow_eq_ok {row : Category × List String} :
    index.insertRow row = .ok index' ↔
      row.2 ≠ [] ∧ (index.kinds ++ row.2).Nodup ∧
        index'.entries = rowEntries row ++ index.entries := by
  unfold insertRow
  cases hrow : row.2 with
  | nil => simp
  | cons kind kinds =>
    rw [← hrow]
    have hne : row.2 ≠ [] := by simp [hrow]
    have hempty : row.2.isEmpty = false := by simp [hrow]
    simp only [hempty, Bool.false_eq_true, if_false, foldlM_insert_eq_ok, ne_eq, hne,
      not_false_eq_true, true_and]

theorem listed_cons (row : Category × List String) (rows : Table) :
    (Table.listed (row :: rows)).reverse = rows.listed.reverse ++ rowEntries row := by
  simp [Table.listed, rowEntries]

theorem map_fst_listed (table : Table) : table.listed.map Prod.fst = table.kinds := by
  simp [Table.listed, Table.kinds, List.map_flatMap, Function.comp_def]

/-- A table lists different kinds if the entries for them are for different kinds. -/
theorem nodup_listed_iff (table : Table) :
    (table.listed.reverse.map Prod.fst).Nodup ↔ table.kinds.Nodup := by
  rw [List.map_reverse, List.nodup_reverse, map_fst_listed]

/-- There is an index of any entries for different kinds. -/
theorem exists_entries_eq {entries : List (String × Category)} (h : (entries.map Prod.fst).Nodup) :
    ∃ index : Index, index.entries = entries :=
  ⟨⟨entries, h⟩, rfl⟩

/-- The kinds that were added, and those of a row behind them, are those of the row's entries in
front of the others. -/
theorem nodup_rowEntries_iff (index : Index) (row : Category × List String) :
    ((rowEntries row ++ index.entries).map Prod.fst).Nodup ↔ (index.kinds ++ row.2).Nodup := by
  have hreverse :
      (index.kinds ++ row.2).reverse = (rowEntries row ++ index.entries).map Prod.fst := by
    simp [kinds, rowEntries, Function.comp_def]
  rw [← hreverse, List.nodup_reverse]

/-- Rows can be added if each of them lists a kind and no kind is indexed yet or listed twice. The
index then has the entries of the rows, the last one first. -/
theorem foldlM_insertRow_eq_ok {rows : Table} :
    rows.foldlM insertRow index = .ok index' ↔
      (∀ row ∈ rows, row.2 ≠ []) ∧ (index.kinds ++ rows.kinds).Nodup ∧
        index'.entries = rows.listed.reverse ++ index.entries := by
  induction rows generalizing index with
  | nil =>
    have hnodup := index.nodup_kinds
    simp only [List.foldlM_nil, Table.kinds, Table.listed, List.flatMap_nil, List.append_nil,
      List.reverse_nil, List.nil_append]
    refine ⟨fun h => ⟨by simp, hnodup, by cases h; rfl⟩, fun h => ?_⟩
    exact congrArg Except.ok (ext_entries h.2.2.symm)
  | cons row rows ih =>
    rw [List.foldlM_cons, Except.bind_eq_ok, List.forall_mem_cons, Table.kinds_cons, listed_cons,
      ← List.append_assoc index.kinds, List.append_assoc (Table.listed rows).reverse]
    constructor
    · rintro ⟨added, hadded, hrest⟩
      obtain ⟨hne, -, hentries⟩ := insertRow_eq_ok.1 hadded
      obtain ⟨hrows, hnodup, hentries'⟩ := ih.1 hrest
      rw [kinds_of_rowEntries hentries] at hnodup
      rw [hentries] at hentries'
      exact ⟨⟨hne, hrows⟩, hnodup, hentries'⟩
    · rintro ⟨⟨hne, hrows⟩, hnodup, hentries'⟩
      have hrow : (index.kinds ++ row.2).Nodup := (List.nodup_append.1 hnodup).1
      obtain ⟨added, hentries⟩ := exists_entries_eq ((nodup_rowEntries_iff index row).2 hrow)
      refine ⟨added, insertRow_eq_ok.2 ⟨hne, hrow, hentries⟩, ih.2 ⟨hrows, ?_, ?_⟩⟩
      · rwa [kinds_of_rowEntries hentries]
      · rw [hentries', hentries]

/-- A table has an index if it is sound, and the index lists what the table lists. -/
theorem build_eq_ok {table : Table} :
    build table = .ok index ↔ table.Sound ∧ index.entries = table.listed.reverse := by
  rw [build, foldlM_insertRow_eq_ok]
  constructor
  · rintro ⟨hrows, hnodup, hentries⟩
    exact ⟨⟨hrows, hnodup⟩, by simpa [empty] using hentries⟩
  · rintro ⟨⟨hrows, hnodup⟩, hentries⟩
    exact ⟨hrows, hnodup, by simpa [empty] using hentries⟩

theorem exists_build_eq_ok {table : Table} (h : table.Sound) :
    ∃ index, build table = .ok index := by
  obtain ⟨index, hentries⟩ := exists_entries_eq ((nodup_listed_iff table).2 h.nodup)
  exact ⟨index, build_eq_ok.2 ⟨h, hentries⟩⟩

end Index

/-! ## The standard table -/

theorem sound_standardTable : standardTable.Sound where
  row_ne_nil := by decide
  nodup := (Index.nodup_listed_iff standardTable).1 standard.distinct

/-- The check that stands beside the table passes. -/
theorem isConsistent_standardTable : standardTable.isConsistent = true :=
  (Table.isConsistent_iff _).2 sound_standardTable

/-- The standard index is the one that is built from the table, so that building it never fails. -/
theorem build_standardTable : Index.build standardTable = .ok standard :=
  Index.build_eq_ok.2 ⟨sound_standardTable, rfl⟩

/-! ## Main statement -/

/-- **A table is consistent if and only if it has an index.** -/
theorem consistent_iff_indexed (table : Table) :
    table.isConsistent = true ↔ ∃ index, Index.build table = .ok index := by
  rw [Table.isConsistent_iff]
  constructor
  · exact Index.exists_build_eq_ok
  · rintro ⟨index, hindex⟩
    exact (Index.build_eq_ok.1 hindex).1

/-- A kind that is listed twice in one row is found out by both. -/
example :
    let table : Table := [(.stackOps, ["OP_X", "OP_Y", "OP_X"])]
    table.isConsistent = false ∧
      Index.build table = .error (.duplicateMember "OP_X" .stackOps .stackOps) :=
  ⟨rfl, rfl⟩

end SpendTrace.Opcode
