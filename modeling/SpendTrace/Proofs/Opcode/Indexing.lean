import SpendTrace.Proofs.Opcode.Consistency

/-!
# What an index knows, and why a table has none

An index turns its table around: it knows of every listed kind, once, and of nothing else. A table
without an index is refused with its first defect in the order in which it is read, row by row and
in each row kind by kind. Whatever comes behind the first defect plays no part.

* `Table.Lists`: what a table says, whatever the order and the number of its rows.
* `Index.TurnsAround`: what an index knows of the table it was built from.
* `Table.FirstDefect`: the first row without a kind, or the first kind that is listed again.
* `index_or_first_defect` is the main statement.
-/

namespace SpendTrace.Opcode

namespace Table

/-- A row of the category lists the kind. -/
def Lists (table : Table) (kind : String) (category : Category) : Prop :=
  ∃ row ∈ table, row.1 = category ∧ kind ∈ row.2

theorem mem_listed_iff {table : Table} {kind : String} {category : Category} :
    (kind, category) ∈ table.listed ↔ table.Lists kind category := by
  simp only [listed, List.mem_flatMap, List.mem_map, Prod.mk.injEq]
  constructor
  · rintro ⟨row, hrow, _, hkind, rfl, rfl⟩
    exact ⟨row, hrow, rfl, hkind⟩
  · rintro ⟨row, hrow, rfl, hkind⟩
    exact ⟨row, hrow, kind, hkind, rfl, rfl⟩

theorem mem_kinds_iff {table : Table} {kind : String} :
    kind ∈ table.kinds ↔ ∃ category, table.Lists kind category := by
  rw [kinds, List.mem_flatMap]
  constructor
  · rintro ⟨row, hrow, hkind⟩
    exact ⟨row.1, row, hrow, rfl, hkind⟩
  · rintro ⟨_, row, hrow, -, hkind⟩
    exact ⟨row, hrow, hkind⟩

theorem listed_append (above below : Table) :
    listed (above ++ below) = above.listed ++ below.listed := by
  simp [listed]

/-- The first defect of a table. Above the row where it stands nothing is wrong, and neither is
anything with the kinds in front of it in its row. -/
inductive FirstDefect (table : Table) : Defect → Prop where
  /-- A row lists nothing. -/
  | emptyCategory {above below : Table} {category : Category}
    (htable : table = above ++ (category, []) :: below) (habove : above.Sound) :
    FirstDefect table (.emptyCategory category)
  /-- A kind is listed again, and was listed once before. -/
  | duplicateMember {above below : Table} {before after : List String} {kind : String}
    {first second : Category}
    (htable : table = above ++ (second, before ++ kind :: after) :: below) (habove : above.Sound)
    (hbefore : (above.kinds ++ before).Nodup)
    (hfirst : (listed (above ++ [(second, before)])).filter (·.1 = kind) = [(kind, first)]) :
    FirstDefect table (.duplicateMember kind first second)

end Table

namespace Index

/-! ## What an index knows -/

/-- The index knows what the table lists, and nothing else. -/
structure TurnsAround (index : Index) (table : Table) : Prop where
  classify_eq_some_iff :
    ∀ kind category, index.classify kind = some category ↔ table.Lists kind category
  /-- No kind is listed under two categories. -/
  existsUnique_category : ∀ kind ∈ table.kinds, ∃! category, table.Lists kind category
  size_eq : index.size = table.kinds.length
  mem_members_iff :
    ∀ category kind, kind ∈ index.members category ↔ table.Lists kind category
  nodup_members : ∀ category, (index.members category).Nodup
  isEmpty_iff : index.isEmpty = true ↔ table = []

variable {index : Index} {table : Table}

/-- Kinds are indexed once, so that any entry of a kind is the one that is found. -/
theorem classify_eq_some_iff_mem {kind : String} {category : Category} :
    index.classify kind = some category ↔ (kind, category) ∈ index.entries := by
  constructor
  · intro h
    obtain ⟨before, after, hentries, -⟩ := List.lookup_eq_some_iff.1 h
    simp [hentries]
  · intro h
    obtain ⟨before, after, hentries⟩ := List.append_of_mem h
    have hdistinct := index.distinct
    rw [hentries, List.map_append, List.map_cons, List.nodup_append] at hdistinct
    refine List.lookup_eq_some_iff.2 ⟨before, after, hentries, fun entry hentry => ?_⟩
    have hne := hdistinct.2.2 entry.1 (List.mem_map_of_mem hentry) kind List.mem_cons_self
    simpa using Ne.symm hne

theorem mem_members_iff_mem {kind : String} {category : Category} :
    kind ∈ index.members category ↔ (kind, category) ∈ index.entries := by
  simp [members]

theorem nodup_members (index : Index) (category : Category) : (index.members category).Nodup :=
  index.distinct.sublist (List.filter_sublist.map Prod.fst)

/-- An index that was built knows what its table lists. -/
theorem turnsAround_of_build (h : build table = .ok index) : index.TurnsAround table := by
  obtain ⟨hsound, hentries⟩ := build_eq_ok.1 h
  have hmem (kind : String) (category : Category) :
      (kind, category) ∈ index.entries ↔ table.Lists kind category := by
    rw [hentries, List.mem_reverse, Table.mem_listed_iff]
  have hclassify (kind : String) (category : Category) :
      index.classify kind = some category ↔ table.Lists kind category :=
    classify_eq_some_iff_mem.trans (hmem kind category)
  have hsize : index.size = table.kinds.length := by
    rw [size, hentries, List.length_reverse, ← map_fst_listed, List.length_map]
  refine ⟨hclassify, fun kind hkind => ?_, hsize,
    fun category kind => mem_members_iff_mem.trans (hmem kind category), index.nodup_members, ?_⟩
  · obtain ⟨category, hlists⟩ := Table.mem_kinds_iff.1 hkind
    refine ⟨category, hlists, fun other hother => ?_⟩
    have hfound := (hclassify kind category).2 hlists
    rw [(hclassify kind other).2 hother] at hfound
    exact Option.some.inj hfound
  · rw [isEmpty, List.isEmpty_iff_length_eq_zero, ← size, hsize, List.length_eq_zero_iff]
    constructor
    · intro hkinds
      cases table with
      | nil => rfl
      | cons row rows =>
        -- The first row of a sound table lists something.
        rw [Table.kinds_cons, List.append_eq_nil_iff] at hkinds
        exact absurd hkinds.1 (hsound.row_ne_nil row List.mem_cons_self)
    · rintro rfl
      rfl

/-! ## Why there is none -/

theorem insert_eq_error {category : Category} {kind : String} {defect : Defect} :
    index.insert category kind = .error defect ↔
      ∃ first, (kind, first) ∈ index.entries ∧ defect = .duplicateMember kind first category := by
  simp only [← classify_eq_some_iff_mem]
  unfold insert
  split
  · next first h => simp [h, eq_comm]
  · next h => simp [h]

/-- A row cannot be added if it lists nothing, or from the first kind on that is indexed already by
the time it is added. -/
theorem insertRow_eq_error {row : Category × List String} {defect : Defect} :
    index.insertRow row = .error defect ↔
      row.2 = [] ∧ defect = .emptyCategory row.1 ∨
      ∃ before kind after first, row.2 = before ++ kind :: after ∧
        (index.kinds ++ before).Nodup ∧
        (kind, first) ∈ rowEntries (row.1, before) ++ index.entries ∧
        defect = .duplicateMember kind first row.1 := by
  unfold insertRow
  cases hrow : row.2 with
  | nil => simp [eq_comm]
  | cons head tail =>
    simp only [List.isEmpty_cons, Bool.false_eq_true, if_false, Except.foldlM_eq_error,
      foldlM_insert_eq_ok, insert_eq_error, reduceCtorEq, false_and, false_or]
    constructor
    · rintro ⟨before, kind, after, added, hrow, ⟨hnodup, hentries⟩, first, hfirst, rfl⟩
      exact ⟨before, kind, after, first, hrow, hnodup, hentries ▸ hfirst, rfl⟩
    · rintro ⟨before, kind, after, first, hrow, hnodup, hfirst, rfl⟩
      obtain ⟨added, hentries⟩ :=
        exists_entries_eq ((nodup_rowEntries_iff index (row.1, before)).2 hnodup)
      exact ⟨before, kind, after, added, hrow, ⟨hnodup, hentries⟩, first, hentries ▸ hfirst, rfl⟩

/-- Where kinds are listed once, an entry is the only one of its kind. -/
theorem filter_eq_singleton_iff {entries : List (String × Category)} {kind : String}
    {category : Category} (h : (entries.map Prod.fst).Nodup) :
    entries.filter (·.1 = kind) = [(kind, category)] ↔ (kind, category) ∈ entries := by
  constructor
  · intro hfilter
    have hmem : (kind, category) ∈ entries.filter (·.1 = kind) := by simp [hfilter]
    exact (List.mem_filter.1 hmem).1
  · intro hmem
    obtain ⟨before, after, rfl⟩ := List.append_of_mem hmem
    rw [List.map_append, List.map_cons, List.nodup_append, List.nodup_cons] at h
    obtain ⟨-, ⟨hafter, -⟩, hbefore⟩ := h
    have hfront : before.filter (·.1 = kind) = [] := by
      rw [List.filter_eq_nil_iff]
      intro entry hentry
      simpa using hbefore entry.1 (List.mem_map_of_mem hentry) kind List.mem_cons_self
    have hback : after.filter (·.1 = kind) = [] := by
      rw [List.filter_eq_nil_iff]
      intro entry hentry hkind
      have hmem : entry.1 ∈ after.map Prod.fst := List.mem_map_of_mem hentry
      rw [of_decide_eq_true hkind] at hmem
      exact hafter hmem
    simp [hfront, hback]

theorem reverse_listed_concat (above : Table) (row : Category × List String) :
    (Table.listed (above ++ [row])).reverse = rowEntries row ++ above.listed.reverse := by
  rw [Table.listed_append, List.reverse_append, listed_cons]
  rfl

/-- What a kind was listed under before, once the rows above and the kinds in front of it in its own
row have been added. -/
theorem filter_listed_concat_iff {above : Table} {before : List String} {kind : String}
    {first second : Category} (h : (above.kinds ++ before).Nodup) :
    (Table.listed (above ++ [(second, before)])).filter (·.1 = kind) = [(kind, first)] ↔
      (kind, first) ∈ rowEntries (second, before) ++ above.listed.reverse := by
  have hkinds : (above ++ [(second, before)] : Table).kinds = above.kinds ++ before := by
    simp [Table.kinds]
  rw [← reverse_listed_concat, List.mem_reverse]
  exact filter_eq_singleton_iff (by rwa [map_fst_listed, hkinds])

theorem kinds_of_build (h : build table = .ok index) : index.kinds = table.kinds := by
  rw [kinds, (build_eq_ok.1 h).2, List.map_reverse, List.reverse_reverse, map_fst_listed]

/-- A table is refused with a defect exactly if that is its first one. -/
theorem build_eq_error {defect : Defect} :
    build table = .error defect ↔ table.FirstDefect defect := by
  rw [build, Except.foldlM_eq_error]
  constructor
  · rintro ⟨above, ⟨category, kinds⟩, below, index, htable, hbuild, hrow⟩
    obtain ⟨habove, hentries⟩ := build_eq_ok.1 hbuild
    obtain ⟨rfl, rfl⟩ | ⟨before, kind, after, first, rfl, hnodup, hfirst, rfl⟩ :=
      insertRow_eq_error.1 hrow
    · exact .emptyCategory htable habove
    · rw [kinds_of_build hbuild] at hnodup
      rw [hentries] at hfirst
      exact .duplicateMember htable habove hnodup ((filter_listed_concat_iff hnodup).2 hfirst)
  · rintro (⟨htable, habove⟩ | ⟨htable, habove, hnodup, hfirst⟩)
    · obtain ⟨index, hbuild⟩ := exists_build_eq_ok habove
      exact ⟨_, _, _, index, htable, hbuild, insertRow_eq_error.2 (.inl ⟨rfl, rfl⟩)⟩
    · obtain ⟨index, hbuild⟩ := exists_build_eq_ok habove
      have hlisted := (filter_listed_concat_iff hnodup).1 hfirst
      rw [← (build_eq_ok.1 hbuild).2] at hlisted
      rw [← kinds_of_build hbuild] at hnodup
      exact ⟨_, _, _, index, htable, hbuild,
        insertRow_eq_error.2 (.inr ⟨_, _, _, _, rfl, hnodup, hlisted, rfl⟩)⟩

end Index

/-! ## Main statement -/

/-- **A table has an index that turns it around, or is refused with its first defect.** The index
has one entry for every listed kind, under the one category that lists it, and no others. The defect
is the first row that lists nothing or the first kind that is listed again, whichever comes first. -/
theorem index_or_first_defect (table : Table) :
    (∀ index, Index.build table = .ok index → index.TurnsAround table) ∧
      ∀ defect, Index.build table = .error defect ↔ table.FirstDefect defect :=
  ⟨fun _ => Index.turnsAround_of_build, fun _ => Index.build_eq_error⟩

/-- A category has two rows. With another row between them that repeats a kind, and one behind them
that lists nothing, it is the repeated kind that the table is refused with. -/
theorem split_category_is_indexed_unless_repeated :
    let sound : Table := [(.stackOps, ["OP_X", "OP_Y"]), (.stackOps, ["OP_Z"])]
    let repeated : Table :=
      [(.stackOps, ["OP_X", "OP_Y"]), (.spliceOps, ["OP_W", "OP_Y", "OP_W"]), (.stackOps, [])]
    (∃ index, Index.build sound = .ok index ∧ index.TurnsAround sound) ∧
      Index.build repeated = .error (.duplicateMember "OP_Y" .stackOps .spliceOps) ∧
      repeated.FirstDefect (.duplicateMember "OP_Y" .stackOps .spliceOps) := by
  intro sound repeated
  have hrefused : Index.build repeated =
      .error (.duplicateMember "OP_Y" .stackOps .spliceOps) := rfl
  exact ⟨⟨_, rfl, (index_or_first_defect sound).1 _ rfl⟩, hrefused,
    ((index_or_first_defect repeated).2 _).1 hrefused⟩

end SpendTrace.Opcode
