import Lindenmayer.Toml.Tree

/-!
# Tables built line by line

A header and the entries behind it make up a table in their order (`Entries.build_table`), and
headers of an array make up its tables (`Entries.build_elements`), whatever tables there are around
them (`Entries.Leads`). What has been built has the values that were given
(`valueEntries_leaves`, `Entries.valueEntries_withTables`).
-/

namespace Lindenmayer.Toml

/-! ## Values of tables -/

/-- Entries as they stand in a table. -/
def leaves (pairs : List (String × Value)) : Entries := pairs.map fun pair => (pair.1, .leaf pair.2)

theorem valueEntries_append (front back : Entries) :
    Node.valueEntries (front ++ back) = Node.valueEntries front ++ Node.valueEntries back := by
  induction front with
  | nil => rfl
  | cons entry front ih =>
      rw [List.cons_append, Node.valueEntries, ih]
      rfl

theorem valueEntries_leaves (pairs : List (String × Value)) :
    Node.valueEntries (leaves pairs) = pairs := by
  induction pairs with
  | nil => rfl
  | cons pair pairs ih =>
      show (pair.1, _) :: Node.valueEntries (leaves pairs) = _
      rw [ih]
      rfl

/-- Tables of an array, the latest first, come out in their order. -/
theorem valueTables_eq (tables : List Entries) (later : List Value) :
    Node.valueTables tables later =
      (tables.reverse.map fun entries => .table (Node.valueEntries entries)) ++ later := by
  induction tables generalizing later with
  | nil => rfl
  | cons entries tables ih =>
      rw [Node.valueTables, ih, List.reverse_cons, List.map_append, List.append_assoc]
      rfl

namespace Entries

variable {before : Entries} {key name : String} {node old : Node}

/-! ## One key -/

theorem lookup_eq_none_iff_keys : before.lookup key = none ↔ key ∉ before.map Prod.fst := by
  rw [List.lookup_eq_none_iff, List.mem_map]
  constructor
  · rintro h ⟨entry, hentry, rfl⟩
    simpa using h entry hentry
  · intro h entry hentry
    simpa using fun heq => h ⟨entry, hentry, heq.symm⟩

/-- A key is put behind the others that it is not among. -/
theorem put_append (h : before.lookup key = none) (after : Entries) :
    put key node (before ++ after) = before ++ put key node after := by
  induction before with
  | nil => rfl
  | cons entry before ih =>
      obtain ⟨k, other⟩ := entry
      rw [lookup_eq_none_iff_keys, List.map_cons, List.mem_cons, not_or] at h
      rw [List.cons_append, put, if_neg fun heq => h.1 heq.symm,
        ih (lookup_eq_none_iff_keys.2 h.2)]
      rfl

theorem put_of_lookup (h : before.lookup key = none) :
    before.put key node = before ++ [(key, node)] := by
  have hput : put key node (before ++ []) = before ++ put key node [] := put_append h []
  rwa [List.append_nil] at hput

theorem lookup_last (h : before.lookup key = none) :
    (before ++ [(key, node)]).lookup key = some node := by
  rw [List.lookup_append, h]
  simp

theorem put_last (h : before.lookup key = none) :
    put key node (before ++ [(key, old)]) = before ++ [(key, node)] := by
  rw [put_append h, put, if_pos rfl]

/-! ## The way to a table -/

/-- A header's path leads to the table that stands in the midst of others. -/
def Leads (current : List String) (around : Entries → Entries) : Prop :=
  ∀ (change : Change) (inner : Entries),
    descend false change current .defined (around inner) = (change .defined inner).map around

theorem leads_root : Leads [] id := by
  intro change inner
  rw [descend, Option.map_id]
  rfl

/-- A way is gone in two parts. -/
theorem descend_append (change : Change) (front back : List String) (standing : Standing)
    (entries : Entries) :
    descend false change (front ++ back) standing entries =
      descend false (descend false change back) front standing entries := by
  induction front generalizing standing entries with
  | nil => rfl
  | cons key front ih => simp only [List.cons_append, descend, ih]

variable {current : List String} {around : Entries → Entries}

theorem Leads.table (h : Leads current around) (hnone : before.lookup name = none) :
    Leads (current ++ [name]) fun inner => around (before ++ [(name, .branch .defined inner)]) := by
  intro change inner
  rw [descend_append, h, descend, lookup_last hnone]
  simp only [put_last hnone]
  rw [if_neg (by simp), Option.map_map]
  rfl

theorem Leads.element (h : Leads current around) (hnone : before.lookup name = none)
    (older : List Entries) :
    Leads (current ++ [name]) fun inner =>
      around (before ++ [(name, .elements (inner :: older))]) := by
  intro change inner
  rw [descend_append, h, descend, lookup_last hnone]
  simp only [put_last hnone]
  rw [Option.map_map]
  rfl

/-! ## Lines -/

/-- The line of an entry with one key. -/
def entryLine (pair : String × Value) : Statement := .entry ⟨[], pair.1⟩ pair.2

theorem assign_of_lookup {value : Value} (h : before.lookup key = none) :
    assign ⟨[], key⟩ value .defined before = some (before ++ [(key, .leaf value)]) := by
  simp only [assign, descend, h, put_of_lookup h]
  rw [if_neg (by simp)]

/-- Lines of entries make up the table that the header before them began. -/
theorem build_entries (h : Leads current around) {inner : Entries}
    {pairs : List (String × Value)}
    (hkeys : (inner.map Prod.fst ++ pairs.map Prod.fst).Nodup) (rest : List Statement) :
    build current (around inner) (pairs.map entryLine ++ rest) =
      build current (around (inner ++ leaves pairs)) rest := by
  induction pairs generalizing inner with
  | nil =>
      show _ = build current (around (inner ++ [])) rest
      rw [List.append_nil]
      rfl
  | cons pair pairs ih =>
      obtain ⟨key, value⟩ := pair
      have hnone : inner.lookup key = none := by
        rw [lookup_eq_none_iff_keys]
        intro hmem
        exact (List.nodup_append.1 hkeys).2.2 key hmem key List.mem_cons_self rfl
      have hkeys' :
          ((inner ++ [(key, Node.leaf value)]).map Prod.fst ++ pairs.map Prod.fst).Nodup := by
        rw [List.map_append, List.append_assoc]
        exact hkeys
      have hassign : assignAt current ⟨[], key⟩ value (around inner) =
          some (around (inner ++ [(key, .leaf value)])) := by
        rw [assignAt, h, assign_of_lookup hnone]
        rfl
      show (assignAt current ⟨[], key⟩ value (around inner)).bind _ = _
      rw [hassign]
      show build current (around (inner ++ [(key, .leaf value)]))
        (pairs.map entryLine ++ rest) = _
      rw [ih hkeys', List.append_assoc]
      rfl

/-- A header begins a table. -/
theorem build_header (hnone : before.lookup name = none) (rest : List Statement) :
    build current before (.header ⟨[], name⟩ :: rest) =
      build [name] (before ++ [(name, .branch .defined [])]) rest := by
  show (before.define ⟨[], name⟩).bind _ = _
  simp only [define, descend, hnone, put_of_lookup hnone]
  rfl

/-- A header and the lines of entries behind it make up a table. -/
theorem build_table (here : List String) (hnone : before.lookup name = none)
    {pairs : List (String × Value)} (hkeys : (pairs.map Prod.fst).Nodup) (rest : List Statement) :
    build here before (.header ⟨[], name⟩ :: (pairs.map entryLine ++ rest)) =
      build [name] (before ++ [(name, .branch .defined (leaves pairs))]) rest := by
  have hnodup : (([] : Entries).map Prod.fst ++ pairs.map Prod.fst).Nodup := hkeys
  rw [build_header hnone]
  exact build_entries (leads_root.table hnone) hnodup rest

/-! ## Arrays of tables -/

/-- A table with an array of tables behind its other entries, if the array has any. -/
def withTables (fields : Entries) (name : String) : List Entries → Entries
  | [] => fields
  | latest :: older => fields ++ [(name, .elements (latest :: older))]

theorem valueEntries_withTables (pairs : List (String × Value)) (name : String)
    (tables : List (List (String × Value))) :
    Node.valueEntries (withTables (leaves pairs) name (tables.reverse.map leaves)) =
      pairs ++ if tables.isEmpty then [] else [(name, .array (tables.map .table))] := by
  have hvalues : (tables.reverse.map leaves).reverse.map
      (fun entries => Value.table (Node.valueEntries entries)) = tables.map .table := by
    simp [Function.comp_def, valueEntries_leaves]
  cases hlatest : tables.reverse.map leaves with
  | nil =>
      obtain rfl : tables = [] := by simpa using hlatest
      simp [withTables, valueEntries_leaves]
  | cons latest older =>
      have hne : tables ≠ [] := by
        rintro rfl
        cases hlatest
      rw [withTables, valueEntries_append, valueEntries_leaves, ← hlatest,
        if_neg (by simpa using hne), ← hvalues]
      show _ ++ [(name, Value.array (Node.valueTables (tables.reverse.map leaves) []))] = _
      rw [valueTables_eq, List.append_nil]

/-- The lines of one table of an array. -/
def elementLines (path : Path) (pairs : List (String × Value)) : List Statement :=
  .element path :: pairs.map entryLine

/-- A header of an array and the lines behind it make up one table more. -/
theorem build_element (h : Leads current around) {fields : Entries}
    (hnone : fields.lookup name = none) {pairs : List (String × Value)}
    (hkeys : (pairs.map Prod.fst).Nodup) (older : List Entries) {here : List String}
    (rest : List Statement) :
    build here (around (withTables fields name older))
        (elementLines ⟨current, name⟩ pairs ++ rest) =
      build (current ++ [name]) (around (withTables fields name (leaves pairs :: older))) rest := by
  have happend : append ⟨current, name⟩ (around (withTables fields name older)) =
      some (around (withTables fields name ([] :: older))) := by
    rw [append, h]
    cases older with
    | nil => simp only [withTables, hnone, put_of_lookup hnone, Option.map_some]
    | cons latest older =>
        simp only [withTables, lookup_last hnone, put_last hnone, Option.map_some]
  have hnodup : (([] : Entries).map Prod.fst ++ pairs.map Prod.fst).Nodup := hkeys
  show (append ⟨current, name⟩ (around (withTables fields name older))).bind _ = _
  rw [happend, Option.bind_some]
  exact build_entries (h.element hnone older) hnodup rest

/-- The lines of an array make up its tables. A header comes behind them. -/
theorem build_elements (h : Leads current around) {fields : Entries}
    (hnone : fields.lookup name = none) {tables : List (List (String × Value))}
    (hkeys : ∀ pairs ∈ tables, (pairs.map Prod.fst).Nodup) (older : List Entries)
    (here : List String) (path : Path) (rest : List Statement) :
    build here (around (withTables fields name older))
        (tables.flatMap (elementLines ⟨current, name⟩) ++ .header path :: rest) =
      build [] (around (withTables fields name (tables.reverse.map leaves ++ older)))
        (.header path :: rest) := by
  induction tables generalizing here older with
  | nil => rfl
  | cons pairs tables ih =>
      rw [List.flatMap_cons, List.append_assoc,
        build_element h hnone (hkeys pairs List.mem_cons_self),
        ih fun other hother => hkeys other (List.mem_cons_of_mem _ hother)]
      simp

end Entries

end Lindenmayer.Toml
