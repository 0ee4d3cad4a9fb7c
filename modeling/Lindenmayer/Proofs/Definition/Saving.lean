import Lindenmayer.Definition.Document
import Lindenmayer.Proofs.Definition.Validity
import Lindenmayer.Proofs.Toml.Document
import Lindenmayer.Proofs.Toml.Tree

/-!
# Definitions saved and loaded

What is written of a definition is read as that definition (`Definition.read_write`):

* the lines of a section are its header and the entries of its table (`grammarLines_eq`,
  `turtleLines_eq`), and all of them are read as they were written, since a valid turtle has only
  finite numbers (`plain_grammarLines`, `plain_turtleLines`);
* they build the two tables, in which the rules stand as an array (`build_lines`);
* a table is read as the section it was made from (`grammar?_table`, `turtle?_fields`).
-/

namespace Lindenmayer

namespace Definition

open Toml (Value Statement Entries Node)
open Toml.Entries (entryLine elementLines withTables Leads)

/-! ## Tables of the sections -/

/-- The entries of a rule's table. -/
def ruleFields (rule : RuleEntry) : List (String × Value) :=
  [("rule", .text rule.text), ("probability", .double rule.probability)]

/-- The entries of the grammar's table, its rules aside if there are any. -/
def grammarFields (grammar : GrammarSection) : List (String × Value) :=
  [("start", .text grammar.start)] ++
    (if grammar.rules.isEmpty then [("rules", .array [])] else []) ++
    [("iterations", .integer grammar.iterations.toNat),
      ("rule_selection_seed", .integer grammar.seed.toNat)]

/-- The grammar's table. -/
def grammarTable (grammar : GrammarSection) : List (String × Value) :=
  grammarFields grammar ++
    if grammar.rules.isEmpty then []
    else [("rules", .array (grammar.rules.map fun rule => .table (ruleFields rule)))]

/-- An entry for an angle if it is given. -/
def maybeField (name : String) : Option Float → List (String × Value)
  | none => []
  | some x => [(name, .double x)]

/-- The entries of the turtle's table. -/
def turtleFields (turtle : TurtleSection) : List (String × Value) :=
  [("base_length", .double turtle.baseLength), ("angle", .double turtle.angle)] ++
    maybeField "yaw_angle" turtle.yaw? ++
    maybeField "pitch_angle" turtle.pitch? ++
    maybeField "roll_angle" turtle.roll? ++
    [("angle_jitter_fraction", .double turtle.jitterFraction),
      ("angle_jitter_seed", .integer turtle.jitterSeed.toNat),
      ("bevel_depth", .double turtle.bevelDepth),
      ("bevel_resolution", .integer turtle.bevelResolution.toNat)]

theorem grammarLines_eq (grammar : GrammarSection) :
    grammarLines grammar = .header (key "grammar") :: ((grammarFields grammar).map entryLine ++
      (grammar.rules.map ruleFields).flatMap (elementLines ⟨["grammar"], "rules"⟩)) := by
  unfold grammarLines grammarFields
  rw [List.flatMap_map]
  split <;> rfl

theorem turtleLines_eq (turtle : TurtleSection) :
    turtleLines turtle = .header (key "turtle") :: (turtleFields turtle).map entryLine := by
  unfold turtleLines turtleFields
  cases turtle.yaw? <;> cases turtle.pitch? <;> cases turtle.roll? <;> rfl

theorem nodup_ruleFields (rule : RuleEntry) : ((ruleFields rule).map Prod.fst).Nodup := by
  simp [ruleFields]

theorem nodup_grammarFields (grammar : GrammarSection) :
    ((grammarFields grammar).map Prod.fst).Nodup := by
  unfold grammarFields
  split <;> simp

theorem nodup_turtleFields (turtle : TurtleSection) :
    ((turtleFields turtle).map Prod.fst).Nodup := by
  unfold turtleFields
  cases turtle.yaw? <;> cases turtle.pitch? <;> cases turtle.roll? <;> simp [maybeField]

/-! ## Lines of plain values -/

theorem plain_whole {n : ℕ} (h : n ≤ 2 ^ 63 - 1) : (Value.integer n).Plain :=
  .integer (by omega) (by omega)

theorem plain_double {x : Float} (h : x.isFinite = true) : (Value.double x).Plain :=
  .double (Double.isNaN_eq_false_of_isFinite h)

theorem plain_extent {x : Float} (h : TurtleSection.isExtent x = true) :
    (Value.double x).Plain := by
  rw [TurtleSection.isExtent, Bool.and_eq_true] at h
  exact plain_double h.1

theorem plain_fraction {x : Float} (h : Rule.inUnitInterval x = true) :
    (Value.double x).Plain := by
  refine .double (Bool.eq_false_iff.2 fun hnan => ?_)
  exact Float.not_le_of_isNaN hnan (Rule.inUnitInterval_iff.1 h).2

theorem plain_maybeField {name : String} {angle? : Option Float}
    (h : ∀ x, angle? = some x → x.isFinite = true) :
    ∀ pair ∈ maybeField name angle?, pair.2.Plain := by
  cases angle? with
  | none => simp [maybeField]
  | some x => simpa [maybeField] using plain_double (h x rfl)

theorem plain_ruleFields {rule : RuleEntry} (h : rule.probability.isNaN = false) :
    ∀ pair ∈ ruleFields rule, pair.2.Plain := by
  simp only [ruleFields, List.forall_mem_cons, List.not_mem_nil, false_implies, implies_true,
    and_true]
  exact ⟨.text _, .double h⟩

theorem plain_grammarFields {grammar : GrammarSection} (h : grammar.seed.toNat ≤ 2 ^ 63 - 1) :
    ∀ pair ∈ grammarFields grammar, pair.2.Plain := by
  have hiterations := grammar.iterations.toNat_lt
  have hrules : ∀ pair ∈ (if grammar.rules.isEmpty then [("rules", Value.array [])] else []),
      pair.2.Plain := by
    split
    · simpa using Value.Plain.empty
    · simp
  simp only [grammarFields, List.forall_mem_append, List.forall_mem_cons, List.not_mem_nil,
    false_implies, implies_true, and_true]
  exact ⟨⟨.text _, hrules⟩, plain_whole (by omega), plain_whole h⟩

theorem plain_turtleFields {turtle : TurtleSection} (hvalid : turtle.validate = .ok ())
    (h : turtle.jitterSeed.toNat ≤ 2 ^ 63 - 1) :
    ∀ pair ∈ turtleFields turtle, pair.2.Plain := by
  obtain ⟨hlength, hangle, hyaw, hpitch, hroll, hfraction, hdepth, -⟩ :=
    TurtleSection.validate_eq_ok_iff.1 hvalid
  have hresolution := turtle.bevelResolution.toNat_lt
  simp only [turtleFields, List.forall_mem_append, List.forall_mem_cons, List.not_mem_nil,
    false_implies, implies_true, and_true]
  exact ⟨⟨⟨⟨⟨plain_extent hlength, plain_double hangle⟩, plain_maybeField hyaw⟩,
    plain_maybeField hpitch⟩, plain_maybeField hroll⟩, plain_fraction hfraction, plain_whole h,
    plain_extent hdepth, plain_whole (by omega)⟩

theorem nesting_pos : 0 < Toml.nesting := by decide

theorem plain_entryLines {pairs : List (String × Value)} (h : ∀ pair ∈ pairs, pair.2.Plain) :
    ∀ statement ∈ pairs.map entryLine, statement.Plain := by
  simp only [List.forall_mem_map]
  exact fun pair hpair => ⟨nesting_pos, h pair hpair⟩

theorem plain_grammarLines {grammar : GrammarSection} (hseed : grammar.seed.toNat ≤ 2 ^ 63 - 1)
    (hrules : ∀ rule ∈ grammar.rules, rule.probability.isNaN = false) :
    ∀ statement ∈ grammarLines grammar, statement.Plain := by
  rw [grammarLines_eq, List.flatMap_map]
  simp only [List.forall_mem_cons, List.forall_mem_append, List.forall_mem_flatMap, elementLines]
  refine ⟨nesting_pos, plain_entryLines (plain_grammarFields hseed), fun rule hrule => ?_⟩
  exact ⟨(by decide : 1 < Toml.nesting), plain_entryLines (plain_ruleFields (hrules rule hrule))⟩

theorem plain_turtleLines {turtle : TurtleSection} (hvalid : turtle.validate = .ok ())
    (hseed : turtle.jitterSeed.toNat ≤ 2 ^ 63 - 1) :
    ∀ statement ∈ turtleLines turtle, statement.Plain := by
  rw [turtleLines_eq, List.forall_mem_cons]
  exact ⟨nesting_pos, plain_entryLines (plain_turtleFields hvalid hseed)⟩

/-! ## Tables built -/

/-- What the lines behind the grammar's header build. -/
def grammarTree (grammar : GrammarSection) : Entries :=
  withTables (Toml.leaves (grammarFields grammar)) "rules"
    ((grammar.rules.map ruleFields).reverse.map Toml.leaves)

/-- What the lines of a definition build. -/
def tree (definition : Definition) : Entries :=
  [("grammar", .branch .defined (grammarTree definition.grammar)),
    ("turtle", .branch .defined (Toml.leaves (turtleFields definition.turtle)))]

theorem build_grammarLines (grammar : GrammarSection) (path : Toml.Path)
    (rest : List Statement) :
    ∃ here, Entries.build [] [] (grammarLines grammar ++ .header path :: rest) =
      Entries.build here [("grammar", .branch .defined (grammarTree grammar))]
        (.header path :: rest) := by
  have hempty : ([] : Entries).lookup "grammar" = none := rfl
  rw [grammarLines_eq, List.cons_append, List.append_assoc, key,
    Entries.build_table [] hempty (nodup_grammarFields grammar), grammarTree]
  -- without rules there is no header of their array
  cases hrules : grammar.rules with
  | nil => exact ⟨["grammar"], rfl⟩
  | cons rule rules =>
      have hnone : (Toml.leaves (grammarFields grammar)).lookup "rules" = none := by
        simp [grammarFields, Toml.leaves, hrules, List.lookup_cons]
      have hnodup : ∀ pairs ∈ (rule :: rules).map ruleFields, (pairs.map Prod.fst).Nodup := by
        rw [List.forall_mem_map]
        exact fun rule _ => nodup_ruleFields rule
      have htables := Entries.build_elements (Entries.leads_root.table hempty) hnone hnodup []
        ["grammar"] path rest
      rw [List.append_nil] at htables
      exact ⟨[], htables⟩

/-- The lines of a definition build its tree. -/
theorem build_lines (definition : Definition) :
    Entries.build [] [] (grammarLines definition.grammar ++ turtleLines definition.turtle) =
      some (tree definition) := by
  have hnone : List.lookup "turtle"
      [("grammar", Node.branch .defined (grammarTree definition.grammar))] = none := rfl
  obtain ⟨here, hgrammar⟩ := build_grammarLines definition.grammar (key "turtle")
    ((turtleFields definition.turtle).map entryLine)
  have hturtle := Entries.build_table here hnone (nodup_turtleFields definition.turtle) []
  rw [List.append_nil] at hturtle
  rw [turtleLines_eq, hgrammar]
  exact hturtle

theorem valueEntries_grammarTree (grammar : GrammarSection) :
    Node.valueEntries (grammarTree grammar) = grammarTable grammar := by
  rw [grammarTree, Entries.valueEntries_withTables, grammarTable]
  simp [Function.comp_def]

theorem valueEntries_tree (definition : Definition) :
    Node.valueEntries (tree definition) =
      [("grammar", .table (grammarTable definition.grammar)),
        ("turtle", .table (turtleFields definition.turtle))] := by
  simp only [tree, Node.valueEntries, Node.value, valueEntries_grammarTree,
    Toml.valueEntries_leaves]

/-! ## Tables read -/

theorem natBelow?_of_lt {bound n : ℕ} (h : n < bound) :
    natBelow? bound (.integer n) = some n := by
  rw [natBelow?, if_pos ⟨by omega, by omega⟩, Int.toNat_natCast]

theorem word32?_toNat (n : UInt32) : word32? (.integer n.toNat) = some n := by
  rw [word32?, natBelow?_of_lt n.toNat_lt_size, Option.map_some, UInt32.ofNat_toNat]

theorem word64?_toNat (n : UInt64) : word64? (.integer n.toNat) = some n := by
  rw [word64?, natBelow?_of_lt n.toNat_lt_size, Option.map_some, UInt64.ofNat_toNat]

/-- An entry is found by its name if no other has it. -/
theorem lookup_of_mem {entries : List (String × Value)} (hnodup : (entries.map Prod.fst).Nodup)
    {name : String} {value : Value} (hmem : (name, value) ∈ entries) :
    entries.lookup name = some value := by
  obtain ⟨front, back, rfl⟩ := List.append_of_mem hmem
  rw [List.map_append, List.nodup_append] at hnodup
  refine List.lookup_eq_some_iff.2 ⟨front, back, rfl, fun entry hentry => ?_⟩
  have hne := hnodup.2.2 entry.1 (List.mem_map_of_mem hentry) name List.mem_cons_self
  simpa using hne.symm

/-- An entry that is there is read, whatever would stand for a missing one. -/
theorem field_eq_some {α : Type} {read? : Value → Option α} {missing : α} {found? : Option Value}
    {value : Value} {x : α} (hfound : found? = some value) (hread : read? value = some x) :
    field read? missing found? = some x := by
  rw [hfound, field, hread]

/-- An angle is read as it is given, or as not given. -/
theorem field_eq_some_of_map {found? : Option Value} {angle? : Option Float}
    (hfound : found? = angle?.map .double) :
    field (fun value => (double? value).map some) none found? = some angle? := by
  rw [hfound]
  cases angle? <;> rfl

theorem lookup_maybeField_self (name : String) (angle? : Option Float) :
    (maybeField name angle?).lookup name = angle?.map .double := by
  cases angle? <;> simp [maybeField]

theorem lookup_maybeField_of_ne {name other : String} (hne : name ≠ other)
    (angle? : Option Float) : (maybeField other angle?).lookup name = none := by
  cases angle? <;> simp [maybeField, List.lookup_cons, beq_false_of_ne hne]

theorem rule?_fields (rule : RuleEntry) : rule? (.table (ruleFields rule)) = some rule := by
  unfold rule?
  refine Option.bind_eq_some_iff.2 ⟨_, rfl, ?_⟩
  refine Option.bind_eq_some_iff.2 ⟨rule.text, rfl, ?_⟩
  exact Option.bind_eq_some_iff.2 ⟨rule.probability, field_eq_some rfl rfl, rfl⟩

theorem rules?_map (rules : List RuleEntry) :
    rules? (.array (rules.map fun rule => .table (ruleFields rule))) = some rules := by
  induction rules with
  | nil => rfl
  | cons rule rules ih =>
      simp only [rules?] at ih ⊢
      rw [List.map_cons, List.mapM_cons, rule?_fields, ih]
      rfl

/-- The grammar's table is read as the grammar. -/
theorem grammar?_table (grammar : GrammarSection) :
    grammar? (.table (grammarTable grammar)) = some grammar := by
  have hstart : (grammarTable grammar).lookup "start" = some (.text grammar.start) := by
    simp [grammarTable, grammarFields]
  -- an empty list of rules stands before the whole numbers, any other behind them
  have hrules : (grammarTable grammar).lookup "rules" =
      some (.array (grammar.rules.map fun rule => .table (ruleFields rule))) := by
    unfold grammarTable grammarFields
    cases grammar.rules <;> simp [List.lookup_cons]
  have hiterations : (grammarTable grammar).lookup "iterations" =
      some (.integer grammar.iterations.toNat) := by
    unfold grammarTable grammarFields
    split <;> simp [List.lookup_cons]
  have hseed : (grammarTable grammar).lookup "rule_selection_seed" =
      some (.integer grammar.seed.toNat) := by
    unfold grammarTable grammarFields
    split <;> simp [List.lookup_cons]
  unfold grammar?
  refine Option.bind_eq_some_iff.2 ⟨_, rfl, ?_⟩
  refine Option.bind_eq_some_iff.2 ⟨_, field_eq_some hstart rfl, ?_⟩
  refine Option.bind_eq_some_iff.2 ⟨_, field_eq_some hrules (rules?_map _), ?_⟩
  refine Option.bind_eq_some_iff.2 ⟨_, field_eq_some hiterations (word32?_toNat _), ?_⟩
  exact Option.bind_eq_some_iff.2 ⟨_, field_eq_some hseed (word64?_toNat _), rfl⟩

/-- The turtle's table is read as the turtle. -/
theorem turtle?_fields (turtle : TurtleSection) :
    turtle? (.table (turtleFields turtle)) = some turtle := by
  have given {name : String} {value : Value} (hmem : (name, value) ∈ turtleFields turtle) :
      (turtleFields turtle).lookup name = some value :=
    lookup_of_mem (nodup_turtleFields turtle) hmem
  have hlength := @given "base_length" (.double turtle.baseLength) (by simp [turtleFields])
  have hangle := @given "angle" (.double turtle.angle) (by simp [turtleFields])
  -- an angle of an axis may be missing, so it is looked for among the entries around it
  obtain ⟨hyaw, hpitch, hroll⟩ :
      (turtleFields turtle).lookup "yaw_angle" = turtle.yaw?.map .double ∧
      (turtleFields turtle).lookup "pitch_angle" = turtle.pitch?.map .double ∧
      (turtleFields turtle).lookup "roll_angle" = turtle.roll?.map .double := by
    refine ⟨?_, ?_, ?_⟩ <;>
      simp [turtleFields, List.lookup_append, List.lookup_cons, lookup_maybeField_self,
        lookup_maybeField_of_ne]
  have hfraction := @given "angle_jitter_fraction" (.double turtle.jitterFraction)
    (by simp [turtleFields])
  have hseed := @given "angle_jitter_seed" (.integer turtle.jitterSeed.toNat)
    (by simp [turtleFields])
  have hdepth := @given "bevel_depth" (.double turtle.bevelDepth) (by simp [turtleFields])
  have hresolution := @given "bevel_resolution" (.integer turtle.bevelResolution.toNat)
    (by simp [turtleFields])
  -- one step for each field, in the order in which they are read
  unfold turtle?
  refine Option.bind_eq_some_iff.2 ⟨_, rfl, ?_⟩
  refine Option.bind_eq_some_iff.2 ⟨_, field_eq_some hlength rfl, ?_⟩
  refine Option.bind_eq_some_iff.2 ⟨_, field_eq_some hangle rfl, ?_⟩
  refine Option.bind_eq_some_iff.2 ⟨_, field_eq_some_of_map hyaw, ?_⟩
  refine Option.bind_eq_some_iff.2 ⟨_, field_eq_some_of_map hpitch, ?_⟩
  refine Option.bind_eq_some_iff.2 ⟨_, field_eq_some_of_map hroll, ?_⟩
  refine Option.bind_eq_some_iff.2 ⟨_, field_eq_some hfraction rfl, ?_⟩
  refine Option.bind_eq_some_iff.2 ⟨_, field_eq_some hseed (word64?_toNat _), ?_⟩
  refine Option.bind_eq_some_iff.2 ⟨_, field_eq_some hdepth rfl, ?_⟩
  exact Option.bind_eq_some_iff.2 ⟨_, field_eq_some hresolution (word32?_toNat _), rfl⟩

/-- The table of a document is read as the definition whose tree it holds. -/
theorem ofTable?_tree (definition : Definition) :
    ofTable? (Node.valueEntries (tree definition)) = some definition := by
  rw [valueEntries_tree]
  unfold ofTable?
  refine Option.bind_eq_some_iff.2 ⟨_, field_eq_some rfl (grammar?_table _), ?_⟩
  exact Option.bind_eq_some_iff.2 ⟨_, field_eq_some rfl (turtle?_fields _), rfl⟩

/-! ## Saving and loading -/

/-- A definition survives being saved and loaded: what is written of it is read as that
definition. Its turtle must be valid, none of its rules may have a probability that is not a
number, and its seeds must be numbers that a document can hold. -/
theorem read_write (definition : Definition) (hvalid : definition.validate = .ok ())
    (hprobability : ∀ rule ∈ definition.grammar.rules, rule.probability.isNaN = false)
    (hseed : definition.grammar.seed.toNat ≤ 2 ^ 63 - 1)
    (hjitter : definition.turtle.jitterSeed.toNat ≤ 2 ^ 63 - 1) :
    ∃ text, definition.write = .ok text ∧ read text = .ok definition := by
  have hgreatest : greatestWhole = 2 ^ 63 - 1 := by decide
  let lines := grammarLines definition.grammar ++ turtleLines definition.turtle
  have hplain : ∀ statement ∈ lines, statement.Plain :=
    List.forall_mem_append.2
      ⟨plain_grammarLines hseed hprobability, plain_turtleLines hvalid hjitter⟩
  have hdocument : Toml.read? (Toml.write lines) = some (Node.valueEntries (tree definition)) := by
    unfold Toml.read?
    refine Option.bind_eq_some_iff.2 ⟨lines, Toml.statements?_write hplain, ?_⟩
    exact Option.bind_eq_some_iff.2 ⟨tree definition, build_lines definition, rfl⟩
  refine ⟨Toml.write lines, ?_, ?_⟩
  · rw [write, hgreatest, if_pos ⟨hseed, hjitter⟩]
  · simp only [read, hdocument, ofTable?_tree, pure_bind, hvalid]
    rfl

/-- A definition with texts that need both kinds of quotes and escapes, with probabilities that no
rule may have, with seeds at the limit, and with some of the angles. -/
def awkward : Definition where
  grammar := {
    start := "'''\"\n\t\\\u0001é#"
    rules := [⟨"F:=[+F]", 1.0 / 0.0⟩, ⟨"", -0.0⟩, ⟨"\r'=", -3.0e-320⟩]
    iterations := 4294967295
    seed := 9223372036854775807 }
  turtle := {
    baseLength := 1.7976931348623157e308
    angle := 0.1
    pitch? := some (-1.0e23)
    jitterSeed := 9223372036854775807
    bevelResolution := 32 }

theorem read_write_awkward :
    awkward.validate = .ok () ∧
      (∀ rule ∈ awkward.grammar.rules, rule.probability.isNaN = false) ∧
      awkward.grammar.seed.toNat = 2 ^ 63 - 1 ∧ awkward.turtle.jitterSeed.toNat = 2 ^ 63 - 1 ∧
      ∃ text, awkward.write = .ok text ∧ read text = .ok awkward := by
  have hsome : awkward.validate.toOption = some () := by decide +kernel
  have hvalid : awkward.validate = .ok () := toOption_eq_some_iff.1 hsome
  have hprobability : ∀ rule ∈ awkward.grammar.rules, rule.probability.isNaN = false := by
    decide +kernel
  have hseed : awkward.grammar.seed.toNat = 2 ^ 63 - 1 := by decide
  have hjitter : awkward.turtle.jitterSeed.toNat = 2 ^ 63 - 1 := by decide
  exact ⟨hvalid, hprobability, hseed, hjitter,
    read_write awkward hvalid hprobability hseed.le hjitter.le⟩

end Definition

end Lindenmayer
