import Lindenmayer.Expander
import Lindenmayer.Proofs.Rule.Faults
import Mathlib.Data.List.FinRange
import Mathlib.Logic.Equiv.Basic

/-!
# Reordering entries

Entries may change places as long as those for one symbol keep their order (`Reordering`):

* the places of the entries for a symbol are then moved to the places of those entries, and in
  order (`Reordering.map_place`);
* so each symbol has the same entries in the same order (`Reordering.filter_eq`), and as many of
  them stand before one of them as before (`Reordering.countP_take_eq`);
* so the table is the same and no fault changes (`RuleSet.compile_reordered`).
-/

namespace Lindenmayer

/-! ## Places -/

section Places

variable {α : Type} {p : α → Bool} {l : List α}

/-- The places of the items with a property, in order. -/
def placesOf (p : α → Bool) (l : List α) : List (Fin l.length) :=
  (List.finRange l.length).filter fun i => p l[i]

theorem mem_placesOf {i : Fin l.length} : i ∈ placesOf p l ↔ p l[i] = true := by
  simp [placesOf]

theorem placesOf_pairwise : (placesOf p l).Pairwise (· < ·) :=
  List.Pairwise.filter _ (List.pairwise_lt_finRange l.length)

theorem map_placesOf (p : α → Bool) (l : List α) :
    (placesOf p l).map (fun i => l[i]) = l.filter p := by
  conv_rhs => rw [← List.map_getElem_finRange l]
  rw [List.filter_map]
  rfl

theorem take_finRange (n i : Nat) :
    (List.finRange n).take i = (List.finRange n).filter fun j => j.val < i := by
  induction n generalizing i with
  | zero => simp
  | succ n ih =>
      rw [List.finRange_succ]
      cases i with
      | zero => simp
      | succ i =>
          rw [List.take_succ_cons, List.filter_cons_of_pos (by simp), ← List.map_take, ih,
            List.filter_map]
          simp [Function.comp_def]

theorem countP_take (p : α → Bool) (l : List α) (i : Nat) :
    (l.take i).countP p = (placesOf p l).countP fun j => j.val < i := by
  have htake : l.take i =
      ((List.finRange l.length).filter fun j => j.val < i).map fun j => l[j] := by
    rw [← take_finRange, List.map_take]
    exact congrArg (List.take i) (List.map_getElem_finRange l).symm
  rw [htake, List.countP_map, List.countP_filter, placesOf, List.countP_filter]
  apply List.countP_congr
  intro j _
  simp [and_comm]

end Places

/-! ## Entries of one symbol -/

/-- The symbol that the entry is a rule for, if it can be read. -/
def RuleEntry.symbol? (alphabet : Alphabet) (entry : RuleEntry) : Option Char :=
  (entry.rule? alphabet).map Rule.left

/-- The entry can be read as a rule for the symbol. -/
def RuleEntry.isFor (alphabet : Alphabet) (symbol : Char) (entry : RuleEntry) : Bool :=
  entry.symbol? alphabet = some symbol

namespace RuleSet

theorem filter_readable (alphabet : Alphabet) (symbol : Char) (entries : List RuleEntry) :
    (readable alphabet entries).filter (fun rule => rule.left = symbol) =
      readable alphabet (entries.filter (RuleEntry.isFor alphabet symbol)) := by
  rw [readable, readable, List.filter_filterMap, List.filterMap_filter]
  congr 1
  funext entry
  unfold RuleEntry.isFor RuleEntry.symbol?
  cases entry.rule? alphabet with
  | none => simp
  | some rule =>
      by_cases hsame : rule.left = symbol
      · simp [hsame]
      · simp [hsame]

theorem countP_readable (alphabet : Alphabet) (symbol : Char) (entries : List RuleEntry) :
    (readable alphabet entries).countP (fun rule => rule.left = symbol) =
      entries.countP (RuleEntry.isFor alphabet symbol) := by
  rw [readable, List.countP_filterMap]
  congr 1
  funext entry
  unfold RuleEntry.isFor RuleEntry.symbol?
  cases entry.rule? alphabet with
  | none => rfl
  | some rule => simp

end RuleSet

/-! ## Reorderings -/

/-- The entries have changed places, but no two entries for one symbol have changed their order.
Entries that cannot be read may have gone anywhere. -/
structure Reordering (alphabet : Alphabet) (entries entries' : List RuleEntry) where
  /-- Where the entry at a place has gone. -/
  place : Fin entries.length ≃ Fin entries'.length
  entry_place : ∀ i, entries'[place i] = entries[i]
  place_lt : ∀ i j, i < j → (entries[i].symbol? alphabet).isSome →
    entries[i].symbol? alphabet = entries[j].symbol? alphabet → place i < place j

namespace Reordering

variable {alphabet : Alphabet} {entries entries' : List RuleEntry} {symbol : Char}

theorem place_lt_iff (reordering : Reordering alphabet entries entries')
    {i j : Fin entries.length} (hi : entries[i].isFor alphabet symbol = true)
    (hj : entries[j].isFor alphabet symbol = true) :
    reordering.place i < reordering.place j ↔ i < j := by
  have hi : entries[i].symbol? alphabet = some symbol := of_decide_eq_true hi
  have hj : entries[j].symbol? alphabet = some symbol := of_decide_eq_true hj
  constructor
  · intro hlt
    by_contra hnot
    rcases (Fin.not_lt.1 hnot).lt_or_eq with hji | rfl
    · have hgt := reordering.place_lt j i hji (Option.isSome_iff_exists.2 ⟨symbol, hj⟩)
        (hj.trans hi.symm)
      exact absurd hlt (Fin.lt_asymm hgt)
    · exact Fin.lt_irrefl _ hlt
  · intro hlt
    exact reordering.place_lt i j hlt (Option.isSome_iff_exists.2 ⟨symbol, hi⟩)
      (hi.trans hj.symm)

/-- The places of the entries for a symbol go to the places of those entries, and in order. -/
theorem map_place (reordering : Reordering alphabet entries entries') (symbol : Char) :
    (placesOf (RuleEntry.isFor alphabet symbol) entries).map reordering.place =
      placesOf (RuleEntry.isFor alphabet symbol) entries' := by
  have hnodup : ∀ {l : List RuleEntry}, (placesOf (RuleEntry.isFor alphabet symbol) l).Nodup :=
    (List.nodup_finRange _).filter _
  have hmem : ∀ k, k ∈ (placesOf (RuleEntry.isFor alphabet symbol) entries).map reordering.place ↔
      k ∈ placesOf (RuleEntry.isFor alphabet symbol) entries' := by
    intro k
    obtain ⟨i, rfl⟩ := reordering.place.surjective k
    rw [List.mem_map_of_injective reordering.place.injective, mem_placesOf, mem_placesOf,
      reordering.entry_place]
  have hperm := (List.perm_ext_iff_of_nodup (hnodup.map reordering.place.injective) hnodup).2 hmem
  have hsorted : ((placesOf (RuleEntry.isFor alphabet symbol) entries).map
      reordering.place).Pairwise (· < ·) := by
    rw [List.pairwise_map]
    apply placesOf_pairwise.imp_of_mem
    intro i j hi hj hlt
    exact (reordering.place_lt_iff (mem_placesOf.1 hi) (mem_placesOf.1 hj)).2 hlt
  -- Places in order are the same if they are the same places.
  apply hperm.eq_of_pairwise _ hsorted placesOf_pairwise
  intro i j _ _ hlt hgt
  exact absurd hgt (Fin.lt_asymm hlt)

theorem filter_eq (reordering : Reordering alphabet entries entries') (symbol : Char) :
    entries'.filter (RuleEntry.isFor alphabet symbol) =
      entries.filter (RuleEntry.isFor alphabet symbol) := by
  rw [← map_placesOf, ← map_placesOf, ← reordering.map_place, List.map_map]
  apply List.map_congr_left
  intro i _
  exact reordering.entry_place i

/-- As many entries for its symbol stand before an entry as did before. -/
theorem countP_take_eq (reordering : Reordering alphabet entries entries')
    {i : Fin entries.length} (hi : entries[i].isFor alphabet symbol = true) :
    (entries'.take (reordering.place i)).countP (RuleEntry.isFor alphabet symbol) =
      (entries.take i).countP (RuleEntry.isFor alphabet symbol) := by
  rw [countP_take, countP_take, ← reordering.map_place, List.countP_map]
  apply List.countP_congr
  intro j hj
  have hlt := reordering.place_lt_iff (mem_placesOf.1 hj) hi
  simpa using hlt

end Reordering

namespace RuleSet

variable {alphabet : Alphabet} {entries entries' : List RuleEntry}

theorem readable_collected (reordering : Reordering alphabet entries entries')
    {table : ProductionTable} (h : table.Collects (readable alphabet entries)) :
    table.Collects (readable alphabet entries') := by
  intro symbol
  rw [h symbol, filter_readable, filter_readable, reordering.filter_eq]

theorem fault?_reordered (reordering : Reordering alphabet entries entries')
    (i : Fin entries.length) :
    fault? alphabet (readable alphabet (entries'.take (reordering.place i)))
        entries'[reordering.place i] =
      fault? alphabet (readable alphabet (entries.take i)) entries[i] := by
  rw [reordering.entry_place]
  cases hparse : Rule.parse alphabet entries[i].text entries[i].probability with
  | error error => rw [fault?_of_error hparse, fault?_of_error hparse]
  | ok rule =>
      -- Only entries for the symbol of this one count, and they are where they were around it.
      have hfor : entries[i].isFor alphabet rule.left = true := by
        rw [RuleEntry.isFor, RuleEntry.symbol?, RuleEntry.rule?_of_ok hparse]
        exact decide_eq_true rfl
      rw [fault?_of_ok hparse, fault?_of_ok hparse, countP_readable, countP_readable,
        reordering.countP_take_eq hfor]

/-- Which rules there are for each symbol, and in which order, is all that the order of entries
decides. If they are reordered without touching it, the same table is compiled, every entry meets
the same verdict, and words are expanded as before, whatever the policy, the limits and the
seed. -/
theorem compile_reordered (reordering : Reordering alphabet entries entries') :
    let compiled := (RuleSet.mk alphabet entries.toArray).compile
    let compiled' := (RuleSet.mk alphabet entries'.toArray).compile
    compiled.table = compiled'.table ∧
    (∀ i : Fin entries.length, ∃ report report',
      compiled.reports[i.val]? = some report ∧
      compiled'.reports[(reordering.place i).val]? = some report' ∧
      report.text = entries[i].text ∧ report'.text = entries[i].text ∧
      report'.error? = report.error?) ∧
    ∀ (policy : NoMatchPolicy) (limits : ExpansionLimits) (seed : UInt64) (iterations : Nat)
        (start : Word),
      Expander.expand ⟨compiled.table, policy, limits⟩ iterations start
          { stream := .ofSeed seed } =
        Expander.expand ⟨compiled'.table, policy, limits⟩ iterations start
          { stream := .ofSeed seed } := by
  intro compiled compiled'
  have htable : compiled.table = compiled'.table :=
    (readable_collected reordering (collects_compile ⟨alphabet, entries.toArray⟩)).eq
      (collects_compile ⟨alphabet, entries'.toArray⟩)
  refine ⟨htable, ?_, ?_⟩
  · intro i
    have hreport := reports_compile ⟨alphabet, entries.toArray⟩ i
    have hreport' := reports_compile ⟨alphabet, entries'.toArray⟩ (reordering.place i)
    rw [List.getElem?_eq_getElem i.isLt] at hreport
    rw [List.getElem?_eq_getElem (reordering.place i).isLt] at hreport'
    refine ⟨_, _, hreport, hreport', rfl, ?_, fault?_reordered reordering i⟩
    exact congrArg RuleEntry.text (reordering.entry_place i)
  · intro policy limits seed iterations start
    rw [htable]

/-- Two rules for one symbol keep their order, a rule for another symbol goes before them, and a
misprint goes from between them to the end. -/
def aroundMisprint :
    Reordering .strict [⟨"F:=FF", 0.5⟩, ⟨"F:", 1.0⟩, ⟨"X:=F", 1.0⟩, ⟨"F:=X", 0.25⟩]
      [⟨"X:=F", 1.0⟩, ⟨"F:=FF", 0.5⟩, ⟨"F:=X", 0.25⟩, ⟨"F:", 1.0⟩] where
  place :=
    { toFun := fun i => match i with | 0 => 1 | 1 => 3 | 2 => 0 | 3 => 2
      invFun := fun i => match i with | 0 => 2 | 1 => 0 | 2 => 3 | 3 => 1
      left_inv := fun i => match i with | 0 => rfl | 1 => rfl | 2 => rfl | 3 => rfl
      right_inv := fun i => match i with | 0 => rfl | 1 => rfl | 2 => rfl | 3 => rfl }
  entry_place i := match i with | 0 => rfl | 1 => rfl | 2 => rfl | 3 => rfl
  place_lt := by decide +kernel

/-- The misprint is refused in its old place and for the same error in its new one. -/
theorem compile_reordered_around_misprint :
    let compiled := (RuleSet.mk .strict
      #[⟨"F:=FF", 0.5⟩, ⟨"F:", 1.0⟩, ⟨"X:=F", 1.0⟩, ⟨"F:=X", 0.25⟩]).compile
    let compiled' := (RuleSet.mk .strict
      #[⟨"X:=F", 1.0⟩, ⟨"F:=FF", 0.5⟩, ⟨"F:=X", 0.25⟩, ⟨"F:", 1.0⟩]).compile
    compiled'.table = compiled.table ∧ compiled.table.symbols = ['F', 'X'] ∧
    ∃ report report' : RuleReport, compiled.reports[1]? = some report ∧
      compiled'.reports[3]? = some report' ∧ report.isValid = false ∧
      report'.error? = report.error? := by
  intro compiled compiled'
  obtain ⟨htable, hreports, -⟩ := compile_reordered aroundMisprint
  obtain ⟨report, report', hreport, hreport', -, -, herror⟩ := hreports 1
  have hrefused : compiled.reports[1]?.map RuleReport.isValid = some false := by decide +kernel
  have hsymbols : compiled.table.symbols = ['F', 'X'] := by decide +kernel
  have hinvalid : report.isValid = false := by
    rw [show compiled.reports[1]? = some report from hreport] at hrefused
    exact Option.some.inj hrefused
  exact ⟨htable.symm, hsymbols, report, report', hreport, hreport', hinvalid, herror⟩

end RuleSet

end Lindenmayer
