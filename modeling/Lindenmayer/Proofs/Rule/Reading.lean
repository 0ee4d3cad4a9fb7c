import Lindenmayer.Proofs.Outcome
import Lindenmayer.Proofs.Rule.Grammar
import Lindenmayer.Proofs.Token.Lookahead
import Lindenmayer.Rule.Text

/-!
# Moving through a rule text

The pieces that the run of a reader is put together from: one token
(`RuleReader.passes_of_advance`, `passes_of_advancePast`), one branch (`reads_of_branch`), and
the three ways in which a body goes on (`bodyEnd_of_isPlain`, `bodyEnd_of_push`,
`bodyEnd_of_other`). What has been moved past is kept as a word (`RuleReader.Passes`), and
for bodies with the counts of their branches (`RuleReader.Reads`). Branches and rules are cut
where their bodies end (`readBranch_map`, `readRule_of_isSymbol`).
-/

namespace Lindenmayer

namespace RuleReader

/-- What the reader has before it. -/
def ahead (reader : RuleReader) : Lexed := reader.cursor.ahead

/-- The counts of branches are in order: those open were counted, and are not too many. -/
structure Counted (reader : RuleReader) : Prop where
  depth_le_deepest : reader.depth ≤ reader.deepest
  depth_le : reader.depth ≤ Limits.branchDepth

/-- From `reader` to `after` a word has been moved past. -/
structure Passes (reader : RuleReader) (word : List Token) (after : RuleReader) : Prop where
  consumed : after.cursor.consumed = reader.cursor.consumed ++ word
  values : reader.ahead.values = word ++ after.ahead.values
  ending : after.ahead.ending = reader.ahead.ending

/-- From `reader` to `after` a body has been moved past, and its branches counted. -/
structure Reads (reader : RuleReader) (word : List Token) (nesting : Nat)
    (after : RuleReader) : Prop extends reader.Passes word after where
  body : Body word nesting
  depth : after.depth = reader.depth
  deepest : after.deepest = max reader.deepest (reader.depth + nesting)
  bounded : reader.depth + nesting ≤ Limits.branchDepth

section

variable {reader middle after : RuleReader} {u v : List Token} {m n : Nat}

theorem Passes.trans (first : reader.Passes u middle) (second : middle.Passes v after) :
    reader.Passes (u ++ v) after where
  consumed := by rw [second.consumed, first.consumed, List.append_assoc]
  values := by rw [first.values, second.values, List.append_assoc]
  ending := second.ending.trans first.ending

theorem Reads.refl (counted : reader.Counted) : reader.Reads [] 0 reader where
  consumed := (List.append_nil _).symm
  values := rfl
  ending := rfl
  body := .empty
  depth := rfl
  deepest := (Nat.max_eq_left counted.depth_le_deepest).symm
  bounded := counted.depth_le

theorem Reads.trans (first : reader.Reads u m middle) (second : middle.Reads v n after) :
    reader.Reads (u ++ v) (max m n) after where
  toPasses := first.toPasses.trans second.toPasses
  body := first.body.append second.body
  depth := second.depth.trans first.depth
  deepest := by
    rw [second.deepest, first.deepest, first.depth]
    omega
  bounded := by
    have hfirst := first.bounded
    have hsecond := second.bounded
    rw [first.depth] at hsecond
    omega

theorem Reads.counted (reads : reader.Reads u m after) : after.Counted where
  depth_le_deepest := by
    rw [reads.depth, reads.deepest]
    omega
  depth_le := by
    have := reads.bounded
    rw [reads.depth]
    omega

end

/-! ## Moving past one token -/

section

variable {reader : RuleReader}

/-- What is ahead starts with the current token. -/
theorem current_of_values {t : Token} {rest : List Token}
    (h : reader.ahead.values = t :: rest) :
    reader.current.value = t ∧ reader.cursor.atEnd = false := by
  cases ended : reader.cursor.atEnd with
  | true => simp [ahead, Cursor.ahead, ended, Lexed.values] at h
  | false =>
      simp only [ahead, Cursor.ahead_of_inside ended, Lexed.values, List.map_cons,
        List.cons.injEq] at h
      exact ⟨h.1, rfl⟩

/-- A symbol or a direction mark is not the end of a text. -/
theorem atEnd_eq_false_of_isPlain (plain : reader.current.value.isPlain = true) :
    reader.cursor.atEnd = false := by
  refine atEnd_eq_false rfl fun same => ?_
  rw [same] at plain
  cases plain

/-- Nothing is ahead at the end only. -/
theorem current_of_values_nil (h : reader.ahead.values = []) :
    reader.current.value = .finish := by
  cases ended : reader.cursor.atEnd with
  | true => simpa [Cursor.atEnd, current] using ended
  | false => simp [ahead, Cursor.ahead_of_inside ended, Lexed.values] at h

/-- At the end nothing is ahead, and the text is complete. -/
theorem ahead_of_finish (h : reader.current.value = .finish) :
    reader.ahead = ⟨[], .complete reader.current.span.first⟩ := by
  have ended : reader.cursor.atEnd = true := by simpa [Cursor.atEnd, current] using h
  simp [ahead, Cursor.ahead, ended, current]

/-- A cursor that moves on passes its current token. -/
theorem passes_of_cursor {t : Spanned Token} {cursor : Cursor}
    (inside : reader.cursor.atEnd = false) (h : reader.cursor.advance = (.ok t, cursor)) :
    t = reader.current ∧ reader.Passes [t.value] { reader with cursor } := by
  obtain ⟨hcurrent, hpassed, hahead⟩ := Cursor.ahead_of_advance inside h
  refine ⟨hcurrent, ?_, ?_, ?_⟩
  · simp [Cursor.consumed, hpassed]
  · simp [ahead, hahead, Lexed.values]
  · simp [ahead, hahead]

theorem passes_of_advance {inside : reader.cursor.atEnd = false} {t : Spanned Token}
    {moved : reader.Beyond} (h : reader.advance inside = .ok (t, moved)) :
    t = reader.current ∧ reader.Passes [t.value] moved.1 ∧
      moved.1.depth = reader.depth ∧ moved.1.deepest = reader.deepest := by
  unfold advance at h
  split at h <;> cases h
  next cursor hadvance =>
  obtain ⟨hcurrent, hpasses⟩ := passes_of_cursor inside hadvance
  exact ⟨hcurrent, hpasses, rfl, rfl⟩

/-- Before the end of a complete text the reader can move on. -/
theorem exists_advance (inside : reader.cursor.atEnd = false) {position : Position}
    (complete : reader.ahead.ending = .complete position) :
    ∃ t moved, reader.advance inside = .ok (t, moved) := by
  obtain ⟨t, cursor, hadvance⟩ := Cursor.exists_advance complete
  unfold advance
  split
  · exact ⟨_, _, rfl⟩
  · next hfail =>
    rw [hadvance] at hfail
    cases hfail

/-- The reader stays before a token of another kind. -/
theorem advancePast_of_other {t : Token} (hkind : reader.current.value.sameKind t = false) :
    reader.advancePast t = .ok (false, ⟨reader, Nat.le_refl _⟩) := by
  have hcheck : reader.cursor.check t = false := hkind
  have hpast : reader.cursor.advancePast t = (.ok false, reader.cursor) := by
    simp [Cursor.advancePast, hcheck]
  unfold advancePast
  split
  · next hresult =>
    rw [hpast] at hresult
    cases hresult
    rfl
  · next hresult =>
    rw [hpast] at hresult
    cases hresult

/-- Before a token of the right kind, moving past it is moving on. -/
theorem advancePast_of_sameKind {t : Token} (hkind : reader.current.value.sameKind t = true)
    (inside : reader.cursor.atEnd = false) :
    reader.advancePast t = (do
      let (_, moved) ← reader.advance inside
      return (true, ⟨moved.1, Nat.le_of_lt moved.2⟩)) := by
  have hcheck : reader.cursor.check t = true := hkind
  have hpast : reader.cursor.advancePast t =
      (reader.cursor.advance.1.map fun _ => true, reader.cursor.advance.2) := by
    simp [Cursor.advancePast, hcheck]
  unfold advancePast advance
  -- both sides move the same cursor, which either moves on or meets an error
  split
  all_goals
    next hresult =>
    rw [hpast] at hresult
    split
    all_goals
      next hmoved =>
      rw [hmoved] at hresult
      cases hresult
      try rfl

/-- A token of the kind of one that is not the end is not the end. -/
theorem atEnd_eq_false_of_sameKind {t : Token} (ht : Token.sameKind .finish t = false)
    (hkind : reader.current.value.sameKind t = true) : reader.cursor.atEnd = false := by
  refine atEnd_eq_false rfl fun same => ?_
  rw [same, ht] at hkind
  cases hkind

/-- Moving past a token of some kind passes a token of that kind. -/
theorem passes_of_advancePast {t : Token} (ht : Token.sameKind .finish t = false)
    {moved : reader.Onward} (h : reader.advancePast t = .ok (true, moved)) :
    reader.current.value.sameKind t = true ∧ reader.Passes [reader.current.value] moved.1 ∧
      moved.1.depth = reader.depth ∧ moved.1.deepest = reader.deepest := by
  cases hkind : reader.current.value.sameKind t with
  | false =>
      rw [advancePast_of_other hkind] at h
      cases h
  | true =>
      rw [advancePast_of_sameKind hkind (atEnd_eq_false_of_sameKind ht hkind)] at h
      obtain ⟨⟨current, beyond⟩, hadvance, h⟩ := bind_eq_ok_iff.1 h
      cases h
      obtain ⟨hcurrent, hpasses, hcounts⟩ := passes_of_advance hadvance
      rw [hcurrent] at hpasses
      exact ⟨rfl, hpasses, hcounts⟩

/-- Before the end of a complete text the reader moves past a token of the right kind. -/
theorem exists_advancePast {t : Token} (ht : Token.sameKind .finish t = false)
    (hkind : reader.current.value.sameKind t = true)
    {position : Position} (complete : reader.ahead.ending = .complete position) :
    ∃ moved, reader.advancePast t = .ok (true, moved) := by
  have inside := atEnd_eq_false_of_sameKind ht hkind
  obtain ⟨current, moved, hadvance⟩ := exists_advance inside complete
  rw [advancePast_of_sameKind hkind inside, hadvance]
  exact ⟨_, rfl⟩

end

/-! ## Moving past a body -/

section

variable {reader : RuleReader}

/-- A symbol or a direction mark is read as a body of its own. -/
theorem reads_of_advance (counted : reader.Counted) {inside : reader.cursor.atEnd = false}
    {t : Spanned Token} {moved : reader.Beyond} (plain : reader.current.value.isPlain = true)
    (h : reader.advance inside = .ok (t, moved)) :
    reader.Reads [reader.current.value] 0 moved.1 := by
  obtain ⟨hcurrent, hpasses, hdepth, hdeepest⟩ := passes_of_advance h
  rw [hcurrent] at hpasses
  refine ⟨hpasses, .of_isPlain plain, hdepth, ?_, counted.depth_le⟩
  rw [hdeepest]
  exact (Nat.max_eq_left counted.depth_le_deepest).symm

/-- Where there is room for a branch, the counts stay in order inside it. -/
theorem counted_enter (room : reader.depth < Limits.branchDepth) : reader.enter.Counted where
  depth_le_deepest := Nat.le_max_right _ _
  depth_le := room

/-- An opening bracket, a body and a closing bracket are read as a branch. -/
theorem reads_of_branch {inside : reader.cursor.atEnd = false} {opening : Spanned Token}
    {inner : reader.Beyond} {word : List Token} {n : Nat} {last : RuleReader}
    {closed : last.leave.Onward} (hpush : reader.current.value = .push)
    (hopen : reader.advance inside = .ok (opening, inner))
    (hbody : inner.1.enter.Reads word n last)
    (hclose : last.leave.advancePast .pop = .ok (true, closed)) :
    reader.Reads (.push :: word ++ [.pop]) (n + 1) closed.1 := by
  obtain ⟨hcurrent, hopened, hdepth, hdeepest⟩ := passes_of_advance hopen
  obtain ⟨hkind, hclosed, hdepth', hdeepest'⟩ := passes_of_advancePast rfl hclose
  have hpop := Token.sameKind_pop.1 hkind
  rw [hcurrent, hpush] at hopened
  rw [hpop] at hclosed
  have hinner : inner.1.Passes word last.leave :=
    ⟨hbody.consumed, hbody.values, hbody.ending⟩
  have hlast : last.depth = inner.1.depth + 1 := hbody.depth
  have hmost : last.deepest = max (max inner.1.deepest (inner.1.depth + 1))
      (inner.1.depth + 1 + n) := hbody.deepest
  have hroom : inner.1.depth + 1 + n ≤ Limits.branchDepth := hbody.bounded
  refine ⟨(hopened.trans hinner).trans hclosed, ?_, ?_, ?_, ?_⟩
  · simpa using Body.branch hbody.body .empty
  · rw [hdepth']
    show last.depth - 1 = reader.depth
    omega
  · rw [hdeepest']
    show last.deepest = _
    omega
  · omega

/-- A branch that was read: its brackets, the room for it, and the body between them. -/
theorem readBranch_eq_ok {hpush : reader.current.value = .push} {closed : reader.Beyond}
    (h : reader.readBranch hpush = .ok closed) :
    ∃ (opening : Spanned Token) (inner : reader.Beyond) (last : inner.1.enter.Onward)
      (after : last.1.leave.Onward),
      reader.advance (atEnd_eq_false hpush nofun) = .ok (opening, inner) ∧
        inner.1.depth < Limits.branchDepth ∧ inner.1.enter.readBody = .ok last ∧
        last.1.leave.advancePast .pop = .ok (true, after) ∧ closed.1 = after.1 := by
  rw [readBranch] at h
  obtain ⟨⟨opening, inner⟩, hopen, h⟩ := bind_eq_ok_iff.1 h
  refine ⟨opening, inner, ?_⟩
  dsimp only at h
  split at h
  · cases h
  · next room =>
    obtain ⟨last, hbody, h⟩ := bind_eq_ok_iff.1 h
    obtain ⟨⟨past, after⟩, hclose, h⟩ := bind_eq_ok_iff.1 h
    cases past with
    | true =>
        cases h
        exact ⟨last, after, hopen, Nat.lt_of_not_le room, hbody, hclose, rfl⟩
    | false =>
        simp only [Bool.false_eq_true, if_false] at h
        split at h <;> cases h

/-- A branch for which there is room is read if its body is and a closing bracket follows. -/
theorem readBranch_of_body {hpush : reader.current.value = .push} {opening : Spanned Token}
    {inner : reader.Beyond} {last : inner.1.enter.Onward} {after : last.1.leave.Onward}
    (hopen : reader.advance (atEnd_eq_false hpush nofun) = .ok (opening, inner))
    (room : inner.1.depth < Limits.branchDepth) (hbody : inner.1.enter.readBody = .ok last)
    (hclose : last.1.leave.advancePast .pop = .ok (true, after)) :
    ∃ closed, reader.readBranch hpush = .ok closed ∧ closed.1 = after.1 := by
  rw [readBranch, hopen]
  simp only [Except.bind, bind, ge_iff_le, Nat.not_le.mpr room, if_false, hbody, hclose,
    if_true]
  exact ⟨_, rfl, rfl⟩

/-- From `reader` a body is read that ends at `after`. -/
def Ends (reader after : RuleReader) : Prop := ∃ onward, reader.readBody = .ok ⟨after, onward⟩

/-- Where the body ends that the reader stands before. -/
def bodyEnd (reader : RuleReader) : Except RuleError RuleReader :=
  reader.readBody.map Subtype.val

theorem ends_iff {after : RuleReader} : reader.Ends after ↔ reader.bodyEnd = .ok after := by
  unfold Ends bodyEnd
  cases reader.readBody with
  | error error => simp [Except.map]
  | ok last =>
      constructor
      · rintro ⟨onward, h⟩
        cases h
        rfl
      · intro h
        cases h
        exact ⟨last.2, rfl⟩

/-- A symbol or a direction mark is moved past. -/
theorem bodyEnd_of_isPlain (plain : reader.current.value.isPlain = true)
    (inside : reader.cursor.atEnd = false) :
    reader.bodyEnd = (do
      let (_, moved) ← reader.advance inside
      moved.1.bodyEnd) := by
  unfold bodyEnd
  rw [readBody]
  split
  case h_1 | h_2 =>
    cases reader.advance inside with
    | error error => rfl
    | ok moved =>
        show Except.map _ (moved.2.1.readBody >>= _) = Except.map _ moved.2.1.readBody
        cases moved.2.1.readBody <;> rfl
  all_goals
    next hother =>
    rw [hother] at plain
    cases plain

/-- A branch is read, and then what follows it. -/
theorem bodyEnd_of_push (hpush : reader.current.value = .push) :
    reader.bodyEnd = (do
      let closed ← reader.readBranch hpush
      closed.1.bodyEnd) := by
  unfold bodyEnd
  rw [readBody]
  split
  case h_3 =>
    cases reader.readBranch hpush with
    | error error => rfl
    | ok closed =>
        show Except.map _ (closed.1.readBody >>= _) = Except.map _ closed.1.readBody
        cases closed.1.readBody <;> rfl
  all_goals
    next hother =>
    rw [hother] at hpush
    cases hpush

/-- Any other token ends the body. -/
theorem bodyEnd_of_other (plain : reader.current.value.isPlain = false)
    (hpush : reader.current.value ≠ .push) : reader.bodyEnd = .ok reader := by
  unfold bodyEnd
  rw [readBody]
  split
  case h_1 | h_2 =>
    next hother =>
    rw [hother] at plain
    cases plain
  case h_3 =>
    next hother => exact absurd hother hpush
  all_goals rfl

section

variable {after : RuleReader}

theorem ends_iff_of_isPlain (plain : reader.current.value.isPlain = true)
    (inside : reader.cursor.atEnd = false) :
    reader.Ends after ↔
      ∃ t moved, reader.advance inside = .ok (t, moved) ∧ moved.1.Ends after := by
  simp only [ends_iff, bodyEnd_of_isPlain plain inside, bind_eq_ok_iff, Prod.exists]

theorem ends_iff_of_push (hpush : reader.current.value = .push) :
    reader.Ends after ↔
      ∃ closed, reader.readBranch hpush = .ok closed ∧ closed.1.Ends after := by
  simp only [ends_iff, bodyEnd_of_push hpush, bind_eq_ok_iff]

theorem ends_iff_of_other (plain : reader.current.value.isPlain = false)
    (hpush : reader.current.value ≠ .push) : reader.Ends after ↔ after = reader := by
  rw [ends_iff, bodyEnd_of_other plain hpush, Except.ok.injEq, eq_comm]

end

/-- The current token has no place in a body that goes on. -/
def Stops (reader : RuleReader) : Prop :=
  reader.current.value.isPlain = false ∧ reader.current.value ≠ .push

theorem Stops.current_cases (stops : reader.Stops) : reader.current.value = .pop ∨
    reader.current.value = .finish ∨ reader.current.value = .assign := by
  obtain ⟨plain, hpush⟩ := stops
  cases hcurrent : reader.current.value with
  | symbol | direction =>
      rw [hcurrent] at plain
      cases plain
  | push => exact absurd hcurrent hpush
  | pop => exact .inl rfl
  | finish => exact .inr (.inl rfl)
  | assign => exact .inr (.inr rfl)

/-- A body ends before the first token that has no place in it. -/
theorem stops_of_ends {reader after : RuleReader} (h : reader.Ends after) : after.Stops := by
  cases plain : reader.current.value.isPlain with
  | true =>
      have inside := atEnd_eq_false_of_isPlain plain
      obtain ⟨_, moved, _, hrest⟩ := (ends_iff_of_isPlain plain inside).1 h
      exact stops_of_ends hrest
  | false =>
      by_cases hpush : reader.current.value = .push
      · obtain ⟨closed, _, hrest⟩ := (ends_iff_of_push hpush).1 h
        exact stops_of_ends hrest
      · rw [(ends_iff_of_other plain hpush).1 h]
        exact ⟨plain, hpush⟩
termination_by reader.left
decreasing_by
  · exact closed.2
  · exact moved.2

end

/-! ## What is left to do -/

section

variable {reader : RuleReader}

/-- What is left to do for a branch whose body has been read: move past its closing bracket,
or say why there is none. -/
def closeBranch (reader : RuleReader) (opening : Span) : Except RuleError RuleReader := do
  let (closed, after) ← reader.advancePast .pop
  if closed then return after.1
  match after.1.current.value with
  | .finish => throw (.unclosedBranch opening)
  | found => throw (.unexpectedToken .closingBracket found after.1.current.span)

/-- A branch as its opening bracket, its body and its closing bracket. -/
theorem readBranch_map (hpush : reader.current.value = .push) :
    (reader.readBranch hpush).map Subtype.val = (do
      let (opening, inner) ← reader.advance (atEnd_eq_false hpush nofun)
      if inner.1.depth ≥ Limits.branchDepth then throw (.tooDeep opening.span)
      let last ← inner.1.enter.bodyEnd
      last.leave.closeBranch opening.span) := by
  rw [readBranch]
  cases reader.advance (atEnd_eq_false hpush nofun) with
  | error error => rfl
  | ok result =>
      obtain ⟨opening, inner⟩ := result
      simp only [ok_bind]
      split
      · rfl
      · unfold bodyEnd
        cases inner.1.enter.readBody with
        | error error => rfl
        | ok last =>
            simp only [Except.map, ok_bind, closeBranch]
            cases last.1.leave.advancePast .pop with
            | error error => rfl
            | ok result =>
                obtain ⟨closed, after⟩ := result
                cases closed with
                | true => rfl
                | false =>
                    simp only [ok_bind, Bool.false_eq_true, if_false]
                    cases after.1.current.value <;> rfl

/-- What is left to do for a rule whose body has been read. -/
def closeRule (reader : RuleReader) : Except RuleError RuleText :=
  match reader.current.value with
  | .finish => .ok ⟨reader.cursor.consumed, reader.deepest⟩
  | .pop => .error (.unmatchedClose reader.current.span)
  | found => .error (.unexpectedToken .endOfRule found reader.current.span)

/-- What is left to do for a rule whose symbol has been read. -/
def readDefinition (reader : RuleReader) : Except RuleError RuleText := do
  let (assigned, after) ← reader.advancePast .assign
  unless assigned do
    throw (.missingAssignment after.1.current.value after.1.current.span)
  let last ← after.1.bodyEnd
  last.closeRule

/-- A rule is its symbol and what is left to do behind it. -/
theorem readRule_of_isSymbol (hsymbol : reader.current.value.isSymbol = true) :
    reader.readRule = (do
      let (_, first) ← reader.advance (atEnd_eq_false_of_isSymbol hsymbol)
      first.1.readDefinition) := by
  rw [readRule, dif_pos hsymbol]
  cases reader.advance (atEnd_eq_false_of_isSymbol hsymbol) with
  | error error => rfl
  | ok result =>
      obtain ⟨t, first⟩ := result
      simp only [ok_bind, readDefinition]
      cases first.1.advancePast .assign with
      | error error => rfl
      | ok result =>
          obtain ⟨assigned, after⟩ := result
          cases assigned with
          | false => rfl
          | true =>
              simp only [ok_bind, if_true, bodyEnd]
              cases after.1.readBody <;> rfl

end

end RuleReader

end Lindenmayer
