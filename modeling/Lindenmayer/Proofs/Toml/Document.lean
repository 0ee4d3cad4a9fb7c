import Lindenmayer.Proofs.Toml.Number
import Lindenmayer.Proofs.Toml.Quoted
import Lindenmayer.Toml.Document

/-!
# Documents read back

Statements are read as they were written, line by line (`statements?_write`): headers and entries
under any keys, whose values are texts, integers of sixty-four bits, doubles other than NaN, truth
values or empty arrays (`Value.Plain`).
-/

namespace Lindenmayer.Toml

/-! ## Keys -/

theorem skipSpaces_of_head {cs : List Char} (h : ∀ c ∈ cs.head?, isSpace c = false) :
    skipSpaces cs = cs := by
  cases cs with
  | nil => rfl
  | cons c cs => simp [skipSpaces, h c rfl]

theorem not_isSpace_of_isBare {c : Char} (h : isBare c = true) :
    isSpace c = false ∧ c ≠ '"' ∧ c ≠ '\'' := by
  refine ⟨?_, ?_, ?_⟩
  · rw [isSpace, Bool.or_eq_false_iff, decide_eq_false_iff_not, decide_eq_false_iff_not]
    constructor <;> rintro rfl <;> cases h
  · rintro rfl
    cases h
  · rintro rfl
    cases h

/-- The text starts with a character of a word or with a quotation mark. -/
def StartsKey (cs : List Char) : Prop := ∃ c ∈ cs.head?, isBare c = true ∨ c = '"'

theorem StartsKey.skipSpaces_eq {cs : List Char} (h : StartsKey cs) : skipSpaces cs = cs := by
  obtain ⟨c, hc, hcases⟩ := h
  refine skipSpaces_of_head fun d hd => ?_
  obtain rfl : c = d := Option.mem_unique hc hd
  rcases hcases with hbare | rfl
  · exact (not_isSpace_of_isBare hbare).1
  · rfl

theorem StartsKey.ne {cs : List Char} (h : StartsKey cs) {c : Char} (hbare : isBare c = false)
    (hquote : c ≠ '"') : c ∉ cs.head? := by
  obtain ⟨d, hd, hcases⟩ := h
  intro hmem
  obtain rfl : d = c := Option.mem_unique hd hmem
  rcases hcases with hbare' | rfl
  · rw [hbare] at hbare'
    cases hbare'
  · exact hquote rfl

theorem startsKey_keyText (key : String) (rest : List Char) :
    StartsKey (keyText key ++ rest) := by
  unfold keyText
  simp only
  split
  · exact ⟨'"', rfl, .inr rfl⟩
  · next hbare =>
    rw [Bool.not_eq_true, Bool.or_eq_false_iff, Bool.not_eq_false', List.all_eq_true,
      List.isEmpty_eq_false_iff] at hbare
    obtain ⟨c, cs, hcs⟩ := List.exists_cons_of_ne_nil hbare.1
    rw [hcs]
    exact ⟨c, rfl, .inl (hbare.2 c (hcs ▸ List.mem_cons_self))⟩

theorem takeWhile_append_of_head {p : Char → Bool} {front rest : List Char}
    (hfront : ∀ c ∈ front, p c = true) (hrest : ∀ c ∈ rest.head?, p c = false) :
    (front ++ rest).takeWhile p = front ∧ (front ++ rest).dropWhile p = rest := by
  rw [List.takeWhile_append_of_pos hfront, List.dropWhile_append_of_pos hfront]
  cases rest with
  | nil => simp
  | cons c rest => simp [hrest c rfl]

/-- A key is read as it was written. -/
theorem readKey?_keyText (key : String) {rest : List Char}
    (hrest : ∀ c ∈ rest.head?, isBare c = false ∧ c ≠ '"') :
    readKey? (keyText key ++ rest) = some (key, rest) := by
  unfold keyText
  simp only
  split
  · have hquote : '"' ∉ rest.head? := fun h => (hrest _ h).2 rfl
    show (readLine? (quoteIn .basic key.toList ++ rest)).map _ = _
    rw [readLine?_quoteIn key.toList hquote]
    simp
  · next hbare =>
    rw [Bool.not_eq_true, Bool.or_eq_false_iff, Bool.not_eq_false', List.all_eq_true,
      List.isEmpty_eq_false_iff] at hbare
    obtain ⟨hne, hall⟩ := hbare
    obtain ⟨htake, hdrop⟩ := takeWhile_append_of_head hall fun c hc => (hrest c hc).1
    obtain ⟨c, cs, hcs⟩ := List.exists_cons_of_ne_nil hne
    obtain ⟨-, hdouble, hsingle⟩ := not_isSpace_of_isBare (hall c (hcs ▸ List.mem_cons_self))
    unfold readKey?
    split
    · next heq =>
      rw [hcs] at heq
      exact absurd (List.cons.inj heq).1 hdouble
    · next heq =>
      rw [hcs] at heq
      exact absurd (List.cons.inj heq).1 hsingle
    · simp [htake, hdrop, hne]

/-! ## Paths -/

theorem Path.text_cons (key : String) (outer : List String) (last : String) :
    Path.text ⟨key :: outer, last⟩ = keyText key ++ '.' :: Path.text ⟨outer, last⟩ := by
  simp [Path.text]

/-- What may stand behind a path: no character of a key, and no point behind blanks. -/
def EndsPath (rest : List Char) : Prop :=
  (∀ c ∈ rest.head?, isBare c = false ∧ c ≠ '"') ∧ '.' ∉ (skipSpaces rest).head?

/-- A path that is not too long is read as it was written, and blanks behind it are skipped. -/
theorem readKeys?_text {most : Nat} {outer : List String} (last : String)
    (hmost : outer.length < most) {rest : List Char} (hrest : EndsPath rest) :
    readKeys? most (Path.text ⟨outer, last⟩ ++ rest) = some (⟨outer, last⟩, skipSpaces rest) := by
  obtain ⟨hend, hpoint⟩ := hrest
  induction outer generalizing most with
  | nil =>
      obtain ⟨most, rfl⟩ := Nat.exists_eq_succ_of_ne_zero (Nat.ne_of_gt hmost)
      show readKeys? (most + 1) (keyText last ++ rest) = _
      rw [readKeys?, (startsKey_keyText _ _).skipSpaces_eq, readKey?_keyText last hend]
      simp only [Option.bind_eq_bind, Option.bind_some]
      split
      · next heq =>
        rw [heq] at hpoint
        exact absurd rfl hpoint
      · rfl
  | cons key outer ih =>
      obtain ⟨most, rfl⟩ := Nat.exists_eq_succ_of_ne_zero (Nat.ne_of_gt (Nat.zero_lt_of_lt hmost))
      have htail := ih (Nat.lt_of_succ_lt_succ hmost)
      rw [Path.text_cons, List.append_assoc, List.cons_append, readKeys?,
        (startsKey_keyText _ _).skipSpaces_eq, readKey?_keyText key (by simp [isBare])]
      have hskip : skipSpaces ('.' :: (Path.text ⟨outer, last⟩ ++ rest)) =
          '.' :: (Path.text ⟨outer, last⟩ ++ rest) := rfl
      simp only [Option.bind_eq_bind, Option.bind_some, hskip, htail]
      rfl

theorem startsKey_text (path : Path) (rest : List Char) : StartsKey (path.text ++ rest) := by
  obtain ⟨outer, last⟩ := path
  cases outer with
  | nil => exact startsKey_keyText last rest
  | cons key outer =>
      rw [Path.text_cons, List.append_assoc]
      exact startsKey_keyText key _

/-- A path is read up to a blank or a bracket. -/
theorem readPath?_text {path : Path} (h : path.outer.length < nesting) {rest : List Char}
    (hrest : EndsPath rest) :
    readPath? (path.text ++ rest) = some (path, skipSpaces rest) :=
  readKeys?_text path.last h hrest

/-! ## Values -/

/-- A value that stands on one line and is read as it was written. -/
inductive Value.Plain : Value → Prop
  | text (content : String) : Plain (.text content)
  | integer {n : ℤ} (hlow : -2 ^ 63 ≤ n) (hhigh : n < 2 ^ 63) : Plain (.integer n)
  | double {x : Float} (h : x.isNaN = false) : Plain (.double x)
  | boolean (b : Bool) : Plain (.boolean b)
  | empty : Plain (.array [])

theorem StartsNumber.ne {cs : List Char} (h : StartsNumber cs) {c : Char}
    (hc : c ∈ ['t', 'f', '"', '\'', '[', '\x7b', ' ', '\t']) : c ∉ cs.head? := by
  obtain ⟨d, hd, hcases⟩ := h
  intro hmem
  obtain rfl : d = c := Option.mem_unique hd hmem
  simp only [List.mem_cons, List.not_mem_nil, or_false] at hc
  rcases hc with rfl | rfl | rfl | rfl | rfl | rfl | rfl | rfl <;> simp at hcases

theorem StartsNumber.readScalar?_eq {cs : List Char} (h : StartsNumber cs) :
    readScalar? cs = readNumeric? cs := by
  unfold readScalar?
  split
  · exact absurd rfl (h.ne (c := 't') (by simp))
  · exact absurd rfl (h.ne (c := 'f') (by simp))
  · exact absurd rfl (h.ne (c := '"') (by simp))
  · exact absurd rfl (h.ne (c := '\'') (by simp))
  · rfl

theorem readScalar?_quote (cs rest : List Char) (hrest : ∀ c ∈ rest.head?, c ≠ '"' ∧ c ≠ '\'') :
    readScalar? (quote cs ++ rest) = some (.text (String.ofList cs), rest) := by
  have hread := readString?_quote cs hrest
  obtain ⟨mark, back, hcons, hmark⟩ := quote_eq_cons cs rest
  rw [hcons] at hread ⊢
  rcases hmark with rfl | rfl
  · show (readString? ('"' :: back)).map _ = _
    rw [hread]
    rfl
  · show (readString? ('\'' :: back)).map _ = _
    rw [hread]
    rfl

theorem readValue?_scalar (depth : Nat) {cs : List Char} (harray : '[' ∉ cs.head?)
    (htable : '\x7b' ∉ cs.head?) : readValue? depth cs = readScalar? cs := by
  unfold readValue?
  split
  · exact absurd rfl harray
  · exact absurd rfl htable
  · rfl

/-- A text starts with a quotation mark, so with nothing else that a value can start with. -/
theorem head?_quote {cs rest : List Char} {c : Char} (hc : c ≠ '"' ∧ c ≠ '\'') :
    c ∉ (quote cs ++ rest).head? := by
  obtain ⟨mark, back, hcons, hmark⟩ := quote_eq_cons cs rest
  rw [hcons]
  rintro hmem
  cases hmem
  rcases hmark with rfl | rfl
  · exact hc.1 rfl
  · exact hc.2 rfl

/-- A value is read as it was written, at the end of a line. -/
theorem Value.Plain.readValue?_write {value : Value} (h : value.Plain) (rest : List Char) :
    readValue? nesting (value.write ++ '\n' :: rest) = some (value, '\n' :: rest) := by
  cases h with
  | text content =>
      show readValue? nesting (quote content.toList ++ '\n' :: rest) = _
      rw [readValue?_scalar nesting (head?_quote (by decide)) (head?_quote (by decide)),
        readScalar?_quote content.toList _ (by simp), String.ofList_toList]
  | @integer n hlow hhigh =>
      have hstarts := startsNumber_integer n ('\n' :: rest)
      show readValue? nesting ((toString n).toList ++ '\n' :: rest) = _
      rw [readValue?_scalar nesting (hstarts.ne (by simp)) (hstarts.ne (by simp)),
        hstarts.readScalar?_eq, readNumeric?_integer hlow hhigh]
  | @double x hx =>
      have hstarts := startsNumber_double hx ('\n' :: rest)
      show readValue? nesting ((doubleFormat.write x).toList ++ '\n' :: rest) = _
      rw [readValue?_scalar nesting (hstarts.ne (by simp)) (hstarts.ne (by simp)),
        hstarts.readScalar?_eq, readNumeric?_double hx]
  | boolean b => cases b <;> rfl
  | empty =>
      show readValue? (78 + 1) ('[' :: ']' :: '\n' :: rest) = _
      rw [readValue?]
      rfl

/-- No blank stands before a value. -/
theorem Value.Plain.skipSpaces_write {value : Value} (h : value.Plain) (rest : List Char) :
    skipSpaces (value.write ++ rest) = value.write ++ rest := by
  have hof : ∀ {cs : List Char}, ' ' ∉ cs.head? → '\t' ∉ cs.head? → skipSpaces cs = cs := by
    intro cs hspace htab
    refine skipSpaces_of_head fun c hc => ?_
    rw [isSpace, Bool.or_eq_false_iff, decide_eq_false_iff_not, decide_eq_false_iff_not]
    exact ⟨fun heq => hspace (heq ▸ hc), fun heq => htab (heq ▸ hc)⟩
  cases h with
  | text content => exact hof (head?_quote (by decide)) (head?_quote (by decide))
  | @integer n =>
      have hstarts := startsNumber_integer n rest
      exact hof (hstarts.ne (by simp)) (hstarts.ne (by simp))
  | double hx =>
      have hstarts := startsNumber_double hx rest
      exact hof (hstarts.ne (by simp)) (hstarts.ne (by simp))
  | boolean b => cases b <;> rfl
  | empty => rfl

/-! ## Statements -/

/-- A statement that is read as it was written: no path is too long, and no value spreads. -/
def Statement.Plain : Statement → Prop
  | .header path | .element path => path.outer.length < nesting
  | .entry path value => path.outer.length < nesting ∧ value.Plain

/-- A statement is read where a line starts with neither a comment nor its end. -/
theorem readStatements?_of_statement {cs back rest : List Char} {statement : Statement}
    (hskip : skipSpaces cs = cs) (hne : cs ≠ [])
    (hhead : ∀ c ∈ cs.head?, c ≠ '#' ∧ c ≠ '\n' ∧ c ≠ '\r')
    (hread : (∃ tail, cs = '[' :: tail ∧ readHeader? tail = some (statement, back)) ∨
      '[' ∉ cs.head? ∧ readEntry? cs = some (statement, back))
    (hend : readLineEnd? back = some rest) (fuel : ℕ) :
    readStatements? (fuel + 1) cs =
      (readStatements? fuel rest).map fun statements => statement :: statements := by
  rw [readStatements?, hskip]
  split
  · exact absurd rfl hne
  · exact absurd rfl (hhead '#' rfl).1
  · exact absurd rfl (hhead '\n' rfl).2.1
  · exact absurd rfl (hhead '\r' rfl).2.2
  · rcases hread with ⟨tail, rfl, hread⟩ | ⟨hbracket, hread⟩
    · simp [hread, hend, Option.map_eq_bind]
    · simp only
      split
      · exact absurd rfl hbracket
      · simp [hread, hend, Option.map_eq_bind]

theorem endsPath_bracket (rest : List Char) : EndsPath (']' :: rest) :=
  ⟨by simp [isBare], by simp [skipSpaces, isSpace]⟩

theorem endsPath_equals (rest : List Char) : EndsPath (' ' :: '=' :: rest) :=
  ⟨by simp [isBare], by simp [skipSpaces, isSpace]⟩

theorem readHeader?_header {path : Path} (h : path.outer.length < nesting) (rest : List Char) :
    readHeader? (path.text ++ ']' :: rest) = some (.header path, rest) := by
  have hread := readPath?_text h (endsPath_bracket rest)
  unfold readHeader?
  split
  · next heq =>
    have hbracket : '[' ∉ (path.text ++ ']' :: rest).head? :=
      (startsKey_text path (']' :: rest)).ne rfl (by decide)
    exact absurd (by rw [heq]; rfl) hbracket
  · rw [hread]
    rfl

theorem readHeader?_element {path : Path} (h : path.outer.length < nesting) (rest : List Char) :
    readHeader? ('[' :: (path.text ++ ']' :: ']' :: rest)) = some (.element path, rest) := by
  have hread := readPath?_text h (endsPath_bracket (']' :: rest))
  simp only [readHeader?, hread]
  rfl

theorem readEntry?_entry {path : Path} {value : Value} (h : path.outer.length < nesting)
    (hvalue : value.Plain) (rest : List Char) :
    readEntry? (path.text ++ ' ' :: '=' :: ' ' :: (value.write ++ '\n' :: rest)) =
      some (.entry path value, '\n' :: rest) := by
  have hread := readPath?_text h (endsPath_equals (' ' :: (value.write ++ '\n' :: rest)))
  have hassigned : readAssigned? (readValue? nesting)
      ('=' :: ' ' :: (value.write ++ '\n' :: rest)) = some (value, '\n' :: rest) := by
    show readValue? nesting (skipSpaces (value.write ++ '\n' :: rest)) = _
    rw [hvalue.skipSpaces_write, hvalue.readValue?_write]
  unfold readEntry?
  rw [hread]
  show (readAssigned? (readValue? nesting)
      ('=' :: ' ' :: (value.write ++ '\n' :: rest))).bind _ = _
  rw [hassigned]
  rfl

/-- The line of a statement is read as the statement. -/
theorem Statement.Plain.readStatements?_line {statement : Statement} (h : statement.Plain)
    (fuel : ℕ) (rest : List Char) :
    readStatements? (fuel + 1) (statement.line ++ rest) =
      (readStatements? fuel rest).map fun statements => statement :: statements := by
  cases statement with
  | header path =>
      have hline : Statement.line (.header path) ++ rest =
          '[' :: (path.text ++ ']' :: '\n' :: rest) := by
        simp [Statement.line]
      rw [hline]
      exact readStatements?_of_statement rfl (by simp) (by simp)
        (.inl ⟨_, rfl, readHeader?_header h ('\n' :: rest)⟩) rfl fuel
  | element path =>
      have hline : Statement.line (.element path) ++ rest =
          '[' :: '[' :: (path.text ++ ']' :: ']' :: '\n' :: rest) := by
        simp [Statement.line]
      rw [hline]
      exact readStatements?_of_statement rfl (by simp) (by simp)
        (.inl ⟨_, rfl, readHeader?_element h ('\n' :: rest)⟩) rfl fuel
  | entry path value =>
      have hline : Statement.line (.entry path value) ++ rest =
          path.text ++ ' ' :: '=' :: ' ' :: (value.write ++ '\n' :: rest) := by
        simp [Statement.line]
      have hstarts := startsKey_text path (' ' :: '=' :: ' ' :: (value.write ++ '\n' :: rest))
      rw [hline]
      refine readStatements?_of_statement hstarts.skipSpaces_eq (by simp) (fun c hc => ?_)
        (.inr ⟨hstarts.ne rfl (by decide), readEntry?_entry h.1 h.2 rest⟩) rfl fuel
      refine ⟨?_, ?_, ?_⟩ <;> rintro rfl <;> exact hstarts.ne rfl (by decide) hc

/-! ## Whole documents -/

theorem length_line_pos (statement : Statement) : 0 < statement.line.length := by
  cases statement <;> simp [Statement.line]

/-- A line starts with a bracket or as a key does, so not with a byte order mark. -/
theorem head?_line_ne (statement : Statement) (rest : List Char) :
    '\uFEFF' ∉ (statement.line ++ rest).head? := by
  cases statement with
  | header path | element path => simp [Statement.line]
  | entry path value =>
      simp only [Statement.line, List.append_assoc]
      exact (startsKey_text path _).ne rfl (by decide)

/-- Statements behind others are read line by line. -/
theorem readStatements?_writeFurther {statements : List Statement}
    (h : ∀ statement ∈ statements, statement.Plain) {fuel : ℕ}
    (hfuel : (writeFurther statements).length ≤ fuel) :
    readStatements? fuel (writeFurther statements) = some statements := by
  induction statements generalizing fuel with
  | nil => cases fuel <;> rfl
  | cons statement statements ih =>
      have hplain := h statement List.mem_cons_self
      have hrest : ∀ other ∈ statements, other.Plain :=
        fun other hother => h other (List.mem_cons_of_mem _ hother)
      have hline := length_line_pos statement
      have hwrite : writeFurther (statement :: statements) =
          (if statement.isHeader then '\n' :: statement.line else statement.line) ++
            writeFurther statements := rfl
      rw [hwrite, List.length_append] at hfuel
      rw [hwrite]
      split
      · -- the empty line before a header takes one step of its own
        next hheader =>
        rw [if_pos hheader, List.length_cons] at hfuel
        obtain ⟨fuel, rfl⟩ : ∃ k, fuel = k + 2 := ⟨fuel - 2, by omega⟩
        show readStatements? (fuel + 1) (statement.line ++ writeFurther statements) = _
        rw [hplain.readStatements?_line, ih hrest (by omega)]
        rfl
      · next hheader =>
        rw [if_neg hheader] at hfuel
        obtain ⟨fuel, rfl⟩ : ∃ k, fuel = k + 1 := ⟨fuel - 1, by omega⟩
        rw [hplain.readStatements?_line, ih hrest (by omega)]
        rfl

/-- Statements are read as they were written. -/
theorem statements?_write {statements : List Statement}
    (h : ∀ statement ∈ statements, statement.Plain) :
    statements? (write statements) = some statements := by
  cases statements with
  | nil => rfl
  | cons first rest =>
      have hplain := h first List.mem_cons_self
      have hrest : ∀ other ∈ rest, other.Plain :=
        fun other hother => h other (List.mem_cons_of_mem _ hother)
      have hline := length_line_pos first
      unfold statements?
      simp only [write, String.toList_ofList]
      split
      · next heq => exact absurd (by rw [heq]; rfl) (head?_line_ne first (writeFurther rest))
      · obtain ⟨fuel, hfuel⟩ : ∃ k, (first.line ++ writeFurther rest).length = k + 1 :=
          ⟨(first.line ++ writeFurther rest).length - 1, by rw [List.length_append]; omega⟩
        rw [hfuel, hplain.readStatements?_line]
        rw [List.length_append] at hfuel
        rw [readStatements?_writeFurther hrest (by omega)]
        rfl

end Lindenmayer.Toml
