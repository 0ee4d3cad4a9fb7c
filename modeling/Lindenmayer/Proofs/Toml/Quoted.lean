import Lindenmayer.Toml.Quoted
import Mathlib.Tactic.IntervalCases

/-!
# Strings read back

A text between quotes is spelled character by character: as it is, by a line break, or behind a
backslash (`Stands`). On several lines up to two quotation marks in a row may stand for themselves
(`Spelled`). Whatever is spelled so is read as the text that it spells (`Spelled.readBody_eq`), and
each way of quoting spells the texts that it is chosen for, so every text is read as it was written
(`readString?_quote`).
-/

namespace Lindenmayer.Toml

/-- What stands in a string for a character that is no quotation mark. -/
inductive Stands (quoting : Quoting) : List Char → Char → Prop
  | plain {c : Char} (hmark : c ≠ quoting.mark) (hslash : quoting.escapes = true → c ≠ '\\')
      (hcontrol : isControl c = false) : Stands quoting [c] c
  | lineBreak (hmultiline : quoting.multiline = true) : Stands quoting ['\n'] '\n'
  | escape {c d : Char} (hescapes : quoting.escapes = true) (h : escaped? c = some d) :
      Stands quoting ['\\', c] d
  | code {n : Nat} (hescapes : quoting.escapes = true) (hn : n < 16 ^ 4)
      (hvalid : n.isValidChar) : Stands quoting ('\\' :: 'u' :: hexText n) (Char.ofNat n)

namespace Quoting

/-- The quotation mark is one of the two that there are. -/
def HasMark (quoting : Quoting) : Prop := quoting.mark = '"' ∨ quoting.mark = '\''

/-- How many quotation marks in a row may stand for themselves. -/
def mostMarks (quoting : Quoting) : Nat := if quoting.multiline then 2 else 0

theorem HasMark.ne {quoting : Quoting} (h : quoting.HasMark) :
    '\n' ≠ quoting.mark ∧ '\r' ≠ quoting.mark ∧ '\\' ≠ quoting.mark := by
  rcases h with h | h <;> rw [h] <;> decide

end Quoting

variable {quoting : Quoting} {text cs u rest : List Char} {c : Char}

/-! ## Single characters -/

theorem hexDigit?_digitChar {d : Nat} (h : d < 16) :
    hexDigit? (Nat.digitChar d).toUpper = some d := by
  interval_cases d <;> rfl

theorem readBody_hex {left value digit : Nat} (hdigit : hexDigit? c = some digit)
    (hleft : 1 < left) (tail : List Char) :
    readBody quoting (.hex left value) (c :: tail) =
      readBody quoting (.hex (left - 1) (16 * value + digit)) tail := by
  rw [readBody, hdigit]
  simp only
  rw [if_neg (by omega)]

theorem readBody_lastHex {value digit : Nat} (hdigit : hexDigit? c = some digit)
    (hvalid : (16 * value + digit).isValidChar) (tail : List Char) :
    readBody quoting (.hex 1 value) (c :: tail) =
      prepend (Char.ofNat (16 * value + digit)) (readBody quoting (.plain false) tail) := by
  rw [readBody, hdigit]
  simp only
  rw [if_pos (by decide), if_pos hvalid]

/-- Four digits are read as the code point that they write. -/
theorem readBody_hexText {n : Nat} (hn : n < 16 ^ 4) (hvalid : n.isValidChar)
    (tail : List Char) :
    readBody quoting (.hex 4 0) (hexText n ++ tail) =
      prepend (Char.ofNat n) (readBody quoting (.plain false) tail) := by
  have hdigit : ∀ k, hexDigit? (Nat.digitChar (n / Nat.pow 16 k % 16)).toUpper =
      some (n / 16 ^ k % 16) := fun k => hexDigit?_digitChar (Nat.mod_lt _ (by decide))
  have hvalue : 16 * (16 * (16 * (16 * 0 + n / 16 ^ 3 % 16) + n / 16 ^ 2 % 16) + n / 16 ^ 1 % 16) +
      n / 16 ^ 0 % 16 = n := by
    omega
  show readBody quoting (.hex 4 0) (_ :: _ :: _ :: _ :: tail) = _
  rw [readBody_hex (hdigit 3) (by decide), readBody_hex (hdigit 2) (by decide),
    readBody_hex (hdigit 1) (by decide), readBody_lastHex (hdigit 0) (by rwa [hvalue]), hvalue]

/-- What stands for a character is read as the character. -/
theorem Stands.readBody_eq (h : Stands quoting u c) (hmark : quoting.HasMark)
    (tail : List Char) :
    readBody quoting (.plain false) (u ++ tail) =
      prepend c (readBody quoting (.plain false) tail) := by
  obtain ⟨hbreak, -, hslash⟩ := hmark.ne
  cases h with
  | plain hne hescape hcontrol =>
      have hslash' : (quoting.escapes && decide (c = '\\')) = false := by
        rw [Bool.and_eq_false_iff, decide_eq_false_iff_not]
        rcases Bool.eq_false_or_eq_true quoting.escapes with hescapes | hescapes
        · exact .inr (hescape hescapes)
        · exact .inl hescapes
      have hline : c ≠ '\n' := by
        rintro rfl
        cases hcontrol
      have hcarriage : c ≠ '\r' := by
        rintro rfl
        cases hcontrol
      simp [readBody, hne, hslash', hline, hcarriage, hcontrol]
  | lineBreak hmultiline => simp [readBody, hmultiline, hbreak]
  | escape hescapes hescaped => simp [readBody, hescapes, hslash, hescaped]
  | code hescapes hn hvalid =>
      have hu : escaped? 'u' = none := rfl
      have hread : readBody quoting (.hex 4 0) (hexText _ ++ tail) = _ :=
        readBody_hexText hn hvalid tail
      simp [readBody, hescapes, hslash, hu, hread]

theorem Stands.exists_cons (h : Stands quoting u c) (hmark : quoting.HasMark) :
    ∃ d back, u = d :: back ∧ d ≠ quoting.mark := by
  obtain ⟨hbreak, -, hslash⟩ := hmark.ne
  cases h with
  | plain hne => exact ⟨_, _, rfl, hne⟩
  | lineBreak => exact ⟨_, _, rfl, hbreak⟩
  | escape | code => exact ⟨_, _, rfl, hslash⟩

/-! ## Quotation marks among characters -/

/-- A text between quotes and what it spells: marks that stand for themselves, no more in a row
than may, and what stands for other characters. -/
inductive Spelled (quoting : Quoting) : List Char → List Char → Prop
  | marks {k : Nat} (hk : k ≤ quoting.mostMarks) :
      Spelled quoting (List.replicate k quoting.mark) (List.replicate k quoting.mark)
  | character {k : Nat} {u text cs : List Char} {c : Char} (hk : k ≤ quoting.mostMarks)
      (hu : Stands quoting u c) (h : Spelled quoting text cs) :
      Spelled quoting (List.replicate k quoting.mark ++ (u ++ text))
        (List.replicate k quoting.mark ++ c :: cs)

/-- Marks behind three closing ones belong to the text. -/
theorem closing_replicate {mark : Char} {k : Nat} (hk : k ≤ 2) (hrest : mark ∉ rest.head?) :
    closing mark (List.replicate k mark ++ rest) = (List.replicate k mark, rest) := by
  rcases rest with - | ⟨c, - | ⟨d, rest⟩⟩
  · interval_cases k <;> simp [closing, List.replicate]
  · have hc : c ≠ mark := fun h => hrest (by rw [h]; rfl)
    interval_cases k <;> simp [closing, List.replicate, hc]
  · have hc : c ≠ mark := fun h => hrest (by rw [h]; rfl)
    interval_cases k <;> simp [closing, List.replicate, hc]

theorem readBody_mark (hmultiline : quoting.multiline = true) {d e : Char}
    (hd : ¬ (d = quoting.mark ∧ e = quoting.mark)) (tail : List Char) :
    readBody quoting (.plain false) (quoting.mark :: d :: e :: tail) =
      prepend quoting.mark (readBody quoting (.plain false) (d :: e :: tail)) := by
  rw [readBody]
  simp only [Bool.false_and, Bool.false_eq_true, if_false, if_true, hmultiline]
  rw [if_neg hd]

/-- Marks that something else follows stand for themselves. -/
theorem readBody_replicate {k : Nat} (hk : k ≤ quoting.mostMarks) {d e : Char}
    (hd : d ≠ quoting.mark) (tail : List Char) :
    readBody quoting (.plain false) (List.replicate k quoting.mark ++ d :: e :: tail) =
      (readBody quoting (.plain false) (d :: e :: tail)).map
        fun body => (List.replicate k quoting.mark ++ body.1, body.2) := by
  unfold Quoting.mostMarks at hk
  split at hk
  · next hmultiline =>
    have hone : readBody quoting (.plain false) (quoting.mark :: d :: e :: tail) =
        prepend quoting.mark (readBody quoting (.plain false) (d :: e :: tail)) :=
      readBody_mark hmultiline (fun h => hd h.1) tail
    interval_cases k
    · simp
    · exact hone
    · show readBody quoting (.plain false) (quoting.mark :: quoting.mark :: d :: e :: tail) = _
      rw [readBody_mark hmultiline (fun h => hd h.2), hone]
      simp [prepend, List.replicate, Function.comp_def]
  · obtain rfl : k = 0 := Nat.le_zero.1 hk
    simp

/-- A text is read up to the closing quotes as what it spells. -/
theorem Spelled.readBody_eq (h : Spelled quoting text cs) (hmark : quoting.HasMark)
    (hrest : quoting.mark ∉ rest.head?) :
    readBody quoting (.plain false) (text ++ (quoting.delimiter ++ rest)) = some (cs, rest) := by
  induction h with
  | @marks k hk =>
      unfold Quoting.mostMarks at hk
      unfold Quoting.delimiter
      split
      · next hmultiline =>
        rw [if_pos hmultiline] at hk
        -- marks of the text and closing marks are told apart from their end
        have hmoved : List.replicate k quoting.mark ++
            ([quoting.mark, quoting.mark, quoting.mark] ++ rest) =
            quoting.mark :: quoting.mark :: quoting.mark ::
              (List.replicate k quoting.mark ++ rest) := by
          interval_cases k <;> rfl
        rw [hmoved, readBody]
        simp [hmultiline, closing_replicate hk hrest]
      · next hline =>
        rw [if_neg hline] at hk
        obtain rfl : k = 0 := Nat.le_zero.1 hk
        simp [readBody, hline]
  | @character k u text cs c hk hu h ih =>
      obtain ⟨d, back, rfl, hd⟩ := hu.exists_cons hmark
      have hread := hu.readBody_eq hmark (text ++ (quoting.delimiter ++ rest))
      rw [ih] at hread
      obtain ⟨e, tail, htail⟩ : ∃ e tail, back ++ (text ++ (quoting.delimiter ++ rest)) =
          e :: tail := by
        apply List.exists_cons_of_ne_nil
        unfold Quoting.delimiter
        split <;> simp
      rw [List.append_assoc, List.append_assoc, List.cons_append, htail,
        readBody_replicate hk hd, ← htail, ← List.cons_append, hread]
      rfl

/-! ## What is written spells the text -/

theorem stands_escapeText (hescapes : quoting.escapes = true) (hmark : quoting.mark = '"')
    (hc : c ≠ '"') : Stands quoting (escapeText quoting.multiline c) c := by
  unfold escapeText
  split_ifs with hback htab hline hmultiline hfeed hreturn hslash hcontrol
  · exact hback ▸ .escape hescapes rfl
  · exact htab ▸ .escape hescapes rfl
  · exact hline ▸ .lineBreak hmultiline
  · exact hline ▸ .escape hescapes rfl
  · exact hfeed ▸ .escape hescapes rfl
  · exact hreturn ▸ .escape hescapes rfl
  · subst hslash
    exact .escape hescapes rfl
  · have hsmall : c.toNat < 16 ^ 4 := by
      simp only [isControl, Bool.or_eq_true, Bool.and_eq_true, decide_eq_true_iff] at hcontrol
      omega
    have hcode := Stands.code hescapes hsmall c.valid
    rwa [Char.ofNat_toNat] at hcode
  · exact .plain (by rw [hmark]; exact hc) (fun _ => hslash) (Bool.eq_false_iff.2 hcontrol)

theorem replicate_append_cons (k : Nat) (mark : Char) (tail : List Char) :
    List.replicate k mark ++ mark :: tail = List.replicate (k + 1) mark ++ tail := by
  rw [List.replicate_succ', List.append_assoc, List.singleton_append]

/-- Escapes spell every text; `quotes` marks may stand right before it. -/
theorem spelled_escapeBody (hescapes : quoting.escapes = true) (hmark : quoting.mark = '"')
    {quotes : Nat} (hquotes : quotes ≤ quoting.mostMarks) (cs : List Char) :
    Spelled quoting (List.replicate quotes quoting.mark ++ escapeBody quoting.multiline quotes cs)
      (List.replicate quotes quoting.mark ++ cs) := by
  induction cs generalizing quotes with
  | nil =>
      rw [escapeBody, List.append_nil]
      exact .marks hquotes
  | cons c cs ih =>
      have hfresh := ih (Nat.zero_le _)
      rw [List.replicate_zero, List.nil_append, List.nil_append] at hfresh
      rw [escapeBody]
      split_ifs with hc hroom
      · -- one mark more
        obtain ⟨hmultiline, hless⟩ : quoting.multiline = true ∧ quotes < 2 := by
          simpa using hroom
        have hmore : quotes + 1 ≤ quoting.mostMarks := by
          rw [Quoting.mostMarks, if_pos hmultiline]
          omega
        rw [hc, ← hmark, replicate_append_cons, replicate_append_cons]
        exact ih hmore
      · have hescaped : Stands quoting ['\\', c] c := hc ▸ .escape hescapes rfl
        exact .character hquotes hescaped hfresh
      · exact .character hquotes (stands_escapeText hescapes hmark hc) hfresh

theorem le_longestRun (mark : Char) (current longest : Nat) (cs : List Char) :
    max current longest ≤ longestRun mark current longest cs := by
  induction cs generalizing current longest with
  | nil => exact Nat.le_refl _
  | cons c cs ih =>
      rw [longestRun]
      split
      · exact Nat.le_trans (by omega) (ih (current + 1) longest)
      · exact Nat.le_trans (Nat.le_max_right _ _) (ih 0 (max current longest))

/-- Without escapes a text spells itself, if it has no control characters and no long runs of
marks; `current` marks may stand right before it. -/
theorem spelled_self (hescapes : quoting.escapes = false) {current longest : Nat}
    (hcontrol : ∀ c ∈ cs, isControl c = true → c = '\n' ∧ quoting.multiline = true)
    (hrun : longestRun quoting.mark current longest cs ≤ quoting.mostMarks) :
    Spelled quoting (List.replicate current quoting.mark ++ cs)
      (List.replicate current quoting.mark ++ cs) := by
  have hcurrent : current ≤ quoting.mostMarks :=
    Nat.le_trans (Nat.le_max_left _ _) (Nat.le_trans (le_longestRun _ _ _ _) hrun)
  induction cs generalizing current longest with
  | nil =>
      rw [List.append_nil]
      exact .marks hcurrent
  | cons c cs ih =>
      have htail : ∀ d ∈ cs, isControl d = true → d = '\n' ∧ quoting.multiline = true :=
        fun d hd => hcontrol d (List.mem_cons_of_mem _ hd)
      rw [longestRun] at hrun
      split at hrun
      · next hc =>
        have hmore : current + 1 ≤ quoting.mostMarks :=
          Nat.le_trans (Nat.le_max_left _ _) (Nat.le_trans (le_longestRun _ _ _ _) hrun)
        rw [hc, replicate_append_cons]
        exact ih htail hrun hmore
      · next hc =>
        have hfresh := ih htail hrun (Nat.zero_le _)
        rw [List.replicate_zero, List.nil_append] at hfresh
        have hstands : Stands quoting [c] c := by
          cases hcases : isControl c with
          | false => exact .plain hc (by simp [hescapes]) hcases
          | true =>
              obtain ⟨rfl, hmultiline⟩ := hcontrol c List.mem_cons_self hcases
              exact .lineBreak hmultiline
        exact .character hcurrent hstands hfresh

/-! ## Whole strings -/

theorem Stands.head_ne (h : Stands quoting u c) (hline : c ≠ '\n') :
    '\n' ∉ u.head? ∧ '\r' ∉ u.head? := by
  cases h with
  | plain hne hescape hcontrol =>
      constructor
      · rintro hhead
        cases hhead
        exact hline rfl
      · rintro hhead
        cases hhead
        cases hcontrol
  | lineBreak => exact absurd rfl hline
  | escape | code => constructor <;> rintro hhead <;> cases hhead

theorem dropLineBreak_of_head {cs : List Char} (hline : '\n' ∉ cs.head?)
    (hcarriage : '\r' ∉ cs.head?) : dropLineBreak cs = cs := by
  unfold dropLineBreak
  split
  · exact absurd rfl hline
  · exact absurd rfl hcarriage
  · rfl

theorem head?_replicate_append {mark : Char} {k : Nat} {tail : List Char}
    (htail : k = 0 → tail.head? = some mark) :
    (List.replicate k mark ++ tail).head? = some mark := by
  cases k with
  | zero => exact htail rfl
  | succ k => rfl

theorem exists_delimiter_append (quoting : Quoting) (rest : List Char) :
    ∃ back, quoting.delimiter ++ rest = quoting.mark :: back := by
  unfold Quoting.delimiter
  split <;> exact ⟨_, rfl⟩

theorem head?_delimiter (quoting : Quoting) (rest : List Char) :
    (quoting.delimiter ++ rest).head? = some quoting.mark := by
  obtain ⟨back, hback⟩ := exists_delimiter_append quoting rest
  rw [hback]
  rfl

/-- A text between quotes starts with a line break only if what it spells has one. -/
theorem Spelled.dropLineBreak_eq (h : Spelled quoting text cs) (hmark : quoting.HasMark)
    (hline : '\n' ∉ cs) (rest : List Char) :
    dropLineBreak (text ++ (quoting.delimiter ++ rest)) =
      text ++ (quoting.delimiter ++ rest) := by
  obtain ⟨hbreak, hcarriage, -⟩ := hmark.ne
  have hof : ∀ tail : List Char, tail.head? = some quoting.mark → dropLineBreak tail = tail := by
    intro tail htail
    apply dropLineBreak_of_head <;> rw [htail]
    · exact fun heq => hbreak (Option.some.inj heq).symm
    · exact fun heq => hcarriage (Option.some.inj heq).symm
  cases h with
  | marks hk => exact hof _ (head?_replicate_append fun _ => head?_delimiter quoting rest)
  | @character k u text cs c hk hu h =>
      cases k with
      | succ k => exact hof _ rfl
      | zero =>
          obtain ⟨d, back, rfl, -⟩ := hu.exists_cons hmark
          obtain ⟨hnone, hnone'⟩ := hu.head_ne fun hc => hline (hc ▸ List.mem_cons_self)
          exact dropLineBreak_of_head hnone hnone'

/-- On one line no second mark follows the opening one, unless the text is empty and the string
ends there. -/
theorem Spelled.ne_marks (h : Spelled quoting text cs) (hmark : quoting.HasMark)
    (hline : quoting.multiline = false) (hrest : quoting.mark ∉ rest.head?) (tail : List Char) :
    text ++ (quoting.delimiter ++ rest) ≠ quoting.mark :: quoting.mark :: tail := by
  intro heq
  have hnone : ∀ {k : Nat}, k ≤ quoting.mostMarks → k = 0 := by
    intro k hk
    rw [Quoting.mostMarks, hline] at hk
    exact Nat.le_zero.1 hk
  cases h with
  | marks hk =>
      rw [hnone hk, Quoting.delimiter, hline] at heq
      have hrest' : rest = quoting.mark :: tail := (List.cons.inj heq).2
      exact hrest (by rw [hrest']; rfl)
  | character hk hu h =>
      obtain ⟨d, back, rfl, hd⟩ := hu.exists_cons hmark
      rw [hnone hk] at heq
      exact hd (List.cons.inj heq).1

theorem readString?_of_ne_marks {mark : Char} {cs : List Char}
    (h : ∀ tail, cs ≠ mark :: mark :: tail) (hmark : mark = '"' ∨ mark = '\'') :
    readString? (mark :: cs) = readLine? (mark :: cs) := by
  rcases hmark with rfl | rfl <;> unfold readString? <;> split
  · next heq => exact absurd (List.cons.inj heq).2 (h _)
  · next heq => cases heq
  · rfl
  · next heq => cases heq
  · next heq => exact absurd (List.cons.inj heq).2 (h _)
  · rfl

/-- A string on one line is read as what it spells. -/
theorem Spelled.readString?_line (h : Spelled quoting text cs)
    (hquoting : quoting = .basic ∨ quoting = .literal) (hrest : quoting.mark ∉ rest.head?) :
    readString? (quoting.delimiter ++ (text ++ (quoting.delimiter ++ rest))) =
      some (cs, rest) := by
  have hmark : quoting.HasMark := by
    rcases hquoting with rfl | rfl
    · exact .inl rfl
    · exact .inr rfl
  have hline : quoting.multiline = false := by rcases hquoting with rfl | rfl <;> rfl
  have hstart : ∀ back, quoting.delimiter ++ back = quoting.mark :: back := by
    rcases hquoting with rfl | rfl <;> exact fun _ => rfl
  have hbody : ∀ back, readLine? (quoting.mark :: back) =
      readBody quoting (.plain false) back := by
    rcases hquoting with rfl | rfl <;> exact fun _ => rfl
  rw [hstart (text ++ _), readString?_of_ne_marks (h.ne_marks hmark hline hrest) hmark, hbody,
    h.readBody_eq hmark hrest]

/-- A string with three quotes on either side is read as what it spells. -/
theorem Spelled.readString?_lines (h : Spelled quoting text cs)
    (hquoting : quoting = .multilineBasic ∨ quoting = .multilineLiteral)
    (hrest : quoting.mark ∉ rest.head?) :
    readString? (quoting.delimiter ++ ((if cs.contains '\n' then ['\n'] else []) ++
      (text ++ (quoting.delimiter ++ rest)))) = some (cs, rest) := by
  have hmark : quoting.HasMark := by
    rcases hquoting with rfl | rfl
    · exact .inl rfl
    · exact .inr rfl
  have hstring : ∀ back, readString? (quoting.delimiter ++ back) =
      readBody quoting (.plain false) (dropLineBreak back) := by
    rcases hquoting with rfl | rfl <;> exact fun _ => rfl
  have hopening : dropLineBreak ((if cs.contains '\n' then ['\n'] else []) ++
      (text ++ (quoting.delimiter ++ rest))) = text ++ (quoting.delimiter ++ rest) := by
    split
    · rfl
    · next hnone =>
      exact h.dropLineBreak_eq hmark (fun hmem => hnone (List.contains_iff_mem.2 hmem)) rest
  rw [hstring, hopening, h.readBody_eq hmark hrest]

/-! ## Every text -/

theorem quoteIn_append (quoting : Quoting) (cs rest : List Char) :
    quoteIn quoting cs ++ rest = quoting.delimiter ++
      ((if quoting.multiline && cs.contains '\n' then ['\n'] else []) ++
        ((if quoting.escapes then escapeBody quoting.multiline 0 cs else cs) ++
          (quoting.delimiter ++ rest))) := by
  simp only [quoteIn, List.append_assoc]

/-- A text in double quotes is read as it was written. -/
theorem readString?_quoteIn_escaped (hquoting : quoting = .basic ∨ quoting = .multilineBasic)
    (cs : List Char) (hrest : '"' ∉ rest.head?) :
    readString? (quoteIn quoting cs ++ rest) = some (cs, rest) := by
  rw [quoteIn_append]
  rcases hquoting with rfl | rfl
  · exact (spelled_escapeBody rfl rfl (Nat.zero_le _) cs).readString?_line (.inl rfl) hrest
  · exact (spelled_escapeBody rfl rfl (Nat.zero_le _) cs).readString?_lines (.inl rfl) hrest

theorem readLine?_quoteIn (cs : List Char) (hrest : '"' ∉ rest.head?) :
    readLine? (quoteIn .basic cs ++ rest) = some (cs, rest) := by
  rw [quoteIn_append]
  exact (spelled_escapeBody rfl rfl (Nat.zero_le _) cs).readBody_eq (.inl rfl) hrest

/-- A text in single quotes is read as it was written, if it can stand there. -/
theorem readString?_quoteIn_literal (hquoting : quoting = .literal ∨ quoting = .multilineLiteral)
    (hcontrol : ∀ c ∈ cs, isControl c = true → c = '\n' ∧ quoting.multiline = true)
    (hrun : longestRun '\'' 0 0 cs ≤ quoting.mostMarks) (hrest : '\'' ∉ rest.head?) :
    readString? (quoteIn quoting cs ++ rest) = some (cs, rest) := by
  rw [quoteIn_append]
  rcases hquoting with rfl | rfl
  · exact (spelled_self rfl hcontrol hrun).readString?_line (.inr rfl) hrest
  · exact (spelled_self rfl hcontrol hrun).readString?_lines (.inr rfl) hrest

theorem eq_newline_of_control (h : (cs.any fun c => isControl c && c ≠ '\n') = false) (hc : c ∈ cs)
    (hcontrol : isControl c = true) : c = '\n' := by
  have := List.any_eq_false.1 h c hc
  by_contra hne
  exact this (by rw [hcontrol, decide_eq_true hne]; rfl)

/-- A text is read as it was written, whatever way of quoting it was given. -/
theorem readString?_quote (cs : List Char) (hrest : ∀ c ∈ rest.head?, c ≠ '"' ∧ c ≠ '\'') :
    readString? (quote cs ++ rest) = some (cs, rest) := by
  have hdouble : '"' ∉ rest.head? := fun h => (hrest _ h).1 rfl
  have hsingle : '\'' ∉ rest.head? := fun h => (hrest _ h).2 rfl
  unfold quote quotingOf
  simp only
  split_ifs with hbasic hliteral hlines hliterals hbreaks
  · exact readString?_quoteIn_escaped (.inl rfl) cs hdouble
  · obtain ⟨⟨hcontrols, hsingles⟩, hnone⟩ := by
      simpa only [Bool.and_eq_true, Bool.not_eq_true', decide_eq_true_iff] using hliteral
    refine readString?_quoteIn_literal (.inl rfl) (fun c hc hcontrol => ?_) hsingles.le hsingle
    have hbreak := eq_newline_of_control hcontrols hc hcontrol
    rw [← hbreak, List.contains_eq_mem, decide_eq_false_iff_not] at hnone
    exact absurd hc hnone
  · exact readString?_quoteIn_escaped (.inr rfl) cs hdouble
  · obtain ⟨hcontrols, hsingles⟩ := by
      simpa only [Bool.and_eq_true, Bool.not_eq_true', decide_eq_true_iff] using hliterals
    exact readString?_quoteIn_literal (.inr rfl)
      (fun c hc hcontrol => ⟨eq_newline_of_control hcontrols hc hcontrol, rfl⟩) hsingles hsingle
  · exact readString?_quoteIn_escaped (.inr rfl) cs hdouble
  · exact readString?_quoteIn_escaped (.inl rfl) cs hdouble

theorem quotingOf_hasMark (cs : List Char) : (quotingOf cs).HasMark := by
  unfold quotingOf
  simp only
  split_ifs
  · exact .inl rfl
  · exact .inr rfl
  · exact .inl rfl
  · exact .inr rfl
  · exact .inl rfl
  · exact .inl rfl

/-- A string starts with a quotation mark. -/
theorem quote_eq_cons (cs rest : List Char) :
    ∃ mark back, quote cs ++ rest = mark :: back ∧ (mark = '"' ∨ mark = '\'') := by
  obtain ⟨back, hback⟩ := exists_delimiter_append (quotingOf cs) _
  exact ⟨_, back, (quoteIn_append (quotingOf cs) cs rest).trans hback, quotingOf_hasMark cs⟩

end Lindenmayer.Toml
