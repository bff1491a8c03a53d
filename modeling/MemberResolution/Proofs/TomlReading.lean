import Mathlib.Data.List.Basic
import MemberResolution.Toml.Document

/-!
# Reading plain lines

A line `name = value` whose name needs no quotes and whose value is a string
without escapes or a boolean is read as it is written, and so is a text of such
lines (`readAll?_document_lines`).
-/

namespace MemberResolution.Toml
set_option autoImplicit false

namespace Reader

variable {α β : Type} {text rest : List Char}

theorem run_orElse_of_some {x y : Reader α} {r : α × List Char} (first : x.run text = some r) :
    (x <|> y).run text = some r := by
  show (x.run text <|> y.run text) = _
  rw [first]
  rfl

theorem run_orElse_of_none {x y : Reader α} (first : x.run text = none) : (x <|> y).run text = y.run text := by
  show (x.run text <|> y.run text) = _
  rw [first]
  rfl

theorem run_bind_of_some {x : Reader α} {f : α → Reader β} {a : α} (first : x.run text = some (a, rest)) :
    (x >>= f).run text = (f a).run rest := by
  rw [StateT.run_bind, first]
  rfl

theorem run_seqRight_of_some {x : Reader α} {y : Reader β} {a : α} (first : x.run text = some (a, rest)) :
    (x *> y).run text = y.run rest := by
  rw [StateT.run_seqRight, first]
  rfl

theorem run_seqLeft_of_some {x : Reader α} {y : Reader β} {a : α} {b : β} {later : List Char}
    (first : x.run text = some (a, rest)) (second : y.run rest = some (b, later)) :
    (x <* y).run text = some (a, later) := by
  rw [StateT.run_seqLeft, first]
  show ((y.run rest).bind _) = _
  rw [second]
  rfl

@[simp] theorem run_satisfy_cons (inClass : Char → Bool) (c : Char) (text : List Char) :
    (satisfy inClass).run (c :: text) = if inClass c then some (c, text) else none := rfl

@[simp] theorem run_char_cons (c d : Char) (text : List Char) :
    (char c).run (d :: text) = if d = c then some ((), text) else none := by
  simp only [char, StateT.run_bind, run_satisfy_cons, beq_iff_eq]
  split <;> rfl

@[simp] theorem run_takeWhile (inClass : Char → Bool) (text : List Char) :
    (takeWhile inClass).run text = some (text.takeWhile inClass, text.dropWhile inClass) := rfl

theorem takeWhile_append_of_head {inClass : Char → Bool} {cs : List Char} (inside : ∀ c ∈ cs, inClass c = true)
    (ends : ∀ c ∈ rest.head?, inClass c = false) :
    (cs ++ rest).takeWhile inClass = cs ∧ (cs ++ rest).dropWhile inClass = rest := by
  rw [List.takeWhile_append_of_pos inside, List.dropWhile_append_of_pos inside]
  cases rest with
  | nil => simp
  | cons c rest => simp [ends c rfl]

theorem run_takeWhile1 {inClass : Char → Bool} {cs : List Char} (nonempty : cs ≠ [])
    (inside : ∀ c ∈ cs, inClass c = true) (ends : ∀ c ∈ rest.head?, inClass c = false) :
    (takeWhile1 inClass).run (cs ++ rest) = some (cs, rest) := by
  obtain ⟨first, cs, rfl⟩ := List.exists_cons_of_ne_nil nonempty
  obtain ⟨taken, left⟩ := takeWhile_append_of_head (fun c mem => inside c (List.mem_cons_of_mem first mem)) ends
  simp only [takeWhile1, List.cons_append, StateT.run_bind, run_satisfy_cons, inside first List.mem_cons_self, if_true,
    Option.bind_eq_bind, Option.bind_some, run_takeWhile, taken, left]
  rfl

theorem run_takeWhile1_of_end {inClass : Char → Bool} (ends : ∀ c ∈ text.head?, inClass c = false) :
    (takeWhile1 inClass).run text = none := by
  cases text with
  | nil => rfl
  | cons c rest => simp [takeWhile1, ends c rfl]

theorem run_many_of_none {item : Reader α} (stop : item.run text = none) : (many item).run text = some ([], text) :=
  run_many_of_stop fun a rest taken => by rw [stop] at taken; cases taken

theorem run_basicPiece_quote : basicPiece.run ('"' :: rest) = none := by
  have plain : (takeWhile1 isBasicChar).run ('"' :: rest) = none :=
    run_takeWhile1_of_end (by rintro c ⟨⟩; rfl)
  rw [basicPiece, run_orElse_of_none plain]
  rfl

/-- Text that needs no escapes. -/
theorem run_basicText {cs : List Char} (plain : ∀ c ∈ cs, isBasicChar c = true) :
    basicText.run ('"' :: (cs ++ '"' :: rest)) = some (cs, rest) := by
  have ends : (many basicPiece).run ('"' :: rest) = some ([], '"' :: rest) := run_many_of_none run_basicPiece_quote
  have pieces : ∃ pieces : List (List Char), pieces.flatten = cs ∧
      (many basicPiece).run (cs ++ '"' :: rest) = some (pieces, '"' :: rest) := by
    cases cs with
    | nil => exact ⟨[], rfl, ends⟩
    | cons c cs =>
      have first : basicPiece.run (c :: cs ++ '"' :: rest) = some (c :: cs, '"' :: rest) :=
        run_orElse_of_some (run_takeWhile1 (List.cons_ne_nil c cs) plain (by rintro c ⟨⟩; rfl))
      have shorter : ('"' :: rest).length < (c :: cs ++ '"' :: rest).length := by
        simp only [List.length_append, List.length_cons]
        omega
      exact ⟨[c :: cs], by simp, run_many_of_item first shorter ends⟩
  obtain ⟨pieces, flat, read⟩ := pieces
  simp [basicText, StateT.run_seqLeft, StateT.run_seqRight, StateT.run_map, read, flat]

/-- A string that needs no escapes; a third quote after an empty one would begin a string on several lines. -/
theorem run_quoted {cs : List Char} (plain : ∀ c ∈ cs, isBasicChar c = true) (single : rest.head? ≠ some '"') :
    quoted.run ('"' :: (cs ++ '"' :: rest)) = some (String.ofList cs, rest) := by
  have notTripled : ∀ piece, (multilineText '"' piece).run ('"' :: (cs ++ '"' :: rest)) = none := by
    intro piece
    cases cs with
    | nil =>
      cases rest with
      | nil => rfl
      | cons d rest =>
        have other : d ≠ '"' := fun same => single (by rw [same]; rfl)
        simp [multilineText, other]
    | cons c cs =>
      have other : c ≠ '"' := by
        rintro rfl
        exact absurd (plain '"' List.mem_cons_self) (by decide)
      simp [multilineText, other]
  rw [quoted, StateT.run_map, run_orElse_of_none (notTripled _), run_orElse_of_some (run_basicText plain)]
  rfl

theorem run_blanks_cons {c : Char} (ends : isBlank c = false) : blanks.run (c :: rest) = some ((), c :: rest) := by
  simp [blanks, ends]

/-- A part of a key that needs no quotes, up to a blank. -/
theorem run_keyPart {cs : List Char} (nonempty : cs ≠ []) (bare : ∀ c ∈ cs, isBareKeyChar c = true) :
    keyPart.run (cs ++ ' ' :: rest) = some (String.ofList cs, ' ' :: rest) := by
  have word := run_takeWhile1 nonempty bare (show ∀ c ∈ (' ' :: rest).head?, isBareKeyChar c = false by rintro c ⟨⟩; rfl)
  obtain ⟨c, cs, rfl⟩ := List.exists_cons_of_ne_nil nonempty
  have first := bare c List.mem_cons_self
  have basic : basicText.run (c :: cs ++ ' ' :: rest) = none := by
    have other : c ≠ '"' := by rintro rfl; exact absurd first (by decide)
    simp [basicText, StateT.run_seqLeft, StateT.run_seqRight, other]
  have literal : literalText.run (c :: cs ++ ' ' :: rest) = none := by
    have other : c ≠ '\'' := by rintro rfl; exact absurd first (by decide)
    simp [literalText, StateT.run_seqLeft, StateT.run_seqRight, other]
  rw [keyPart, StateT.run_map, run_orElse_of_none basic, run_orElse_of_none literal, word]
  rfl

/-- A key of one part without quotes. -/
theorem run_key {cs : List Char} (nonempty : cs ≠ []) (bare : ∀ c ∈ cs, isBareKeyChar c = true) :
    key.run (cs ++ ' ' :: '=' :: rest) = some (⟨[], String.ofList cs⟩, '=' :: rest) := by
  have before : blanks.run (cs ++ ' ' :: '=' :: rest) = some ((), cs ++ ' ' :: '=' :: rest) := by
    obtain ⟨c, cs, rfl⟩ := List.exists_cons_of_ne_nil nonempty
    have first := bare c List.mem_cons_self
    refine run_blanks_cons (Bool.or_eq_false_iff.2 ⟨beq_false_of_ne ?_, beq_false_of_ne ?_⟩)
    · rintro rfl
      exact absurd first (by decide)
    · rintro rfl
      exact absurd first (by decide)
  have after : blanks.run (' ' :: '=' :: rest) = some ((), '=' :: rest) := by simp [blanks, isBlank]
  have item := run_seqLeft_of_some ((run_seqRight_of_some before).trans (run_keyPart nonempty bare)) after
  have noMore : (many (do char '.'; blanks *> keyPart <* blanks)).run ('=' :: rest) = some ([], '=' :: rest) :=
    run_many_of_none (by simp)
  have parts : (separated (blanks *> keyPart <* blanks) (char '.')).run (cs ++ ' ' :: '=' :: rest) =
      some ([String.ofList cs], '=' :: rest) := by
    rw [separated, run_bind_of_some item, run_bind_of_some noMore]
    rfl
  rw [key, run_bind_of_some parts]
  rfl

theorem run_optional_of_none {item : Reader α} (stop : item.run text = none) :
    (optional item).run text = some (none, text) := by
  rw [optional, run_orElse_of_none (by rw [StateT.run_map, stop]; rfl)]
  rfl

theorem run_lineEnd : lineEnd.run ('\n' :: rest) = some ((), rest) := by
  have noComment : (optional comment).run ('\n' :: rest) = some (none, '\n' :: rest) :=
    run_optional_of_none (by simp [comment])
  have newline : newline.run ('\n' :: rest) = some ((), rest) := run_orElse_of_some (by simp)
  rw [lineEnd, run_bind_of_some (run_blanks_cons rfl), run_bind_of_some noComment]
  exact run_orElse_of_some newline

/-- A value that begins with neither a bracket nor a brace is a scalar. -/
theorem run_value {c : Char} (notArray : c ≠ '[') (notTable : c ≠ '\x7b') (depth : Nat) :
    (value depth).run (c :: rest) = scalar.run (c :: rest) := by
  cases depth with
  | zero => rfl
  | succ depth =>
    have array : (array (value depth)).run (c :: rest) = none := by simp [array, notArray]
    have inlineTable : (inlineTable (value depth)).run (c :: rest) = none := by simp [inlineTable, notTable]
    rw [value, run_orElse_of_none array, run_orElse_of_none inlineTable]

theorem run_value_string {cs : List Char} (plain : ∀ c ∈ cs, isBasicChar c = true) (depth : Nat) :
    (value depth).run ('"' :: (cs ++ '"' :: '\n' :: rest)) = some (.string (String.ofList cs), '\n' :: rest) := by
  have quoted := run_quoted plain (show ('\n' :: rest).head? ≠ some '"' by simp)
  rw [run_value (by decide) (by decide), scalar]
  exact run_orElse_of_some (by rw [StateT.run_map, quoted]; rfl)

theorem run_value_boolean (b : Bool) (depth : Nat) :
    (value depth).run ((toString b).toList ++ '\n' :: rest) = some (.boolean b, '\n' :: rest) := by
  cases b with
  | true =>
    show (value depth).run ('t' :: 'r' :: 'u' :: 'e' :: '\n' :: rest) = _
    rw [run_value (by decide) (by decide), scalar]
    rfl
  | false =>
    show (value depth).run ('f' :: 'a' :: 'l' :: 's' :: 'e' :: '\n' :: rest) = _
    rw [run_value (by decide) (by decide), scalar]
    rfl

/-- A line up to the end of its value. -/
theorem run_entry {value : Reader Value} {cs text : List Char} {v : Value} (nonempty : cs ≠ [])
    (bare : ∀ c ∈ cs, isBareKeyChar c = true) (starts : ∀ c ∈ text.head?, isBlank c = false)
    (reads : value.run text = some (v, rest)) :
    (entry value).run (cs ++ ' ' :: '=' :: ' ' :: text) = some (⟨⟨[], String.ofList cs⟩, v⟩, rest) := by
  have equals : (char '=').run ('=' :: ' ' :: text) = some ((), ' ' :: text) := by simp
  have blank : blanks.run (' ' :: text) = some ((), text) := by
    have left : ([' '] ++ text).dropWhile isBlank = text :=
      (takeWhile_append_of_head (by simp [isBlank]) starts).2
    show some ((), (' ' :: text).dropWhile isBlank) = _
    rw [← List.singleton_append, left]
  rw [entry, run_bind_of_some (run_key nonempty bare), run_bind_of_some equals, run_bind_of_some blank,
    run_bind_of_some reads]
  rfl

theorem run_many_nil {item : Reader α} : (many item).run [] = some ([], []) :=
  run_many_of_stop fun _ _ _ => Nat.zero_le _

end Reader

/-- A line `name = value` with a name that needs no quotes and a value that is read as it is written. -/
structure PlainLine where
  name : List Char
  value : Value
  written : List Char
  named : name ≠ []
  bare : ∀ c ∈ name, isBareKeyChar c = true
  starts : ∀ c ∈ written.head?, isBlank c = false
  reads : ∀ rest, (Reader.value (nestingLimit - 1)).run (written ++ '\n' :: rest) = some (value, '\n' :: rest)

namespace PlainLine

def text (l : PlainLine) : List Char := l.name ++ ' ' :: '=' :: ' ' :: l.written ++ ['\n']

def entry (l : PlainLine) : Entry := ⟨⟨[], String.ofList l.name⟩, l.value⟩

end PlainLine

namespace Reader

theorem run_line (l : PlainLine) (rest : List Char) :
    (some <$> (Reader.entry (value (nestingLimit - 1)) <* lineEnd)).run (l.text ++ rest) =
      some (some l.entry, rest) := by
  have starts : ∀ c ∈ (l.written ++ '\n' :: rest).head?, isBlank c = false := by
    cases written : l.written with
    | nil => rintro c ⟨⟩; rfl
    | cons c cs => exact fun d first => l.starts d (by rw [written]; exact first)
  have text : l.text ++ rest = l.name ++ ' ' :: '=' :: ' ' :: (l.written ++ '\n' :: rest) := by
    simp [PlainLine.text]
  have line := run_seqLeft_of_some (run_entry l.named l.bare starts (l.reads rest)) run_lineEnd
  rw [StateT.run_map, text, line]
  rfl

theorem run_entryLines (lines : List PlainLine) :
    entryLines.run (lines.flatMap PlainLine.text) = some (lines.map PlainLine.entry, []) := by
  have items : (many (some <$> (Reader.entry (value (nestingLimit - 1)) <* lineEnd) <|> lineEnd *> pure none)).run
      (lines.flatMap PlainLine.text) = some (lines.map fun l => some l.entry, []) := by
    induction lines with
    | nil => exact run_many_nil
    | cons l rest ih =>
      have shorter : (rest.flatMap PlainLine.text).length < (l.text ++ rest.flatMap PlainLine.text).length := by
        simp only [PlainLine.text, List.length_append, List.length_singleton]
        omega
      rw [List.flatMap_cons]
      exact run_many_of_item (run_orElse_of_some (run_line l _)) shorter ih
  rw [entryLines, run_bind_of_some items]
  simp [List.filterMap_map]

/-- **A text of plain lines** is read line by line. -/
theorem readAll?_document_lines (lines : List PlainLine) :
    readAll? document (String.ofList (lines.flatMap PlainLine.text)) = some ⟨lines.map PlainLine.entry, []⟩ := by
  have noMark : (optional (char '\ufeff')).run (lines.flatMap PlainLine.text) =
      some (none, lines.flatMap PlainLine.text) := by
    apply run_optional_of_none
    cases lines with
    | nil => rfl
    | cons l rest =>
      obtain ⟨c, cs, name⟩ := List.exists_cons_of_ne_nil l.named
      have notMark : c ≠ '\ufeff' := by
        rintro rfl
        exact absurd (l.bare _ (by rw [name]; exact List.mem_cons_self)) (by decide)
      simp [PlainLine.text, name, notMark]
  have whole : document.run (lines.flatMap PlainLine.text) = some (⟨lines.map PlainLine.entry, []⟩, []) := by
    rw [document, run_bind_of_some noMark, run_bind_of_some (run_entryLines lines), run_bind_of_some run_many_nil]
    rfl
  rw [readAll?, String.toList_ofList, run_seqLeft_of_some whole (show endOfText.run [] = some ((), []) from rfl)]

end Reader
end MemberResolution.Toml
