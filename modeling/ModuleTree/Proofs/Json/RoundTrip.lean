import ModuleTree.Json.Printer
import ModuleTree.Proofs.Json.Reading
/- What is printed is read back, whatever text follows it: a string, a list of strings, the
   members of an object. -/
namespace ModuleTree.Json

section Strings

variable {s : List Char}

theorem hexDigit?_hexDigit : ∀ n < 16, hexDigit? (Text.hexDigit false n) = some n := by decide

theorem spells_control {c : Char} (control : c < ' ') :
    Spells c ['\\', 'u', '0', '0', Text.hexDigit false (c.toNat / 16),
      Text.hexDigit false (c.toNat % 16)] := by
  have low : c.toNat < 32 := control
  have zero : hexDigit? '0' = some 0 := by decide
  have quad := Quad.digits zero zero (hexDigit?_hexDigit (c.toNat / 16) (by omega))
    (hexDigit?_hexDigit (c.toNat % 16) (by omega))
  have whole : ((0 * 16 + 0) * 16 + c.toNat / 16) * 16 + c.toNat % 16 = c.toNat := by omega
  rw [whole] at quad
  exact .unit quad

theorem spells_writeChar (c : Char) : Spells c (writeChar c) := by
  have short {letter d : Char} (same : c = d) (escape : (letter, d) ∈ shortEscapes) :
      Spells c ['\\', letter] := .short (same ▸ escape)
  unfold writeChar
  split_ifs with quote backslash backspace feed newline carriage tab control
  · exact short quote (by simp [shortEscapes])
  · exact short backslash (by simp [shortEscapes])
  · exact short backspace (by simp [shortEscapes])
  · exact short feed (by simp [shortEscapes])
  · exact short newline (by simp [shortEscapes])
  · exact short carriage (by simp [shortEscapes])
  · exact short tab (by simp [shortEscapes])
  · exact spells_control control
  · exact .plain ⟨quote, backslash, control⟩

theorem spelled_written (cs : List Char) : Spelled cs (cs.flatMap writeChar) := by
  induction cs with
  | nil => exact .nil
  | cons c cs ih => exact .cons (spells_writeChar c) ih

theorem quotes_writeString (text : String) : Quotes text (writeString text) :=
  .quoted (spelled_written text.toList)

theorem writeString_append (text : String) :
    writeString text ++ s = '"' :: (text.toList.flatMap writeChar ++ '"' :: s) := by
  simp [writeString]

theorem readChars_string (text : String) :
    readChars [] (text.toList.flatMap writeChar ++ '"' :: s) = .ok (text, s) := by
  rw [readChars_spelled (spelled_written text.toList), List.reverse_nil, List.nil_append,
    String.ofList_toList]

end Strings

section Layout

variable {s : List Char} {first : Bool} {depth : Nat} {c : Char}

/-- What stands between two brackets: each item on a line of its own, the closing bracket on one
too when there are items. -/
def rows (first : Bool) (depth : Nat) : List (List Char) → List Char
  | [] => if first then [] else indent depth
  | item :: items =>
    comma first ++ indent (depth + 1) ++ item ++ rows false depth items

theorem rows_cons (item : List Char) (items : List (List Char)) : rows first depth (item :: items) =
    comma first ++ indent (depth + 1) ++ item ++ rows false depth items := rfl

theorem writeItems_eq (opening closing : Char) (depth : Nat) (items : List (List Char)) :
    writeItems opening closing depth items = opening :: (rows true depth items ++ [closing]) := by
  have later : ∀ items : List (List Char), rows false depth items =
      items.flatMap (fun item => ',' :: indent (depth + 1) ++ item) ++ indent depth := by
    intro items
    induction items with
    | nil => rfl
    | cons item items ih => simp [rows, comma, ih]
  cases items with
  | nil => rfl
  | cons item items => simp [writeItems, rows, comma, later]

theorem skipBlank_plain (plain : isBlank c = false) : skipBlank (c :: s) = c :: s := by
  simp [skipBlank, plain]

theorem skipBlank_blank (blank : isBlank c) : skipBlank (c :: s) = skipBlank s := by
  simp [skipBlank, blank]

theorem blanks_indent (depth : Nat) : Blanks (indent depth) := by
  intro c within
  rcases List.mem_cons.mp within with rfl | within
  · rfl
  · obtain ⟨_, rfl⟩ := List.mem_replicate.mp within
    rfl

theorem blanks_close : Blanks (rows first depth []) := by
  cases first with
  | true => exact List.forall_mem_nil _
  | false => exact blanks_indent depth

end Layout

section Lists

variable {s : List Char} {depth : Nat}

theorem written_rows (text : String) (texts : List String) :
    Written (.elements ((text :: texts).map writeString))
      (rows true depth ((text :: texts).map writeString)) := by
  have string (text : String) := written_of_quotes (quotes_writeString text)
  induction texts generalizing text with
  | nil => exact .element (blanks_indent (depth + 1)) (string text) (blanks_indent depth)
  | cons next texts ih =>
    have more := Written.elements (blanks_indent (depth + 1)) (string text)
      (List.forall_mem_nil _) (ih next)
    simpa only [List.map_cons, rows_cons, comma, if_true, Bool.false_eq_true, if_false,
      List.append_assoc, List.nil_append, List.cons_append] using more

theorem enlists_writeStrings (texts : List String) :
    Enlists texts (writeStrings depth texts) := by
  refine ⟨texts.map writeString, ?_, ?_⟩
  · rw [writeStrings, writeItems_eq, ← List.cons_append]
    cases texts with
    | nil => exact .none (List.forall_mem_nil _)
    | cons text texts => exact .some (written_rows text texts)
  · rw [List.forall₂_map_right_iff]
    exact List.forall₂_same.mpr fun text _ => quotes_writeString text

theorem readStringList_writeStrings (texts : List String) :
    readStringList (' ' :: (writeStrings depth texts ++ s)) = .ok (texts, s) := by
  obtain ⟨values, listed, quotes⟩ : Enlists texts (writeStrings depth texts) :=
    enlists_writeStrings texts
  have blank : Blanks [' '] := by simp [Blanks, isBlank]
  exact (readStringList_listed blank listed).mpr ⟨quotes, rfl⟩

end Lists

section Objects

variable {σ : Type} {m : Members σ} {state state' : σ} {first : Bool} {depth : Nat}
  {key : String} {value s : List Char}

theorem nextKey_row :
    nextKey first (comma first ++ indent depth ++ '"' :: s) = .ok (some s) := by
  rw [List.append_assoc]
  exact nextKey_item (List.forall_mem_nil _) (blanks_indent depth)

theorem nextKey_close : nextKey first (rows first depth [] ++ '\x7d' :: s) = .ok none :=
  nextKey_end blanks_close

theorem pastBrace_close : pastBrace (rows first depth [] ++ '\x7d' :: s) = s :=
  pastBrace_end blanks_close

theorem Members.read_row
    (took : m.member state key (':' :: ' ' :: (value ++ s)) = .ok (state', s)) :
    m.read first state (comma first ++ indent depth ++
      (writeMember key value ++ s)) = m.read false state' s := by
  have opened : writeMember key value ++ s = writeString key ++ ':' :: ' ' :: (value ++ s) := by
    simp [writeMember]
  rw [opened, writeString_append, read_next nextKey_row (readChars_string key), took]
  rfl

end Objects

end ModuleTree.Json
