import Mathlib.Data.List.Forall2
import ModuleTree.Json.Scalar
/- JSON texts as they may be written: every layout, every spelling of a string, every number. A
   text is told here by its parts, and nothing is read. -/
namespace ModuleTree.Json

def Blanks (s : List Char) : Prop := ∀ c ∈ s, isBlank c

instance (s : List Char) : Decidable (Blanks s) :=
  List.decidableBAll (fun c => isBlank c = true) s

inductive Quad : List Char → Nat → Prop where
  | digits {a b c d : Char} {i j k l : Nat} (first : hexDigit? a = some i)
      (second : hexDigit? b = some j) (third : hexDigit? c = some k)
      (fourth : hexDigit? d = some l) : Quad [a, b, c, d] (((i * 16 + j) * 16 + k) * 16 + l)

def shortEscapes : List (Char × Char) :=
  [('"', '"'), ('\\', '\\'), ('/', '/'), ('b', '\x08'), ('f', '\x0C'), ('n', '\n'), ('r', '\r'),
    ('t', '\t')]

structure IsPlain (c : Char) : Prop where
  quote : c ≠ '"'
  backslash : c ≠ '\\'
  control : ¬c < ' '

instance (c : Char) : Decidable (IsPlain c) :=
  decidable_of_iff (c ≠ '"' ∧ c ≠ '\\' ∧ ¬c < ' ')
    ⟨fun ⟨quote, backslash, control⟩ => ⟨quote, backslash, control⟩,
      fun ⟨quote, backslash, control⟩ => ⟨quote, backslash, control⟩⟩

/-- The ways to write a character inside a string: as it is, by a letter, by its number, or as
two halves when its number has more than four digits. -/
inductive Spells : Char → List Char → Prop where
  | plain {c : Char} (plain : IsPlain c) : Spells c [c]
  | short {letter c : Char} (escape : (letter, c) ∈ shortEscapes) : Spells c ['\\', letter]
  | unit {c : Char} {digits : List Char} (quad : Quad digits c.toNat) :
      Spells c ('\\' :: 'u' :: digits)
  | pair {c : Char} {digits digits' : List Char} {high low : Nat} (quad : Quad digits high)
      (quad' : Quad digits' low) (leading : 0xD800 ≤ high ∧ high ≤ 0xDBFF)
      (trailing : 0xDC00 ≤ low ∧ low ≤ 0xDFFF)
      (whole : c.toNat = 0x10000 + (high - 0xD800) * 1024 + (low - 0xDC00)) :
      Spells c ('\\' :: 'u' :: digits ++ '\\' :: 'u' :: digits')

inductive Spelled : List Char → List Char → Prop where
  | nil : Spelled [] []
  | cons {c : Char} {cs s t : List Char} (first : Spells c s) (rest : Spelled cs t) :
      Spelled (c :: cs) (s ++ t)

inductive Quotes (text : String) : List Char → Prop where
  | quoted {s : List Char} (spelled : Spelled text.toList s) : Quotes text ('"' :: s ++ ['"'])

/-- What any string is made of. A number may be half a character here, with no other half. -/
inductive Letters : List Char → Prop where
  | nil : Letters []
  | plain {c : Char} {s : List Char} (plain : IsPlain c) (rest : Letters s) : Letters (c :: s)
  | short {letter c : Char} {s : List Char} (escape : (letter, c) ∈ shortEscapes)
      (rest : Letters s) : Letters ('\\' :: letter :: s)
  | unit {digits s : List Char} {n : Nat} (quad : Quad digits n) (rest : Letters s) :
      Letters ('\\' :: 'u' :: digits ++ s)

def Digits (s : List Char) : Prop := ∀ c ∈ s, isDigit c

inductive Whole : List Char → Prop where
  | zero : Whole ['0']
  | digits {c : Char} {s : List Char} (digit : isDigit c) (nonzero : c ≠ '0') (rest : Digits s) :
      Whole (c :: s)

inductive Fraction : List Char → Prop where
  | none : Fraction []
  | digits {c : Char} {s : List Char} (digit : isDigit c) (rest : Digits s) :
      Fraction ('.' :: c :: s)

inductive Exponent : List Char → Prop where
  | none : Exponent []
  | digits {e c : Char} {sign s : List Char} (mark : e = 'e' ∨ e = 'E')
      (sign_ : sign = [] ∨ sign = ['+'] ∨ sign = ['-']) (digit : isDigit c) (rest : Digits s) :
      Exponent (e :: sign ++ c :: s)

inductive Numeral : List Char → Prop where
  | mk {sign whole fraction exponent : List Char} (sign_ : sign = [] ∨ sign = ['-'])
      (whole_ : Whole whole) (fraction_ : Fraction fraction) (exponent_ : Exponent exponent) :
      Numeral (sign ++ whole ++ fraction ++ exponent)

/-- A value, or what stands between the brackets of one: the values of a list, the members of an
object. -/
inductive Part where
  | value
  | elements (values : List (List Char))
  | members

inductive Written : Part → List Char → Prop where
  | null : Written .value ['n', 'u', 'l', 'l']
  | true : Written .value ['t', 'r', 'u', 'e']
  | false : Written .value ['f', 'a', 'l', 's', 'e']
  | string {s : List Char} (letters : Letters s) : Written .value ('"' :: s ++ ['"'])
  | number {s : List Char} (numeral : Numeral s) : Written .value s
  | emptyList {s : List Char} (blanks : Blanks s) : Written .value ('[' :: s ++ [']'])
  | list {s : List Char} {values : List (List Char)} (elements : Written (.elements values) s) :
      Written .value ('[' :: s ++ [']'])
  | emptyObject {s : List Char} (blanks : Blanks s) : Written .value ('\x7b' :: s ++ ['\x7d'])
  | object {s : List Char} (members : Written .members s) :
      Written .value ('\x7b' :: s ++ ['\x7d'])
  | element {a b v : List Char} (before : Blanks a) (value : Written .value v)
      (after : Blanks b) : Written (.elements [v]) (a ++ v ++ b)
  | elements {a b v s : List Char} {values : List (List Char)} (before : Blanks a)
      (value : Written .value v) (after : Blanks b) (rest : Written (.elements values) s) :
      Written (.elements (v :: values)) (a ++ v ++ b ++ ',' :: s)
  | member {a b c d key v : List Char} (before : Blanks a) (letters : Letters key)
      (behind : Blanks b) (between : Blanks c) (value : Written .value v) (after : Blanks d) :
      Written .members (a ++ '"' :: key ++ '"' :: b ++ ':' :: c ++ v ++ d)
  | members {a b c d key v s : List Char} (before : Blanks a) (letters : Letters key)
      (behind : Blanks b) (between : Blanks c) (value : Written .value v) (after : Blanks d)
      (rest : Written .members s) :
      Written .members (a ++ '"' :: key ++ '"' :: b ++ ':' :: c ++ v ++ d ++ ',' :: s)

inductive Listed : List (List Char) → List Char → Prop where
  | none {s : List Char} (blanks : Blanks s) : Listed [] ('[' :: s ++ [']'])
  | some {s : List Char} {values : List (List Char)} (elements : Written (.elements values) s) :
      Listed values ('[' :: s ++ [']'])

def Enlists (texts : List String) (s : List Char) : Prop :=
  ∃ values, Listed values s ∧ List.Forall₂ Quotes texts values

inductive Entry (name : String) (value : List Char) : List Char → Prop where
  | mk {a b c d key : List Char} (before : Blanks a) (quotes : Quotes name key)
      (behind : Blanks b) (between : Blanks c) (written : Written .value value)
      (after : Blanks d) : Entry name value (a ++ key ++ b ++ ':' :: c ++ value ++ d)

inductive Entries : List (String × List Char) → List Char → Prop where
  | one {name : String} {value s : List Char} (entry : Entry name value s) :
      Entries [(name, value)] s
  | more {name : String} {value s t : List Char} {entries : List (String × List Char)}
      (entry : Entry name value s) (rest : Entries entries t) :
      Entries ((name, value) :: entries) (s ++ ',' :: t)

inductive Object : List (String × List Char) → List Char → Prop where
  | none {s : List Char} (blanks : Blanks s) : Object [] ('\x7b' :: s ++ ['\x7d'])
  | some {s : List Char} {entries : List (String × List Char)} (entries_ : Entries entries s) :
      Object entries ('\x7b' :: s ++ ['\x7d'])

def named (name : String) (entries : List (String × List Char)) : List (List Char) :=
  (entries.filter (·.1 = name)).map Prod.snd

end ModuleTree.Json
