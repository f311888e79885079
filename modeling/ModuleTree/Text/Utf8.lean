/- UTF-8 over lists of bytes. Any byte string splits into characters and broken
   pieces, each the longest start of a character that the bytes still allow. -/
namespace ModuleTree

abbrev Bytes := List UInt8

namespace Text

def encode (text : String) : Bytes := text.toList.flatMap String.utf8EncodeChar

def size (s : List Char) : Nat := s.foldl (fun n c => n + c.utf8Size) 0

inductive Piece where
  | char (c : Char)
  | broken (bytes : Bytes)
  deriving DecidableEq, Repr

def isContinuation (b : UInt8) : Bool := 0x80 ≤ b && b ≤ 0xBF

structure Follow where
  count : Nat
  least : UInt8
  most : UInt8
  deriving DecidableEq, Repr

/-- Overlong forms, surrogates and values past U+10FFFF are kept out by the range of
the second byte; a byte that leads nothing has no entry. -/
def follow? (lead : UInt8) : Option Follow :=
  if 0xC2 ≤ lead && lead ≤ 0xDF then some ⟨1, 0x80, 0xBF⟩
  else if lead = 0xE0 then some ⟨2, 0xA0, 0xBF⟩
  else if lead = 0xED then some ⟨2, 0x80, 0x9F⟩
  else if 0xE1 ≤ lead && lead ≤ 0xEF then some ⟨2, 0x80, 0xBF⟩
  else if lead = 0xF0 then some ⟨3, 0x90, 0xBF⟩
  else if 0xF1 ≤ lead && lead ≤ 0xF3 then some ⟨3, 0x80, 0xBF⟩
  else if lead = 0xF4 then some ⟨3, 0x80, 0x8F⟩
  else none

def codePoint : Bytes → Nat
  | [a] => a.toNat
  | [a, b] => (a.toNat % 32) * 64 + b.toNat % 64
  | [a, b, c] => (a.toNat % 16) * 4096 + (b.toNat % 64) * 64 + c.toNat % 64
  | [a, b, c, d] =>
    (a.toNat % 8) * 262144 + (b.toNat % 64) * 4096 + (c.toNat % 64) * 64 + d.toNat % 64
  | _ => 0

def takeContinuations : Nat → Bytes → Bytes × Bytes
  | 0, bytes => ([], bytes)
  | _ + 1, [] => ([], [])
  | n + 1, b :: bytes =>
    if isContinuation b then
      let (taken, rest) := takeContinuations n bytes
      (b :: taken, rest)
    else ([], b :: bytes)

def takeFollowing (f : Follow) : Bytes → Bytes × Bytes
  | [] => ([], [])
  | b :: bytes =>
    if f.least ≤ b && b ≤ f.most then
      let (taken, rest) := takeContinuations (f.count - 1) bytes
      (b :: taken, rest)
    else ([], b :: bytes)

theorem takeContinuations_length_le (n : Nat) (bytes : Bytes) :
    (takeContinuations n bytes).2.length ≤ bytes.length := by
  induction n generalizing bytes with
  | zero => simp [takeContinuations]
  | succ n ih =>
    cases bytes with
    | nil => simp [takeContinuations]
    | cons b bytes =>
      simp only [takeContinuations]
      split
      · have := ih bytes
        simp only [List.length_cons]
        omega
      · simp

theorem takeFollowing_length_le (f : Follow) (bytes : Bytes) :
    (takeFollowing f bytes).2.length ≤ bytes.length := by
  cases bytes with
  | nil => simp [takeFollowing]
  | cons b bytes =>
    simp only [takeFollowing]
    split
    · have := takeContinuations_length_le (f.count - 1) bytes
      simp only [List.length_cons]
      omega
    · simp

def pieces : Bytes → List Piece
  | [] => []
  | lead :: bytes =>
    if lead < 0x80 then .char (Char.ofNat lead.toNat) :: pieces bytes
    else
      match follow? lead with
      | none => .broken [lead] :: pieces bytes
      | some f =>
        let found := takeFollowing f bytes
        let piece :=
          if found.1.length = f.count then .char (Char.ofNat (codePoint (lead :: found.1)))
          else .broken (lead :: found.1)
        piece :: pieces found.2
  termination_by bytes => bytes.length
  decreasing_by
    · simp
    · simp
    · have := takeFollowing_length_le f bytes
      simp only [List.length_cons]
      omega

/-- Where a byte string stops being UTF-8. Without a length it ends inside a character. -/
structure Fault where
  index : Nat
  length : Option Nat
  deriving DecidableEq, Repr

def Fault.message (fault : Fault) : String :=
  match fault.length with
  | some n => s!"invalid utf-8 sequence of {n} bytes from index {fault.index}"
  | none => s!"incomplete utf-8 byte sequence from index {fault.index}"

def firstFault (index : Nat) : List Piece → Option Fault
  | [] => none
  | .char c :: rest => firstFault (index + c.utf8Size) rest
  | .broken bytes :: rest =>
    let unfinished := rest.isEmpty && (bytes.head?.bind follow?).isSome
    some ⟨index, if unfinished then none else some bytes.length⟩

def decode (bytes : ByteArray) : Except Fault String :=
  match String.fromUTF8? bytes with
  | some text => .ok text
  | none => .error ((firstFault 0 (pieces bytes.toList)).getD ⟨0, none⟩)

def Piece.shown : Piece → Char
  | .char c => c
  | .broken _ => '\uFFFD'

def lossy (bytes : Bytes) : String := String.ofList ((pieces bytes).map Piece.shown)

end Text

end ModuleTree
