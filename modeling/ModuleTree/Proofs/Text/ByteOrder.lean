import ModuleTree.Text.Utf8
/- Texts stand in the order of their bytes. UTF-8 gives the greater of two characters bytes
   that are greater where the two first differ, so neither order has to decode the other. -/
namespace ModuleTree.Text

theorem toNat_le (c : Char) : c.toNat ≤ 0x10FFFF := by
  rcases c.valid with low | ⟨_, high⟩
  · exact Nat.le_trans (Nat.le_of_lt low) (by decide)
  · exact Nat.le_of_lt_succ high

/-- The bytes of a character as numbers: its digits to base 64, the first marked with how many
there are. -/
def digits (n : Nat) : List Nat :=
  if n ≤ 0x7F then [n]
  else if n ≤ 0x7FF then [0xC0 + n / 64, 0x80 + n % 64]
  else if n ≤ 0xFFFF then [0xE0 + n / 4096, 0x80 + n / 64 % 64, 0x80 + n % 64]
  else [0xF0 + n / 262144, 0x80 + n / 4096 % 64, 0x80 + n / 64 % 64, 0x80 + n % 64]

theorem utf8EncodeChar_toNat (c : Char) :
    (String.utf8EncodeChar c).map UInt8.toNat = digits c.toNat := by
  have most := toNat_le c
  have same : String.utf8EncodeChar c = if c.toNat ≤ 0x7F then _ else if c.toNat ≤ 0x7FF then _
    else if c.toNat ≤ 0xFFFF then _ else _ := rfl
  rw [same, digits]
  split
  · simp
    omega
  · split
    · simp
      omega
    · split
      · simp
        omega
      · simp
        omega

theorem digits_lt {m n : Nat} (before : m < n) (x y : List Nat) :
    digits m ++ x < digits n ++ y := by
  unfold digits
  repeat' split
  all_goals
    simp only [List.cons_append, List.nil_append, List.cons_lt_cons_iff]
    omega

theorem lt_of_toNat_lt {a b : Bytes} (before : a.map UInt8.toNat < b.map UInt8.toNat) : a < b := by
  induction a generalizing b with
  | nil =>
    cases b with
    | nil => exact absurd before (List.lt_irrefl _)
    | cons second rest => exact List.nil_lt_cons second rest
  | cons first rest ih =>
    cases b with
    | nil => exact absurd before (List.not_lt_nil _)
    | cons second others =>
      rw [List.map_cons, List.map_cons, List.cons_lt_cons_iff] at before
      rw [List.cons_lt_cons_iff]
      rcases before with less | ⟨same, less⟩
      · exact .inl less
      · exact .inr ⟨UInt8.toNat_inj.mp same, ih less⟩

theorem utf8EncodeChar_lt {c d : Char} (before : c < d) (x y : Bytes) :
    String.utf8EncodeChar c ++ x < String.utf8EncodeChar d ++ y := by
  apply lt_of_toNat_lt
  rw [List.map_append, List.map_append, utf8EncodeChar_toNat, utf8EncodeChar_toNat]
  exact digits_lt before _ _

theorem flatMap_lt {a b : List Char} (before : a < b) :
    a.flatMap String.utf8EncodeChar < b.flatMap String.utf8EncodeChar := by
  induction a generalizing b with
  | nil =>
    cases b with
    | nil => exact absurd before (List.lt_irrefl _)
    | cons d others =>
      have some_byte := List.length_pos_iff.mp
        (Nat.lt_of_lt_of_eq d.utf8Size_pos (String.length_utf8EncodeChar d).symm)
      obtain ⟨byte, bytes, same⟩ := List.exists_cons_of_ne_nil some_byte
      rw [List.flatMap_cons, same]
      exact List.nil_lt_cons byte _
  | cons c rest ih =>
    cases b with
    | nil => exact absurd before (List.not_lt_nil _)
    | cons d others =>
      rw [List.flatMap_cons, List.flatMap_cons]
      rcases List.cons_lt_cons_iff.mp before with less | ⟨rfl, less⟩
      · exact utf8EncodeChar_lt less _ _
      · exact List.append_left_lt (ih less)

theorem encode_lt {a b : String} (before : a < b) : encode a < encode b := flatMap_lt before

end ModuleTree.Text
