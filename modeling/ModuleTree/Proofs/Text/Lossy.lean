import Mathlib.Data.List.Basic
import ModuleTree.Proofs.Text.ByteOrder
/- Texts read from bytes. The bytes of a text are read as the text itself, and in whatever else is
   read a character of one byte stands only where that byte does. -/
namespace ModuleTree.Text

variable {lead first : UInt8} {f : Follow} {bytes more rest : Bytes}

/-- Which bytes begin a character of several, and what has to follow. -/
inductive Leads : UInt8 → Follow → Prop where
  | one {lead : UInt8} (least : 0xC2 ≤ lead.toNat) (most : lead.toNat ≤ 0xDF) :
      Leads lead ⟨1, 0x80, 0xBF⟩
  | twoLow : Leads 0xE0 ⟨2, 0xA0, 0xBF⟩
  | twoHigh : Leads 0xED ⟨2, 0x80, 0x9F⟩
  | two {lead : UInt8} (least : 0xE1 ≤ lead.toNat) (most : lead.toNat ≤ 0xEF)
      (other : lead.toNat ≠ 0xED) : Leads lead ⟨2, 0x80, 0xBF⟩
  | threeLow : Leads 0xF0 ⟨3, 0x90, 0xBF⟩
  | three {lead : UInt8} (least : 0xF1 ≤ lead.toNat) (most : lead.toNat ≤ 0xF3) :
      Leads lead ⟨3, 0x80, 0xBF⟩
  | threeHigh : Leads 0xF4 ⟨3, 0x80, 0x8F⟩

theorem follow?_eq (lead : UInt8) : follow? lead =
    if 0xC2 ≤ lead.toNat ∧ lead.toNat ≤ 0xDF then some ⟨1, 0x80, 0xBF⟩
    else if lead.toNat = 0xE0 then some ⟨2, 0xA0, 0xBF⟩
    else if lead.toNat = 0xED then some ⟨2, 0x80, 0x9F⟩
    else if 0xE1 ≤ lead.toNat ∧ lead.toNat ≤ 0xEF then some ⟨2, 0x80, 0xBF⟩
    else if lead.toNat = 0xF0 then some ⟨3, 0x90, 0xBF⟩
    else if 0xF1 ≤ lead.toNat ∧ lead.toNat ≤ 0xF3 then some ⟨3, 0x80, 0xBF⟩
    else if lead.toNat = 0xF4 then some ⟨3, 0x80, 0x8F⟩
    else none := by
  simp only [follow?, Bool.and_eq_true, decide_eq_true_eq, UInt8.le_iff_toNat_le,
    ← UInt8.toNat_inj]
  rfl

theorem follow?_of_leads (leads : Leads lead f) : follow? lead = some f := by
  cases leads with
  | one least most => rw [follow?_eq, if_pos ⟨least, most⟩]
  | two least most other =>
    rw [follow?_eq, if_neg (by omega), if_neg (by omega), if_neg other, if_pos ⟨least, most⟩]
  | three least most =>
    rw [follow?_eq, if_neg (by omega), if_neg (by omega), if_neg (by omega), if_neg (by omega),
      if_neg (by omega), if_pos ⟨least, most⟩]
  | _ => rfl

theorem leads_of_follow? (h : follow? lead = some f) : Leads lead f := by
  have same {n : UInt8} (h : lead.toNat = n.toNat) : lead = n := UInt8.toNat_inj.mp h
  rw [follow?_eq] at h
  split at h
  · rename_i range
    cases h
    exact .one range.1 range.2
  split at h
  · rename_i here
    cases h
    exact same (n := 0xE0) here ▸ .twoLow
  split at h
  · rename_i here
    cases h
    exact same (n := 0xED) here ▸ .twoHigh
  split at h
  · rename_i other range
    cases h
    exact .two range.1 range.2 other
  split at h
  · rename_i here
    cases h
    exact same (n := 0xF0) here ▸ .threeLow
  split at h
  · rename_i range
    cases h
    exact .three range.1 range.2
  split at h
  · rename_i here
    cases h
    exact same (n := 0xF4) here ▸ .threeHigh
  · cases h

theorem takeContinuations_append (more rest : Bytes) (all : ∀ b ∈ more, isContinuation b) :
    takeContinuations more.length (more ++ rest) = (more, rest) := by
  induction more with
  | nil => rfl
  | cons b more ih =>
    obtain ⟨here, later⟩ := List.forall_mem_cons.mp all
    simp only [List.length_cons, List.cons_append, takeContinuations, here, if_true, ih later]

theorem isContinuation_iff {b : UInt8} :
    isContinuation b ↔ 0x80 ≤ b.toNat ∧ b.toNat ≤ 0xBF := by
  simp [isContinuation, UInt8.le_iff_toNat_le]

structure Begins (lead first : UInt8) (f : Follow) : Prop where
  leads : Leads lead f
  least : f.least.toNat ≤ first.toNat
  most : first.toNat ≤ f.most.toNat

theorem begins_two (least : 0xE0 ≤ lead.toNat) (most : lead.toNat ≤ 0xEF)
    (low : 0x80 ≤ first.toNat) (high : first.toNat ≤ 0xBF)
    (overlong : lead.toNat = 0xE0 → 0xA0 ≤ first.toNat)
    (surrogate : lead.toNat = 0xED → first.toNat ≤ 0x9F) :
    ∃ f, Begins lead first f ∧ f.count = 2 := by
  by_cases lowest : lead.toNat = 0xE0
  · obtain rfl : lead = 0xE0 := UInt8.toNat_inj.mp lowest
    exact ⟨_, ⟨.twoLow, overlong lowest, high⟩, rfl⟩
  · by_cases odd : lead.toNat = 0xED
    · obtain rfl : lead = 0xED := UInt8.toNat_inj.mp odd
      exact ⟨_, ⟨.twoHigh, low, surrogate odd⟩, rfl⟩
    · exact ⟨_, ⟨.two (by omega) most odd, low, high⟩, rfl⟩

theorem begins_three (least : 0xF0 ≤ lead.toNat) (most : lead.toNat ≤ 0xF4)
    (low : 0x80 ≤ first.toNat) (high : first.toNat ≤ 0xBF)
    (overlong : lead.toNat = 0xF0 → 0x90 ≤ first.toNat)
    (beyond : lead.toNat = 0xF4 → first.toNat ≤ 0x8F) :
    ∃ f, Begins lead first f ∧ f.count = 3 := by
  by_cases lowest : lead.toNat = 0xF0
  · obtain rfl : lead = 0xF0 := UInt8.toNat_inj.mp lowest
    exact ⟨_, ⟨.threeLow, overlong lowest, high⟩, rfl⟩
  · by_cases highest : lead.toNat = 0xF4
    · obtain rfl : lead = 0xF4 := UInt8.toNat_inj.mp highest
      exact ⟨_, ⟨.threeHigh, low, beyond highest⟩, rfl⟩
    · exact ⟨_, ⟨.three (by omega) (by omega), low, high⟩, rfl⟩

theorem pieces_lead (begins : Begins lead first f) (more : Bytes)
    (all : ∀ b ∈ more, isContinuation b) (full : f.count = more.length + 1) (rest : Bytes) :
    pieces (lead :: first :: more ++ rest) =
      .char (Char.ofNat (codePoint (lead :: first :: more))) :: pieces rest := by
  obtain ⟨leads, least, most⟩ := begins
  have large : ¬lead < 0x80 := by
    rw [UInt8.lt_iff_toNat_lt]
    cases leads <;> simp <;> omega
  have count : f.count - 1 = more.length := by omega
  have taken : takeFollowing f (first :: (more ++ rest)) = (first :: more, rest) := by
    simp [takeFollowing, UInt8.le_iff_toNat_le, least, most, count,
      takeContinuations_append more rest all]
  rw [List.cons_append, List.cons_append, pieces, if_neg large, follow?_of_leads leads]
  simp [taken, full]

theorem pieces_encodeChar (c : Char) (rest : Bytes) :
    pieces (String.utf8EncodeChar c ++ rest) = .char c :: pieces rest := by
  have most := toNat_le c
  have scalar : c.toNat < 0xD800 ∨ 0xDFFF < c.toNat := c.valid.imp_right And.left
  have code := utf8EncodeChar_toNat c
  generalize String.utf8EncodeChar c = bytes at code
  unfold digits at code
  -- One to four bytes, by the size of the character.
  split at code
  · obtain ⟨a, rfl, here⟩ := List.map_eq_singleton_iff.mp code
    have low : a < 0x80 := UInt8.lt_iff_toNat_lt.mpr (by simp; omega)
    rw [List.singleton_append, pieces, if_pos low, here, Char.ofNat_toNat]
  split at code
  · obtain ⟨a, _, rfl, here, code⟩ := List.map_eq_cons_iff.mp code
    obtain ⟨b, rfl, second⟩ := List.map_eq_singleton_iff.mp code
    have begins : Begins a b ⟨1, 0x80, 0xBF⟩ :=
      ⟨.one (by omega) (by omega), by simp; omega, by simp; omega⟩
    have number : codePoint [a, b] = c.toNat := by
      simp only [codePoint, here, second]
      omega
    rw [pieces_lead begins [] (by simp) rfl, number, Char.ofNat_toNat]
  split at code
  · obtain ⟨a, _, rfl, here, code⟩ := List.map_eq_cons_iff.mp code
    obtain ⟨b, _, rfl, second, code⟩ := List.map_eq_cons_iff.mp code
    obtain ⟨d, rfl, third⟩ := List.map_eq_singleton_iff.mp code
    obtain ⟨f, begins, count⟩ : ∃ f, Begins a b f ∧ f.count = 2 :=
      begins_two (by omega) (by omega) (by omega) (by omega) (by omega) (by omega)
    have number : codePoint [a, b, d] = c.toNat := by
      simp only [codePoint, here, second, third]
      omega
    have last : isContinuation d := isContinuation_iff.mpr (by omega)
    rw [pieces_lead begins [d] (by simpa using last) count, number, Char.ofNat_toNat]
  · obtain ⟨a, _, rfl, here, code⟩ := List.map_eq_cons_iff.mp code
    obtain ⟨b, _, rfl, second, code⟩ := List.map_eq_cons_iff.mp code
    obtain ⟨d, _, rfl, third, code⟩ := List.map_eq_cons_iff.mp code
    obtain ⟨e, rfl, fourth⟩ := List.map_eq_singleton_iff.mp code
    obtain ⟨f, begins, count⟩ : ∃ f, Begins a b f ∧ f.count = 3 :=
      begins_three (by omega) (by omega) (by omega) (by omega) (by omega) (by omega)
    have number : codePoint [a, b, d, e] = c.toNat := by
      simp only [codePoint, here, second, third, fourth]
      omega
    have third' : isContinuation d := isContinuation_iff.mpr (by omega)
    have last : isContinuation e := isContinuation_iff.mpr (by omega)
    rw [pieces_lead begins [d, e] (by simp [third', last]) count, number, Char.ofNat_toNat]

theorem pieces_flatMap (letters : List Char) (rest : Bytes) :
    pieces (letters.flatMap String.utf8EncodeChar ++ rest) =
      letters.map .char ++ pieces rest := by
  induction letters with
  | nil => rfl
  | cons c letters ih =>
    rw [List.flatMap_cons, List.append_assoc, pieces_encodeChar, ih, List.map_cons,
      List.cons_append]

theorem lossy_encode (text : String) : lossy (encode text) = text := by
  have whole := pieces_flatMap text.toList []
  rw [List.append_nil, pieces, List.append_nil] at whole
  rw [lossy, encode, whole, List.map_map, show Piece.shown ∘ Piece.char = id from rfl,
    List.map_id, String.ofList_toList]

section Ascii

theorem takeContinuations_suffix (n : Nat) (bytes : Bytes) :
    (takeContinuations n bytes).2 <:+ bytes := by
  induction n generalizing bytes with
  | zero => exact List.suffix_rfl
  | succ n ih =>
    cases bytes with
    | nil => exact List.suffix_rfl
    | cons b bytes =>
      simp only [takeContinuations]
      split
      · exact (ih bytes).trans (List.suffix_cons b bytes)
      · exact List.suffix_rfl

theorem takeFollowing_suffix (f : Follow) (bytes : Bytes) :
    (takeFollowing f bytes).2 <:+ bytes := by
  cases bytes with
  | nil => exact List.suffix_rfl
  | cons b bytes =>
    simp only [takeFollowing]
    split
    · exact (takeContinuations_suffix _ bytes).trans (List.suffix_cons b bytes)
    · exact List.suffix_rfl

theorem begins_of_takeFollowing (leads : Leads lead f)
    (full : (takeFollowing f bytes).1.length = f.count) :
    ∃ first more, (takeFollowing f bytes).1 = first :: more ∧ Begins lead first f := by
  have some : f.count ≠ 0 := by cases leads <;> simp
  cases bytes with
  | nil => exact absurd full.symm some
  | cons b bytes =>
    simp only [takeFollowing] at full ⊢
    split
    · rename_i within
      simp only [Bool.and_eq_true, decide_eq_true_eq, UInt8.le_iff_toNat_le] at within
      exact ⟨b, _, rfl, leads, within.1, within.2⟩
    · rename_i outside
      rw [if_neg outside] at full
      exact absurd full.symm some

theorem codePoint_large (begins : Begins lead first f) (full : more.length + 1 = f.count) :
    0x80 ≤ codePoint (lead :: first :: more) := by
  obtain ⟨leads, least, most⟩ := begins
  cases leads with
  | one =>
    obtain rfl := List.length_eq_zero_iff.mp (Nat.succ.inj full)
    simp only [codePoint]
    omega
  | twoLow | twoHigh | two =>
    obtain ⟨b, rfl⟩ := List.length_eq_one_iff.mp (Nat.succ.inj full)
    simp only [codePoint]
    simp at *
    omega
  | threeLow | threeHigh | three =>
    obtain ⟨b, d, rfl⟩ := List.length_eq_two.mp (Nat.succ.inj full)
    simp only [codePoint]
    simp at *
    omega

theorem toNat_ofNat_of_lt {n : Nat} {c : Char} (some : 0 < c.toNat) (h : Char.ofNat n = c) :
    c.toNat = n := by
  subst h
  by_cases valid : n.isValidChar
  · have same : Char.ofNat n = Char.ofNatAux n valid := dif_pos valid
    rw [same]
    rfl
  · have same : Char.ofNat n = '\x00' := dif_neg valid
    rw [same] at some
    exact absurd some (by decide)

theorem pieces_cons (lead : UInt8) (bytes : Bytes) :
    ∃ piece rest, rest <:+ bytes ∧ pieces (lead :: bytes) = piece :: pieces rest := by
  rw [pieces]
  split
  · exact ⟨_, bytes, List.suffix_rfl, rfl⟩
  · split
    · exact ⟨_, bytes, List.suffix_rfl, rfl⟩
    · exact ⟨_, _, takeFollowing_suffix _ bytes, rfl⟩

theorem pieces_ascii {c : Char} {piece : Piece} {later : List Piece} (some : 0 < c.toNat)
    (ascii : c.toNat < 0x80) (read : pieces (lead :: bytes) = piece :: later)
    (shown : piece.shown = c) : lead = UInt8.ofNat c.toNat ∧ later = pieces bytes := by
  have replaced (broken : Bytes) : (Piece.broken broken).shown ≠ c := by
    rintro rfl
    exact absurd ascii (show ¬ ('\uFFFD').toNat < 0x80 by decide)
  rw [pieces] at read
  split at read
  · cases read
    have shown : Char.ofNat lead.toNat = c := shown
    rw [toNat_ofNat_of_lt some shown, UInt8.ofNat_toNat]
    exact ⟨rfl, rfl⟩
  · split at read
    · cases read
      exact absurd shown (replaced _)
    · rename_i leads
      obtain ⟨rfl, _⟩ := List.cons.inj read
      split at shown
      · rename_i full
        obtain ⟨first, more, taken, begins⟩ := begins_of_takeFollowing (leads_of_follow? leads) full
        rw [taken] at shown full
        have large := codePoint_large begins full
        rw [← toNat_ofNat_of_lt some shown] at large
        exact absurd ascii (Nat.not_lt.mpr large)
      · exact absurd shown (replaced _)

theorem lossy_ne_empty (some : bytes ≠ []) : (lossy bytes).toList ≠ [] := by
  obtain ⟨lead, bytes, rfl⟩ := List.exists_cons_of_ne_nil some
  obtain ⟨piece, rest, _, whole⟩ := pieces_cons lead bytes
  simp [lossy, whole]

theorem mem_of_mem_lossy {c : Char} (some : 0 < c.toNat) (ascii : c.toNat < 0x80)
    (mem : c ∈ (lossy bytes).toList) : UInt8.ofNat c.toNat ∈ bytes := by
  rw [lossy, String.toList_ofList] at mem
  induction size : bytes.length using Nat.strongRecOn generalizing bytes with
  | ind n ih =>
    cases bytes with
    | nil => simp [pieces] at mem
    | cons lead bytes =>
      obtain ⟨piece, rest, within, whole⟩ := pieces_cons lead bytes
      rw [whole, List.map_cons, List.mem_cons] at mem
      rcases mem with here | later
      · rw [(pieces_ascii some ascii whole here.symm).1]
        exact List.mem_cons_self
      · have shorter : rest.length < n := by
          rw [← size, List.length_cons]
          exact Nat.lt_succ_of_le within.length_le
        exact List.mem_cons_of_mem _ (within.subset (ih _ shorter later rfl))

theorem eq_of_lossy {letters : List Char} (ascii : ∀ c ∈ letters, 0 < c.toNat ∧ c.toNat < 0x80)
    (read : (lossy bytes).toList = letters) : bytes = letters.map fun c => UInt8.ofNat c.toNat := by
  rw [lossy, String.toList_ofList] at read
  induction letters generalizing bytes with
  | nil =>
    by_contra some
    exact lossy_ne_empty some (by simpa [lossy] using read)
  | cons c letters ih =>
    obtain ⟨⟨some, here⟩, later⟩ := List.forall_mem_cons.mp ascii
    obtain ⟨piece, more, whole, shown, rest⟩ := List.map_eq_cons_iff.mp read
    cases bytes with
    | nil => simp [pieces] at whole
    | cons lead bytes =>
      obtain ⟨rfl, rfl⟩ := pieces_ascii some here whole shown
      rw [List.map_cons, ← ih later rest]

theorem encodeChar_ascii {c : Char} (ascii : c.toNat < 0x80) :
    String.utf8EncodeChar c = [UInt8.ofNat c.toNat] := if_pos (Nat.le_of_lt_succ ascii)

theorem eq_of_mem_encodeChar {c d : Char} (ascii : c.toNat < 0x80)
    (mem : UInt8.ofNat c.toNat ∈ String.utf8EncodeChar d) : c = d := by
  have byte : (UInt8.ofNat c.toNat).toNat = c.toNat := by simp; omega
  have digit := List.mem_map_of_mem (f := UInt8.toNat) mem
  rw [utf8EncodeChar_toNat, byte] at digit
  suffices same : c.toNat = d.toNat by
    rw [← Char.ofNat_toNat c, same, Char.ofNat_toNat]
  unfold digits at digit
  split at digit
  · simpa using digit
  · split at digit
    · simp only [List.mem_cons, List.not_mem_nil, or_false] at digit
      omega
    · split at digit <;>
      · simp only [List.mem_cons, List.not_mem_nil, or_false] at digit
        omega

theorem mem_flatMap_encodeChar {c : Char} {letters : List Char} (ascii : c.toNat < 0x80) :
    UInt8.ofNat c.toNat ∈ letters.flatMap String.utf8EncodeChar ↔ c ∈ letters := by
  rw [List.mem_flatMap]
  constructor
  · rintro ⟨d, mem, byte⟩
    exact eq_of_mem_encodeChar ascii byte ▸ mem
  · intro mem
    exact ⟨c, mem, by simp [encodeChar_ascii ascii]⟩

end Ascii

end ModuleTree.Text
