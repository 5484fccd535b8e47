import CodeHabits.Source
import CodeHabits.Text.Utf8
import Mathlib.Data.List.Induction
import Mathlib.Data.List.TakeWhile
import Mathlib.Data.Prod.Lex

/-!
# `CodeHabits.Proofs.Text.Position`: bytes, offsets and places

The bytes of a text are those of its characters, one after the other. A
character of ASCII is one byte, and the byte has the number of the character.
Other characters have a first byte that tells how many more there are, and each
of these holds six bits of the number. The first byte also bounds the second
one, and the characters are just the numbers within these bounds. So a text is
read back from its bytes (`decode?_encode`).

An offset between two characters of a text leaves the characters in front of it, and its
place is where these end: on the line after all of their line feeds, behind the characters
after the last one (`Source.exists_front_of_isValid`). One more character ends further on
(`Text.endPlace_lt_append_singleton`), so the places of offsets are in the order of the
offsets (`Source.place_mono`), and none is beyond the last line, with which the text ends
(`Source.place_le_end`).

An offset inside a character has a place too, but bytes that are cut off count as one
character there, so nothing is said of it.
-/

set_option autoImplicit false

/-! ## The bytes of a text -/

namespace CodeHabits.Text

/-- The bytes of an array are listed from the front; what was listed before them
is held back to front. -/
theorem listBytes_from (bytes : ByteArray) (i : Nat) (listed : List UInt8) :
    ByteArray.toList.loop bytes i listed = listed.reverse ++ bytes.data.toList.drop i := by
  fun_induction ByteArray.toList.loop bytes i listed with
  | case1 i listed h ih =>
    have hi : i < bytes.data.toList.length := by simpa using h
    rw [ih, List.drop_eq_getElem_cons hi, List.reverse_cons, List.append_assoc]
    simp [ByteArray.get!, h]
  | case2 i listed h =>
    have hi : bytes.data.toList.length ≤ i := by simpa using h
    rw [List.drop_eq_nil_of_le hi, List.append_nil]

/-- The bytes of a text are those of its characters. -/
theorem encode_ofList (cs : List Char) :
    encode (String.ofList cs) = cs.flatMap String.utf8EncodeChar := by
  rw [encode, String.toUTF8_eq_toByteArray, String.toByteArray_ofList, ByteArray.toList,
    listBytes_from, List.utf8Encode, List.toList_data_toByteArray]
  rfl

/-- A character of ASCII is one byte. -/
theorem utf8EncodeChar_ascii {c : Char} (h : c.toNat < 128) :
    String.utf8EncodeChar c = [UInt8.ofNat c.toNat] := by
  apply String.utf8EncodeChar_eq_singleton
  have hval : c.val ≤ 0x7f := by
    rw [UInt32.le_iff_toNat_le]
    exact Nat.le_of_lt_succ h
  simp [Char.utf8Size, hval]

/-! ### Reading the bytes of a character -/

/-- Bytes are compared by their numbers. -/
theorem within_iff {low b high : UInt8} :
    (decide (low ≤ b) && decide (b ≤ high)) = true ↔
      low.toNat ≤ b.toNat ∧ b.toNat ≤ high.toNat := by
  simp only [Bool.and_eq_true, decide_eq_true_eq, UInt8.le_iff_toNat_le]

theorem not_lt_of_toNat {a : UInt8} (h : 128 ≤ a.toNat) : ¬ a < 0x80 := by
  rw [UInt8.lt_iff_toNat_lt]
  exact Nat.not_lt_of_le h

theorem isContinuationByte_iff {b : UInt8} :
    isContinuationByte b = true ↔ 128 ≤ b.toNat ∧ b.toNat ≤ 191 :=
  within_iff

/-- A byte that continues a character may come second, but for the bounds that
four first bytes set. -/
theorem isSecondByte_of_toNat {a b : UInt8} (h : 128 ≤ b.toNat ∧ b.toNat ≤ 191)
    (hleast : (a.toNat = 224 → 160 ≤ b.toNat) ∧ (a.toNat = 240 → 144 ≤ b.toNat))
    (hmost : (a.toNat = 237 → b.toNat ≤ 159) ∧ (a.toNat = 244 → b.toNat ≤ 143)) :
    isSecondByte a b = true := by
  have hfirst : ∀ {n : UInt8}, (a == n) = true → a.toNat = n.toNat := by
    intro n h
    rw [eq_of_beq h]
  unfold isSecondByte
  split
  · rename_i hsame
    exact within_iff.2 ⟨hleast.1 (hfirst hsame), h.2⟩
  · split
    · rename_i hsame
      exact within_iff.2 ⟨h.1, hmost.1 (hfirst hsame)⟩
    · split
      · rename_i hsame
        exact within_iff.2 ⟨hleast.2 (hfirst hsame), h.2⟩
      · split
        · rename_i hsame
          exact within_iff.2 ⟨h.1, hmost.2 (hfirst hsame)⟩
        · exact isContinuationByte_iff.2 h

section

variable {a b c d : UInt8} {rest : List UInt8} {n : Nat}

theorem decodeParts_one (hn : n ≤ 0x7f) (ha : a.toNat = n) :
    decodeParts (a :: rest) = some (Char.ofNat n) :: decodeParts rest := by
  have hone : a < 0x80 := by
    rw [UInt8.lt_iff_toNat_lt, ha]
    exact Nat.lt_succ_of_le hn
  rw [decodeParts.eq_def]
  simp only [hone, if_true, ha]

theorem decodeParts_two (hlow : 0x7f < n) (hhigh : n ≤ 0x7ff) (ha : a.toNat = n / 64 % 32 + 0xc0)
    (hb : b.toNat = n % 64 + 0x80) :
    decodeParts (a :: b :: rest) = some (Char.ofNat n) :: decodeParts rest := by
  have hone : ¬ a < 0x80 := not_lt_of_toNat (by omega)
  have htwo : (0xc2 ≤ a && a ≤ 0xdf) = true := within_iff.2 (by
    show 194 ≤ _ ∧ _ ≤ 223
    omega)
  have hsecond : isContinuationByte b = true := isContinuationByte_iff.2 (by omega)
  have hnumber : a.toNat % 32 * 64 + payload b = n := by
    rw [payload]
    omega
  rw [decodeParts.eq_def]
  simp only [hone, if_false, htwo, hsecond, if_true, hnumber]

/-- Three bytes leave out the numbers that two are enough for, and the
surrogates. -/
theorem decodeParts_three (hlow : 0x7ff < n) (hhigh : n ≤ 0xffff) (hvalid : n.isValidChar)
    (ha : a.toNat = n / 4096 % 16 + 0xe0) (hb : b.toNat = n / 64 % 64 + 0x80)
    (hc : c.toNat = n % 64 + 0x80) :
    decodeParts (a :: b :: c :: rest) = some (Char.ofNat n) :: decodeParts rest := by
  unfold Nat.isValidChar at hvalid
  have hone : ¬ a < 0x80 := not_lt_of_toNat (by omega)
  have htwo : ¬ (0xc2 ≤ a && a ≤ 0xdf) = true := mt within_iff.1 (by
    show ¬ (194 ≤ _ ∧ _ ≤ 223)
    omega)
  have hthree : (0xe0 ≤ a && a ≤ 0xef) = true := within_iff.2 (by
    show 224 ≤ _ ∧ _ ≤ 239
    omega)
  have hsecond : isSecondByte a b = true :=
    isSecondByte_of_toNat (by omega) ⟨by omega, by omega⟩ ⟨by omega, by omega⟩
  have hthird : isContinuationByte c = true := isContinuationByte_iff.2 (by omega)
  have hnumber : a.toNat % 16 * 4096 + payload b * 64 + payload c = n := by
    rw [payload, payload]
    omega
  rw [decodeParts.eq_def]
  simp only [hone, if_false, htwo, hthree, hsecond, hthird, if_true, hnumber, Bool.not_true,
    Bool.false_eq_true]

/-- Four bytes leave out the numbers that three are enough for, and those beyond
the last character. -/
theorem decodeParts_four (hlow : 0xffff < n) (hvalid : n.isValidChar)
    (ha : a.toNat = n / 262144 % 8 + 0xf0) (hb : b.toNat = n / 4096 % 64 + 0x80)
    (hc : c.toNat = n / 64 % 64 + 0x80) (hd : d.toNat = n % 64 + 0x80) :
    decodeParts (a :: b :: c :: d :: rest) = some (Char.ofNat n) :: decodeParts rest := by
  unfold Nat.isValidChar at hvalid
  have hone : ¬ a < 0x80 := not_lt_of_toNat (by omega)
  have htwo : ¬ (0xc2 ≤ a && a ≤ 0xdf) = true := mt within_iff.1 (by
    show ¬ (194 ≤ _ ∧ _ ≤ 223)
    omega)
  have hthree : ¬ (0xe0 ≤ a && a ≤ 0xef) = true := mt within_iff.1 (by
    show ¬ (224 ≤ _ ∧ _ ≤ 239)
    omega)
  have hfour : (0xf0 ≤ a && a ≤ 0xf4) = true := within_iff.2 (by
    show 240 ≤ _ ∧ _ ≤ 244
    omega)
  have hsecond : isSecondByte a b = true :=
    isSecondByte_of_toNat (by omega) ⟨by omega, by omega⟩ ⟨by omega, by omega⟩
  have hthird : isContinuationByte c = true := isContinuationByte_iff.2 (by omega)
  have hfourth : isContinuationByte d = true := isContinuationByte_iff.2 (by omega)
  have hnumber : a.toNat % 8 * 262144 + payload b * 4096 + payload c * 64 + payload d = n := by
    rw [payload, payload, payload]
    omega
  rw [decodeParts.eq_def]
  simp only [hone, if_false, htwo, hthree, hfour, hsecond, hthird, hfourth, if_true, hnumber,
    Bool.not_true, Bool.false_eq_true]

end

/-- The bytes of a character are read as this character. -/
theorem decodeParts_utf8EncodeChar (c : Char) (rest : List UInt8) :
    decodeParts (String.utf8EncodeChar c ++ rest) = some c :: decodeParts rest := by
  have hvalid : c.val.toNat.isValidChar := c.valid
  have hchar : Char.ofNat c.val.toNat = c := c.ofNat_toNat
  unfold String.utf8EncodeChar
  generalize c.val.toNat = n at hvalid hchar ⊢
  subst hchar
  have hbyte : ∀ {k : Nat}, k < 256 → (UInt8.ofNat k).toNat = k := fun h => by
    rw [UInt8.toNat_ofNat']
    exact Nat.mod_eq_of_lt h
  have hbounds := hvalid
  unfold Nat.isValidChar at hbounds
  dsimp only
  split
  · rename_i hone
    refine decodeParts_one hone (hbyte ?_)
    omega
  · rename_i hone
    split
    · rename_i htwo
      refine decodeParts_two (Nat.lt_of_not_le hone) htwo (hbyte ?_) (hbyte ?_) <;> omega
    · rename_i htwo
      split
      · rename_i hthree
        refine decodeParts_three (Nat.lt_of_not_le htwo) hthree hvalid (hbyte ?_) (hbyte ?_)
          (hbyte ?_) <;> omega
      · rename_i hthree
        refine decodeParts_four (Nat.lt_of_not_le hthree) hvalid (hbyte ?_) (hbyte ?_) (hbyte ?_)
          (hbyte ?_) <;> omega

/-- The bytes of a text are read as its characters. -/
theorem decode?_encode (s : String) : decode? (encode s) = some s.toList := by
  have hread : ∀ cs : List Char, decode? (cs.flatMap String.utf8EncodeChar) = some cs := by
    intro cs
    induction cs with
    | nil => rfl
    | cons c rest ih =>
      rw [decode?] at ih ⊢
      rw [List.flatMap_cons, decodeParts_utf8EncodeChar, List.mapM_cons, ih]
      rfl
  rw [← String.ofList_toList (s := s), encode_ofList, hread, String.toList_ofList]

end CodeHabits.Text

/-! ## Offsets and places -/

namespace CodeHabits

namespace Text

/-- The characters after the last line feed. -/
def lastLine (front : List Char) : List Char :=
  (front.reverse.takeWhile (· != '\n')).reverse

/-- Where characters end: a line, counted from one, and a column. -/
def endPlace (front : List Char) : Int ×ₗ Int :=
  toLex (((front.count '\n' + 1 : Nat) : Int), ((lastLine front).length : Int))

theorem lastLine_append_feed (front : List Char) : lastLine (front ++ ['\n']) = [] := by
  simp [lastLine]

theorem lastLine_append_singleton (front : List Char) {c : Char} (h : c ≠ '\n') :
    lastLine (front ++ [c]) = lastLine front ++ [c] := by
  simp [lastLine, h]

/-- Without line feeds, looking for one from behind passes all characters. -/
theorem takeWhile_reverse_eq_self {cs : List Char} (h : '\n' ∉ cs) :
    cs.reverse.takeWhile (· != '\n') = cs.reverse := by
  rw [List.takeWhile_eq_self_iff]
  intro c hc
  rw [bne_iff_ne]
  rintro rfl
  exact h (List.mem_reverse.1 hc)

theorem lastLine_eq_self {front : List Char} (h : '\n' ∉ front) : lastLine front = front := by
  rw [lastLine, takeWhile_reverse_eq_self h, List.reverse_reverse]

theorem lastLine_append_cons (front : List Char) {line : List Char} (h : '\n' ∉ line) :
    lastLine (front ++ '\n' :: line) = line := by
  have hall : ∀ c ∈ line.reverse, (c != '\n') = true :=
    List.takeWhile_eq_self_iff.1 (takeWhile_reverse_eq_self h)
  rw [lastLine, List.reverse_append, List.reverse_cons, List.append_assoc,
    List.takeWhile_append_of_pos hall]
  simp

/-- A line feed ends on the next line, any other character one column further. -/
theorem endPlace_lt_append_singleton (front : List Char) (c : Char) :
    endPlace front < endPlace (front ++ [c]) := by
  rw [endPlace, endPlace, Prod.Lex.toLex_lt_toLex]
  by_cases h : c = '\n'
  · left
    simp only [h, List.count_append, List.count_singleton_self]
    omega
  · right
    have hline : (front ++ [c]).count '\n' = front.count '\n' := by
      simp [h]
    rw [hline, lastLine_append_singleton front h, List.length_append, List.length_singleton]
    exact ⟨rfl, by omega⟩

theorem endPlace_le_append (front more : List Char) : endPlace front ≤ endPlace (front ++ more) := by
  induction more using List.reverseRecOn with
  | nil => simp
  | append_singleton more c ih =>
    rw [← List.append_assoc]
    exact le_trans ih (le_of_lt (endPlace_lt_append_singleton _ c))

theorem endPlace_of_prefix {front longer : List Char} (h : front <+: longer) :
    endPlace front ≤ endPlace longer := by
  obtain ⟨more, rfl⟩ := h
  exact endPlace_le_append front more

/-- Of the beginnings of a text, a shorter one ends before a longer one. -/
theorem endPlace_take_lt {cs : List Char} {i j : Nat} (hij : i < j) (hj : j ≤ cs.length) :
    endPlace (cs.take i) < endPlace (cs.take j) := by
  have hi : i < cs.length := Nat.lt_of_lt_of_le hij hj
  calc endPlace (cs.take i)
      < endPlace (cs.take i ++ [cs[i]]) := endPlace_lt_append_singleton _ _
    _ = endPlace (cs.take (i + 1)) := by rw [List.take_append_getElem hi]
    _ ≤ endPlace (cs.take j) := endPlace_of_prefix (List.take_prefix_take_left (by omega))

/-! ### Bytes -/

/-- The bytes of characters. -/
abbrev bytesOf (cs : List Char) : List UInt8 :=
  cs.flatMap String.utf8EncodeChar

theorem bytesOf_append (front rest : List Char) :
    bytesOf (front ++ rest) = bytesOf front ++ bytesOf rest :=
  List.flatMap_append

theorem length_bytesOf (cs : List Char) : (bytesOf cs).length = (String.ofList cs).utf8ByteSize := by
  rw [← String.size_toByteArray, String.toByteArray_ofList, List.utf8Encode]
  simp

theorem length_bytesOf_cons (c : Char) (rest : List Char) :
    (bytesOf (c :: rest)).length = c.utf8Size + (bytesOf rest).length := by
  rw [bytesOf, List.flatMap_cons, List.length_append, String.length_utf8EncodeChar]

theorem length_le_length_bytesOf (cs : List Char) : cs.length ≤ (bytesOf cs).length := by
  induction cs with
  | nil => simp
  | cons c rest ih =>
    have := c.utf8Size_pos
    rw [length_bytesOf_cons, List.length_cons]
    omega

/-- There are as many bytes as characters exactly if every character has one. -/
theorem length_bytesOf_eq_iff (cs : List Char) :
    (bytesOf cs).length = cs.length ↔ ∀ c ∈ cs, c.toNat < 128 := by
  induction cs with
  | nil => simp
  | cons c rest ih =>
    have hsize : c.utf8Size = 1 ↔ c.toNat < 128 := by
      rw [Char.utf8Size_eq_one_iff, UInt32.le_iff_toNat_le]
      exact Nat.lt_succ_iff.symm
    have hpos := c.utf8Size_pos
    have hrest := length_le_length_bytesOf rest
    rw [length_bytesOf_cons, List.length_cons, List.forall_mem_cons, ← hsize, ← ih]
    omega

/-- Bytes of characters are decoded to these. -/
theorem decode_bytesOf (cs : List Char) : decode (bytesOf cs) = cs := by
  induction cs with
  | nil => rfl
  | cons c rest ih =>
    rw [decode] at ih ⊢
    rw [bytesOf, List.flatMap_cons, decodeParts_utf8EncodeChar, List.map_cons, ih]
    rfl

/-- Only the line feed has the byte of a line feed. -/
theorem ne_ten_of_mem_utf8EncodeChar {c : Char} (h : c ≠ '\n') :
    ∀ b ∈ String.utf8EncodeChar c, b ≠ 10 := by
  have hval : c.val.toNat ≠ 10 := by
    intro hten
    exact h (Char.ext (UInt32.toNat_inj.1 hten))
  have hbyte : ∀ {k : Nat}, k % 256 ≠ 10 → UInt8.ofNat k ≠ 10 := by
    intro k hk hten
    have htoNat := congrArg UInt8.toNat hten
    rw [UInt8.toNat_ofNat'] at htoNat
    exact hk htoNat
  -- One byte is the code point itself, and of several each has its highest bit set.
  unfold String.utf8EncodeChar
  generalize c.val.toNat = n at hval ⊢
  dsimp only
  split
  · simp only [List.mem_singleton, forall_eq]
    exact hbyte (by omega)
  · split
    · simp only [List.mem_cons, List.not_mem_nil, or_false, forall_eq_or_imp, forall_eq]
      exact ⟨hbyte (by omega), hbyte (by omega)⟩
    · split
      · simp only [List.mem_cons, List.not_mem_nil, or_false, forall_eq_or_imp, forall_eq]
        exact ⟨hbyte (by omega), hbyte (by omega), hbyte (by omega)⟩
      · simp only [List.mem_cons, List.not_mem_nil, or_false, forall_eq_or_imp, forall_eq]
        exact ⟨hbyte (by omega), hbyte (by omega), hbyte (by omega), hbyte (by omega)⟩

theorem utf8EncodeChar_feed : String.utf8EncodeChar '\n' = [10] := by
  decide

/-- The line feeds are counted by their bytes. -/
theorem count_bytesOf (cs : List Char) : (bytesOf cs).count 10 = cs.count '\n' := by
  induction cs with
  | nil => rfl
  | cons c rest ih =>
    rw [bytesOf, List.flatMap_cons, List.count_append, ih]
    by_cases h : c = '\n'
    · rw [h, utf8EncodeChar_feed, List.count_cons_self]
      simp [Nat.add_comm]
    · have hnone : (String.utf8EncodeChar c).count 10 = 0 :=
        List.count_eq_zero.2 fun hten => ne_ten_of_mem_utf8EncodeChar h 10 hten rfl
      rw [hnone, List.count_cons_of_ne h, Nat.zero_add]

/-- The bytes after the last line feed are those of the characters after it. -/
theorem takeWhile_bytesOf (cs : List Char) :
    ((bytesOf cs).reverse.takeWhile (· != 10)).reverse = bytesOf (lastLine cs) := by
  induction cs using List.reverseRecOn with
  | nil => rfl
  | append_singleton cs c ih =>
    -- From behind the bytes of the last character come first.
    have hlast : bytesOf (cs ++ [c]) = bytesOf cs ++ String.utf8EncodeChar c := by
      rw [bytesOf_append]
      simp
    by_cases h : c = '\n'
    · rw [hlast, h, utf8EncodeChar_feed, lastLine_append_feed]
      simp
    · have hall : ∀ b ∈ (String.utf8EncodeChar c).reverse, (b != 10) = true := by
        intro b hb
        exact bne_iff_ne.2 (ne_ten_of_mem_utf8EncodeChar h b (List.mem_reverse.1 hb))
      rw [hlast, List.reverse_append, List.takeWhile_append_of_pos hall, List.reverse_append, ih,
        lastLine_append_singleton cs h, bytesOf_append]
      simp

/-! ### Lines -/

theorem length_feedLines (cs : List Char) : (feedLines cs).length = cs.count '\n' + 1 := by
  unfold feedLines
  induction cs with
  | nil => rfl
  | cons c rest ih =>
    rw [List.splitOn_cons_eq_if_modifyHead]
    by_cases h : c = '\n'
    · simp [h, ih]
    · simp [h, ih, List.count_cons_of_ne]

/-- The last line of a text is what follows its last line feed. -/
theorem getLast?_feedLines (cs : List Char) : (feedLines cs).getLast? = some (lastLine cs) := by
  unfold feedLines
  by_cases h : '\n' ∈ cs
  · -- Split at the last line feed, which is the first one from behind.
    obtain ⟨after, before, hsplit, hnone⟩ := List.eq_append_cons_of_mem (List.mem_reverse.2 h)
    have hcs : cs = before.reverse ++ '\n' :: after.reverse := by
      rw [← List.reverse_reverse cs, hsplit]
      simp
    have hline : '\n' ∉ after.reverse := by simpa using hnone
    rw [hcs, List.splitOn_append_cons_self, List.splitOn_eq_singleton hline,
      lastLine_append_cons _ hline, List.getLast?_append]
    rfl
  · rw [List.splitOn_eq_singleton h, lastLine_eq_self h]
    rfl

end Text

namespace Source

open Text

/-- The place of an offset: its line and its column. -/
def place (s : Source) (offset : Nat) : Int ×ₗ Int :=
  toLex ((s.line offset : Int), (s.column offset : Int))

/-- Behind the bytes of the characters in front is where these end. -/
theorem place_of_append {text : String} {front rest : List Char}
    (h : text.toList = front ++ rest) :
    (ofString text).place (bytesOf front).length = endPlace front := by
  have htake : (ofString text).bytes.take (bytesOf front).length = bytesOf front := by
    show (encode text).take _ = _
    rw [← String.ofList_toList (s := text), encode_ofList, h, List.flatMap_append,
      List.take_left]
  rw [place, line, row, column, lineBefore, htake, count_bytesOf, takeWhile_bytesOf,
    decode_bytesOf, endPlace]

/-- An offset between characters leaves those in front of it, which end at its place. -/
theorem exists_front_of_isValid {text : String} {offset : Nat}
    (h : (⟨offset⟩ : String.Pos.Raw).IsValid text) :
    ∃ front, front <+: text.toList ∧ offset = (bytesOf front).length ∧
      (ofString text).place offset = endPlace front := by
  obtain ⟨count, hoffset⟩ := String.Pos.Raw.isValid_iff_exists_take_toList.1 h
  have hbytes : offset = (bytesOf (text.toList.take count)).length := by
    rw [length_bytesOf]
    exact hoffset
  refine ⟨text.toList.take count, List.take_prefix _ _, hbytes, ?_⟩
  rw [hbytes]
  exact place_of_append (List.take_append_drop count text.toList).symm

/-- Of two beginnings of a text, the one with no more bytes is the shorter one. -/
theorem prefix_of_length_le {text front longer : List Char} (hfront : front <+: text)
    (hlonger : longer <+: text) (h : (bytesOf front).length ≤ (bytesOf longer).length) :
    front <+: longer := by
  rcases List.prefix_or_prefix_of_prefix hfront hlonger with hprefix | ⟨more, rfl⟩
  · exact hprefix
  · -- What is more has no bytes, so it is nothing.
    rw [bytesOf_append, List.length_append] at h
    have hmore : (bytesOf more).length = 0 := by omega
    cases more with
    | nil => simp
    | cons c more =>
      rw [bytesOf, List.flatMap_cons, List.length_append, String.length_utf8EncodeChar] at hmore
      have := c.utf8Size_pos
      omega

/-- Places are in the order of the offsets. -/
theorem place_mono {text : String} {i j : Nat} (hi : (⟨i⟩ : String.Pos.Raw).IsValid text)
    (hj : (⟨j⟩ : String.Pos.Raw).IsValid text) (h : i ≤ j) :
    (ofString text).place i ≤ (ofString text).place j := by
  obtain ⟨front, hfront, rfl, hfirst⟩ := exists_front_of_isValid hi
  obtain ⟨longer, hlonger, rfl, hsecond⟩ := exists_front_of_isValid hj
  rw [hfirst, hsecond]
  exact endPlace_of_prefix (prefix_of_length_le hfront hlonger h)

/-- No place is before the first column of the first line. -/
theorem start_le_place {text : String} {offset : Nat}
    (h : (⟨offset⟩ : String.Pos.Raw).IsValid text) :
    toLex ((1 : Int), (0 : Int)) ≤ (ofString text).place offset := by
  obtain ⟨front, _, _, hplace⟩ := exists_front_of_isValid h
  rw [hplace]
  exact endPlace_of_prefix List.nil_prefix

/-- No place is beyond the end of the last line. -/
theorem place_le_end {text : String} {offset : Nat}
    (h : (⟨offset⟩ : String.Pos.Raw).IsValid text) :
    (ofString text).place offset ≤
      toLex (((feedLines text.toList).length : Int),
        (((feedLines text.toList).getLast?.getD []).length : Int)) := by
  obtain ⟨front, hfront, _, hplace⟩ := exists_front_of_isValid h
  rw [hplace, length_feedLines, getLast?_feedLines]
  exact endPlace_of_prefix hfront

end Source

end CodeHabits
