import CodeHabits.Proofs.Text.Position
import CodeHabits.Proofs.Time.Calendar
import CodeHabits.Time.Reader
import Mathlib.Algebra.Group.Nat.Defs

/-!
# `CodeHabits.Proofs.Time.Written`: timestamps read as they were written

A timestamp that is written and read again is the same timestamp, if it is one
that can be read at all: its local time lies in the calendar, and its offset is
less than a day and either nothing or at least a second. These are exactly the
timestamps that some text stands for (`Timestamp.valid_iff_exists_text`). An
offset of less than a second can be written, but it is nothing when it is read
(`Timestamp.reread`).

The written form is gone through from the left. Numbers are written in a fixed
number of digits, so the reader takes them whole (`takeDigits?_padLeft`); the
clock time has three lengths, and `readClock?_clockText` covers them for the
time of day and for the offset alike.
-/

set_option autoImplicit false

namespace CodeHabits.Time

/-! ### Digits -/

/-- So many digits at the front are taken together. -/
theorem takeDigits?_append (ds : List Char) (hds : ∀ c ∈ ds, c.isDigit) (value : Nat)
    (rest : List Char) :
    takeDigits? ds.length value (ds ++ rest) = some (Nat.ofDigitChars 10 ds value, rest) := by
  induction ds generalizing value with
  | nil => rfl
  | cons c ds ih =>
    have hc : c.isDigit := hds c (by simp)
    rw [List.length_cons, List.cons_append, takeDigits?, if_pos hc,
      ih (fun d hd => hds d (by simp [hd])), Nat.ofDigitChars_cons]
    rfl

theorem isDigit_of_mem_padLeft {width n : Nat} {c : Char}
    (h : c ∈ Decimal.padLeft width (Decimal.digits n)) : c.isDigit := by
  rw [Decimal.padLeft, List.mem_append] at h
  rcases h with h | h
  · rw [List.eq_of_mem_replicate h]
    rfl
  · exact Nat.isDigit_of_mem_toDigits (by omega) (by omega) h

theorem length_padLeft {width n : Nat} (hwidth : 0 < width) (h : n < 10 ^ width) :
    (Decimal.padLeft width (Decimal.digits n)).length = width := by
  have hlength : (Decimal.digits n).length ≤ width :=
    (Nat.length_toDigits_le_iff (by omega) hwidth).2 h
  rw [Decimal.padLeft, List.length_append, List.length_replicate]
  omega

/-- A number that fits into a field is read back from it. -/
theorem takeDigits?_padLeft {width n : Nat} (hwidth : 0 < width) (h : n < 10 ^ width)
    (rest : List Char) :
    takeDigits? width 0 (Decimal.padLeft width (Decimal.digits n) ++ rest) = some (n, rest) := by
  have hvalue : Nat.ofDigitChars 10 (Decimal.padLeft width (Decimal.digits n)) 0 = n := by
    rw [Decimal.padLeft, Nat.ofDigitChars_append, Nat.ofDigitChars_replicate_zero, Nat.mul_zero]
    exact Nat.ofDigitChars_ten_toDigits
  have htake := takeDigits?_append (Decimal.padLeft width (Decimal.digits n))
    (fun c => isDigit_of_mem_padLeft) 0 rest
  rwa [length_padLeft hwidth h, hvalue] at htake

/-! ### Clock times -/

/-- A pair of digits that nothing belonging to the time follows. -/
theorem readPairs?_last {left n limit : Nat} (hn : n < 100) (hlimit : limit ≤ 3)
    (separated : Bool) (values : List Nat) (rest : List Char) :
    readPairs? (left + 1) separated values
        (Decimal.padLeft 2 (Decimal.digits n) ++ rest) limit
      = some ((n :: values).reverse, 0, charAt rest 0 != '\x00') := by
  rw [readPairs?, takeDigits?_padLeft (by omega) (by omega)]
  simp [hlimit]

/-- A pair of digits before a colon. -/
theorem readPairs?_colon {left n limit : Nat} (hn : n < 100) (hlimit : 3 < limit)
    (values : List Nat) (rest : List Char) :
    readPairs? (left + 1) true values
        (Decimal.padLeft 2 (Decimal.digits n) ++ ':' :: rest) limit
      = readPairs? left true (n :: values) rest (limit - 3) := by
  have hnot : ¬limit ≤ 3 := by omega
  rw [readPairs?, takeDigits?_padLeft (by omega) (by omega)]
  simp [hnot, charAt]

/-- A pair of digits before a point and six further digits. -/
theorem readPairs?_point {left n micros : Nat} (hn : n < 100) (hmicros : micros < 1000000)
    (values : List Nat) (hvalues : values ≠ []) {rest : List Char}
    (hrest : (charAt rest 0).isDigit = false) :
    readPairs? (left + 1) true values
        (Decimal.padLeft 2 (Decimal.digits n)
          ++ '.' :: (Decimal.padLeft 6 (Decimal.digits micros) ++ rest)) 9
      = some ((n :: values).reverse, micros, charAt rest 0 != '\x00') := by
  have hdrop : rest.dropWhile Char.isDigit = rest := by
    cases rest with
    | nil => rfl
    | cons c rest => exact List.dropWhile_cons_of_neg (by simpa [charAt] using hrest)
  rw [readPairs?, takeDigits?_padLeft (by omega) (by omega)]
  simp [charAt, hvalues, readFraction?, takeDigits?_padLeft, hmicros, hdrop, pow10]

/-- A time of day as hours, minutes, seconds and microseconds. -/
def Clock.ofMicroseconds (micros : Nat) : Clock :=
  ⟨micros / 1000000 / 3600, micros / 1000000 / 60 % 60, micros / 1000000 % 60, micros % 1000000⟩

theorem Clock.microseconds?_ofMicroseconds {micros : Nat} (h : micros < 86400000000) :
    (ofMicroseconds micros).microseconds? = some (micros : Int) := by
  have hexists : micros / 1000000 / 3600 < 24 ∧ micros / 1000000 / 60 % 60 < 60
      ∧ micros / 1000000 % 60 < 60 := by omega
  have hsum : micros / 1000000 / 3600 * 3600 + micros / 1000000 / 60 % 60 * 60
      + micros / 1000000 % 60 = micros / 1000000 := by omega
  simp only [ofMicroseconds, microseconds?, hexists, decide_true, Bool.and_self, if_true, hsum,
    oneSecond]
  exact congrArg some (by omega)

/-- The three lengths of a written clock time. -/
theorem toList_clockText (short : Bool) (micros : Nat) :
    (Timestamp.clockText short micros).toList
      = Decimal.padLeft 2 (Decimal.digits (micros / 1000000 / 3600)) ++ ':'
        :: (Decimal.padLeft 2 (Decimal.digits (micros / 1000000 / 60 % 60))
          ++ if short && micros / 1000000 % 60 == 0 && micros % 1000000 == 0 then []
            else ':' :: (Decimal.padLeft 2 (Decimal.digits (micros / 1000000 % 60))
              ++ if micros % 1000000 = 0 then []
                else '.' :: Decimal.padLeft 6 (Decimal.digits (micros % 1000000)))) := by
  simp only [Timestamp.clockText]
  by_cases hshort : (short && micros / 1000000 % 60 == 0 && micros % 1000000 == 0) = true
  · rw [if_pos hshort, if_pos hshort]
    simp [Timestamp.padded]
  · rw [if_neg hshort, if_neg hshort]
    by_cases hmicros : micros % 1000000 = 0 <;> simp [Timestamp.padded, hmicros]

/-- A clock time consists of digits, colons and a point. -/
theorem mem_clockText_cases {short : Bool} {micros : Nat} {c : Char}
    (h : c ∈ (Timestamp.clockText short micros).toList) : c.isDigit ∨ c = ':' ∨ c = '.' := by
  have hdigit (width n : Nat) (h : c ∈ Decimal.padLeft width (Decimal.digits n)) :
      c.isDigit ∨ c = ':' ∨ c = '.' := .inl (isDigit_of_mem_padLeft h)
  rw [toList_clockText, List.mem_append, List.mem_cons, List.mem_append] at h
  rcases h with h | rfl | h | h
  · exact hdigit _ _ h
  · exact .inr (.inl rfl)
  · exact hdigit _ _ h
  split at h
  · simp at h
  rw [List.mem_cons, List.mem_append] at h
  rcases h with rfl | h | h
  · exact .inr (.inl rfl)
  · exact hdigit _ _ h
  split at h
  · simp at h
  rcases List.mem_cons.1 h with rfl | h
  · exact .inr (.inr rfl)
  · exact hdigit _ _ h

/-- A clock time is read as it was written, whatever follows it, unless that
begins with a digit. -/
theorem readClock?_clockText (short : Bool) {micros : Nat} (hmicros : micros < 86400000000)
    {rest : List Char} (hrest : (charAt rest 0).isDigit = false) :
    readClock? ((Timestamp.clockText short micros).toList ++ rest)
        (Timestamp.clockText short micros).toList.length
      = some (.ofMicroseconds micros, charAt rest 0 != '\x00') := by
  have hhour : (Decimal.padLeft 2 (Decimal.digits (micros / 1000000 / 3600))).length = 2 :=
    length_padLeft (by omega) (by omega)
  have hminute : (Decimal.padLeft 2 (Decimal.digits (micros / 1000000 / 60 % 60))).length = 2 :=
    length_padLeft (by omega) (by omega)
  have hsecond : (Decimal.padLeft 2 (Decimal.digits (micros / 1000000 % 60))).length = 2 :=
    length_padLeft (by omega) (by omega)
  have hfraction : (Decimal.padLeft 6 (Decimal.digits (micros % 1000000))).length = 6 :=
    length_padLeft (by omega) (by omega)
  rw [toList_clockText, readClock?]
  by_cases hshort : (short && micros / 1000000 % 60 == 0 && micros % 1000000 == 0) = true
  · have hzero : micros / 1000000 % 60 = 0 ∧ micros % 1000000 = 0 := by simp_all
    simp only [if_pos hshort, List.append_nil, List.append_assoc, List.cons_append,
      List.length_append, List.length_cons, hhour, hminute]
    rw [readPairs?_colon (by omega) (by omega), readPairs?_last (by omega) (by omega)]
    simp [Clock.ofMicroseconds, hzero]
  · by_cases hmicros : micros % 1000000 = 0
    · simp only [if_neg hshort, if_pos hmicros, List.append_nil, List.append_assoc,
        List.cons_append, List.length_append, List.length_cons, hhour, hminute, hsecond]
      rw [readPairs?_colon (by omega) (by omega), readPairs?_colon (by omega) (by omega),
        readPairs?_last (by omega) (by omega)]
      simp [Clock.ofMicroseconds, hmicros]
    · simp only [if_neg hshort, if_neg hmicros, List.append_assoc,
        List.cons_append, List.length_append, List.length_cons, hhour, hminute, hsecond, hfraction]
      rw [readPairs?_colon (by omega) (by omega), readPairs?_colon (by omega) (by omega),
        readPairs?_point (by omega) (by omega) _ (by simp) hrest]
      simp [Clock.ofMicroseconds]

/-! ### Dates -/

theorem isDigit_charAt_padLeft {width n i : Nat} (h : n < 10 ^ width) (hi : i < width)
    (rest : List Char) :
    (charAt (Decimal.padLeft width (Decimal.digits n) ++ rest) i).isDigit := by
  have hlength := length_padLeft (Nat.zero_lt_of_lt hi) h
  rw [charAt, List.getElem?_append_left (by omega), List.getElem?_eq_getElem (by omega)]
  exact isDigit_of_mem_padLeft (List.getElem_mem _)

theorem ne_of_isDigit {c other : Char} (hc : c.isDigit) (hother : other.isDigit = false) :
    c ≠ other := by
  rintro rfl
  simp [hc] at hother

theorem toList_dateText (d : Date) :
    (Timestamp.dateText d).toList
      = Decimal.padLeft 4 (Decimal.digits d.year) ++ '-'
        :: (Decimal.padLeft 2 (Decimal.digits d.month) ++ '-'
          :: Decimal.padLeft 2 (Decimal.digits d.day)) := by
  simp [Timestamp.dateText, Timestamp.padded]

/-- A date that can be written takes ten characters. -/
structure Date.Fits (d : Date) : Prop where
  year : d.year < 10000
  month : d.month < 100
  day : d.day < 100

theorem Date.fits_of_isValid {d : Date} (h : d.isValid) : d.Fits := by
  simp only [isValid, Bool.and_eq_true, decide_eq_true_eq] at h
  obtain ⟨⟨⟨⟨⟨_, hyear⟩, _⟩, hmonth⟩, _⟩, hday⟩ := h
  have hlast : daysInMonth d.year d.month ≤ 31 := by
    unfold daysInMonth
    split
    · split <;> omega
    all_goals omega
  exact ⟨by omega, by omega, by omega⟩

theorem length_dateText {d : Date} (h : d.Fits) : (Timestamp.dateText d).toList.length = 10 := by
  simp [toList_dateText, length_padLeft, h.year, h.month, h.day]

/-- The date is where a date with hyphens ends. -/
theorem dateLength_dateText {d : Date} (h : d.Fits) (rest : List Char) {size : Nat}
    (hsize : size ≠ 7) : dateLength ((Timestamp.dateText d).toList ++ rest) size = 10 := by
  have hyear := length_padLeft (show 0 < 4 by omega) h.year
  have hhyphen : charAt ((Timestamp.dateText d).toList ++ rest) 4 = '-' := by
    rw [toList_dateText, List.append_assoc, charAt, List.getElem?_append_right (by omega)]
    simp [hyear]
  have hmonth : (charAt ((Timestamp.dateText d).toList ++ rest) 5).isDigit := by
    have hdigit := isDigit_charAt_padLeft (show d.month < 10 ^ 2 from h.month) (show 0 < 2 by omega)
      ('-' :: (Decimal.padLeft 2 (Decimal.digits d.day) ++ rest))
    rw [toList_dateText, List.append_assoc, charAt, List.getElem?_append_right (by omega)]
    simpa [hyear, charAt] using hdigit
  have hnoWeek := ne_of_isDigit hmonth (show 'W'.isDigit = false by decide)
  simp [dateLength, hsize, hhyphen, hnoWeek]

/-- A date is read as it was written. -/
theorem readDate?_dateText {d : Date} (h : d.Fits) (rest : List Char) :
    readDate? ((Timestamp.dateText d).toList ++ rest) 10 = some d := by
  let dayOn := Decimal.padLeft 2 (Decimal.digits d.day) ++ rest
  let monthOn := Decimal.padLeft 2 (Decimal.digits d.month) ++ '-' :: dayOn
  have hyear : takeDigits? 4 0 ((Timestamp.dateText d).toList ++ rest)
      = some (d.year, '-' :: monthOn) := by
    rw [toList_dateText]
    simp only [List.append_assoc, List.cons_append]
    exact takeDigits?_padLeft (by omega) h.year _
  have hmonth : takeDigits? 2 0 monthOn = some (d.month, '-' :: dayOn) :=
    takeDigits?_padLeft (by omega) h.month _
  have hday : takeDigits? 2 0 dayOn = some (d.day, rest) :=
    takeDigits?_padLeft (by omega) h.day _
  have hnoWeek : charAt monthOn 0 ≠ 'W' :=
    ne_of_isDigit (isDigit_charAt_padLeft h.month (by omega) _) (by decide)
  have hhyphen (cs : List Char) : charAt ('-' :: cs) 0 = '-' := rfl
  simp [readDate?, hyear, hmonth, hday, hnoWeek, length_dateText h, hhyphen]

/-! ### Offsets and whole timestamps -/

/-- An offset is read as it was written, if it is at least a second. -/
theorem readOffset?_clockText {sign : Char} (hsign : sign = '+' ∨ sign = '-') {micros : Nat}
    (hsmall : micros < 86400000000) :
    readOffset? (sign :: (Timestamp.clockText true micros).toList)
      = some (if micros < 1000000 then 0 else if sign == '-' then -(micros : Int) else micros) := by
  have hclock := readClock?_clockText true hsmall (show (charAt [] 0).isDigit = false by decide)
  rw [List.append_nil] at hclock
  have hseconds : ((micros / 1000000 / 3600 : Nat) : Int) * 3600
      + ((micros / 1000000 / 60 % 60 : Nat) : Int) * 60 + ((micros / 1000000 % 60 : Nat) : Int)
      = ((micros / 1000000 : Nat) : Int) := by omega
  have hmicros : ((micros / 1000000 : Nat) : Int) * oneSecond + ((micros % 1000000 : Nat) : Int)
      = micros := by
    rw [oneSecond]
    omega
  have hnotZ : sign ≠ 'Z' := by
    rcases hsign with rfl | rfl <;> decide
  have hday : ¬oneDay ≤ (micros : Int) := by
    rw [oneDay, oneSecond]
    omega
  rw [readOffset?.eq_3 sign _ hnotZ, hclock]
  simp only [Option.bind_eq_bind, Option.bind_some, Clock.ofMicroseconds, hseconds, hmicros]
  rw [if_neg (by decide), if_neg hday]
  by_cases hsecond : micros < 1000000
  · have hzero : ((micros / 1000000 : Nat) : Int) = 0 := by omega
    rw [if_pos hzero, if_pos hsecond]
  · have hzero : ((micros / 1000000 : Nat) : Int) ≠ 0 := by omega
    rw [if_neg hzero, if_neg hsecond]

/-- A timestamp of the calendar with an offset that can be written. -/
structure Timestamp.InRange (t : Timestamp) : Prop where
  /-- Local time lies in the calendar. -/
  inCalendar : 0 ≤ t.localTime ∧ t.localTime < calendarEnd
  belowDay : t.offset.natAbs < 86400000000

/-- A timestamp that can be read. -/
structure Timestamp.Valid (t : Timestamp) : Prop where
  /-- Local time lies in the calendar. -/
  inCalendar : 0 ≤ t.localTime ∧ t.localTime < calendarEnd
  /-- An offset is not a fraction of a second. -/
  wholeSecond : t.offset = 0 ∨ 1000000 ≤ t.offset.natAbs
  belowDay : t.offset.natAbs < 86400000000

theorem Timestamp.Valid.inRange {t : Timestamp} (h : t.Valid) : t.InRange :=
  ⟨h.inCalendar, h.belowDay⟩

/-- The timestamp that comes back: an offset of less than a second is gone. -/
def Timestamp.reread (t : Timestamp) : Timestamp :=
  ⟨t.localTime, if t.offset.natAbs < 1000000 then 0 else t.offset⟩

theorem Timestamp.reread_eq_iff {t : Timestamp} :
    t.reread = t ↔ t.offset = 0 ∨ 1000000 ≤ t.offset.natAbs := by
  have heq : t.reread = t ↔ (if t.offset.natAbs < 1000000 then 0 else t.offset) = t.offset := by
    rw [reread, Timestamp.mk.injEq]
    exact and_iff_right rfl
  rw [heq]
  split <;> omega

theorem Timestamp.InRange.valid_reread {t : Timestamp} (h : t.InRange) : t.reread.Valid := by
  have hday := h.belowDay
  have hoffset : t.reread.offset = 0 ∨ t.reread.offset = t.offset ∧ 1000000 ≤ t.offset.natAbs := by
    simp only [reread]
    split <;> omega
  exact ⟨h.inCalendar, by omega, by omega⟩

/-- No character of a clock time starts an offset. -/
theorem not_startsOffset_of_mem_clockText {short : Bool} {micros : Nat} {c : Char}
    (h : c ∈ (Timestamp.clockText short micros).toList) : startsOffset c = false := by
  rcases mem_clockText_cases h with hdigit | rfl | rfl
  · simp [startsOffset, ne_of_isDigit hdigit (show '+'.isDigit = false by decide),
      ne_of_isDigit hdigit (show '-'.isDigit = false by decide),
      ne_of_isDigit hdigit (show 'Z'.isDigit = false by decide)]
  · decide
  · decide

/-- The sign of an offset. -/
def Timestamp.sign (t : Timestamp) : Char :=
  if t.offset < 0 then '-' else '+'

theorem Timestamp.sign_cases (t : Timestamp) : t.sign = '+' ∨ t.sign = '-' := by
  unfold sign
  split <;> simp

/-- A local time is read as it was written, and its offset if it is at least a second. -/
theorem readTime?_clockText {t : Timestamp} (h : t.InRange) {micros : Nat}
    (hmicros : micros < 86400000000) :
    readTime? ((Timestamp.clockText false micros).toList
        ++ t.sign :: (Timestamp.clockText true t.offset.natAbs).toList)
      = some (.ofMicroseconds micros, t.reread.offset) := by
  have hsign := t.sign_cases
  have hstarts : startsOffset t.sign = true := by
    rcases hsign with h | h <;> rw [h] <;> rfl
  have hnoDigit (rest : List Char) : (charAt (t.sign :: rest) 0).isDigit = false := by
    show t.sign.isDigit = false
    rcases hsign with h | h <;> rw [h] <;> rfl
  have hlimit : (((Timestamp.clockText false micros).toList
      ++ t.sign :: (Timestamp.clockText true t.offset.natAbs).toList).takeWhile
        fun c => !startsOffset c) = (Timestamp.clockText false micros).toList := by
    rw [List.takeWhile_append_of_pos fun c hc => by simp [not_startsOffset_of_mem_clockText hc],
      List.takeWhile_cons_of_neg (by simp [hstarts]), List.append_nil]
  have hoffset : (if t.sign == '-' then -(t.offset.natAbs : Int) else t.offset.natAbs)
      = t.offset := by
    unfold Timestamp.sign
    split
    · rename_i hnegative
      show -(t.offset.natAbs : Int) = t.offset
      omega
    · rename_i hnegative
      show (t.offset.natAbs : Int) = t.offset
      omega
  rw [readTime?, hlimit, readClock?_clockText false hmicros (hnoDigit _), List.drop_left]
  simp only [Option.bind_eq_bind, Option.bind_some, List.isEmpty_cons, Bool.false_and]
  rw [readOffset?_clockText hsign h.belowDay, hoffset]
  rfl

theorem toList_isoformat (t : Timestamp) :
    t.isoformat.toList
      = (Timestamp.dateText (Date.ofDayNumber (t.localTime / oneDay).toNat)).toList
        ++ 'T' :: ((Timestamp.clockText false (t.localTime % oneDay).toNat).toList
          ++ t.sign :: (Timestamp.clockText true t.offset.natAbs).toList) := by
  rw [Timestamp.isoformat, Timestamp.localText, Timestamp.sign]
  split <;> simp

theorem lt_of_isDigit {c : Char} (h : c.isDigit) : c.toNat < 128 := by
  simp only [Char.isDigit, Bool.and_eq_true, decide_eq_true_eq] at h
  have := UInt32.le_iff_toNat_le.1 h.2
  exact Nat.lt_of_le_of_lt this (by decide)

/-- A written timestamp is in ASCII. -/
theorem lt_of_mem_isoformat {t : Timestamp} {c : Char} (h : c ∈ t.isoformat.toList) :
    c.toNat < 128 := by
  have hclock {short : Bool} {micros : Nat}
      (h : c ∈ (Timestamp.clockText short micros).toList) : c.toNat < 128 := by
    rcases mem_clockText_cases h with h | rfl | rfl
    · exact lt_of_isDigit h
    · decide
    · decide
  have hfield {width n : Nat} (h : c ∈ Decimal.padLeft width (Decimal.digits n)) :
      c.toNat < 128 := lt_of_isDigit (isDigit_of_mem_padLeft h)
  rw [toList_isoformat, toList_dateText] at h
  simp only [List.mem_append, List.mem_cons, List.append_assoc, List.cons_append] at h
  rcases h with h | rfl | h | rfl | h | rfl | h | rfl | h
  · exact hfield h
  · decide
  · exact hfield h
  · decide
  · exact hfield h
  · decide
  · exact hclock h
  · rcases t.sign_cases with h | h <;> rw [h] <;> decide
  · exact hclock h

/-- A text in ASCII has a byte for every character. -/
theorem byteChars_ascii {text : String} (h : ∀ c ∈ text.toList, c.toNat < 128) :
    byteChars text = text.toList := by
  have hbytes : ∀ cs : List Char, (∀ c ∈ cs, c.toNat < 128) →
      (cs.flatMap String.utf8EncodeChar).map (fun b => Char.ofNat b.toNat) = cs := by
    intro cs hcs
    induction cs with
    | nil => rfl
    | cons c cs ih =>
      have hc : c.toNat < 128 := hcs c (by simp)
      have hchar : Char.ofNat (UInt8.ofNat c.toNat).toNat = c := by
        rw [UInt8.toNat_ofNat_of_lt' (by simpa using Nat.lt_trans hc (by decide)), Char.ofNat_toNat]
      rw [List.flatMap_cons, Text.utf8EncodeChar_ascii hc, List.map_append,
        ih fun d hd => hcs d (by simp [hd]), List.map_singleton, hchar]
      rfl
  rw [byteChars, ← String.ofList_toList (s := text), Text.encode_ofList, hbytes _ h, String.toList_ofList]

/-- A timestamp is read as it was written, but for an offset of less than a second. -/
theorem readTimestamp?_isoformat_of_inRange {t : Timestamp} (h : t.InRange) :
    readTimestamp? t.isoformat = some t.reread := by
  let number := (t.localTime / oneDay).toNat
  let micros := (t.localTime % oneDay).toNat
  let time := (Timestamp.clockText false micros).toList
    ++ t.sign :: (Timestamp.clockText true t.offset.natAbs).toList
  have hnumber : number < 3652059 := by
    have := h.inCalendar
    simp only [Timestamp.calendarEnd, oneDay, oneSecond] at this
    simp only [number, oneDay, oneSecond]
    omega
  have hmicros : micros < 86400000000 := by
    simp only [micros, oneDay, oneSecond]
    omega
  have hlocal : (number : Int) * oneDay + (micros : Int) = t.localTime := by
    have := h.inCalendar
    simp only [number, micros, oneDay, oneSecond] at *
    omega
  have hvalid := isValid_ofDayNumber hnumber
  have hfits := Date.fits_of_isValid hvalid
  have hchars : byteChars t.isoformat
      = (Timestamp.dateText (Date.ofDayNumber number)).toList ++ 'T' :: time := by
    rw [byteChars_ascii fun c => lt_of_mem_isoformat, toList_isoformat]
  have hsize : 10 < (byteChars t.isoformat).length := by
    rw [hchars, List.length_append, length_dateText hfits, List.length_cons]
    omega
  have hlength : dateLength (byteChars t.isoformat) (byteChars t.isoformat).length = 10 := by
    conv_lhs => rw [hchars]
    exact dateLength_dateText hfits _ (by rw [← hchars]; omega)
  have hdate : readDate? (byteChars t.isoformat) 10 = some (Date.ofDayNumber number) := by
    rw [hchars]
    exact readDate?_dateText hfits _
  have hafter : (byteChars t.isoformat).drop 10 = 'T' :: time := by
    rw [hchars]
    exact List.drop_left' (length_dateText hfits)
  have htime : readTime? (('T' :: time).drop (bytesFrom (charAt ('T' :: time) 0)))
      = some (.ofMicroseconds micros, t.reread.offset) := readTime?_clockText h hmicros
  have hlong : ¬(byteChars t.isoformat).length < 7 := by omega
  simp [readTimestamp?, hlong, hlength, hdate, hafter, htime, hvalid,
    Clock.microseconds?_ofMicroseconds hmicros, dayNumber_ofDayNumber, hlocal]
  rfl

/-- A timestamp that can be read is read as it was written. -/
theorem readTimestamp?_isoformat {t : Timestamp} (h : t.Valid) :
    readTimestamp? t.isoformat = some t := by
  rw [readTimestamp?_isoformat_of_inRange h.inRange, Timestamp.reread_eq_iff.2 h.wholeSecond]

/-!
## What timestamps can be read

A timestamp that is read can be written and is then read again as the same one:
its local time lies in the calendar, because only dates of the calendar and times
of a day are taken, and its offset is less than a day and no fraction of a
second. `Timestamp.valid_iff_exists_text` says that these are all of them.
-/

theorem takeDigits?_lt {count value : Nat} {cs rest : List Char} {n : Nat}
    (h : takeDigits? count value cs = some (n, rest)) : n < (value + 1) * 10 ^ count := by
  induction count generalizing value cs with
  | zero =>
    obtain ⟨rfl, _⟩ : value = n ∧ cs = rest := by simpa [takeDigits?] using h
    omega
  | succ count ih =>
    cases cs with
    | nil => simp [takeDigits?] at h
    | cons c cs =>
      rw [takeDigits?] at h
      split at h
      · rename_i hc
        have hdigit : c.toNat - 0x30 < 10 := by
          simp only [Char.isDigit, Bool.and_eq_true, decide_eq_true_eq] at hc
          have hle : c.toNat ≤ 57 := UInt32.le_iff_toNat_le.1 hc.2
          omega
        calc
          n < (10 * value + (c.toNat - 0x30) + 1) * 10 ^ count := ih h
          _ ≤ (10 * (value + 1)) * 10 ^ count := Nat.mul_le_mul_right _ (by omega)
          _ = (value + 1) * 10 ^ (count + 1) := by rw [Nat.pow_succ, Nat.mul_comm 10, Nat.mul_assoc, Nat.mul_comm 10]
      · cases h

theorem readFraction?_lt {cs : List Char} {limit micros : Nat} {more : Bool}
    (h : readFraction? cs limit = some (micros, more)) : micros < 1000000 := by
  simp only [readFraction?, Option.bind_eq_bind, Option.bind_eq_some_iff, Prod.exists] at h
  obtain ⟨n, rest, htake, h⟩ := h
  obtain ⟨rfl, _⟩ : n * pow10 (6 - min limit 6) = micros ∧ _ := by simpa using h
  have hn := takeDigits?_lt htake
  rw [Nat.zero_add, Nat.one_mul] at hn
  calc n * pow10 (6 - min limit 6) < 10 ^ min limit 6 * 10 ^ (6 - min limit 6) :=
        Nat.mul_lt_mul_of_pos_right hn (Nat.pow_pos (by omega))
    _ = 1000000 := by rw [← Nat.pow_add, show min limit 6 + (6 - min limit 6) = 6 by omega]

theorem readPairs?_lt {left : Nat} {separated more : Bool} {values read : List Nat}
    {cs : List Char} {limit micros : Nat}
    (h : readPairs? left separated values cs limit = some (read, micros, more)) :
    micros < 1000000 := by
  induction left generalizing separated values cs limit with
  | zero =>
    simp only [readPairs?, Option.bind_eq_bind, Option.bind_eq_some_iff, Prod.exists] at h
    obtain ⟨m, b, hread, h⟩ := h
    obtain ⟨_, rfl, _⟩ : _ ∧ m = micros ∧ _ := by simpa using h
    exact readFraction?_lt hread
  | succ left ih =>
    simp only [readPairs?, Option.bind_eq_bind, Option.bind_eq_some_iff, Prod.exists] at h
    obtain ⟨n, rest, _, h⟩ := h
    -- Whether pairs are set apart matters to where they are, not to the fraction.
    generalize (if values.isEmpty = true then charAt rest 0 == ':' else separated) = apart at h
    split at h
    · obtain ⟨_, rfl, _⟩ : _ ∧ 0 = micros ∧ _ := by simpa using h
      omega
    split at h
    · exact ih h
    split at h
    · simp only [Option.bind_eq_some_iff, Prod.exists] at h
      obtain ⟨m, b, hread, h⟩ := h
      obtain ⟨_, rfl, _⟩ : _ ∧ m = micros ∧ _ := by simpa using h
      exact readFraction?_lt hread
    split at h
    · exact ih h
    · cases h

theorem readClock?_lt {cs : List Char} {limit : Nat} {clock : Clock} {more : Bool}
    (h : readClock? cs limit = some (clock, more)) : clock.microsecond < 1000000 := by
  simp only [readClock?, Option.bind_eq_bind, Option.bind_eq_some_iff, Prod.exists] at h
  obtain ⟨values, micros, b, hpairs, h⟩ := h
  obtain ⟨rfl, _⟩ : _ = clock ∧ _ := by simpa using h
  exact readPairs?_lt hpairs

/-- An offset that is read is nothing, or at least a second and less than a
day. -/
theorem readOffset?_bounds {cs : List Char} {offset : Int} (h : readOffset? cs = some offset) :
    (offset = 0 ∨ 1000000 ≤ offset.natAbs) ∧ offset.natAbs < 86400000000 := by
  have hzero {o : Int} (h : some 0 = some o) :
      (o = 0 ∨ 1000000 ≤ o.natAbs) ∧ o.natAbs < 86400000000 := by
    obtain rfl := Option.some.inj h
    decide
  rw [readOffset?.eq_def] at h
  split at h
  · exact hzero h
  · split at h
    · exact hzero h
    · cases h
  · simp only [Option.bind_eq_bind, Option.bind_eq_some_iff, Prod.exists] at h
    obtain ⟨clock, more, _, h⟩ := h
    generalize hseconds :
      (clock.hour : Int) * 3600 + clock.minute * 60 + clock.second = seconds at h
    split at h
    · cases h
    split at h
    · exact hzero h
    split at h
    · cases h
    rename_i hsome hday
    simp only [oneDay, oneSecond] at h hday
    obtain rfl := Option.some.inj h
    split <;> omega

theorem readTime?_bounds {cs : List Char} {clock : Clock} {offset : Int}
    (h : readTime? cs = some (clock, offset)) :
    clock.microsecond < 1000000 ∧ (offset = 0 ∨ 1000000 ≤ offset.natAbs)
      ∧ offset.natAbs < 86400000000 := by
  simp only [readTime?, Option.bind_eq_bind, Option.bind_eq_some_iff, Prod.exists] at h
  obtain ⟨read, more, hclock, h⟩ := h
  split at h
  · cases h
  obtain ⟨o, hoffset, h⟩ := Option.bind_eq_some_iff.1 h
  obtain ⟨rfl, rfl⟩ := Prod.mk.inj (Option.some.inj h)
  exact ⟨readClock?_lt hclock, readOffset?_bounds hoffset⟩

/-- A time of a day of the calendar lies in the calendar. -/
theorem inCalendar_of_clock {date : Date} (hdate : date.isValid = true) {clock : Clock}
    (hclock : clock.microsecond < 1000000) {time : Int} (htime : clock.microseconds? = some time) :
    0 ≤ date.dayNumber * oneDay + time ∧
      date.dayNumber * oneDay + time < Timestamp.calendarEnd := by
  have hday := dayNumber_lt hdate
  rw [Clock.microseconds?] at htime
  split at htime
  · rename_i hexists
    obtain rfl := Option.some.inj htime
    simp only [Bool.and_eq_true, decide_eq_true_eq] at hexists
    simp only [Timestamp.calendarEnd, oneDay, oneSecond]
    omega
  · cases htime

/-- What is read lies in the calendar and has an offset that can be written. -/
theorem valid_of_readTimestamp? {text : String} {t : Timestamp}
    (h : readTimestamp? text = some t) : t.Valid := by
  simp only [readTimestamp?, Option.bind_eq_bind] at h
  split at h
  · cases h
  obtain ⟨date, _, h⟩ := Option.bind_eq_some_iff.1 h
  -- Whether a time stands behind the date or not, a clock time and an offset come out.
  obtain ⟨clock, offset, hbounds, h⟩ : ∃ (clock : Clock) (offset : Int),
      (clock.microsecond < 1000000 ∧ (offset = 0 ∨ 1000000 ≤ offset.natAbs)
        ∧ offset.natAbs < 86400000000) ∧
      (if (!date.isValid) = true then
        none.bind fun _ => clock.microseconds?.bind fun time =>
          some ⟨date.dayNumber * oneDay + time, offset⟩
      else
        clock.microseconds?.bind fun time => some ⟨date.dayNumber * oneDay + time, offset⟩)
        = some t := by
    split at h
    · exact ⟨⟨0, 0, 0, 0⟩, 0, by decide, h⟩
    · obtain ⟨⟨clock, offset⟩, hread, h⟩ := Option.bind_eq_some_iff.1 h
      exact ⟨clock, offset, readTime?_bounds hread, h⟩
  split at h
  · cases h
  rename_i hvalid
  obtain ⟨time, htime, h⟩ := Option.bind_eq_some_iff.1 h
  obtain rfl := Option.some.inj h
  exact ⟨inCalendar_of_clock (by simpa using hvalid) hbounds.1 htime, hbounds.2.1, hbounds.2.2⟩

/-- The timestamps that some text stands for. -/
theorem Timestamp.valid_iff_exists_text {t : Timestamp} :
    t.Valid ↔ ∃ text, readTimestamp? text = some t :=
  ⟨fun h => ⟨t.isoformat, readTimestamp?_isoformat h⟩, fun ⟨_, h⟩ => valid_of_readTimestamp? h⟩

end CodeHabits.Time
