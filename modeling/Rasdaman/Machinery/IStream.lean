import Mathlib.Data.List.Basic
import Mathlib.Data.List.TakeWhile
import Rasdaman.Machinery.Decimal

/-!
# Machinery/IStream — reading lines from an input stream

`getline` reads into a buffer of a fixed size.  At the end of the stream it sets `eofbit`; a line that
does not fit sets `failbit` and nothing else, and a stream with a bit set gives nothing any more.
-/

/-- `std::istream`: the characters still to be extracted, and two of its state bits. -/
structure IStream where
  rest : List Char
  eofbit : Bool
  failbit : Bool
  deriving DecidableEq

namespace IStream

/-- A stream over some characters, from which nothing was read yet. -/
def ofText (content : List Char) : IStream := ⟨content, false, false⟩

/-- The extraction of `getline` while there is room for so many characters.  The tests are made in this
order: the end of the stream, the end of the line, a full buffer. -/
def extractLine : List Char → (room : ℕ) → List Char × IStream
  | [], _ => ([], ⟨[], true, false⟩)
  | c :: cs, room =>
    if c = '\n' then ([], ⟨cs, false, false⟩)
    else match room with
      | 0 => ([], ⟨c :: cs, false, true⟩)
      | room + 1 => (c :: (extractLine cs room).1, (extractLine cs room).2)

/-- `getline(buf, n)`: the characters stored before the null character, and the stream after it.  Without
any character extracted it sets `failbit` too. -/
def getline (s : IStream) (n : ℕ) : List Char × IStream :=
  if s.eofbit || s.failbit then ([], { s with failbit := true })
  else if s.rest.isEmpty then ([], { s with eofbit := true, failbit := true })
  else extractLine s.rest (n - 1)

/-- A C string ends at the first null character. -/
def cString (buf : List Char) : List Char := buf.takeWhile (· ≠ Char.ofNat 0)

/-- The lines of a text: what stands between its newlines. -/
def lines (content : List Char) : List (List Char) := content.splitOn '\n'

/-! ## One line -/

variable {line rest : List Char} {room n : ℕ}

/-- The last line of a text, if there is room for it. -/
theorem extractLine_last (h : '\n' ∉ line) (hroom : line.length ≤ room) :
    extractLine line room = (line, ⟨[], true, false⟩) := by
  induction line generalizing room with
  | nil => rfl
  | cons c line ih =>
    obtain ⟨hc, hline⟩ := not_or.mp (List.mem_cons.not.mp h)
    cases room with
    | zero => exact absurd hroom (by simp)
    | succ room =>
      rw [extractLine, if_neg (Ne.symm hc)]
      simp only [ih hline (Nat.le_of_succ_le_succ hroom)]

/-- A line with its newline. -/
theorem extractLine_line (h : '\n' ∉ line) (hroom : line.length ≤ room) (rest : List Char) :
    extractLine (line ++ '\n' :: rest) room = (line, ⟨rest, false, false⟩) := by
  induction line generalizing room with
  | nil => cases room <;> rw [List.nil_append, extractLine, if_pos rfl]
  | cons c line ih =>
    obtain ⟨hc, hline⟩ := not_or.mp (List.mem_cons.not.mp h)
    cases room with
    | zero => exact absurd hroom (by simp)
    | succ room =>
      rw [List.cons_append, extractLine, if_neg (Ne.symm hc)]
      simp only [ih hline (Nat.le_of_succ_le_succ hroom)]

/-- A line that does not fit fills the buffer and sets `failbit` alone. -/
theorem extractLine_long (h : '\n' ∉ line) (hroom : room < line.length) (rest : List Char) :
    (extractLine (line ++ rest) room).2.failbit = true ∧
      (extractLine (line ++ rest) room).2.eofbit = false := by
  induction line generalizing room with
  | nil => exact absurd hroom (Nat.not_lt_zero room)
  | cons c line ih =>
    obtain ⟨hc, hline⟩ := not_or.mp (List.mem_cons.not.mp h)
    cases room with
    | zero =>
      rw [List.cons_append, extractLine, if_neg (Ne.symm hc)]
      exact ⟨rfl, rfl⟩
    | succ room =>
      rw [List.cons_append, extractLine, if_neg (Ne.symm hc)]
      exact ih hline (Nat.lt_of_succ_lt_succ hroom)

/-- **A text is its last line, or its first line and a text.** -/
theorem lines_cases (content : List Char) :
    ('\n' ∉ content ∧ lines content = [content]) ∨
      ∃ line rest, '\n' ∉ line ∧ content = line ++ '\n' :: rest ∧ lines content = line :: lines rest := by
  by_cases h : '\n' ∈ content
  · obtain ⟨line, rest, rfl, hline⟩ := List.eq_append_cons_of_mem h
    exact .inr ⟨line, rest, hline, rfl, List.splitOn_append_cons_self_of_not_mem hline rest⟩
  · exact .inl ⟨h, List.splitOn_eq_singleton h⟩

theorem getline_last (h : '\n' ∉ line) (hlen : line.length < n) :
    (ofText line).getline n = (line, ⟨[], true, line.isEmpty⟩) := by
  cases line with
  | nil => rfl
  | cons c line => exact extractLine_last h (Nat.le_sub_one_of_lt hlen)

theorem getline_line (h : '\n' ∉ line) (hlen : line.length < n) (rest : List Char) :
    (ofText (line ++ '\n' :: rest)).getline n = (line, ofText rest) := by
  have hextract := extractLine_line h (Nat.le_sub_one_of_lt hlen) rest
  cases line <;> exact hextract

theorem getline_long (h : '\n' ∉ line) (hn : 0 < n) (hlen : n ≤ line.length) (rest : List Char) :
    ((ofText (line ++ rest)).getline n).2.failbit = true ∧
      ((ofText (line ++ rest)).getline n).2.eofbit = false := by
  have hlong := extractLine_long h (show n - 1 < line.length by omega) rest
  cases line with
  | nil => exact absurd hlen (Nat.not_le_of_lt hn)
  | cons c line => exact hlong

/-- After a failure nothing is read, and the end is never reached. -/
theorem getline_failed {s : IStream} (hfail : s.failbit = true) (n : ℕ) : s.getline n = ([], s) := by
  obtain ⟨rest, eofbit, failbit⟩ := s
  obtain rfl : failbit = true := hfail
  rw [getline, if_pos (by simp)]

end IStream

/-!
## Formatted extraction from an input stream

`>>` skips white space and reads a character or an integer; a stream with a bit set, or with nothing but
white space left, gives nothing and leaves the variable as it was.  What was read makes up a piece of
the text, `Takes`, in which each token stands after white space.
-/

namespace IStream

/-- `>> c` for a character; `c` is what the variable held. -/
def getChar (white : Char → Bool) (s : IStream) (c : Char) : Char × IStream :=
  if s.eofbit || s.failbit then (c, { s with failbit := true })
  else match s.rest.dropWhile white with
    | [] => (c, ⟨[], true, true⟩)
    | c' :: rest => (c', ⟨rest, false, false⟩)

/-- `putback` of the character that was extracted last; a stream that failed only loses its `eofbit`. -/
def putback (s : IStream) (c : Char) : IStream :=
  if s.failbit then { s with eofbit := false } else ⟨c :: s.rest, false, false⟩

/-- `>> v` for a signed integer of a type with the given limits; `v` is what the variable held.  Without
digits 0 is stored, and a limit for what is outside of the type. -/
def getInt (white : Char → Bool) (min max : ℤ) (s : IStream) (v : ℤ) : ℤ × IStream :=
  if s.eofbit || s.failbit then (v, { s with failbit := true })
  else match s.rest.dropWhile white with
    | [] => (v, ⟨[], true, true⟩)
    | text =>
      let (numeral, rest) := Decimal.scan text
      if numeral.digits = [] then (0, ⟨rest, rest.isEmpty, true⟩)
      else if numeral.value < min then (min, ⟨rest, rest.isEmpty, true⟩)
      else if max < numeral.value then (max, ⟨rest, rest.isEmpty, true⟩)
      else (numeral.value, ⟨rest, rest.isEmpty, false⟩)

/-- The stream has not failed, and a text is still to be extracted. -/
def At (s : IStream) (text : List Char) : Prop :=
  s.rest = text ∧ s.failbit = false ∧ (s.eofbit = true → text = [])

/-- From one text to another one, the tokens are taken off, each with the white space before it. -/
inductive Takes (white : Char → Bool) : List (List Char) → List Char → List Char → Prop
  | nil (text : List Char) : Takes white [] text text
  | cons {p t text rest : List Char} {ts : List (List Char)} : (∀ c ∈ p, white c = true) →
      Takes white ts text rest → Takes white (t :: ts) (p ++ (t ++ text)) rest

variable {white : Char → Bool} {s : IStream} {text rest tail t : List Char} {ts us : List (List Char)}
  {c' : Char} {v min max : ℤ}

theorem at_ofText (text : List Char) : (ofText text).At text := ⟨rfl, rfl, nofun⟩

theorem Takes.append (hts : Takes white ts text rest) (hus : Takes white us rest tail) :
    Takes white (ts ++ us) text tail := by
  induction hts with
  | nil => exact hus
  | cons hp _ ih => exact .cons hp (ih hus)

theorem takes_of_drop (h : text.dropWhile white = t ++ rest) : Takes white [t] text rest := by
  have hsplit : text.takeWhile white ++ (t ++ rest) = text := by
    rw [← h, List.takeWhile_append_dropWhile]
  rw [← hsplit]
  exact .cons (fun c hc => List.mem_takeWhile_imp hc) (.nil rest)

/-! ## Reading -/

/-- The next character is taken off. -/
theorem getChar_next (h : s.At text) (hdrop : text.dropWhile white = c' :: rest) (c : Char) :
    s.getChar white c = (c', ofText rest) := by
  obtain ⟨rest', eofbit, failbit⟩ := s
  obtain ⟨rfl, rfl, heof⟩ := h
  cases eofbit with
  | true =>
    obtain rfl : rest' = [] := heof rfl
    exact absurd hdrop (by simp)
  | false =>
    rw [getChar, if_neg (by simp)]
    simp only [hdrop]
    rfl

/-- At the end the variable stays as it was. -/
theorem getChar_end (h : s.At text) (hdrop : text.dropWhile white = []) (c : Char) :
    ∃ s' : IStream, s.getChar white c = (c, s') ∧ s'.failbit = true := by
  obtain ⟨rest', eofbit, failbit⟩ := s
  obtain ⟨rfl, rfl, heof⟩ := h
  rw [getChar]
  split
  · exact ⟨_, rfl, rfl⟩
  · simp only [hdrop]
    exact ⟨_, rfl, rfl⟩

/-- After a failure nothing is read. -/
theorem failbit_getInt_putback (h : s.failbit = true) (c : Char) (v : ℤ) :
    ((s.putback c).getInt white min max v).2.failbit = true := by
  rw [putback, if_pos h, getInt, if_pos (by simp [h])]

/-- **An integer that was read is spelled in the text.** -/
theorem getInt_spells (h : s.At text) {v w : ℤ} {s' : IStream}
    (hget : s.getInt white min max v = (w, s')) (hfail : s'.failbit = false) :
    ∃ t rest, text.dropWhile white = t ++ rest ∧ Decimal.Spells w t ∧ s'.At rest := by
  obtain ⟨rest', eofbit, failbit⟩ := s
  obtain ⟨rfl, rfl, heof⟩ := h
  have hat : ∀ rest : List Char, (⟨rest, rest.isEmpty, false⟩ : IStream).At rest :=
    fun rest => ⟨rfl, rfl, fun hempty => List.isEmpty_iff.mp hempty⟩
  rw [getInt] at hget
  split at hget
  · obtain ⟨rfl, rfl⟩ := Prod.mk.inj hget
    exact absurd hfail (by simp)
  · split at hget
    · obtain ⟨rfl, rfl⟩ := Prod.mk.inj hget
      exact absurd hfail (by simp)
    · simp only at hget
      split at hget
      · obtain ⟨rfl, rfl⟩ := Prod.mk.inj hget
        exact absurd hfail (by simp)
      · next hdigits =>
        split_ifs at hget
        · obtain ⟨rfl, rfl⟩ := Prod.mk.inj hget
          exact absurd hfail (by simp)
        · obtain ⟨rfl, rfl⟩ := Prod.mk.inj hget
          exact absurd hfail (by simp)
        · obtain ⟨rfl, rfl⟩ := Prod.mk.inj hget
          obtain ⟨t, ht, hsplit⟩ := Decimal.spells_scan hdigits
          exact ⟨t, _, hsplit, ht, hat _⟩

/-- **An integer is read as it was written.** -/
theorem getInt_text (h : s.At (Decimal.text w ++ rest)) (hw : min ≤ w ∧ w ≤ max)
    (hwhite : ∀ c ∈ Decimal.text w, white c = false) (hrest : ∀ c ∈ rest.head?, c.isDigit = false) (v : ℤ) :
    ∃ s' : IStream, s.getInt white min max v = (w, s') ∧ s'.At rest := by
  obtain ⟨rest', eofbit, failbit⟩ := s
  obtain ⟨rfl, rfl, heof⟩ := h
  obtain ⟨d, ds, hds⟩ := List.exists_cons_of_ne_nil (Decimal.text_ne_nil w)
  have hdrop : (Decimal.text w ++ rest).dropWhile white = d :: (ds ++ rest) := by
    rw [hds, List.cons_append, List.dropWhile_cons_of_neg]
    rw [hwhite d (hds ▸ List.mem_cons_self)]
    exact Bool.false_ne_true
  have hscan := Decimal.scan_text w hrest
  rw [hds, List.cons_append] at hscan
  have heof : eofbit = false := by
    cases eofbit with
    | true => exact absurd (heof rfl) (by rw [hds]; exact List.cons_ne_nil _ _)
    | false => rfl
  refine ⟨⟨rest, rest.isEmpty, false⟩, ?_, rfl, rfl, fun hempty => List.isEmpty_iff.mp hempty⟩
  rw [getInt, heof]
  simp only [hdrop, hscan, Decimal.value_text]
  rw [if_neg (by simp), if_neg Nat.toDigits_ne_nil, if_neg (by omega), if_neg (by omega)]

end IStream
