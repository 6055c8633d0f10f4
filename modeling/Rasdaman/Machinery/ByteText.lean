import Rasdaman.Machinery.Decimal
import Mathlib.Data.List.TakeWhile

/-!
# Machinery/ByteText — texts as bytes

Texts in the encoding with one byte for each character, numbers read with `atoi`, and `strtok` with one
delimiter.
-/

namespace ByteText

/-- The characters of some bytes. -/
def latin1 (bs : List UInt8) : List Char := bs.map fun b => Char.ofNat b.toNat

/-- `getBytes("8859_1")`: a character without a byte becomes a question mark. -/
def getBytes (cs : List Char) : List UInt8 := cs.map fun c => if c.toNat < 256 then UInt8.ofNat c.toNat else 63

/-- `isspace`. -/
def isSpace (c : Char) : Bool := c = ' ' ∨ 9 ≤ c.toNat ∧ c.toNat ≤ 13

/-- `atoi`. -/
def atoi (bs : List UInt8) : ℤ := (Decimal.scan ((latin1 bs).dropWhile isSpace)).1.value

/-- `strtok`: the next token, and where the one after it is looked for. -/
def strtok (delim : UInt8) (bs : List UInt8) : Option (List UInt8 × List UInt8) :=
  match bs.dropWhile (· = delim) with
  | [] => none
  | c :: cs => some ((c :: cs).takeWhile (· ≠ delim), ((c :: cs).dropWhile (· ≠ delim)).tail)

variable {bs tok rest : List UInt8} {cs : List Char} {d : UInt8} {v : ℤ}

theorem toNat_ofNat_valid {n : ℕ} (h : n.isValidChar) : (Char.ofNat n).toNat = n := by
  rw [Char.ofNat, dif_pos h]
  rfl

theorem toNat_ofNat_byte (b : UInt8) : (Char.ofNat b.toNat).toNat = b.toNat :=
  toNat_ofNat_valid (.inl (b.toNat_lt.trans (by decide)))

theorem getBytes_latin1 (bs : List UInt8) : getBytes (latin1 bs) = bs := by
  rw [getBytes, latin1, List.map_map]
  refine List.map_id'' (fun b => ?_) bs
  have hb := b.toNat_lt
  simp only [Function.comp_apply, toNat_ofNat_byte]
  rw [if_pos hb, UInt8.ofNat_toNat]

/-- **Texts survive** as bytes if and only if all their characters have one. -/
theorem latin1_getBytes_iff : latin1 (getBytes cs) = cs ↔ ∀ c ∈ cs, c.toNat < 256 := by
  rw [latin1, getBytes, List.map_map]
  constructor
  · intro h c hc
    rw [← h] at hc
    obtain ⟨c', -, rfl⟩ := List.mem_map.mp hc
    rw [Function.comp_apply, toNat_ofNat_byte]
    exact UInt8.toNat_lt _
  · intro h
    refine (List.map_congr_left fun c hc => ?_).trans (List.map_id cs)
    have hlt := h c hc
    have hbyte : (UInt8.ofNat c.toNat).toNat = c.toNat := by
      rw [UInt8.toNat_ofNat']
      exact Nat.mod_eq_of_lt hlt
    rw [Function.comp_apply, if_pos hlt, hbyte, Char.ofNat_toNat]
    rfl

theorem getBytes_append (cs cs' : List Char) : getBytes (cs ++ cs') = getBytes cs ++ getBytes cs' :=
  List.map_append

theorem length_getBytes (cs : List Char) : (getBytes cs).length = cs.length := List.length_map _

/-- A byte below 63 comes from its own character. -/
theorem mem_getBytes (hd : d.toNat < 63) : d ∈ getBytes cs ↔ Char.ofNat d.toNat ∈ cs := by
  rw [getBytes, List.mem_map]
  constructor
  · rintro ⟨c, hc, h⟩
    by_cases hlt : c.toNat < 256
    · rw [if_pos hlt] at h
      have hnat : c.toNat = d.toNat := by
        rw [← h, UInt8.toNat_ofNat']
        exact (Nat.mod_eq_of_lt hlt).symm
      rwa [← hnat, Char.ofNat_toNat]
    · rw [if_neg hlt] at h
      rw [← h] at hd
      exact absurd hd (by decide)
  · intro hc
    refine ⟨_, hc, ?_⟩
    rw [toNat_ofNat_byte, if_pos d.toNat_lt, UInt8.ofNat_toNat]

/-- **A number is read as it was written.** -/
theorem atoi_text (v : ℤ) : atoi (getBytes (Decimal.text v)) = v := by
  have hlatin : latin1 (getBytes (Decimal.text v)) = Decimal.text v :=
    latin1_getBytes_iff.mpr fun c hc => (Decimal.toNat_lt_hundred hc).trans (by decide)
  have hspace : (Decimal.text v).dropWhile isSpace = Decimal.text v := by
    obtain ⟨c, cs, hcs⟩ := List.exists_cons_of_ne_nil (Decimal.text_ne_nil v)
    have hc : isSpace c = false := by
      rcases Decimal.mem_text (c := c) (v := v) (by rw [hcs]; exact List.mem_cons_self) with rfl | hdigit
      · decide
      · rw [Char.isDigit, Bool.and_eq_true, decide_eq_true_iff, decide_eq_true_iff] at hdigit
        have hlow : 48 ≤ c.toNat := UInt32.le_iff_toNat_le.mp hdigit.1
        refine decide_eq_false (not_or.mpr ⟨?_, fun h => absurd h.2 (by omega)⟩)
        rintro rfl
        exact absurd hlow (by decide)
    rw [hcs, List.dropWhile_cons_of_neg (by rw [hc]; exact Bool.false_ne_true)]
  have hscan : Decimal.scan (Decimal.text v ++ []) = _ := Decimal.scan_text v nofun
  rw [List.append_nil] at hscan
  rw [atoi, hlatin, hspace, hscan, Decimal.value_text]

/-- A token up to a delimiter or the end. -/
theorem strtok_append (hne : tok ≠ []) (hd : d ∉ tok) (hrest : ∀ b ∈ rest.head?, b = d) :
    strtok d (tok ++ rest) = some (tok, rest.tail) := by
  have hall : ∀ b ∈ tok, decide (b ≠ d) = true := fun b hb => decide_eq_true fun h => hd (h ▸ hb)
  obtain ⟨c, cs, rfl⟩ := List.exists_cons_of_ne_nil hne
  have hc : c ≠ d := fun h => hd (h ▸ List.mem_cons_self)
  have hdrop : (c :: cs ++ rest).dropWhile (· = d) = c :: cs ++ rest :=
    List.dropWhile_cons_of_neg (by simpa using hc)
  rw [strtok, hdrop]
  change some (((c :: cs) ++ rest).takeWhile (· ≠ d), (((c :: cs) ++ rest).dropWhile (· ≠ d)).tail) = _
  rw [List.takeWhile_append_of_pos hall, List.dropWhile_append_of_pos hall]
  cases rest with
  | nil => simp
  | cons b rest =>
    rw [hrest b rfl]
    simp

/-- A token is not empty, has no delimiter, and is a part of the text, as what comes after it is. -/
theorem strtok_spec (h : strtok d bs = some (tok, rest)) :
    tok ≠ [] ∧ d ∉ tok ∧ (∀ b ∈ tok, b ∈ bs) ∧ ∀ b ∈ rest, b ∈ bs := by
  rw [strtok] at h
  split at h
  · cases h
  · next c cs hdrop =>
    cases h
    have hsub : ∀ b ∈ c :: cs, b ∈ bs := by
      rw [← hdrop]
      exact fun b hb => (List.dropWhile_sublist _).subset hb
    have hc : c ≠ d := by
      have hhead := List.head?_dropWhile_not (p := fun b => decide (b = d)) bs
      rw [hdrop] at hhead
      simpa using hhead
    refine ⟨?_, fun hmem => ?_, fun b hb => ?_, fun b hb => ?_⟩
    · simp [hc]
    · exact absurd (List.mem_takeWhile_imp hmem) (by simp)
    · exact hsub b ((List.takeWhile_sublist _).subset hb)
    · exact hsub b ((List.dropWhile_sublist _).subset (List.mem_of_mem_tail hb))

end ByteText
