import Mathlib
import Rasdaman.Raslib.ParseParams

/-!
# Raslib/ParsePairs — option strings are read as they are written

Pairs `key=value`, joined by a separator, are read by `ParseParams.process`.  `ParseParams.process_iff` says
that nothing is written behind the key buffer exactly if no key that `process` comes to is longer than the
buffer, registered or not, and that pairs are read as they are written exactly if their keys fit.
-/

namespace Rasdaman

namespace ParseParams

variable {strtod : Strtod} {params : List Param} {separator : Char} {withWhiteSpaces : Bool}
  {key name b rest : List Char} {stores stores' : Stores} {n : ℕ} {fault : Fault}

/-! ## Keys -/

/-- A key that fits into the buffer, and that `strcmp` reads no further than the buffer for. -/
def Fits (params : List Param) (key : List Char) : Prop :=
  key.length ≤ lenBuff ∧ (key.length = lenBuff → ∀ p ∈ params, ¬key <+: p.key)

theorem copyKey_of_le (h : key.length ≤ lenBuff) : copyKey key = .ok () := if_pos h

theorem bufferEq_of_fits (hlen : key.length ≤ lenBuff) (h : key.length = lenBuff → ¬key <+: name) :
    bufferEq key name = .ok (decide (key = name)) := by
  rw [bufferEq]
  split
  · rfl
  · next hlt =>
    have hnot := h (by omega)
    rw [if_neg (by rwa [List.isPrefixOf_iff_prefix])]
    have hne : key ≠ name := fun heq => hnot (heq ▸ List.prefix_rfl)
    rw [decide_eq_false hne]

theorem Fits.tail {p : Param} (h : Fits (p :: params) key) : Fits params key :=
  ⟨h.1, fun hlen q hq => h.2 hlen q (List.mem_cons_of_mem p hq)⟩

/-- The loop goes past a key that is not the one. -/
theorem findKey_cons_of_ne {p : Param} (hfits : Fits (p :: params) key) (h : key ≠ p.key) :
    findKey key (p :: params) n = findKey key params (n + 1) := by
  rw [findKey, bufferEq_of_fits hfits.1 (fun hlen => hfits.2 hlen p List.mem_cons_self),
    decide_eq_false h]
  rfl

theorem findKey_of_not_mem (hfits : Fits params key) (h : ∀ p ∈ params, p.key ≠ key) :
    findKey key params n = .ok none := by
  induction params generalizing n with
  | nil => rfl
  | cons p params ih =>
    rw [findKey_cons_of_ne hfits (h p List.mem_cons_self).symm]
    exact ih hfits.tail fun q hq => h q (List.mem_cons_of_mem p hq)

/-- **A registered key is found where it is registered.** -/
theorem findKey_of_getElem {k : ℕ} {p : Param} (hfits : Fits params key)
    (hnodup : (params.map Param.key).Nodup) (hp : params[k]? = some p) (hkey : p.key = key) :
    findKey key params n = .ok (some (n + k, p.type)) := by
  induction params generalizing n k with
  | nil => simp at hp
  | cons q params ih =>
    obtain ⟨hq, hnodup⟩ := List.nodup_cons.mp hnodup
    cases k with
    | zero =>
      obtain rfl : q = p := by simpa using hp
      rw [findKey, bufferEq_of_fits hfits.1 (fun hlen => hfits.2 hlen q List.mem_cons_self),
        decide_eq_true hkey.symm]
      rfl
    | succ k =>
      rw [List.getElem?_cons_succ] at hp
      have hne : key ≠ q.key := fun heq =>
        hq (heq ▸ hkey ▸ List.mem_map_of_mem (List.mem_of_getElem? hp))
      rw [findKey_cons_of_ne hfits hne, ih hfits.tail hnodup hp]
      congr 3
      omega

/-- Nothing is written while the key is looked for. -/
theorem findKey_ne_written : findKey key params n ≠ .error .written := by
  induction params generalizing n with
  | nil => exact nofun
  | cons p params ih =>
    rw [findKey, bufferEq]
    split_ifs
    · cases decide (key = p.key) with
      | true => exact nofun
      | false => exact ih
    · exact nofun
    · exact ih

/-- A key that does not fit ends `process`. -/
theorem findKey_of_not_fits (hlen : key.length ≤ lenBuff) (h : ¬Fits params key) :
    findKey key params n = .error .read := by
  have hex : key.length = lenBuff ∧ ∃ p ∈ params, key <+: p.key := by
    simpa [Fits, hlen] using h
  obtain ⟨heq, p, hp, hbegin⟩ := hex
  clear h
  induction params generalizing n with
  | nil => simp at hp
  | cons q params ih =>
    rw [findKey, bufferEq, if_neg (by omega)]
    rcases List.mem_cons.mp hp with rfl | hp
    · rw [if_pos (List.isPrefixOf_iff_prefix.mpr hbegin)]
      rfl
    · split
      · rfl
      · exact ih hp

/-- **A key that does not fit is a fault.** -/
theorem item_of_not_fits (h : ¬Fits params key) :
    ∃ fault, item strtod params separator withWhiteSpaces key b stores = .error fault := by
  rw [item, copyKey]
  by_cases hlen : key.length ≤ lenBuff
  · rw [if_pos hlen, findKey_of_not_fits hlen h]
    exact ⟨_, rfl⟩
  · rw [if_neg hlen]
    exact ⟨_, rfl⟩

/-- A round writes behind the buffer exactly if the key is longer than the buffer. -/
theorem item_written_iff :
    item strtod params separator withWhiteSpaces key b stores = .error .written ↔ lenBuff < key.length := by
  rw [item, copyKey]
  by_cases hlen : key.length ≤ lenBuff
  · rw [if_pos hlen]
    refine iff_of_false (fun h => ?_) (not_lt.mpr hlen)
    have hfind := @findKey_ne_written params key 0
    revert h
    rcases hres : findKey key params 0 with f | (- | ⟨knum, type⟩)
    · exact fun h => hfind (hres.trans (congrArg Except.error (Except.error.inj h)))
    · exact nofun
    · intro h
      dsimp only [bind, Except.bind] at h
      split at h
      · cases h
      · cases h
  · rw [if_neg hlen]
    exact iff_of_true rfl (not_le.mp hlen)

/-! ## The main loop -/

theorem loop_of_nil {text : List Char} (h : nextItem separator text = []) :
    loop strtod params separator withWhiteSpaces text n stores = .ok (n, stores) := by
  rw [loop.eq_def]
  split
  · rfl
  · next heq => cases h.symm.trans heq

theorem loop_of_not_alpha {text cs : List Char} {c : Char} (h : nextItem separator text = c :: cs)
    (hc : ¬c.isAlpha) : loop strtod params separator withWhiteSpaces text n stores = .ok (-1, stores) := by
  rw [loop.eq_def]
  split
  · next heq => cases h.symm.trans heq
  · next heq =>
    cases h.symm.trans heq
    exact dif_neg hc

/-- A round of the main loop. -/
theorem loop_of_item {text cs : List Char} {c : Char} (h : nextItem separator text = c :: cs)
    (hc : c.isAlpha) :
    loop strtod params separator withWhiteSpaces text n stores =
      (item strtod params separator withWhiteSpaces ((c :: cs).takeWhile Char.isAlphanum)
        ((c :: cs).dropWhile Char.isAlphanum) stores >>= fun r => match r.1 with
      | none => .ok (-1, r.2)
      | some left => loop strtod params separator withWhiteSpaces left.1 (n + left.2) r.2) := by
  rw [loop.eq_def]
  split
  · next heq => cases h.symm.trans heq
  · next heq =>
    cases h.symm.trans heq
    rw [dif_pos hc]
    split
    · next hi => rw [hi]; rfl
    · next hi => rw [hi]; rfl
    · next hi => rw [hi]; rfl

/-- A separator in front of a text is skipped. -/
theorem loop_separator {text : List Char} :
    loop strtod params separator withWhiteSpaces (separator :: text) n stores =
      loop strtod params separator withWhiteSpaces text n stores := by
  have hnext : nextItem separator (separator :: text) = nextItem separator text := by
    simp [nextItem]
  rcases htext : nextItem separator text with - | ⟨c, cs⟩
  · rw [loop_of_nil htext, loop_of_nil (hnext.trans htext)]
  · by_cases hc : c.isAlpha
    · rw [loop_of_item htext hc, loop_of_item (hnext.trans htext) hc]
    · rw [loop_of_not_alpha htext hc, loop_of_not_alpha (hnext.trans htext) hc]

/-- `process` comes to a key. -/
inductive Comes (strtod : Strtod) (params : List Param) (separator : Char) (withWhiteSpaces : Bool) :
    (text : List Char) → Stores → (key : List Char) → Prop
  | here {text cs c stores} (h : nextItem separator text = c :: cs) (hc : c.isAlpha) :
      Comes strtod params separator withWhiteSpaces text stores ((c :: cs).takeWhile Char.isAlphanum)
  | later {text cs c stores stores' rest n key} (h : nextItem separator text = c :: cs) (hc : c.isAlpha)
      (hitem : item strtod params separator withWhiteSpaces ((c :: cs).takeWhile Char.isAlphanum)
        ((c :: cs).dropWhile Char.isAlphanum) stores = .ok (some (rest, n), stores'))
      (hkey : Comes strtod params separator withWhiteSpaces rest stores' key) :
      Comes strtod params separator withWhiteSpaces text stores key

/-- **Nothing is written behind the buffer exactly if no key that the loop comes to is longer.** -/
theorem loop_written_iff {text : List Char} :
    loop strtod params separator withWhiteSpaces text n stores ≠ .error .written ↔
      ∀ key, Comes strtod params separator withWhiteSpaces text stores key → key.length ≤ lenBuff := by
  induction text, n, stores using loop.induct strtod params separator withWhiteSpaces with
  | case1 text n stores h =>
    rw [loop_of_nil h]
    refine iff_of_true nofun fun key hkey => ?_
    cases hkey with
    | here h' => cases h.symm.trans h'
    | later h' => cases h.symm.trans h'
  | case2 text n stores c cs h hc f hitem =>
    rw [loop_of_item h hc, hitem]
    have hwritten : f = .written ↔ lenBuff < ((c :: cs).takeWhile Char.isAlphanum).length := by
      rw [← @item_written_iff strtod params separator withWhiteSpaces _
        ((c :: cs).dropWhile Char.isAlphanum) stores, hitem, Except.error.injEq]
    refine (show _ ↔ f ≠ .written from not_congr ⟨Except.error.inj, congrArg _⟩).trans ?_
    rw [ne_eq, hwritten, not_lt]
    refine ⟨fun hle key hkey => ?_, fun hall => hall _ (.here h hc)⟩
    cases hkey with
    | here h' =>
      cases h.symm.trans h'
      exact hle
    | later h' _ hitem' =>
      cases h.symm.trans h'
      cases hitem.symm.trans hitem'
  | case3 text n stores c cs h hc stores' hitem =>
    rw [loop_of_item h hc, hitem]
    have hle : ((c :: cs).takeWhile Char.isAlphanum).length ≤ lenBuff := by
      refine not_lt.mp fun hlt => ?_
      cases hitem.symm.trans (item_written_iff.mpr hlt)
    refine iff_of_true nofun fun key hkey => ?_
    cases hkey with
    | here h' =>
      cases h.symm.trans h'
      exact hle
    | later h' _ hitem' =>
      cases h.symm.trans h'
      cases hitem.symm.trans hitem'
  | case4 text n stores c cs h hc rest m stores' hitem ih =>
    rw [loop_of_item h hc, hitem]
    have hle : ((c :: cs).takeWhile Char.isAlphanum).length ≤ lenBuff := by
      refine not_lt.mp fun hlt => ?_
      cases hitem.symm.trans (item_written_iff.mpr hlt)
    refine ih.trans ⟨fun hall key hkey => ?_, fun hall key hkey => hall key (.later h hc hitem hkey)⟩
    cases hkey with
    | here h' =>
      cases h.symm.trans h'
      exact hle
    | later h' _ hitem' hkey =>
      cases h.symm.trans h'
      cases hitem.symm.trans hitem'
      exact hall key hkey
  | case5 text n stores c cs h hc =>
    rw [loop_of_not_alpha h hc]
    refine iff_of_true nofun fun key hkey => ?_
    cases hkey with
    | here h' hc' =>
      cases h.symm.trans h'
      exact absurd hc' hc
    | later h' hc' =>
      cases h.symm.trans h'
      exact absurd hc' hc

/-! ## Pairs -/

/-- A value as it is given in an option string; a double with the text that it is written as. -/
inductive Given
  | int (v : ℤ)
  | double (written : List Char) (x : ℚ)
  | string (s : List Char)

/-- The text of a value. -/
def Given.text : Given → List Char
  | .int v => Decimal.text v
  | .double written _ => written
  | .string s => '"' :: (s ++ ['"'])

/-- What is stored for a value. -/
def Given.value : Given → Value
  | .int v => .int v
  | .double _ x => .double x
  | .string s => .string s

/-- The type of a value. -/
def Given.type : Given → ParamType
  | .int _ => .int
  | .double _ _ => .double
  | .string _ => .string

/-- A text that ends where a value ends: there is nothing more, or a separator. -/
def Ends (separator : Char) (rest : List Char) : Prop := rest = [] ∨ ∃ rest', rest = separator :: rest'

/-- Values that can be given: integers that fit an `int`, texts that are doubles to `strtod`, and texts without
a double quote. -/
def Given.Valid (strtod : Strtod) (separator : Char) : Given → Prop
  | .int v => -2 ^ 31 ≤ v ∧ v < 2 ^ 31
  | .double written x => written ≠ [] ∧ (∀ c ∈ written, c ≠ separator ∧ c ≠ '"' ∧ isspace c = false) ∧
      ∀ rest, Ends separator rest → strtod (written ++ rest) = some (x, written.length)
  | .string s => s ≠ [] ∧ '"' ∉ s

/-- A pair `key=value`. -/
structure Pair where
  key : List Char
  given : Given

/-- The text of a pair. -/
def Pair.text (p : Pair) : List Char := p.key ++ '=' :: p.given.text

/-- An option string: pairs with separators between them. -/
def optionString (separator : Char) (pairs : List Pair) : List Char :=
  [separator].intercalate (pairs.map Pair.text)

/-- A name of letters and digits that starts with a letter. -/
def IsName (key : List Char) : Prop := ∃ c cs, key = c :: cs ∧ c.isAlpha ∧ ∀ d ∈ key, d.isAlphanum

/-- A pair with a name as its key and a valid value, of the type that the key is registered with if it is. -/
structure Pair.Valid (strtod : Strtod) (params : List Param) (separator : Char) (p : Pair) : Prop where
  key : IsName p.key
  given : p.given.Valid strtod separator
  type : ∀ q ∈ params, q.key = p.key → q.type = p.given.type

/-- A separator that is not part of a name, of an integer, or of the notation of pairs. -/
structure Separator (separator : Char) : Prop where
  alphanum : separator.isAlphanum = false
  quote : separator ≠ '"'
  equals : separator ≠ '='
  minus : separator ≠ '-'

/-- The value of the last pair with a key. -/
def lastValue (pairs : List Pair) (key : List Char) : Option Value :=
  (pairs.filter fun p => p.key = key).getLast?.map fun p => p.given.value

/-- Pairs are read as they are written: the number of the pairs with registered keys is returned, a store has
the value of the last pair with its key, and a store without a pair is unchanged. -/
def Right (strtod : Strtod) (params : List Param) (separator : Char) (withWhiteSpaces : Bool)
    (pairs : List Pair) (stores : Stores) : Prop :=
  ∃ stores', process strtod params separator withWhiteSpaces (optionString separator pairs) stores =
      .ok (pairs.countP (fun p => p.key ∈ params.map Param.key), stores') ∧
    ∀ k p, params[k]? = some p → stores' k = (lastValue pairs p.key).or (stores k)

/-! ## Values are read as they are given -/

variable {given : Given} {s : List Char} {p : Pair} {pairs : List Pair}

theorem lastValue_cons : lastValue (p :: pairs) name =
    (lastValue pairs name).or (if p.key = name then some p.given.value else none) := by
  rw [lastValue, List.filter_cons]
  by_cases h : p.key = name
  · rw [if_pos (decide_eq_true h), if_pos h, List.getLast?_cons]
    rw [lastValue]
    cases (pairs.filter fun p => p.key = name).getLast? <;> rfl
  · rw [if_neg (by simpa using h), if_neg h, Option.or_none]
    rfl

theorem isspace_of_isAlphanum {c : Char} (h : c.isAlphanum = true) : isspace c = false := by
  rw [Char.isAlphanum, Char.isAlpha, Char.isUpper, Char.isLower, Char.isDigit] at h
  have hc : 48 ≤ c.toNat := by
    simp only [Bool.or_eq_true, Bool.and_eq_true, decide_eq_true_eq, ge_iff_le, UInt32.le_iff_toNat_le] at h
    change ((65 ≤ c.toNat ∧ _) ∨ (97 ≤ c.toNat ∧ _)) ∨ (48 ≤ c.toNat ∧ _) at h
    omega
  rw [isspace]
  simp only [Bool.or_eq_false_iff, Bool.and_eq_false_iff, decide_eq_false_iff_not]
  omega

/-- The loop goes to the separator over a text without separators and quotes. -/
theorem skipItem_append (h : ∀ c ∈ s, c ≠ separator ∧ c ≠ '"') :
    skipItem separator false (s ++ rest) = skipItem separator false rest := by
  induction s with
  | nil => rfl
  | cons c s ih =>
    obtain ⟨⟨hsep, hquote⟩, hs⟩ := List.forall_mem_cons.mp h
    rw [List.cons_append, skipItem, if_pos (.inl hsep), if_neg hquote, ih hs]

theorem skipItem_of_ends (h : Ends separator rest) : skipItem separator false rest = some rest := by
  rcases h with rfl | ⟨rest', rfl⟩
  · rfl
  · rw [skipItem, if_neg (by simp)]

/-- The loop goes on in quotes. -/
theorem skipItem_quoted (h : '"' ∉ s) :
    skipItem separator true (s ++ rest) = skipItem separator true rest := by
  induction s with
  | nil => rfl
  | cons c s ih =>
    obtain ⟨hc, hs⟩ := not_or.mp (mt List.mem_cons.mpr h)
    rw [List.cons_append, skipItem, if_pos (.inr rfl), if_neg (Ne.symm hc), ih hs]

theorem Separator.ne_of_mem_decimal (hsep : Separator separator) {v : ℤ} {c : Char}
    (h : c ∈ Decimal.text v) : c ≠ separator ∧ c ≠ '"' := by
  rcases Decimal.mem_text h with rfl | hdigit
  · exact ⟨hsep.minus.symm, by decide⟩
  · refine ⟨?_, ?_⟩
    · rintro rfl
      have hnot := hsep.alphanum
      rw [Char.isAlphanum, hdigit, Bool.or_true] at hnot
      cases hnot
    · rintro rfl
      exact absurd hdigit (by decide)

/-- **Behind a key that is not registered, the loop goes to the end of the value.** -/
theorem skipItem_given (hsep : Separator separator) (hvalid : given.Valid strtod separator)
    (hends : Ends separator rest) :
    skipItem separator false ('=' :: given.text ++ rest) = some rest := by
  rw [List.cons_append, skipItem, if_pos (.inl hsep.equals.symm), if_neg (by decide)]
  cases given with
  | int v =>
    rw [Given.text, skipItem_append fun c hc => hsep.ne_of_mem_decimal hc, skipItem_of_ends hends]
  | double written x =>
    rw [Given.text, skipItem_append fun c hc => ⟨(hvalid.2.1 c hc).1, (hvalid.2.1 c hc).2.1⟩,
      skipItem_of_ends hends]
  | string s =>
    rw [Given.text, List.cons_append, skipItem, if_pos (.inl hsep.quote.symm), if_pos rfl, List.append_assoc,
      Bool.not_false, skipItem_quoted hvalid.2, List.singleton_append, skipItem, if_pos (.inr rfl),
      if_pos rfl, Bool.not_true, skipItem_of_ends hends]

theorem Ends.head_not_digit (hsep : Separator separator) (hends : Ends separator rest) :
    ∀ c ∈ rest.head?, c.isDigit = false := by
  rcases hends with rfl | ⟨rest', rfl⟩
  · exact nofun
  · intro c hc
    obtain rfl : separator = c := by simpa using hc
    have halphanum := hsep.alphanum
    rw [Char.isAlphanum, Bool.or_eq_false_iff] at halphanum
    exact halphanum.2

theorem decimal_head {v : ℤ} : ∃ c cs, Decimal.text v = c :: cs ∧ isspace c = false := by
  obtain ⟨c, cs, hc⟩ := List.exists_cons_of_ne_nil (Decimal.text_ne_nil v)
  refine ⟨c, cs, hc, ?_⟩
  have hmem : c ∈ Decimal.text v := hc ▸ List.mem_cons_self
  rcases Decimal.mem_text hmem with rfl | hdigit
  · rfl
  · exact isspace_of_isAlphanum (by rw [Char.isAlphanum, hdigit, Bool.or_true])

theorem strtol_text (hsep : Separator separator) {v : ℤ} (hlow : -2 ^ 31 ≤ v) (hhigh : v < 2 ^ 31)
    (hends : Ends separator rest) : strtol (Decimal.text v ++ rest) = some (v, rest) := by
  obtain ⟨c, cs, hc, hspace⟩ := @decimal_head v
  have hdrop : (Decimal.text v ++ rest).dropWhile isspace = Decimal.text v ++ rest := by
    rw [hc, List.cons_append, List.dropWhile_cons_of_neg (by simp [hspace])]
  rw [strtol, hdrop, Decimal.scan_text v (hends.head_not_digit hsep)]
  dsimp only
  rw [Decimal.value_text, if_neg Nat.toDigits_ne_nil, if_neg (by omega)]

/-- A value starts with something that is neither a space nor the separator. -/
theorem Given.Valid.head (hsep : Separator separator) (hvalid : given.Valid strtod separator) :
    ∃ c cs, given.text = c :: cs ∧ isspace c = false ∧ c ≠ separator := by
  cases given with
  | int v =>
    obtain ⟨c, cs, hc, hspace⟩ := @decimal_head v
    exact ⟨c, cs, hc, hspace, (hsep.ne_of_mem_decimal (v := v) (hc ▸ List.mem_cons_self)).1⟩
  | double written x =>
    obtain ⟨c, cs, rfl⟩ := List.exists_cons_of_ne_nil hvalid.1
    have hhead := hvalid.2.1 c List.mem_cons_self
    exact ⟨c, cs, rfl, hhead.2.2, hhead.1⟩
  | string s => exact ⟨'"', s ++ ['"'], rfl, rfl, hsep.quote.symm⟩

theorem readString_quoted (h : '"' ∉ s) :
    readString separator withWhiteSpaces ('"' :: (s ++ '"' :: rest)) = some (s, rest) := by
  have hs : ∀ c ∈ s, decide (c ≠ '"') = true := fun c hc => decide_eq_true fun heq => h (heq ▸ hc)
  have htake : (s ++ '"' :: rest).takeWhile (· ≠ '"') = s := by
    rw [List.takeWhile_append_of_pos hs, List.takeWhile_cons_of_neg (by simp), List.append_nil]
  have hdrop : (s ++ '"' :: rest).dropWhile (· ≠ '"') = '"' :: rest := by
    rw [List.dropWhile_append_of_pos hs, List.dropWhile_cons_of_neg (by simp)]
  rw [readString]
  simp only [htake, hdrop]

theorem readValue_given (hsep : Separator separator) (hvalid : given.Valid strtod separator)
    (hends : Ends separator rest) :
    readValue strtod separator withWhiteSpaces given.type (given.text ++ rest) =
      some (rest, some given.value) := by
  cases given with
  | int v =>
    rw [Given.type, readValue, Given.text, strtol_text hsep hvalid.1 hvalid.2 hends, Given.value,
      Option.map_some]
    have hbmod : v.bmod (2 ^ 32) = v := by
      have := hvalid.1
      have := hvalid.2
      rw [Int.bmod_def]
      omega
    dsimp only
    rw [hbmod]
  | double written x =>
    rw [Given.type, readValue, Given.text, hvalid.2.2 rest hends]
    dsimp only
    rw [if_neg (mt List.length_eq_zero_iff.mp hvalid.1), List.drop_left]
    rfl
  | string s =>
    rw [Given.type, readValue, Given.text, List.cons_append, List.append_assoc, List.singleton_append,
      readString_quoted hvalid.2, Option.map_some]
    dsimp only
    rw [if_pos (List.length_pos_iff.mpr hvalid.1)]
    rfl

/-- **Behind a registered key, the value is read as it is given.** -/
theorem readAssignment_given (hsep : Separator separator) (hvalid : given.Valid strtod separator)
    (hends : Ends separator rest) :
    readAssignment strtod separator withWhiteSpaces given.type ('=' :: given.text ++ rest) =
      some (rest, some given.value) := by
  obtain ⟨c, cs, hc, hspace, hne⟩ := hvalid.head hsep
  have hdrop : (given.text ++ rest).dropWhile isspace = c :: (cs ++ rest) := by
    rw [hc, List.cons_append, List.dropWhile_cons_of_neg (by simp [hspace])]
  have hequals : ('=' :: (given.text ++ rest)).dropWhile isspace = '=' :: (given.text ++ rest) :=
    List.dropWhile_cons_of_neg (by decide)
  rw [readAssignment, List.cons_append, hequals]
  split
  · next b heq =>
    obtain rfl : given.text ++ rest = b := (List.cons.inj heq).2
    rw [hdrop]
    dsimp only
    rw [if_pos hne, ← List.cons_append, ← hc, readValue_given hsep hvalid hends]
  · next hnot => exact absurd rfl (hnot _)

/-! ## Option strings are read as they are written -/

theorem IsName.head (h : IsName key) : ∃ c cs, key = c :: cs ∧ c.isAlpha ∧ isspace c = false := by
  obtain ⟨c, cs, rfl, hc, hall⟩ := h
  exact ⟨c, cs, rfl, hc, isspace_of_isAlphanum (hall c List.mem_cons_self)⟩

/-- The key of a pair is read up to the `=`. -/
theorem IsName.scan (h : IsName key) :
    (key ++ '=' :: b).takeWhile Char.isAlphanum = key ∧ (key ++ '=' :: b).dropWhile Char.isAlphanum = '=' :: b := by
  obtain ⟨c, cs, -, -, hall⟩ := h
  rw [List.takeWhile_append_of_pos hall, List.dropWhile_append_of_pos hall,
    List.takeWhile_cons_of_neg (by decide), List.dropWhile_cons_of_neg (by decide), List.append_nil]
  exact ⟨rfl, rfl⟩

theorem nextItem_pair (hsep : Separator separator) (hkey : IsName p.key) :
    ∃ c cs, nextItem separator (p.text ++ rest) = c :: cs ∧ c.isAlpha ∧ c :: cs = p.text ++ rest := by
  obtain ⟨c, cs, hc, halpha, hspace⟩ := hkey.head
  have hne : c ≠ separator := by
    rintro rfl
    have hnot := hsep.alphanum
    rw [Char.isAlphanum, halpha, Bool.true_or] at hnot
    cases hnot
  refine ⟨c, cs ++ '=' :: p.given.text ++ rest, ?_, halpha, ?_⟩
  · rw [nextItem, Pair.text, hc, List.cons_append, List.cons_append,
      List.dropWhile_cons_of_neg (by simp [hspace, hne])]
  · rw [Pair.text, hc, List.cons_append, List.cons_append]

/-- What a pair does to the stores. -/
def Stored (params : List Param) (p : Pair) (stores stores' : Stores) : Prop :=
  ∀ k q, params[k]? = some q → stores' k = if q.key = p.key then some p.given.value else stores k

/-- **A pair is read as it is written**, if its key fits. -/
theorem item_pair (hsep : Separator separator) (hnodup : (params.map Param.key).Nodup)
    (hvalid : p.Valid strtod params separator) (hfits : Fits params p.key) (hends : Ends separator rest) :
    ∃ stores', item strtod params separator withWhiteSpaces p.key ('=' :: p.given.text ++ rest) stores =
        .ok (some (rest, if p.key ∈ params.map Param.key then 1 else 0), stores') ∧
      Stored params p stores stores' := by
  by_cases hmem : p.key ∈ params.map Param.key
  · obtain ⟨q, hq, hkey⟩ := List.mem_map.mp hmem
    obtain ⟨k, hk⟩ := List.mem_iff_getElem?.mp hq
    have hfind := findKey_of_getElem (n := 0) hfits hnodup hk hkey
    rw [Nat.zero_add, hvalid.type q hq hkey] at hfind
    refine ⟨Function.update stores k (some p.given.value), ?_, fun k' q' hk' => ?_⟩
    · rw [item, copyKey_of_le hfits.1, hfind, if_pos hmem]
      dsimp only [bind, Except.bind]
      rw [readAssignment_given hsep hvalid.given hends]
      dsimp only
      rw [skipItem_of_ends hends]
      rfl
    · by_cases heq : k' = k
      · subst heq
        obtain rfl : q = q' := Option.some.inj (hk.symm.trans hk')
        rw [Function.update_self, if_pos hkey]
      · rw [Function.update_of_ne heq, if_neg]
        intro hkey'
        have hlt : k' < (params.map Param.key).length := by
          rw [List.length_map]
          exact (List.getElem?_eq_some_iff.mp hk').1
        have hget : (params.map Param.key)[k']? = (params.map Param.key)[k]? := by
          rw [List.getElem?_map, List.getElem?_map, hk, hk', Option.map_some, Option.map_some, hkey, hkey']
        exact heq ((List.getElem?_inj hlt hnodup).mp hget)
  · have hother : ∀ q ∈ params, q.key ≠ p.key := fun q hq heq =>
      hmem (heq ▸ List.mem_map_of_mem hq)
    refine ⟨stores, ?_, fun k q hk => ?_⟩
    · rw [item, copyKey_of_le hfits.1, findKey_of_not_mem hfits hother, if_neg hmem]
      dsimp only [bind, Except.bind]
      rw [skipItem_given hsep hvalid.given hends]
      rfl
    · rw [if_neg (hother q (List.mem_of_getElem? hk))]

theorem optionString_cons (p : Pair) (pairs : List Pair) :
    ∃ rest, optionString separator (p :: pairs) = p.text ++ rest ∧ Ends separator rest ∧
      ∀ n stores, loop strtod params separator withWhiteSpaces rest n stores =
        loop strtod params separator withWhiteSpaces (optionString separator pairs) n stores := by
  cases pairs with
  | nil =>
    refine ⟨[], ?_, .inl rfl, fun _ _ => rfl⟩
    rw [optionString, List.map_singleton, List.intercalate_singleton, List.append_nil]
  | cons q pairs =>
    refine ⟨separator :: optionString separator (q :: pairs), ?_, .inr ⟨_, rfl⟩, fun n stores => ?_⟩
    · rw [optionString, List.map_cons, List.map_cons, List.intercalate_cons_cons, List.append_assoc,
        optionString, List.map_cons]
      rfl
    · exact loop_separator

/-- **Pairs whose keys fit are read as they are written.** -/
theorem loop_pairs (hsep : Separator separator) (hnodup : (params.map Param.key).Nodup)
    (hvalid : ∀ p ∈ pairs, p.Valid strtod params separator) (hfits : ∀ p ∈ pairs, Fits params p.key) :
    ∃ stores', loop strtod params separator withWhiteSpaces (optionString separator pairs) n stores =
        .ok ((n + pairs.countP (fun p => p.key ∈ params.map Param.key) : ℕ), stores') ∧
      ∀ k q, params[k]? = some q → stores' k = (lastValue pairs q.key).or (stores k) := by
  induction pairs generalizing n stores with
  | nil => exact ⟨stores, loop_of_nil rfl, fun k q hk => rfl⟩
  | cons p pairs ih =>
    obtain ⟨hp, hvalid⟩ := List.forall_mem_cons.mp hvalid
    obtain ⟨hpfits, hfits⟩ := List.forall_mem_cons.mp hfits
    obtain ⟨rest, htext, hends, hrest⟩ := @optionString_cons strtod params separator withWhiteSpaces p pairs
    obtain ⟨c, cs, hnext, halpha, hcs⟩ := @nextItem_pair separator rest p hsep hp.key
    obtain ⟨stores₁, hitem, hstored⟩ := @item_pair strtod params separator withWhiteSpaces rest stores p
      hsep hnodup hp hpfits hends
    obtain ⟨stores₂, hloop, hlast⟩ := @ih stores₁
      (n + if p.key ∈ params.map Param.key then 1 else 0) hvalid hfits
    have hscan := hp.key.scan (b := p.given.text ++ rest)
    refine ⟨stores₂, ?_, fun k q hk => ?_⟩
    · rw [htext, loop_of_item hnext halpha, hcs, Pair.text, List.append_assoc, List.cons_append, hscan.1,
        hscan.2, ← List.cons_append, hitem]
      refine (hrest _ _).trans (hloop.trans ?_)
      rw [List.countP_cons]
      congr 3
      simp only [decide_eq_true_eq]
      omega
    · rw [hlast k q hk, hstored k q hk, lastValue_cons, Option.or_assoc]
      by_cases hkey : p.key = q.key
      · rw [if_pos hkey, if_pos hkey.symm, Option.some_or]
      · rw [if_neg hkey, if_neg (Ne.symm hkey), Option.none_or]

/-- A key that does not fit ends `process` at the latest when it comes to it. -/
theorem loop_of_not_fits (hsep : Separator separator) (hnodup : (params.map Param.key).Nodup)
    (hvalid : ∀ p ∈ pairs, p.Valid strtod params separator) (hnot : ∃ p ∈ pairs, ¬Fits params p.key) :
    ∃ fault, loop strtod params separator withWhiteSpaces (optionString separator pairs) n stores =
      .error fault := by
  induction pairs generalizing n stores with
  | nil => simp at hnot
  | cons p pairs ih =>
    obtain ⟨hp, hvalid⟩ := List.forall_mem_cons.mp hvalid
    obtain ⟨rest, htext, hends, hrest⟩ := @optionString_cons strtod params separator withWhiteSpaces p pairs
    obtain ⟨c, cs, hnext, halpha, hcs⟩ := @nextItem_pair separator rest p hsep hp.key
    have hscan := hp.key.scan (b := p.given.text ++ rest)
    rw [htext, loop_of_item hnext halpha, hcs, Pair.text, List.append_assoc, List.cons_append, hscan.1,
      hscan.2, ← List.cons_append]
    by_cases hfits : Fits params p.key
    · obtain ⟨stores₁, hitem, -⟩ := @item_pair strtod params separator withWhiteSpaces rest stores p
        hsep hnodup hp hfits hends
      obtain ⟨q, hq, hqnot⟩ := hnot
      have hmem : q ∈ pairs := (List.mem_cons.mp hq).resolve_left fun heq => hqnot (heq ▸ hfits)
      obtain ⟨fault, hfault⟩ := @ih stores₁ _ hvalid ⟨q, hmem, hqnot⟩
      refine ⟨fault, ?_⟩
      rw [hitem]
      exact (hrest _ _).trans hfault
    · obtain ⟨fault, hitem⟩ := item_of_not_fits hfits
      exact ⟨fault, by rw [hitem]; rfl⟩

theorem process_eq_loop {text : List Char} (h : params ≠ []) :
    process strtod params separator withWhiteSpaces text stores =
      loop strtod params separator withWhiteSpaces text 0 stores := by
  rw [process]
  split
  · next hor =>
    obtain rfl := hor.resolve_left h
    rw [loop_of_nil rfl]
    rfl
  · rfl

theorem right_iff (hsep : Separator separator) (hnodup : (params.map Param.key).Nodup)
    (hvalid : ∀ p ∈ pairs, p.Valid strtod params separator) :
    Right strtod params separator withWhiteSpaces pairs stores ↔
      (params ≠ [] → ∀ p ∈ pairs, Fits params p.key) := by
  by_cases hparams : params = []
  · subst hparams
    refine iff_of_true ⟨stores, ?_, fun k q hk => absurd hk (by simp)⟩ (absurd rfl)
    rw [process, if_pos (.inl rfl)]
    simp
  · rw [Right, process_eq_loop hparams]
    refine ⟨fun h _ => ?_, fun h => ?_⟩
    · by_contra hnot
      push Not at hnot
      obtain ⟨fault, hfault⟩ := @loop_of_not_fits strtod params separator withWhiteSpaces stores 0 pairs
        hsep hnodup hvalid hnot
      obtain ⟨stores', hok, -⟩ := h
      cases hfault.symm.trans hok
    · obtain ⟨stores', hok, hlast⟩ := @loop_pairs strtod params separator withWhiteSpaces stores 0 pairs
        hsep hnodup hvalid (h hparams)
      rw [Nat.zero_add] at hok
      exact ⟨stores', hok, hlast⟩

/-- **Nothing is written behind the key buffer exactly if no key that `process` comes to is longer than it, and
pairs are read as they are written exactly if their keys fit.**  With no registered key, `process` reads
nothing. -/
theorem process_iff (strtod : Strtod) (params : List Param) (separator : Char) (withWhiteSpaces : Bool)
    (stores : Stores) (hsep : Separator separator) (hnodup : (params.map Param.key).Nodup) :
    (∀ text, process strtod params separator withWhiteSpaces text stores ≠ .error .written ↔
      (params ≠ [] → ∀ key, Comes strtod params separator withWhiteSpaces text stores key →
        key.length ≤ lenBuff)) ∧
    ∀ pairs : List Pair, (∀ p ∈ pairs, p.Valid strtod params separator) →
      (Right strtod params separator withWhiteSpaces pairs stores ↔
        (params ≠ [] → ∀ p ∈ pairs, Fits params p.key)) := by
  refine ⟨fun text => ?_, fun pairs hvalid => right_iff hsep hnodup hvalid⟩
  by_cases hparams : params = []
  · rw [process, if_pos (.inl hparams)]
    exact iff_of_true nofun (absurd hparams)
  · rw [process_eq_loop hparams, loop_written_iff]
    exact ⟨fun h _ => h, fun h => h hparams⟩

theorem separator_comma : Separator ',' := ⟨by decide, by decide, by decide, by decide⟩

/-- `b=-1,a=7` is read as it is written. -/
theorem process_iff_comma :
    Right (fun _ => none) [⟨['a'], .int⟩, ⟨['b'], .int⟩] ',' false [⟨['b'], .int (-1)⟩, ⟨['a'], .int 7⟩]
      fun _ => none := by
  refine ((process_iff (fun _ => none) [⟨['a'], .int⟩, ⟨['b'], .int⟩] ',' false (fun _ => none)
    separator_comma (by decide)).2 [⟨['b'], .int (-1)⟩, ⟨['a'], .int 7⟩] ?_).mpr fun _ => ?_
  · refine List.forall_mem_cons.mpr ⟨⟨⟨'b', [], rfl, rfl, by simp⟩, ⟨by decide, by decide⟩, ?_⟩,
      List.forall_mem_singleton.mpr ⟨⟨'a', [], rfl, rfl, by simp⟩, ⟨by decide, by decide⟩, ?_⟩⟩ <;>
    simp [Given.type]
  · exact List.forall_mem_cons.mpr ⟨⟨by decide, fun h => absurd h (by decide)⟩,
      List.forall_mem_singleton.mpr ⟨by decide, fun h => absurd h (by decide)⟩⟩

/-- A key of 300 letters that nobody has registered is written behind the end of the buffer. -/
theorem process_long_key :
    process (fun _ => none) [⟨['a'], .int⟩] ',' false
      (optionString ',' [⟨List.replicate 300 'x', .int 1⟩]) (fun _ => none) = .error .written := by
  have hkey : IsName (List.replicate 300 'x') :=
    ⟨'x', List.replicate 299 'x', rfl, rfl, fun d hd => (List.eq_of_mem_replicate hd) ▸ rfl⟩
  obtain ⟨c, cs, hnext, halpha, hcs⟩ :=
    @nextItem_pair ',' [] ⟨List.replicate 300 'x', .int 1⟩ separator_comma hkey
  rw [List.append_nil] at hnext hcs
  have hscan := hkey.scan (b := Decimal.text 1)
  rw [process_eq_loop (List.cons_ne_nil _ _), optionString, List.map_singleton,
    List.intercalate_singleton, loop_of_item hnext halpha, hcs, Pair.text, Given.text, hscan.1,
    item_written_iff.mpr (by rw [List.length_replicate]; decide)]
  rfl

end ParseParams

end Rasdaman
