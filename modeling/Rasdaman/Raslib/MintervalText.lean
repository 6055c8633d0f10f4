import Rasdaman.Machinery.IStream
import Rasdaman.Raslib.Minterval
import Rasdaman.Raslib.ParseParams
import Rasdaman.Raslib.SintervalTables

/-!
# Raslib/MintervalText — domain strings

`constructorinit` counts the commas of the whole string for the dimension, then reads the bounds from a
stream.  `parse_iff`: what was printed is read again, and what is read has the form `[l:h,...,l:h]`, unless
the count of the commas wraps around to dimension 0.
-/

namespace Rasdaman

open ParseParams

/-! ## Printing and reading -/

/-- `print_status`. -/
def Sinterval.printStatus (s : Sinterval) : List Char :=
  (if s.lowFixed then Decimal.text s.lowerBound else ['*']) ++
    ':' :: if s.highFixed then Decimal.text s.upperBound else ['*']

namespace Minterval

/-- The intervals that `print_status` writes, with the commas between them. -/
def printIntervals : Minterval → List Char
  | [] => []
  | [s] => s.printStatus
  | s :: ss => s.printStatus ++ ',' :: printIntervals ss

/-- `print_status`. -/
def printStatus (m : Minterval) : List Char := '[' :: printIntervals m ++ [']']

/-- `operator==`. -/
def equals (a b : Minterval) : Bool := a.length == b.length && (a.zip b).all fun s => s.1.equals s.2

/-- The least `r_Range`. -/
def rangeMin : ℤ := -2 ^ 63

/-- The greatest `r_Range`. -/
def rangeMax : ℤ := 2 ^ 63 - 1

/-- The local variables of `constructorinit`: the stream, and the character and the bound read last. -/
structure Reader where
  str : IStream
  c : Char
  b : ℤ

namespace Reader

/-- `str >> c`. -/
def next (r : Reader) : Reader :=
  { r with c := (r.str.getChar isspace r.c).1, str := (r.str.getChar isspace r.c).2 }

/-- A bound: `none` for `*`, otherwise a number. -/
def bound (r : Reader) : Except RError (Option ℤ × Reader) :=
  let r := r.next
  if r.c = '*' then .ok (none, r)
  else
    let read := (r.str.putback r.c).getInt isspace rangeMin rangeMax r.b
    if read.2.failbit then .error .noInterval
    else .ok (some read.1, { r with str := read.2, b := read.1 })

/-- `set_low` with a bound that was read. -/
def setLow (sint : Sinterval) : Option ℤ → Except RError Sinterval
  | none => .ok sint.openLow
  | some b => sint.setLow b

/-- `set_high` with a bound that was read. -/
def setHigh (sint : Sinterval) : Option ℤ → Except RError Sinterval
  | none => .ok sint.openHigh
  | some b => sint.setHigh b

/-- One dimension, and the character after it. -/
def interval (r : Reader) : Except RError (Sinterval × Reader) := do
  let (low, r) ← r.bound
  let sint ← setLow .opened low
  let r := r.next
  if r.c ≠ ':' then .error .noInterval
  else
    let (high, r) ← r.bound
    let sint ← setHigh sint high
    return (sint, r.next)

/-- The loop over the dimensions that are still to be read. -/
def intervals : ℕ → Reader → Except RError Minterval
  | 0, _ => .ok []
  | n + 1, r => do
    let (sint, r) ← r.interval
    if (n ≠ 0 ∧ r.c ≠ ',') ∨ (n = 0 ∧ r.c ≠ ']') then .error .noInterval
    else return sint :: (← intervals n r)

end Reader

/-- The dimension that the commas give, an `r_Dimension`.  The first character is not looked at; for the
empty string the search begins behind its end, but whatever it counts there the string is rejected. -/
def dimensionality (mIntStr : List Char) : ℕ := (1 + mIntStr.tail.count ',') % 2 ^ 32

/-- `constructorinit`. -/
def parse (mIntStr : List Char) : Except RError Minterval :=
  let r := Reader.next ⟨.ofText mIntStr, Char.ofNat 0, 0⟩
  if r.c ≠ '[' then .error .noInterval
  else r.intervals (dimensionality mIntStr)

/-! ## The form of a domain -/

/-- The texts of a bound. -/
inductive BoundText : Option ℤ → List Char → Prop
  | star : BoundText none ['*']
  | number {v : ℤ} {t : List Char} : Decimal.Spells v t → BoundText (some v) t

/-- The low bound, if it is fixed. -/
def lowBound (s : Sinterval) : Option ℤ := if s.lowFixed then some s.lowerBound else none

/-- The high bound, if it is fixed. -/
def highBound (s : Sinterval) : Option ℤ := if s.highFixed then some s.upperBound else none

/-- The tokens `l:h,...,l:h]` of the intervals of a domain. -/
inductive Pairs : Minterval → List (List Char) → Prop
  | last {s : Sinterval} {l h : List Char} : BoundText (lowBound s) l → BoundText (highBound s) h →
      Pairs [s] [l, [':'], h, [']']]
  | more {s : Sinterval} {l h : List Char} {m : Minterval} {ts : List (List Char)} :
      BoundText (lowBound s) l → BoundText (highBound s) h → Pairs m ts →
      Pairs (s :: m) (l :: [':'] :: h :: [','] :: ts)

/-- A text begins, up to blanks, with `[l:h,...,l:h]`, one pair for each interval of the domain, where the
fixed bounds are in their order. -/
def Domain (m : Minterval) (text : List Char) : Prop :=
  (∀ s ∈ m, s.Valid) ∧ ∃ ts rest, Pairs m ts ∧ IStream.Takes isspace (['['] :: ts) text rest

/-! ## What is accepted -/

variable {r r' : Reader} {text rest : List Char} {v low high : Option ℤ} {s s' : Sinterval} {m : Minterval}
  {c : Char} {n : ℕ}

namespace Reader

open IStream

/-- The characters between the bounds. -/
def marks : List Char := [':', ',', ']']

/-- A character that was not in the variable before has been read. -/
theorem next_takes (h : r.str.At text) (hc : r.next.c = c) (hne : r.c ≠ c) :
    ∃ rest, Takes isspace [[c]] text rest ∧ r.next.str.At rest := by
  cases hdrop : text.dropWhile isspace with
  | nil =>
    obtain ⟨s', hget, -⟩ := getChar_end h hdrop r.c
    exact absurd (hc.symm.trans (congrArg Prod.fst hget)) hne.symm
  | cons c' rest =>
    have hget := getChar_next h hdrop r.c
    obtain rfl : c = c' := hc.symm.trans (congrArg Prod.fst hget)
    refine ⟨rest, takes_of_drop hdrop, ?_⟩
    rw [next, hget]
    exact at_ofText rest

/-- **A bound that was read stands in the text**; the character kept is none of those between bounds. -/
theorem bound_takes (h : r.str.At text) (hne : r.c ≠ '*') (hok : r.bound = .ok (v, r')) :
    ∃ t rest, BoundText v t ∧ Takes isspace [t] text rest ∧ r'.str.At rest ∧ r'.c ∉ marks := by
  cases hdrop : text.dropWhile isspace with
  | nil =>
    obtain ⟨s', hget, hfail⟩ := getChar_end h hdrop r.c
    simp only [bound, next, hget, if_neg hne, failbit_getInt_putback hfail, if_true] at hok
    exact absurd hok nofun
  | cons c rest =>
    have hget := getChar_next h hdrop r.c
    have hdrop' : (c :: rest).dropWhile isspace = c :: rest := by
      rw [← hdrop, List.dropWhile_idempotent]
    simp only [bound, next, hget] at hok
    split at hok
    · next hstar =>
      obtain ⟨rfl, rfl⟩ := Prod.mk.inj (Except.ok.inj hok)
      subst hstar
      exact ⟨_, rest, .star, takes_of_drop hdrop, at_ofText rest, by simp [marks]⟩
    · split at hok
      · exact absurd hok nofun
      · next hfail =>
        obtain ⟨rfl, rfl⟩ := Prod.mk.inj (Except.ok.inj hok)
        obtain ⟨t, rest', hsplit, ht, hat⟩ :=
          getInt_spells (at_ofText (c :: rest)) rfl (Bool.eq_false_of_not_eq_true hfail)
        rw [hdrop'] at hsplit
        obtain ⟨c', cs, rfl, hc'⟩ := ht.head
        obtain ⟨rfl, -⟩ := List.cons_eq_cons.mp hsplit
        have hmark : ∀ c ∈ marks, ¬(c.isDigit = true ∨ c = '+' ∨ c = '-') := by simp [marks]
        exact ⟨_, rest', .number ht, takes_of_drop (hdrop.trans hsplit), hat,
          fun hmem => hmark c hmem hc'⟩

/-- The bounds that were read are those of the interval, in their order. -/
theorem set_ok (hlow : setLow .opened low = .ok s) (hhigh : setHigh s high = .ok s') :
    lowBound s' = low ∧ highBound s' = high ∧ s'.Valid := by
  have hs : s.lowFixed = low.isSome ∧ s.lowerBound = low.getD 0 := by
    cases low with
    | none =>
      obtain rfl := Except.ok.inj hlow
      exact ⟨rfl, rfl⟩
    | some b =>
      rw [setLow, Sinterval.setLow, if_neg (by simp [Sinterval.opened])] at hlow
      obtain rfl := Except.ok.inj hlow
      exact ⟨rfl, rfl⟩
  have hbound : lowBound s = low := by
    rw [lowBound, hs.1, hs.2]
    cases low <;> rfl
  cases high with
  | none =>
    obtain rfl := Except.ok.inj hhigh
    exact ⟨hbound, rfl, fun _ hopen => absurd hopen Bool.false_ne_true⟩
  | some b =>
    rw [setHigh, Sinterval.setHigh] at hhigh
    split at hhigh
    · cases hhigh
    · next hle =>
      obtain rfl := Except.ok.inj hhigh
      exact ⟨hbound, rfl, fun hfixed _ => not_lt.mp fun hlt => hle ⟨hfixed, hlt⟩⟩

/-- **A dimension that was read stands in the text.** -/
theorem interval_takes (h : r.str.At text) (hne : r.c ≠ '*') (hok : r.interval = .ok (s, r')) :
    ∃ l u rest r₂, BoundText (lowBound s) l ∧ BoundText (highBound s) u ∧ s.Valid ∧
      Takes isspace [l, [':'], u] text rest ∧ r' = next r₂ ∧ r₂.str.At rest ∧ r₂.c ∉ marks := by
  obtain ⟨⟨low, r₁⟩, hlow, hok⟩ := ExceptFold.bind_eq_ok hok
  obtain ⟨sint, hset, hok⟩ := ExceptFold.bind_eq_ok hok
  obtain ⟨l, rest₁, hl, htl, hat₁, hc₁⟩ := bound_takes h hne hlow
  simp only at hok
  split at hok
  · exact absurd hok nofun
  · next hcolon =>
    obtain ⟨⟨high, r₂⟩, hhigh, hok⟩ := ExceptFold.bind_eq_ok hok
    obtain ⟨sint', hset', hok⟩ := ExceptFold.bind_eq_ok hok
    obtain ⟨rfl, rfl⟩ := Prod.mk.inj (Except.ok.inj hok)
    obtain ⟨rfl, rfl, hvalid⟩ := set_ok hset hset'
    have hcolon := not_not.mp hcolon
    obtain ⟨rest₂, htc, hat₂⟩ := next_takes hat₁ hcolon fun heq => hc₁ (by rw [heq]; decide)
    obtain ⟨u, rest, hu, htu, hat, hc₂⟩ := bound_takes hat₂ (by rw [hcolon]; decide) hhigh
    exact ⟨l, u, rest, r₂, hl, hu, hvalid, (htl.append htc).append htu, rfl, hat, hc₂⟩

/-- **The dimensions that were read stand in the text**, up to the closing bracket. -/
theorem intervals_takes (h : r.str.At text) (hne : r.c ≠ '*') (hok : r.intervals (n + 1) = .ok m) :
    (∀ s ∈ m, s.Valid) ∧ ∃ ts rest, Pairs m ts ∧ Takes isspace ts text rest := by
  induction n generalizing r text m with
  | zero =>
    obtain ⟨⟨s, r'⟩, hs, hok⟩ := ExceptFold.bind_eq_ok hok
    obtain ⟨l, u, rest, r₂, hl, hu, hvalid, htake, rfl, hat, hc⟩ := interval_takes h hne hs
    simp only at hok
    split at hok
    · exact absurd hok nofun
    · next hmark =>
      obtain rfl := Except.ok.inj hok
      have hmark : r₂.next.c = ']' := not_not.mp fun hc => hmark (.inr ⟨trivial, hc⟩)
      obtain ⟨rest', htake', -⟩ := next_takes hat hmark fun heq => hc (by rw [heq]; decide)
      exact ⟨List.forall_mem_singleton.mpr hvalid, _, rest', .last hl hu, htake.append htake'⟩
  | succ n ih =>
    obtain ⟨⟨s, r'⟩, hs, hok⟩ := ExceptFold.bind_eq_ok hok
    obtain ⟨l, u, rest, r₂, hl, hu, hvalid, htake, rfl, hat, hc⟩ := interval_takes h hne hs
    simp only at hok
    split at hok
    · exact absurd hok nofun
    · next hmark =>
      obtain ⟨m', hm', hok⟩ := ExceptFold.bind_eq_ok hok
      obtain rfl := Except.ok.inj hok
      have hmark : r₂.next.c = ',' := not_not.mp fun hc => hmark (.inl ⟨n.succ_ne_zero, hc⟩)
      obtain ⟨rest', htake', hat'⟩ := next_takes hat hmark fun heq => hc (by rw [heq]; decide)
      obtain ⟨hvalid', ts, rest'', hpairs, hts⟩ := ih hat' (by rw [hmark]; decide) hm'
      exact ⟨List.forall_mem_cons.mpr ⟨hvalid, hvalid'⟩, _, rest'', .more hl hu hpairs,
        (htake.append htake').append hts⟩

/-! ## What was printed -/

/-- The text of a bound. -/
def printBound (v : Option ℤ) : List Char := v.elim ['*'] Decimal.text

/-- A bound of 64 bits. -/
def InRange (v : Option ℤ) : Prop := ∀ b ∈ v, rangeMin ≤ b ∧ b ≤ rangeMax

theorem printStatus_eq (s : Sinterval) :
    s.printStatus = printBound (lowBound s) ++ ':' :: printBound (highBound s) := by
  rw [Sinterval.printStatus, lowBound, highBound]
  cases s.lowFixed <;> cases s.highFixed <;> rfl

theorem isspace_eq_false {b : ℤ} (h : c ∈ Decimal.text b) : isspace c = false := by
  rcases Decimal.mem_text h with rfl | hdigit
  · decide
  · rw [Char.isDigit, Bool.and_eq_true, decide_eq_true_iff, decide_eq_true_iff] at hdigit
    have hlow : 48 ≤ c.toNat := UInt32.le_iff_toNat_le.mp hdigit.1
    simp only [isspace, Bool.or_eq_false_iff, Bool.and_eq_false_iff, decide_eq_false_iff_not]
    omega

theorem next_cons (h : r.str.At (c :: rest)) (hc : isspace c = false) :
    r.next = ⟨ofText rest, c, r.b⟩ := by
  have hdrop : (c :: rest).dropWhile isspace = c :: rest :=
    List.dropWhile_cons_of_neg (by rw [hc]; exact Bool.false_ne_true)
  rw [next, getChar_next h hdrop]

/-- **A bound is read as it was printed.** -/
theorem bound_printed (h : r.str.At (printBound v ++ c :: rest)) (hv : InRange v)
    (hc : c.isDigit = false) : ∃ r', r.bound = .ok (v, r') ∧ r'.str.At (c :: rest) := by
  cases v with
  | none =>
    have hnext : r.next = _ := next_cons h (by decide)
    rw [bound, hnext]
    exact ⟨_, rfl, at_ofText _⟩
  | some b =>
    obtain ⟨d, ds, hds⟩ := List.exists_cons_of_ne_nil (Decimal.text_ne_nil b)
    have hd : d ∈ Decimal.text b := hds ▸ List.mem_cons_self
    have htext : printBound (some b) ++ c :: rest = d :: (ds ++ c :: rest) := by
      rw [printBound, Option.elim_some, hds, List.cons_append]
    have hnext := next_cons (htext ▸ h) (isspace_eq_false hd)
    have hstar : d ≠ '*' := by
      rintro rfl
      exact absurd (Decimal.mem_text hd) (by decide)
    have hback : (ofText (ds ++ c :: rest)).putback d = ofText (Decimal.text b ++ c :: rest) := by
      rw [hds]
      rfl
    obtain ⟨s', hget, hat⟩ := getInt_text (at_ofText (Decimal.text b ++ c :: rest)) (hv b rfl)
      (fun _ => isspace_eq_false) (fun c' hc' => (Option.some.inj hc') ▸ hc) r.b
    simp only [bound, hnext, if_neg hstar, hback, hget, hat.2.1, Bool.false_eq_true, if_false]
    exact ⟨_, rfl, hat⟩

/-- The bounds of an interval are set without error. -/
theorem set_printed (h : s.Valid) : ∃ s₁ s₂, setLow .opened (lowBound s) = .ok s₁ ∧
    setHigh s₁ (highBound s) = .ok s₂ ∧ s.equals s₂ = true := by
  obtain ⟨low, high, lowFixed, highFixed⟩ := s
  cases lowFixed <;> cases highFixed
  · exact ⟨_, _, rfl, rfl, rfl⟩
  · exact ⟨_, _, rfl, rfl, by simp [Sinterval.equals, Sinterval.openLow, Sinterval.opened]⟩
  · exact ⟨_, _, rfl, rfl, by simp [Sinterval.equals, Sinterval.openHigh]⟩
  · refine ⟨_, _, rfl, if_neg fun hlt => absurd (h rfl rfl) (not_le.mpr hlt.2), ?_⟩
    simp [Sinterval.equals]

/-- **A dimension is read as it was printed.** -/
theorem interval_printed (h : r.str.At (s.printStatus ++ c :: rest)) (hs : s.Valid)
    (hlow : InRange (lowBound s)) (hhigh : InRange (highBound s)) (hdigit : c.isDigit = false)
    (hspace : isspace c = false) :
    ∃ s' r', r.interval = .ok (s', r') ∧ s.equals s' = true ∧ r'.c = c ∧ r'.str.At rest := by
  rw [printStatus_eq, List.append_assoc, List.cons_append] at h
  obtain ⟨r₁, hbound₁, hat₁⟩ := bound_printed h hlow (by decide)
  have hcolon : r₁.next = _ := next_cons hat₁ (by decide)
  have hat₁' : r₁.next.str.At (printBound (highBound s) ++ c :: rest) := by
    rw [hcolon]
    exact at_ofText _
  obtain ⟨r₂, hbound₂, hat₂⟩ := bound_printed hat₁' hhigh hdigit
  obtain ⟨s₁, s₂, hset₁, hset₂, heq⟩ := set_printed hs
  have hmark := next_cons hat₂ hspace
  refine ⟨s₂, r₂.next, ?_, heq, by rw [hmark], by rw [hmark]; exact at_ofText _⟩
  have hc₁ : ¬r₁.next.c ≠ ':' := by
    rw [hcolon]
    exact not_not.mpr rfl
  simp only [interval, hbound₁, bind, Except.bind, hset₁, if_neg hc₁, hbound₂, hset₂]
  rfl

theorem intervals_succ (hread : r.interval = .ok (s, r')) (hc : r'.c = if n = 0 then ']' else ',') :
    r.intervals (n + 1) = (r'.intervals n).map (s :: ·) := by
  have hmark : ¬((n ≠ 0 ∧ r'.c ≠ ',') ∨ (n = 0 ∧ r'.c ≠ ']')) := by
    rw [hc]
    split <;> simp [*]
  simp only [intervals, hread, bind, Except.bind, if_neg hmark]
  cases r'.intervals n <;> rfl

end Reader

open Reader

/-- The bounds of a domain have 64 bits. -/
def Ranged (m : Minterval) : Prop := ∀ s ∈ m, InRange (lowBound s) ∧ InRange (highBound s)

theorem intervals_printed (h : r.str.At (printIntervals m ++ [']'])) (hne : m ≠ [])
    (hvalid : ∀ s ∈ m, s.Valid) (hranged : m.Ranged) :
    ∃ m', r.intervals m.length = .ok m' ∧ m.equals m' = true := by
  induction m generalizing r with
  | nil => exact absurd rfl hne
  | cons s m ih =>
    obtain ⟨hs, hvalid⟩ := List.forall_mem_cons.mp hvalid
    obtain ⟨hrange, hranged⟩ := List.forall_mem_cons.mp hranged
    cases m with
    | nil =>
      obtain ⟨s', r', hread, heq, hc, -⟩ :=
        interval_printed h hs hrange.1 hrange.2 (by decide) (by decide)
      exact ⟨[s'], intervals_succ hread hc, by simp [equals, heq]⟩
    | cons s₂ m =>
      have htext : printIntervals (s :: s₂ :: m) ++ [']'] =
          s.printStatus ++ ',' :: (printIntervals (s₂ :: m) ++ [']']) := by
        rw [printIntervals, List.append_assoc, List.cons_append]
        exact nofun
      obtain ⟨s', r', hread, heq, hc, hat⟩ :=
        interval_printed (htext ▸ h) hs hrange.1 hrange.2 (by decide) (by decide)
      obtain ⟨m', hrest, heq'⟩ := ih hat (List.cons_ne_nil _ _) hvalid hranged
      refine ⟨s' :: m', ?_, ?_⟩
      · have hsucc := intervals_succ hread (hc.trans (if_neg (Nat.succ_ne_zero m.length)).symm)
        exact hsucc.trans (congrArg (Except.map _) hrest)
      · rw [equals, Bool.and_eq_true] at heq' ⊢
        simpa [heq] using heq'

theorem count_printStatus (s : Sinterval) : s.printStatus.count ',' = 0 := by
  have hbound : ∀ v, ',' ∉ printBound v := by
    intro v hmem
    cases v with
    | none => exact absurd hmem (by simp [printBound])
    | some b => exact absurd (Decimal.mem_text hmem) (by decide)
  rw [printStatus_eq, List.count_append, List.count_cons, List.count_eq_zero.mpr (hbound _),
    List.count_eq_zero.mpr (hbound _)]
  rfl

theorem count_printIntervals (s : Sinterval) (m : Minterval) :
    (printIntervals (s :: m)).count ',' = m.length := by
  induction m generalizing s with
  | nil => exact count_printStatus s
  | cons s₂ m ih =>
    rw [printIntervals, List.count_append, count_printStatus, List.count_cons_self, ih, Nat.zero_add,
      List.length_cons]
    exact nofun

/-- **A domain is read as it was printed.** -/
theorem parse_printStatus (hne : m ≠ []) (hdim : m.length < 2 ^ 32) (hvalid : ∀ s ∈ m, s.Valid)
    (hranged : m.Ranged) : ∃ m', parse m.printStatus = .ok m' ∧ m.equals m' = true := by
  obtain ⟨s, m, rfl⟩ := List.exists_cons_of_ne_nil hne
  have hcount : dimensionality (printStatus (s :: m)) = (s :: m).length := by
    rw [dimensionality, printStatus, List.cons_append, List.tail_cons, List.count_append,
      count_printIntervals, List.count_singleton]
    rw [List.length_cons] at hdim ⊢
    simp only [beq_iff_eq]
    rw [if_neg (by decide), Nat.add_zero, Nat.add_comm, Nat.mod_eq_of_lt hdim]
  have hnext : Reader.next ⟨.ofText (printStatus (s :: m)), Char.ofNat 0, 0⟩ = _ :=
    next_cons (IStream.at_ofText _) (by decide)
  rw [parse, hnext, hcount]
  exact intervals_printed (IStream.at_ofText _) hne hvalid hranged

/-! ## Domain strings -/

/-- The commas of a text that begins with the bracket wrap the dimension around to 0. -/
def Wraps (text : List Char) : Prop :=
  (text.dropWhile isspace).head? = some '[' ∧ 2 ^ 32 ∣ 1 + text.tail.count ','

theorem next_eq_bracket_iff (text : List Char) :
    (Reader.next ⟨.ofText text, Char.ofNat 0, 0⟩).c = '[' ↔ (text.dropWhile isspace).head? = some '[' := by
  rw [next]
  cases hdrop : text.dropWhile isspace with
  | nil =>
    obtain ⟨s', hget, -⟩ := IStream.getChar_end (IStream.at_ofText text) hdrop (Char.ofNat 0)
    simp only [hget]
    decide
  | cons c rest =>
    rw [IStream.getChar_next (IStream.at_ofText text) hdrop, List.head?_cons, Option.some_inj]

theorem parse_of_wraps (h : Wraps text) : parse text = .ok [] := by
  rw [parse, if_neg (not_not.mpr ((next_eq_bracket_iff text).mpr h.1)), dimensionality, Nat.mod_eq_zero_of_dvd h.2]
  rfl

/-- **What was accepted has the form of a domain**, of a dimension that did not wrap around. -/
theorem domain_of_parse (hok : parse text = .ok m) (h : ¬Wraps text) : m.Domain text := by
  rw [parse] at hok
  split at hok
  · exact absurd hok nofun
  · next hopen =>
    have hopen := not_not.mp hopen
    obtain ⟨n, hn⟩ : ∃ n, dimensionality text = n + 1 :=
      Nat.exists_eq_succ_of_ne_zero fun hzero =>
        h ⟨(next_eq_bracket_iff text).mp hopen, Nat.dvd_of_mod_eq_zero hzero⟩
    have hzero : Char.ofNat 0 ≠ '[' := by decide
    obtain ⟨rest, htake, hat⟩ := next_takes (IStream.at_ofText text) hopen hzero
    rw [hn] at hok
    obtain ⟨hvalid, ts, rest', hpairs, hts⟩ := intervals_takes hat (by rw [hopen]; decide) hok
    exact ⟨hvalid, ts, rest', hpairs, htake.append hts⟩

theorem not_domain_nil (text : List Char) : ¬Domain [] text := by
  rintro ⟨-, ts, rest, hpairs, -⟩
  cases hpairs

/-- **Domain strings round-trip**, and what is accepted has the form of a domain, exactly when the commas
do not wrap the dimension around to 0. -/
theorem parse_iff (hne : m ≠ []) (hdim : m.length < 2 ^ 32) (hvalid : ∀ s ∈ m, s.Valid)
    (hranged : m.Ranged) (text : List Char) :
    (∃ m', parse m.printStatus = .ok m' ∧ m.equals m' = true) ∧
      ((∀ m', parse text = .ok m' → m'.Domain text) ↔ ¬Wraps text) :=
  ⟨parse_printStatus hne hdim hvalid hranged,
    fun h hwraps => not_domain_nil text (h [] (parse_of_wraps hwraps)),
    fun h _ hok => domain_of_parse hok h⟩

/-- A domain with open bounds, and a text with blanks in front and something behind. -/
theorem parse_iff_halfOpen :
    let m : Minterval := [⟨0, -2, false, true⟩, ⟨-3, 0, true, false⟩]
    let text := [' ', '[', '1', ' ', ':', '*', ']', 'x']
    (∃ m', parse m.printStatus = .ok m' ∧ m.equals m' = true) ∧
      ((∀ m', parse text = .ok m' → m'.Domain text) ↔ ¬Wraps text) :=
  parse_iff (by decide) (by decide) (by decide)
    (by simp [Ranged, InRange, lowBound, highBound, rangeMin, rangeMax]) _

/-- A bracket and `2^32 - 1` commas are a domain of dimension 0. -/
theorem not_domain_commas :
    ¬∀ m, parse ('[' :: List.replicate (2 ^ 32 - 1) ',') = .ok m →
      m.Domain ('[' :: List.replicate (2 ^ 32 - 1) ',') := by
  have hwraps : ∀ n, 2 ^ 32 ∣ 1 + n → Wraps ('[' :: List.replicate n ',') := fun n hn =>
    ⟨rfl, by rwa [List.tail_cons, List.count_replicate_self]⟩
  exact fun h => not_domain_nil _ (h [] (parse_of_wraps (hwraps _ (by norm_num))))

end Minterval

end Rasdaman
