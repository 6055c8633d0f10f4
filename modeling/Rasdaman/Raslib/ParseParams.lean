import Mathlib
import Rasdaman.Machinery.Decimal
import Rasdaman.Machinery.ExceptFold

/-!
# Raslib/ParseParams — option strings

`r_Parse_Params::process` reads pairs `key=value` and stores the values of the registered keys.  Each key is
copied into a buffer of 256 characters first, however long it is.
-/

namespace Rasdaman

namespace ParseParams

/-! ## The registered keys -/

/-- What must not be done with the buffer of a key: writing behind its end, or reading there. -/
inductive Fault
  | written
  | read
  deriving DecidableEq

/-- `lenBuff`. -/
def lenBuff : ℕ := 256

/-- `isspace`. -/
def isspace (c : Char) : Bool := c.toNat = 32 || (9 ≤ c.toNat && c.toNat ≤ 13)

/-- `parse_param_type`. -/
inductive ParamType
  | int
  | double
  | string
  deriving DecidableEq

/-- `parse_params_t`, but for the place of its store. -/
structure Param where
  key : List Char
  type : ParamType
  deriving DecidableEq

/-- What is in a store. -/
inductive Value
  | int (v : ℤ)
  | double (x : ℚ)
  | string (s : List Char)
  deriving DecidableEq

/-- The stores of the registered keys. -/
abbrev Stores := ℕ → Option Value

/-- `strtod`: the number at the start of a text and how many characters it takes, or nothing if there is none
in range. -/
abbrev Strtod := List Char → Option (ℚ × ℕ)

/-! ## Values -/

/-- `strtol`: the integer at the start of a text and what is left of it, or nothing if there is none in
range. -/
def strtol (b : List Char) : Option (ℤ × List Char) :=
  let (numeral, rest) := Decimal.scan (b.dropWhile isspace)
  if numeral.digits = [] then none
  else if numeral.value < -2 ^ 63 ∨ 2 ^ 63 ≤ numeral.value then none
  else some (numeral.value, rest)

/-- `memcpy(buff, key, klen)`. -/
def copyKey (key : List Char) : Except Fault Unit :=
  if key.length ≤ lenBuff then .ok () else .error .written

/-- `strcmp` of the buffer that a key was copied into and a registered key: a key that fills the buffer has
no end in it. -/
def bufferEq (key name : List Char) : Except Fault Bool :=
  if key.length < lenBuff then .ok (key = name)
  else if key.isPrefixOf name then .error .read
  else .ok false

/-- The loop over the registered keys. -/
def findKey (key : List Char) : List Param → (knum : ℕ) → Except Fault (Option (ℕ × ParamType))
  | [], _ => .ok none
  | p :: params, knum => do
    if ← bufferEq key p.key then return some (knum, p.type)
    findKey key params (knum + 1)

/-- A string as a value: a text in quotes, or what is in front of the separator.  Nothing if the quotes are
not closed. -/
def readString (separator : Char) (withWhiteSpaces : Bool) : List Char → Option (List Char × List Char)
  | '"' :: aux =>
    match aux.dropWhile (· ≠ '"') with
    | [] => none
    | _ :: b => some (aux.takeWhile (· ≠ '"'), b)
  | b =>
    let goesOn (c : Char) : Bool := (withWhiteSpaces || !isspace c) && c ≠ separator
    some (b.takeWhile goesOn, b.dropWhile goesOn)

/-- The value of a parameter: what is left of the text, and what is stored if anything is. -/
def readValue (strtod : Strtod) (separator : Char) (withWhiteSpaces : Bool) (type : ParamType)
    (b : List Char) : Option (List Char × Option Value) :=
  match type with
  | .int => (strtol b).map fun (v, rest) => (rest, some (.int (v.bmod (2 ^ 32))))
  | .double =>
    match strtod b with
    | none => none
    | some (x, n) => if n = 0 then none else some (b.drop n, some (.double x))
  | .string => (readString separator withWhiteSpaces b).map fun (s, rest) =>
      (rest, if s.length > 0 then some (.string s) else none)

/-- What comes behind a registered key. -/
def readAssignment (strtod : Strtod) (separator : Char) (withWhiteSpaces : Bool) (type : ParamType)
    (b : List Char) : Option (List Char × Option Value) :=
  match b.dropWhile isspace with
  | '=' :: b =>
    match b.dropWhile isspace with
    | [] => none
    | c :: cs => if c ≠ separator then readValue strtod separator withWhiteSpaces type (c :: cs) else none
  | _ => none

/-- The loop that goes on to the separator; nothing if quotes are not closed. -/
def skipItem (separator : Char) : (inquotes : Bool) → List Char → Option (List Char)
  | inquotes, [] => if inquotes then none else some []
  | inquotes, c :: b =>
    if c ≠ separator ∨ inquotes then skipItem separator (if c = '"' then !inquotes else inquotes) b
    else some (c :: b)

/-! ## The main loop -/

/-- A round of the main loop: what is left of the text, whether the key was registered, and the stores;
nothing for an error, after which the stores stay as they are. -/
def item (strtod : Strtod) (params : List Param) (separator : Char) (withWhiteSpaces : Bool)
    (key b : List Char) (stores : Stores) : Except Fault (Option (List Char × ℕ) × Stores) := do
  copyKey key
  match ← findKey key params 0 with
  | none => return ((skipItem separator false b).map (·, 0), stores)
  | some (knum, type) =>
    match readAssignment strtod separator withWhiteSpaces type b with
    | none => return (none, stores)
    | some (b, value) =>
      let stores := match value with
        | some v => Function.update stores knum (some v)
        | none => stores
      return ((skipItem separator false b).map (·, 1), stores)

/-- The text where the next key is. -/
def nextItem (separator : Char) (text : List Char) : List Char :=
  text.dropWhile fun c => isspace c || c = separator

section Shorter

variable {strtod : Strtod} {params : List Param} {separator : Char} {withWhiteSpaces : Bool} {type : ParamType}
  {key b rest : List Char} {value : Option Value} {stores stores' : Stores} {n : ℕ} {inquotes : Bool}

theorem length_dropWhile_le (p : Char → Bool) (b : List Char) : (b.dropWhile p).length ≤ b.length :=
  (List.dropWhile_sublist p).length_le

theorem length_scan_le (b : List Char) : (Decimal.scan b).2.length ≤ b.length := by
  unfold Decimal.scan
  dsimp only
  split
  · exact (length_dropWhile_le _ _).trans (Nat.le_succ _)
  · exact (length_dropWhile_le _ _).trans (Nat.le_succ _)
  · exact length_dropWhile_le _ _

theorem length_skipItem_le (h : skipItem separator inquotes b = some rest) : rest.length ≤ b.length := by
  induction b generalizing inquotes with
  | nil =>
    rw [skipItem] at h
    split at h
    · cases h
    · cases h
      exact Nat.le_refl _
  | cons c b ih =>
    rw [skipItem] at h
    split at h
    · exact (ih h).trans (Nat.le_succ _)
    · cases h
      exact Nat.le_refl _

theorem length_readString_le {s : List Char} (h : readString separator withWhiteSpaces b = some (s, rest)) :
    rest.length ≤ b.length := by
  rw [readString.eq_def] at h
  split at h
  · next aux =>
    split at h
    · cases h
    · next c b' hdrop =>
      cases h
      have hle := length_dropWhile_le (· ≠ '"') aux
      rw [hdrop, List.length_cons] at hle
      rw [List.length_cons]
      omega
  · cases h
    exact length_dropWhile_le _ _

theorem length_readValue_le (h : readValue strtod separator withWhiteSpaces type b = some (rest, value)) :
    rest.length ≤ b.length := by
  cases type with
  | int =>
    obtain ⟨⟨v, rest'⟩, hread, hrest⟩ := Option.map_eq_some_iff.mp h
    cases hrest
    rw [strtol] at hread
    dsimp only at hread
    split at hread
    · cases hread
    · split at hread
      · cases hread
      · cases hread
        exact (length_scan_le _).trans (length_dropWhile_le _ _)
  | double =>
    rw [readValue] at h
    split at h
    · cases h
    · split at h
      · cases h
      · cases h
        rw [List.length_drop]
        exact Nat.sub_le _ _
  | string =>
    obtain ⟨⟨s, rest'⟩, hread, hrest⟩ := Option.map_eq_some_iff.mp h
    cases hrest
    exact length_readString_le hread

theorem length_readAssignment_le
    (h : readAssignment strtod separator withWhiteSpaces type b = some (rest, value)) :
    rest.length ≤ b.length := by
  rw [readAssignment.eq_def] at h
  split at h
  · next b' hb =>
    have hle := length_dropWhile_le isspace b
    rw [hb, List.length_cons] at hle
    split at h
    · cases h
    · next c cs hcs =>
      split at h
      · have hle' := length_dropWhile_le isspace b'
        rw [hcs] at hle'
        have hvalue := length_readValue_le h
        omega
      · cases h
  · cases h

/-- A round leaves no more than what came behind the key. -/
theorem length_item_le
    (h : item strtod params separator withWhiteSpaces key b stores = .ok (some (rest, n), stores')) :
    rest.length ≤ b.length := by
  obtain ⟨_, -, h⟩ := ExceptFold.bind_eq_ok h
  obtain ⟨found, -, h⟩ := ExceptFold.bind_eq_ok h
  rcases found with - | ⟨knum, type⟩
  · obtain ⟨hskip, -⟩ := Prod.mk.inj (Except.ok.inj h)
    obtain ⟨rest', hrest', hrest⟩ := Option.map_eq_some_iff.mp hskip
    cases hrest
    exact length_skipItem_le hrest'
  · dsimp only at h
    split at h
    · cases h
    · next b' value hread =>
      obtain ⟨hskip, -⟩ := Prod.mk.inj (Except.ok.inj h)
      obtain ⟨rest', hrest', hrest⟩ := Option.map_eq_some_iff.mp hskip
      cases hrest
      exact (length_skipItem_le hrest').trans (length_readAssignment_le hread)

theorem length_behindKey_lt {c : Char} {cs : List Char} {text : List Char}
    (h : nextItem separator text = c :: cs) (hc : c.isAlpha) :
    ((c :: cs).dropWhile Char.isAlphanum).length < text.length := by
  have hle := length_dropWhile_le (fun c => isspace c || decide (c = separator)) text
  rw [show text.dropWhile _ = c :: cs from h, List.length_cons] at hle
  have halnum : c.isAlphanum = true := by
    rw [Char.isAlphanum, hc, Bool.true_or]
  rw [List.dropWhile_cons_of_pos halnum]
  have hle' := length_dropWhile_le Char.isAlphanum cs
  omega

end Shorter

/-- The main loop: what `process` returns, and the stores. -/
def loop (strtod : Strtod) (params : List Param) (separator : Char) (withWhiteSpaces : Bool)
    (text : List Char) (numkeys : ℕ) (stores : Stores) : Except Fault (ℤ × Stores) :=
  match hb : nextItem separator text with
  | [] => .ok (numkeys, stores)
  | c :: cs =>
    if hc : c.isAlpha then
      match hi : item strtod params separator withWhiteSpaces ((c :: cs).takeWhile Char.isAlphanum)
        ((c :: cs).dropWhile Char.isAlphanum) stores with
      | .error fault => .error fault
      | .ok (none, stores) => .ok (-1, stores)
      | .ok (some (rest, n), stores) =>
        loop strtod params separator withWhiteSpaces rest (numkeys + n) stores
    else .ok (-1, stores)
termination_by text.length
decreasing_by exact (length_item_le hi).trans_lt (length_behindKey_lt hb hc)

/-- `r_Parse_Params::process`. -/
def process (strtod : Strtod) (params : List Param) (separator : Char) (withWhiteSpaces : Bool)
    (text : List Char) (stores : Stores) : Except Fault (ℤ × Stores) :=
  if params = [] ∨ text = [] then .ok (0, stores)
  else loop strtod params separator withWhiteSpaces text 0 stores

end ParseParams

end Rasdaman
