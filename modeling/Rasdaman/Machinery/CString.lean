import Mathlib.Data.List.Infix

/-!
# Machinery/CString — C strings in fixed buffers

A C string is the list of its characters before the terminating zero.  Using memory that is not part of a
buffer, or a pointer to a text that was not found, is a fault.
-/

namespace CString

/-- What a program must not do with its buffers. -/
inductive Fault
  | outOfBuffer
  | notFound
  deriving DecidableEq, Repr

/-- A string written to the start of a `char[size]`, as by `sprintf` and `strcpy`. -/
def fit (size : ℕ) (s : List Char) : Except Fault (List Char) :=
  if s.length < size then .ok s else .error .outOfBuffer

/-- A pointer that must not be null. -/
def deref {α : Type} : Option α → Except Fault α
  | some x => .ok x
  | none => .error .notFound

/-- `strstr`: the rest of a string from the first occurrence of a text on. -/
def strstr (needle : List Char) : List Char → Option (List Char)
  | [] => if needle = [] then some [] else none
  | c :: s => if needle.isPrefixOf (c :: s) then some (c :: s) else strstr needle s

/-- A pointer to the first occurrence of a text, as the text before it and the text after it. -/
def cut (needle s : List Char) : Option (List Char × List Char) :=
  (strstr needle s).map fun found => (s.take (s.length - found.length), found.drop needle.length)

/-- `p[n] = 0`, for a pointer `p` to the rest of a string from position `offset` of a `char[size]` on. -/
def terminate (size offset n : ℕ) (rest : List Char) : Except Fault (List Char) :=
  if offset + n < size then .ok (rest.take n) else .error .outOfBuffer

variable {size : ℕ} {s pre needle rest : List Char} {a b c : Char}

theorem fit_of_lt (h : s.length < size) : fit size s = .ok s := if_pos h

/-- A program goes on with a text that fits. -/
theorem fit_bind {α : Type} (h : s.length < size) (k : List Char → Except Fault α) :
    (fit size s >>= k) = k s := by
  rw [fit_of_lt h]
  rfl

/-- A program that uses a buffer succeeds when the text fits and the rest succeeds. -/
theorem fit_bind_eq_ok_iff {α : Type} {k : List Char → Except Fault α} {r : α} :
    (fit size s >>= k) = .ok r ↔ s.length < size ∧ k s = .ok r := by
  by_cases h : s.length < size
  · rw [fit_bind h, and_iff_right h]
  · rw [fit, if_neg h]
    exact iff_of_false nofun (fun hk => h hk.1)

theorem fit_of_le (h : size ≤ s.length) : fit size s = .error .outOfBuffer := if_neg (not_lt.mpr h)

theorem fit_eq_ok_iff {t : List Char} : fit size s = .ok t ↔ s.length < size ∧ s = t := by
  unfold fit
  split_ifs with h
  · simp [h]
  · simp [h]

/-- A text that begins with `a` is not found before the first `a`. -/
theorem strstr_append (h : a ∉ pre) (s : List Char) :
    strstr (a :: needle) (pre ++ s) = strstr (a :: needle) s := by
  induction pre with
  | nil => rfl
  | cons c pre ih =>
    obtain ⟨hne, hpre⟩ := not_or.mp (mt List.mem_cons.mpr h)
    rw [List.cons_append, strstr, List.isPrefixOf_cons_cons, beq_false_of_ne hne, Bool.false_and,
      if_neg Bool.false_ne_true, ih hpre]

/-- A text of two characters at the start. -/
theorem strstr_found (a b : Char) (s : List Char) :
    strstr [a, b] ([a, b] ++ s) = some ([a, b] ++ s) := by
  simp [strstr]

/-- A text of two characters that differs at the start in the second one. -/
theorem strstr_other (hb : b ≠ c) (hc : a ≠ c) (s : List Char) :
    strstr [a, b] ([a, c] ++ s) = strstr [a, b] s := by
  simp [strstr, hb, hc]

/-- A text that is found after `pre` cuts the string there. -/
theorem cut_eq (h : strstr needle (pre ++ (needle ++ rest)) = some (needle ++ rest)) :
    cut needle (pre ++ (needle ++ rest)) = some (pre, rest) := by
  rw [cut, h, Option.map_some, List.drop_left, @List.length_append _ pre, Nat.add_sub_cancel,
    List.take_left]

end CString
