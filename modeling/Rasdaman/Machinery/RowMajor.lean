import Mathlib.Algebra.BigOperators.Group.List.Basic
import Mathlib.Data.List.Forall2
import Mathlib.Data.Nat.Basic

/-!
# Machinery/RowMajor — positions of a multidimensional array and their cells in linear memory

An array with given extents is laid out with its last extent running fastest.  `offset` numbers the
positions and `position` is its inverse.  The memory of the array holds `size` elements for each
cell; `copyLines` copies runs of adjacent cells from one memory to another.
-/

namespace RowMajor

/-! ## Numbering the positions -/

/-- The number of a position: the last coordinate runs fastest. -/
def offset : List ℕ → List ℕ → ℕ
  | _ :: es, x :: xs => x * es.prod + offset es xs
  | _, _ => 0

/-- The position with a given number. -/
def position : List ℕ → ℕ → List ℕ
  | [], _ => []
  | _ :: es, n => n / es.prod :: position es (n % es.prod)

variable {es xs ys : List ℕ}

/-- The number of a position in Horner form. -/
theorem offset_concat (e x : ℕ) (h : xs.length = es.length) :
    offset (es ++ [e]) (xs ++ [x]) = offset es xs * e + x := by
  induction es generalizing xs with
  | nil =>
    obtain rfl := List.length_eq_zero_iff.mp h
    simp [offset]
  | cons e' es ih =>
    obtain ⟨x', xs, rfl⟩ := List.exists_cons_of_length_eq_add_one h
    rw [List.cons_append, List.cons_append, offset, ih (by simpa using h), offset, List.prod_append,
      List.prod_singleton, Nat.add_mul, Nat.mul_assoc, Nat.add_assoc]

/-- The loop that multiplies and adds. -/
theorem foldl_eq_offset (a : ℕ) (h : xs.length = es.length) :
    (es.zip xs).foldl (fun off s => off * s.1 + s.2) a = a * es.prod + offset es xs := by
  induction es generalizing xs a with
  | nil =>
    obtain rfl := List.length_eq_zero_iff.mp h
    simp [offset]
  | cons e es ih =>
    obtain ⟨x, xs, rfl⟩ := List.exists_cons_of_length_eq_add_one h
    rw [List.zip_cons_cons, List.foldl_cons, ih _ (by simpa using h), offset, List.prod_cons,
      Nat.add_mul, Nat.mul_assoc, Nat.add_assoc]

theorem offset_lt (h : List.Forall₂ (· < ·) xs es) : offset es xs < es.prod := by
  induction h with
  | nil => exact Nat.one_pos
  | @cons x e xs es hx _ ih =>
    rw [offset, List.prod_cons]
    calc x * es.prod + offset es xs < x * es.prod + es.prod := Nat.add_lt_add_left ih _
      _ = (x + 1) * es.prod := (Nat.succ_mul ..).symm
      _ ≤ e * es.prod := Nat.mul_le_mul_right _ hx

/-- **`position` undoes `offset`.** -/
theorem position_offset (h : List.Forall₂ (· < ·) xs es) : position es (offset es xs) = xs := by
  induction h with
  | nil => rfl
  | @cons x e xs es hx hxs ih =>
    have hlt := offset_lt hxs
    have hpos : 0 < es.prod := Nat.zero_lt_of_lt hlt
    rw [offset, position, Nat.mul_comm x, Nat.mul_add_div hpos, Nat.div_eq_of_lt hlt, Nat.add_zero,
      Nat.mul_add_mod, Nat.mod_eq_of_lt hlt, ih]

/-- Positions with one number are one position. -/
theorem offset_inj (hx : List.Forall₂ (· < ·) xs es) (hy : List.Forall₂ (· < ·) ys es)
    (h : offset es xs = offset es ys) : xs = ys := by
  rw [← position_offset hx, ← position_offset hy, h]

@[simp] theorem length_position (es : List ℕ) (n : ℕ) : (position es n).length = es.length := by
  induction es generalizing n with
  | nil => rfl
  | cons e es ih => rw [position, List.length_cons, List.length_cons, ih]

theorem position_lt {n : ℕ} (h : n < es.prod) : List.Forall₂ (· < ·) (position es n) es := by
  induction es generalizing n with
  | nil => exact .nil
  | cons e es ih =>
    rw [List.prod_cons] at h
    have hpos : 0 < es.prod := by
      refine Nat.pos_of_ne_zero fun h0 => ?_
      rw [h0, Nat.mul_zero] at h
      exact absurd h n.not_lt_zero
    exact .cons (Nat.div_lt_of_lt_mul (by rwa [Nat.mul_comm])) (ih (Nat.mod_lt _ hpos))

theorem offset_position {n : ℕ} (h : n < es.prod) : offset es (position es n) = n := by
  induction es generalizing n with
  | nil =>
    rw [List.prod_nil, Nat.lt_one_iff] at h
    exact h.symm
  | cons e es ih =>
    have hpos : 0 < es.prod := by
      refine Nat.pos_of_ne_zero fun h0 => ?_
      rw [List.prod_cons, h0, Nat.mul_zero] at h
      exact absurd h n.not_lt_zero
    rw [position, offset, ih (Nat.mod_lt _ hpos), Nat.mul_comm, Nat.div_add_mod]

/-- The last coordinate of the position with a given number, and the others. -/
theorem position_concat {e n : ℕ} (h : n < (es ++ [e]).prod) :
    position (es ++ [e]) n = position es (n / e) ++ [n % e] := by
  induction es generalizing n with
  | nil =>
    have hn : n < e := by simpa using h
    simp [position, Nat.mod_eq_of_lt hn]
  | cons e' es ih =>
    have hpos : 0 < (es ++ [e]).prod := by
      refine Nat.pos_of_ne_zero fun h0 => ?_
      rw [List.cons_append, List.prod_cons, h0, Nat.mul_zero] at h
      exact absurd h n.not_lt_zero
    rw [List.cons_append, position, ih (Nat.mod_lt _ hpos), position, List.prod_append,
      List.prod_singleton, List.cons_append, Nat.mul_comm, ← Nat.div_div_eq_div_mul,
      Nat.mod_mul_right_div_self, Nat.mod_mul_right_mod]

/-- **Extents of 1 do not count**: leaving them out leaves the numbers of the positions alone. -/
theorem offset_filter {ι : Type*} {extent coord : ι → ℕ} {keep : ι → Bool} {l : List ι}
    (h : ∀ i ∈ l, keep i = false → extent i = 1 ∧ coord i = 0) :
    offset ((l.filter keep).map extent) ((l.filter keep).map coord) =
        offset (l.map extent) (l.map coord) ∧
      ((l.filter keep).map extent).prod = (l.map extent).prod := by
  induction l with
  | nil => exact ⟨rfl, rfl⟩
  | cons i l ih =>
    obtain ⟨hi, hl⟩ := List.forall_mem_cons.mp h
    obtain ⟨hoff, hprod⟩ := ih hl
    rcases hkeep : keep i with _ | _
    · obtain ⟨hext, hcoord⟩ := hi hkeep
      rw [List.filter_cons_of_neg (by simp [hkeep]), List.map_cons, List.map_cons, offset,
        List.prod_cons, hext, hcoord, Nat.zero_mul, Nat.zero_add, Nat.one_mul]
      exact ⟨hoff, hprod⟩
    · rw [List.filter_cons_of_pos hkeep]
      simp only [List.map_cons, offset, List.prod_cons, hoff, hprod, and_self]

/-! ## Cells in memory -/

section Memory

variable {α : Type} {size : ℕ} {m : List α}

/-- The elements of a cell. -/
def cell (size : ℕ) (m : List α) (c : ℕ) : List α := (m.drop (c * size)).take size

/-- Copy elements over those at an address. -/
def overwrite (m : List α) (addr : ℕ) (xs : List α) : List α :=
  m.take addr ++ xs ++ m.drop (addr + xs.length)

/-- Cells put one after another. -/
theorem length_flatMap {n : ℕ} {g : ℕ → List α} (h : ∀ c < n, (g c).length = size) :
    ((List.range n).flatMap g).length = n * size := by
  induction n with
  | zero => rw [Nat.zero_mul]; rfl
  | succ n ih =>
    rw [List.range_succ, List.flatMap_append, List.length_append, List.flatMap_singleton,
      ih fun c hc => h c (by omega), h n (by omega), Nat.succ_mul]

/-- Each of the cells put one after another. -/
theorem cell_flatMap {n c : ℕ} {g : ℕ → List α} (h : ∀ c < n, (g c).length = size) (hc : c < n) :
    cell size ((List.range n).flatMap g) c = g c := by
  induction n with
  | zero => exact absurd hc c.not_lt_zero
  | succ n ih =>
    have hlen := length_flatMap (n := n) (g := g) fun c hc => h c (by omega)
    rw [List.range_succ, List.flatMap_append, List.flatMap_singleton, cell]
    rcases Nat.lt_succ_iff_lt_or_eq.mp hc with hlt | rfl
    · have hle : (c + 1) * size ≤ n * size := Nat.mul_le_mul_right size hlt
      rw [Nat.succ_mul] at hle
      rw [List.drop_append_of_le_length (by omega), List.take_append_of_le_length, ← cell]
      · exact ih (fun c hc => h c (by omega)) hlt
      · rw [List.length_drop]
        omega
    · rw [← hlen, List.drop_left, List.take_of_length_le (by rw [h c (by omega)])]

theorem getElem?_cell (c i : ℕ) :
    (cell size m c)[i]? = if i < size then m[c * size + i]? else none := by
  rw [cell, List.getElem?_take, List.getElem?_drop]

theorem length_overwrite {addr : ℕ} {xs : List α} (h : addr + xs.length ≤ m.length) :
    (overwrite m addr xs).length = m.length := by
  simp only [overwrite, List.length_append, List.length_take, List.length_drop]
  omega

theorem getElem?_overwrite {addr : ℕ} {xs : List α} (h : addr + xs.length ≤ m.length) (i : ℕ) :
    (overwrite m addr xs)[i]? =
      if addr ≤ i ∧ i < addr + xs.length then xs[i - addr]? else m[i]? := by
  have htake : (m.take addr).length = addr := by
    rw [List.length_take]
    omega
  rw [overwrite, List.append_assoc]
  rcases lt_or_ge i addr with hlt | hge
  · rw [if_neg (by omega), List.getElem?_append_left (by omega), List.getElem?_take, if_pos hlt]
  · rw [List.getElem?_append_right (by omega), htake]
    rcases lt_or_ge i (addr + xs.length) with hin | hout
    · rw [if_pos ⟨hge, hin⟩, List.getElem?_append_left (by omega)]
    · rw [if_neg (by omega), List.getElem?_append_right (by omega), List.getElem?_drop]
      congr 1
      omega

/-- The cells after a run of cells was copied over those from cell `i` on. -/
theorem cell_overwrite {i w c : ℕ} {xs : List α} (hxs : xs.length = w * size)
    (h : (i + w) * size ≤ m.length) :
    cell size (overwrite m (i * size) xs) c =
      if i ≤ c ∧ c < i + w then cell size xs (c - i) else cell size m c := by
  have hlen : i * size + xs.length ≤ m.length := by rwa [hxs, ← Nat.add_mul]
  refine List.ext_getElem? fun k => ?_
  rw [getElem?_cell]
  by_cases hk : k < size
  · rw [if_pos hk, getElem?_overwrite hlen, hxs, ← Nat.add_mul]
    rcases lt_or_ge c i with hlt | hge
    · have : (c + 1) * size ≤ i * size := Nat.mul_le_mul_right size hlt
      rw [Nat.succ_mul] at this
      rw [if_neg (by omega), if_neg (by omega), getElem?_cell, if_pos hk]
    · have hci : i * size ≤ c * size := Nat.mul_le_mul_right size hge
      rcases lt_or_ge c (i + w) with hin | hout
      · have : (c + 1) * size ≤ (i + w) * size := Nat.mul_le_mul_right size hin
        rw [Nat.succ_mul] at this
        rw [if_pos (by omega), if_pos ⟨hge, hin⟩, getElem?_cell, if_pos hk, Nat.sub_mul]
        congr 1
        omega
      · have : (i + w) * size ≤ c * size := Nat.mul_le_mul_right size hout
        rw [if_neg (by omega), if_neg (by omega), getElem?_cell, if_pos hk]
  · rw [if_neg hk]
    split <;> rw [getElem?_cell, if_neg hk]

/-- The `w` cells from cell `j` on. -/
def line (size w : ℕ) (m : List α) (j : ℕ) : List α := (m.drop (j * size)).take (w * size)

theorem length_line {w j : ℕ} (h : (j + w) * size ≤ m.length) :
    (line size w m j).length = w * size := by
  rw [Nat.add_mul] at h
  rw [line, List.length_take, List.length_drop]
  omega

theorem cell_line {w j k : ℕ} (hk : k < w) : cell size (line size w m j) k = cell size m (j + k) := by
  have hkw : (k + 1) * size ≤ w * size := Nat.mul_le_mul_right size hk
  rw [Nat.succ_mul] at hkw
  rw [cell, line, List.drop_take, List.take_take, List.drop_drop, Nat.min_eq_left (by omega),
    ← Nat.add_mul, cell]

/-- Copy lines of `w` cells: each to the cell it names first from the cell it names second. -/
def copyLines (size w : ℕ) (src : List α) (lines : List (ℕ × ℕ)) (dst : List α) : List α :=
  lines.foldl (fun m l => overwrite m (l.1 * size) (line size w src l.2)) dst

/-- The lines stay inside of both memories. -/
def LinesFit (size w : ℕ) (src : List α) (lines : List (ℕ × ℕ)) (dst : List α) : Prop :=
  ∀ l ∈ lines, (l.1 + w) * size ≤ dst.length ∧ (l.2 + w) * size ≤ src.length

variable {src dst v : List α} {w c : ℕ} {lines : List (ℕ × ℕ)}

theorem length_copyLine {l : ℕ × ℕ} (hd : (l.1 + w) * size ≤ dst.length)
    (hs : (l.2 + w) * size ≤ src.length) :
    (overwrite dst (l.1 * size) (line size w src l.2)).length = dst.length :=
  length_overwrite (by rwa [length_line hs, ← Nat.add_mul])

theorem length_copyLines (h : LinesFit size w src lines dst) :
    (copyLines size w src lines dst).length = dst.length := by
  induction lines generalizing dst with
  | nil => rfl
  | cons l lines ih =>
    obtain ⟨⟨hd, hs⟩, hrest⟩ := List.forall_mem_cons.mp h
    have hlen := length_copyLine hd hs
    rw [copyLines, List.foldl_cons]
    exact (ih fun l' hl' => by rw [hlen]; exact hrest l' hl').trans hlen

/-- **A cell outside of the lines keeps its contents.** -/
theorem cell_copyLines_of_notMem (h : LinesFit size w src lines dst)
    (hc : ∀ l ∈ lines, ¬(l.1 ≤ c ∧ c < l.1 + w)) :
    cell size (copyLines size w src lines dst) c = cell size dst c := by
  induction lines generalizing dst with
  | nil => rfl
  | cons l lines ih =>
    obtain ⟨⟨hd, hs⟩, hrest⟩ := List.forall_mem_cons.mp h
    obtain ⟨hl, hc⟩ := List.forall_mem_cons.mp hc
    rw [copyLines, List.foldl_cons]
    refine (ih (fun l' hl' => by rw [length_copyLine hd hs]; exact hrest l' hl') hc).trans ?_
    rw [cell_overwrite (length_line hs) hd, if_neg hl]

/-- **A cell in some line has the contents that every line through it brings.** -/
theorem cell_copyLines_of_mem (h : LinesFit size w src lines dst)
    (hc : ∃ l ∈ lines, l.1 ≤ c ∧ c < l.1 + w)
    (hv : ∀ l ∈ lines, l.1 ≤ c ∧ c < l.1 + w → cell size src (l.2 + (c - l.1)) = v) :
    cell size (copyLines size w src lines dst) c = v := by
  induction lines generalizing dst with
  | nil => simp at hc
  | cons l lines ih =>
    obtain ⟨⟨hd, hs⟩, hrest⟩ := List.forall_mem_cons.mp h
    obtain ⟨hvl, hv⟩ := List.forall_mem_cons.mp hv
    have hfit : LinesFit size w src lines (overwrite dst (l.1 * size) (line size w src l.2)) :=
      fun l' hl' => by rw [length_copyLine hd hs]; exact hrest l' hl'
    rw [copyLines, List.foldl_cons]
    by_cases hmem : ∃ l ∈ lines, l.1 ≤ c ∧ c < l.1 + w
    · exact ih hfit hmem hv
    · -- no later line touches the cell: this line decides
      have hout : ∀ l ∈ lines, ¬(l.1 ≤ c ∧ c < l.1 + w) := fun l hl hcl => hmem ⟨l, hl, hcl⟩
      obtain ⟨l', hl', hcl'⟩ := hc
      obtain rfl | hl' := List.mem_cons.mp hl'
      · refine (cell_copyLines_of_notMem hfit hout).trans ?_
        rw [cell_overwrite (length_line hs) hd, if_pos hcl', cell_line (by omega)]
        exact hvl hcl'
      · exact absurd hcl' (hout l' hl')

end Memory

end RowMajor
