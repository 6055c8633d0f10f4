import Mathlib

/-!
# Machinery/Chunks — a list in chunks of one length

A long list is kept in chunks of `n` elements.  Reading and overwriting inside of one chunk is reading and
overwriting of the whole.
-/

namespace Chunks

variable {α : Type*} {n : ℕ} {chunks : List (List α)} {chunk xs ys l : List α} {k p x : ℕ}

/-- `x` elements from the position `p` on. -/
def extract (l : List α) (p x : ℕ) : List α := (l.drop p).take x

/-- Elements written over those from the position `p` on. -/
def overwrite (l : List α) (p : ℕ) (xs : List α) : List α := l.take p ++ xs ++ l.drop (p + xs.length)

theorem length_extract (h : p + x ≤ l.length) : (extract l p x).length = x := by
  rw [extract, List.length_take, List.length_drop]
  omega

theorem length_overwrite (h : p + xs.length ≤ l.length) : (overwrite l p xs).length = l.length := by
  rw [overwrite, List.length_append, List.length_append, List.length_take, List.length_drop]
  omega

theorem getElem?_extract {i : ℕ} (h : i < x) : (extract l p x)[i]? = l[p + i]? := by
  rw [extract, List.getElem?_take_of_lt h, List.getElem?_drop]

/-- An element after it was written over or not. -/
theorem getElem?_overwrite (h : p + xs.length ≤ l.length) (i : ℕ) :
    (overwrite l p xs)[i]? = if p ≤ i ∧ i < p + xs.length then xs[i - p]? else l[i]? := by
  have htake : (l.take p).length = p := List.length_take_of_le (by omega)
  rw [overwrite, List.append_assoc]
  by_cases hlow : p ≤ i
  · rw [List.getElem?_append_right (by omega), htake]
    by_cases hhigh : i < p + xs.length
    · rw [if_pos ⟨hlow, hhigh⟩, List.getElem?_append_left (by omega)]
    · rw [if_neg (fun h => hhigh h.2), List.getElem?_append_right (by omega), List.getElem?_drop]
      congr 1
      omega
  · rw [if_neg (fun h => hlow h.1), List.getElem?_append_left (by omega), List.getElem?_take_of_lt (by omega)]

theorem extract_append (x y : ℕ) : extract l p x ++ extract l (p + x) y = extract l p (x + y) := by
  rw [extract, extract, extract, List.take_add, List.drop_drop]

@[simp] theorem extract_zero : extract l p 0 = [] := List.take_zero

@[simp] theorem overwrite_nil : overwrite l p [] = l := by
  rw [overwrite, List.append_nil, List.length_nil, add_zero, List.take_append_drop]

theorem overwrite_append (h : p ≤ l.length) :
    overwrite l p (xs ++ ys) = overwrite (overwrite l p xs) (p + xs.length) ys := by
  have hlen : (l.take p ++ xs).length = p + xs.length := by
    rw [List.length_append, List.length_take_of_le h]
  have hdrop : (l.take p ++ xs ++ l.drop (p + xs.length)).drop (p + xs.length + ys.length) =
      l.drop (p + xs.length + ys.length) := by
    rw [← List.drop_drop, List.drop_left' hlen, List.drop_drop]
  rw [overwrite, overwrite, overwrite, List.take_left' hlen, hdrop, List.length_append, add_assoc,
    List.append_assoc (l.take p) xs ys]

/-- All chunks have the length. -/
def Even (n : ℕ) (chunks : List (List α)) : Prop := ∀ chunk ∈ chunks, chunk.length = n

theorem Even.length_flatten (h : Even n chunks) : chunks.flatten.length = chunks.length * n := by
  rw [List.length_flatten, List.map_congr_left h, List.map_const', List.sum_replicate, smul_eq_mul]

theorem Even.split (h : Even n chunks) (hk : chunks[k]? = some chunk) :
    ∃ before after, chunks.flatten = before ++ (chunk ++ after) ∧ before.length = k * n ∧ chunk.length = n ∧
      ∀ chunk', (chunks.set k chunk').flatten = before ++ (chunk' ++ after) := by
  obtain ⟨hlt, rfl⟩ := List.getElem?_eq_some_iff.mp hk
  have htake : Even n (chunks.take k) := fun c hc => h c (List.mem_of_mem_take hc)
  refine ⟨(chunks.take k).flatten, (chunks.drop (k + 1)).flatten, ?_, ?_, h _ (List.getElem_mem hlt),
    fun chunk' => ?_⟩
  · rw [← List.flatten_cons, ← List.flatten_append, ← List.drop_eq_getElem_cons hlt, List.take_append_drop]
  · rw [htake.length_flatten, List.length_take_of_le hlt.le]
  · rw [List.set_eq_take_append_cons_drop, if_pos hlt, List.flatten_append, List.flatten_cons]

/-- **Reading inside of a chunk.** -/
theorem Even.extract_eq (h : Even n chunks) (hk : chunks[k]? = some chunk) (hx : p + x ≤ n) :
    extract chunks.flatten (k * n + p) x = extract chunk p x := by
  obtain ⟨before, after, hflat, hbefore, hchunk, -⟩ := h.split hk
  rw [hflat, extract, extract, ← hbefore, ← List.drop_drop, List.drop_left, List.drop_append_of_le_length (by omega),
    List.take_append_of_le_length (by rw [List.length_drop]; omega)]

/-- **Overwriting inside of a chunk.** -/
theorem Even.overwrite_eq (h : Even n chunks) (hk : chunks[k]? = some chunk) (hx : p + xs.length ≤ n) :
    (chunks.set k (overwrite chunk p xs)).flatten = overwrite chunks.flatten (k * n + p) xs := by
  obtain ⟨before, after, hflat, hbefore, hchunk, hset⟩ := h.split hk
  have htake : (before ++ (chunk ++ after)).take (k * n + p) = before ++ chunk.take p := by
    rw [← hbefore, List.take_length_add_append, List.take_append_of_le_length (by omega)]
  have hdrop : (before ++ (chunk ++ after)).drop (k * n + p + xs.length) = chunk.drop (p + xs.length) ++ after := by
    rw [add_assoc, ← hbefore, List.drop_length_add_append, List.drop_append_of_le_length (by omega)]
  rw [hset, hflat, overwrite, overwrite, htake, hdrop]
  simp only [List.append_assoc]

theorem Even.set (h : Even n chunks) (hlen : chunk.length = n) : Even n (chunks.set k chunk) := by
  intro c hc
  rcases List.mem_or_eq_of_mem_set hc with hc | rfl
  · exact h c hc
  · exact hlen

end Chunks
