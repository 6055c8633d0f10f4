import Mathlib
import Rasdaman.Conversion.MemfsByteArray

/-!
# Conversion/MemfsChunk — the chunk file and the block file

**The chunk file agrees with the block file** (`agree_iff`) until a seek goes to a negative position, for which
it sets the pointer to the file to 0 instead of the position.
-/

namespace Rasdaman

namespace Memfs

open Chunks

/-- The calls of a decoder. -/
inductive Access
  | read (size : ℕ)
  | seek (offset : ℤ) (mode : Mode)

/-- The call on a block file. -/
def Access.call : Access → Call
  | read size => .read size
  | seek offset mode => .seek offset mode

/-- The call on a chunk file. -/
def chunkCall (c : ChunkFS) : Access → Except Fault (Answer × ChunkFS)
  | .read size => (chunkRead c size).map (Prod.map .bytes id)
  | .seek offset mode => (chunkSeek c offset mode).map (Prod.map .number id)

/-- A run of calls on a chunk file. -/
def chunkRun (c : ChunkFS) : List Access → Except Fault (List Answer × ChunkFS)
  | [] => .ok ([], c)
  | a :: as => do
    let (answer, c) ← chunkCall c a
    let (answers, c) ← chunkRun c as
    return (answer :: answers, c)

/-- What holds of the targets of the seeks in a file of `n` bytes. -/
def Targets (P : ℤ → Prop) (n : ℕ) : ℕ → List Access → Prop
  | _, [] => True
  | pos, .read size :: as => Targets P n (pos + min (n - pos) size) as
  | pos, .seek offset mode :: as =>
    P (mode.target pos n offset) ∧ Targets P n (mode.target pos n offset).toNat as

/-- A block file into which a string was written, and a chunk file with that content, give the same answers
and are at the same position in the end. -/
def Agree (junk : ℕ → Fin blockSize → UInt8) (src : List UInt8) (as : List Access) : Prop :=
  ∃ start m answers m' c', run junk (initfs junk) [.write src, .seek 0 .set] = .ok (start, m) ∧
    run junk m (as.map Access.call) = .ok (answers, m') ∧
    chunkRun (chunkInitfs src) as = .ok (answers, c') ∧ c'.pos = m'.pos

variable {junk : ℕ → Fin blockSize → UInt8} {m : MemFS} {src : List UInt8} {pos : ℕ} {as : List Access}

/-- The block file has the bytes of a string and is at a position of it. -/
def HasString (m : MemFS) (src : List UInt8) (pos : ℕ) : Prop :=
  ∃ blocks, Holds m ⟨pos, src.length, fun p => src[p]?⟩ blocks

/-- What an access answers, and where it leaves the position. -/
def answerOf (src : List UInt8) (pos : ℕ) : Access → Answer × ℕ
  | .read size => (.bytes (extract src pos (min (src.length - pos) size)), pos + min (src.length - pos) size)
  | .seek offset mode =>
    (.number (mode.target pos src.length offset).toNat, (mode.target pos src.length offset).toNat)

/-- The block file after a string was written into it. -/
theorem run_write (junk : ℕ → Fin blockSize → UInt8) (src : List UInt8) :
    ∃ start m, run junk (initfs junk) [.write src, .seek 0 .set] = .ok (start, m) ∧ HasString m src 0 := by
  obtain ⟨m₁, blocks₁, hwrite, hholds₁⟩ := write_holds junk (initfs_holds junk) src
  obtain ⟨m, blocks, hseek, hholds⟩ := seek_holds junk hholds₁ 0 .set
  have hfirst : call junk (initfs junk) (.write src) = .ok (.number src.length, m₁) := by
    rw [call, hwrite]
    rfl
  have hsecond : call junk m₁ (.seek 0 .set) = .ok (.number 0, m) := by
    rw [call, hseek]
    rfl
  refine ⟨[.number src.length, .number 0], m, run_cons hfirst (run_cons hsecond rfl), blocks, ?_⟩
  · have hfile : (File.start.after (.write src)).after (.seek 0 .set) = ⟨0, src.length, fun p => src[p]?⟩ := by
      simp only [File.after, File.start, Mode.target, Int.toNat_zero, Nat.zero_add, Nat.zero_le, true_and,
        Nat.sub_zero, max_eq_left, max_eq_right]
      congr 1
      refine funext fun p => ite_eq_left_iff.mpr fun hp => ?_
      rw [List.getElem?_eq_none (by omega)]
    rwa [hfile] at hholds

/-- **An access to the block file.** -/
theorem HasString.call (junk : ℕ → Fin blockSize → UInt8) (h : HasString m src pos) (a : Access)
    (ha : ∀ offset mode, a = .seek offset mode → mode.target pos src.length offset ≤ src.length) :
    ∃ m', call junk m a.call = .ok ((answerOf src pos a).1, m') ∧ HasString m' src (answerOf src pos a).2 := by
  obtain ⟨blocks, hholds⟩ := h
  have hpos : pos ≤ src.length := hholds.pos_le
  cases a with
  | read size =>
    obtain ⟨bytes, m', hok, ⟨_, hanswer, hlength, hbytes⟩, hholds'⟩ := read_holds hholds size
    obtain rfl := Answer.bytes.inj hanswer
    have hbytes_eq : bytes = extract src pos (min (src.length - pos) size) := by
      dsimp only at hlength hbytes
      refine List.ext_getElem? fun i => ?_
      by_cases hi : i < min (src.length - pos) size
      · rw [getElem?_extract hi]
        exact hbytes i (by omega) _ (List.getElem?_eq_getElem (by omega)) |>.trans
          (List.getElem?_eq_getElem (by omega)).symm
      · rw [List.getElem?_eq_none (by omega), List.getElem?_eq_none]
        rw [length_extract (by omega)]
        omega
    refine ⟨m', ?_, blocks, hholds'⟩
    rw [answerOf, ← hbytes_eq, Access.call, Memfs.call, hok]
    rfl
  | seek offset mode =>
    obtain ⟨m', blocks', hok, hholds'⟩ := seek_holds junk hholds offset mode
    have hle := ha offset mode rfl
    refine ⟨m', ?_, blocks', ?_⟩
    · simp only [Access.call, Memfs.call, hok]
      rfl
    · have hhigh : max (mode.target pos src.length offset).toNat src.length = src.length :=
        max_eq_right (by omega)
      simp only [File.after, hhigh] at hholds'
      exact hholds'

/-- The chunk file at a position. -/
theorem chunkCall_eq (hpos : pos ≤ src.length) (a : Access)
    (ha : ∀ offset mode, a = .seek offset mode → 0 ≤ mode.target pos src.length offset ∧
      mode.target pos src.length offset ≤ src.length) :
    chunkCall ⟨pos, src.length, src⟩ a =
      .ok ((answerOf src pos a).1, ⟨(answerOf src pos a).2, src.length, src⟩) := by
  cases a with
  | read size =>
    simp only [chunkCall, chunkRead, answerOf]
    split_ifs with htodo hfit
    · rfl
    · omega
    · have hzero : min (src.length - pos) size = 0 := by omega
      rw [hzero, extract_zero]
      rfl
  | seek offset mode =>
    obtain ⟨hlow, hhigh⟩ := ha offset mode rfl
    have hmin : min (mode.target pos src.length offset).toNat src.length =
        (mode.target pos src.length offset).toNat := min_eq_left (by omega)
    simp only [chunkCall, chunkSeek, answerOf, if_neg (not_lt.mpr hlow), hmin]
    rfl

/-- A seek to a negative position loses the chunk file. -/
theorem chunkCall_of_neg {offset : ℤ} {mode : Mode} (h : mode.target pos src.length offset < 0) :
    chunkCall ⟨pos, src.length, src⟩ (.seek offset mode) = .error .nullPointer := by
  simp only [chunkCall, chunkSeek, if_pos h]
  rfl

/-! ## Runs -/

/-- The answers of a run, and where it leaves the position. -/
def answersOf (src : List UInt8) : ℕ → List Access → List Answer × ℕ
  | pos, [] => ([], pos)
  | pos, a :: as =>
    ((answerOf src pos a).1 :: (answersOf src (answerOf src pos a).2 as).1,
      (answersOf src (answerOf src pos a).2 as).2)

theorem targets_cons {P : ℤ → Prop} {a : Access} : Targets P src.length pos (a :: as) ↔
    (∀ offset mode, a = .seek offset mode → P (mode.target pos src.length offset)) ∧
      Targets P src.length (answerOf src pos a).2 as := by
  cases a with
  | read size => exact (and_iff_right fun _ _ h => nomatch h).symm
  | seek offset mode =>
    refine and_congr_left fun _ => ⟨fun h offset' mode' heq => ?_, fun h => h offset mode rfl⟩
    obtain ⟨rfl, rfl⟩ := Access.seek.inj heq
    exact h

theorem answerOf_le {a : Access} (hpos : pos ≤ src.length)
    (ha : ∀ offset mode, a = .seek offset mode → mode.target pos src.length offset ≤ src.length) :
    (answerOf src pos a).2 ≤ src.length := by
  cases a with
  | read size =>
    dsimp only [answerOf]
    omega
  | seek offset mode =>
    have := ha offset mode rfl
    dsimp only [answerOf]
    omega

theorem HasString.run (h : HasString m src pos) (has : Targets (· ≤ src.length) src.length pos as) :
    ∃ m', Memfs.run junk m (as.map Access.call) = .ok ((answersOf src pos as).1, m') ∧
      m'.pos = (answersOf src pos as).2 := by
  induction as generalizing m pos with
  | nil =>
    obtain ⟨blocks, hholds⟩ := h
    exact ⟨m, rfl, hholds.pos⟩
  | cons a as ih =>
    obtain ⟨ha, has⟩ := targets_cons.mp has
    obtain ⟨m₁, hcall, h₁⟩ := h.call junk a ha
    obtain ⟨m', hrun, hpos⟩ := ih h₁ has
    exact ⟨m', run_cons hcall hrun, hpos⟩

theorem chunkRun_eq (hpos : pos ≤ src.length) (has : Targets (· ≤ src.length) src.length pos as)
    (hlow : Targets (0 ≤ ·) src.length pos as) :
    chunkRun ⟨pos, src.length, src⟩ as =
      .ok ((answersOf src pos as).1, ⟨(answersOf src pos as).2, src.length, src⟩) := by
  induction as generalizing pos with
  | nil => rfl
  | cons a as ih =>
    obtain ⟨ha, has⟩ := targets_cons.mp has
    obtain ⟨hlow, hlows⟩ := targets_cons.mp hlow
    have hnext := answerOf_le hpos ha
    rw [chunkRun, chunkCall_eq hpos a fun offset mode heq => ⟨hlow offset mode heq, ha offset mode heq⟩]
    dsimp only [bind, Except.bind]
    rw [ih hnext has hlows]
    rfl

theorem chunkRun_error (hpos : pos ≤ src.length) (has : Targets (· ≤ src.length) src.length pos as)
    (hlow : ¬ Targets (0 ≤ ·) src.length pos as) :
    chunkRun ⟨pos, src.length, src⟩ as = .error .nullPointer := by
  induction as generalizing pos with
  | nil => exact absurd trivial hlow
  | cons a as ih =>
    obtain ⟨ha, has⟩ := targets_cons.mp has
    rw [targets_cons, not_and_or] at hlow
    rw [chunkRun]
    by_cases hhere : ∀ offset mode, a = .seek offset mode → 0 ≤ mode.target pos src.length offset
    · have hnext := answerOf_le hpos ha
      rw [chunkCall_eq hpos a fun offset mode heq => ⟨hhere offset mode heq, ha offset mode heq⟩]
      dsimp only [bind, Except.bind]
      rw [ih hnext has (hlow.resolve_left (not_not.mpr hhere))]
    · push_neg at hhere
      obtain ⟨offset, mode, rfl, hneg⟩ := hhere
      rw [chunkCall_of_neg hneg]
      rfl

/-- **The chunk file agrees with the block file** exactly in the runs in which no seek goes to a negative
position. -/
theorem agree_iff (junk : ℕ → Fin blockSize → UInt8) (src : List UInt8) (as : List Access)
    (has : Targets (· ≤ src.length) src.length 0 as) :
    Agree junk src as ↔ Targets (0 ≤ ·) src.length 0 as := by
  constructor
  · rintro ⟨_, _, _, _, _, -, -, hchunk, -⟩
    by_contra hlow
    have herror := chunkRun_error (Nat.zero_le _) has hlow
    rw [chunkInitfs, herror] at hchunk
    cases hchunk
  · intro hlow
    obtain ⟨start, m, hstart, hstring⟩ := run_write junk src
    obtain ⟨m', hrun, hpos⟩ := hstring.run has
    exact ⟨start, m, _, m', _, hstart, hrun, chunkRun_eq (Nat.zero_le _) has hlow, hpos.symm⟩

/-- Blocks that are zero when they are allocated. -/
def zeros : ℕ → Fin blockSize → UInt8 := fun _ _ => 0

/-- A seek to the end and back by one byte, and a read of more than there is. -/
theorem agree_last : Agree zeros [1, 2, 3] [.seek 0 .end, .seek (-1) .cur, .read 5] :=
  (agree_iff zeros [1, 2, 3] [.seek 0 .end, .seek (-1) .cur, .read 5] ⟨by decide, by decide, trivial⟩).mpr
    ⟨by decide, by decide, trivial⟩

/-- A seek before the start. -/
theorem not_agree_before : ¬ Agree zeros [1, 2, 3] [.seek (-1) .set] := by
  rintro ⟨_, _, _, _, _, -, -, hchunk, -⟩
  cases hchunk

end Memfs

end Rasdaman
