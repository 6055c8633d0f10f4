import Mathlib
import Rasdaman.Conversion.Memfs

/-!
# Conversion/MemfsByteArray — the block file is a byte array

**A block file is a byte array** (`run_isByteArray`): its blocks, in the order of the table, are one list of
bytes that covers every position below the end, and every byte that is read is the one last written at its
position.
-/

namespace Rasdaman

namespace Memfs

open Chunks

variable {m m' : MemFS} {blocks : List (List UInt8)} {k offset x off : ℕ}
  {mem : List UInt8}

/-! ## The table of blocks -/

/-- The table leads to the blocks in order, and to nothing behind them. -/
structure Table (m : MemFS) (blocks : List (List UInt8)) : Prop where
  heap : m.heap = blocks.map some
  even : Even blockSize blocks
  le : blocks.length ≤ m.mamSize
  mam : m.mam = (List.range blocks.length).map some ++ List.replicate (m.mamSize - blocks.length) none

theorem Table.length_mam (h : Table m blocks) : m.mam.length = m.mamSize := by
  have hle := h.le
  rw [h.mam, List.length_append, List.length_map, List.length_range, List.length_replicate]
  omega

theorem Table.mam_of_lt (h : Table m blocks) (hk : k < blocks.length) : m.mam[k]? = some (some k) := by
  rw [h.mam, List.getElem?_append_left (by simpa using hk), List.getElem?_map, List.getElem?_range hk]
  rfl

theorem Table.mam_of_ge (h : Table m blocks) (hk : blocks.length ≤ k) (hsize : k < m.mamSize) :
    m.mam[k]? = some none := by
  rw [h.mam, List.getElem?_append_right (by simpa using hk), List.getElem?_replicate]
  simp only [List.length_map, List.length_range]
  exact if_pos (by omega)

theorem Table.congr (h : Table m blocks) (hheap : m'.heap = m.heap) (hsize : m'.mamSize = m.mamSize)
    (hmam : m'.mam = m.mam) : Table m' blocks :=
  ⟨hheap.trans h.heap, h.even, h.le.trans hsize.ge, by rw [hmam, hsize, h.mam]⟩

/-- A larger table. -/
theorem Table.grow (h : Table m blocks) {size : ℕ} (hsize : m.mamSize ≤ size) : Table (growMam m size) blocks := by
  have hle := h.le
  refine ⟨h.heap, h.even, hle.trans hsize, ?_⟩
  have htake : m.mam.take m.mamSize = m.mam := List.take_of_length_le h.length_mam.le
  dsimp only [growMam]
  rw [htake, h.mam, List.append_assoc, List.replicate_append_replicate]
  congr 2
  omega

/-- One more block. -/
theorem allocate_eq (junk : ℕ → Fin blockSize → UInt8) (h : Table m blocks) (hlt : blocks.length < m.mamSize) :
    ∃ m', allocate junk m blocks.length = .ok m' ∧ Table m' (blocks ++ [List.ofFn (junk blocks.length)]) ∧
      m'.mamSize = m.mamSize ∧ m'.pos = m.pos ∧ m'.high = m.high := by
  have hlength : m.heap.length = blocks.length := by rw [h.heap, List.length_map]
  refine ⟨_, if_pos (by rwa [h.length_mam]), ⟨?_, ?_, ?_, ?_⟩, rfl, rfl, rfl⟩
  · dsimp only
    rw [hlength, h.heap, List.map_append, List.map_singleton]
  · intro b hb
    rcases List.mem_append.mp hb with hb | hb
    · exact h.even b hb
    · rw [List.mem_singleton.mp hb, List.length_ofFn]
  · rw [List.length_append, List.length_singleton]
    exact hlt
  · have hfree : m.mamSize - blocks.length = m.mamSize - (blocks.length + 1) + 1 := by omega
    dsimp only
    rw [hlength, h.mam, List.set_append_right _ _ (by simp), List.length_map, List.length_range, Nat.sub_self, hfree,
      List.replicate_succ, List.set_cons_zero, List.length_append, List.length_singleton, List.range_succ,
      List.map_append, List.map_singleton, List.append_assoc, List.singleton_append]

/-- The blocks below a new one are allocated too. -/
theorem foldlM_allocate (junk : ℕ → Fin blockSize → UInt8) (h : Table m blocks) {n : ℕ} (hn : blocks.length + n ≤ m.mamSize) :
    ∃ m' extra, (List.range' blocks.length n).foldlM (allocate junk) m = .ok m' ∧
      Table m' (blocks ++ extra) ∧ extra.length = n ∧ m'.mamSize = m.mamSize ∧ m'.pos = m.pos ∧
        m'.high = m.high := by
  induction n generalizing m blocks with
  | zero => exact ⟨m, [], rfl, by rwa [List.append_nil], rfl, rfl, rfl, rfl⟩
  | succ n ih =>
    obtain ⟨m₁, hone, htable, hsize, hpos, hhigh⟩ := allocate_eq junk h (by omega)
    have hlength : (blocks ++ [List.ofFn (junk blocks.length)]).length = blocks.length + 1 := by
      rw [List.length_append, List.length_singleton]
    obtain ⟨m', extra, hrest, htable', hextra, hsize', hpos', hhigh'⟩ := ih htable (by omega)
    rw [hlength] at hrest
    refine ⟨m', List.ofFn (junk blocks.length) :: extra, ?_, ?_, by rw [List.length_cons, hextra],
      hsize'.trans hsize, hpos'.trans hpos, hhigh'.trans hhigh⟩
    · rw [List.range'_succ, List.foldlM_cons, hone]
      exact hrest
    · rwa [List.append_assoc, List.singleton_append] at htable'

theorem lt_two_pow_shifts (n : ℕ) : n < 2 ^ shifts n := by
  induction n using Nat.strong_induction_on with
  | _ n ih =>
    rw [shifts]
    split_ifs with hn
    · omega
    · have := ih (n / 2) (by omega)
      rw [pow_succ]
      omega

/-- Exactly the blocks up to the highest one are allocated. -/
structure Sound (m : MemFS) (blocks : List (List UInt8)) : Prop extends Table m blocks where
  length : blocks.length = m.mamHighest + 1

/-- **`memfs_ensure`** allocates the blocks up to a position. -/
theorem ensure_eq (junk : ℕ → Fin blockSize → UInt8) (h : Sound m blocks) (off : ℕ) : ∃ m' extra, ensure junk m off = .ok m' ∧
    Sound m' (blocks ++ extra) ∧ off < (blocks ++ extra).length * blockSize ∧ m'.pos = m.pos ∧
      m'.high = m.high := by
  have hoff : ∀ n, off / blockSize < n → off < n * blockSize := fun n hn =>
    (Nat.div_lt_iff_lt_mul (by decide)).mp hn
  have hgrown : ∃ g, (if off / blockSize ≥ m.mamSize then growMam m (2 ^ shifts (off / blockSize)) else m) = g ∧
      Table g blocks ∧ off / blockSize < g.mamSize ∧ g.mamHighest = m.mamHighest ∧ g.pos = m.pos ∧
        g.high = m.high := by
    have hlt := lt_two_pow_shifts (off / blockSize)
    split_ifs with hsize
    · exact ⟨_, rfl, h.grow (by omega), hlt, rfl, rfl, rfl⟩
    · exact ⟨m, rfl, h.toTable, by omega, rfl, rfl, rfl⟩
  obtain ⟨g, hg, htable, hlt, hhighest, hpos, hhigh⟩ := hgrown
  rw [ensure, hg]
  have hlength := h.length
  by_cases hk : off / blockSize < blocks.length
  · rw [htable.mam_of_lt hk]
    refine ⟨g, [], rfl, ?_, ?_, hpos, hhigh⟩
    · rw [List.append_nil]
      exact ⟨htable, by rw [hlength, hhighest]⟩
    · rw [List.append_nil]
      exact hoff _ hk
  · rw [htable.mam_of_ge (by omega) hlt]
    obtain ⟨m', extra, hfold, htable', hextra, hsize', hpos', hhigh'⟩ := foldlM_allocate junk htable
      (n := off / blockSize + 1 - blocks.length) (by omega)
    have hstart : g.mamHighest + 1 = blocks.length := by rw [hhighest, hlength]
    have hcount : off / blockSize - g.mamHighest = off / blockSize + 1 - blocks.length := by omega
    have htotal : (blocks ++ extra).length = off / blockSize + 1 := by
      rw [List.length_append, hextra]
      omega
    refine ⟨{ m' with mamHighest := off / blockSize }, extra, ?_, ⟨htable'.congr rfl rfl rfl, htotal⟩, ?_,
      hpos'.trans hpos, hhigh'.trans hhigh⟩
    · dsimp only
      rw [hstart, hcount, hfold]
      rfl
    · exact hoff _ (by omega)

/-! ## Reading and writing -/

theorem Sound.congr (h : Sound m blocks) (hheap : m'.heap = m.heap) (hsize : m'.mamSize = m.mamSize)
    (hmam : m'.mam = m.mam) (hhighest : m'.mamHighest = m.mamHighest) : Sound m' blocks :=
  ⟨h.toTable.congr hheap hsize hmam, by rw [hhighest, h.length]⟩

theorem Table.withPos (h : Table m blocks) (pos : ℕ) : Table { m with pos } blocks := h.congr rfl rfl rfl

theorem Sound.withPos (h : Sound m blocks) (pos : ℕ) : Sound { m with pos } blocks := h.congr rfl rfl rfl rfl

theorem blockOf_eq (h : Table m blocks) {block : List UInt8} (hk : blocks[k]? = some block) :
    blockOf m k = .ok (k, block) := by
  obtain ⟨hlt, -⟩ := List.getElem?_eq_some_iff.mp hk
  rw [blockOf, h.mam_of_lt hlt]
  dsimp only
  rw [h.heap, List.getElem?_map, hk]
  rfl

/-- A position and the rest of its block. -/
theorem pos_split (pos : ℕ) : ∃ k offset, pos / blockSize = k ∧ pos - k * blockSize = offset ∧
    k * blockSize + offset = pos ∧ offset < blockSize := by
  have hdiv := Nat.div_add_mod' pos blockSize
  have hmod := Nat.mod_lt pos (show 0 < blockSize by decide)
  exact ⟨_, _, rfl, rfl, by omega, by omega⟩

theorem block_of_lt (heven : Even blockSize blocks) {pos : ℕ} (h : pos < blocks.length * blockSize) :
    ∃ block, blocks[pos / blockSize]? = some block ∧ block.length = blockSize := by
  have hlt : pos / blockSize < blocks.length := (Nat.div_lt_iff_lt_mul (by decide)).mpr h
  exact ⟨_, List.getElem?_eq_getElem hlt, heven _ (List.getElem_mem hlt)⟩

/-- **The loop of `memfs_read`** reads on in the bytes of all blocks. -/
theorem readBlocks_eq (h : Table m blocks) {todo : ℕ} (htodo : m.pos + todo ≤ blocks.length * blockSize) :
    readBlocks m todo = .ok (extract blocks.flatten m.pos todo, { m with pos := m.pos + todo }) := by
  induction todo using Nat.strong_induction_on generalizing m with
  | _ todo ih =>
    rw [readBlocks]
    split_ifs with hpos
    · obtain ⟨block, hblock, hlen⟩ := block_of_lt h.even (show m.pos < blocks.length * blockSize by omega)
      obtain ⟨k, offset, hk, hoffset, hsplit, hlt⟩ := pos_split m.pos
      have hx : offset + min (blockSize - offset) todo ≤ blockSize := by omega
      rw [hk] at hblock
      have hcopy : copyFrom m k offset (min (blockSize - offset) todo) =
          .ok (extract blocks.flatten m.pos (min (blockSize - offset) todo)) := by
        rw [copyFrom, blockOf_eq h hblock, ← hsplit, h.even.extract_eq hblock hx]
        exact if_pos (by omega)
      have hrest := ih (todo - min (blockSize - offset) todo) (by omega)
        (h.withPos (m.pos + min (blockSize - offset) todo)) (by dsimp only; omega)
      have hcount : min (blockSize - offset) todo + (todo - min (blockSize - offset) todo) = todo := by omega
      dsimp only at hrest ⊢
      rw [hk, hoffset, hcopy]
      dsimp only [bind, Except.bind]
      rw [hrest]
      dsimp only [pure, Except.pure]
      rw [extract_append, add_assoc, hcount]
    · obtain rfl : todo = 0 := by omega
      rw [extract_zero]
      rfl

/-- **The loop of `memfs_write`** overwrites the bytes of all blocks. -/
theorem writeBlocks_eq (h : Table m blocks) (hmem : m.pos + mem.length ≤ blocks.length * blockSize) :
    ∃ blocks', writeBlocks m mem = .ok { m with pos := m.pos + mem.length, heap := blocks'.map some } ∧
      Even blockSize blocks' ∧ blocks'.length = blocks.length ∧
      blocks'.flatten = overwrite blocks.flatten m.pos mem := by
  induction hn : mem.length using Nat.strong_induction_on generalizing m mem blocks with
  | _ n ih =>
    subst hn
    rw [writeBlocks]
    split_ifs with hpos
    · obtain ⟨block, hblock, hlen⟩ := block_of_lt h.even (show m.pos < blocks.length * blockSize by omega)
      obtain ⟨k, offset, hk, hoffset, hsplit, hlt⟩ := pos_split m.pos
      rw [hk] at hblock
      set x := min (blockSize - offset) mem.length with hxdef
      have htake : (mem.take x).length = x := List.length_take_of_le (by omega)
      have hdrop : (mem.drop x).length = mem.length - x := List.length_drop
      have hx : offset + (mem.take x).length ≤ block.length := by omega
      have hblock' : (overwrite block offset (mem.take x)).length = blockSize := by
        rw [length_overwrite hx, hlen]
      have hcopy : copyTo m k offset (mem.take x) =
          .ok { m with heap := (blocks.set k (overwrite block offset (mem.take x))).map some } := by
        rw [copyTo, blockOf_eq h hblock, List.map_set, ← h.heap]
        exact if_pos hx
      have hflat := h.even.overwrite_eq hblock (show offset + (mem.take x).length ≤ blockSize by omega)
      have htable : Table { m with
          heap := (blocks.set k (overwrite block offset (mem.take x))).map some
          pos := m.pos + x } (blocks.set k (overwrite block offset (mem.take x))) := by
        refine ⟨rfl, h.even.set hblock', ?_, ?_⟩
        · rw [List.length_set]
          exact h.le
        · rw [List.length_set]
          exact h.mam
      obtain ⟨blocks', hrest, heven', hlen', hflat'⟩ := ih (mem.drop x).length (by omega) htable
        (by rw [List.length_set]; dsimp only; omega) rfl
      have hflatlen : m.pos ≤ blocks.flatten.length := by
        rw [h.even.length_flatten]
        omega
      refine ⟨blocks', ?_, heven', by rw [hlen', List.length_set], ?_⟩
      · dsimp only at hrest ⊢
        rw [hk, hoffset, ← hxdef, hcopy]
        dsimp only [bind, Except.bind]
        rw [hrest, hdrop, add_assoc, Nat.add_sub_cancel' (by omega)]
      · rw [hflat', hflat, hsplit]
        dsimp only
        have hchain := @overwrite_append _ (mem.take x) (mem.drop x) _ _ hflatlen
        rw [List.take_append_drop, htake] at hchain
        exact hchain.symm
    · obtain rfl := List.length_eq_zero_iff.mp (Nat.eq_zero_of_not_pos hpos)
      refine ⟨blocks, ?_, h.even, rfl, overwrite_nil.symm⟩
      rw [← h.heap]
      rfl

/-! ## The array of bytes -/

/-- A file as an array of bytes: the byte last written at each position, if there is one. -/
structure File where
  pos : ℕ
  high : ℕ
  written : ℕ → Option UInt8

namespace File

/-- The empty file. -/
def start : File := ⟨0, 0, fun _ => none⟩

/-- The file after a call. -/
def after (f : File) : Call → File
  | .write mem => ⟨f.pos + mem.length, max (f.pos + mem.length) f.high, fun p =>
      if f.pos ≤ p ∧ p < f.pos + mem.length then mem[p - f.pos]? else f.written p⟩
  | .read size => { f with pos := f.pos + min (f.high - f.pos) size }
  | .seek offset mode =>
    let pos := (mode.target f.pos f.high offset).toNat
    { f with pos, high := max pos f.high }
  | .newfile => { f with pos := 0, high := 0 }

/-- What a call answers: a read has all the bytes that are left of those it asks for, and each of them that
was written at all is the one that was written last. -/
def Answers (f : File) (answer : Answer) : Call → Prop
  | .write mem => answer = .number mem.length
  | .read size => ∃ bytes, answer = .bytes bytes ∧ bytes.length = min size (f.high - f.pos) ∧
      ∀ i < bytes.length, ∀ v, f.written (f.pos + i) = some v → bytes[i]? = some v
  | .seek offset mode => answer = .number (mode.target f.pos f.high offset).toNat
  | .newfile => answer = .nothing

/-- What the calls of a run answer. -/
def AnswersAll : File → List Call → List Answer → Prop
  | _, [], answers => answers = []
  | f, c :: cs, answers => ∃ answer rest, answers = answer :: rest ∧ f.Answers answer c ∧
      (f.after c).AnswersAll cs rest

end File

/-- A block file has the bytes of a file. -/
structure Holds (m : MemFS) (f : File) (blocks : List (List UInt8)) : Prop extends Sound m blocks where
  pos : m.pos = f.pos
  high : m.high = f.high
  pos_le : f.pos ≤ f.high
  high_le : f.high ≤ blocks.length * blockSize
  bytes : ∀ p v, f.written p = some v → blocks.flatten[p]? = some v

variable {f : File}

theorem initfs_holds (junk : ℕ → Fin blockSize → UInt8) :
    Holds (initfs junk) File.start [List.ofFn (junk 0)] := by
  refine ⟨⟨⟨rfl, ?_, ?_, rfl⟩, rfl⟩, rfl, rfl, le_rfl, Nat.zero_le _, fun _ _ h => nomatch h⟩
  · intro b hb
    rw [List.mem_singleton.mp hb, List.length_ofFn]
  · change 1 ≤ mamEntries
    decide

/-- A byte that was written is in a block, so it stays where blocks are added behind it. -/
theorem Holds.bytes_append (h : Holds m f blocks) (extra : List (List UInt8)) {p : ℕ} {v : UInt8}
    (hp : f.written p = some v) : (blocks ++ extra).flatten[p]? = some v := by
  have hv := h.bytes p v hp
  obtain ⟨hlt, -⟩ := List.getElem?_eq_some_iff.mp hv
  rw [List.flatten_append, List.getElem?_append_left hlt, hv]

theorem write_holds (junk : ℕ → Fin blockSize → UInt8) (h : Holds m f blocks) (mem : List UInt8) : ∃ m' blocks',
    write junk m mem = .ok (mem.length, m') ∧ Holds m' (f.after (.write mem)) blocks' := by
  obtain ⟨m₁, extra, hensure, hsound, hcover, hpos, hhigh⟩ := ensure_eq junk h.toSound
    (m.pos + mem.length)
  obtain ⟨blocks', hwrite, heven, hlength, hflat⟩ := writeBlocks_eq hsound.toTable
    (show m₁.pos + mem.length ≤ _ by omega)
  have hfit : m₁.pos + mem.length ≤ (blocks ++ extra).flatten.length := by
    rw [hsound.even.length_flatten]
    omega
  rw [write, hensure]
  dsimp only [bind, Except.bind]
  rw [hwrite]
  refine ⟨_, blocks', rfl, ⟨⟨rfl, heven, by rw [hlength]; exact hsound.le, by rw [hlength]; exact hsound.mam⟩,
    by rw [hlength]; exact hsound.length⟩, ?_, ?_, ?_, ?_, fun p v hp => ?_⟩
  · dsimp only [File.after]
    rw [hpos, h.pos]
  · dsimp only [File.after]
    rw [hpos, hhigh, h.pos, h.high]
  · exact le_max_left _ _
  · have hle := h.high_le
    rw [List.length_append, add_mul] at hcover
    rw [hlength, List.length_append, add_mul]
    have := h.pos
    dsimp only [File.after]
    omega
  · rw [hflat, getElem?_overwrite hfit, hpos, h.pos]
    dsimp only [File.after] at hp
    split_ifs at hp ⊢
    · exact hp
    · exact h.bytes_append extra hp

theorem seek_holds (junk : ℕ → Fin blockSize → UInt8) (h : Holds m f blocks) (offset : ℤ) (mode : Mode) : ∃ m' blocks',
    seek junk m offset mode = .ok ((mode.target f.pos f.high offset).toNat, m') ∧
      Holds m' (f.after (.seek offset mode)) blocks' := by
  have htarget : (mode.target m.pos m.high offset).toNat = (mode.target f.pos f.high offset).toNat := by
    rw [h.pos, h.high]
  obtain ⟨m₁, extra, hensure, hsound, hcover, hpos, hhigh⟩ := ensure_eq junk
    (h.toSound.withPos (mode.target m.pos m.high offset).toNat)
    (mode.target m.pos m.high offset).toNat
  rw [seek, hensure]
  refine ⟨_, blocks ++ extra, congrArg Except.ok (Prod.ext htarget rfl), ⟨hsound.congr rfl rfl rfl rfl, ?_, ?_,
    le_max_left _ _, ?_, fun p v hp => h.bytes_append extra hp⟩⟩
  · exact hpos.trans htarget
  · dsimp only [File.after]
    rw [hpos, hhigh]
    dsimp only
    rw [htarget, h.high]
  · have hle := h.high_le
    rw [List.length_append, add_mul] at hcover ⊢
    dsimp only [File.after]
    omega

theorem read_holds (h : Holds m f blocks) (size : ℕ) : ∃ bytes m',
    read m size = .ok (bytes, m') ∧ f.Answers (.bytes bytes) (.read size) ∧
      Holds m' (f.after (.read size)) blocks := by
  have hpos := h.pos
  have hhigh := h.high
  have hle := h.pos_le
  have hcover := h.high_le
  have htodo : m.pos + min (m.high - m.pos) size ≤ blocks.length * blockSize := by omega
  refine ⟨_, _, readBlocks_eq h.toTable htodo, ⟨_, rfl, ?_, ?_⟩,
    ⟨h.toSound.congr rfl rfl rfl rfl, ?_, hhigh, ?_, hcover, h.bytes⟩⟩
  · rw [length_extract (by rw [h.even.length_flatten]; exact htodo), hpos, hhigh, min_comm]
  · intro i hi v hv
    rw [length_extract (by rw [h.even.length_flatten]; exact htodo)] at hi
    rw [getElem?_extract hi, hpos]
    exact h.bytes _ v hv
  · dsimp only [File.after]
    rw [hpos, hhigh]
  · dsimp only [File.after]
    omega

/-- **A call** on a block file does what it does to the file. -/
theorem call_holds (junk : ℕ → Fin blockSize → UInt8) (h : Holds m f blocks) (c : Call) : ∃ answer m' blocks',
    call junk m c = .ok (answer, m') ∧ f.Answers answer c ∧ Holds m' (f.after c) blocks' := by
  cases c with
  | write mem =>
    obtain ⟨m', blocks', hok, hholds⟩ := write_holds junk h mem
    exact ⟨_, m', blocks', by rw [call, hok]; rfl, rfl, hholds⟩
  | read size =>
    obtain ⟨bytes, m', hok, hanswers, hholds⟩ := read_holds h size
    exact ⟨_, m', blocks, by rw [call, hok]; rfl, hanswers, hholds⟩
  | seek offset mode =>
    obtain ⟨m', blocks', hok, hholds⟩ := seek_holds junk h offset mode
    exact ⟨_, m', blocks', by rw [call, hok]; rfl, rfl, hholds⟩
  | newfile =>
    exact ⟨_, _, blocks, rfl, rfl, h.toSound.congr rfl rfl rfl rfl, rfl, rfl, le_rfl, Nat.zero_le _, h.bytes⟩

theorem run_cons {junk : ℕ → Fin blockSize → UInt8} {m m₁ m' : MemFS} {c : Call} {cs : List Call}
    {answer : Answer} {answers : List Answer} (hcall : call junk m c = .ok (answer, m₁))
    (hrun : run junk m₁ cs = .ok (answers, m')) : run junk m (c :: cs) = .ok (answer :: answers, m') := by
  rw [run, hcall]
  dsimp only [bind, Except.bind]
  rw [hrun]
  rfl

/-- **A run of calls.** -/
theorem run_holds (junk : ℕ → Fin blockSize → UInt8) (h : Holds m f blocks) (cs : List Call) :
    ∃ answers m' f' blocks', run junk m cs = .ok (answers, m') ∧ f.AnswersAll cs answers ∧
      Holds m' f' blocks' := by
  induction cs generalizing m f blocks with
  | nil => exact ⟨[], m, f, blocks, rfl, rfl, h⟩
  | cons c cs ih =>
    obtain ⟨answer, m₁, blocks₁, hcall, hanswer, h₁⟩ := call_holds junk h c
    obtain ⟨answers, m', f', blocks', hrun, hanswers, h'⟩ := ih h₁
    exact ⟨answer :: answers, m', f', blocks', run_cons hcall hrun, ⟨answer, answers, rfl, hanswer, hanswers⟩, h'⟩

/-! ## The blocks that are allocated -/

/-- Exactly the blocks up to the highest one are allocated, each at an address of its own, and they cover
every position below the end. -/
structure Allocates (m : MemFS) : Prop where
  length_mam : m.mam.length = m.mamSize
  entries : ∀ i : ℕ, (∃ address : ℕ, m.mam[i]? = some (some address)) ↔ i ≤ m.mamHighest
  live : ∀ i address : ℕ, m.mam[i]? = some (some address) → ∃ block : List UInt8,
    m.heap[address]? = some (some block) ∧ block.length = blockSize
  distinct : ∀ i j address : ℕ, m.mam[i]? = some (some address) → m.mam[j]? = some (some address) → i = j
  all : ∀ (address : ℕ) (block : List UInt8), m.heap[address]? = some (some block) →
    ∃ i : ℕ, m.mam[i]? = some (some address)
  covers : ∀ p < m.high, p / blockSize ≤ m.mamHighest

/-- Every allocated block is freed once. -/
def FreesAll (m : MemFS) : Prop :=
  ∃ heap, killfs m = .ok heap ∧ heap.length = m.heap.length ∧ ∀ entry ∈ heap, entry = none

theorem Sound.entry (h : Sound m blocks) {i address : ℕ} (hi : m.mam[i]? = some (some address)) :
    i = address ∧ i < blocks.length := by
  obtain ⟨hlt, -⟩ := List.getElem?_eq_some_iff.mp hi
  rw [h.length_mam] at hlt
  by_cases hk : i < blocks.length
  · rw [h.mam_of_lt hk] at hi
    exact ⟨Option.some.inj (Option.some.inj hi), hk⟩
  · rw [h.mam_of_ge (by omega) hlt] at hi
    cases Option.some.inj hi

theorem Holds.allocates (h : Holds m f blocks) : Allocates m where
  length_mam := h.length_mam
  entries i := by
    have hlength := h.length
    refine ⟨fun ⟨address, hi⟩ => ?_, fun hi => ⟨i, h.mam_of_lt (by omega)⟩⟩
    have := (h.entry hi).2
    omega
  live i address hi := by
    obtain ⟨rfl, hlt⟩ := h.entry hi
    refine ⟨blocks[i], ?_, h.even _ (List.getElem_mem hlt)⟩
    rw [h.heap, List.getElem?_map, List.getElem?_eq_getElem hlt]
    rfl
  distinct i j address hi hj := (h.entry hi).1.trans (h.entry hj).1.symm
  all address block hlive := by
    obtain ⟨hlt, -⟩ := List.getElem?_eq_some_iff.mp hlive
    rw [h.heap, List.length_map] at hlt
    exact ⟨address, h.mam_of_lt hlt⟩
  covers p hp := by
    have hlt : p / blockSize < blocks.length :=
      (Nat.div_lt_iff_lt_mul (by decide)).mpr (hp.trans_le (h.high.le.trans h.high_le))
    have := h.length
    omega

/-- Freeing the blocks in order. -/
theorem foldlM_freeBlock (freed : ℕ) (blocks : List (List UInt8)) :
    (List.range' freed blocks.length).foldlM freeBlock (List.replicate freed none ++ blocks.map some) =
      .ok (List.replicate (freed + blocks.length) none) := by
  induction blocks generalizing freed with
  | nil => rw [List.map_nil, List.append_nil]; rfl
  | cons block blocks ih =>
    have hentry : (List.replicate freed none ++ some block :: blocks.map some)[freed]? = some (some block) := by
      rw [List.getElem?_append_right (by simp), List.length_replicate, Nat.sub_self, List.getElem?_cons_zero]
    have hset : (List.replicate freed none ++ some block :: blocks.map some).set freed none =
        List.replicate (freed + 1) none ++ blocks.map some := by
      rw [List.set_append_right _ _ (by simp), List.length_replicate, Nat.sub_self, List.set_cons_zero,
        List.replicate_succ', List.append_assoc, List.singleton_append]
    rw [List.length_cons, List.range'_succ, List.foldlM_cons, List.map_cons, freeBlock, hentry]
    dsimp only [bind, Except.bind]
    rw [hset, ih (freed + 1)]
    congr 2
    omega

/-- **`memfs_killfs`** frees every allocated block once. -/
theorem Sound.freesAll (h : Sound m blocks) : FreesAll m := by
  have hsome : ((List.range blocks.length).map some).takeWhile Option.isSome =
      (List.range blocks.length).map some := List.takeWhile_eq_self_iff.mpr fun entry hentry => by
    obtain ⟨_, -, rfl⟩ := List.mem_map.mp hentry
    rfl
  have hrest : (List.replicate (m.mamSize - blocks.length) (none : Option ℕ)).takeWhile Option.isSome = [] := by
    cases m.mamSize - blocks.length <;> rfl
  have hbegin : (m.mam.take m.mamSize).takeWhile Option.isSome = (List.range blocks.length).map some := by
    rw [List.take_of_length_le h.length_mam.le, h.mam, List.takeWhile_append, hsome, hrest, if_pos rfl,
      List.append_nil]
  refine ⟨List.replicate blocks.length none, ?_, by rw [h.heap, List.length_replicate, List.length_map],
    fun entry hentry => List.eq_of_mem_replicate hentry⟩
  have hfree := foldlM_freeBlock 0 blocks
  rw [List.replicate_zero, List.nil_append, Nat.zero_add] at hfree
  have hreduce : ((List.range blocks.length).map some).reduceOption = List.range blocks.length := by
    rw [List.reduceOption, List.filterMap_map]
    exact List.filterMap_some
  rw [killfs, hbegin, hreduce, h.heap, List.range_eq_range', hfree]

/-- **A block file is a byte array**: after every run its blocks cover it, every read has answered with the
bytes last written, and `memfs_killfs` frees the blocks. -/
theorem run_isByteArray (junk : ℕ → Fin blockSize → UInt8) (cs : List Call) :
    ∃ answers m, run junk (initfs junk) cs = .ok (answers, m) ∧ File.start.AnswersAll cs answers ∧
      Allocates m ∧ FreesAll m := by
  obtain ⟨answers, m, f, blocks, hrun, hanswers, hholds⟩ := run_holds junk (initfs_holds junk) cs
  exact ⟨answers, m, hrun, hanswers, hholds.allocates, hholds.toSound.freesAll⟩

end Memfs

end Rasdaman
