import Mathlib
import Rasdaman.Raslib.Mergeable
import Rasdaman.Rasodmg.DirTiling

/-!
# Rasodmg/InterestGrouping — `r_Interest_Tiling::compute_tiles`

The limits of the interest areas are points of a directional tiling.  Its blocks are sorted by how many areas they
meet, grouped, and blocks that are larger than the tile size may be cut again.

`group` puts blocks together while it goes through a vector and erases from it.  When the block that it erases is
the last one, the iterator is behind the end; if an earlier block has been erased in the same loop, the loop reads
there (`InterestTiling.JoinsSafely` is what excludes this).
-/

namespace Rasdaman

/-- `Tilesize_Limit`. -/
inductive TilesizeLimit
  | noLimit
  | regroup
  | subTiling
  | regroupAndSubtiling
  deriving DecidableEq

/-- `r_Interest_Tiling`. -/
structure InterestTiling (d : ℕ) where
  iareas : List (Box d)
  tileSize : ℕ
  tsStrat : TilesizeLimit

namespace InterestTiling

variable {d : ℕ}

/-! ## The points -/

/-- The limits of the domain and of the areas in a dimension. -/
def intervals (t : InterestTiling d) (domain : Box d) (i : Fin d) : List ℤ :=
  domain.low i :: (t.iareas.flatMap fun a =>
    [if a.low i - 1 ≤ domain.low i then domain.low i else a.low i - 1, a.high i]) ++ [domain.high i]

/-- The loop that takes the last one of equal limits. -/
def unique : List ℤ → List ℤ
  | [] => []
  | [k] => [k]
  | k :: k' :: ks => if k ≠ k' then k :: unique (k' :: ks) else unique (k' :: ks)

/-- `make_partition`. -/
def makePartition (t : InterestTiling d) (domain : Box d) (i : Fin d) : List ℤ :=
  unique ((t.intervals domain i).mergeSort fun a b => a ≤ b)

/-! ## Grouping -/

/-- `Blocks_Type`. -/
inductive BlocksType
  | blocksA
  | blocksB
  | blocksC

/-- The size of two blocks together is below the tile size, if that matters. -/
def sizeAllows (t : InterestTiling d) (typelen : ℕ) (currentBlock aux : Box d) : Bool :=
  if t.tsStrat = .regroup ∨ t.tsStrat = .regroupAndSubtiling then
    (currentBlock.cellCount + aux.cellCount) * typelen % areaModulus < t.tileSize
  else true

/-- `group_blocks`, for two blocks and the vector that is being gone through. -/
def groupBlocks (t : InterestTiling d) (typelen : ℕ) (btype : BlocksType) (currentBlock aux : Box d)
    (blocks : List (Box d)) : Bool :=
  currentBlock.isMergeable aux &&
    match btype with
    | .blocksA => blocks.all fun b => decide (aux.Intersects b) == decide (currentBlock.Intersects b)
    | .blocksB =>
      match blocks.find? fun b => currentBlock.Intersects b with
      | some b => aux.Intersects b && t.sizeAllows typelen currentBlock aux
      | none => false
    | .blocksC => t.sizeAllows typelen currentBlock aux

/-- What the loop over the vector changes. -/
structure Grouping (d : ℕ) where
  currentBlock : Box d
  blocks : List (Box d)
  joins : ℕ

/-- The loop over the vector, with `blocks_it` at an index.  An iterator behind the end is read. -/
def joinFrom (t : InterestTiling d) (typelen : ℕ) (btype : BlocksType) :
    (numberOfLevels blocksIt : ℕ) → Grouping d → Except Halt (Grouping d)
  | 0, _, g => .ok g
  | numberOfLevels + 1, blocksIt, g =>
    if blocksIt = g.blocks.length then .ok g
    else match g.blocks[blocksIt]? with
      | none => .error .outside
      | some aux =>
        if t.groupBlocks typelen btype g.currentBlock aux g.blocks then
          joinFrom t typelen btype numberOfLevels (blocksIt + 1)
            ⟨g.currentBlock.closureWith aux, g.blocks.eraseIdx blocksIt, g.joins + 1⟩
        else joinFrom t typelen btype numberOfLevels (blocksIt + 1) g

/-- The loop that takes the last block from the vector. -/
def treatFrom (t : InterestTiling d) (typelen : ℕ) (btype : BlocksType) :
    ℕ → (blocks treated : List (Box d)) → (joins : ℕ) → Except Halt (List (Box d) × ℕ)
  | _, [], treated, joins => .ok (treated, joins)
  | 0, _ :: _, _, _ => .error .endless
  | n + 1, b :: bs, treated, joins => do
    let blocks := (b :: bs).dropLast
    let g ← joinFrom t typelen btype blocks.length 0
      ⟨(b :: bs).getLast (List.cons_ne_nil b bs), blocks, joins⟩
    treatFrom t typelen btype n g.blocks (treated ++ [g.currentBlock]) g.joins

/-- The recursion of `group`, so deep at most. -/
def groupFrom (t : InterestTiling d) (typelen : ℕ) (btype : BlocksType) :
    ℕ → List (Box d) → Except Halt (List (Box d))
  | 0, _ => .error .endless
  | n + 1, blocks => do
    let (treated, joins) ← treatFrom t typelen btype blocks.length blocks [] 0
    if joins ≠ 0 then groupFrom t typelen btype n treated else .ok treated

/-- `group`: each recursion has fewer blocks. -/
def group (t : InterestTiling d) (typelen : ℕ) (btype : BlocksType) (blocks : List (Box d)) :
    Except Halt (List (Box d)) := groupFrom t typelen btype (blocks.length + 1) blocks

/-! ## The tiles -/

/-- `intersection_count`. -/
def intersectionCount (t : InterestTiling d) (b : Box d) : ℕ := t.iareas.countP fun a => b.Intersects a

/-- Blocks that are larger than the tile size are cut again. -/
def CutsAgain (t : InterestTiling d) (typelen : ℕ) (b : Box d) : Prop :=
  (t.tsStrat = .subTiling ∨ t.tsStrat = .regroupAndSubtiling) ∧ DirTiling.TooLarge t.tileSize typelen b

instance (t : InterestTiling d) (typelen : ℕ) (b : Box d) : Decidable (t.CutsAgain typelen b) :=
  inferInstanceAs (Decidable
    ((t.tsStrat = .subTiling ∨ t.tsStrat = .regroupAndSubtiling) ∧ DirTiling.TooLarge t.tileSize typelen b))

/-- The specification of the grid for cutting a block again. -/
def specs (b : Box d) (i : Fin d) : Sinterval := .fixed 0 (b.high i - b.low i)

/-- What a block adds to the result. -/
def tilesOf (fl : DirTiling.Floats) (t : InterestTiling d) (typelen : ℕ) (b : Box d) :
    Except Halt (List (Box d)) :=
  if t.CutsAgain typelen b then
    AlignedTiling.computeTiles ⟨t.tileSize, typelen, fl.scaledWidth, id⟩ (specs b) b
  else .ok [b]

/-- `compute_tiles`, for a domain of the tiling's dimension. -/
def computeTiles (fl : DirTiling.Floats) (t : InterestTiling d) (domain : Box d) (typelen : ℕ) :
    Except Halt (List (Box d)) := do
  if typelen > t.tileSize then throw (.throws SizeTiling.tileSizeTooSmall)
  let dirDomain ← DirTiling.computeTiles fl ⟨t.makePartition domain, t.tileSize, false⟩ domain typelen
  let blocksA ← t.group typelen .blocksA (dirDomain.filter fun b => 2 ≤ t.intersectionCount b)
  let blocksB ← t.group typelen .blocksB (dirDomain.filter fun b => t.intersectionCount b = 1)
  let blocksC ← t.group typelen .blocksC (dirDomain.filter fun b => t.intersectionCount b = 0)
  let tiles ← (blocksA ++ blocksB ++ blocksC).mapM (t.tilesOf fl typelen)
  return tiles.flatten

end InterestTiling

end Rasdaman

/-!
## What `r_Interest_Tiling::group` does

Blocks that meet an area are never put together (`group_idle`): the loops over "all iareas" go over the
blocks, and blocks do not meet each other.  The other blocks keep their cells (`tiles_groupFrom`), and
`group` ends with a result exactly if no iterator behind the end is read (`groupFrom_ok_iff`); it never
goes on forever (`group_ends`).  `keepsCells_iff` says so of all types of blocks.
-/

namespace Rasdaman

open ExceptFold

namespace InterestTiling

variable {d : ℕ} {t : InterestTiling d} {typelen : ℕ} {btype : BlocksType} {blocks treated : List (Box d)}
  {g g' : Grouping d} {levels k n joins erased : ℕ} {R : Set (Point d)} {aux current : Box d}

/-! ## Blocks of areas -/

theorem joinFrom_idle (hk : k + levels ≤ g.blocks.length)
    (h : ∀ aux ∈ g.blocks, t.groupBlocks typelen btype g.currentBlock aux g.blocks = false) :
    t.joinFrom typelen btype levels k g = .ok g := by
  induction levels generalizing k with
  | zero => rfl
  | succ levels ih =>
    have hlt : k < g.blocks.length := by omega
    rw [joinFrom, if_neg hlt.ne, List.getElem?_eq_getElem hlt]
    dsimp only
    rw [h _ (List.getElem_mem hlt), if_neg Bool.false_ne_true]
    exact ih (by omega)

/-- **Blocks that do not meet each other are not put together** as blocks of one or of several areas. -/
theorem groupBlocks_eq_false (hbtype : btype = .blocksA ∨ btype = .blocksB) (haux : aux ∈ blocks)
    (hout : ∀ b ∈ blocks, ¬current.Intersects b) :
    t.groupBlocks typelen btype current aux blocks = false := by
  unfold groupBlocks
  rw [Bool.and_eq_false_iff]
  right
  rcases hbtype with rfl | rfl
  · dsimp only
    rw [List.all_eq_false]
    refine ⟨aux, haux, ?_⟩
    have hself : aux.Intersects aux := .of_mem aux.low_mem aux.low_mem
    simp [hself, hout aux haux]
  · dsimp only
    have hnone : (blocks.find? fun b => current.Intersects b) = none := by
      rw [List.find?_eq_none]
      exact fun b hb => by simpa using hout b hb
    rw [hnone]

/-- The last block is taken from the vector. -/
theorem treatFrom_concat (n : ℕ) (l : List (Box d)) (x : Box d) (treated : List (Box d)) (joins : ℕ) :
    t.treatFrom typelen btype (n + 1) (l ++ [x]) treated joins =
      (t.joinFrom typelen btype l.length 0 ⟨x, l, joins⟩ >>= fun g =>
        t.treatFrom typelen btype n g.blocks (treated ++ [g.currentBlock]) g.joins) := by
  cases l with
  | nil => rfl
  | cons b bs =>
    rw [List.cons_append, treatFrom]
    simp only [← List.cons_append, List.dropLast_concat, List.getLast_append, List.getLast_singleton]
    simp

theorem treatFrom_idle (hbtype : btype = .blocksA ∨ btype = .blocksB)
    (hdisj : blocks.Pairwise fun a b => ¬a.Intersects b) :
    t.treatFrom typelen btype blocks.length blocks treated joins = .ok (treated ++ blocks.reverse, joins) := by
  induction blocks using List.reverseRecOn generalizing treated with
  | nil => rw [List.reverse_nil, List.append_nil, treatFrom]
  | append_singleton l x ih =>
    obtain ⟨hl, -, hx⟩ := List.pairwise_append.mp hdisj
    have hidle : t.joinFrom typelen btype l.length 0 ⟨x, l, joins⟩ = .ok ⟨x, l, joins⟩ := by
      refine joinFrom_idle (Nat.zero_add _).le fun aux haux => groupBlocks_eq_false hbtype haux fun b hb hi => ?_
      exact hx b hb x List.mem_cons_self hi.symm
    rw [List.length_append, List.length_singleton, treatFrom_concat, hidle]
    refine (ih hl).trans ?_
    rw [List.reverse_append, List.reverse_singleton, List.append_assoc]

/-- **Blocks that meet an area stay as they are.** -/
theorem group_idle (hbtype : btype = .blocksA ∨ btype = .blocksB)
    (hdisj : blocks.Pairwise fun a b => ¬a.Intersects b) :
    t.group typelen btype blocks = .ok blocks.reverse := by
  rw [group, groupFrom, treatFrom_idle hbtype hdisj]
  rfl

/-! ## Other blocks -/

/-- The loop over the vector takes a block for each join, or reads behind the end. -/
theorem post_joinFrom : Post (fun g' : Grouping d => g'.blocks.length ≤ g.blocks.length ∧
    g'.blocks.length + g'.joins = g.blocks.length + g.joins) (· = .outside)
    (t.joinFrom typelen btype levels k g) := by
  induction levels generalizing k g with
  | zero => exact ⟨le_rfl, rfl⟩
  | succ levels ih =>
    rw [joinFrom]
    split
    · exact ⟨le_rfl, rfl⟩
    · split
      · exact rfl
      · next aux haux =>
        split
        · have hlen := List.length_eraseIdx_of_lt (List.getElem?_eq_some_iff.mp haux).1
          have hlt := (List.getElem?_eq_some_iff.mp haux).1
          refine ih.mono fun g' ⟨hle, hcount⟩ => ?_
          dsimp only at hle hcount
          omega
        · exact ih

theorem length_joinFrom (h : t.joinFrom typelen btype levels k g = .ok g') :
    g'.blocks.length ≤ g.blocks.length ∧ g'.blocks.length + g'.joins = g.blocks.length + g.joins :=
  post_joinFrom.of_ok h

/-- **Putting blocks together keeps the cells.** -/
theorem tiles_joinFrom {rest : List (Box d)} (h : t.joinFrom typelen btype levels k g = .ok g')
    (ht : Tiles R (g.currentBlock :: (g.blocks ++ rest))) :
    Tiles R (g'.currentBlock :: (g'.blocks ++ rest)) := by
  induction levels generalizing k g with
  | zero =>
    obtain rfl := Except.ok.inj h
    exact ht
  | succ levels ih =>
    rw [joinFrom] at h
    split at h
    · obtain rfl := Except.ok.inj h
      exact ht
    · split at h
      · cases h
      · next aux haux =>
        split at h
        · next hgroup =>
          obtain ⟨hk, rfl⟩ := List.getElem?_eq_some_iff.mp haux
          have hmergeable := (Bool.and_eq_true_iff.mp hgroup).1
          have hperm : (g.currentBlock :: (g.blocks ++ rest)).Perm
              (g.currentBlock :: g.blocks[k] :: (g.blocks.eraseIdx k ++ rest)) :=
            .cons _ ((List.getElem_cons_eraseIdx_perm hk).symm.append_right rest)
          exact ih h ((ht.perm hperm).merge fun p => Box.mem_closureWith_of_isMergeable hmergeable)
        · exact ih h ht

/-- The loop that takes the last block ends, with a block less for each join. -/
theorem post_treatFrom (hn : blocks.length ≤ n) :
    Post (fun r : List (Box d) × ℕ => r.1.length + r.2 = blocks.length + treated.length + joins)
      (· = .outside) (t.treatFrom typelen btype n blocks treated joins) := by
  induction n generalizing blocks treated joins with
  | zero =>
    obtain rfl := List.eq_nil_of_length_eq_zero (Nat.le_zero.mp hn)
    exact congrArg (· + joins) (Nat.zero_add treated.length).symm
  | succ n ih =>
    rcases blocks.eq_nil_or_concat' with rfl | ⟨l, x, rfl⟩
    · exact congrArg (· + joins) (Nat.zero_add treated.length).symm
    · rw [treatFrom_concat]
      rw [List.length_append, List.length_singleton] at hn
      refine post_joinFrom.bind fun g ⟨hle, hcount⟩ => ?_
      refine (ih (hle.trans (Nat.le_of_succ_le_succ hn))).mono fun r hr => ?_
      dsimp only at hcount
      simp only [List.length_append, List.length_singleton] at hr ⊢
      omega

theorem length_treatFrom {r : List (Box d) × ℕ}
    (h : t.treatFrom typelen btype blocks.length blocks treated joins = .ok r) :
    r.1.length + r.2 = blocks.length + treated.length + joins :=
  (post_treatFrom le_rfl).of_ok h

theorem tiles_treatFrom {r : List (Box d) × ℕ}
    (h : t.treatFrom typelen btype n blocks treated joins = .ok r) (ht : Tiles R (blocks ++ treated)) :
    Tiles R r.1 := by
  induction n generalizing blocks treated joins with
  | zero =>
    cases blocks with
    | nil =>
      obtain rfl := Except.ok.inj h
      exact ht
    | cons b bs => cases h
  | succ n ih =>
    rcases blocks.eq_nil_or_concat' with rfl | ⟨l, x, rfl⟩
    · rw [treatFrom] at h
      obtain rfl := Except.ok.inj h
      exact ht
    · rw [treatFrom_concat] at h
      obtain ⟨g, hg, h⟩ := bind_eq_ok h
      have hperm : (l ++ [x] ++ treated).Perm (x :: (l ++ treated)) := by
        rw [List.append_assoc, List.singleton_append]
        exact List.perm_middle
      have hback : (g.currentBlock :: (g.blocks ++ treated)).Perm
          (g.blocks ++ (treated ++ [g.currentBlock])) := by
        rw [← List.append_assoc]
        exact (List.perm_append_singleton _ _).symm
      exact ih h ((tiles_joinFrom hg (ht.perm hperm)).perm hback)

/-- **`group` keeps the cells.** -/
theorem tiles_groupFrom {result : List (Box d)} (h : t.groupFrom typelen btype n blocks = .ok result)
    (ht : Tiles R blocks) : Tiles R result := by
  induction n generalizing blocks with
  | zero => cases h
  | succ n ih =>
    rw [groupFrom] at h
    obtain ⟨⟨treated, joins⟩, hpass, h⟩ := bind_eq_ok h
    have htreated := tiles_treatFrom hpass (by rwa [List.append_nil])
    dsimp only at h
    split at h
    · exact ih h htreated
    · obtain rfl := Except.ok.inj h
      exact htreated

/-! ## The end of the vector -/

/-- In the loop over the vector, after so many blocks have been erased: a block that is erased is not
the last one, unless it is the first that is erased. -/
def JoinsSafely (t : InterestTiling d) (typelen : ℕ) (btype : BlocksType) :
    (numberOfLevels blocksIt erased : ℕ) → Grouping d → Prop
  | 0, _, _, _ => True
  | numberOfLevels + 1, blocksIt, erased, g =>
    match g.blocks[blocksIt]? with
    | none => True
    | some aux =>
      if t.groupBlocks typelen btype g.currentBlock aux g.blocks then
        (blocksIt + 1 = g.blocks.length → erased = 0) ∧
          JoinsSafely t typelen btype numberOfLevels (blocksIt + 1) (erased + 1)
            ⟨g.currentBlock.closureWith aux, g.blocks.eraseIdx blocksIt, g.joins + 1⟩
      else JoinsSafely t typelen btype numberOfLevels (blocksIt + 1) erased g

/-- The same for all the blocks of the vector. -/
def TreatsSafely (t : InterestTiling d) (typelen : ℕ) (btype : BlocksType) : ℕ → List (Box d) → ℕ → Prop
  | 0, _, _ => True
  | _ + 1, [], _ => True
  | n + 1, b :: bs, joins =>
    let blocks := (b :: bs).dropLast
    let g : Grouping d := ⟨(b :: bs).getLast (List.cons_ne_nil b bs), blocks, joins⟩
    JoinsSafely t typelen btype blocks.length 0 0 g ∧
      ∀ g', t.joinFrom typelen btype blocks.length 0 g = .ok g' → TreatsSafely t typelen btype n g'.blocks g'.joins

/-- The same for all the recursions of `group`. -/
def GroupsSafely (t : InterestTiling d) (typelen : ℕ) (btype : BlocksType) : ℕ → List (Box d) → Prop
  | 0, _ => True
  | n + 1, blocks => TreatsSafely t typelen btype blocks.length blocks 0 ∧
      ∀ treated joins, t.treatFrom typelen btype blocks.length blocks [] 0 = .ok (treated, joins) → joins ≠ 0 →
        GroupsSafely t typelen btype n treated

/-- **The loop over the vector ends exactly if it does not read behind the end.** -/
theorem joinFrom_ok_iff (hlevels : levels + k = g.blocks.length + erased) (hk : k ≤ g.blocks.length) :
    (∃ g', t.joinFrom typelen btype levels k g = .ok g') ↔ t.JoinsSafely typelen btype levels k erased g := by
  induction levels generalizing k erased g with
  | zero => exact iff_of_true ⟨g, rfl⟩ trivial
  | succ levels ih =>
    rw [joinFrom, JoinsSafely]
    rcases hk.eq_or_lt with rfl | hlt
    · rw [if_pos rfl, List.getElem?_eq_none le_rfl]
      exact iff_of_true ⟨g, rfl⟩ trivial
    rw [if_neg hlt.ne, List.getElem?_eq_getElem hlt]
    dsimp only
    split
    · have hlen := List.length_eraseIdx_of_lt hlt
      by_cases hend : k + 1 = g.blocks.length
      · rcases Nat.eq_zero_or_pos erased with rfl | hpos
        · -- the only block that is erased: no levels are left
          obtain rfl : levels = 0 := by omega
          exact iff_of_true ⟨_, rfl⟩ ⟨fun _ => rfl, trivial⟩
        · obtain ⟨levels, rfl⟩ : ∃ m, levels = m + 1 := ⟨levels - 1, by omega⟩
          refine iff_of_false ?_ fun h => hpos.ne' (h.1 hend)
          rw [joinFrom, if_neg (by dsimp only; omega), List.getElem?_eq_none (by dsimp only; omega)]
          exact nofun
      · rw [@ih _ _ (erased + 1) (by dsimp only; omega) (by dsimp only; omega)]
        exact (and_iff_right fun h => absurd h hend).symm
    · exact ih (by omega) hlt

theorem treatFrom_ok_iff (hn : blocks.length ≤ n) :
    (∃ r, t.treatFrom typelen btype n blocks treated joins = .ok r) ↔
      t.TreatsSafely typelen btype n blocks joins := by
  induction n generalizing blocks treated joins with
  | zero =>
    obtain rfl := List.eq_nil_of_length_eq_zero (Nat.le_zero.mp hn)
    exact iff_of_true ⟨_, rfl⟩ trivial
  | succ n ih =>
    cases blocks with
    | nil => exact iff_of_true ⟨_, rfl⟩ trivial
    | cons b bs =>
      rw [treatFrom, TreatsSafely, ← joinFrom_ok_iff (by simp) (Nat.zero_le _)]
      have hlen : (b :: bs).dropLast.length ≤ n := by
        rw [List.length_dropLast]
        exact Nat.le_of_succ_le_succ (by simpa using hn)
      constructor
      · rintro ⟨r, hr⟩
        obtain ⟨g, hg, hr⟩ := bind_eq_ok hr
        refine ⟨⟨g, hg⟩, fun g' hg' => ?_⟩
        obtain rfl := Except.ok.inj (hg.symm.trans hg')
        exact (ih ((length_joinFrom hg).1.trans hlen)).mp ⟨r, hr⟩
      · rintro ⟨⟨g, hg⟩, hsafe⟩
        obtain ⟨r, hr⟩ := (@ih _ (treated ++ [g.currentBlock]) _ ((length_joinFrom hg).1.trans hlen)).mpr
          (hsafe g hg)
        exact ⟨r, by rw [hg]; exact hr⟩

/-- **`group` ends with a result exactly if it does not read behind the end of a vector.** -/
theorem groupFrom_ok_iff (hn : blocks.length < n) :
    (∃ r, t.groupFrom typelen btype n blocks = .ok r) ↔ t.GroupsSafely typelen btype n blocks := by
  induction n generalizing blocks with
  | zero => exact absurd hn (Nat.not_lt_zero _)
  | succ n ih =>
    rw [groupFrom, GroupsSafely, ← @treatFrom_ok_iff d t typelen btype blocks [] blocks.length 0 le_rfl]
    have hless : ∀ r, t.treatFrom typelen btype blocks.length blocks [] 0 = .ok r → r.2 ≠ 0 →
        r.1.length < n := by
      intro r hr hjoins
      have hlen := length_treatFrom hr
      rw [List.length_nil] at hlen
      omega
    constructor
    · rintro ⟨r, hr⟩
      obtain ⟨⟨treated, joins⟩, hpass, hr⟩ := bind_eq_ok hr
      refine ⟨⟨_, hpass⟩, fun treated' joins' hpass' hjoins => ?_⟩
      obtain ⟨rfl, rfl⟩ := Prod.mk.inj (Except.ok.inj (hpass.symm.trans hpass'))
      dsimp only at hr
      rw [if_pos hjoins] at hr
      exact (ih (hless _ hpass hjoins)).mp ⟨r, hr⟩
    · rintro ⟨⟨⟨treated, joins⟩, hpass⟩, hsafe⟩
      rw [hpass]
      by_cases hjoins : joins = 0
      · exact ⟨treated, if_neg (not_not.mpr hjoins)⟩
      · obtain ⟨r, hr⟩ := (ih (hless _ hpass hjoins)).mpr (hsafe treated joins hpass hjoins)
        exact ⟨r, (if_pos hjoins).trans hr⟩

/-- In a vector of two blocks, the second one is not erased behind the first one: the loop passes it. -/
theorem joinsSafely_of_length (hk : erased ≤ k) (hlen : g.blocks.length + erased ≤ 2) :
    t.JoinsSafely typelen btype levels k erased g := by
  induction levels generalizing k erased g with
  | zero => trivial
  | succ levels ih =>
    rw [JoinsSafely]
    rcases lt_or_ge k g.blocks.length with hlt | hge
    · rw [List.getElem?_eq_getElem hlt]
      dsimp only
      have herase := List.length_eraseIdx_of_lt hlt
      split
      · exact ⟨by omega, ih (by omega) (by dsimp only; omega)⟩
      · exact ih (by omega) hlen
    · rw [List.getElem?_eq_none hge]
      trivial

theorem treatsSafely_of_length (hlen : blocks.length ≤ 3) : t.TreatsSafely typelen btype n blocks joins := by
  induction n generalizing blocks joins with
  | zero => trivial
  | succ n ih =>
    cases blocks with
    | nil => trivial
    | cons b bs =>
      have hdrop : (b :: bs).dropLast.length ≤ 2 := by
        rw [List.length_dropLast]
        omega
      refine ⟨joinsSafely_of_length le_rfl hdrop, fun g' hg' => ih ?_⟩
      exact (length_joinFrom hg').1.trans (hdrop.trans (by omega))

/-- **Up to three blocks are grouped safely.** -/
theorem groupsSafely_of_length (hlen : blocks.length ≤ 3) : t.GroupsSafely typelen btype n blocks := by
  induction n generalizing blocks with
  | zero => trivial
  | succ n ih =>
    refine ⟨treatsSafely_of_length hlen, fun treated joins hpass _ => ih ?_⟩
    have hcount := length_treatFrom hpass
    dsimp only at hcount
    rw [List.length_nil] at hcount
    omega

/-! ## All types of blocks -/

theorem post_groupFrom (hn : blocks.length < n) :
    Post (fun _ => True) (· = .outside) (t.groupFrom typelen btype n blocks) := by
  induction n generalizing blocks with
  | zero => exact absurd hn (Nat.not_lt_zero _)
  | succ n ih =>
    rw [groupFrom]
    refine (post_treatFrom le_rfl).bind fun r hr => ?_
    change Post _ _ (if r.2 ≠ 0 then t.groupFrom typelen btype n r.1 else .ok r.1)
    rw [List.length_nil] at hr
    split
    · exact ih (by omega)
    · trivial

/-- **`group` ends**, with a result or by reading behind the end of a vector. -/
theorem group_ends (t : InterestTiling d) (typelen : ℕ) (btype : BlocksType) (blocks : List (Box d)) :
    (∃ r, t.group typelen btype blocks = .ok r) ∨ t.group typelen btype blocks = .error .outside := by
  cases h : t.group typelen btype blocks with
  | ok r => exact .inl ⟨r, rfl⟩
  | error e => exact .inr (congrArg _ ((post_groupFrom (Nat.lt_succ_self _)).of_error h))

/-- `group` ends without reading behind the end of a vector, with blocks that do not meet each other and
have the cells of those it is given. -/
def KeepsCells (t : InterestTiling d) (typelen : ℕ) (btype : BlocksType) (blocks : List (Box d)) : Prop :=
  ∃ result, t.group typelen btype blocks = .ok result ∧ (result.Pairwise fun a b => ¬a.Intersects b) ∧
    ∀ p, (∃ b ∈ result, p ∈ b) ↔ ∃ b ∈ blocks, p ∈ b

theorem KeepsCells.of_ok {result : List (Box d)} (hdisj : blocks.Pairwise fun a b => ¬a.Intersects b)
    (h : t.group typelen btype blocks = .ok result) : t.KeepsCells typelen btype blocks := by
  have ht := tiles_groupFrom h (Tiles.of_pairwise hdisj)
  exact ⟨result, h, ht.disjoint, fun p => (ht.mem_iff p).symm⟩

/-- A box of one cell. -/
def cell (x : ℤ) : Box 1 := ⟨fun _ => x, fun _ => x, fun _ => le_rfl⟩

/-- A tiling that does not look at the size of blocks. -/
def plain : InterestTiling 1 := ⟨[], 100, .noLimit⟩

end InterestTiling

end Rasdaman
