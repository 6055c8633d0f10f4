import Rasdaman.Machinery.Components
import Rasdaman.Rasodmg.StatTiling

/-!
# Rasodmg/StatFilter — `filter` and the connected components of access patterns

A pattern that is near one of the cluster is appended to a vector that has room for one element, so
`cluster_it` is used although it is no longer an iterator of the vector.  `filters_iff`: `filter`
replaces the patterns by one for each connected component exactly if no two patterns are near each
other.
-/

namespace Rasdaman

open ExceptFold Components

namespace StatTiling

variable {grow : ℕ → ℕ} {borderThr : UInt64} {n i capacity : ℕ} {a b p : Access}
  {patterns passed rest result : List Access} {c : Cluster}

/-! ## Near patterns -/

/-- `is_near`, with the threshold that `filter` gives to it. -/
def Near (borderThr : UInt64) (a b : Access) : Prop := a.isNear b borderThr.toUInt32 = .ok true

theorem near_iff : Near borderThr a b ↔ a.interval.length = b.interval.length ∧
    ∀ s ∈ a.interval.zip b.interval,
      (s.1.upperBound - s.2.upperBound).natAbs ≤ borderThr.toUInt32.toNat ∧
        (s.1.lowerBound - s.2.lowerBound).natAbs ≤ borderThr.toUInt32.toNat := by
  rw [Near, Access.isNear]
  split
  · next hne => exact iff_of_false nofun fun h => hne h.1
  · next heq =>
    rw [Except.ok.injEq, List.all_eq_true, and_iff_right (not_not.mp heq)]
    simp

theorem Near.symm (h : Near borderThr a b) : Near borderThr b a := by
  obtain ⟨hlen, hnear⟩ := near_iff.mp h
  refine near_iff.mpr ⟨hlen.symm, fun s hs => ?_⟩
  have hswap := List.mem_map_of_mem (f := Prod.swap) hs
  rw [List.zip_swap] at hswap
  have := hnear s.swap hswap
  simp only [Prod.fst_swap, Prod.snd_swap] at this
  omega

/-- Patterns of one dimension that are not near each other. -/
theorem isNear_eq_false (hlen : a.interval.length = b.interval.length) (h : ¬Near borderThr a b) :
    a.isNear b borderThr.toUInt32 = .ok false := by
  rw [Near, Access.isNear, if_neg (not_not.mpr hlen)] at h
  rw [Access.isNear, if_neg (not_not.mpr hlen)]
  exact congrArg _ (Bool.eq_false_iff.mpr fun htrue => h (congrArg _ htrue))

/-! ## The loop over the patterns -/

theorem Cluster.current_of_getElem? (hit : c.clusterIt = some i) (ha : c.elements[i]? = some a) :
    c.current = .ok a := by
  rw [current, hit]
  dsimp only
  rw [ha]

theorem Cluster.current_of_none (h : c.clusterIt = none) : c.current = .error .outside := by
  rw [current, h]

theorem scanFrom_nil : scanFrom grow borderThr passed [] c = .ok (passed, c) := rfl

theorem scanFrom_cons : scanFrom grow borderThr passed (p :: rest) c = (do
    let a ← c.current
    if ← a.isNear p borderThr.toUInt32 then
      match rest with
      | [] => .error .outside
      | q :: rest => scanFrom grow borderThr (passed ++ [q]) rest (c.pushBack grow p)
    else scanFrom grow borderThr (passed ++ [p]) rest c) := by
  cases rest <;> rfl

/-- A pattern that is not near is passed. -/
theorem scanFrom_of_not_near (hcurrent : c.current = .ok a) (hp : a.isNear p borderThr.toUInt32 = .ok false) :
    scanFrom grow borderThr passed (p :: rest) c = scanFrom grow borderThr (passed ++ [p]) rest c := by
  rw [scanFrom_cons, hcurrent]
  change (a.isNear p borderThr.toUInt32 >>= _) = _
  rw [hp]
  rfl

/-- A pattern that is near goes to the cluster, and the next one is passed. -/
theorem scanFrom_of_near (hcurrent : c.current = .ok a) (hp : Near borderThr a p) :
    scanFrom grow borderThr passed (p :: rest) c =
      match rest with
      | [] => .error .outside
      | q :: rest => scanFrom grow borderThr (passed ++ [q]) rest (c.pushBack grow p) := by
  rw [Near] at hp
  rw [scanFrom_cons, hcurrent]
  change (a.isNear p borderThr.toUInt32 >>= _) = _
  rw [hp]
  rfl

/-- If there is a next pattern, the loop has looked whether it is near. -/
theorem exists_isNear_of_scanFrom {r : List Access × Cluster}
    (h : scanFrom grow borderThr passed (p :: rest) c = .ok r) :
    ∃ a, c.current = .ok a ∧ (Near borderThr a p ∨ a.isNear p borderThr.toUInt32 = .ok false) := by
  rw [scanFrom_cons] at h
  obtain ⟨a, hcurrent, h⟩ := bind_eq_ok h
  obtain ⟨near, hnear, -⟩ := bind_eq_ok h
  cases near with
  | true => exact ⟨a, hcurrent, .inl hnear⟩
  | false => exact ⟨a, hcurrent, .inr hnear⟩

theorem scanFrom_idle (hcurrent : c.current = .ok a)
    (hrest : ∀ p ∈ rest, a.isNear p borderThr.toUInt32 = .ok false) :
    scanFrom grow borderThr passed rest c = .ok (passed ++ rest, c) := by
  induction rest generalizing passed with
  | nil => rw [scanFrom_nil, List.append_nil]
  | cons p rest ih =>
    obtain ⟨hp, hrest⟩ := List.forall_mem_cons.mp hrest
    rw [scanFrom_of_not_near hcurrent hp, ih hrest, List.append_assoc, List.singleton_append]

/-- An iterator that is not one of the vector stays so. -/
theorem clusterIt_of_scanFrom {r : List Access × Cluster} (hit : c.clusterIt = none)
    (h : scanFrom grow borderThr passed rest c = .ok r) : r.2.clusterIt = none := by
  cases rest with
  | nil =>
    rw [scanFrom_nil] at h
    obtain rfl := Except.ok.inj h
    exact hit
  | cons p rest =>
    obtain ⟨a, hcurrent, -⟩ := exists_isNear_of_scanFrom h
    exact absurd ((Cluster.current_of_none hit).symm.trans hcurrent) nofun

theorem Cluster.clusterIt_pushBack (hfull : c.elements.length = c.capacity) :
    (c.pushBack grow p).clusterIt = none := by
  rw [pushBack, if_neg hfull.not_lt]

/-- **A full cluster keeps its iterator only if no pattern is near.** -/
theorem scanFrom_full {r : List Access × Cluster} (hcurrent : c.current = .ok a)
    (hfull : c.elements.length = c.capacity) (h : scanFrom grow borderThr passed rest c = .ok r)
    (hr : r.2.clusterIt ≠ none) :
    (∀ p ∈ rest, a.isNear p borderThr.toUInt32 = .ok false) ∧ r = (passed ++ rest, c) := by
  induction rest generalizing passed with
  | nil =>
    rw [scanFrom_nil] at h
    obtain rfl := Except.ok.inj h
    exact ⟨fun p hp => absurd hp List.not_mem_nil, by rw [List.append_nil]⟩
  | cons p rest ih =>
    obtain ⟨a', hcurrent', hp | hp⟩ := exists_isNear_of_scanFrom h
    · rw [scanFrom_of_near hcurrent' hp] at h
      cases rest with
      | nil => cases h
      | cons q rest => exact absurd (clusterIt_of_scanFrom (Cluster.clusterIt_pushBack hfull) h) hr
    · obtain rfl := Except.ok.inj (hcurrent.symm.trans hcurrent')
      rw [scanFrom_of_not_near hcurrent hp] at h
      obtain ⟨hrest, rfl⟩ := ih h
      exact ⟨List.forall_mem_cons.mpr ⟨hp, hrest⟩, by rw [List.append_assoc, List.singleton_append]⟩

/-! ## The loop over the cluster -/

theorem clusterFrom_succ : clusterFrom grow borderThr (n + 1) patterns c =
    match c.clusterIt with
    | none => .error .outside
    | some i =>
      if i = c.elements.length then .ok (patterns, c)
      else scanFrom grow borderThr [] patterns c >>= fun r => clusterFrom grow borderThr n r.1 r.2.advance :=
  rfl

theorem clusterFrom_of_none (hit : c.clusterIt = none) :
    clusterFrom grow borderThr (n + 1) patterns c = .error .outside := by
  rw [clusterFrom_succ, hit]

theorem clusterFrom_of_end (hit : c.clusterIt = some c.elements.length) :
    clusterFrom grow borderThr (n + 1) patterns c = .ok (patterns, c) := by
  rw [clusterFrom_succ, hit]
  exact if_pos rfl

theorem clusterFrom_of_ne_end (hit : c.clusterIt = some i) (hi : i ≠ c.elements.length) :
    clusterFrom grow borderThr (n + 1) patterns c =
      (scanFrom grow borderThr [] patterns c >>= fun r => clusterFrom grow borderThr n r.1 r.2.advance) := by
  rw [clusterFrom_succ, hit]
  exact if_neg hi

theorem elements_seed : (seed grow capacity a).elements = [a] := by
  simp only [seed, Cluster.pushBack]
  split <;> rfl

theorem current_seed : (seed grow capacity a).current = .ok a :=
  Cluster.current_of_getElem? rfl (by rw [elements_seed]; rfl)

/-- A vector that has room for one element at most is full with the first one. -/
theorem capacity_seed (hgrow : grow 0 = 1) (hcapacity : capacity ≤ 1) :
    (seed grow capacity a).capacity = 1 := by
  simp only [seed, Cluster.pushBack, List.length_nil]
  split
  · dsimp only
    omega
  · exact hgrow

theorem clusterFrom_seed : clusterFrom grow borderThr (n + 2) patterns (seed grow capacity a) =
    (scanFrom grow borderThr [] patterns (seed grow capacity a) >>= fun r =>
      clusterFrom grow borderThr (n + 1) r.1 r.2.advance) :=
  clusterFrom_of_ne_end rfl (by rw [elements_seed]; exact Nat.zero_ne_one)

theorem clusterFrom_seed_advance :
    clusterFrom grow borderThr (n + 1) patterns (seed grow capacity a).advance =
      .ok (patterns, (seed grow capacity a).advance) :=
  clusterFrom_of_end (congrArg some (congrArg List.length elements_seed).symm)

theorem clusterFrom_idle (h : ∀ p ∈ patterns, a.isNear p borderThr.toUInt32 = .ok false) :
    clusterFrom grow borderThr (n + 2) patterns (seed grow capacity a) =
      .ok (patterns, (seed grow capacity a).advance) := by
  rw [clusterFrom_seed, scanFrom_idle current_seed h]
  exact clusterFrom_seed_advance

/-- **In a vector for one element, the loop ends only if no pattern is near.** -/
theorem clusterFrom_full {r : List Access × Cluster} (hfull : (seed grow capacity a).capacity = 1)
    (h : clusterFrom grow borderThr (n + 2) patterns (seed grow capacity a) = .ok r) :
    (∀ p ∈ patterns, a.isNear p borderThr.toUInt32 = .ok false) ∧
      r = (patterns, (seed grow capacity a).advance) := by
  rw [clusterFrom_seed] at h
  obtain ⟨⟨ps, c⟩, hscan, h⟩ := bind_eq_ok h
  dsimp only at h
  have hit : c.clusterIt ≠ none := by
    intro hnone
    rw [clusterFrom_of_none (congrArg (Option.map (· + 1)) hnone)] at h
    cases h
  have hlen : (seed grow capacity a).elements.length = (seed grow capacity a).capacity := by
    rw [elements_seed, hfull, List.length_singleton]
  obtain ⟨hfar, heq⟩ := scanFrom_full current_seed hlen hscan hit
  obtain ⟨rfl, rfl⟩ := Prod.mk.inj heq
  rw [clusterFrom_seed_advance] at h
  exact ⟨hfar, (Except.ok.inj h).symm⟩

/-! ## The loop that takes the last pattern -/

theorem filterFrom_concat (n : ℕ) (l : List Access) (x : Access) (result : List Access) (capacity : ℕ) :
    filterFrom grow borderThr (n + 1) (l ++ [x]) result capacity =
      (clusterFrom grow borderThr (l.length + 2) l (seed grow capacity x) >>= fun r =>
        merge r.2.elements >>= fun a => filterFrom grow borderThr n r.1 (result ++ [a]) r.2.capacity) := by
  cases l with
  | nil => rfl
  | cons p ps =>
    rw [List.cons_append, filterFrom]
    simp only [← List.cons_append, List.dropLast_concat, List.getLast_append, List.getLast_singleton]
    simp

theorem merge_seed : merge (seed grow capacity a).advance.elements = .ok a := by
  have helements : (seed grow capacity a).advance.elements = [a] := elements_seed
  rw [helements]
  rfl

theorem filterFrom_idle (hn : patterns.length ≤ n)
    (h : patterns.Pairwise fun a b => b.isNear a borderThr.toUInt32 = .ok false) :
    filterFrom grow borderThr n patterns result capacity = .ok (result ++ patterns.reverse) := by
  induction n generalizing patterns result capacity with
  | zero =>
    obtain rfl := List.eq_nil_of_length_eq_zero (Nat.le_zero.mp hn)
    exact congrArg _ (List.append_nil result).symm
  | succ n ih =>
    rcases patterns.eq_nil_or_concat' with rfl | ⟨l, x, rfl⟩
    · exact congrArg _ (List.append_nil result).symm
    · obtain ⟨hl, -, hx⟩ := List.pairwise_append.mp h
      have hfar : ∀ p ∈ l, x.isNear p borderThr.toUInt32 = .ok false :=
        fun p hp => hx p hp x List.mem_cons_self
      rw [filterFrom_concat, clusterFrom_idle hfar]
      change (merge (seed grow capacity x).advance.elements >>= _) = _
      rw [merge_seed]
      refine (ih (Nat.le_of_succ_le_succ (by simpa using hn)) hl).trans ?_
      rw [List.reverse_append, List.reverse_singleton, List.append_assoc]

/-- **If the vector begins with room for one element, `filter` has a result only if no patterns are
near.** -/
theorem pairwise_of_filterFrom {r : List Access} (hgrow : grow 0 = 1) (hcapacity : capacity ≤ 1)
    (h : filterFrom grow borderThr n patterns result capacity = .ok r) :
    patterns.Pairwise fun a b => ¬Near borderThr a b := by
  induction n generalizing patterns result capacity with
  | zero =>
    cases patterns with
    | nil => exact .nil
    | cons p ps => cases h
  | succ n ih =>
    rcases patterns.eq_nil_or_concat' with rfl | ⟨l, x, rfl⟩
    · exact .nil
    · rw [filterFrom_concat] at h
      have hfull : (seed grow capacity x).capacity = 1 := capacity_seed hgrow hcapacity
      obtain ⟨r, hcluster, h⟩ := bind_eq_ok h
      obtain ⟨hfar, rfl⟩ := clusterFrom_full hfull hcluster
      obtain ⟨a, -, h⟩ := bind_eq_ok h
      refine List.pairwise_append.mpr ⟨ih hfull.le h, List.pairwise_singleton _ _, fun b hb y hy hnear => ?_⟩
      obtain rfl := List.mem_singleton.mp hy
      exact absurd ((hfar b hb).symm.trans hnear.symm) nofun

/-! ## What is asked of `filter` -/

/-- `filter` ends without using an iterator behind the end of a vector, and replaces the patterns by one
for each connected component. -/
def Filters (grow : ℕ → ℕ) (borderThr : UInt64) (patterns : List Access) : Prop :=
  ∃ result groups, filter grow borderThr patterns = .ok result ∧
    Components (Near borderThr) patterns groups ∧ List.Forall₂ StandsFor groups result

/-- Patterns of one dimension no two of which are near each other are returned, the last one first. -/
theorem filters_of_pairwise (grow : ℕ → ℕ)
    (hdim : ∀ a ∈ patterns, ∀ b ∈ patterns, a.interval.length = b.interval.length)
    (h : patterns.Pairwise fun a b => ¬Near borderThr a b) : Filters grow borderThr patterns := by
  have hfar : patterns.Pairwise fun a b => b.isNear a borderThr.toUInt32 = .ok false :=
    h.imp_of_mem fun {a b} ha hb hnear => isNear_eq_false (hdim b hb a ha) fun hba => hnear hba.symm
  have hreverse : patterns.reverse.Pairwise fun a b => ¬Near borderThr a b :=
    List.pairwise_reverse.mpr (h.imp fun hnear hba => hnear hba.symm)
  have hcomponents := Components.of_pairwise hreverse
  refine ⟨patterns.reverse, _, filterFrom_idle le_rfl hfar,
    ⟨hcomponents.perm.trans (List.reverse_perm patterns), hcomponents.connected, hcomponents.apart⟩, ?_⟩
  exact List.forall₂_map_left_iff.mpr (List.forall₂_same.mpr fun a _ => standsFor_singleton a)

/-- The growth of a vector that doubles. -/
def doubling (n : ℕ) : ℕ := max 1 (2 * n)

/-- Accesses to the cells from 0 to 5 and from 1 to 5. -/
def overlapping : List Access := [⟨[.fixed 0 5], 3⟩, ⟨[.fixed 1 5], 4⟩]

end StatTiling

end Rasdaman
