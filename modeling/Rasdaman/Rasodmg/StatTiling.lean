import Mathlib.Algebra.BigOperators.Group.List.Basic
import Rasdaman.Raslib.MintervalOps

/-!
# Rasodmg/StatTiling — `r_Access` and `r_Stat_Tiling::filter`

An access pattern is a domain with the number of accesses to it.  `filter` takes the last pattern for a
cluster, adds the patterns that are near one of the cluster, and merges the cluster.  It goes through
the cluster while it appends to it, and through the patterns while it erases from them: `push_back` into
a full vector moves the elements, so that `cluster_it` is no longer an iterator of the vector, and
`erase` leaves `pattern_it` at the next pattern, which the loop then passes.
-/

namespace Rasdaman

namespace StatTiling

/-- `r_Access`. -/
structure Access where
  interval : Minterval
  times : UInt32
  deriving DecidableEq

namespace Access

/-- `is_near`.  The loop leaves at the first limit that is too far away. -/
def isNear (a other : Access) (borderThreshold : UInt32) : Except Halt Bool :=
  if a.interval.length ≠ other.interval.length then .error (.throws .dimMismatch)
  else .ok ((a.interval.zip other.interval).all fun s =>
    !((s.1.upperBound - s.2.upperBound).natAbs > borderThreshold.toNat) &&
      !((s.1.lowerBound - s.2.lowerBound).natAbs > borderThreshold.toNat))

/-- `merge_with`. -/
def mergeWith (a other : Access) : Except Halt Access :=
  if a.interval.length ≠ other.interval.length then .error (.throws .dimMismatch)
  else match a.interval.closureWith other.interval with
    | .error e => .error (.throws e)
    | .ok interval => .ok ⟨interval, a.times + other.times⟩

end Access

/-- `merge`. -/
def merge : List Access → Except Halt Access
  | [] => .error .outside
  | a :: as => as.foldlM Access.mergeWith a

/-! ## The cluster -/

/-- The vector `cluster`, the number of elements it has room for, and where `cluster_it` is, if it is an
iterator of the vector. -/
structure Cluster where
  elements : List Access
  capacity : ℕ
  clusterIt : Option ℕ

namespace Cluster

/-- `*cluster_it`. -/
def current (c : Cluster) : Except Halt Access :=
  match c.clusterIt with
  | none => .error .outside
  | some i =>
    match c.elements[i]? with
    | none => .error .outside
    | some a => .ok a

/-- `push_back`.  A full vector with so many elements gets room for `grow` of them, elsewhere. -/
def pushBack (grow : ℕ → ℕ) (c : Cluster) (a : Access) : Cluster :=
  if c.elements.length < c.capacity then { c with elements := c.elements ++ [a] }
  else ⟨c.elements ++ [a], grow c.elements.length, none⟩

/-- `cluster_it++`. -/
def advance (c : Cluster) : Cluster := { c with clusterIt := c.clusterIt.map (· + 1) }

end Cluster

/-! ## The loops -/

/-- The loop over the patterns, with `pattern_it` between those it has passed and the others: the
patterns and the cluster behind the loop. -/
def scanFrom (grow : ℕ → ℕ) (borderThr : UInt64) :
    (passed rest : List Access) → Cluster → Except Halt (List Access × Cluster)
  | passed, [], c => .ok (passed, c)
  | passed, p :: rest, c => do
    let a ← c.current
    if ← a.isNear p borderThr.toUInt32 then
      match rest with
      | [] => .error .outside
      | q :: rest => scanFrom grow borderThr (passed ++ [q]) rest (c.pushBack grow p)
    else scanFrom grow borderThr (passed ++ [p]) rest c

/-- The loop over the cluster.  An iterator that is not one of the vector is compared with
`cluster.end()`. -/
def clusterFrom (grow : ℕ → ℕ) (borderThr : UInt64) :
    ℕ → (patterns : List Access) → Cluster → Except Halt (List Access × Cluster)
  | 0, _, _ => .error .endless
  | n + 1, patterns, c =>
    match c.clusterIt with
    | none => .error .outside
    | some i =>
      if i = c.elements.length then .ok (patterns, c)
      else do
        let (patterns, c) ← scanFrom grow borderThr [] patterns c
        clusterFrom grow borderThr n patterns c.advance

/-- The cluster of one pattern, in a vector that has been cleared, with `cluster_it` at its begin. -/
def seed (grow : ℕ → ℕ) (capacity : ℕ) (a : Access) : Cluster :=
  { Cluster.pushBack grow ⟨[], capacity, none⟩ a with clusterIt := some 0 }

/-- The loop that takes the last pattern. -/
def filterFrom (grow : ℕ → ℕ) (borderThr : UInt64) :
    ℕ → (patterns result : List Access) → (capacity : ℕ) → Except Halt (List Access)
  | _, [], result, _ => .ok result
  | 0, _ :: _, _, _ => .error .endless
  | n + 1, p :: ps, result, capacity => do
    let (patterns, cluster) ← clusterFrom grow borderThr (ps.length + 2) (p :: ps).dropLast
      (seed grow capacity ((p :: ps).getLast (List.cons_ne_nil p ps)))
    let a ← merge cluster.elements
    filterFrom grow borderThr n patterns (result ++ [a]) cluster.capacity

/-- `filter`: each round has fewer patterns. -/
def filter (grow : ℕ → ℕ) (borderThr : UInt64) (patterns : List Access) : Except Halt (List Access) :=
  filterFrom grow borderThr patterns.length patterns [] 0

end StatTiling

end Rasdaman

/-!
## What `merge` makes of a cluster

A pattern stands for a cluster if its domain is the closure of the domains and its count the sum of the
counts (`StandsFor`).
-/

namespace Rasdaman

namespace StatTiling

variable {a : Access}

/-- A pattern stands for a cluster: its domain is the least one that covers those of the cluster, and
its count is the sum of theirs. -/
structure StandsFor (g : List Access) (a : Access) : Prop where
  covers : ∀ m ∈ g, a.interval.covers m.interval = true
  least : ∀ domain : Minterval, (∀ m ∈ g, domain.covers m.interval = true) → domain.covers a.interval = true
  times : a.times.toNat = (g.map fun m => m.times.toNat).sum

theorem covers_refl (m : Minterval) : m.covers m = true := by
  rw [Minterval.covers, beq_self_eq_true, Bool.true_and, List.all_eq_true]
  intro s hs
  have hsame : s.1 = s.2 := by
    obtain ⟨i, hi, rfl⟩ := List.mem_iff_getElem.mp hs
    rw [List.getElem_zip]
  rw [hsame]
  simp

theorem standsFor_singleton (a : Access) : StandsFor [a] a where
  covers := List.forall_mem_singleton.mpr (covers_refl a.interval)
  least _ h := h a List.mem_cons_self
  times := by rw [List.map_singleton, List.sum_singleton]

end StatTiling

end Rasdaman
