import Rasdaman.Machinery.Rounding
import Rasdaman.Indexmgr.SDirIndexLogic

/-!
# Indexmgr/SRPTIndexLogic — the R+-tree index

The functions of `SRPTIndexLogic` on `Tree d h`.  A tile is stored in every leaf whose domain it
meets, so a node's domain is never exceeded and the children of a node never overlap.

Two things differ in form from the source.  A node there finds its parent through a stored id; here
the walk up after a split is the return path of the recursion that went down to the leaf
(`splitUnder`).  The leaves waiting to be split are kept as pointers there, as ids here.
-/

namespace Rasdaman

open BinaryScan

/-- The nodes a split leaves to be split later, and the next unused object id. -/
structure Pending where
  leafNodes2Split : List OId
  next : OId

/-- The variables `axis` and `value` of `splitNodes`, which survive from one split to the next. -/
structure Cut where
  axis : ℕ
  value : ℤ

/-- The loop variables of `splitNodes`. -/
structure SplitState extends Pending where
  cut : Cut

/-- The variables of the loop of `splitNonLeaf`. -/
structure Repopulated (d h : ℕ) extends Pending where
  pd1 : Tree d (h + 1)
  pd2 : Tree d (h + 1)
  listMinKO1 : List (KeyObject d (Tree d h))
  listMinKO2 : List (KeyObject d (Tree d h))

/-- A whole index: its root once a tile has been inserted, and the next unused object id.  The root
of a fresh `DBHierIndex` has an open domain; it is `none` here. -/
structure Index (d : ℕ) where
  root : Option (Σ h, Tree d h)
  next : OId

/-- A freshly constructed index, whose root has the object id 0. -/
def Index.empty (d : ℕ) : Index d := ⟨none, 1⟩

namespace SRPTIndexLogic

variable {d : ℕ} {α : Type}

/-! ## Insertion -/

/-- `insertObject`: put the key into every leaf it meets; report the leaves that became overfull. -/
def insertObject (cap : Capacity) (newKeyObject : KeyObject d OId) :
    (h : ℕ) → Tree d h → List OId → Except RError (Tree d h × List OId)
  | 0, ix, leafNodes2Split =>
    let oldDom := ix.myDomain
    let ix' := (SDirIndexLogic.insertObject ix newKeyObject).setAssignedDomain oldDom
    .ok (ix', if ix'.isOverFull cap then leafNodes2Split ++ [ix'.myOId] else leafNodes2Split)
  | h + 1, ix, leafNodes2Split => do
    let intersectedNodes ← SDirIndexLogic.intersect ix newKeyObject.domain
    intersectedNodes.foldlM (fun s node => do
      let (child, leaves) ← insertObject cap newKeyObject h node.object s.2
      .ok (s.1.withChild child, leaves)) (ix, leafNodes2Split)

/-- Whether a low face of the old domain has to move, and the box touches it. -/
def extendLo (newDom oldCurrDom box : Box d) (i : Fin d) : Bool :=
  newDom.low i < oldCurrDom.low i && box.low i == oldCurrDom.low i

/-- Whether a high face of the old domain has to move, and the box touches it. -/
def extendHi (newDom oldCurrDom box : Box d) (i : Fin d) : Bool :=
  newDom.high i > oldCurrDom.high i && box.high i == oldCurrDom.high i

/-- The new domain of an entry: its faces on the faces of the old domain move out with them. -/
def extendEntry (newDom oldCurrDom entryDom : Box d) : Box d where
  low := fun i => if extendLo newDom oldCurrDom entryDom i then newDom.low i else entryDom.low i
  high := fun i => if extendHi newDom oldCurrDom entryDom i then newDom.high i else entryDom.high i
  low_le_high := fun i => by
    have := entryDom.low_le_high i
    simp only [extendLo, extendHi, Bool.and_eq_true, decide_eq_true_eq, beq_iff_eq]
    split_ifs <;> omega

/-- The flag `follow`: some face of the entry moved. -/
def follow (newDom oldCurrDom entryDom : Box d) : Bool :=
  (List.finRange d).any fun i => extendLo newDom oldCurrDom entryDom i ||
    extendHi newDom oldCurrDom entryDom i

/-- `extendFaces` below the root, and the part of it for a root that is no leaf.  `setObjectDomain`
gives an entry its new domain, the child the same, and extends the node's own. -/
def extendFaces (newDom oldCurrDom : Box d) : (h : ℕ) → Tree d h → Tree d h
  | 0, ix => ix
  | h + 1, ix =>
    { ix with
      myDomain := ix.myKeyObjects.foldl (fun dom e =>
        if follow newDom oldCurrDom e.domain then
          dom.closureWith (extendEntry newDom oldCurrDom e.domain)
        else dom) ix.myDomain
      myKeyObjects := ix.myKeyObjects.map fun e =>
        if follow newDom oldCurrDom e.domain then
          let entryDom := extendEntry newDom oldCurrDom e.domain
          ⟨(extendFaces newDom oldCurrDom h e.object).setAssignedDomain entryDom, entryDom⟩
        else e }

/-- `extendFaces` at the root. -/
def extendRoot (newDom oldCurrDom : Box d) : (h : ℕ) → Tree d h → Tree d h
  | 0, ix => ix.setAssignedDomain (oldCurrDom.closureWith newDom)
  | h + 1, ix => extendFaces newDom oldCurrDom (h + 1) ix

/-! ## Where to split -/

/-- One step of single precision arithmetic. -/
def float (x : ℚ) : ℚ := Rounding.roundTo 24 x

/-- One step of double precision arithmetic. -/
def double (x : ℚ) : ℚ := Rounding.roundTo 53 x

/-- `calculateDistribution`: the share of the entries that falls into either part. -/
def calculateDistribution (axis : Fin d) (value : ℤ) (node : HierIndex d α) : ℚ × ℚ :=
  let dist := node.myKeyObjects.foldl (fun (dist : ℚ × ℚ) e =>
    if e.domain.high axis < value then (float (dist.1 + 1), dist.2)
    else if e.domain.low axis ≥ value then (dist.1, float (dist.2 + 1))
    else (float (dist.1 + 1), float (dist.2 + 1))) (0, 0)
  let n := float node.getSize
  (float (dist.1 / n), float (dist.2 / n))

/-- `fabs`. -/
def fabs (x : ℚ) : ℚ := if x < 0 then -x else x

/-- `distBal`: how far a distribution is from half and half. -/
def distBal (dist : ℚ × ℚ) : ℚ :=
  double (fabs (double (dist.1 - 1 / 2)) + fabs (double (dist.2 - 1 / 2)))

/-- `calculatePartition`: the low bound of an entry that splits the entries most evenly.  If no
choice is better than the worst balance, `cut` stays as it was. -/
def calculatePartition (cut : Cut) (node : HierIndex d α) : Cut :=
  let best := (List.finRange d).foldl (fun best a =>
    node.myKeyObjects.foldl (fun (best : ℚ × Cut) e =>
      let v := e.domain.low a
      let bal := distBal (calculateDistribution a v node)
      if bal < best.1 then (bal, ⟨a, v⟩) else best) best) (1, cut)
  best.2

/-! ## Splitting -/

/-- The two parts of a domain: `nd1[axis].set_high(value - 1)`, `nd2[axis].set_low(value)`. -/
def splitDomain (domain : Box d) (cut : Cut) : Except RError (Box d × Box d) :=
  if h : cut.axis < d then do
    let nd1 ← domain.setHigh ⟨cut.axis, h⟩ (cut.value - 1)
    let nd2 ← domain.setLow ⟨cut.axis, h⟩ cut.value
    .ok (nd1, nd2)
  else .error .indexViolation

/-- The loop of `splitLeaf`, for one of the two nodes it populates. -/
def populate (nd : Box d) (keyvec : List (KeyObject d OId)) (pd : Tree d 0) : Tree d 0 :=
  keyvec.foldl (fun pd obj =>
    if nd.Intersects obj.domain then SDirIndexLogic.insertObject pd obj else pd) pd

/-- `splitLeaf`. -/
def splitLeaf (pd1 pd2 : Tree d 0) (keyvec : List (KeyObject d OId)) (cut : Cut) (domain : Box d) :
    Except RError (Tree d 0 × Tree d 0) := do
  let (nd1, nd2) ← splitDomain domain cut
  .ok ((populate nd1 keyvec pd1).setAssignedDomain nd1,
    (populate nd2 keyvec pd2).setAssignedDomain nd2)

/-- The first half of a split entry goes to `pd1`; an overfull leaf is noted.  `isUnderFull` is
always false, so a node waits in `listMinKO1`. -/
def addFirst {h : ℕ} (cap : Capacity) (s : Repopulated d h) (n11 : Tree d h) : Repopulated d h :=
  if h = 0 then
    { s with
      pd1 := SDirIndexLogic.insertObject s.pd1 n11.toKey
      leafNodes2Split :=
        if n11.isOverFull cap then s.leafNodes2Split ++ [n11.myOId] else s.leafNodes2Split }
  else { s with listMinKO1 := s.listMinKO1 ++ [n11.toKey] }

/-- The second half of a split entry goes to `pd2`. -/
def addSecond {h : ℕ} (cap : Capacity) (s : Repopulated d h) (entry : Tree d h) : Repopulated d h :=
  if h = 0 then
    { s with
      pd2 := SDirIndexLogic.insertObject s.pd2 entry.toKey
      leafNodes2Split :=
        if entry.isOverFull cap then s.leafNodes2Split ++ [entry.myOId] else s.leafNodes2Split }
  else { s with listMinKO2 := s.listMinKO2 ++ [entry.toKey] }

/-- How `splitNonLeaf` splits an entry that crosses the cut: a fresh node for the first half, the
entry itself, emptied, for the second. -/
abbrev EntrySplit (d h : ℕ) :=
  Tree d h → Box d → Pending → Except RError ((Tree d h × Tree d h) × Pending)

/-- One round of the loop of `splitNonLeaf`. -/
def repopulate {h : ℕ} (cap : Capacity) (splitEntry : EntrySplit d h) (nd1 nd2 : Box d)
    (s : Repopulated d h) (tempKey : KeyObject d (Tree d h)) : Except RError (Repopulated d h) :=
  if nd1.Covers tempKey.domain then
    .ok { s with pd1 := SDirIndexLogic.insertObject s.pd1 tempKey }
  else if nd2.Covers tempKey.domain then
    .ok { s with pd2 := SDirIndexLogic.insertObject s.pd2 tempKey }
  else do
    let ((n11, entry), pending) ← splitEntry tempKey.object tempKey.domain s.toPending
    .ok (addSecond cap (addFirst cap { s with toPending := pending } n11) entry)

/-- `redistributeEntries`. -/
def redistributeEntries (node : HierIndex d α) (listMinKO : List (KeyObject d α)) : HierIndex d α :=
  listMinKO.foldl SDirIndexLogic.insertObject node

/-- `splitNonLeaf`, given how to split an entry. -/
def splitNonLeafWith {h : ℕ} (cap : Capacity) (splitEntry : EntrySplit d h) (pd1 pd2 : Tree d (h + 1))
    (keyvec : List (KeyObject d (Tree d h))) (cut : Cut) (domain : Box d) (pending : Pending) :
    Except RError ((Tree d (h + 1) × Tree d (h + 1)) × Pending) := do
  let (nd1, nd2) ← splitDomain domain cut
  let s ← keyvec.foldlM (repopulate cap splitEntry nd1 nd2) ⟨pending, pd1, pd2, [], []⟩
  .ok (((redistributeEntries s.pd1 s.listMinKO1).setAssignedDomain nd1,
    (redistributeEntries s.pd2 s.listMinKO2).setAssignedDomain nd2), s.toPending)

/-- The branch of `splitNonLeaf` for an entry that crosses the cut.  A leaf that waited to be split
waits no longer. -/
def splitEntry (cap : Capacity) (cut : Cut) : (h : ℕ) → EntrySplit d h
  | 0, entry, leafDomain, p => do
    let halves ← splitLeaf (.newInstance p.next leafDomain) entry.clear entry.myKeyObjects cut leafDomain
    .ok (halves, ⟨p.leafNodes2Split.filter (· ≠ entry.myOId), p.next + 1⟩)
  | h + 1, entry, nodeDomain, p =>
    splitNonLeafWith cap (splitEntry cap cut h) (.newInstance p.next nodeDomain) entry.clear
      entry.myKeyObjects cut nodeDomain { p with next := p.next + 1 }

/-- `splitNonLeaf`. -/
def splitNonLeaf {h : ℕ} (cap : Capacity) (pd1 pd2 : Tree d (h + 1))
    (keyvec : List (KeyObject d (Tree d h))) (cut : Cut) (domain : Box d) (pending : Pending) :
    Except RError ((Tree d (h + 1) × Tree d (h + 1)) × Pending) :=
  splitNonLeafWith cap (splitEntry cap cut h) pd1 pd2 keyvec cut domain pending

/-- The parent after one of its children was split in two. -/
def insertHalves (parent : HierIndex d (HierIndex d α)) (n1 n2 : HierIndex d α) :
    HierIndex d (HierIndex d α) :=
  SDirIndexLogic.insertObject (SDirIndexLogic.insertObject parent n1.toKey) n2.toKey

/-- Whether a leaf is in an index. -/
def containsLeaf (leaf : OId) : (h : ℕ) → Tree d h → Bool
  | 0, ix => ix.myOId == leaf
  | h + 1, ix => ix.myKeyObjects.any fun e => containsLeaf leaf h e.object

/-- One round of `splitNodes` below the root: split the leaf, then every overfull node on the way
up to `parentIxDS`, whose own overflow is left to the caller. -/
def splitUnder (cap : Capacity) (leaf : OId) :
    (h : ℕ) → Tree d (h + 1) → SplitState → Except RError (Tree d (h + 1) × SplitState)
  | 0, parentIxDS, s =>
    match parentIxDS.myKeyObjects.find? fun e => containsLeaf leaf 0 e.object with
    | none => .error .indexNotFoundInParent
    | some e => do
      let cut := calculatePartition s.cut e.object
      let (n1, n2) ← splitLeaf (.newInstance s.next e.domain) e.object.clear e.object.myKeyObjects
        cut e.domain
      .ok (insertHalves (parentIxDS.removeChild n2.myOId) n1 n2,
        ⟨⟨s.leafNodes2Split, s.next + 1⟩, cut⟩)
  | h + 1, parentIxDS, s =>
    match parentIxDS.myKeyObjects.find? fun e => containsLeaf leaf (h + 1) e.object with
    | none => .error .indexNotFoundInParent
    | some e => do
      let (child, s) ← splitUnder cap leaf h e.object s
      if child.isOverFull cap then do
        let cut := calculatePartition s.cut child
        let ((nln1, nln2), p) ← splitNonLeaf cap (.newInstance s.next child.myDomain) child.clear
          child.myKeyObjects cut child.myDomain ⟨s.leafNodes2Split, s.next + 1⟩
        .ok (insertHalves (parentIxDS.removeChild nln2.myOId) nln1 nln2, ⟨p, cut⟩)
      else .ok (parentIxDS.withChild child, s)

/-- A root that was split: the old root, emptied, becomes the parent of two fresh nodes. -/
def newRoot (root : HierIndex d α) (n1 n2 : HierIndex d α) : HierIndex d (HierIndex d α) :=
  insertHalves ⟨root.myOId, root.myDomain, []⟩ n1 n2

/-- One round of `splitNodes`. -/
def splitNode (cap : Capacity) (leaf : OId) :
    (Σ h, Tree d h) → SplitState → Except RError ((Σ h, Tree d h) × SplitState)
  | ⟨0, root⟩, s => do
    let cut := calculatePartition s.cut root
    let (n1, n2) ← splitLeaf (.newInstance s.next root.myDomain)
      (.newInstance (s.next + 1) root.myDomain) root.myKeyObjects cut root.myDomain
    .ok (⟨1, newRoot root n1 n2⟩, ⟨⟨s.leafNodes2Split, s.next + 2⟩, cut⟩)
  | ⟨h + 1, root⟩, s => do
    let (root, s) ← splitUnder cap leaf h root s
    if root.isOverFull cap then do
      let cut := calculatePartition s.cut root
      let ((nln1, nln2), p) ← splitNonLeaf cap (.newInstance s.next root.myDomain)
        (.newInstance (s.next + 1) root.myDomain) root.myKeyObjects cut root.myDomain
        ⟨s.leafNodes2Split, s.next + 2⟩
      .ok (⟨h + 2, newRoot root nln1 nln2⟩, ⟨p, cut⟩)
    else .ok (⟨h + 1, root⟩, s)

/-- `splitNodes`, for at most `fuel` rounds; `none` if more are needed. -/
def splitNodes (cap : Capacity) :
    ℕ → (Σ h, Tree d h) → SplitState → Option (Except RError ((Σ h, Tree d h) × SplitState))
  | 0, _, _ => none
  | fuel + 1, root, s =>
    match s.leafNodes2Split with
    | [] => some (.ok (root, s))
    | leaf :: leaves =>
      match splitNode cap leaf root { s with leafNodes2Split := leaves } with
      | .error e => some (.error e)
      | .ok (root, s) => splitNodes cap fuel root s

/-- Whether a new tile reaches beyond the covered domain. -/
def extend (newDom cd : Box d) : Bool :=
  (List.finRange d).any fun i => decide (newDom.low i < cd.low i) || decide (newDom.high i > cd.high i)

/-- The first half of `insertObject2`: make room for the new tile's domain. -/
def prepare (newDom : Box d) : Option (Σ h, Tree d h) → Σ h, Tree d h
  | none => ⟨0, ⟨0, newDom, []⟩⟩
  | some ⟨h, ix⟩ =>
    if ix.getSize = 0 then ⟨h, ix.setAssignedDomain newDom⟩
    else if extend newDom ix.myDomain then ⟨h, extendRoot newDom ix.myDomain h ix⟩
    else ⟨h, ix⟩

/-- `insertObject2`; `none` if `fuel` rounds of splitting are not enough. -/
def insertObject2 (cap : Capacity) (fuel : ℕ) (ixDS : Index d) (newKeyObject : KeyObject d OId) :
    Option (Except RError (Index d)) :=
  let room := prepare newKeyObject.domain ixDS.root
  match insertObject cap newKeyObject room.1 room.2 [] with
  | .error e => some (.error e)
  | .ok (root, leafNodes2Split) =>
    (splitNodes cap fuel ⟨room.1, root⟩ ⟨⟨leafNodes2Split, ixDS.next⟩, ⟨0, 0⟩⟩).map fun r =>
      r.map fun (root, s) => ⟨some root, s.next⟩

/-! ## Removal -/

/-- `removeObject`, with the flag that says whether the object was found. -/
def removeObject (objToRemove : KeyObject d OId) : (h : ℕ) → Tree d h → Tree d h × Bool
  | 0, ixDS =>
    if ixDS.myDomain.Intersects objToRemove.domain then
      (ixDS.removeTile objToRemove.object, ixDS.myKeyObjects.any (·.object == objToRemove.object))
    else (ixDS, false)
  | h + 1, ixDS =>
    if ixDS.myDomain.Intersects objToRemove.domain then
      (SDirIndexLogic.intersectUnOpt ixDS objToRemove.domain).foldl (fun s it =>
        let (child, found) := removeObject objToRemove h it.object
        (s.1.withChild child, s.2 || found)) (ixDS, false)
    else (ixDS, false)

/-- `removeObject` on a whole index. -/
def removeObject2 (ixDS : Index d) (objToRemove : KeyObject d OId) : Index d × Bool :=
  match ixDS.root with
  | none => (ixDS, false)
  | some ⟨h, root⟩ =>
    let (root, found) := removeObject objToRemove h root
    ({ ixDS with root := some ⟨h, root⟩ }, found)

/-! ## Search -/

/-- `intersectNoDuplicates`: the entry meets the search box, and along no axis does it begin below
the parent's domain while the search box does so too. -/
def intersectNoDuplicates (searchInter entryDomain parentEntryDomain : Box d) : Bool :=
  (List.finRange d).all fun i =>
    !(decide (entryDomain.low i > searchInter.high i)) &&
    !(decide (entryDomain.high i < searchInter.low i)) &&
    !(decide (entryDomain.low i < parentEntryDomain.low i) &&
      decide (searchInter.low i < parentEntryDomain.low i))

/-- One round of the loop of `binaryRegionSearch`. -/
def visit (mint parentEntryDomain : Box d) (e : KeyObject d α) (s : Found d α) :
    Except RError (Found d α × Bool) :=
  if intersectNoDuplicates mint e.domain parentEntryDomain then do
    let region ← e.domain.createIntersection mint
    let intersectedRegion ← region.createIntersection parentEntryDomain
    let area := areaSub s.1 intersectedRegion.cellCount
    if area > s.1 then .error .indexExhaustedArea
    else .ok ((area, s.2 ++ [e]), decide (area = 0))
  else .ok (s, false)

/-- `binaryRegionSearch` over a segment of key objects. -/
def binaryRegionSearch (mint parentEntryDomain : Box d) (es : List (KeyObject d α)) (s : Found d α) :
    Except RError (Found d α) :=
  binaryScan (SDirIndexLogic.past mint) (SDirIndexLogic.short mint) (visit mint parentEntryDomain)
    (fun s => s.1 == 0) (fun s => 0 < s.1) es.length es s

/-- `intersect`. -/
def intersect (searchInter : Box d) :
    (h : ℕ) → Tree d h → Box d → Found d OId → Except RError (Found d OId)
  | 0, ix, parentEntryDomain, s =>
    if hi : searchInter.Intersects ix.myDomain then
      if (searchInter.inter ix.myDomain hi).Intersects parentEntryDomain then
        binaryRegionSearch searchInter ix.myDomain ix.myKeyObjects s
      else .ok s
    else .ok s
  | h + 1, ix, _, s =>
    if searchInter.Intersects ix.myDomain then do
      let (nodeArea, intersectedNodes) ←
        binaryRegionSearch searchInter ix.myDomain ix.myKeyObjects (s.1, [])
      intersectedNodes.foldlM (fun s' node =>
        if nodeArea > s.1 then .error .indexExhaustedArea
        else intersect searchInter h node.object node.domain s') s
    else .ok s

/-- `intersect2`. -/
def intersect2 (ixDS : Index d) (searchInter : Box d) : Except RError (List (KeyObject d OId)) :=
  match ixDS.root with
  | none => .ok []
  | some ⟨h, ix⟩ =>
    if hi : searchInter.Intersects ix.myDomain then do
      let searchDom := searchInter.inter ix.myDomain hi
      let (_, found) ← intersect searchDom h ix ix.myDomain (searchDom.cellCount, [])
      .ok found
    else .ok []

/-- `getObjects`. -/
def getObjects (ixDS : Index d) : Except RError (List (KeyObject d OId)) :=
  match ixDS.root with
  | none => .ok []
  | some ⟨_, ix⟩ => intersect2 ixDS ix.myDomain

/-- `containPointQuery`. -/
def containPointQuery (searchPoint : Point d) : (h : ℕ) → Tree d h → Option (KeyObject d OId)
  | 0, ix => SDirIndexLogic.containPointQuery ix searchPoint
  | h + 1, ix => do
    let lowerNode ← SDirIndexLogic.containPointQuery ix searchPoint
    containPointQuery searchPoint h lowerNode.object

/-- `containPointQuery2`. -/
def containPointQuery2 (ixDS : Index d) (searchPoint : Point d) : Option (KeyObject d OId) :=
  match ixDS.root with
  | none => none
  | some ⟨h, ix⟩ => containPointQuery searchPoint h ix

end SRPTIndexLogic

end Rasdaman
