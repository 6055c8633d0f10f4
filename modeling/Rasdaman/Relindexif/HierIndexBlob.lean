import Rasdaman.Machinery.Bytes
import Rasdaman.Machinery.ExceptFold
import Rasdaman.Raslib.Minterval
import Rasdaman.Reladminif.OIdIf

/-!
# Relindexif/HierIndexBlob — index nodes as database blobs

`insertInDb` and `updateInDb` write a node as one blob: a header and six sections.  `readFromDb`
finds the sections by offset arithmetic, after telling three layouts apart by their first bytes: the
oldest begins with the byte 13 and has 32-bit bounds and ids, the next has the header 1009 and 32-bit
bounds, the current one has the header 1010.

The sizes are kept in `r_Bytes`, 32 bits wide, and the large-object store takes and returns sizes as
`int`: a node of `2^31` bytes or more cannot be written.
-/

namespace Rasdaman

open Bytes

namespace OIdType

/-- `(char)type`. -/
def toChar (t : OIdType) : UInt8 := UInt8.ofNat (all.idxOf t)

/-- `(OId::OIdType)c`; a character that is no enumerator gives no type the code uses. -/
def ofChar (c : UInt8) : OIdType := all.getD c.toNat invalid

theorem ofChar_toChar (t : OIdType) : ofChar t.toChar = t := by cases t <;> rfl

end OIdType

/-- An entry of a node: its domain and the object id, a counter and a type. -/
structure StoredEntry where
  domain : Minterval
  counter : ℤ
  type : OIdType
  deriving DecidableEq

/-- The part of a `DBHierIndex` that goes into the blob. -/
structure StoredNode where
  myDomain : Minterval
  myKeyObjects : List StoredEntry
  deriving DecidableEq

/-- All domains of a node, its own first. -/
def StoredNode.domains (n : StoredNode) : List Minterval :=
  n.myDomain :: n.myKeyObjects.map (·.domain)

/-- The layouts `readFromDb` knows, under its names for them. -/
inductive BlobFormat
  | format8
  | format9
  | format10
  deriving DecidableEq

namespace BlobFormat

/-- The bytes of a bound: an `int` in the old layouts. -/
def boundBytes : BlobFormat → ℕ
  | format8 => 4
  | format9 => 4
  | format10 => 8

/-- The bytes of an object counter. -/
def idBytes : BlobFormat → ℕ
  | format8 => 4
  | format9 => 8
  | format10 => 8

/-- The header: a starter byte, or a `long long`. -/
def header (o : Order) : BlobFormat → List UInt8
  | format8 => [13]
  | format9 => storeInt o 8 1009
  | format10 => storeInt o 8 1010

/-- `headersize`. -/
def headersize : BlobFormat → ℕ
  | format8 => 1
  | format9 => 8
  | format10 => 8

/-- A counter as it is stored: the oldest layout has them unsigned. -/
def storeId (o : Order) : BlobFormat → ℤ → List UInt8
  | format8, c => store o 4 c.toNat
  | format9, c => storeInt o 8 c
  | format10, c => storeInt o 8 c

/-- A counter as it is read, extended to 64 bits. -/
def loadId (o : Order) : BlobFormat → List UInt8 → ℤ
  | format8, bs => load o bs
  | format9, bs => loadInt o bs
  | format10, bs => loadInt o bs

/-- The counters a layout has room for. -/
def IdFits : BlobFormat → ℤ → Prop
  | format8, c => 0 ≤ c ∧ c < 256 ^ 4
  | format9, c => SignedRange 8 c
  | format10, c => SignedRange 8 c

instance : (f : BlobFormat) → (c : ℤ) → Decidable (f.IdFits c)
  | format8, _ => inferInstanceAs (Decidable (_ ∧ _))
  | format9, _ => inferInstanceAs (Decidable (SignedRange _ _))
  | format10, _ => inferInstanceAs (Decidable (SignedRange _ _))

@[simp] theorem length_header (o : Order) (f : BlobFormat) : (f.header o).length = f.headersize := by
  cases f <;> simp [header, headersize]

@[simp] theorem length_storeId (o : Order) (f : BlobFormat) (c : ℤ) :
    (f.storeId o c).length = f.idBytes := by
  cases f <;> simp [storeId, idBytes]

theorem loadId_storeId (o : Order) {f : BlobFormat} {c : ℤ} (h : f.IdFits c) :
    f.loadId o (f.storeId o c) = c := by
  cases f with
  | format8 =>
    have hlt : c.toNat < 256 ^ 4 := by
      have := h.2
      have := h.1
      omega
    simp only [loadId, storeId, load_store o hlt]
    exact Int.toNat_of_nonneg h.1
  | format9 => exact loadInt_storeInt o h
  | format10 => exact loadInt_storeInt o h

end BlobFormat

/-! ## Intervals -/

/-- An interval whose bounds fit into `k` bytes: open bounds are 0, fixed ones in order. -/
structure IntervalFits (k : ℕ) (s : Sinterval) : Prop where
  low : if s.lowFixed then SignedRange k s.lowerBound else s.lowerBound = 0
  high : if s.highFixed then SignedRange k s.upperBound else s.upperBound = 0
  ordered : s.lowFixed = true → s.highFixed = true → s.lowerBound ≤ s.upperBound

instance (k : ℕ) (s : Sinterval) : Decidable (IntervalFits k s) :=
  decidable_of_iff
    ((if s.lowFixed then SignedRange k s.lowerBound else s.lowerBound = 0) ∧
      (if s.highFixed then SignedRange k s.upperBound else s.upperBound = 0) ∧
      (s.lowFixed = true → s.highFixed = true → s.lowerBound ≤ s.upperBound))
    ⟨fun h => ⟨h.1, h.2.1, h.2.2⟩, fun h => ⟨h.low, h.high, h.ordered⟩⟩

/-- The four cells of an interval in the buffers. -/
structure Cell where
  lowerbound : ℤ
  upperbound : ℤ
  lowerfixed : UInt8
  upperfixed : UInt8

/-- `InlineMinterval::insertInDb` for one interval.  The buffer cell of an open bound is not written;
it keeps what it happened to hold. -/
def Cell.ofInterval (s : Sinterval) (junk : ℤ × ℤ) : Cell where
  lowerbound := if s.lowFixed then s.lowerBound else junk.1
  upperbound := if s.highFixed then s.upperBound else junk.2
  lowerfixed := if s.lowFixed then 0 else 42
  upperfixed := if s.highFixed then 0 else 42

/-- The constructor of `InlineMinterval` from buffers, for one interval. -/
def Cell.toInterval (c : Cell) : Except RError Sinterval := do
  let s ← if c.lowerfixed = 0 then Sinterval.opened.openHigh.setLow c.lowerbound
    else .ok Sinterval.opened.openLow
  if c.upperfixed = 0 then s.setHigh c.upperbound else .ok s.openHigh

theorem Cell.toInterval_ofInterval {k : ℕ} {s : Sinterval} (h : IntervalFits k s) {c : Cell}
    (hlow : c.lowerfixed = if s.lowFixed then 0 else 42)
    (hhigh : c.upperfixed = if s.highFixed then 0 else 42)
    (hlb : s.lowFixed = true → c.lowerbound = s.lowerBound)
    (hub : s.highFixed = true → c.upperbound = s.upperBound) : c.toInterval = .ok s := by
  obtain ⟨lo, hi, lf, hf⟩ := s
  obtain ⟨h1, h2, h3⟩ := h
  cases lf <;> cases hf <;>
    simp_all [toInterval, Sinterval.opened, Sinterval.openHigh, Sinterval.openLow, Sinterval.setLow,
      Sinterval.setHigh, bind, Except.bind]

/-! ## Writing -/

/-- What the buffers hold before anything is written to them. -/
abbrev Junk := ℕ → ℤ × ℤ

/-- The cells of all intervals of a node, in the order of the buffers. -/
def StoredNode.cells (n : StoredNode) (junk : Junk) : List Cell :=
  n.domains.flatten.zipIdx.map fun s => Cell.ofInterval s.1 (junk s.2)

/-- The blob of a node in a given layout. -/
def StoredNode.blob (o : Order) (f : BlobFormat) (junk : Junk) (n : StoredNode) : List UInt8 :=
  f.header o ++
    (((n.cells junk).map (·.lowerbound)).flatMap (storeInt o f.boundBytes) ++
    (((n.cells junk).map (·.upperbound)).flatMap (storeInt o f.boundBytes) ++
    ((n.cells junk).map (·.lowerfixed) ++
    ((n.cells junk).map (·.upperfixed) ++
    ((n.myKeyObjects.map (·.counter)).flatMap (f.storeId o) ++
    (n.myKeyObjects.map (·.type.toChar) ++ []))))))

/-- `lo_write` takes the size as an `int` and refuses `2^31` bytes or more, and the caller raises.
(From `2^32` bytes on the sizes wrap and the buffers are overrun; no blob of the node comes out of
that either.) -/
def writeBlob (blob : List UInt8) : Except RError (List UInt8) :=
  if blob.length < 2 ^ 31 then .ok blob else .error .baseDBMSFailed

/-- `insertInDb`. -/
def insertInDb (o : Order) (junk : Junk) (n : StoredNode) : Except RError (List UInt8) :=
  writeBlob (n.blob o .format10 junk)

/-- `updateInDb`. -/
def updateInDb (o : Order) (junk : Junk) (n : StoredNode) : Except RError (List UInt8) :=
  writeBlob (n.blob o .format10 junk)

/-! ## Reading -/

/-- Which layout `readFromDb` takes a blob for. -/
def blobformat (o : Order) (blobbuffer : List UInt8) : BlobFormat :=
  if blobbuffer.head? = some 13 then .format8
  else if loadInt o (slice 0 8 blobbuffer) = 1009 then .format9
  else .format10

/-- A size in `r_Bytes`. -/
def rBytes (n : ℕ) : ℕ := n % 2 ^ 32

/-- `readFromDb`, given the number of entries and the dimension from the tuple. -/
def readFromDb (o : Order) (size1 dimension1 : ℕ) (completebuffer : List UInt8) :
    Except RError StoredNode :=
  let f := blobformat o completebuffer
  let headersize := f.headersize
  let idssize := rBytes (f.idBytes * size1)
  let boundssize := rBytes (f.boundBytes * ((size1 + 1) * dimension1))
  let fixessize := rBytes ((size1 + 1) * dimension1)
  let typessize := rBytes size1
  let completesize := rBytes (headersize + boundssize * 2 + fixessize * 2 + idssize + typessize)
  if completesize ≠ completebuffer.length then .error .limitsMismatch
  else do
    let bounds := fun off =>
      (cells f.boundBytes ((size1 + 1) * dimension1) (slice off boundssize completebuffer)).map (loadInt o)
    let lowerboundsbuf := bounds headersize
    let upperboundsbuf := bounds (boundssize + headersize)
    let lowerfixedbuf := slice (boundssize * 2 + headersize) fixessize completebuffer
    let upperfixedbuf := slice (boundssize * 2 + fixessize + headersize) fixessize completebuffer
    let entryidsbuf := (cells f.idBytes size1
      (slice (boundssize * 2 + fixessize * 2 + headersize) idssize completebuffer)).map (f.loadId o)
    let entrytypesbuf := slice (boundssize * 2 + fixessize * 2 + idssize + headersize) typessize
      completebuffer
    let buffers := (lowerboundsbuf.zip upperboundsbuf).zipWith (fun b fx => Cell.mk b.1 b.2 fx.1 fx.2)
      (lowerfixedbuf.zip upperfixedbuf)
    let domains ← (cells dimension1 (size1 + 1) buffers).mapM fun cs => cs.mapM Cell.toInterval
    .ok ⟨domains.headD [], (domains.tail.zip (entryidsbuf.zip entrytypesbuf)).map fun e =>
      ⟨e.1, e.2.1, .ofChar e.2.2⟩⟩

/-! ## Telling the layouts apart -/

variable {o : Order} {f : BlobFormat} {junk : Junk} {n : StoredNode} {dim : ℕ}

/-- **Every layout is recognised by its header.** -/
theorem blobformat_header (o : Order) (f : BlobFormat) (rest : List UInt8) :
    blobformat o (f.header o ++ rest) = f := by
  have hslice : ∀ h : List UInt8, h.length = 8 → slice 0 8 (h ++ rest) = h := fun h hlen => by
    rw [slice, List.drop_zero, ← hlen, List.take_left]
  have hhead : ∀ v : ℤ, (storeInt o 8 v).head? ≠ some 13 → (storeInt o 8 v ++ rest).head? ≠ some 13 :=
    fun v hv => by
      have hne : storeInt o 8 v ≠ [] := fun hnil => by
        have := congrArg List.length hnil
        simp at this
      rwa [List.head?_append_of_ne_nil _ hne]
  cases f with
  | format8 => rfl
  | format9 =>
    have h13 : (storeInt o 8 1009).head? ≠ some 13 := by cases o <;> decide
    rw [blobformat, BlobFormat.header, if_neg (hhead _ h13), hslice _ (by simp),
      loadInt_storeInt o (by decide), if_pos rfl]
  | format10 =>
    have h13 : (storeInt o 8 1010).head? ≠ some 13 := by cases o <;> decide
    rw [blobformat, BlobFormat.header, if_neg (hhead _ h13), hslice _ (by simp),
      loadInt_storeInt o (by decide), if_neg (by decide)]

/-! ## The round trip -/

/-- A node that a layout has room for: all domains of the node's dimension, all bounds and counters
in range. -/
structure StoredNode.Fits (f : BlobFormat) (dim : ℕ) (n : StoredNode) : Prop where
  dims : ∀ m ∈ n.domains, m.length = dim
  bounds : ∀ m ∈ n.domains, ∀ s ∈ m, IntervalFits f.boundBytes s
  ids : ∀ e ∈ n.myKeyObjects, f.IdFits e.counter

theorem length_flatten_domains (h : ∀ m ∈ n.domains, m.length = dim) :
    n.domains.flatten.length = (n.myKeyObjects.length + 1) * dim := by
  have hmap : n.domains.map List.length = List.replicate (n.myKeyObjects.length + 1) dim := by
    refine List.eq_replicate_iff.mpr ⟨by simp [StoredNode.domains], fun k hk => ?_⟩
    obtain ⟨m, hm, rfl⟩ := List.mem_map.mp hk
    exact h m hm
  rw [List.length_flatten, hmap, List.sum_replicate_nat]

theorem length_cells (h : ∀ m ∈ n.domains, m.length = dim) :
    (n.cells junk).length = (n.myKeyObjects.length + 1) * dim := by
  rw [StoredNode.cells, List.length_map, List.length_zipIdx, length_flatten_domains h]

theorem length_flatMap_of_length {α : Type} {g : α → List UInt8} {k : ℕ} (hg : ∀ x, (g x).length = k)
    (xs : List α) : (xs.flatMap g).length = k * xs.length := by
  rw [List.length_flatMap, List.map_congr_left fun x _ => hg x, List.map_const', List.sum_replicate_nat,
    Nat.mul_comm]

/-- The cells read back: the bounds went through their stored form. -/
def Cell.reload (o : Order) (k : ℕ) (c : Cell) : Cell :=
  ⟨loadInt o (storeInt o k c.lowerbound), loadInt o (storeInt o k c.upperbound), c.lowerfixed,
    c.upperfixed⟩

theorem Cell.reload_toInterval {s : Sinterval} {k : ℕ} (h : IntervalFits k s) (j : ℤ × ℤ) :
    (Cell.reload o k (Cell.ofInterval s j)).toInterval = .ok s := by
  refine Cell.toInterval_ofInterval h rfl rfl (fun hl => ?_) fun hh => ?_
  · have hr := h.low
    rw [if_pos hl] at hr
    simp only [Cell.reload, Cell.ofInterval, hl, if_true, loadInt_storeInt o hr]
  · have hr := h.high
    rw [if_pos hh] at hr
    simp only [Cell.reload, Cell.ofInterval, hh, if_true, loadInt_storeInt o hr]

/-- **The domains are rebuilt from the cells.** -/
theorem read_domains (o : Order) (junk : Junk) (h : n.Fits f dim) :
    (Bytes.cells dim (n.myKeyObjects.length + 1)
      ((n.cells junk).map (Cell.reload o f.boundBytes))).mapM (fun cs => cs.mapM Cell.toInterval)
        = .ok n.domains := by
  have hlen : n.domains.length = n.myKeyObjects.length + 1 := by simp [StoredNode.domains]
  have hcells : Bytes.cells dim (n.myKeyObjects.length + 1) n.domains.flatten = n.domains := by
    have hread : Bytes.cells dim n.domains.length (n.domains.flatMap id) = n.domains.map id :=
      cells_flatMap n.domains h.dims
    rwa [List.flatMap_id, List.map_id, hlen] at hread
  conv_rhs => rw [← hcells]
  have hfst : n.domains.flatten = n.domains.flatten.zipIdx.map Prod.fst := by
    rw [List.zipIdx_map_fst]
  rw [Bytes.cells, Bytes.cells]
  refine ExceptFold.mapM_map_ok fun i _ => ?_
  rw [StoredNode.cells, List.map_map, ← List.map_drop, ← List.map_take]
  conv_rhs => rw [hfst, ← List.map_drop, ← List.map_take]
  refine ExceptFold.mapM_map_ok fun x hx => ?_
  have hmem : x.1 ∈ n.domains.flatten := by
    rw [hfst]
    exact List.mem_map_of_mem (List.mem_of_mem_drop (List.mem_of_mem_take hx))
  obtain ⟨m, hm, hs⟩ := List.mem_flatten.mp hmem
  exact Cell.reload_toInterval (h.bounds m hm x.1 hs) _

/-! ### The sections -/

section Sections

variable (o : Order) (f : BlobFormat) (junk : Junk)

theorem length_lowerbounds (h : ∀ m ∈ n.domains, m.length = dim) (b : Cell → ℤ) :
    (((n.cells junk).map b).flatMap (storeInt o f.boundBytes)).length
      = f.boundBytes * ((n.myKeyObjects.length + 1) * dim) := by
  rw [length_flatMap_of_length (length_storeInt o _), List.length_map, length_cells h]

theorem length_fixes (h : ∀ m ∈ n.domains, m.length = dim) (b : Cell → UInt8) :
    ((n.cells junk).map b).length = (n.myKeyObjects.length + 1) * dim := by
  rw [List.length_map, length_cells h]

theorem length_ids :
    ((n.myKeyObjects.map (·.counter)).flatMap (f.storeId o)).length
      = f.idBytes * n.myKeyObjects.length := by
  rw [length_flatMap_of_length (BlobFormat.length_storeId o f), List.length_map]

/-- `completesize`. -/
theorem length_blob (h : ∀ m ∈ n.domains, m.length = dim) : (n.blob o f junk).length
    = f.headersize + f.boundBytes * ((n.myKeyObjects.length + 1) * dim) * 2
      + (n.myKeyObjects.length + 1) * dim * 2 + f.idBytes * n.myKeyObjects.length
      + n.myKeyObjects.length := by
  simp only [StoredNode.blob, List.length_append, List.length_nil, BlobFormat.length_header,
    length_lowerbounds o f junk h, length_fixes junk h, length_ids o f, List.length_map]
  omega

/-- Bounds read from their section went through their stored form. -/
theorem cells_bounds (h : ∀ m ∈ n.domains, m.length = dim) (b : Cell → ℤ) :
    (Bytes.cells f.boundBytes ((n.myKeyObjects.length + 1) * dim)
      (((n.cells junk).map b).flatMap (storeInt o f.boundBytes))).map (loadInt o)
        = (n.cells junk).map fun c => loadInt o (storeInt o f.boundBytes (b c)) := by
  have hread := cells_flatMap ((n.cells junk).map b) fun x _ => length_storeInt o f.boundBytes x
  rw [List.length_map, length_cells h] at hread
  rw [hread, List.map_map, List.map_map]
  rfl

/-- Counters read from their section are the stored ones. -/
theorem cells_ids (h : ∀ e ∈ n.myKeyObjects, f.IdFits e.counter) :
    (Bytes.cells f.idBytes n.myKeyObjects.length
      ((n.myKeyObjects.map (·.counter)).flatMap (f.storeId o))).map (f.loadId o)
        = n.myKeyObjects.map (·.counter) := by
  have hread := cells_flatMap (n.myKeyObjects.map (·.counter)) fun x _ =>
    BlobFormat.length_storeId o f x
  rw [List.length_map] at hread
  rw [hread, List.map_map, List.map_map]
  exact List.map_congr_left fun e he => BlobFormat.loadId_storeId o (h e he)

/-- The four buffers side by side are the cells. -/
theorem zip_buffers (k : ℕ) (cs : List Cell) :
    ((cs.map fun c => loadInt o (storeInt o k c.lowerbound)).zip
      (cs.map fun c => loadInt o (storeInt o k c.upperbound))).zipWith
        (fun b fx => Cell.mk b.1 b.2 fx.1 fx.2) ((cs.map (·.lowerfixed)).zip (cs.map (·.upperfixed)))
        = cs.map (Cell.reload o k) := by
  rw [List.zip_map', List.zip_map', List.zipWith_map, List.zipWith_self]
  rfl

end Sections

/-- The entries are the tail of the domains with the counters and the types. -/
theorem zip_entries (n : StoredNode) :
    (n.domains.tail.zip ((n.myKeyObjects.map (·.counter)).zip
      (n.myKeyObjects.map (·.type.toChar)))).map
        (fun e => (⟨e.1, e.2.1, .ofChar e.2.2⟩ : StoredEntry)) = n.myKeyObjects := by
  rw [StoredNode.domains, List.tail_cons, List.zip_map', List.zip_map', List.map_map]
  conv_rhs => rw [← List.map_id n.myKeyObjects]
  refine List.map_congr_left fun e _ => ?_
  simp only [Function.comp_apply, OIdType.ofChar_toChar, id]

/-- **A blob in any layout decodes to the node it was made from.** -/
theorem readFromDb_blob (h : n.Fits f dim) (hsize : (n.blob o f junk).length < 2 ^ 31) :
    readFromDb o n.myKeyObjects.length dim (n.blob o f junk) = .ok n := by
  have htotal := length_blob o f junk h.dims
  have lA := length_lowerbounds o f junk h.dims (·.lowerbound)
  have lB := length_lowerbounds o f junk h.dims (·.upperbound)
  have lC := length_fixes junk h.dims (·.lowerfixed)
  have lD := length_fixes junk h.dims (·.upperfixed)
  have lE : ((n.myKeyObjects.map (·.counter)).flatMap (f.storeId o)).length = _ := length_ids o f
  have lT : (n.myKeyObjects.map (·.type.toChar)).length = n.myKeyObjects.length := List.length_map ..
  have lH := BlobFormat.length_header o f
  have hfmt : blobformat o (n.blob o f junk) = f := blobformat_header ..
  have cA := cells_bounds o f junk h.dims (·.lowerbound)
  have cB := cells_bounds o f junk h.dims (·.upperbound)
  have cE := cells_ids o f h.ids
  have hdoms := read_domains o junk h
  have hzip := zip_buffers o f.boundBytes (n.cells junk)
  rw [htotal] at hsize
  generalize hN : (n.myKeyObjects.length + 1) * dim = N at *
  generalize hS : f.boundBytes * N = S at *
  generalize hI : f.idBytes * n.myKeyObjects.length = I at *
  have hr₁ : rBytes S = S := Nat.mod_eq_of_lt (by omega)
  have hr₂ : rBytes N = N := Nat.mod_eq_of_lt (by omega)
  have hr₃ : rBytes I = I := Nat.mod_eq_of_lt (by omega)
  have hr₄ : rBytes n.myKeyObjects.length = n.myKeyObjects.length := Nat.mod_eq_of_lt (by omega)
  have hr₅ : rBytes (f.headersize + S * 2 + N * 2 + I + n.myKeyObjects.length)
      = f.headersize + S * 2 + N * 2 + I + n.myKeyObjects.length := Nat.mod_eq_of_lt (by omega)
  -- The six sections, each found at its offset.
  have sA : slice f.headersize S (n.blob o f junk)
      = ((n.cells junk).map (·.lowerbound)).flatMap (storeInt o f.boundBytes) := slice_append lH lA
  have sB : slice (S + f.headersize) S (n.blob o f junk)
      = ((n.cells junk).map (·.upperbound)).flatMap (storeInt o f.boundBytes) := by
    rw [StoredNode.blob, ← List.append_assoc]
    exact slice_append (by simp only [List.length_append, lA, lH]; omega) lB
  have sC : slice (S * 2 + f.headersize) N (n.blob o f junk)
      = (n.cells junk).map (·.lowerfixed) := by
    rw [StoredNode.blob, ← List.append_assoc, ← List.append_assoc]
    exact slice_append (by simp only [List.length_append, lA, lB, lH]; omega) lC
  have sD : slice (S * 2 + N + f.headersize) N (n.blob o f junk)
      = (n.cells junk).map (·.upperfixed) := by
    rw [StoredNode.blob, ← List.append_assoc, ← List.append_assoc, ← List.append_assoc]
    exact slice_append (by simp only [List.length_append, lA, lB, lC, lH]; omega) lD
  have sE : slice (S * 2 + N * 2 + f.headersize) I (n.blob o f junk)
      = (n.myKeyObjects.map (·.counter)).flatMap (f.storeId o) := by
    rw [StoredNode.blob, ← List.append_assoc, ← List.append_assoc, ← List.append_assoc,
      ← List.append_assoc]
    exact slice_append (by simp only [List.length_append, lA, lB, lC, lD, lH]; omega) lE
  have sT : slice (S * 2 + N * 2 + I + f.headersize) n.myKeyObjects.length (n.blob o f junk)
      = n.myKeyObjects.map (·.type.toChar) := by
    rw [StoredNode.blob, ← List.append_assoc, ← List.append_assoc, ← List.append_assoc,
      ← List.append_assoc, ← List.append_assoc]
    exact slice_append (by simp only [List.length_append, lA, lB, lC, lD, lE, lH]; omega) lT
  simp only [readFromDb, hfmt, hN, hS, hI, hr₁, hr₂, hr₃, hr₄, hr₅, htotal, sA, sB, sC, sD, sE, sT,
    cA, cB, cE, hzip, hdoms, ne_eq, not_true_eq_false, if_false, bind, Except.bind, zip_entries]
  rfl

/-! ## The database -/

theorem writeBlob_eq_ok {b blob : List UInt8} (h : writeBlob b = .ok blob) :
    blob = b ∧ b.length < 2 ^ 31 := by
  rw [writeBlob] at h
  split at h
  case isTrue hlt => exact ⟨(Except.ok.inj h).symm, hlt⟩
  case isFalse => cases h

/-- **Node blobs round-trip.**  What `insertInDb` or `updateInDb` wrote is recognised as the current
layout, whatever the node, and is read back as the node; every node that the size limit of the store
admits is written; and a blob in one of the two older layouts decodes to the node with the same
values.  The buffers' initial contents `junk` and the byte order never matter. -/
theorem hierIndex_blob_roundTrip (o : Order) (junk : Junk) (n : StoredNode) :
    (∀ blob, insertInDb o junk n = .ok blob ∨ updateInDb o junk n = .ok blob →
      blobformat o blob = .format10 ∧
      ∀ dim, n.Fits .format10 dim → readFromDb o n.myKeyObjects.length dim blob = .ok n) ∧
    ((n.blob o .format10 junk).length < 2 ^ 31 →
      (∃ blob, insertInDb o junk n = .ok blob) ∧ ∃ blob, updateInDb o junk n = .ok blob) ∧
    (∀ f ∈ [BlobFormat.format8, .format9], ∀ dim, n.Fits f dim →
      (n.blob o f junk).length < 2 ^ 31 →
      readFromDb o n.myKeyObjects.length dim (n.blob o f junk) = .ok n) := by
  refine ⟨fun blob hwrite => ?_, fun hsize => ?_, fun f _ dim hfits hsize =>
    readFromDb_blob hfits hsize⟩
  · have hwritten : writeBlob (n.blob o .format10 junk) = .ok blob := hwrite.elim id id
    obtain ⟨rfl, hsize⟩ := writeBlob_eq_ok hwritten
    exact ⟨blobformat_header .., fun dim hfits => readFromDb_blob hfits hsize⟩
  · exact ⟨⟨_, if_pos hsize⟩, ⟨_, if_pos hsize⟩⟩

/-- A two-dimensional node with an open interval, a negative bound and two entries. -/
def sampleNode : StoredNode :=
  ⟨[⟨-3, 2000000000, true, true⟩, ⟨0, 7, false, true⟩],
    [⟨[⟨-3, 0, true, true⟩, ⟨0, 7, false, true⟩], 4000000000, .blobOId⟩,
      ⟨[⟨1, 5, true, true⟩, ⟨0, 0, false, false⟩], 13, .mddHierIxOId⟩]⟩

theorem hierIndex_blob_roundTrip_sampleNode :
    (∃ blob, insertInDb .little (fun _ => (13, 13)) sampleNode = .ok blob ∧
      readFromDb .little 2 2 blob = .ok sampleNode) ∧
    readFromDb .big 2 2 (sampleNode.blob .big .format8 fun _ => (13, 13)) = .ok sampleNode := by
  have hfits : ∀ f, sampleNode.Fits f 2 := fun f => by
    cases f <;> exact ⟨by decide, by decide, by decide⟩
  have hsize : ∀ o f, (sampleNode.blob o f fun _ => (13, 13)).length < 2 ^ 31 := fun o f => by
    rw [length_blob o f _ (hfits f).dims]
    cases f <;> decide
  obtain ⟨hread, hwrite, -⟩ := hierIndex_blob_roundTrip .little (fun _ => (13, 13)) sampleNode
  obtain ⟨-, -, hold⟩ := hierIndex_blob_roundTrip .big (fun _ => (13, 13)) sampleNode
  obtain ⟨blob, hblob⟩ := (hwrite (hsize _ _)).1
  exact ⟨⟨blob, hblob, (hread blob (.inl hblob)).2 2 (hfits _)⟩,
    hold .format8 (by decide) 2 (hfits _) (hsize _ _)⟩

end Rasdaman
