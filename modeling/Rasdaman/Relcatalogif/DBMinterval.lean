import Rasdaman.Machinery.SqlTable
import Rasdaman.Machinery.ExceptFold
import Rasdaman.Raslib.Minterval
import Rasdaman.Relindexif.HierIndex

/-!
# Relcatalogif/DBMinterval — minterval domains in the base database

`RAS_DOMAINS` has a row with the dimension of each stored domain, `RAS_DOMAINVALUES` one with the bounds in
each of its dimensions, NULL for an open bound.  `insertInDb` writes them, `updateInDb` adds or removes rows
for a changed dimension and rewrites the bounds, `readFromDb` reads the domain back.

`domains_survive_iff` says which histories of assignments survive: those in which the dimension never
shrinks.  `updateInDb` counts the superfluous dimensions from the old dimension on, where there is no row,
so that the first DELETE of a shrinking update matches nothing and raises.
-/

namespace Rasdaman

open SqlTable

/-- A row of `RAS_DOMAINS`. -/
structure DomainRow where
  domainId : OId
  dimension : ℕ
  deriving DecidableEq, Repr

/-- A row of `RAS_DOMAINVALUES`. -/
structure DomainValueRow where
  domainId : OId
  dimensionCount : ℕ
  low : Option ℤ
  high : Option ℤ
  deriving DecidableEq, Repr

/-- The tables of domains. -/
structure DomainTables where
  rasDomains : List DomainRow
  rasDomainValues : List DomainValueRow
  deriving DecidableEq, Repr

namespace DBMinterval

/-- What `generateException` throws. -/
def sqlError : RError := .baseDBMSFailed

/-- A value for an `INTEGER` column. -/
def integer (value : ℤ) : Except RError ℤ :=
  if -2 ^ 31 ≤ value ∧ value < 2 ^ 31 then .ok value else .error sqlError

/-- `:low INDICATOR :lowind`. -/
def lowColumn (s : Sinterval) : Except RError (Option ℤ) :=
  if s.lowFixed then some <$> integer s.lowerBound else .ok none

/-- `:high INDICATOR :highind`. -/
def highColumn (s : Sinterval) : Except RError (Option ℤ) :=
  if s.highFixed then some <$> integer s.upperBound else .ok none

/-- The key of the unique index of `RAS_DOMAINVALUES`. -/
def DomainValueRow.key (r : DomainValueRow) : OId × ℕ := (r.domainId, r.dimensionCount)

/-- The rows that `DomainId = domainid AND DimensionCount = count` selects. -/
def isRow (domainid : OId) (count : ℕ) (r : DomainValueRow) : Bool :=
  r.domainId == domainid && r.dimensionCount == count

/-! ## Writing -/

/-- `INSERT INTO RAS_DOMAINVALUES`. -/
def insertValue (db : DomainTables) (row : DomainValueRow) : Except RError DomainTables := do
  let rows ← SqlTable.insert sqlError DomainValueRow.key row db.rasDomainValues
  return { db with rasDomainValues := rows }

/-- `insertInDb`. -/
def insertInDb (db : DomainTables) (domainid : OId) (intervals : Minterval) :
    Except RError DomainTables := do
  let rows ← SqlTable.insert sqlError DomainRow.domainId ⟨domainid, intervals.length⟩ db.rasDomains
  intervals.zipIdx.foldlM
    (fun db p => do
      let low ← lowColumn p.1
      let high ← highColumn p.1
      insertValue db ⟨domainid, p.2, low, high⟩)
    { db with rasDomains := rows }

/-- `UPDATE RAS_DOMAINS SET Dimension = dimension`. -/
def updateDimension (db : DomainTables) (domainid : OId) (dimension : ℕ) :
    Except RError DomainTables := do
  let rows ← SqlTable.update sqlError (fun r => r.domainId == domainid)
    (fun r => { r with dimension := dimension }) db.rasDomains
  return { db with rasDomains := rows }

/-- `UPDATE RAS_DOMAINVALUES SET Low = …, High = …` for one dimension. -/
def updateBounds (db : DomainTables) (domainid : OId) (p : Sinterval × ℕ) :
    Except RError DomainTables := do
  let low ← lowColumn p.1
  let high ← highColumn p.1
  let rows ← SqlTable.update sqlError (isRow domainid p.2)
    (fun r => { r with low := low, high := high }) db.rasDomainValues
  return { db with rasDomainValues := rows }

/-- `DELETE FROM RAS_DOMAINVALUES` for one dimension. -/
def deleteValue (db : DomainTables) (domainid : OId) (count : ℕ) : Except RError DomainTables := do
  let rows ← SqlTable.delete sqlError (isRow domainid count) db.rasDomainValues
  return { db with rasDomainValues := rows }

/-- The part of `updateInDb` that brings the rows to another dimension. -/
def resize (db : DomainTables) (domainid : OId) (dimension1 dimensionality : ℕ) :
    Except RError DomainTables :=
  if dimension1 < dimensionality then do
    let db ← (List.range' dimension1 (dimensionality - dimension1)).foldlM
      (fun db count1 => insertValue db ⟨domainid, count1, none, none⟩) db
    updateDimension db domainid dimensionality
  else if dimension1 > dimensionality then do
    -- `count1` goes down from the old dimension
    let db ← ((List.range (dimension1 - dimensionality)).map (dimension1 - ·)).foldlM
      (fun db count1 => deleteValue db domainid count1) db
    updateDimension db domainid dimensionality
  else .ok db

/-- `updateInDb`.  The SELECT of the dimension is not checked: without a row, `dimension1` keeps what it
held before, `unset`. -/
def updateInDb (unset : ℕ) (db : DomainTables) (domainid : OId) (intervals : Minterval) :
    Except RError DomainTables := do
  let dimension1 := ((select (fun r => r.domainId == domainid) db.rasDomains).map
    DomainRow.dimension).getD unset
  let db ← resize db domainid dimension1 intervals.length
  intervals.zipIdx.foldlM (fun db p => updateBounds db domainid p) db

/-- `deleteFromDb`. -/
def deleteFromDb (db : DomainTables) (domainid : OId) : Except RError DomainTables := do
  let domains ← SqlTable.delete sqlError (fun r => r.domainId == domainid) db.rasDomains
  let values ← SqlTable.delete sqlError (fun r => r.domainId == domainid) db.rasDomainValues
  return ⟨domains, values⟩

/-! ## Reading -/

/-- One round of the loop of `readFromDb`. -/
def readInterval (db : DomainTables) (domainid : OId) (count : ℕ) : Except RError Sinterval :=
  match select (isRow domainid count) db.rasDomainValues with
  | none => .error sqlError
  | some r => do
    let s ← match r.low with
      | some low => Sinterval.opened.setLow low
      | none => .ok Sinterval.opened.openLow
    match r.high with
    | some high => s.setHigh high
    | none => .ok s.openHigh

/-- `readFromDb`. -/
def readFromDb (db : DomainTables) (domainid : OId) : Except RError Minterval :=
  match select (fun r => r.domainId == domainid) db.rasDomains with
  | none => .error .objectUnknown
  | some r => (List.range r.dimension).mapM (readInterval db domainid)

/-! ## Domains -/

/-- An interval as the operations of `r_Sinterval` leave it, with bounds of 32 bits. -/
structure Storable (s : Sinterval) : Prop where
  low_open : s.lowFixed = false → s.lowerBound = 0
  high_open : s.highFixed = false → s.upperBound = 0
  le : s.lowFixed = true → s.highFixed = true → s.lowerBound ≤ s.upperBound
  low_fits : -2 ^ 31 ≤ s.lowerBound ∧ s.lowerBound < 2 ^ 31
  high_fits : -2 ^ 31 ≤ s.upperBound ∧ s.upperBound < 2 ^ 31

/-- A domain of dimension one or more. -/
structure Domain where
  intervals : Minterval
  dimension_pos : 0 < intervals.length
  storable : ∀ s ∈ intervals, Storable s

/-- `dimension`. -/
def Domain.dimension (m : Domain) : ℕ := m.intervals.length

/-- The bounds an interval has in its row. -/
def lowOf (s : Sinterval) : Option ℤ := if s.lowFixed then some s.lowerBound else none

/-- The bounds an interval has in its row. -/
def highOf (s : Sinterval) : Option ℤ := if s.highFixed then some s.upperBound else none

/-- The rows of a domain from the dimension `k` on. -/
def rowsFrom (domainid : OId) (k : ℕ) (intervals : Minterval) : List DomainValueRow :=
  (intervals.zipIdx k).map fun p => ⟨domainid, p.2, lowOf p.1, highOf p.1⟩

/-- The rows of an object in `RAS_DOMAINVALUES`. -/
def valuesOf (db : DomainTables) (domainid : OId) : List DomainValueRow :=
  db.rasDomainValues.filter fun r => r.domainId == domainid

/-- The rows of an object in `RAS_DOMAINS`. -/
def dimensionOf (db : DomainTables) (domainid : OId) : List DomainRow :=
  db.rasDomains.filter fun r => r.domainId == domainid

/-! ## What the rows of an object are after each statement -/

variable {db : DomainTables} {domainid : OId}

theorem integer_of_fits {value : ℤ} (h : -2 ^ 31 ≤ value ∧ value < 2 ^ 31) :
    integer value = .ok value := if_pos h

theorem lowColumn_eq {s : Sinterval} (h : Storable s) : lowColumn s = .ok (lowOf s) := by
  rw [lowColumn, lowOf, integer_of_fits h.low_fits]
  split <;> rfl

theorem highColumn_eq {s : Sinterval} (h : Storable s) : highColumn s = .ok (highOf s) := by
  rw [highColumn, highOf, integer_of_fits h.high_fits]
  split <;> rfl

theorem rowsFrom_cons (domainid : OId) (k : ℕ) (s : Sinterval) (ms : Minterval) :
    rowsFrom domainid k (s :: ms) =
      ⟨domainid, k, lowOf s, highOf s⟩ :: rowsFrom domainid (k + 1) ms := by
  rw [rowsFrom, List.zipIdx_cons, List.map_cons, rowsFrom]

@[simp] theorem map_dimensionCount_rowsFrom (domainid : OId) (k : ℕ) (ms : Minterval) :
    (rowsFrom domainid k ms).map DomainValueRow.dimensionCount = List.range' k ms.length := by
  induction ms generalizing k with
  | nil => rfl
  | cons s ms ih => rw [rowsFrom_cons, List.map_cons, ih, List.length_cons, List.range'_succ]

theorem isRow_iff {count : ℕ} {r : DomainValueRow} :
    isRow domainid count r = true ↔ r.domainId = domainid ∧ r.dimensionCount = count := by
  rw [isRow, Bool.and_eq_true, beq_iff_eq, beq_iff_eq]

theorem domainId_of_isRow {count : ℕ} (r : DomainValueRow) (h : isRow domainid count r = true) :
    (r.domainId == domainid) = true := by
  rw [beq_iff_eq]
  exact (isRow_iff.mp h).1

theorem domainId_of_mem {r : DomainValueRow} (h : r ∈ valuesOf db domainid) :
    r.domainId = domainid := by
  simpa using (List.mem_filter.mp h).2

/-- INSERT adds a row for a dimension that has none. -/
theorem insertValue_spec {r : DomainValueRow} (hid : r.domainId = domainid)
    (hnew : r.dimensionCount ∉ (valuesOf db domainid).map DomainValueRow.dimensionCount) :
    ∃ db', insertValue db r = .ok db' ∧ db'.rasDomains = db.rasDomains ∧
      valuesOf db' domainid = valuesOf db domainid ++ [r] := by
  have hins := insert_slice sqlError DomainValueRow.key (q := fun r => r.domainId == domainid)
    (fun r' hr' => by rw [beq_iff_eq, ← hid]; exact congrArg Prod.fst hr')
    fun r' hr' heq => hnew (List.mem_map.mpr ⟨r', hr', congrArg Prod.snd heq⟩)
  refine ⟨{ db with rasDomainValues := db.rasDomainValues ++ [r] }, by rw [insertValue, hins]; rfl, rfl,
    ?_⟩
  simp [valuesOf, List.filter_append, hid]

theorem foldlM_insertValue (rows : List DomainValueRow) (hid : ∀ r ∈ rows, r.domainId = domainid)
    (db : DomainTables)
    (hnodup : ((valuesOf db domainid ++ rows).map DomainValueRow.dimensionCount).Nodup) :
    ∃ db', rows.foldlM insertValue db = .ok db' ∧ db'.rasDomains = db.rasDomains ∧
      valuesOf db' domainid = valuesOf db domainid ++ rows := by
  induction rows generalizing db with
  | nil => exact ⟨db, rfl, rfl, (List.append_nil _).symm⟩
  | cons r rows ih =>
    obtain ⟨hr, hrows⟩ := List.forall_mem_cons.mp hid
    have hnew : r.dimensionCount ∉ (valuesOf db domainid).map DomainValueRow.dimensionCount := by
      rw [List.map_append, List.map_cons, List.nodup_middle, List.nodup_cons] at hnodup
      exact fun h => hnodup.1 (List.mem_append_left _ h)
    obtain ⟨db₁, hok, hdom, hval⟩ := insertValue_spec hr hnew
    have happ : valuesOf db₁ domainid ++ rows = valuesOf db domainid ++ r :: rows := by
      rw [hval, List.append_assoc, List.singleton_append]
    obtain ⟨db', hok', hdom', hval'⟩ := ih hrows db₁ (by rw [happ]; exact hnodup)
    refine ⟨db', ?_, hdom'.trans hdom, hval'.trans happ⟩
    rw [List.foldlM_cons, hok]
    exact hok'

/-- UPDATE sets the bounds in the row of a dimension. -/
theorem updateBounds_spec {s : Sinterval} (hs : Storable s) {pre post : List DomainValueRow}
    {r : DomainValueRow} (hval : valuesOf db domainid = pre ++ r :: post)
    (hpre : ∀ r' ∈ pre, r'.dimensionCount ≠ r.dimensionCount)
    (hpost : ∀ r' ∈ post, r'.dimensionCount ≠ r.dimensionCount) :
    ∃ db', updateBounds db domainid (s, r.dimensionCount) = .ok db' ∧
      db'.rasDomains = db.rasDomains ∧
      valuesOf db' domainid = pre ++ ⟨domainid, r.dimensionCount, lowOf s, highOf s⟩ :: post := by
  have hr : r.domainId = domainid := domainId_of_mem (by rw [hval]; simp)
  have hrow : isRow domainid r.dimensionCount r = true := isRow_iff.mpr ⟨hr, rfl⟩
  have hmatch : (valuesOf db domainid).any (isRow domainid r.dimensionCount) = true := by
    rw [hval, List.any_append, List.any_cons, hrow, Bool.true_or, Bool.or_true]
  obtain ⟨rows, hok, hrows⟩ := update_slice sqlError
    (fun r => { r with low := lowOf s, high := highOf s })
    (fun r h => domainId_of_isRow r h) (fun r h => domainId_of_isRow r h) hmatch
  have hkeep : ∀ l : List DomainValueRow, (∀ r' ∈ l, r'.dimensionCount ≠ r.dimensionCount) →
      l.map (fun r' => if isRow domainid r.dimensionCount r' then
        { r' with low := lowOf s, high := highOf s } else r') = l := by
    intro l hl
    refine (List.map_congr_left fun r' hr' => if_neg fun h => ?_).trans (List.map_id l)
    exact hl r' hr' (isRow_iff.mp h).2
  refine ⟨{ db with rasDomainValues := rows }, ?_, rfl, ?_⟩
  · rw [updateBounds, lowColumn_eq hs, highColumn_eq hs]
    change (SqlTable.update sqlError (isRow domainid r.dimensionCount) _ db.rasDomainValues >>= _) = _
    rw [hok]
    rfl
  · have hfilter : valuesOf { db with rasDomainValues := rows } domainid =
        (valuesOf db domainid).map (fun r' => if isRow domainid r.dimensionCount r' then
          { r' with low := lowOf s, high := highOf s } else r') := hrows
    rw [hfilter, hval, List.map_append, List.map_cons, hkeep pre hpre, hkeep post hpost, if_pos hrow,
      hr]

theorem foldlM_updateBounds {ms : Minterval} (hms : ∀ s ∈ ms, Storable s) (k : ℕ) (db : DomainTables)
    (pre post : List DomainValueRow) (hval : valuesOf db domainid = pre ++ post)
    (hpre : ∀ r ∈ pre, r.dimensionCount < k)
    (hpost : post.map DomainValueRow.dimensionCount = List.range' k ms.length) :
    ∃ db', (ms.zipIdx k).foldlM (fun db p => updateBounds db domainid p) db = .ok db' ∧
      db'.rasDomains = db.rasDomains ∧ valuesOf db' domainid = pre ++ rowsFrom domainid k ms := by
  induction ms generalizing k db pre post with
  | nil =>
    obtain rfl : post = [] := List.map_eq_nil_iff.mp hpost
    exact ⟨db, rfl, rfl, hval⟩
  | cons s ms ih =>
    obtain ⟨hs, hms⟩ := List.forall_mem_cons.mp hms
    rw [List.length_cons, List.range'_succ] at hpost
    obtain ⟨r, post, rfl, rfl, hpost⟩ := List.map_eq_cons_iff.mp hpost
    obtain ⟨db₁, hok, hdom, hval₁⟩ := updateBounds_spec hs hval (fun r' hr' => (hpre r' hr').ne)
      fun r' hr' => by
        have hmem : r'.dimensionCount ∈ post.map DomainValueRow.dimensionCount :=
          List.mem_map_of_mem hr'
        rw [hpost, List.mem_range'_1] at hmem
        omega
    obtain ⟨db', hok', hdom', hval'⟩ := ih hms (r.dimensionCount + 1) db₁
      (pre ++ [⟨domainid, r.dimensionCount, lowOf s, highOf s⟩]) post
      (by rw [hval₁, List.append_assoc, List.singleton_append])
      (fun r' hr' => by
        rcases List.mem_append.mp hr' with hr' | hr'
        · exact (hpre r' hr').trans (Nat.lt_succ_self _)
        · obtain rfl := List.mem_singleton.mp hr'
          exact Nat.lt_succ_self _) hpost
    refine ⟨db', ?_, hdom'.trans hdom, ?_⟩
    · rw [List.zipIdx_cons, List.foldlM_cons, hok]
      exact hok'
    · rw [hval', rowsFrom_cons, List.append_assoc, List.singleton_append]

/-- UPDATE sets the dimension. -/
theorem updateDimension_spec {dimension1 : ℕ}
    (hdom : dimensionOf db domainid = [⟨domainid, dimension1⟩]) (dimensionality : ℕ) :
    ∃ db', updateDimension db domainid dimensionality = .ok db' ∧
      db'.rasDomainValues = db.rasDomainValues ∧
      dimensionOf db' domainid = [⟨domainid, dimensionality⟩] := by
  have hmatch : (dimensionOf db domainid).any (fun r => r.domainId == domainid) = true := by
    rw [hdom]
    simp
  obtain ⟨rows, hok, hrows⟩ := update_slice (p := fun r : DomainRow => r.domainId == domainid)
    (q := fun r => r.domainId == domainid) (t := db.rasDomains) sqlError
    (fun r => { r with dimension := dimensionality }) (fun r h => h) (fun r h => h) hmatch
  refine ⟨{ db with rasDomains := rows }, by rw [updateDimension, hok]; rfl, rfl, ?_⟩
  have hfilter : dimensionOf { db with rasDomains := rows } domainid =
      (dimensionOf db domainid).map fun r =>
        if r.domainId == domainid then { r with dimension := dimensionality } else r := hrows
  rw [hfilter, hdom]
  simp

/-! ## What the operations do -/

/-- The tables have the rows of a domain under an object id, and no others. -/
structure Stored (db : DomainTables) (domainid : OId) (m : Minterval) : Prop where
  dimension : dimensionOf db domainid = [⟨domainid, m.length⟩]
  values : valuesOf db domainid = rowsFrom domainid 0 m

/-- The tables have no row under an object id. -/
structure Absent (db : DomainTables) (domainid : OId) : Prop where
  dimension : dimensionOf db domainid = []
  values : valuesOf db domainid = []

theorem storable_columns {ms : Minterval} (hms : ∀ s ∈ ms, Storable s) (k : ℕ) (db : DomainTables) :
    (ms.zipIdx k).foldlM
      (fun db p => do
        let low ← lowColumn p.1
        let high ← highColumn p.1
        insertValue db ⟨domainid, p.2, low, high⟩) db =
      (rowsFrom domainid k ms).foldlM insertValue db := by
  induction ms generalizing k db with
  | nil => rfl
  | cons s ms ih =>
    obtain ⟨hs, hms⟩ := List.forall_mem_cons.mp hms
    rw [List.zipIdx_cons, rowsFrom_cons, List.foldlM_cons, List.foldlM_cons, lowColumn_eq hs,
      highColumn_eq hs]
    exact congrArg _ (funext fun db' => ih hms (k + 1) db')

theorem domainId_rowsFrom {k : ℕ} {ms : Minterval} :
    ∀ r ∈ rowsFrom domainid k ms, r.domainId = domainid := by
  intro r hr
  obtain ⟨p, -, rfl⟩ := List.mem_map.mp hr
  rfl

/-- **A domain is stored under an unused object id.** -/
theorem insertInDb_spec (h : Absent db domainid) (m : Domain) :
    ∃ db', insertInDb db domainid m.intervals = .ok db' ∧ Stored db' domainid m.intervals := by
  have hins := insert_slice sqlError DomainRow.domainId (q := fun r => r.domainId == domainid)
    (t := db.rasDomains) (x := ⟨domainid, m.intervals.length⟩)
    (fun r hr => by rw [beq_iff_eq]; exact hr) fun r hr => by
      rw [show db.rasDomains.filter (fun r => r.domainId == domainid) = [] from h.dimension] at hr
      exact absurd hr List.not_mem_nil
  set db₀ : DomainTables :=
    { db with rasDomains := db.rasDomains ++ [⟨domainid, m.intervals.length⟩] } with hdb₀
  have hval₀ : valuesOf db₀ domainid = [] := h.values
  obtain ⟨db', hok, hdom, hval⟩ := foldlM_insertValue (rowsFrom domainid 0 m.intervals)
    domainId_rowsFrom db₀ (by
      rw [hval₀, List.nil_append, map_dimensionCount_rowsFrom]
      exact List.nodup_range')
  refine ⟨db', ?_, ?_, ?_⟩
  · rw [insertInDb, hins]
    exact (storable_columns m.storable 0 _).trans hok
  · rw [dimensionOf, hdom, hdb₀, List.filter_append]
    rw [show db.rasDomains.filter (fun r => r.domainId == domainid) = [] from h.dimension]
    simp
  · rw [hval, hval₀, List.nil_append]

/-- The dimension that `updateInDb` and `readFromDb` select. -/
theorem Stored.select_dimension {m : Minterval} (h : Stored db domainid m) :
    select (fun r => r.domainId == domainid) db.rasDomains = some ⟨domainid, m.length⟩ := by
  rw [select_slice (q := fun r : DomainRow => r.domainId == domainid) fun r hr => hr]
  rw [show db.rasDomains.filter (fun r => r.domainId == domainid) = _ from h.dimension]
  simp

/-- Growing adds rows without bounds for the new dimensions. -/
theorem resize_grow {m : Minterval} (h : Stored db domainid m) {dimensionality : ℕ}
    (hle : m.length ≤ dimensionality) :
    ∃ db', resize db domainid m.length dimensionality = .ok db' ∧
      dimensionOf db' domainid = [⟨domainid, dimensionality⟩] ∧
      (valuesOf db' domainid).map DomainValueRow.dimensionCount = List.range' 0 dimensionality := by
  rw [resize]
  by_cases hlt : m.length < dimensionality
  · have hcounts : (List.range' 0 m.length ++
        List.range' m.length (dimensionality - m.length)) = List.range' 0 dimensionality := by
      have happ := List.range'_append_1 (s := 0) (m := m.length) (n := dimensionality - m.length)
      rwa [Nat.zero_add, Nat.add_sub_cancel' hle] at happ
    set rows : List DomainValueRow := (List.range' m.length (dimensionality - m.length)).map
      fun count1 => ⟨domainid, count1, none, none⟩ with hrows
    have hmap : (valuesOf db domainid ++ rows).map DomainValueRow.dimensionCount =
        List.range' 0 dimensionality := by
      rw [List.map_append, h.values, map_dimensionCount_rowsFrom, hrows, List.map_map, ← hcounts]
      exact congrArg _ (List.map_id _)
    obtain ⟨db₁, hok, hdom, hval⟩ := foldlM_insertValue rows (fun r hr => by
      obtain ⟨count1, -, rfl⟩ := List.mem_map.mp hr
      rfl) db (by rw [hmap]; exact List.nodup_range')
    have hdim : dimensionOf db₁ domainid = [⟨domainid, m.length⟩] := by
      rw [dimensionOf, hdom]
      exact h.dimension
    obtain ⟨db', hok', hkeep, hdim'⟩ := updateDimension_spec hdim dimensionality
    refine ⟨db', ?_, hdim', ?_⟩
    · rw [if_pos hlt, ← List.foldlM_map, ← hrows, hok]
      exact hok'
    · rw [valuesOf, hkeep]
      exact (congrArg _ hval).trans hmap
  · obtain rfl : m.length = dimensionality := by omega
    refine ⟨db, by rw [if_neg hlt, if_neg hlt], h.dimension, ?_⟩
    rw [h.values, map_dimensionCount_rowsFrom]

/-- **Shrinking raises**: its first DELETE is for the old dimension, which has no row. -/
theorem resize_shrink {m : Minterval} (h : Stored db domainid m) {dimensionality : ℕ}
    (hlt : dimensionality < m.length) :
    resize db domainid m.length dimensionality = .error sqlError := by
  have hno : (valuesOf db domainid).any (isRow domainid m.length) = false := by
    rw [List.any_eq_false]
    intro r hr hrow
    have hmem : r.dimensionCount ∈ (valuesOf db domainid).map DomainValueRow.dimensionCount :=
      List.mem_map_of_mem hr
    rw [h.values, map_dimensionCount_rowsFrom, List.mem_range'_1] at hmem
    have := (isRow_iff.mp hrow).2
    omega
  have hdelete := delete_noMatch sqlError (fun r h => domainId_of_isRow r h) hno
  obtain ⟨n, hn⟩ : ∃ n, m.length - dimensionality = n + 1 := ⟨m.length - dimensionality - 1, by omega⟩
  rw [resize, if_neg (by omega), if_pos hlt, hn, List.range_succ_eq_map, List.map_cons,
    List.foldlM_cons, Nat.sub_zero, deleteValue, hdelete]
  rfl

/-- **An update stores a domain that is not smaller, and raises for one that is.** -/
theorem updateInDb_spec {m : Minterval} (h : Stored db domainid m) (unset : ℕ) (m' : Domain) :
    (m.length ≤ m'.dimension → ∃ db', updateInDb unset db domainid m'.intervals = .ok db' ∧
        Stored db' domainid m'.intervals) ∧
      (m'.dimension < m.length → updateInDb unset db domainid m'.intervals = .error sqlError) := by
  rw [updateInDb, h.select_dimension]
  simp only [Option.map_some, Option.getD_some]
  constructor
  · intro hle
    obtain ⟨db₁, hok, hdim, hcounts⟩ := resize_grow h hle
    obtain ⟨db', hok', hdom, hval⟩ := foldlM_updateBounds m'.storable 0 db₁ [] _ rfl
      (fun r hr => absurd hr List.not_mem_nil) hcounts
    refine ⟨db', ?_, ?_, hval⟩
    · rw [show resize db domainid m.length m'.intervals.length = .ok db₁ from hok]
      exact hok'
    · rw [dimensionOf, hdom]
      exact hdim
  · intro hlt
    rw [show resize db domainid m.length m'.intervals.length = .error sqlError from
      resize_shrink h hlt]
    rfl

/-- **Deleting removes every row of a domain.** -/
theorem deleteFromDb_spec {m : Domain} (h : Stored db domainid m.intervals) :
    ∃ db', deleteFromDb db domainid = .ok db' ∧ Absent db' domainid := by
  have hdim : (dimensionOf db domainid).any (fun r => r.domainId == domainid) = true := by
    rw [h.dimension]
    simp
  have hval : (valuesOf db domainid).any (fun r => r.domainId == domainid) = true := by
    obtain ⟨s, ms, hms⟩ := List.exists_cons_of_length_pos m.dimension_pos
    rw [h.values, hms, rowsFrom_cons]
    simp
  obtain ⟨domains, hok, hdomains⟩ := delete_slice (p := fun r : DomainRow => r.domainId == domainid)
    (q := fun r => r.domainId == domainid) (t := db.rasDomains) sqlError (fun r h => h) hdim
  obtain ⟨values, hok', hvalues⟩ := delete_slice
    (p := fun r : DomainValueRow => r.domainId == domainid)
    (q := fun r => r.domainId == domainid) (t := db.rasDomainValues) sqlError (fun r h => h) hval
  refine ⟨⟨domains, values⟩, ?_, ?_, ?_⟩
  · rw [deleteFromDb, hok]
    change (SqlTable.delete sqlError (fun r => r.domainId == domainid) db.rasDomainValues >>= _) = _
    rw [hok']
    rfl
  · refine hdomains.trans (List.filter_eq_nil_iff.mpr fun r hr => ?_)
    simpa using (List.mem_filter.mp hr).2
  · refine hvalues.trans (List.filter_eq_nil_iff.mpr fun r hr => ?_)
    simpa using (List.mem_filter.mp hr).2

/-- The row that the domain has for one of its intervals. -/
theorem find_rowsFrom {ms : Minterval} {k : ℕ} {p : Sinterval × ℕ} (hp : p ∈ ms.zipIdx k) :
    (rowsFrom domainid k ms).find? (isRow domainid p.2) =
      some ⟨domainid, p.2, lowOf p.1, highOf p.1⟩ := by
  induction ms generalizing k with
  | nil => exact absurd hp List.not_mem_nil
  | cons s ms ih =>
    rw [rowsFrom_cons]
    rw [List.zipIdx_cons] at hp
    rcases List.mem_cons.mp hp with rfl | hp
    · exact List.find?_cons_of_pos (isRow_iff.mpr ⟨rfl, rfl⟩)
    · have hle := List.le_snd_of_mem_zipIdx hp
      rw [List.find?_cons_of_neg fun h => ?_, ih hp]
      have := (isRow_iff.mp h).2
      dsimp only at this
      omega

/-- The bounds in the row of an interval give the interval back. -/
theorem take_bounds {s : Sinterval} (hs : Storable s) :
    (do
      let s' ← match lowOf s with
        | some low => Sinterval.opened.setLow low
        | none => .ok Sinterval.opened.openLow
      match highOf s with
      | some high => s'.setHigh high
      | none => .ok s'.openHigh) = Except.ok s := by
  obtain ⟨low, high, lowFixed, highFixed⟩ := s
  obtain ⟨hlow, hhigh, hle, -, -⟩ := hs
  cases lowFixed <;> cases highFixed
  · obtain rfl : low = 0 := hlow rfl
    obtain rfl : high = 0 := hhigh rfl
    rfl
  · obtain rfl : low = 0 := hlow rfl
    rfl
  · obtain rfl : high = 0 := hhigh rfl
    rfl
  · exact if_neg fun h => absurd h.2 (not_lt.mpr (hle rfl rfl))

/-- The row of an interval gives the interval back. -/
theorem readInterval_eq {m : Minterval} (hm : ∀ s ∈ m, Storable s) (h : Stored db domainid m)
    {p : Sinterval × ℕ} (hp : p ∈ m.zipIdx) : readInterval db domainid p.2 = .ok p.1 := by
  have hrow := select_slice (t := db.rasDomainValues)
    fun r (h : isRow domainid p.2 r = true) => domainId_of_isRow r h
  rw [readInterval, hrow, show db.rasDomainValues.filter _ = _ from h.values, find_rowsFrom hp]
  exact take_bounds (hm p.1 (List.fst_mem_of_mem_zipIdx hp))

/-- **Reading gives the stored domain back.** -/
theorem readFromDb_eq {m : Minterval} (hm : ∀ s ∈ m, Storable s) (h : Stored db domainid m) :
    readFromDb db domainid = .ok m := by
  have hread : (m.zipIdx.map Prod.snd).mapM (readInterval db domainid) =
      .ok (m.zipIdx.map Prod.fst) := ExceptFold.mapM_map_ok fun p hp => readInterval_eq hm h hp
  rw [List.zipIdx_map_snd, List.zipIdx_map_fst, ← List.range_eq_range'] at hread
  rw [readFromDb, h.select_dimension]
  exact hread

/-! ## Histories -/

/-- The first assignment, which is inserted, and the later ones, which are updates. -/
def assignAll (unset : ℕ) (db : DomainTables) (domainid : OId) (first : Domain) (later : List Domain) :
    Except RError DomainTables := do
  let db ← insertInDb db domainid first.intervals
  later.foldlM (fun db m => updateInDb unset db domainid m.intervals) db

/-- No step of a history raises, the rows of the object are those of the dimensions of the last domain
assigned, reading gives that domain, and deleting leaves no row. -/
def Survives (unset : ℕ) (db : DomainTables) (domainid : OId) (first : Domain) (later : List Domain) :
    Prop :=
  let last := (first :: later).getLast (List.cons_ne_nil _ _)
  ∃ db', assignAll unset db domainid first later = .ok db' ∧
    (valuesOf db' domainid).map DomainValueRow.dimensionCount = List.range last.dimension ∧
    readFromDb db' domainid = .ok last.intervals ∧
    ∃ db'', deleteFromDb db' domainid = .ok db'' ∧ Absent db'' domainid

/-- **Updates that never shrink the dimension store the last domain.** -/
theorem foldlM_updateInDb (unset : ℕ) (later : List Domain) (m : Domain) (db : DomainTables)
    (h : Stored db domainid m.intervals)
    (hgrow : (m :: later).IsChain fun m m' => m.dimension ≤ m'.dimension) :
    ∃ db', later.foldlM (fun db m => updateInDb unset db domainid m.intervals) db = .ok db' ∧
      Stored db' domainid ((m :: later).getLast (List.cons_ne_nil _ _)).intervals := by
  induction later generalizing m db with
  | nil => exact ⟨db, rfl, h⟩
  | cons m' later ih =>
    obtain ⟨hle, hgrow⟩ := List.isChain_cons_cons.mp hgrow
    obtain ⟨db₁, hok, hstored⟩ := (updateInDb_spec h unset m').1 hle
    obtain ⟨db', hok', hstored'⟩ := ih m' db₁ hstored hgrow
    refine ⟨db', by rw [List.foldlM_cons, hok]; exact hok', ?_⟩
    rwa [List.getLast_cons (List.cons_ne_nil _ _)]

/-- Updates that do not raise never shrink the dimension. -/
theorem isChain_of_foldlM {unset : ℕ} (later : List Domain) (m : Domain) (db db' : DomainTables)
    (h : Stored db domainid m.intervals)
    (hok : later.foldlM (fun db m => updateInDb unset db domainid m.intervals) db = .ok db') :
    (m :: later).IsChain fun m m' => m.dimension ≤ m'.dimension := by
  induction later generalizing m db with
  | nil => exact .singleton m
  | cons m' later ih =>
    obtain ⟨hstore, hraise⟩ := updateInDb_spec h unset m'
    rw [List.foldlM_cons] at hok
    by_cases hle : m.dimension ≤ m'.dimension
    · obtain ⟨db₁, hok₁, hstored⟩ := hstore hle
      rw [hok₁] at hok
      exact List.isChain_cons_cons.mpr ⟨hle, ih m' db₁ hstored hok⟩
    · rw [hraise (not_le.mp hle)] at hok
      exact nomatch hok

/-- **A history of assignments survives exactly when the dimension never shrinks.** -/
theorem domains_survive_iff (unset : ℕ) (h : Absent db domainid) (first : Domain)
    (later : List Domain) :
    Survives unset db domainid first later ↔
      (first :: later).IsChain fun m m' => m.dimension ≤ m'.dimension := by
  obtain ⟨db₁, hins, hstored⟩ := insertInDb_spec h first
  constructor
  · rintro ⟨db', hok, -⟩
    rw [assignAll, hins] at hok
    exact isChain_of_foldlM later first db₁ db' hstored hok
  · intro hgrow
    obtain ⟨db', hok, hstored'⟩ := foldlM_updateInDb unset later first db₁ hstored hgrow
    set last := (first :: later).getLast (List.cons_ne_nil _ _) with hlast
    refine ⟨db', by rw [assignAll, hins]; exact hok, ?_, readFromDb_eq last.storable hstored',
      deleteFromDb_spec hstored'⟩
    rw [hstored'.values, map_dimensionCount_rowsFrom, ← hlast, List.range_eq_range']
    rfl

/-- `[0:9]` in each dimension. -/
def tenEach (dimension : ℕ) (h : 0 < dimension) : Domain where
  intervals := List.replicate dimension (.fixed 0 9)
  dimension_pos := by rwa [List.length_replicate]
  storable := fun s hs => by
    obtain rfl := List.eq_of_mem_replicate hs
    constructor <;> decide

/-- A domain that grows from one dimension to two survives. -/
theorem domains_survive_growing :
    Survives 0 ⟨[], []⟩ 7 (tenEach 1 (by decide)) [tenEach 2 (by decide)] :=
  (domains_survive_iff 0 ⟨rfl, rfl⟩ _ _).mpr (List.isChain_pair.mpr (by decide))

/-- A domain that shrinks from two dimensions to one does not: the update raises. -/
theorem shrinking_domain_raises :
    assignAll 0 ⟨[], []⟩ 7 (tenEach 2 (by decide)) [tenEach 1 (by decide)] = .error sqlError ∧
      ¬ Survives 0 ⟨[], []⟩ 7 (tenEach 2 (by decide)) [tenEach 1 (by decide)] := by
  have hraise : assignAll 0 ⟨[], []⟩ 7 (tenEach 2 (by decide)) [tenEach 1 (by decide)] =
      .error sqlError := by rfl
  refine ⟨hraise, ?_⟩
  rintro ⟨db', hok, -⟩
  exact nomatch hraise.symm.trans hok

end DBMinterval

end Rasdaman
