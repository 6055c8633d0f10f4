import Rasdaman.Machinery.Counters
import Rasdaman.Raslib.Sinterval

/-!
# Reladminif/OIdIf — object ids and the table of their counters

Object ids are drawn from static counters of the server, which a transaction loads from `RAS_COUNTERS` at
its start (`initialize`) and writes back before it commits (`deinitialize`).  The table has a row for each
type of ids, but some types share a counter: a load overwrites it several times, and the last row wins.
-/

namespace Rasdaman

/-- `OId::OIdType`. -/
inductive OIdType
  | invalid
  | mddOId
  | mddCollOId
  | mddTypeOId
  | mddBaseTypeOId
  | mddDimTypeOId
  | mddDomTypeOId
  | structTypeOId
  | setTypeOId
  | blobOId
  | dbMintervalOId
  | storageOId
  | mddHierIxOId
  | dbTCIndexOId
  | inlineTileOId
  | innerOId
  | atomicTypeOId
  | udfOId
  | udfPackageOId
  | mddRCIxOId
  deriving DecidableEq, Repr

/-- The enumerators in order, which are the indices of `counterNames` and `counterIds`. -/
def OIdType.all : List OIdType :=
  [.invalid, .mddOId, .mddCollOId, .mddTypeOId, .mddBaseTypeOId, .mddDimTypeOId, .mddDomTypeOId,
    .structTypeOId, .setTypeOId, .blobOId, .dbMintervalOId, .storageOId, .mddHierIxOId,
    .dbTCIndexOId, .inlineTileOId, .innerOId, .atomicTypeOId, .udfOId, .udfPackageOId, .mddRCIxOId]

/-- The static counters of `OId` that `counterIds` points to. -/
inductive OIdCounter
  | nextMDDOId
  | nextMDDCollOId
  | nextMDDTypeOId
  | nextMDDBaseTypeOId
  | nextMDDDimTypeOId
  | nextMDDDomTypeOId
  | nextStructTypeOId
  | nextSetTypeOId
  | nextBlobOId
  | nextDBMintervalOId
  | nextStorageOId
  | nextMDDHierIxOId
  | nextAtomicTypeOId
  | nextUdfOId
  | nextUdfPackageOId
  | nextMDDRCIxOId
  deriving DecidableEq, Repr

namespace OIdIf

open OIdType OIdCounter

/-! ## The names and the counters of the types -/

/-- `maxCounter`. -/
def maxCounter : ℕ := 20

/-- `counterNames`. -/
def counterNames : OIdType → String
  | invalid => "INVALID"
  | mddOId => "MDDOID"
  | mddCollOId => "MDDCOLLOID"
  | mddTypeOId => "MDDTYPEOID"
  | mddBaseTypeOId => "MDDBASETYPEOID"
  | mddDimTypeOId => "MDDDIMTYPEOID"
  | mddDomTypeOId => "MDDDOMTYPEOID"
  | structTypeOId => "STRUCTTYPEOID"
  | setTypeOId => "SETTYPEOID"
  | blobOId => "BLOBOID"
  | dbMintervalOId => "DBMINTERVALOID"
  | storageOId => "STORAGEOID"
  | mddHierIxOId => "MDDHIERIXOID"
  | dbTCIndexOId => "INLINEINDEXOID"
  | inlineTileOId => "INLINETILEOID"
  | innerOId => "INNEROID"
  | atomicTypeOId => "ATOMICTYPEOID"
  | udfOId => "UDFOID"
  | udfPackageOId => "UDFPACKAGEOID"
  | mddRCIxOId => "MDDRCIXOID"

/-- `counterIds`; the first pointer is `NULL`. -/
def counterIds : OIdType → Option OIdCounter
  | invalid => none
  | mddOId => some nextMDDOId
  | mddCollOId => some nextMDDCollOId
  | mddTypeOId => some nextMDDTypeOId
  | mddBaseTypeOId => some nextMDDBaseTypeOId
  | mddDimTypeOId => some nextMDDDimTypeOId
  | mddDomTypeOId => some nextMDDDomTypeOId
  | structTypeOId => some nextStructTypeOId
  | setTypeOId => some nextSetTypeOId
  | blobOId => some nextBlobOId
  | dbMintervalOId => some nextDBMintervalOId
  | storageOId => some nextStorageOId
  | mddHierIxOId => some nextMDDHierIxOId
  | dbTCIndexOId => some nextMDDHierIxOId
  | inlineTileOId => some nextBlobOId
  | innerOId => some nextBlobOId
  | atomicTypeOId => some nextAtomicTypeOId
  | udfOId => some nextUdfOId
  | udfPackageOId => some nextUdfPackageOId
  | mddRCIxOId => some nextMDDRCIxOId

/-- What the loops from 1 below `maxCounter` go through: the names, each with its counter. -/
def counters : List (String × OIdCounter) :=
  OIdType.all.filterMap fun t => (counterIds t).map fun c => (counterNames t, c)

/-! ## The table and the counters of a server -/

/-- The rows of `RAS_COUNTERS`: `CounterName` and `NextValue`. -/
abbrev Rows := List (String × ℕ)

/-- `UPDATE RAS_COUNTERS SET NextValue = nextoid WHERE CounterName = name`. -/
def update (rows : Rows) (name : String) (nextoid : ℕ) : Rows :=
  rows.map fun r => (r.1, if r.1 = name then nextoid else r.2)

/-- The rows that `DatabaseIf::createDB` inserts. -/
def createDB : Rows := counters.map fun p => (p.1, 1)

/-- The static data of a server process: the counters of `OId`, the flags of `AdminIf`, and `isReadOnly` of
its `TransactionIf`. -/
structure Server where
  next : OIdCounter → ℕ
  loadedOk : Bool
  aborted : Bool
  readOnlyTA : Bool
  isReadOnly : Bool

/-- One round of the loop of `OId::initialize`: where there is no row, `generateException`. -/
def load (rows : Rows) (sv : Server) (p : String × OIdCounter) : Except Server Server :=
  match rows.lookup p.1 with
  | some nextoid => .ok { sv with next := Function.update sv.next p.2 nextoid }
  | none => .error sv

/-- `OId::initialize`.  An exception leaves the server as it is then. -/
def initializeOIds (rows : Rows) (sv : Server) : Except Server Server := do
  let sv ← counters.foldlM (load rows) { sv with loadedOk := false }
  return { sv with loadedOk := true }

/-- What `OId::deinitialize` makes of the rows. -/
def written (rows : Rows) (sv : Server) : Rows :=
  if sv.readOnlyTA then rows
  else if sv.aborted then rows
  else if !sv.loadedOk then rows
  else counters.foldl (fun rows p => update rows p.1 (sv.next p.2)) rows

/-- `OId::deinitialize`. -/
def deinitializeOIds (rows : Rows) (sv : Server) : Rows × Server :=
  (written rows sv, { sv with loadedOk := false })

/-- `allocateOId`: the id, and the server after it. -/
def allocateOId (sv : Server) (type : OIdType) (howMany : ℕ) : Except Halt (ℕ × Server) :=
  if howMany = 0 then .error (.throws .creatingOIdFailed)
  else if type = invalid ∨ type = innerOId ∨ type = atomicTypeOId ∨ type.ctorIdx > maxCounter then
    .error (.throws .creatingOIdFailed)
  else
    match counterIds type with
    | some c => .ok (sv.next c, { sv with next := Function.update sv.next c (sv.next c + howMany) })
    | none => .error .outside

/-! ## The table holds one value for each counter -/

theorem names_nodup : (counters.map Prod.fst).Nodup := by decide

/-- Each counter has a name. -/
theorem exists_name (c : OIdCounter) : ∃ name, (name, c) ∈ counters := by
  suffices h : c ∈ counters.map Prod.snd by
    obtain ⟨p, hp, rfl⟩ := List.mem_map.mp h
    exact ⟨p.1, hp⟩
  cases c <;> decide

/-- The rows of all names of a counter have its value. -/
def Holds (rows : Rows) (value : OIdCounter → ℕ) : Prop :=
  ∀ p ∈ counters, rows.lookup p.1 = some (value p.2)

theorem lookup_update (rows : Rows) (name name' : String) (n : ℕ) :
    (update rows name n).lookup name' =
      (rows.lookup name').map fun nextoid => if name' = name then n else nextoid := by
  induction rows with
  | nil => rfl
  | cons r rows ih =>
    obtain ⟨k, nextoid⟩ := r
    rw [update] at ih ⊢
    rw [List.map_cons, List.lookup_cons, List.lookup_cons]
    by_cases hk : name' = k
    · simp [hk]
    · have hbeq : (name' == k) = false := by simpa using hk
      simp only [hbeq]
      exact ih

theorem holds_createDB : Holds createDB fun _ => 1 := by
  have h : ∀ p ∈ counters, createDB.lookup p.1 = some 1 := by decide
  exact h

/-- The loop of `initialize` sets the counters of its names and leaves the others. -/
theorem foldlM_load {rows : Rows} {value : OIdCounter → ℕ} (h : Holds rows value)
    (l : List (String × OIdCounter)) (hl : ∀ p ∈ l, p ∈ counters) (sv : Server) :
    ∃ next, l.foldlM (load rows) sv = .ok { sv with next := next } ∧
      (∀ p ∈ l, next p.2 = value p.2) ∧ ∀ c ∉ l.map Prod.snd, next c = sv.next c := by
  induction l generalizing sv with
  | nil => exact ⟨sv.next, rfl, by simp, fun _ _ => rfl⟩
  | cons p l ih =>
    obtain ⟨hp, hl⟩ := List.forall_mem_cons.mp hl
    obtain ⟨next, heq, hset, hkeep⟩ :=
      ih hl { sv with next := Function.update sv.next p.2 (value p.2) }
    refine ⟨next, ?_, ?_, fun c hc => ?_⟩
    · rw [List.foldlM_cons, load, h p hp]
      exact heq
    · intro q hq
      rcases List.mem_cons.mp hq with rfl | hq
      · by_cases hc : q.2 ∈ l.map Prod.snd
        · obtain ⟨r, hr, hrq⟩ := List.mem_map.mp hc
          rw [← hrq, hset r hr]
        · rw [hkeep _ hc]
          exact Function.update_self _ _ _
      · exact hset q hq
    · rw [List.map_cons, List.mem_cons, not_or] at hc
      rw [hkeep c hc.2]
      exact Function.update_of_ne hc.1 _ _

/-- **Loading takes the value of each counter.** -/
theorem initializeOIds_eq {rows : Rows} {value : OIdCounter → ℕ} (h : Holds rows value)
    (sv : Server) : initializeOIds rows sv = .ok { sv with next := value, loadedOk := true } := by
  obtain ⟨next, heq, hset, -⟩ := foldlM_load h counters (fun _ => id) { sv with loadedOk := false }
  have hvalue : next = value := by
    funext c
    obtain ⟨name, hname⟩ := exists_name c
    exact hset _ hname
  rw [initializeOIds, heq, hvalue]
  rfl

/-- The loop of `deinitialize` sets the rows of its names and leaves the others. -/
theorem lookup_updates (next : OIdCounter → ℕ) (l : List (String × OIdCounter))
    (hnodup : (l.map Prod.fst).Nodup) (rows : Rows) (hrows : ∀ p ∈ l, rows.lookup p.1 ≠ none) :
    (∀ p ∈ l, (l.foldl (fun rows q => update rows q.1 (next q.2)) rows).lookup p.1 =
        some (next p.2)) ∧
      ∀ name ∉ l.map Prod.fst,
        (l.foldl (fun rows q => update rows q.1 (next q.2)) rows).lookup name = rows.lookup name := by
  induction l generalizing rows with
  | nil => exact ⟨by simp, fun _ _ => rfl⟩
  | cons p l ih =>
    rw [List.map_cons, List.nodup_cons] at hnodup
    obtain ⟨hp, hl⟩ := List.forall_mem_cons.mp hrows
    obtain ⟨hset, hkeep⟩ := ih hnodup.2 (update rows p.1 (next p.2)) fun q hq => by
      rw [lookup_update, Ne, Option.map_eq_none_iff]
      exact hl q hq
    rw [List.foldl_cons]
    refine ⟨fun q hq => ?_, fun name hname => ?_⟩
    · rcases List.mem_cons.mp hq with rfl | hq
      · obtain ⟨n, hn⟩ := Option.ne_none_iff_exists'.mp hp
        rw [hkeep q.1 hnodup.1, lookup_update, hn, Option.map_some, if_pos rfl]
      · exact hset q hq
    · rw [List.map_cons, List.mem_cons, not_or] at hname
      rw [hkeep name hname.2, lookup_update]
      simp [hname.1]

/-- **Writing back stores the value of each counter under all its names.** -/
theorem holds_written {rows : Rows} {value : OIdCounter → ℕ} {sv : Server} (h : Holds rows value)
    (hloaded : sv.loadedOk = true) (hwrite : sv.readOnlyTA = false) (haborted : sv.aborted = false) :
    Holds (written rows sv) sv.next := by
  have hrows : ∀ p ∈ counters, rows.lookup p.1 ≠ none := fun p hp => by
    rw [h p hp]
    exact Option.some_ne_none _
  simp only [written, hloaded, hwrite, haborted, Bool.false_eq_true, if_false, Bool.not_true]
  exact (lookup_updates sv.next counters names_nodup rows hrows).1

end OIdIf

end Rasdaman
