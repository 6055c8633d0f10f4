import Rasdaman.Machinery.Bytes
import Rasdaman.Machinery.ExceptFold
import Rasdaman.Machinery.Reader
import Rasdaman.Server.HttpRequest

/-!
# Servercomm/TransferEncoding — the arrays of an HTTP request

`getTransferEncoding` of the Java client writes an array with its type, domain and tiling, and `getMDDs` of
the server reads one array after another.  A text `null` stands for a reference to nothing, and the server
copies each text to a buffer of 1024 bytes.
-/

namespace Rasdaman.TransferEncoding

open Bytes Reading ByteText
open HttpRequest (Fault Query HTTPRequest)

/-! ## The client -/

/-- What the client throws. -/
inductive Exc
  | illegalULongValue
  | illegalUShortValue
  | arrayIndexOutOfBounds
  deriving DecidableEq, Repr

/-- The class of an array, as far as it matters. -/
inductive ArrayClass
  | rasMArrayLong
  | rasMArrayInteger
  | other
  deriving DecidableEq, Repr

/-- An array of the client; domains and the OID are given as their texts, and `tileDomain` is the one of the
storage layout or of `getTilingDomain`. -/
structure RasGMArray where
  cls : ArrayClass
  objectTypeName : List Char
  typeStructure : Option (List Char)
  typeLength : ℤ
  spatialDomain : List Char
  tileDomain : List Char
  oid : List Char
  array : List UInt8
  length_lt : array.length < 2 ^ 31

/-- `writeBytes`: the lower byte of each of the UTF-16 units. -/
def writeBytes (s : List Char) : List UInt8 := s.flatMap fun c =>
  if c.toNat < 65536 then [UInt8.ofNat c.toNat]
  else [UInt8.ofNat (0xD800 + (c.toNat - 0x10000) / 1024), UInt8.ofNat (0xDC00 + (c.toNat - 0x10000) % 1024)]

/-- A reference to a text, with the zero that ends it. -/
def writeText (s : Option (List Char)) : List UInt8 := writeBytes (s.getD "null".toList) ++ [0]

/-- `writeInt`. -/
def writeInt (v : ℤ) : List UInt8 := storeInt .big 4 v

/-- The loop that checks the upper half of each number and writes the lower one. -/
def narrow (illegal : Exc) (half : ℕ) : ℕ → List UInt8 → Except Exc (List UInt8)
  | 0, _ => .ok []
  | fuel + 1, bs =>
    if bs = [] then .ok []
    else if (bs.take half).any (· ≠ 0) then .error illegal
    else if bs.length < 2 * half then .error .arrayIndexOutOfBounds
    else do
      let rest ← narrow illegal half fuel (bs.drop (2 * half))
      pure ((bs.drop half).take half ++ rest)

/-- Whether the numbers of an array are sent in half their bytes, and what is thrown where they are too
large. -/
def RasGMArray.halved (m : RasGMArray) : Option (Exc × ℕ) :=
  match m.cls with
  | .rasMArrayLong => some (.illegalULongValue, 4)
  -- `regionMatches(0, "UShort", 0, 5)`
  | .rasMArrayInteger => if m.objectTypeName.take 5 = "UShor".toList then some (.illegalUShortValue, 2) else none
  | .other => none

/-- The bytes of the cells that are sent. -/
def RasGMArray.sentData (m : RasGMArray) : Except Exc (List UInt8) :=
  match m.halved with
  | some (illegal, half) => narrow illegal half m.array.length m.array
  | none => .ok m.array

/-- The size that is sent. -/
def RasGMArray.sentSize (m : RasGMArray) : ℕ :=
  match m.halved with
  | some _ => m.array.length / 2
  | none => m.array.length

/-- `getTransferEncoding`. -/
def RasGMArray.getTransferEncoding (m : RasGMArray) : Except Exc (List UInt8) := do
  let data ← m.sentData
  pure (writeInt 1 ++ writeText (some m.objectTypeName) ++ writeText m.typeStructure ++ writeInt m.typeLength ++
    writeText (some m.spatialDomain) ++ writeText (some m.tileDomain) ++ writeText (some m.oid) ++
    writeInt m.sentSize ++ data)

/-- The parameters of a request with arrays: `RasOQLQuery.execute`. -/
def execute (clientID : ℤ) (queryString : List Char) (mdds : List RasGMArray) : Except Exc (List Char) := do
  let mddData ← mdds.mapM RasGMArray.getTransferEncoding
  pure (Query.params ⟨clientID, queryString, mdds.length, mddData.flatten⟩)

/-! ## The server -/

/-- `MDDEncoding`; a text that is not there is `NULL`. -/
structure MDDEncoding where
  objectType : ℤ
  objectTypeName : Option (List UInt8)
  typeStructure : Option (List UInt8)
  typeLength : ℤ
  domain : Option (List UInt8)
  tileSize : Option (List UInt8)
  oidString : Option (List UInt8)
  dataSize : ℤ
  binData : List UInt8
  deriving DecidableEq, Repr

/-- `get_endianness()` as a number. -/
def endianness : Order → ℤ
  | .big => 0
  | .little => 1

/-- An `r_Long` in the byte order of the client. -/
def readLong (myEndianess : Order) (endianess : ℤ) : Reader Fault ℤ := do
  let bs ← bytes .outOfBuffer 4
  pure (loadInt myEndianess (if endianness myEndianess ≠ endianess then bs.reverse else bs))

/-- `strcpy` to the buffer, and a copy of it unless it says `null`. -/
def readText : Reader Fault (Option (List UInt8)) := do
  let s ← cstring .outOfBuffer
  if s.length < 1024 then pure (if s = getBytes "null".toList then none else some s)
  else throw .outOfBuffer

/-- `memcpy` of the cells. -/
def readData (dataSize : ℤ) : Reader Fault (List UInt8) :=
  if 0 ≤ dataSize then bytes .outOfBuffer dataSize.toNat else throw .outOfBuffer

/-- A round of `getMDDs`. -/
def readMDD (myEndianess : Order) (endianess : ℤ) : Reader Fault MDDEncoding := do
  let objectType ← readLong myEndianess endianess
  let objectTypeName ← readText
  let typeStructure ← readText
  let typeLength ← readLong myEndianess endianess
  let domain ← readText
  let tileSize ← readText
  let oidString ← readText
  let dataSize ← readLong myEndianess endianess
  let binData ← readData dataSize
  pure ⟨objectType, objectTypeName, typeStructure, typeLength, domain, tileSize, oidString, dataSize, binData⟩

/-- `getMDDs`: each array is put in front of the others. -/
def getMDDs (myEndianess : Order) (endianess : ℤ) (binData : List UInt8) : Except Fault (List MDDEncoding) := do
  let read ← toEnd .outOfBuffer (readMDD myEndianess endianess) binData.length binData
  pure read.reverse

/-- The arrays that `processRequest` inserts for an update or an insertion, in its order: from the back. -/
def transferredMDDs (myEndianess : Order) (info : HTTPRequest) : Except Fault (List MDDEncoding) :=
  if (info.command = 9 ∨ info.command = 11) ∧ 0 < info.binDataSize then do
    let transferred ← getMDDs myEndianess info.endianess (info.binData.getD [])
    pure transferred.reverse
  else pure []

end Rasdaman.TransferEncoding

/-!
## Which arrays the server inserts

The server inserts the arrays of a query in their order, with all that the client knows of them
(`arrives_iff`), provided that each text fits its buffer, that no text says `null`, and that the numbers
that are sent in half their bytes are small enough.
-/

namespace Rasdaman.TransferEncoding

open Bytes Reading ByteText
open HttpRequest (Fault Query HTTPRequest Plain)

variable {m : RasGMArray} {mdds : List RasGMArray} {bs data out : List UInt8} {v : ℤ} {my : Order} {t : List Char}

/-! ## Texts -/

/-- A text that the server reads as it is. -/
structure Sendable (t : List Char) : Prop where
  ne_null : t ≠ "null".toList
  length_lt : t.length < 1024
  chars : ∀ c ∈ t, c ≠ Char.ofNat 0 ∧ c.toNat < 256

theorem reads_text (h0 : 0 ∉ bs) (hlength : bs.length < 1024) :
    Reads readText (bs ++ [0]) (if bs = getBytes "null".toList then none else some bs) := by
  refine (reads_cstring _ h0).done ?_
  rw [if_pos hlength]
  exact .pure _

theorem writeBytes_eq (h : ∀ c ∈ t, c.toNat < 256) : writeBytes t = getBytes t := by
  induction t with
  | nil => rfl
  | cons c cs ih =>
    obtain ⟨hc, hcs⟩ := List.forall_mem_cons.mp h
    rw [writeBytes, List.flatMap_cons, if_pos (hc.trans (by decide)), getBytes, List.map_cons, if_pos hc]
    exact congrArg (UInt8.ofNat c.toNat :: ·) (ih hcs)

/-- **A text is read as it is** if and only if it is sendable, and no text as no text. -/
theorem readsIff_text (s : Option (List Char)) :
    ReadsIff readText (writeText s) (fun o => o.map latin1 = s) (∀ t, s = some t → Sendable t) where
  reads h := by
    cases s with
    | none =>
      have hnull : 0 ∉ getBytes "null".toList ∧ (getBytes "null".toList).length < 1024 := by decide
      exact ⟨none, reads_text hnull.1 hnull.2, rfl⟩
    | some t =>
      obtain ⟨hne, hlength, hchars⟩ := h t rfl
      have hlatin : latin1 (getBytes t) = t := latin1_getBytes_iff.mpr fun c hc => (hchars c hc).2
      have hzero : 0 ∉ getBytes t := fun h0 => (hchars _ ((mem_getBytes (by decide)).mp h0)).1 rfl
      have hread := reads_text hzero (by rwa [length_getBytes])
      rw [if_neg fun h => hne (by rw [← hlatin, h]; decide)] at hread
      refine ⟨some (getBytes t), ?_, congrArg some hlatin⟩
      rwa [writeText, Option.getD_some, writeBytes_eq fun c hc => (hchars c hc).2]
  only := by
    rintro rest o rest' hrun hmeant t rfl
    obtain ⟨v, rfl, rfl⟩ := Option.map_eq_some_iff.mp hmeant
    obtain ⟨s, mid, hs, hrun⟩ := bind_ok_iff.mp hrun
    split at hrun
    case isFalse => cases hrun
    case isTrue hlength =>
      by_cases hnull : s = getBytes "null".toList
      · rw [if_pos hnull] at hrun
        cases hrun
      · rw [if_neg hnull] at hrun
        cases hrun
        refine ⟨fun h => hnull ?_, by rwa [latin1, List.length_map], fun c hc => ?_⟩
        · rw [← getBytes_latin1 v, h]
        · obtain ⟨b, hb, rfl⟩ := List.mem_map.mp hc
          rw [toNat_ofNat_byte]
          refine ⟨fun h => cstring_ok hs ?_, b.toNat_lt⟩
          have hnat := toNat_ofNat_byte b
          rw [h] at hnat
          rwa [← UInt8.toNat_inj.mp (show (0 : UInt8).toNat = b.toNat from hnat)] at hb

/-! ## Numbers -/

theorem readLong_big (my : Order) (bs : List UInt8) :
    loadInt my (if endianness my ≠ 0 then bs.reverse else bs) = loadInt .big bs := by
  cases my with
  | big => rfl
  | little =>
    rw [if_pos (by decide), loadInt, loadInt, List.length_reverse]
    rfl

/-- **A number is read as it is**, on any machine, if and only if it has four bytes. -/
theorem readsIff_long (my : Order) (v : ℤ) :
    ReadsIff (readLong my 0) (writeInt v) (· = v) (SignedRange 4 v) where
  reads h := by
    refine ⟨v, (reads_bytes_of_length _ (length_storeInt ..)).done ?_, rfl⟩
    rw [readLong_big, loadInt_storeInt .big h]
    exact .pure v
  only := by
    rintro rest v rest' hrun rfl
    obtain ⟨bs, mid, hbs, hrun⟩ := bind_ok_iff.mp hrun
    have hlength : bs.length = 4 := by
      have hread := reads_bytes_of_length Fault.outOfBuffer (length_storeInt .big 4 v) rest
      cases hbs.symm.trans hread
      exact length_storeInt ..
    cases hrun
    rw [readLong_big, ← hlength]
    exact signedRange_loadInt .big bs

/-! ## Cells -/

/-- The cells that are sent: the same numbers in half their bytes, or all bytes. -/
def RasGMArray.Carries (m : RasGMArray) (data : List UInt8) : Prop :=
  match m.halved with
  | some (_, half) => ∃ xs : List ℕ, (∀ x ∈ xs, x < 256 ^ half) ∧ m.array = xs.flatMap (store .big (2 * half)) ∧
      data = xs.flatMap (store .big half)
  | none => data = m.array

theorem narrow_store {illegal : Exc} {half fuel : ℕ} (hhalf : 0 < half) {xs : List ℕ}
    (hxs : ∀ x ∈ xs, x < 256 ^ half) (hfuel : (xs.flatMap (store .big (2 * half))).length ≤ fuel) :
    narrow illegal half fuel (xs.flatMap (store .big (2 * half))) = .ok (xs.flatMap (store .big half)) := by
  induction xs generalizing fuel with
  | nil => cases fuel <;> rfl
  | cons x xs ih =>
    obtain ⟨hx, hxs⟩ := List.forall_mem_cons.mp hxs
    rw [List.flatMap_cons, List.length_append, length_store] at hfuel
    obtain ⟨fuel, rfl⟩ := Nat.exists_eq_add_of_le' (show 1 ≤ fuel by omega)
    have hlow : (store .big half x).length = half := length_store ..
    have hhigh : (List.replicate half (0 : UInt8)).length = half := List.length_replicate
    have htake : (store .big (2 * half) x ++ xs.flatMap (store .big (2 * half))).take half
        = List.replicate half 0 := by
      rw [store_double hx, List.append_assoc, List.take_left' hhigh]
    have hdrop : ((store .big (2 * half) x ++ xs.flatMap (store .big (2 * half))).drop half).take half
        = store .big half x := by
      rw [store_double hx, List.append_assoc, List.drop_left' hhigh, List.take_left' hlow]
    have hne : store .big (2 * half) x ++ xs.flatMap (store .big (2 * half)) ≠ [] := fun h => by
      have hnil := congrArg List.length h
      rw [List.length_append, length_store, List.length_nil] at hnil
      omega
    rw [List.flatMap_cons, List.flatMap_cons, narrow, if_neg hne, htake, if_neg (by simp),
      if_neg (by rw [List.length_append, length_store]; omega), hdrop, List.drop_left' (length_store ..),
      ih hxs (by omega)]
    rfl

/-- **What is left of an array** are its numbers, if they are small. -/
theorem narrow_ok_iff {illegal : Exc} {half fuel : ℕ} (hhalf : 0 < half) (hfuel : bs.length ≤ fuel) :
    narrow illegal half fuel bs = .ok out ↔ ∃ xs : List ℕ, (∀ x ∈ xs, x < 256 ^ half) ∧
      bs = xs.flatMap (store .big (2 * half)) ∧ out = xs.flatMap (store .big half) := by
  constructor
  · intro h
    induction fuel generalizing bs out with
    | zero =>
      obtain rfl := List.length_eq_zero_iff.mp (Nat.le_zero.mp hfuel)
      cases h
      exact ⟨[], nofun, rfl, rfl⟩
    | succ fuel ih =>
      rw [narrow] at h
      split at h
      next hnil =>
        cases h
        exact ⟨[], nofun, hnil, rfl⟩
      next =>
        split at h
        · cases h
        next hzero =>
          split at h
          · cases h
          next hlong =>
            cases hrest : narrow illegal half fuel (bs.drop (2 * half)) with
            | error => rw [hrest] at h; cases h
            | ok rest =>
              rw [hrest] at h
              cases h
              obtain ⟨xs, hxs, hbs, rfl⟩ := ih (by rw [List.length_drop]; omega) hrest
              have hhigh : bs.take half = List.replicate half 0 :=
                List.eq_replicate_iff.mpr ⟨by rw [List.length_take]; omega, by simpa using hzero⟩
              have hlength : ((bs.drop half).take half).length = half := by
                rw [List.length_take, List.length_drop]
                omega
              have hlow := store_load .big ((bs.drop half).take half)
              have hlt := load_lt .big ((bs.drop half).take half)
              rw [hlength] at hlow hlt
              refine ⟨load .big ((bs.drop half).take half) :: xs, List.forall_mem_cons.mpr ⟨hlt, hxs⟩, ?_, ?_⟩
              · rw [List.flatMap_cons, store_double hlt, hlow, ← hbs, ← hhigh, two_mul, ← List.drop_drop,
                  List.append_assoc, List.take_append_drop, List.take_append_drop]
              · rw [List.flatMap_cons, hlow]
  · rintro ⟨xs, hxs, rfl, rfl⟩
    exact narrow_store hhalf hxs hfuel

theorem RasGMArray.half_pos {illegal : Exc} {half : ℕ} (h : m.halved = some (illegal, half)) : 0 < half := by
  rw [RasGMArray.halved] at h
  cases hcls : m.cls with
  | rasMArrayLong =>
    rw [hcls] at h
    cases h
    decide
  | rasMArrayInteger =>
    rw [hcls] at h
    dsimp only at h
    split at h
    · cases h
      decide
    · cases h
  | other =>
    rw [hcls] at h
    cases h

theorem RasGMArray.sentData_iff : m.sentData = .ok data ↔ m.Carries data := by
  rw [RasGMArray.sentData, RasGMArray.Carries]
  cases hhalved : m.halved with
  | none => exact ⟨fun h => (Except.ok.inj h).symm, fun h => congrArg Except.ok h.symm⟩
  | some p => exact narrow_ok_iff (RasGMArray.half_pos hhalved) le_rfl

theorem RasGMArray.Carries.size (h : m.Carries data) : m.sentSize = data.length := by
  rw [RasGMArray.Carries] at h
  rw [RasGMArray.sentSize]
  cases hhalved : m.halved with
  | none =>
    rw [hhalved] at h
    rw [h]
  | some p =>
    rw [hhalved] at h
    obtain ⟨xs, -, harray, rfl⟩ := h
    simp only [harray, length_flatMap_store]
    rw [Nat.mul_left_comm, Nat.mul_div_cancel_left _ (by decide)]

theorem RasGMArray.Carries.signedRange (h : m.Carries data) : SignedRange 4 data.length := by
  have hle : data.length ≤ m.array.length := by
    rw [← h.size, RasGMArray.sentSize]
    split
    · exact Nat.div_le_self ..
    · exact le_rfl
  have hlt := m.length_lt
  rw [SignedRange]
  norm_num at hlt ⊢
  omega

/-! ## Arrays -/

/-- The bytes of an array with its data. -/
def RasGMArray.encoding (m : RasGMArray) (data : List UInt8) : List UInt8 :=
  writeInt 1 ++ (writeText (some m.objectTypeName) ++ (writeText m.typeStructure ++ (writeInt m.typeLength ++
    (writeText (some m.spatialDomain) ++ (writeText (some m.tileDomain) ++ (writeText (some m.oid) ++
      (writeInt data.length ++ data)))))))

theorem RasGMArray.getTransferEncoding_iff :
    m.getTransferEncoding = .ok out ↔ ∃ data, m.Carries data ∧ out = m.encoding data := by
  rw [RasGMArray.getTransferEncoding]
  cases hdata : m.sentData with
  | error e =>
    refine ⟨nofun, fun ⟨data, hcarries, _⟩ => ?_⟩
    rw [RasGMArray.sentData_iff.mpr hcarries] at hdata
    cases hdata
  | ok data =>
    have hcarries := RasGMArray.sentData_iff.mp hdata
    have hencoding : writeInt 1 ++ writeText (some m.objectTypeName) ++ writeText m.typeStructure ++
        writeInt m.typeLength ++ writeText (some m.spatialDomain) ++ writeText (some m.tileDomain) ++
        writeText (some m.oid) ++ writeInt m.sentSize ++ data = m.encoding data := by
      simp only [RasGMArray.encoding, hcarries.size, List.append_assoc]
    constructor
    · intro h
      exact ⟨data, hcarries, (Except.ok.inj h).symm.trans hencoding⟩
    · rintro ⟨data', hcarries', rfl⟩
      rw [RasGMArray.sentData_iff.mpr hcarries'] at hdata
      cases hdata
      exact congrArg Except.ok hencoding

/-- What the server is to know of an array. -/
structure Uploaded (m : RasGMArray) (e : MDDEncoding) : Prop where
  objectType : e.objectType = 1
  objectTypeName : e.objectTypeName.map latin1 = some m.objectTypeName
  typeStructure : e.typeStructure.map latin1 = m.typeStructure
  typeLength : e.typeLength = m.typeLength
  domain : e.domain.map latin1 = some m.spatialDomain
  tileSize : e.tileSize.map latin1 = some m.tileDomain
  oidString : e.oidString.map latin1 = some m.oid
  dataSize : e.dataSize = e.binData.length
  cells : m.Carries e.binData

/-- An array whose description is read as it is. -/
structure RasGMArray.Described (m : RasGMArray) : Prop where
  objectTypeName : Sendable m.objectTypeName
  typeStructure : ∀ t, m.typeStructure = some t → Sendable t
  typeLength : SignedRange 4 m.typeLength
  spatialDomain : Sendable m.spatialDomain
  tileDomain : Sendable m.tileDomain
  oid : Sendable m.oid

theorem readMDD_eq (my : Order) (endianess : ℤ) : readMDD my endianess =
    (fun p => ⟨p.1, p.2.1, p.2.2.1, p.2.2.2.1, p.2.2.2.2.1, p.2.2.2.2.2.1, p.2.2.2.2.2.2.1, p.2.2.2.2.2.2.2.1,
      p.2.2.2.2.2.2.2.2⟩) <$>
      both (readLong my endianess) fun _ => both readText fun _ => both readText fun _ =>
        both (readLong my endianess) fun _ => both readText fun _ => both readText fun _ =>
          both readText fun _ => both (readLong my endianess) readData := by
  simp only [readMDD, both, map_bind, bind_assoc, pure_bind, map_pure]

theorem readsIff_data (data : List UInt8) : ReadsIff (readData data.length) data (· = data) True := by
  rw [readData, if_pos (Int.natCast_nonneg _), Int.toNat_natCast]
  exact readsIff_bytes _ rfl

/-- **An array is read as it was sent** if and only if its description is. -/
theorem readsIff_mdd (my : Order) (h : m.Carries data) :
    ReadsIff (readMDD my 0) (m.encoding data) (Uploaded m) m.Described := by
  have htext := fun t : List Char => readsIff_text (some t)
  have hcells : ∀ n : ℤ, n = data.length → ReadsIff (readData n) data (· = data) True :=
    fun n hn => hn ▸ readsIff_data data
  have hread := (readsIff_long my 1).both fun _ _ => (htext m.objectTypeName).both fun _ _ =>
    (readsIff_text m.typeStructure).both fun _ _ => (readsIff_long my m.typeLength).both fun _ _ =>
      (htext m.spatialDomain).both fun _ _ => (htext m.tileDomain).both fun _ _ => (htext m.oid).both fun _ _ =>
        (readsIff_long my data.length).both hcells
  rw [readMDD_eq]
  refine (hread.map fun p => ?_).congr (fun _ => Iff.rfl) ?_
  · constructor
    · rintro ⟨h1, h2, h3, h4, h5, h6, h7, h8, h9⟩
      exact ⟨h1, h2, h3, h4, h5, h6, h7, by rw [h8, h9], by rw [h9]; exact h⟩
    · rintro ⟨h1, h2, h3, h4, h5, h6, h7, h8, h9⟩
      have hdata := Except.ok.inj ((RasGMArray.sentData_iff.mpr h9).symm.trans (RasGMArray.sentData_iff.mpr h))
      exact ⟨h1, h2, h3, h4, h5, h6, h7, by rw [← hdata]; exact h8, hdata⟩
  · simp only [Option.some.injEq, forall_eq']
    constructor
    · rintro ⟨-, h2, h3, h4, h5, h6, h7, -⟩
      exact ⟨h2, h3, h4, h5, h6, h7⟩
    · rintro ⟨h2, h3, h4, h5, h6, h7⟩
      exact ⟨by decide, h2, h3, h4, h5, h6, h7, h.signedRange, trivial⟩

/-! ## Requests -/

/-- What is sent for an array. -/
def RasGMArray.sent (m : RasGMArray) : List UInt8 := m.getTransferEncoding.toOption.getD []

theorem RasGMArray.Carries.sent (h : m.Carries data) : m.sent = m.encoding data := by
  rw [RasGMArray.sent, RasGMArray.getTransferEncoding_iff.mpr ⟨data, h, rfl⟩]
  rfl

theorem mapM_getTransferEncoding_iff {encs : List (List UInt8)} :
    mdds.mapM RasGMArray.getTransferEncoding = .ok encs ↔
      (∀ m ∈ mdds, ∃ data, m.Carries data) ∧ encs = mdds.map RasGMArray.sent := by
  rw [ExceptFold.mapM_eq_ok_iff]
  induction mdds generalizing encs with
  | nil => simp
  | cons m mdds ih =>
    rw [List.forall₂_cons_left_iff, List.forall_mem_cons, List.map_cons]
    constructor
    · rintro ⟨enc, encs, hfirst, hrest, rfl⟩
      obtain ⟨data, hcarries, rfl⟩ := RasGMArray.getTransferEncoding_iff.mp hfirst
      obtain ⟨hall, rfl⟩ := ih.mp hrest
      exact ⟨⟨⟨data, hcarries⟩, hall⟩, by rw [hcarries.sent]⟩
    · rintro ⟨⟨⟨data, hcarries⟩, hall⟩, rfl⟩
      refine ⟨_, _, RasGMArray.getTransferEncoding_iff.mpr ⟨data, hcarries, ?_⟩, ih.mpr ⟨hall, rfl⟩, rfl⟩
      exact hcarries.sent

/-- **The arrays of a request are read as they were sent** if and only if their descriptions are. -/
theorem toEnd_sent_iff (my : Order) {fuel : ℕ} (hcarries : ∀ m ∈ mdds, ∃ data, m.Carries data)
    (hfuel : (mdds.flatMap RasGMArray.sent).length ≤ fuel) :
    (∃ es, toEnd Fault.outOfBuffer (readMDD my 0) fuel (mdds.flatMap RasGMArray.sent) = .ok es ∧
      List.Forall₂ Uploaded mdds es) ↔ ∀ m ∈ mdds, m.Described := by
  refine ReadsIff.toEnd (fun m hm => ?_) hfuel
  obtain ⟨data, hdata⟩ := hcarries m hm
  rw [hdata.sent]
  refine ⟨readsIff_mdd my hdata, fun h => ?_⟩
  have hlength := congrArg List.length h
  rw [RasGMArray.encoding, List.length_append, writeInt, length_storeInt, List.length_nil] at hlength
  omega

variable {q : Query}

/-- A select query brings no arrays. -/
theorem transferredMDDs_select (h : q.isSelect = true) : transferredMDDs my q.request = .ok [] := by
  rw [Query.request, if_pos h, transferredMDDs, if_neg (fun h => absurd h.2 (lt_irrefl 0))]
  rfl

theorem transferredMDDs_other (h : q.isSelect = false) (hnone : q.numberOfParams = 0 → q.mddData = []) :
    transferredMDDs my q.request = toEnd .outOfBuffer (readMDD my 0) q.mddData.length q.mddData := by
  have hcommand : q.command = 9 ∨ q.command = 11 := by
    rw [Query.command, h]
    split
    next h' => cases h'
    next => split <;> simp
  rw [Query.request, h, if_neg Bool.false_ne_true]
  by_cases hdata : q.mddData = []
  · have hsize : ¬(0 : ℤ) < q.mddData.length := by rw [hdata]; decide
    split
    · rw [transferredMDDs, if_neg fun h => hsize h.2, hdata]
      rfl
    · rw [transferredMDDs, if_neg fun h => lt_irrefl _ h.2, hdata]
      rfl
  · have hpos : 0 < q.numberOfParams := Nat.pos_of_ne_zero fun h => hdata (hnone h)
    have hsize : (0 : ℤ) < q.mddData.length := Int.natCast_pos.mpr (List.length_pos_iff.mpr hdata)
    rw [if_pos hpos, transferredMDDs, if_pos ⟨hcommand, hsize⟩]
    change (getMDDs my 0 q.mddData >>= fun transferred => pure transferred.reverse) = _
    rw [getMDDs]
    cases toEnd Fault.outOfBuffer (readMDD my 0) q.mddData.length q.mddData with
    | error => rfl
    | ok es => exact congrArg Except.ok es.reverse_reverse

/-- A query of the client comes to the server as it is, and its arrays are inserted in their order. -/
def Arrives (my : Order) (clientID : ℤ) (queryString : List Char) (mdds : List RasGMArray) : Prop :=
  ∃ params fuel info es, execute clientID queryString mdds = .ok params ∧
    HttpRequest.getHTTPRequestTemp (getBytes params) fuel = some (.ok (0, info)) ∧
    info.clientID = some (getBytes (Decimal.text clientID)) ∧ info.queryString.map latin1 = some queryString ∧
    transferredMDDs my info = .ok es ∧ List.Forall₂ Uploaded mdds es

/-- An array that the server can insert. -/
structure RasGMArray.Sendable (m : RasGMArray) : Prop extends m.Described where
  carries : ∃ data, m.Carries data

/-- **A query with arrays arrives** on any machine if and only if its text is plain, the arrays can be sent,
and there are none in a select query. -/
theorem arrives_iff (my : Order) (clientID : ℤ) (queryString : List Char) (mdds : List RasGMArray) :
    Arrives my clientID queryString mdds ↔ Plain queryString ∧ (∀ m ∈ mdds, m.Sendable) ∧
      (HttpRequest.startsWith "select" queryString = true → mdds = []) := by
  have hflat : (mdds.map RasGMArray.sent).flatten = mdds.flatMap RasGMArray.sent := (List.flatMap_def ..).symm
  set q : Query := ⟨clientID, queryString, mdds.length, mdds.flatMap RasGMArray.sent⟩ with hq
  have hnone : q.numberOfParams = 0 → q.mddData = [] := fun h => by
    rw [hq] at h ⊢
    rw [List.length_eq_zero_iff.mp h]
    rfl
  constructor
  · rintro ⟨params, fuel, info, es, hparams, hrun, -, hquery, htransfer, hall⟩
    obtain ⟨encs, hencs, hparams⟩ := ExceptFold.bind_eq_ok hparams
    obtain ⟨hcarries, rfl⟩ := mapM_getTransferEncoding_iff.mp hencs
    rw [hflat] at hparams
    cases hparams
    have hplain := HttpRequest.plain_of_run hrun hquery
    have hinfo := HttpRequest.getHTTPRequestTemp_unique hrun (HttpRequest.run_of_plain (q := q) hplain)
    cases hinfo
    cases hselect : q.isSelect with
    | true =>
      rw [transferredMDDs_select hselect] at htransfer
      cases htransfer
      obtain rfl := List.forall₂_nil_right_iff.mp hall
      exact ⟨hplain, nofun, fun _ => rfl⟩
    | false =>
      rw [transferredMDDs_other hselect hnone] at htransfer
      have hdescribed := (toEnd_sent_iff my hcarries le_rfl).mp ⟨es, htransfer, hall⟩
      exact ⟨hplain, fun m hm => ⟨hdescribed m hm, hcarries m hm⟩, fun h => absurd (hselect.symm.trans h) nofun⟩
  · rintro ⟨hplain, hall, hselect⟩
    have hcarries := fun m hm => (hall m hm).carries
    have hparams : execute clientID queryString mdds = .ok q.params := by
      rw [execute, mapM_getTransferEncoding_iff.mpr ⟨hcarries, rfl⟩, hq, ← hflat]
      rfl
    have hlatin : latin1 (getBytes queryString) = queryString :=
      latin1_getBytes_iff.mpr fun c hc => (hplain.2 c hc).2.2
    have hasked : q.request.clientID = some (getBytes (Decimal.text clientID)) ∧
        q.request.queryString.map latin1 = some queryString := by
      rw [Query.request]
      split
      · exact ⟨rfl, congrArg some hlatin⟩
      · split <;> exact ⟨rfl, congrArg some hlatin⟩
    suffices htransfer : ∃ es, transferredMDDs my q.request = .ok es ∧ List.Forall₂ Uploaded mdds es by
      obtain ⟨es, htransfer, hes⟩ := htransfer
      exact ⟨q.params, 7, q.request, es, hparams, HttpRequest.run_of_plain hplain, hasked.1, hasked.2, htransfer, hes⟩
    cases hkind : q.isSelect with
    | true =>
      obtain rfl := hselect hkind
      exact ⟨[], transferredMDDs_select hkind, .nil⟩
    | false =>
      rw [transferredMDDs_other hkind hnone]
      exact (toEnd_sent_iff my hcarries le_rfl).mpr fun m hm => (hall m hm).toDescribed

end Rasdaman.TransferEncoding
