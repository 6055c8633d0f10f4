import Mathlib.Tactic.Ring
import Rasdaman.Machinery.Reader

/-!
# Servercomm/HttpResponse — the answers to an HTTP request

`processRequest` of the server counts the bytes of an answer, allocates them and fills them through a
pointer.  The server writes numbers in its own byte order and says which one it is, but doubles and cells are
big endian.
-/

namespace Rasdaman.HttpResponse

open Bytes Memory

/-! ## The server -/

/-- What ends an answer: no memory, or a write outside of it. -/
inductive Failure
  | badAlloc
  | outside
  deriving DecidableEq, Repr

/-- Memory of any length, with bytes that nobody has set. -/
abbrev Uninitialised := (n : ℕ) → { mem : Region // mem.length = n }

/-- A C string. -/
abbrev CText := { s : List UInt8 // 0 ∉ s }

/-- An array of a result; the cells are those of the tile after `swap_array`, and the string of an OID may be
`NULL`. -/
structure MDDResult where
  resultType : CText
  resultDomain : CText
  oid : Option CText
  contents : List UInt8

/-- What the server answers. -/
inductive Response
  | ackn (ackCode : UInt8) (hcode : ackCode = 99 ∨ ackCode = 98)
  | mdds (setTypeStructure : CText) (results : List MDDResult)
  | elements (typeStructure : CText) (resultElems : List (List UInt8))
  | empty
  | error (errorNo lineNo columnNo : ℕ) (text : CText)
  | oid (systemName baseName : CText) (localOId : BitVec 64)

variable (host : Order)

/-- `systemEndianess`. -/
def systemEndianess : UInt8 :=
  match host with
  | .big => 0
  | .little => 1

/-- `strcpy(currentPos, s)`, and the position behind it. -/
def emitText (s : CText) : Emitter := emit (s.1 ++ [0])

/-- `encodeLong` and `encodeULong`. -/
def encodeLong (v : ℤ) : Emitter := emit (storeInt host 4 v)

/-- A double, swapped where the server is little endian. -/
def encodeDouble (d : BitVec 64) : Emitter :=
  match host with
  | .little => emit (store .little 8 d.toNat).reverse
  | .big => emit (store .big 8 d.toNat)

/-- The bytes that are counted for an array. -/
def MDDResult.length (r : MDDResult) : ℕ :=
  r.resultType.1.length + 1 + (r.resultDomain.1.length + 1) +
    (match r.oid with
      | some s => s.1.length + 1
      | none => 1) + r.contents.length + 4

/-- The string of an OID, which might be `NULL`. -/
def emitOId : Option CText → Emitter
  | some s => emitText s
  | none => emit [0]

def MDDResult.emit (r : MDDResult) : Emitter := do
  emitText r.resultType
  emitText r.resultDomain
  emitOId r.oid
  encodeLong host r.contents.length
  Memory.emit r.contents

/-- An element of a collection, with an empty type. -/
def emitElem (e : List UInt8) : Emitter := do
  emit [0]
  encodeLong host e.length
  emit e

namespace Response

/-- The lengths that are added up, without a bound. -/
def length : Response → ℕ
  | ackn _ _ => 1
  | mdds setTypeStructure results =>
    6 + (results.map MDDResult.length).sum + (setTypeStructure.1.length + 1)
  | elements typeStructure resultElems =>
    6 + (typeStructure.1.length + 1) + (resultElems.map fun e => e.length + 1 + 4).sum
  | empty => 7
  | error _ _ _ text => 14 + text.1.length + 1
  | oid systemName baseName _ => 9 + (systemName.1.length + 1) + (baseName.1.length + 1)

/-- What is written through `currentPos`. -/
def fill : Response → Emitter
  | ackn ackCode _ => emit [ackCode]
  | mdds setTypeStructure results => do
    emit [1]
    emit [systemEndianess host]
    emitText setTypeStructure
    encodeLong host results.length
    emitAll (MDDResult.emit host) results
  | elements typeStructure resultElems => do
    emit [2]
    emit [systemEndianess host]
    emitText typeStructure
    encodeLong host resultElems.length
    emitAll (emitElem host) resultElems
  | empty => do
    emit [1]
    emit [systemEndianess host]
    emit [0]
    encodeLong host 0
  | error errorNo lineNo columnNo text => do
    emit [0]
    emit [systemEndianess host]
    encodeLong host errorNo
    encodeLong host lineNo
    encodeLong host columnNo
    emitText text
  | oid systemName baseName localOId => do
    emit [4]
    emitText systemName
    emitText baseName
    encodeDouble host localOId

/-- `totalLength`, an `int`. -/
def totalLength (r : Response) : ℤ := (r.length : ℤ).bmod (2 ^ 32)

/-- The answer, written into what `mymalloc` returns: some bytes of the length that is asked for.  A negative
length becomes a `size_t` that no memory has. -/
def encode (r : Response) (mymalloc : Uninitialised) : Except Failure Region :=
  if r.totalLength < 0 then .error .badAlloc
  else
    match r.fill host 0 (mymalloc r.totalLength.toNat).1 with
    | .ok (_, sent) => .ok sent
    | .error .outside => .error .outside

end Response

end Rasdaman.HttpResponse

/-!
## When an answer fits

An answer writes as many bytes as were counted for it (`Response.writes`).  They are the bytes that were
allocated unless the count does not fit its `int`: `answer_filled_iff`.
-/

namespace Rasdaman.HttpResponse

open Bytes Memory

/-! ### The bytes of an answer -/

def CText.bytes (s : CText) : List UInt8 := s.1 ++ [0]

/-- The string of an OID, or an empty one. -/
def MDDResult.oidText (r : MDDResult) : CText := r.oid.getD ⟨[], List.not_mem_nil⟩

def MDDResult.bytes (host : Order) (r : MDDResult) : List UInt8 :=
  r.resultType.bytes ++ (r.resultDomain.bytes ++ (r.oidText.bytes ++
    (storeInt host 4 r.contents.length ++ r.contents)))

def elemBytes (host : Order) (e : List UInt8) : List UInt8 := [0] ++ (storeInt host 4 e.length ++ e)

def Response.bytes (host : Order) : Response → List UInt8
  | ackn ackCode _ => [ackCode]
  | mdds setTypeStructure results => [1] ++ ([systemEndianess host] ++ (setTypeStructure.bytes ++
      (storeInt host 4 results.length ++ results.flatMap (MDDResult.bytes host))))
  | elements typeStructure resultElems => [2] ++ ([systemEndianess host] ++ (typeStructure.bytes ++
      (storeInt host 4 resultElems.length ++ resultElems.flatMap (elemBytes host))))
  | empty => [1] ++ ([systemEndianess host] ++ ([0] ++ storeInt host 4 0))
  | error errorNo lineNo columnNo text => [0] ++ ([systemEndianess host] ++ (storeInt host 4 errorNo ++
      (storeInt host 4 lineNo ++ (storeInt host 4 columnNo ++ text.bytes))))
  | oid systemName baseName localOId => [4] ++ (systemName.bytes ++ (baseName.bytes ++
      store .big 8 localOId.toNat))

theorem CText.length_bytes (s : CText) : s.bytes.length = s.1.length + 1 := List.length_append

theorem MDDResult.length_bytes (host : Order) (r : MDDResult) : (r.bytes host).length = r.length := by
  rw [MDDResult.bytes, MDDResult.length, MDDResult.oidText]
  simp only [List.length_append, CText.length_bytes, length_storeInt]
  cases r.oid with
  | none =>
    simp only [Option.getD_none, List.length_nil]
    omega
  | some s =>
    simp only [Option.getD_some]
    omega

theorem length_flatMap_bytes {α : Type} {f : α → List UInt8} {n : α → ℕ} (h : ∀ a, (f a).length = n a)
    (as : List α) : (as.flatMap f).length = (as.map n).sum := by
  rw [List.length_flatMap, List.map_congr_left fun a _ => h a]

/-- **What is counted is what is written.** -/
theorem Response.length_bytes (host : Order) (r : Response) : (r.bytes host).length = r.length := by
  cases r with
  | ackn => rfl
  | mdds setTypeStructure results =>
    simp only [Response.bytes, Response.length, List.length_append, List.length_singleton, CText.length_bytes,
      length_storeInt, length_flatMap_bytes (MDDResult.length_bytes host)]
    omega
  | elements typeStructure resultElems =>
    have helem : ∀ e : List UInt8, (elemBytes host e).length = e.length + 1 + 4 := fun e => by
      simp only [elemBytes, List.length_append, List.length_singleton, length_storeInt]
      omega
    simp only [Response.bytes, Response.length, List.length_append, List.length_singleton, CText.length_bytes,
      length_storeInt, length_flatMap_bytes helem]
    omega
  | empty => simp only [Response.bytes, Response.length, List.length_append, List.length_singleton, length_storeInt]
  | error =>
    simp only [Response.bytes, Response.length, List.length_append, List.length_singleton, CText.length_bytes,
      length_storeInt]
    omega
  | oid =>
    simp only [Response.bytes, Response.length, List.length_append, List.length_singleton, CText.length_bytes,
      length_store]
    omega

/-- The bytes of a double are the ones of a big endian machine. -/
theorem writes_double (host : Order) (d : BitVec 64) : Writes (encodeDouble host d) (store .big 8 d.toNat) := by
  cases host <;> exact writes_emit _

theorem MDDResult.writes (host : Order) (r : MDDResult) : Writes (r.emit host) (r.bytes host) := by
  have hoid : Writes (emitOId r.oid) r.oidText.bytes := by
    rw [MDDResult.oidText]
    cases r.oid <;> exact writes_emit _
  exact (writes_emit _).andThen ((writes_emit _).andThen (hoid.andThen ((writes_emit _).andThen (writes_emit _))))

theorem writes_elem (host : Order) (e : List UInt8) : Writes (emitElem host e) (elemBytes host e) :=
  (writes_emit _).andThen ((writes_emit _).andThen (writes_emit _))

theorem Response.writes (host : Order) (r : Response) : Writes (r.fill host) (r.bytes host) := by
  cases r with
  | ackn => exact writes_emit _
  | mdds setTypeStructure results =>
    exact (writes_emit _).andThen ((writes_emit _).andThen ((writes_emit _).andThen ((writes_emit _).andThen
      (.all fun r _ => r.writes host))))
  | elements typeStructure resultElems =>
    exact (writes_emit _).andThen ((writes_emit _).andThen ((writes_emit _).andThen ((writes_emit _).andThen
      (.all fun e _ => writes_elem host e))))
  | empty => exact (writes_emit _).andThen ((writes_emit _).andThen ((writes_emit _).andThen (writes_emit _)))
  | error =>
    exact (writes_emit _).andThen ((writes_emit _).andThen ((writes_emit _).andThen ((writes_emit _).andThen
      ((writes_emit _).andThen (writes_emit _)))))
  | oid => exact (writes_emit _).andThen ((writes_emit _).andThen ((writes_emit _).andThen (writes_double host _)))

/-- **An answer fills what was allocated for it**, and nothing of what was there before is sent, exactly
when its bytes are fewer than `2 ^ 31`. -/
theorem answer_filled_iff (host : Order) (r : Response) :
    (∃ sent : Region, (sent.length : ℤ) = r.totalLength ∧
      ∀ mymalloc, r.encode host mymalloc = .ok sent) ↔ r.length < 2 ^ 31 := by
  constructor
  · rintro ⟨sent, hlength, hsent⟩
    -- memory of zeros shows what is written
    have hrun := hsent fun n => ⟨List.replicate n 0, List.length_replicate⟩
    rw [Response.encode, if_neg (by omega)] at hrun
    by_contra hlarge
    have hshort : r.totalLength.toNat < (r.bytes host).length := by
      rw [r.length_bytes host]
      have hle : r.totalLength < 2147483648 := Int.bmod_lt (by norm_num)
      omega
    rw [(r.writes host).overrun (by rwa [List.length_replicate])] at hrun
    cases hrun
  · intro hlt
    have htotal : r.totalLength = r.length :=
      Int.bmod_eq_of_le (by norm_num <;> omega) (by norm_num <;> omega)
    refine ⟨r.bytes host, by rw [r.length_bytes host, htotal], fun mymalloc => ?_⟩
    have hmem : (mymalloc r.totalLength.toNat).1.length = (r.bytes host).length := by
      rw [(mymalloc _).2, r.length_bytes host, htotal, Int.toNat_natCast]
    rw [Response.encode, if_neg (by omega), (r.writes host).emits.fills hmem]

end Rasdaman.HttpResponse
