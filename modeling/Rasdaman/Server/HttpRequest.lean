import Rasdaman.Machinery.ByteText

/-!
# Server/HttpRequest — the requests of the Java client

`RasOQLQuery::execute` writes a query, and the arrays in it, as the parameters of an HTTP request, and
`GetHTTPRequestTemp` of the server takes them apart again with `strtok`.  A value ends at the next `&`, and
a name that the server does not know is looked at for ever.
-/

namespace Rasdaman.HttpRequest

open ByteText

/-! ## The client -/

/-- What `RasOQLQuery::execute` asks for: the arrays are those of the transfer encoding, and the query is
the one that names them. -/
structure Query where
  clientID : ℤ
  queryString : List Char
  numberOfParams : ℕ
  mddData : List UInt8

/-- `toLowerCase().startsWith`. -/
def startsWith (keyword : String) (query : List Char) : Bool :=
  keyword.toList.isPrefixOf (query.map Char.toLower)

def Query.isSelect (q : Query) : Bool := startsWith "select" q.queryString

/-- `commQueryExec`, `commInsertQueryExec` or `commUpdateQueryExec`. -/
def Query.command (q : Query) : ℤ :=
  if q.isSelect then 8 else if startsWith "insert" q.queryString then 11 else 9

/-- `BIG_ENDIAN` of the Java client. -/
def bigEndian : ℤ := 0

/-- The parameters of a request. -/
def Query.params (q : Query) : List Char :=
  let params := "Command=".toList ++ Decimal.text q.command ++ "&ClientID=".toList ++
    Decimal.text q.clientID ++ "&QueryString=".toList ++ q.queryString
  if q.isSelect then params else
    let params := params ++ "&Endianess=".toList ++ Decimal.text bigEndian ++
      "&NumberOfQueryParameters=".toList ++ Decimal.text q.numberOfParams
    if 0 < q.numberOfParams then
      params ++ "&BinDataSize=".toList ++ Decimal.text q.mddData.length ++ "&BinData=".toList ++
        latin1 q.mddData
    else params

/-! ## The server -/

structure HTTPRequest where
  database : Option (List UInt8) := none
  command : ℤ := 0
  queryString : Option (List UInt8) := none
  clientType : ℤ := 0
  clientID : Option (List UInt8) := none
  endianess : ℤ := 0
  numberOfQueryParams : ℤ := 0
  binData : Option (List UInt8) := none
  binDataSize : ℤ := 0
  capability : Option (List UInt8) := none
  deriving DecidableEq, Repr

/-- What the server must not do. -/
inductive Fault
  | nullPointer
  | outOfBuffer
  deriving DecidableEq, Repr

/-- The loop of `GetHTTPRequestTemp`: the name in `Buffer`, where `strtok` goes on, and what is known. -/
structure Scan where
  buffer : Option (List UInt8)
  rest : List UInt8
  info : HTTPRequest
  result : ℤ
  deriving DecidableEq, Repr

/-- `strtok(.., "=")`. -/
def Scan.name (text : List UInt8) (info : HTTPRequest) (result : ℤ) : Scan :=
  match strtok 61 text with
  | none => ⟨none, [], info, result⟩
  | some (name, rest) => ⟨some name, rest, info, result⟩

/-- A value is read with `strtok(NULL, "&")`, and the next name. -/
def Scan.value (s : Scan) (use : List UInt8 → HTTPRequest × ℤ) : Except Fault Scan :=
  match strtok 38 s.rest with
  | none => .error .nullPointer
  | some (v, rest) => .ok (.name rest (use v).1 (use v).2)

/-- The names the server knows. -/
inductive Parameter
  | database
  | queryString
  | capability
  | clientID
  | command
  | endianess
  | numberOfQueryParameters
  | binDataSize
  | binData
  | clientType
  deriving DecidableEq, Repr

/-- The bytes of a name. -/
def key (name : String) : List UInt8 := getBytes name.toList

/-- The comparisons with `strcmp`. -/
def parameter (name : List UInt8) : Option Parameter :=
  if name = key "Database" then some .database
  else if name = key "QueryString" then some .queryString
  else if name = key "Capability" then some .capability
  else if name = key "ClientID" then some .clientID
  else if name = key "Command" then some .command
  else if name = key "Endianess" then some .endianess
  else if name = key "NumberOfQueryParameters" then some .numberOfQueryParameters
  else if name = key "BinDataSize" then some .binDataSize
  else if name = key "BinData" then some .binData
  else if name = key "ClientType" then some .clientType
  else none

/-- One round of the loop. -/
def Scan.step (source name : List UInt8) (s : Scan) : Except Fault Scan :=
  let i := s.info
  match parameter name with
  | some .database => s.value fun v => ({ i with database := some v }, s.result)
  | some .queryString => s.value fun v => ({ i with queryString := some v }, s.result)
  | some .capability => s.value fun v => ({ i with capability := some v }, s.result)
  | some .clientID => s.value fun v => ({ i with clientID := some v }, s.result)
  | some .command => s.value fun v => ({ i with command := atoi v }, s.result)
  | some .endianess => s.value fun v => ({ i with endianess := atoi v }, s.result)
  | some .numberOfQueryParameters => s.value fun v => ({ i with numberOfQueryParams := atoi v }, s.result)
  | some .binDataSize => s.value fun v => ({ i with binDataSize := atoi v }, s.result)
  | some .binData =>
    if 0 ≤ i.binDataSize ∧ i.binDataSize ≤ source.length then
      .ok ⟨none, s.rest, { i with binData := some (source.drop (source.length - i.binDataSize.toNat)) }, s.result⟩
    else .error .outOfBuffer
  | some .clientType => s.value fun v =>
    if v = key "BROWSER" then ({ i with clientType := 1 }, s.result)
    else if v = key "RASCLIENT" then ({ i with clientType := 2 }, s.result)
    else (i, 2)
  -- the loop goes on with the same name
  | none => .ok { s with result := 1 }

/-- The loop; without an outcome it is still running. -/
def Scan.loop (source : List UInt8) : ℕ → Scan → Option (Except Fault Scan)
  | fuel, s => match s.buffer with
    | none => some (.ok s)
    | some name => match fuel with
      | 0 => none
      | fuel + 1 => match s.step source name with
        | .error e => some (.error e)
        | .ok s => loop source fuel s

/-- `GetHTTPRequestTemp`: the return value and the request. -/
def getHTTPRequestTemp (source : List UInt8) (fuel : ℕ) : Option (Except Fault (ℤ × HTTPRequest)) :=
  let start := Scan.name (source.takeWhile (· ≠ 0)) {} 0
  (start.loop source fuel).map (Except.map fun s => (s.result, s.info))

end Rasdaman.HttpRequest

/-!
## Which queries the server receives

The parameters that `RasOQLQuery::execute` writes are read one by one (`received_iff`), provided that the
query is a text that `strtok` takes for one value.
-/

namespace Rasdaman.HttpRequest

open ByteText

variable {q : Query} {source name v rest : List UInt8} {s s' : Scan} {info : HTTPRequest} {n : String}

/-! ## What is received is a value -/

/-- What the loop keeps: the query is a token. -/
structure Scan.Inv (s : Scan) : Prop where
  rest : 0 ∉ s.rest
  query : ∀ v, s.info.queryString = some v → v ≠ [] ∧ 38 ∉ v ∧ 0 ∉ v

theorem Scan.inv_name {text : List UInt8} {result : ℤ} (htext : 0 ∉ text)
    (hinfo : ∀ v, info.queryString = some v → v ≠ [] ∧ 38 ∉ v ∧ 0 ∉ v) :
    (Scan.name text info result).Inv := by
  rw [Scan.name]
  split
  · exact ⟨List.not_mem_nil, hinfo⟩
  · next h => exact ⟨fun h0 => htext ((strtok_spec h).2.2.2 0 h0), hinfo⟩

theorem Scan.inv_value {use : List UInt8 → HTTPRequest × ℤ} (h : s.value use = .ok s') (hs : s.Inv)
    (huse : ∀ v w, (use v).1.queryString = some w → w = v ∨ s.info.queryString = some w) : s'.Inv := by
  rw [Scan.value] at h
  split at h
  · cases h
  · next v rest hv =>
    cases h
    obtain ⟨hne, hamp, htok, hrest⟩ := strtok_spec hv
    refine Scan.inv_name (fun h0 => hs.rest (hrest 0 h0)) fun w hw => ?_
    rcases huse v w hw with rfl | hw
    · exact ⟨hne, hamp, fun h0 => hs.rest (htok 0 h0)⟩
    · exact hs.query w hw

theorem Scan.inv_step (h : s.step source name = .ok s') (hs : s.Inv) : s'.Inv := by
  have hkeep : ∀ {use : List UInt8 → HTTPRequest × ℤ}, s.value use = .ok s' →
      (∀ v, (use v).1.queryString = s.info.queryString) → s'.Inv := fun hvalue huse =>
    Scan.inv_value hvalue hs fun v w hw => .inr (huse v ▸ hw)
  unfold Scan.step at h
  cases hname : parameter name with
  | none =>
    simp only [hname] at h
    cases h
    exact ⟨hs.rest, hs.query⟩
  | some p =>
    simp only [hname] at h
    cases p with
    | queryString => exact Scan.inv_value h hs fun v w hw => .inl (Option.some.inj hw).symm
    | binData =>
      dsimp only at h
      split at h
      · cases h
        exact ⟨hs.rest, hs.query⟩
      · cases h
    | clientType =>
      refine hkeep h fun v => ?_
      split
      · rfl
      · split <;> rfl
    | database => exact hkeep h fun _ => rfl
    | capability => exact hkeep h fun _ => rfl
    | clientID => exact hkeep h fun _ => rfl
    | command => exact hkeep h fun _ => rfl
    | endianess => exact hkeep h fun _ => rfl
    | numberOfQueryParameters => exact hkeep h fun _ => rfl
    | binDataSize => exact hkeep h fun _ => rfl

theorem Scan.inv_loop {fuel : ℕ} (h : s.loop source fuel = some (.ok s')) (hs : s.Inv) : s'.Inv := by
  induction fuel generalizing s with
  | zero =>
    unfold Scan.loop at h
    split at h
    · cases h
      exact hs
    · cases h
  | succ fuel ih =>
    unfold Scan.loop at h
    split at h
    · cases h
      exact hs
    · dsimp only at h
      split at h
      · cases h
      · next hstep => exact ih h (Scan.inv_step hstep hs)

/-! ## What is sent is received -/

/-- What the server is to know of a request. -/
structure Received (q : Query) (info : HTTPRequest) : Prop where
  command : info.command = q.command
  clientID : info.clientID = some (getBytes (Decimal.text q.clientID))
  queryString : info.queryString.map latin1 = some q.queryString
  params : q.isSelect = false → info.endianess = bigEndian ∧ info.numberOfQueryParams = q.numberOfParams ∧
    (0 < q.numberOfParams → info.binDataSize = q.mddData.length ∧ info.binData = some q.mddData)

/-- A value and what follows it. -/
theorem Scan.loop_value {i : HTTPRequest} {f : List UInt8 → HTTPRequest} (fuel : ℕ)
    (hname : key n ≠ [] ∧ 61 ∉ key n)
    (hstep : ∀ rest, Scan.step source (key n) ⟨some (key n), rest, i, 0⟩
      = Scan.value ⟨some (key n), rest, i, 0⟩ fun v => (f v, 0))
    (hv : v ≠ [] ∧ 38 ∉ v) (hrest : ∀ b ∈ rest.head?, b = 38) :
    (Scan.name (key n ++ 61 :: (v ++ rest)) i 0).loop source (fuel + 1)
      = (Scan.name rest.tail (f v) 0).loop source fuel := by
  have hkey : strtok 61 (key n ++ 61 :: (v ++ rest)) = some (key n, v ++ rest) :=
    strtok_append hname.1 hname.2 fun b hb => (Option.some.inj hb).symm
  rw [Scan.name, hkey, Scan.loop]
  simp only [hstep, Scan.value, strtok_append hv.1 hv.2 hrest]

theorem text_value (v : ℤ) : getBytes (Decimal.text v) ≠ [] ∧ 38 ∉ getBytes (Decimal.text v) := by
  refine ⟨fun h => Decimal.text_ne_nil v (List.map_eq_nil_iff.mp h), fun h => ?_⟩
  rw [mem_getBytes (by decide)] at h
  rcases Decimal.mem_text h with h | h <;> exact absurd h (by decide)

theorem zero_not_mem_text (v : ℤ) : 0 ∉ getBytes (Decimal.text v) := fun h => by
  rw [mem_getBytes (by decide)] at h
  rcases Decimal.mem_text h with h | h <;> exact absurd h (by decide)

/-- A parameter with its name. -/
def assigned (n : String) (v rest : List UInt8) : List UInt8 := key n ++ 61 :: (v ++ rest)

/-- The parameters with the transfer encoding of the arrays, which comes last. -/
def Query.arrays (q : Query) (data : List UInt8) : List UInt8 :=
  if 0 < q.numberOfParams then
    38 :: assigned "BinDataSize" (getBytes (Decimal.text q.mddData.length)) (38 :: assigned "BinData" [] data)
  else []

/-- The parameters after the query. -/
def Query.following (q : Query) (data : List UInt8) : List UInt8 :=
  if q.isSelect then [] else
    38 :: assigned "Endianess" (getBytes (Decimal.text bigEndian))
      (38 :: assigned "NumberOfQueryParameters" (getBytes (Decimal.text q.numberOfParams)) (q.arrays data))

/-- The bytes of a request. -/
def Query.text (q : Query) (data : List UInt8) : List UInt8 :=
  assigned "Command" (getBytes (Decimal.text q.command)) (38 ::
    assigned "ClientID" (getBytes (Decimal.text q.clientID)) (38 ::
      assigned "QueryString" (getBytes q.queryString) (q.following data)))

theorem Query.getBytes_params (q : Query) : getBytes q.params = q.text q.mddData := by
  have hname : getBytes "Command=".toList = key "Command" ++ [61] ∧
      getBytes "&ClientID=".toList = 38 :: key "ClientID" ++ [61] ∧
      getBytes "&QueryString=".toList = 38 :: key "QueryString" ++ [61] ∧
      getBytes "&Endianess=".toList = 38 :: key "Endianess" ++ [61] ∧
      getBytes "&NumberOfQueryParameters=".toList = 38 :: key "NumberOfQueryParameters" ++ [61] ∧
      getBytes "&BinDataSize=".toList = 38 :: key "BinDataSize" ++ [61] ∧
      getBytes "&BinData=".toList = 38 :: key "BinData" ++ [61] := by decide
  obtain ⟨h1, h2, h3, h4, h5, h6, h7⟩ := hname
  rw [Query.params, Query.text, Query.following, Query.arrays]
  split
  · simp only [getBytes_append, h1, h2, h3, assigned, List.append_assoc, List.cons_append, List.nil_append,
      List.append_nil]
  · dsimp only
    split <;>
      simp only [getBytes_append, h1, h2, h3, h4, h5, h6, h7, assigned, getBytes_latin1, List.append_assoc,
        List.cons_append, List.nil_append, List.append_nil]

/-! The arrays may hold zeros, at which the text ends for `strtok`. -/

theorem takeWhile_assigned (hn : 0 ∉ key n) (hv : 0 ∉ v) :
    (assigned n v rest).takeWhile (· ≠ 0) = assigned n v (rest.takeWhile (· ≠ 0)) := by
  have hpos : ∀ {bs : List UInt8}, 0 ∉ bs → ∀ b ∈ bs, decide (b ≠ 0) = true := fun h b hb =>
    decide_eq_true fun hz => h (hz ▸ hb)
  rw [assigned, List.takeWhile_append_of_pos (hpos hn), List.takeWhile_cons_of_pos (by decide),
    List.takeWhile_append_of_pos (hpos hv)]
  rfl

theorem takeWhile_ampersand (bs : List UInt8) : (38 :: bs).takeWhile (· ≠ 0) = 38 :: bs.takeWhile (· ≠ 0) :=
  List.takeWhile_cons_of_pos (by decide)

theorem Query.takeWhile_arrays (q : Query) (data : List UInt8) :
    (q.arrays data).takeWhile (· ≠ 0) = q.arrays (data.takeWhile (· ≠ 0)) := by
  rw [Query.arrays, Query.arrays]
  split
  · rw [takeWhile_ampersand, takeWhile_assigned (by decide) (zero_not_mem_text _), takeWhile_ampersand,
      takeWhile_assigned (by decide) List.not_mem_nil]
  · rfl

theorem Query.takeWhile_following (q : Query) (data : List UInt8) :
    (q.following data).takeWhile (· ≠ 0) = q.following (data.takeWhile (· ≠ 0)) := by
  rw [Query.following, Query.following]
  split
  · rfl
  · rw [takeWhile_ampersand, takeWhile_assigned (by decide) (zero_not_mem_text _), takeWhile_ampersand,
      takeWhile_assigned (by decide) (zero_not_mem_text _), q.takeWhile_arrays]

theorem Query.takeWhile_text (h : 0 ∉ getBytes q.queryString) (data : List UInt8) :
    (q.text data).takeWhile (· ≠ 0) = q.text (data.takeWhile (· ≠ 0)) := by
  rw [Query.text, takeWhile_assigned (by decide) (zero_not_mem_text _), takeWhile_ampersand,
    takeWhile_assigned (by decide) (zero_not_mem_text _), takeWhile_ampersand,
    takeWhile_assigned (by decide) h, q.takeWhile_following, Query.text]

/-- The arrays are the last bytes of a request. -/
theorem Query.suffix_text (hselect : q.isSelect = false) (hpos : 0 < q.numberOfParams) (data : List UInt8) :
    data <:+ q.text data := by
  have happ : ∀ {n v rest}, data <:+ rest → data <:+ assigned n v rest := fun h =>
    (h.trans (List.suffix_append _ _)).trans ((List.suffix_cons _ _).trans (List.suffix_append _ _))
  have hcons : ∀ {b : UInt8} {rest : List UInt8}, data <:+ rest → data <:+ b :: rest := fun h =>
    h.trans (List.suffix_cons _ _)
  have harrays : data <:+ q.arrays data := by
    rw [Query.arrays, if_pos hpos]
    exact hcons (happ (hcons (happ (List.suffix_refl data))))
  have hrest : data <:+ q.following data := by
    rw [Query.following, hselect]
    exact hcons (happ (hcons (happ harrays)))
  exact happ (hcons (happ (hcons (happ hrest))))

/-! The loop, parameter by parameter. -/

/-- What the server knows after the query. -/
def Query.asked (q : Query) : HTTPRequest where
  command := q.command
  clientID := some (getBytes (Decimal.text q.clientID))
  queryString := some (getBytes q.queryString)

/-- The request the server makes of the parameters. -/
def Query.request (q : Query) : HTTPRequest :=
  if q.isSelect then q.asked
  else if 0 < q.numberOfParams then
    { q.asked with
      endianess := bigEndian
      numberOfQueryParams := q.numberOfParams
      binDataSize := q.mddData.length
      binData := some q.mddData }
  else { q.asked with endianess := bigEndian, numberOfQueryParams := q.numberOfParams }

theorem head_ampersand {bs : List UInt8} : ∀ b ∈ (38 :: bs).head?, b = 38 := fun _ hb => (Option.some.inj hb).symm

theorem Query.head_arrays (q : Query) (data : List UInt8) : ∀ b ∈ (q.arrays data).head?, b = 38 := by
  rw [Query.arrays]
  split
  · exact head_ampersand
  · exact nofun

theorem Query.head_following (q : Query) (data : List UInt8) : ∀ b ∈ (q.following data).head?, b = 38 := by
  rw [Query.following]
  split
  · exact nofun
  · exact head_ampersand

theorem Scan.loop_done (i : HTTPRequest) (fuel : ℕ) :
    ((Scan.name [] i 0).loop source fuel).map (Except.map fun s => (s.result, s.info)) = some (.ok (0, i)) := by
  cases fuel <;> rfl

theorem loop_arrays (data : List UInt8) (hsource : q.mddData <:+ source) (hpos : 0 < q.numberOfParams) :
    ((Scan.name (q.arrays data).tail info 0).loop source 2).map (Except.map fun s => (s.result, s.info))
      = some (.ok (0, { info with binDataSize := q.mddData.length, binData := some q.mddData })) := by
  have hname : strtok 61 (assigned "BinData" [] data) = some (key "BinData", data) :=
    strtok_append (by decide) (by decide) fun b hb => (Option.some.inj hb).symm
  have hsize : (0 : ℤ) ≤ q.mddData.length ∧ (q.mddData.length : ℤ) ≤ source.length :=
    ⟨by omega, by exact_mod_cast hsource.length_le⟩
  have hdrop := List.suffix_iff_eq_drop.mp hsource
  rw [Query.arrays, if_pos hpos, List.tail_cons, assigned, Scan.loop_value (n := "BinDataSize")
    (f := fun v => { info with binDataSize := atoi v }) 1 (by decide) (fun _ => rfl) (text_value _) head_ampersand,
    List.tail_cons, atoi_text, Scan.name, hname]
  simp only [Scan.loop, Scan.step, show parameter (key "BinData") = some .binData from rfl, if_pos hsize,
    Int.toNat_natCast, ← hdrop]
  rfl

/-- **Plain queries are taken apart** as they were put together. -/
theorem getHTTPRequestTemp_params (hne : q.queryString ≠ []) (hamp : 38 ∉ getBytes q.queryString)
    (hzero : 0 ∉ getBytes q.queryString) :
    getHTTPRequestTemp (getBytes q.params) 7 = some (.ok (0, q.request)) := by
  have hquery : getBytes q.queryString ≠ [] := fun h => hne (List.map_eq_nil_iff.mp h)
  have hsuffix := fun hselect hpos => Query.suffix_text (q := q) hselect hpos q.mddData
  rw [getHTTPRequestTemp, q.getBytes_params, Query.takeWhile_text hzero]
  generalize q.text q.mddData = source at hsuffix ⊢
  rw [Query.text, assigned,
    Scan.loop_value (n := "Command") (f := fun v => { command := atoi v }) 6 (by decide)
      (fun _ => rfl) (text_value _) head_ampersand, atoi_text, List.tail_cons, assigned,
    Scan.loop_value (n := "ClientID") (f := fun v => { command := q.command, clientID := some v }) 5 (by decide)
      (fun _ => rfl) (text_value _) head_ampersand, List.tail_cons, assigned,
    Scan.loop_value (n := "QueryString")
      (i := { command := q.command, clientID := some (getBytes (Decimal.text q.clientID)) })
      (f := fun v => { q.asked with queryString := some v }) 4 (by decide) (fun _ => rfl) ⟨hquery, hamp⟩
      (q.head_following _), Query.request,
    show { q.asked with queryString := some (getBytes q.queryString) } = q.asked from rfl]
  cases hselect : q.isSelect with
  | true =>
    rw [Query.following, hselect]
    exact Scan.loop_done ..
  | false =>
    have hrest : ∀ data, (q.following data).tail = assigned "Endianess" (getBytes (Decimal.text bigEndian))
        (38 :: assigned "NumberOfQueryParameters" (getBytes (Decimal.text q.numberOfParams)) (q.arrays data)) :=
      fun data => by rw [Query.following, hselect]; rfl
    rw [hrest, assigned, Scan.loop_value (n := "Endianess") (i := q.asked)
      (f := fun v => { q.asked with endianess := atoi v }) 3
      (by decide) (fun _ => rfl) (text_value _) head_ampersand, atoi_text, List.tail_cons, assigned,
      Scan.loop_value (n := "NumberOfQueryParameters") (i := { q.asked with endianess := bigEndian })
        (f := fun v => { q.asked with endianess := bigEndian, numberOfQueryParams := atoi v }) 2 (by decide)
        (fun _ => rfl) (text_value _) (q.head_arrays _), atoi_text]
    by_cases hpos : 0 < q.numberOfParams
    · rw [loop_arrays _ (hsuffix hselect hpos) hpos, if_pos hpos]
      rfl
    · rw [Query.arrays, if_neg hpos, if_neg hpos]
      exact Scan.loop_done ..

theorem Scan.loop_le {fuel fuel' : ℕ} {r : Except Fault Scan} (h : s.loop source fuel = some r) (hle : fuel ≤ fuel') :
    s.loop source fuel' = some r := by
  induction fuel generalizing s fuel' with
  | zero =>
    unfold Scan.loop at h ⊢
    cases hbuffer : s.buffer with
    | none => rwa [hbuffer] at h
    | some name =>
      rw [hbuffer] at h
      cases h
  | succ fuel ih =>
    obtain ⟨fuel', rfl⟩ := Nat.exists_eq_add_of_le' (show 1 ≤ fuel' by omega)
    unfold Scan.loop at h ⊢
    cases hbuffer : s.buffer with
    | none => rwa [hbuffer] at h
    | some name =>
      rw [hbuffer] at h
      dsimp only at h ⊢
      cases hstep : s.step source name with
      | error e => rwa [hstep] at h
      | ok s' =>
        rw [hstep] at h
        exact ih h (by omega)

/-- The loop has one outcome, however long one waits for it. -/
theorem getHTTPRequestTemp_unique {fuel fuel' : ℕ} {r r' : Except Fault (ℤ × HTTPRequest)}
    (h : getHTTPRequestTemp source fuel = some r) (h' : getHTTPRequestTemp source fuel' = some r') : r = r' := by
  obtain ⟨s, hs, rfl⟩ := Option.map_eq_some_iff.mp h
  obtain ⟨s', hs', rfl⟩ := Option.map_eq_some_iff.mp h'
  have hsame := (Scan.loop_le hs (Nat.le_max_left fuel fuel')).symm.trans (Scan.loop_le hs' (Nat.le_max_right ..))
  rw [Option.some.inj hsame]

/-- A text that `strtok` takes for one value, and that has a byte for each character. -/
def Plain (query : List Char) : Prop := query ≠ [] ∧ ∀ c ∈ query, c ≠ '&' ∧ c ≠ Char.ofNat 0 ∧ c.toNat < 256

/-- The query that the server has is plain. -/
theorem plain_of_run {fuel : ℕ} {result : ℤ} {query : List Char}
    (h : getHTTPRequestTemp source fuel = some (.ok (result, info)))
    (hquery : info.queryString.map latin1 = some query) : Plain query := by
  rw [getHTTPRequestTemp, Option.map_eq_some_iff] at h
  obtain ⟨_ | s, hloop, hs⟩ := h
  · cases hs
  rw [Except.map, Except.ok.injEq, Prod.mk.injEq] at hs
  obtain ⟨-, rfl⟩ := hs
  have hinv := Scan.inv_loop hloop (Scan.inv_name (fun h0 => by simpa using List.mem_takeWhile_imp h0) nofun)
  obtain ⟨v, hv, rfl⟩ := Option.map_eq_some_iff.mp hquery
  obtain ⟨hne, hamp, hzero⟩ := hinv.query v hv
  refine ⟨fun hnil => hne (List.map_eq_nil_iff.mp hnil), fun c hc => ?_⟩
  obtain ⟨b, hb, rfl⟩ := List.mem_map.mp hc
  have hnat := toNat_ofNat_byte b
  refine ⟨fun h => hamp ?_, fun h => hzero ?_, by rw [hnat]; exact b.toNat_lt⟩
  · rw [h] at hnat
    rwa [← UInt8.toNat_inj.mp (show (38 : UInt8).toNat = b.toNat from hnat)] at hb
  · rw [h] at hnat
    rwa [← UInt8.toNat_inj.mp (show (0 : UInt8).toNat = b.toNat from hnat)] at hb

/-- The request of a plain query. -/
theorem run_of_plain (h : Plain q.queryString) :
    getHTTPRequestTemp (getBytes q.params) 7 = some (.ok (0, q.request)) :=
  getHTTPRequestTemp_params h.1 (fun hb => (h.2 _ ((mem_getBytes (by decide)).mp hb)).1 rfl)
    fun hb => (h.2 _ ((mem_getBytes (by decide)).mp hb)).2.1 rfl

/-- **A request is received** if and only if its query is a text of one-byte characters without a zero and
without `&`. -/
theorem received_iff (q : Query) :
    (∃ fuel info, getHTTPRequestTemp (getBytes q.params) fuel = some (.ok (0, info)) ∧ Received q info) ↔
      q.queryString ≠ [] ∧ ∀ c ∈ q.queryString, c ≠ '&' ∧ c ≠ Char.ofNat 0 ∧ c.toNat < 256 := by
  constructor
  · rintro ⟨fuel, info, hrun, hinfo⟩
    exact plain_of_run hrun hinfo.queryString
  · intro hplain
    have hlatin : latin1 (getBytes q.queryString) = q.queryString :=
      latin1_getBytes_iff.mpr fun c hc => (hplain.2 c hc).2.2
    refine ⟨7, q.request, run_of_plain hplain, ?_⟩
    rw [Query.request]
    split
    case isTrue hselect =>
      exact ⟨rfl, rfl, congrArg some hlatin, fun h => absurd hselect (by rw [h]; exact Bool.false_ne_true)⟩
    case isFalse =>
      split
      case isTrue => exact ⟨rfl, rfl, congrArg some hlatin, fun _ => ⟨rfl, rfl, fun _ => ⟨rfl, rfl⟩⟩⟩
      case isFalse hpos => exact ⟨rfl, rfl, congrArg some hlatin, fun _ => ⟨rfl, rfl, fun h => absurd h hpos⟩⟩

end Rasdaman.HttpRequest
