import Rasdaman.Reladminif.DBObject

/-!
# Reladminif/StoredState — rows and the maps of the broker follow the persistence flags

Objects are constructed, loaded, made persistent or not, modified, validated and destroyed in any order, in
read-write transactions that are not aborted.  `setPersistent(true)` gives an object that is not persistent a
fresh id, also when the object is in the database or in the maps under another one.  `stored_state_iff` says
that nothing else goes wrong: a run keeps rows and maps right exactly when no object is made persistent that
has been persistent before.
-/

namespace Rasdaman

open OIdType OIdIf Machine

namespace StoredState

/-! ## Runs -/

/-- The types of the classes of objects; `DBObject` itself has the type `INVALID`. -/
abbrev ObjectType := { t : OIdType // t = invalid ∨ t.hasMap = true }

/-- What happens in a server, with the addresses of the objects. -/
inductive Event
  | construct (a : ℕ) (objecttype : ObjectType)
  | getObjectByOId (a : ℕ) (id : TypedOId)
  | setPersistent (a : ℕ) (newPersistent : Bool)
  | setModified (a : ℕ)
  | validate (a : ℕ)
  | destroy (a : ℕ)

/-- One event.  New objects are at free addresses; other events are about objects that exist. -/
def next (M : ObjectMemory) : Event → ObjectMemory
  | .construct a t => if M.objects a = none then M.setObject a (some (.new t.1)) else M
  | .getObjectByOId a id => if M.objects a = none then (M.getObjectByOId a id).1 else M
  | .setPersistent a b => M.withObject a fun o => (M.setPersistent a o b).1
  | .setModified a => M.withObject a fun o => M.setObject a (some o.setModified)
  | .validate a => M.withObject a fun o => M.validate a o
  | .destroy a => M.withObject a fun o => M.delete a o

/-- A run, with the ids that each object had before the one it has. -/
structure History where
  memory : ObjectMemory
  earlier : ℕ → List TypedOId

/-- The ids that an object had before, after an event. -/
def earlierIds (M M' : ObjectMemory) (earlier : ℕ → List TypedOId) (a : ℕ) : List TypedOId :=
  match M.objects a, M'.objects a with
  | some o, some o' => if o'.myOId = o.myOId then earlier a else o.myOId :: earlier a
  | _, _ => []

/-- One event. -/
def step (H : History) (e : Event) : History :=
  let M := next H.memory e
  ⟨M, earlierIds H.memory M H.earlier⟩

/-- An id has been drawn from the counters. -/
def Drawn (next : OIdCounter → ℕ) (id : TypedOId) : Prop :=
  ∃ c, counterIds id.oidtype = some c ∧ id.oid < next c

/-- A database and the counters at the start of a transaction: the ids of the rows have been drawn. -/
structure Start where
  next : OIdCounter → ℕ
  rows : Finset TypedOId
  drawn : ∀ id ∈ rows, Drawn next id

/-- No object is in memory. -/
def Start.history (s : Start) : History :=
  ⟨⟨fun _ => none, fun _ => none, s.rows, ⟨s.next, true, false, false, false⟩⟩, fun _ => []⟩

/-! ## What the flags promise -/

/-- The broker maps the id of a persistent object, and no other, to it, and nothing to an address without
an object. -/
def MapsFollow (M : ObjectMemory) : Prop :=
  (∀ a o, M.objects a = some o → o.isPersistent = true →
    ∀ id, M.maps id = some a ↔ id = o.myOId) ∧
  ∀ a, M.objects a = none → ∀ id, M.maps id ≠ some a

/-- The object at an address has a row under its id exactly when it is persistent, and none under an earlier
id. -/
def RowsFollow (H : History) (a : ℕ) : Prop :=
  ∀ o, H.memory.objects a = some o →
    (o.myOId ∈ H.memory.rows ↔ o.isPersistent = true) ∧
      ∀ id ∈ H.earlier a, id ≠ o.myOId → id ∉ H.memory.rows

/-- `updateInDb` and `deleteFromDb` are called for ids that have a row. -/
def CallOk (M : ObjectMemory) (a : ℕ) : Prop :=
  ∀ o, M.objects a = some o → ∀ call, o.dbCall M.server = some call → call ≠ .insertInDb →
    o.myOId ∈ M.rows

/-- What is promised about one event. -/
def EventOk (H : History) (e : Event) : Prop :=
  MapsFollow (step H e).memory ∧ ∀ a, e = .validate a → CallOk H.memory a ∧ RowsFollow (step H e) a

/-- `setPersistent(true)` comes to an object that is persistent, or that has never been. -/
def NotAgain (H : History) : Event → Prop
  | .setPersistent a true => ∀ o, H.memory.objects a = some o →
      o.isPersistent = true ∨ o.myOId.oidtype = invalid
  | _ => True

/-! ## The invariant -/

/-- What holds of an object. -/
structure ObjectOk (M : ObjectMemory) (a : ℕ) (o : DBObject) : Prop where
  mapped : o.myOId.oidtype ≠ invalid → M.maps o.myOId = some a
  valid : o.isPersistent = true → o.myOId.oidtype ≠ invalid
  stored : o.isInDatabase = true ↔ o.myOId ∈ M.rows
  clean : o.isModified = false → o.isInDatabase = o.isPersistent
  ofType : o.myOId.oidtype ≠ invalid → o.myOId.oidtype = o.objecttype
  notAtomic : o.myOId.oidtype ≠ atomicTypeOId
  hasType : o.objecttype = invalid ∨ o.objecttype.hasMap = true

/-- **The invariant** of runs in which no object becomes persistent again. -/
structure Ok (H : History) : Prop where
  objects : ∀ a o, H.memory.objects a = some o → ObjectOk H.memory a o
  alive : ∀ id a, H.memory.maps id = some a → ∃ o, H.memory.objects a = some o ∧ o.myOId = id
  mapsDrawn : ∀ id a, H.memory.maps id = some a → Drawn H.memory.server.next id
  rowsDrawn : ∀ id ∈ H.memory.rows, Drawn H.memory.server.next id
  earlier : ∀ a, ∀ id ∈ H.earlier a, id.oidtype = invalid
  readWrite : H.memory.server.readOnlyTA = false
  notAborted : H.memory.server.aborted = false

theorem Drawn.valid {next : OIdCounter → ℕ} {id : TypedOId} (h : Drawn next id) : id.oidtype ≠ invalid := by
  obtain ⟨c, hc, -⟩ := h
  intro hid
  rw [hid] at hc
  exact nomatch hc

theorem Start.ok (s : Start) : Ok s.history where
  objects := fun _ _ h => nomatch h
  alive := fun _ _ h => nomatch h
  mapsDrawn := fun _ _ h => nomatch h
  rowsDrawn := s.drawn
  earlier := fun _ _ h => nomatch h
  readWrite := rfl
  notAborted := rfl

variable {H : History}

/-- The invariant is what is promised of the maps. -/
theorem Ok.mapsFollow (h : Ok H) : MapsFollow H.memory := by
  refine ⟨fun a o ho hper id => ⟨fun hid => ?_, ?_⟩, fun a ha id hid => ?_⟩
  · obtain ⟨o', ho', rfl⟩ := h.alive id a hid
    rw [ho] at ho'
    rw [Option.some.inj ho']
  · rintro rfl
    have hobj := h.objects a o ho
    exact hobj.mapped (hobj.valid hper)
  · obtain ⟨o, ho, -⟩ := h.alive id a hid
    rw [ha] at ho
    exact nomatch ho

/-- An object without an id is not in the database and not persistent. -/
theorem ObjectOk.invalid {M : ObjectMemory} {a : ℕ} {o : DBObject} (h : ObjectOk M a o)
    (hrows : ∀ id ∈ M.rows, Drawn M.server.next id) (hid : o.myOId.oidtype = invalid) :
    o.isInDatabase = false ∧ o.isPersistent = false := by
  constructor
  · rw [← Bool.not_eq_true, h.stored]
    exact fun hmem => (hrows _ hmem).valid hid
  · rw [← Bool.not_eq_true]
    exact fun hper => h.valid hper hid

/-- Different objects have different ids. -/
theorem Ok.ne_of_ne (h : Ok H) {a b : ℕ} {o o' : DBObject} (ha : H.memory.objects a = some o)
    (hb : H.memory.objects b = some o') (hab : b ≠ a) (hid : o.myOId.oidtype ≠ invalid) :
    o'.myOId ≠ o.myOId := by
  intro heq
  have hmapA := (h.objects a o ha).mapped hid
  have hmapB := (h.objects b o' hb).mapped (heq ▸ hid)
  rw [heq, hmapA] at hmapB
  exact hab (Option.some.inj hmapB).symm

theorem mem_earlierIds {M M' : ObjectMemory} {earlier : ℕ → List TypedOId} {a : ℕ} {id : TypedOId}
    (h : id ∈ earlierIds M M' earlier a) :
    id ∈ earlier a ∨ ∃ o o', M.objects a = some o ∧ M'.objects a = some o' ∧ o'.myOId ≠ o.myOId ∧
      id = o.myOId := by
  rw [earlierIds] at h
  split at h
  · next o o' ho ho' =>
    split at h
    · exact .inl h
    · next hne =>
      rcases List.mem_cons.mp h with rfl | h
      · exact .inr ⟨o, o', ho, ho', hne, rfl⟩
      · exact .inl h
  · exact nomatch h

/-! ## Steps -/

/-- The flags of an object and its row change, its id does not. -/
theorem Ok.rewrite (h : Ok H) {a : ℕ} {o : DBObject} (ha : H.memory.objects a = some o)
    (o' : DBObject) (rows : Finset TypedOId) (hid : o'.myOId = o.myOId) (htype : o'.objecttype = o.objecttype)
    (hvalid : o'.isPersistent = true → o.myOId.oidtype ≠ invalid)
    (hstored : o'.isInDatabase = true ↔ o.myOId ∈ rows)
    (hclean : o'.isModified = false → o'.isInDatabase = o'.isPersistent)
    (hrows : ∀ id ≠ o.myOId, (id ∈ rows ↔ id ∈ H.memory.rows))
    (hdrawn : o.myOId ∈ rows → o.myOId.oidtype ≠ invalid) {M : ObjectMemory}
    (hM : M = { H.memory.setObject a (some o') with rows := rows }) :
    Ok ⟨M, earlierIds H.memory M H.earlier⟩ := by
  subst hM
  have hobj := h.objects a o ha
  refine ⟨fun b o'' hb => ?_, fun id b hmap => ?_, h.mapsDrawn, fun id hmem => ?_, fun b id hmem => ?_,
    h.readWrite, h.notAborted⟩
  · by_cases hab : b = a
    · subst hab
      obtain rfl : o' = o'' := by simpa [ObjectMemory.setObject] using hb
      refine ⟨?_, ?_, ?_, hclean, ?_, ?_, ?_⟩
      · rw [hid]
        exact hobj.mapped
      · rw [hid]
        exact hvalid
      · rw [hid]
        exact hstored
      · rw [hid, htype]
        exact hobj.ofType
      · rw [hid]
        exact hobj.notAtomic
      · rw [htype]
        exact hobj.hasType
    · have hb' : H.memory.objects b = some o'' := by simpa [ObjectMemory.setObject, hab] using hb
      have hobj' := h.objects b o'' hb'
      refine ⟨hobj'.mapped, hobj'.valid, hobj'.stored.trans ?_, hobj'.clean, hobj'.ofType,
        hobj'.notAtomic, hobj'.hasType⟩
      by_cases heq : o''.myOId = o.myOId
      · -- only objects without an id may share it
        have hinvalid : o.myOId.oidtype = invalid := by
          by_contra hne
          exact h.ne_of_ne ha hb' hab hne heq
        rw [heq]
        exact ⟨fun hmem => absurd hinvalid (h.rowsDrawn _ hmem).valid,
          fun hmem => absurd hinvalid (hdrawn hmem)⟩
      · exact (hrows _ heq).symm
  · obtain ⟨o'', hb, hid'⟩ := h.alive id b hmap
    by_cases hab : b = a
    · subst hab
      obtain rfl : o = o'' := by simpa [ha] using hb
      exact ⟨o', by simp [ObjectMemory.setObject], hid.trans hid'⟩
    · exact ⟨o'', by simpa [ObjectMemory.setObject, hab] using hb, hid'⟩
  · by_cases heq : id = o.myOId
    · subst heq
      exact h.mapsDrawn _ a (hobj.mapped (hdrawn hmem))
    · exact h.rowsDrawn id ((hrows id heq).mp hmem)
  · rcases mem_earlierIds hmem with hmem | ⟨o₁, o₂, h₁, h₂, hne, rfl⟩
    · exact h.earlier b id hmem
    · by_cases hab : b = a
      · subst hab
        obtain rfl : o = o₁ := by simpa [ha] using h₁
        obtain rfl : o' = o₂ := by simpa [ObjectMemory.setObject] using h₂
        exact absurd hid hne
      · obtain rfl : o₁ = o₂ := by simpa [ObjectMemory.setObject, hab, h₁] using h₂
        exact absurd rfl hne

theorem Ok.setModified (h : Ok H) {a : ℕ} {o : DBObject} (ha : H.memory.objects a = some o)
    {M : ObjectMemory} (hM : M = H.memory.setObject a (some o.setModified)) :
    Ok ⟨M, earlierIds H.memory M H.earlier⟩ := by
  have hobj := h.objects a o ha
  exact h.rewrite ha o.setModified H.memory.rows rfl rfl hobj.valid hobj.stored nofun
    (fun _ _ => Iff.rfl) (fun hmem => (h.rowsDrawn _ hmem).valid) hM

/-- An event may change nothing. -/
theorem Ok.unchanged (h : Ok H) : Ok ⟨H.memory, earlierIds H.memory H.memory H.earlier⟩ where
  objects := h.objects
  alive := h.alive
  mapsDrawn := h.mapsDrawn
  rowsDrawn := h.rowsDrawn
  earlier := by
    intro a id hmem
    rcases mem_earlierIds hmem with hmem | ⟨o, o', ho, ho', hne, -⟩
    · exact h.earlier a id hmem
    · rw [ho] at ho'
      exact absurd (congrArg DBObject.myOId (Option.some.inj ho')).symm hne
  readWrite := h.readWrite
  notAborted := h.notAborted

theorem Ok.notPersistent (h : Ok H) {a : ℕ} {o : DBObject} (ha : H.memory.objects a = some o)
    {M : ObjectMemory} (hM : M = (H.memory.setPersistent a o false).1) :
    Ok ⟨M, earlierIds H.memory M H.earlier⟩ := by
  rw [ObjectMemory.setPersistent, if_neg Bool.false_ne_true] at hM
  cases hper : o.isPersistent with
  | false =>
    rw [hper, if_neg Bool.false_ne_true] at hM
    rw [hM]
    exact h.unchanged
  | true =>
    rw [hper, if_pos rfl, h.readWrite, if_neg Bool.false_ne_true] at hM
    have hobj := h.objects a o ha
    exact h.rewrite ha { o with isPersistent := false, isModified := true } H.memory.rows
      rfl rfl nofun hobj.stored nofun (fun _ _ => Iff.rfl)
      (fun hmem => (h.rowsDrawn _ hmem).valid) hM

/-- A call of `insertInDb`, `updateInDb` or `deleteFromDb` for the right row. -/
theorem Ok.perform (h : Ok H) {a : ℕ} {o : DBObject} (ha : H.memory.objects a = some o) {call : DbCall}
    (hvalid : o.myOId.oidtype ≠ invalid) (hmem : call ≠ .insertInDb → o.myOId ∈ H.memory.rows)
    {M : ObjectMemory} (hM : M = H.memory.perform a o call) :
    Ok ⟨M, earlierIds H.memory M H.earlier⟩ := by
  cases call with
  | updateInDb =>
    exact h.rewrite ha (o.performed .updateInDb) H.memory.rows rfl rfl (fun _ => hvalid)
      (by simpa [DBObject.performed] using hmem nofun) (fun _ => rfl) (fun _ _ => Iff.rfl)
      (fun _ => hvalid) hM
  | insertInDb =>
    exact h.rewrite ha (o.performed .insertInDb) (insert o.myOId H.memory.rows) rfl rfl
      (fun _ => hvalid) (by simp [DBObject.performed]) (fun _ => rfl)
      (fun id hne => by simp [hne]) (fun _ => hvalid) hM
  | deleteFromDb =>
    exact h.rewrite ha (o.performed .deleteFromDb) (H.memory.rows.erase o.myOId) rfl rfl
      nofun (by simp [DBObject.performed]) (fun _ => rfl) (fun id hne => by simp [hne])
      (fun _ => hvalid) hM

/-- What `validate` calls in a transaction that writes. -/
theorem dbCall_eq {o : DBObject} {sv : OIdIf.Server} (hwrite : sv.readOnlyTA = false)
    (haborted : sv.aborted = false) :
    o.dbCall sv = if o.isModified then
      match o.isInDatabase, o.isPersistent with
      | true, true => some .updateInDb
      | true, false => some .deleteFromDb
      | false, true => some .insertInDb
      | false, false => none
    else none := by
  rw [DBObject.dbCall, hwrite, haborted]
  cases o.isModified <;> cases o.isInDatabase <;> cases o.isPersistent <;> rfl

/-- Updates and deletions come to rows that exist, and every call to an object with an id. -/
theorem Ok.callOk (h : Ok H) {a : ℕ} {o : DBObject} (ha : H.memory.objects a = some o) {call : DbCall}
    (hcall : o.dbCall H.memory.server = some call) :
    o.myOId.oidtype ≠ invalid ∧ (call ≠ .insertInDb → o.myOId ∈ H.memory.rows) := by
  have hobj := h.objects a o ha
  rw [dbCall_eq h.readWrite h.notAborted] at hcall
  cases hdb : o.isInDatabase with
  | true =>
    have hmem := hobj.stored.mp hdb
    exact ⟨(h.rowsDrawn _ hmem).valid, fun _ => hmem⟩
  | false =>
    cases hper : o.isPersistent with
    | true =>
      refine ⟨hobj.valid hper, fun hne => absurd ?_ hne⟩
      rw [hdb, hper] at hcall
      cases hmod : o.isModified <;> rw [hmod] at hcall
      · exact nomatch hcall
      · exact (Option.some.inj hcall).symm
    | false =>
      rw [hdb, hper] at hcall
      cases hmod : o.isModified <;> rw [hmod] at hcall <;> exact nomatch hcall

theorem Ok.validate (h : Ok H) {a : ℕ} {o : DBObject} (ha : H.memory.objects a = some o)
    {M : ObjectMemory} (hM : M = H.memory.validate a o) :
    Ok ⟨M, earlierIds H.memory M H.earlier⟩ := by
  rw [ObjectMemory.validate] at hM
  cases hcall : o.dbCall H.memory.server with
  | none =>
    rw [hcall] at hM
    rw [hM]
    exact h.unchanged
  | some call =>
    rw [hcall] at hM
    obtain ⟨hvalid, hmem⟩ := h.callOk ha hcall
    exact h.perform ha hvalid hmem hM

/-- **After `validate` an object is in the database exactly when it is persistent.** -/
theorem ObjectOk.validate {M : ObjectMemory} {a : ℕ} {o : DBObject} (ha : M.objects a = some o)
    (hobj : ObjectOk M a o) (hwrite : M.server.readOnlyTA = false)
    (haborted : M.server.aborted = false) :
    ∃ o', (M.validate a o).objects a = some o' ∧ o'.isInDatabase = o'.isPersistent := by
  rw [ObjectMemory.validate, dbCall_eq hwrite haborted]
  cases hmod : o.isModified with
  | false => exact ⟨o, ha, hobj.clean hmod⟩
  | true =>
    have hset : ∀ call, (M.perform a o call).objects a = some (o.performed call) :=
      fun _ => Function.update_self _ _ _
    cases hdb : o.isInDatabase <;> cases hper : o.isPersistent
    · exact ⟨o, ha, hdb.trans hper.symm⟩
    · exact ⟨_, hset .insertInDb, rfl⟩
    · exact ⟨_, hset .deleteFromDb, rfl⟩
    · exact ⟨_, hset .updateInDb, rfl⟩

/-! ## Fresh ids -/

/-- The memory after `setPersistent(true)` has drawn an id from a counter. -/
def withFreshId (M : ObjectMemory) (a : ℕ) (o : DBObject) (c : OIdCounter) : ObjectMemory :=
  let id : TypedOId := ⟨o.objecttype, M.server.next c⟩
  { M with
    objects := Function.update M.objects a
      (some { o with isPersistent := true, isModified := true, myOId := id })
    maps := Function.update M.maps id (some a)
    server := { M.server with next := Function.update M.server.next c (M.server.next c + 1) } }

section withFreshId

variable (M : ObjectMemory) (a : ℕ) (o : DBObject) (c : OIdCounter)

theorem withFreshId_objects_self : (withFreshId M a o c).objects a =
    some { o with isPersistent := true, isModified := true, myOId := ⟨o.objecttype, M.server.next c⟩ } :=
  Function.update_self _ _ _

theorem withFreshId_objects_ne {b : ℕ} (hab : b ≠ a) :
    (withFreshId M a o c).objects b = M.objects b := Function.update_of_ne hab _ _

theorem withFreshId_maps_self :
    (withFreshId M a o c).maps ⟨o.objecttype, M.server.next c⟩ = some a := Function.update_self _ _ _

theorem withFreshId_maps_ne {id : TypedOId} (hid : id ≠ ⟨o.objecttype, M.server.next c⟩) :
    (withFreshId M a o c).maps id = M.maps id := Function.update_of_ne hid _ _

end withFreshId

theorem Drawn.mono {next : OIdCounter → ℕ} {id : TypedOId} (h : Drawn next id) (c : OIdCounter) :
    Drawn (Function.update next c (next c + 1)) id := by
  obtain ⟨c', hc', hlt⟩ := h
  refine ⟨c', hc', hlt.trans_le ?_⟩
  by_cases hcc : c' = c
  · subst hcc
    rw [Function.update_self]
    exact Nat.le_succ _
  · rw [Function.update_of_ne hcc]

theorem not_drawn {next : OIdCounter → ℕ} {t : OIdType} {c : OIdCounter} (hc : counterIds t = some c) :
    ¬ Drawn next ⟨t, next c⟩ := by
  rintro ⟨c', hc', hlt⟩
  rw [hc] at hc'
  obtain rfl := Option.some.inj hc'
  exact lt_irrefl _ hlt

/-- An id is drawn for every type, but for those of no objects in the database. -/
theorem allocateOId_eq (sv : OIdIf.Server) {t : OIdType} (ht : t.hasMap = true) (hatomic : t ≠ atomicTypeOId) :
    ∃ c, counterIds t = some c ∧ allocateOId sv t 1 =
      .ok (sv.next c, { sv with next := Function.update sv.next c (sv.next c + 1) }) := by
  cases t <;> first | exact absurd ht (by decide) | exact absurd rfl hatomic | exact ⟨_, rfl, rfl⟩

theorem Ok.setPersistent_eq (h : Ok H) {a : ℕ} {o : DBObject} (ha : H.memory.objects a = some o)
    (hper : o.isPersistent = false) :
    (H.memory.setPersistent a o true = (H.memory, some .creatingOIdFailed) ∧
        (o.objecttype = invalid ∨ o.objecttype = atomicTypeOId)) ∨
      ∃ c, counterIds o.objecttype = some c ∧ o.objecttype ≠ atomicTypeOId ∧
        (H.memory.setPersistent a o true).1 = withFreshId H.memory a o c := by
  rw [ObjectMemory.setPersistent, if_pos rfl, hper, if_neg Bool.false_ne_true, h.readWrite,
    if_neg Bool.false_ne_true]
  by_cases hnone : o.objecttype = invalid ∨ o.objecttype = atomicTypeOId
  · refine .inl ⟨?_, hnone⟩
    rcases hnone with hnone | hnone <;> rw [hnone] <;> rfl
  · rw [not_or] at hnone
    have htype := ((h.objects a o ha).hasType).resolve_left hnone.1
    obtain ⟨c, hc, halloc⟩ := allocateOId_eq H.memory.server htype hnone.2
    refine .inr ⟨c, hc, hnone.2, ?_⟩
    have hfree : H.memory.maps ⟨o.objecttype, H.memory.server.next c⟩ = none := by
      rw [Option.eq_none_iff_forall_ne_some]
      exact fun b hb => not_drawn hc (h.mapsDrawn _ b hb)
    rw [halloc]
    simp only [ObjectMemory.registerDBObject, htype, if_true, ObjectMemory.setObject, hfree]
    rfl

/-- An object gets its first id. -/
theorem Ok.withFreshId (h : Ok H) {a : ℕ} {o : DBObject} (ha : H.memory.objects a = some o)
    (hfirst : o.myOId.oidtype = invalid) {c : OIdCounter} (hc : counterIds o.objecttype = some c)
    (hatomic : o.objecttype ≠ atomicTypeOId) {M : ObjectMemory} (hM : M = StoredState.withFreshId H.memory a o c) :
    Ok ⟨M, earlierIds H.memory M H.earlier⟩ := by
  subst hM
  have hobj := h.objects a o ha
  have hfresh : ¬Drawn H.memory.server.next ⟨o.objecttype, H.memory.server.next c⟩ := not_drawn hc
  have htype : o.objecttype ≠ invalid := by
    intro heq
    rw [heq] at hc
    exact nomatch hc
  obtain ⟨hdb, -⟩ := hobj.invalid h.rowsDrawn hfirst
  refine ⟨fun b o' hb => ?_, fun id b hmap => ?_, fun id b hmap => ?_,
    fun id hmem => (h.rowsDrawn id hmem).mono c, fun b id hmem => ?_, h.readWrite, h.notAborted⟩
  · by_cases hab : b = a
    · subst hab
      obtain rfl := Option.some.inj ((withFreshId_objects_self H.memory b o c).symm.trans hb)
      refine ⟨fun _ => withFreshId_maps_self H.memory b o c, fun _ => htype, ?_, nofun, fun _ => rfl,
        hatomic, hobj.hasType⟩
      refine ⟨fun htrue => ?_, fun hmem => absurd (h.rowsDrawn _ hmem) hfresh⟩
      exact absurd (hdb.symm.trans htrue) Bool.false_ne_true
    · have hobj' := h.objects b o' ((withFreshId_objects_ne H.memory a o c hab).symm.trans hb)
      refine ⟨fun hvalid => ?_, hobj'.valid, hobj'.stored, hobj'.clean, hobj'.ofType,
        hobj'.notAtomic, hobj'.hasType⟩
      have hmapped := hobj'.mapped hvalid
      refine (withFreshId_maps_ne H.memory a o c ?_).trans hmapped
      intro heq
      exact hfresh (heq ▸ h.mapsDrawn _ b hmapped)
  · by_cases hid : id = ⟨o.objecttype, H.memory.server.next c⟩
    · subst hid
      obtain rfl := Option.some.inj ((withFreshId_maps_self H.memory a o c).symm.trans hmap)
      exact ⟨_, withFreshId_objects_self H.memory a o c, rfl⟩
    · have hmap' := (withFreshId_maps_ne H.memory a o c hid).symm.trans hmap
      obtain ⟨o', hb, rfl⟩ := h.alive id b hmap'
      have hab : b ≠ a := by
        rintro rfl
        obtain rfl := Option.some.inj (ha.symm.trans hb)
        exact (h.mapsDrawn _ b hmap').valid hfirst
      exact ⟨o', (withFreshId_objects_ne H.memory a o c hab).trans hb, rfl⟩
  · by_cases hid : id = ⟨o.objecttype, H.memory.server.next c⟩
    · subst hid
      exact ⟨c, hc, by simp [StoredState.withFreshId]⟩
    · exact (h.mapsDrawn id b ((withFreshId_maps_ne H.memory a o c hid).symm.trans hmap)).mono c
  · rcases mem_earlierIds hmem with hmem | ⟨o₁, o₂, h₁, h₂, hne, rfl⟩
    · exact h.earlier b id hmem
    · by_cases hab : b = a
      · subst hab
        obtain rfl := Option.some.inj (ha.symm.trans h₁)
        exact hfirst
      · have h₂' := (withFreshId_objects_ne H.memory a o c hab).symm.trans h₂
        obtain rfl := Option.some.inj (h₁.symm.trans h₂')
        exact absurd rfl hne

/-- A second id leaves the first one in the maps. -/
theorem Ok.not_mapsFollow (h : Ok H) {a : ℕ} {o : DBObject} (ha : H.memory.objects a = some o)
    (hvalid : o.myOId.oidtype ≠ invalid) {c : OIdCounter} (hc : counterIds o.objecttype = some c) :
    ¬ MapsFollow (StoredState.withFreshId H.memory a o c) := by
  intro hmaps
  have hmapped := (h.objects a o ha).mapped hvalid
  have hne : o.myOId ≠ ⟨o.objecttype, H.memory.server.next c⟩ := by
    intro heq
    exact not_drawn hc (heq ▸ h.mapsDrawn _ a hmapped)
  have hboth := hmaps.1 a _ (withFreshId_objects_self H.memory a o c) rfl o.myOId
  exact hne (hboth.mp ((withFreshId_maps_ne H.memory a o c hne).trans hmapped))

/-! ## Construction, loading and destruction -/

/-- An object appears at a free address, with or without an entry in the maps. -/
theorem Ok.appear (h : Ok H) {a : ℕ} (ha : H.memory.objects a = none) {o : DBObject}
    (maps : TypedOId → Option ℕ) {M : ObjectMemory}
    (hM : M = { H.memory.setObject a (some o) with maps := maps }) (hobj : ObjectOk M a o)
    (hkeep : ∀ id b, H.memory.maps id = some b → maps id = some b)
    (hnew : ∀ id b, maps id = some b →
      H.memory.maps id = some b ∨ (b = a ∧ id = o.myOId ∧ Drawn H.memory.server.next id)) :
    Ok ⟨M, earlierIds H.memory M H.earlier⟩ := by
  subst hM
  have hother : ∀ b ≠ a, (H.memory.setObject a (some o)).objects b = H.memory.objects b :=
    fun b hab => Function.update_of_ne hab _ _
  have hself : (H.memory.setObject a (some o)).objects a = some o := Function.update_self _ _ _
  refine ⟨fun b o' hb => ?_, fun id b hmap => ?_, fun id b hmap => ?_, h.rowsDrawn,
    fun b id hmem => ?_, h.readWrite, h.notAborted⟩
  · by_cases hab : b = a
    · subst hab
      obtain rfl := Option.some.inj (hself.symm.trans hb)
      exact hobj
    · have hobj' := h.objects b o' ((hother b hab).symm.trans hb)
      exact ⟨fun hvalid => hkeep _ b (hobj'.mapped hvalid), hobj'.valid, hobj'.stored, hobj'.clean,
        hobj'.ofType, hobj'.notAtomic, hobj'.hasType⟩
  · rcases hnew id b hmap with hmap | ⟨rfl, rfl, -⟩
    · obtain ⟨o', hb, hid⟩ := h.alive id b hmap
      have hab : b ≠ a := by
        rintro rfl
        exact nomatch ha.symm.trans hb
      exact ⟨o', (hother b hab).trans hb, hid⟩
    · exact ⟨o, hself, rfl⟩
  · rcases hnew id b hmap with hmap | ⟨-, -, hdrawn⟩
    · exact h.mapsDrawn id b hmap
    · exact hdrawn
  · rcases mem_earlierIds hmem with hmem | ⟨o₁, o₂, h₁, h₂, hne, rfl⟩
    · exact h.earlier b id hmem
    · have hab : b ≠ a := by
        rintro rfl
        exact nomatch ha.symm.trans h₁
      obtain rfl := Option.some.inj (h₁.symm.trans ((hother b hab).symm.trans h₂))
      exact absurd rfl hne

theorem Ok.construct (h : Ok H) {a : ℕ} (ha : H.memory.objects a = none) (t : ObjectType)
    {M : ObjectMemory} (hM : M = H.memory.setObject a (some (.new t.1))) :
    Ok ⟨M, earlierIds H.memory M H.earlier⟩ := by
  refine h.appear ha H.memory.maps hM ?_ (fun _ _ => id) fun _ _ => .inl
  subst hM
  refine ⟨fun hvalid => absurd rfl hvalid, nofun, ⟨nofun, fun hmem => ?_⟩, nofun,
    fun hvalid => absurd rfl hvalid, nofun, t.2⟩
  exact absurd rfl (h.rowsDrawn _ hmem).valid

theorem Ok.load (h : Ok H) {a : ℕ} (ha : H.memory.objects a = none) (id : TypedOId)
    {M : ObjectMemory} (hM : M = (H.memory.getObjectByOId a id).1) :
    Ok ⟨M, earlierIds H.memory M H.earlier⟩ := by
  rw [ObjectMemory.getObjectByOId] at hM
  split at hM
  · rw [hM]
    exact h.unchanged
  split at hM
  swap
  · rw [hM]
    exact h.unchanged
  next htype =>
  split at hM
  · rw [hM]
    exact h.unchanged
  next hfree =>
  split at hM
  · rw [hM]
    exact h.unchanged
  next hatomic =>
  split at hM
  swap
  · rw [hM]
    exact h.unchanged
  next hrow =>
  have hM' : M = { H.memory.setObject a (some (.loaded id)) with
      maps := Function.update H.memory.maps id (some a) } := by
    rw [hM, ObjectMemory.registerDBObject, if_pos htype]
    simp only [ObjectMemory.setObject, hfree]
  have hdrawn := h.rowsDrawn id hrow
  refine h.appear ha _ hM' ?_ (fun id' b hmap => ?_) fun id' b hmap => ?_
  · subst hM'
    refine ⟨fun _ => Function.update_self _ _ _, fun _ => hdrawn.valid, ⟨fun _ => hrow, fun _ => rfl⟩,
      fun _ => rfl, fun _ => rfl, hatomic, .inr htype⟩
  · refine (Function.update_of_ne ?_ _ _).trans hmap
    rintro rfl
    exact Option.some_ne_none b (hmap.symm.trans hfree)
  · by_cases hid : id' = id
    · subst hid
      rw [Function.update_self] at hmap
      exact .inr ⟨(Option.some.inj hmap).symm, rfl, hdrawn⟩
    · rw [Function.update_of_ne hid] at hmap
      exact .inl hmap

/-- The destructor takes the entries of its object out of the maps, and no others. -/
theorem Ok.maps_delete (h : Ok H) {a : ℕ} {o : DBObject} (ha : H.memory.objects a = some o) (id : TypedOId)
    (b : ℕ) : (H.memory.delete a o).maps id = some b ↔ H.memory.maps id = some b ∧ b ≠ a := by
  have hobj := h.objects a o ha
  have hmine : H.memory.maps id = some a → id = o.myOId := by
    intro hmap
    obtain ⟨o', ha', hid⟩ := h.alive id a hmap
    obtain rfl := Option.some.inj (ha.symm.trans ha')
    exact hid.symm
  rw [ObjectMemory.delete, ObjectMemory.deregisterDBObject]
  by_cases hvalid : o.myOId.oidtype = invalid
  · have hmap : o.myOId.oidtype.hasMap = false := by rw [hvalid]; rfl
    rw [hmap, if_neg Bool.false_ne_true]
    refine ⟨fun hb => ⟨hb, ?_⟩, And.left⟩
    rintro rfl
    exact (h.mapsDrawn id b hb).valid (hmine hb ▸ hvalid)
  · have hmap : o.myOId.oidtype.hasMap = true := by
      rw [hobj.ofType hvalid]
      exact hobj.hasType.resolve_left fun hinvalid => hvalid ((hobj.ofType hvalid).trans hinvalid)
    rw [hmap, if_pos rfl]
    by_cases hid : id = o.myOId
    · subst hid
      simp only [Function.update_self]
      refine ⟨by rintro ⟨⟩, fun hb => absurd ?_ hb.2⟩
      exact Option.some.inj (hb.1.symm.trans (hobj.mapped hvalid))
    · simp only [ObjectMemory.setObject, Function.update_of_ne hid]
      refine ⟨fun hb => ⟨hb, ?_⟩, And.left⟩
      rintro rfl
      exact hid (hmine hb)

theorem Ok.delete (h : Ok H) {a : ℕ} {o : DBObject} (ha : H.memory.objects a = some o)
    {M : ObjectMemory} (hM : M = H.memory.delete a o) :
    Ok ⟨M, earlierIds H.memory M H.earlier⟩ := by
  obtain ⟨hobjects, hrows, hserver⟩ := H.memory.delete_eq a o
  have hmaps := h.maps_delete ha
  rw [← hM] at hobjects hrows hserver hmaps
  have hother : ∀ b o', M.objects b = some o' → H.memory.objects b = some o' ∧ b ≠ a := by
    intro b o' hb
    rw [hobjects] at hb
    by_cases hab : b = a
    · subst hab
      rw [Function.update_self] at hb
      exact nomatch hb
    · rw [Function.update_of_ne hab] at hb
      exact ⟨hb, hab⟩
  refine ⟨fun b o' hb => ?_, fun id b hmap => ?_, fun id b hmap => ?_, fun id hmem => ?_,
    fun b id hmem => ?_, ?_, ?_⟩
  · obtain ⟨hb, hab⟩ := hother b o' hb
    have hobj' := h.objects b o' hb
    refine ⟨fun hvalid => (hmaps _ b).mpr ⟨hobj'.mapped hvalid, hab⟩, hobj'.valid, ?_, hobj'.clean,
      hobj'.ofType, hobj'.notAtomic, hobj'.hasType⟩
    rw [hrows]
    exact hobj'.stored
  · obtain ⟨hmap, hab⟩ := (hmaps id b).mp hmap
    obtain ⟨o', hb, hid⟩ := h.alive id b hmap
    refine ⟨o', ?_, hid⟩
    rw [hobjects]
    exact (Function.update_of_ne hab _ _).trans hb
  · rw [hserver]
    exact h.mapsDrawn id b ((hmaps id b).mp hmap).1
  · rw [hserver]
    rw [hrows] at hmem
    exact h.rowsDrawn id hmem
  · rcases mem_earlierIds hmem with hmem | ⟨o₁, o₂, h₁, h₂, hne, rfl⟩
    · exact h.earlier b id hmem
    · obtain ⟨h₂', -⟩ := hother b o₂ h₂
      obtain rfl := Option.some.inj (h₁.symm.trans h₂')
      exact absurd rfl hne
  · rw [hserver]
    exact h.readWrite
  · rw [hserver]
    exact h.notAborted

/-! ## Runs keep the promise, unless an object becomes persistent again -/

/-- **One event keeps the invariant**, unless it makes an object persistent again. -/
theorem Ok.step (h : Ok H) {e : Event} (he : NotAgain H e) : Ok (step H e) := by
  rw [StoredState.step]
  cases e with
  | construct a t =>
    rw [next]
    split
    · next ha => exact h.construct ha t rfl
    · exact h.unchanged
  | getObjectByOId a id =>
    rw [next]
    split
    · next ha => exact h.load ha id rfl
    · exact h.unchanged
  | setPersistent a newPersistent =>
    rw [next, ObjectMemory.withObject]
    split
    swap
    · exact h.unchanged
    next o ha =>
    cases newPersistent with
    | false => exact h.notPersistent ha rfl
    | true =>
      cases hper : o.isPersistent with
      | true =>
        rw [ObjectMemory.setPersistent, if_pos rfl, hper, if_pos rfl]
        exact h.unchanged
      | false =>
        have hfirst := (he o ha).resolve_left (by rw [hper]; exact Bool.false_ne_true)
        rcases h.setPersistent_eq ha hper with ⟨heq, -⟩ | ⟨c, hc, hatomic, heq⟩
        · rw [heq]
          exact h.unchanged
        · exact h.withFreshId ha hfirst hc hatomic heq
  | setModified a =>
    rw [next, ObjectMemory.withObject]
    split
    · next o ha => exact h.setModified ha rfl
    · exact h.unchanged
  | validate a =>
    rw [next, ObjectMemory.withObject]
    split
    · next o ha => exact h.validate ha rfl
    · exact h.unchanged
  | destroy a =>
    rw [next, ObjectMemory.withObject]
    split
    · next o ha => exact h.delete ha rfl
    · exact h.unchanged

/-- What is promised of rows. -/
theorem Ok.rowsFollow (h : Ok H) {a : ℕ}
    (hclean : ∀ o, H.memory.objects a = some o → o.isInDatabase = o.isPersistent) : RowsFollow H a := by
  intro o ha
  refine ⟨?_, fun id hid _ hmem => (h.rowsDrawn id hmem).valid (h.earlier a id hid)⟩
  rw [← (h.objects a o ha).stored, hclean o ha]

/-- **An event keeps what is promised exactly when it does not make an object persistent again.** -/
theorem Ok.eventOk_iff (h : Ok H) (e : Event) : EventOk H e ↔ NotAgain H e := by
  constructor
  · intro hevent
    cases e with
    | setPersistent a newPersistent =>
      cases newPersistent with
      | false => trivial
      | true =>
        intro o ha
        by_contra hagain
        rw [not_or, Bool.not_eq_true] at hagain
        obtain ⟨hper, hvalid⟩ := hagain
        have hmaps := hevent.1
        rw [StoredState.step, next, ObjectMemory.withObject, ha] at hmaps
        have hobj := h.objects a o ha
        rcases h.setPersistent_eq ha hper with ⟨-, hnone⟩ | ⟨c, hc, -, heq⟩
        · rw [← hobj.ofType hvalid] at hnone
          exact hnone.elim hvalid hobj.notAtomic
        · refine h.not_mapsFollow ha hvalid hc ?_
          rw [← heq]
          exact hmaps
    | _ => trivial
  · intro he
    have hok := h.step he
    refine ⟨hok.mapsFollow, ?_⟩
    rintro a rfl
    refine ⟨fun o ha call hcall => (h.callOk ha hcall).2, hok.rowsFollow fun o' ho' => ?_⟩
    rw [StoredState.step, next, ObjectMemory.withObject] at ho'
    cases ha : H.memory.objects a with
    | none =>
      rw [ha] at ho'
      exact nomatch ha.symm.trans ho'
    | some o =>
      rw [ha] at ho'
      obtain ⟨o'', ho'', hclean⟩ := (h.objects a o ha).validate ha h.readWrite h.notAborted
      obtain rfl := Option.some.inj (ho''.symm.trans ho')
      exact hclean

/-- **A run keeps rows and maps as the flags promise exactly when `setPersistent(true)` comes only to
objects that are persistent or have never been.** -/
theorem stored_state_iff (s : Start) (es : List Event) :
    Along step EventOk s.history es ↔ Along step NotAgain s.history es :=
  along_congr (fun _ _ h he => h.step he) (fun _ e h => h.eventOk_iff e) s.ok

/-- A new database. -/
def emptyStart : Start := ⟨fun _ => 1, ∅, fun _ h => absurd h (Finset.notMem_empty _)⟩

/-- A tile is stored, and changes its mind twice before the next `validate`. -/
def changedMind : List Event :=
  [.construct 0 ⟨blobOId, .inr rfl⟩, .setPersistent 0 true, .validate 0, .setPersistent 0 false,
    .setPersistent 0 true]

/-- The tile is updated under an id that has no row, and its row stays under the id it had before. -/
theorem changedMind_validate :
    ¬ CallOk (run step emptyStart.history changedMind).memory 0 ∧
      ¬ RowsFollow (run step emptyStart.history (changedMind ++ [.validate 0])) 0 ∧
        ¬ Along step EventOk emptyStart.history (changedMind ++ [.validate 0]) := by
  have hcall : ¬ CallOk (run step emptyStart.history changedMind).memory 0 := fun h =>
    absurd (h ⟨true, true, true, false, ⟨blobOId, 2⟩, blobOId, 0⟩ rfl .updateInDb rfl nofun) (by decide)
  refine ⟨hcall, fun h => ?_, fun h => ?_⟩
  · have hrows := h ⟨true, true, false, false, ⟨blobOId, 2⟩, blobOId, 0⟩ rfl
    exact absurd (hrows.1.mpr rfl) (by decide)
  · exact hcall ((along_append.mp h).2.1.2 0 rfl).1

end StoredState

end Rasdaman
