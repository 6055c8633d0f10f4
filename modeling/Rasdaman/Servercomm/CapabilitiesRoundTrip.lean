import Mathlib
import Rasdaman.Rasmgr.RasControlGrammar
import Rasdaman.Rasmgr.ServerRasNet

/-!
# Servercomm/CapabilitiesRoundTrip — capabilities from rasmgr to a server

`AccessControl::crunchCapability` with its fixed buffers.
-/

namespace Rasdaman

open CString

/-- The members of `AccessControl` that a capability is checked against or sets. -/
structure AccessControl where
  serverName : Text
  okToRead : Bool
  okToWrite : Bool
  weHaveClient : Bool
  deriving DecidableEq, Repr

namespace AccessControl

/-- `CAPABILITY_REFUSED`. -/
def capabilityRefused : ℕ := 804

/-- The letters of the rights that the loop over them looks at. -/
def rightsShown (rights : Text) : Text := (rights.take 2).takeWhile (· != '$')

/-- The checks and effects of `crunchCapability` once the digest is right. -/
def crunchSigned (ac : AccessControl) (signed : Text) : Except Fault (ℕ × AccessControl) := do
  let rights := (← deref (strstr (marker 'E') signed)).drop 2
  let _timeout := (← deref (strstr (marker 'T') signed)).drop 2
  let cServerName := (← deref (strstr (marker 'N') signed)).drop 2
  if ac.serverName ≠ cServerName then
    return (capabilityRefused, ac)
  return (0, { ac with
    okToRead := (rightsShown rights).contains 'R'
    okToWrite := (rightsShown rights).contains 'W'
    weHaveClient := true })

/-- `AccessControl::crunchCapability`: the status and the members after it. -/
def crunchCapability (messageDigest : Text → Digest) (ac : AccessControl) (capability : Text) :
    Except Fault (ℕ × AccessControl) := do
  let capaQ ← fit 200 (signing ++ capability)
  match cut (marker 'D') capaQ with
  | none => return (capabilityRefused, ac)
  | some (signed, afterMarker) =>
    let digest ← terminate 200 (signed.length + 2) 32 afterMarker
    let testdigest ← fit 50 (messageDigest signed).text
    if testdigest ≠ digest then
      return (capabilityRefused, ac)
    ac.crunchSigned signed

variable {messageDigest : Text → Digest} {ac : AccessControl} {capability signed afterMarker : Text}

/-! ## Defined runs -/

/-- A signed text with all the markers that are looked for. -/
def Marked (signed : Text) : Prop :=
  (strstr (marker 'E') signed).isSome ∧ (strstr (marker 'T') signed).isSome ∧
    (strstr (marker 'N') signed).isSome

instance : DecidablePred Marked := fun _ => inferInstanceAs (Decidable (_ ∧ _ ∧ _))

theorem crunchSigned_defined (ac : AccessControl) (signed : Text) :
    (∃ r, ac.crunchSigned signed = .ok r) ↔ Marked signed := by
  unfold crunchSigned Marked
  cases strstr (marker 'E') signed with
  | none => exact ⟨fun ⟨_, h⟩ => (nomatch h), fun h => (nomatch h.1)⟩
  | some rights =>
    cases strstr (marker 'T') signed with
    | none => exact ⟨fun ⟨_, h⟩ => (nomatch h), fun h => (nomatch h.2.1)⟩
    | some timeout =>
      cases strstr (marker 'N') signed with
      | none => exact ⟨fun ⟨_, h⟩ => (nomatch h), fun h => (nomatch h.2.2)⟩
      | some name =>
        refine iff_of_true ?_ ⟨rfl, rfl, rfl⟩
        by_cases hname : ac.serverName = name.drop 2
        · exact ⟨_, if_neg (not_not.mpr hname)⟩
        · exact ⟨_, if_pos hname⟩

/-- A capability that is too long for the buffer. -/
theorem crunchCapability_long (h : 194 ≤ capability.length) :
    crunchCapability messageDigest ac capability = .error .outOfBuffer := by
  rw [crunchCapability, fit_of_le (by rw [List.length_append, signing_length]; omega)]
  rfl

/-- A capability without digest is refused. -/
theorem crunchCapability_unsigned (hlen : capability.length < 194)
    (hcut : cut (marker 'D') (signing ++ capability) = none) :
    crunchCapability messageDigest ac capability = .ok (capabilityRefused, ac) := by
  rw [crunchCapability, fit_bind (by rw [List.length_append, signing_length]; omega), hcut]
  rfl

/-- A capability with a digest goes through the checks on its signed part. -/
theorem crunchCapability_signed (hlen : capability.length < 194)
    (hcut : cut (marker 'D') (signing ++ capability) = some (signed, afterMarker)) :
    crunchCapability messageDigest ac capability =
      if signed.length + 34 < 200 then
        if (messageDigest signed).text ≠ afterMarker.take 32 then .ok (capabilityRefused, ac)
        else ac.crunchSigned signed
      else .error .outOfBuffer := by
  rw [crunchCapability, fit_bind (by rw [List.length_append, signing_length]; omega), hcut]
  dsimp only
  by_cases hoff : signed.length + 34 < 200
  · rw [terminate, if_pos (by omega), if_pos hoff]
    exact fit_bind (by rw [Digest.length_eq]; decide) _
  · rw [terminate, if_neg (by omega), if_neg hoff]
    rfl

end AccessControl

end Rasdaman

/-!
## Capabilities from rasmgr to the server

A capability that `getCapability` writes is understood by `crunchCapability` exactly when it is short
enough for the reader's buffer (**`capabilities_round_trip`**).  The reader is defined on a text when it
fits, has its digest well before the end of the buffer, and, if the digest is right, has all markers.
-/

namespace Rasdaman

open CString Registers ServerRasNet AccessControl

/-! ## Names and ids -/

/-- A database name that a `define db` command hands to `RasControl`. -/
def DbNameAccepted (db : Text) : Prop :=
  ∃ (command : Text) (m : GrammarMembers) (d : DefineDb),
    .defineDb d ∈ calls (RasControlGrammar.defineDbSubRule.run command).1 m ∧ d.dbName = some db

/-- `UUID::generateUUID`: 36 characters, hexadecimal digits and dashes. -/
structure ServerId where
  text : Text
  length_eq : text.length = 36
  chars : text.all (fun c => isHexDigit c || c == '-') = true

theorem dollar_notMem_serverId (id : ServerId) : '$' ∉ id.text := fun h => by
  simpa [isHexDigit] using List.all_eq_true.mp id.chars _ h

/-- A text taken by `strRule` has no `$`. -/
theorem dollar_notMem_strRule {inp db rest : Text} {t : List RasAction}
    (h : RasControlGrammar.strRule.run inp = (t, some (db, rest))) : '$' ∉ db := by
  rw [RasControlGrammar.strRule, Peg.Parser.token, Prod.mk.injEq] at h
  obtain ⟨-, h⟩ := h
  cases hskip : Peg.skip inp with
  | nil =>
    rw [hskip] at h
    exact nomatch h
  | cons c cs =>
    rw [hskip] at h
    dsimp only at h
    split_ifs at h with hc
    obtain ⟨rfl, -⟩ := Prod.mk.inj (Option.some.inj h)
    intro hmem
    rcases List.mem_cons.mp hmem with rfl | hmem
    · exact absurd hc (by decide)
    · exact absurd (List.mem_takeWhile_imp hmem) (by decide)

/-- The traces of `defineDbSubRule` that call. -/
theorem defineDbSubRule_calls {inp : Text} {m : GrammarMembers} {c : RasControlCall}
    (h : c ∈ calls (RasControlGrammar.defineDbSubRule.run inp).1 m) :
    ∃ db host mid mid' rest rest',
      RasControlGrammar.strRule.run mid = ([], some (db, rest)) ∧
        RasControlGrammar.strRule.run mid' = ([], some (host, rest')) ∧
          c = .defineDb { dbName := some db, dbhostName := some host } := by
  have hlit : ∀ s inp, (RasControlGrammar.lit s).run inp = ([], ((RasControlGrammar.lit s).run inp).2) :=
    fun _ _ => rfl
  have hstr : ∀ inp, RasControlGrammar.strRule.run inp = ([], (RasControlGrammar.strRule.run inp).2) :=
    fun _ => rfl
  simp only [RasControlGrammar.defineDbSubRule, RasControlGrammar.act, Peg.Parser.act,
    Peg.Parser.seq_run] at h
  rw [hlit] at h
  rcases hdb : ((RasControlGrammar.lit "db").run inp).2 with _ | ⟨_, mid⟩
  · simp [hdb, calls] at h
  simp only [hdb] at h
  rw [hstr] at h
  rcases hname : (RasControlGrammar.strRule.run mid).2 with _ | ⟨db, rest⟩
  · simp [hname, calls, Action.made, RasControlGrammar.clear] at h
  simp only [hname] at h
  rw [hlit] at h
  rcases hdbh : ((RasControlGrammar.lit "-dbh").run rest).2 with _ | ⟨_, mid'⟩
  · simp [hdbh, calls, Action.made, RasControlGrammar.clear] at h
  simp only [hdbh] at h
  rw [hstr mid'] at h
  rcases hhost : (RasControlGrammar.strRule.run mid').2 with _ | ⟨host, rest'⟩
  · simp [hhost, calls, Action.made, RasControlGrammar.clear] at h
  simp only [hhost] at h
  refine ⟨db, host, mid, mid', rest, rest', by rw [hstr, hname], by rw [hstr, hhost], ?_⟩
  simp only [List.nil_append, List.cons_append, calls, Action.made, RasControlGrammar.clear,
    List.mem_singleton] at h
  exact h

theorem DbNameAccepted.dollar_notMem {db : Text} (h : DbNameAccepted db) : '$' ∉ db := by
  obtain ⟨command, m, d, hcall, hname⟩ := h
  obtain ⟨db', host, mid, mid', rest, rest', hdb, -, hd⟩ := defineDbSubRule_calls hcall
  cases hd
  cases hname
  exact dollar_notMem_strRule hdb

/-! ## Fields -/

section Fields

variable {a c : Char} {field s : Text}

/-- A field with another marker is passed over. -/
theorem strstr_field (h : a ≠ c) (hc : c ≠ '$') (hf : '$' ∉ field) :
    strstr (marker a) (marker c ++ (field ++ s)) = strstr (marker a) s := by
  rw [marker, marker, strstr_other h hc.symm, strstr_append hf]

theorem strstr_marker (a : Char) (s : Text) :
    strstr (marker a) (marker a ++ s) = some (marker a ++ s) := strstr_found '$' a s

end Fields

variable {rString db time server : Text}

/-- What rasmgr signs, field by field. -/
theorem signed_eq (rString db time server : Text) :
    signing ++ capaText rString db time server =
      marker 'C' ++ (['a', 'n', 'c', 'i'] ++ (marker 'I' ++ (['0'] ++ (marker 'E' ++ (rString ++
        (marker 'B' ++ (db ++ (marker 'T' ++ (time ++ (marker 'N' ++ server)))))))))) := by
  have hzero : decimal 0 = ['0'] := by decide
  simp only [capaText, hzero, List.append_assoc]
  rfl

section

theorem strstr_rights :
    strstr (marker 'E') (signing ++ capaText rString db time server)
      = some (marker 'E' ++ (rString ++ (marker 'B' ++ (db ++ (marker 'T' ++ (time ++
          (marker 'N' ++ server))))))) := by
  rw [signed_eq, strstr_field (by decide) (by decide) (by decide),
    strstr_field (by decide) (by decide) (by decide), strstr_marker]

variable (hr : '$' ∉ rString) (hdb : '$' ∉ db) (ht : '$' ∉ time) (hs : '$' ∉ server)
include hr hdb

theorem strstr_time :
    strstr (marker 'T') (signing ++ capaText rString db time server)
      = some (marker 'T' ++ (time ++ (marker 'N' ++ server))) := by
  rw [signed_eq, strstr_field (by decide) (by decide) (by decide),
    strstr_field (by decide) (by decide) (by decide), strstr_field (by decide) (by decide) hr,
    strstr_field (by decide) (by decide) hdb, strstr_marker]

include ht

theorem strstr_server :
    strstr (marker 'N') (signing ++ capaText rString db time server)
      = some (marker 'N' ++ server) := by
  rw [signed_eq, strstr_field (by decide) (by decide) (by decide),
    strstr_field (by decide) (by decide) (by decide), strstr_field (by decide) (by decide) hr,
    strstr_field (by decide) (by decide) hdb, strstr_field (by decide) (by decide) ht, strstr_marker]

include hs

/-- The digest is found where rasmgr put it. -/
theorem cut_digest (rest : Text) :
    cut (marker 'D') (signing ++ (capaText rString db time server ++ (marker 'D' ++ rest)))
      = some (signing ++ capaText rString db time server, rest) := by
  rw [← List.append_assoc]
  refine cut_eq ?_
  rw [signed_eq]
  simp only [List.append_assoc]
  rw [strstr_field (by decide) (by decide) (by decide),
    strstr_field (by decide) (by decide) (by decide), strstr_field (by decide) (by decide) hr,
    strstr_field (by decide) (by decide) hdb, strstr_field (by decide) (by decide) ht,
    strstr_field (by decide) (by decide) hs, strstr_marker]

end

/-! ## The rights -/

/-- The server sees the rights that rasmgr wrote. -/
theorem rightsShown_convertDatabRights (rights : UserDatabaseRights) (rest : Text) :
    (rightsShown (convertDatabRights rights ++ rest)).contains 'R' = rights.readAccess ∧
      (rightsShown (convertDatabRights rights ++ rest)).contains 'W' = rights.writeAccess := by
  have htake : (convertDatabRights rights ++ rest).take 2 = convertDatabRights rights :=
    List.take_left' (convertDatabRights_length rights)
  rw [rightsShown, htake]
  obtain ⟨read, write⟩ := rights
  cases read <;> cases write <;> decide

/-! ## The round trip -/

/-- The members after a capability with these rights is accepted. -/
def AccessControl.granted (ac : AccessControl) (rights : UserDatabaseRights) : AccessControl :=
  { ac with okToRead := rights.readAccess, okToWrite := rights.writeAccess, weHaveClient := true }

/-- The capability is written, the server of this id accepts it with these rights, and a server of
another name refuses it and stays as it is. -/
def RoundTrips (messageDigest : Text → Digest) (b : Tm) (id : ServerId) (rights : UserDatabaseRights)
    (db : Text) : Prop :=
  ∃ capability, getCapability messageDigest b id.text db rights = .ok capability ∧
    ∀ ac : AccessControl,
      (ac.serverName = id.text →
        crunchCapability messageDigest ac capability = .ok (0, ac.granted rights)) ∧
      (ac.serverName ≠ id.text →
        crunchCapability messageDigest ac capability = .ok (capabilityRefused, ac))

variable {messageDigest : Text → Digest} {b : Tm} {id : ServerId} {rights : UserDatabaseRights}

/-- What the server does with the part that rasmgr signed. -/
theorem crunchSigned_capaText (hdb : '$' ∉ db) (ht : '$' ∉ time) (ac : AccessControl) :
    ac.crunchSigned (signing ++ capaText (convertDatabRights rights) db time server) =
      if ac.serverName ≠ server then .ok (capabilityRefused, ac) else .ok (0, ac.granted rights) := by
  have hr := dollar_notMem_convertDatabRights rights
  have hshown := rightsShown_convertDatabRights rights
    (marker 'B' ++ (db ++ (marker 'T' ++ (time ++ (marker 'N' ++ server)))))
  rw [crunchSigned, strstr_rights, strstr_time hr hdb, strstr_server hr hdb ht]
  dsimp only [deref, bind, Except.bind]
  rw [List.drop_left' (marker_length 'E'), List.drop_left' (marker_length 'N'), hshown.1, hshown.2]
  rfl

/-- A capability of rasmgr makes the round trip when the reader's buffer holds it. -/
theorem roundTrips_iff (hdb : '$' ∉ db) :
    RoundTrips messageDigest b id rights db ↔ db.length + (timeText b).length ≤ 108 := by
  have hr := dollar_notMem_convertDatabRights rights
  have ht := dollar_notMem_timeText b
  have hid := id.length_eq
  have hlength := capaText_length (convertDatabRights rights) db (timeText b) id.text
  have hdigest := (messageDigest (signing ++
    capaText (convertDatabRights rights) db (timeText b) id.text)).length_eq
  rw [convertDatabRights_length] at hlength
  constructor
  · rintro ⟨capability, hget, hac⟩
    obtain ⟨-, rfl⟩ := getCapability_eq_ok_iff.mp hget
    by_contra hlong
    have hfault := (hac ⟨id.text, false, false, false⟩).1 rfl
    rw [crunchCapability_long (by simp only [List.length_append, marker_length]; omega)] at hfault
    exact nomatch hfault
  · intro hshort
    refine ⟨_, getCapability_eq_ok_iff.mpr ⟨by omega, rfl⟩, fun ac => ?_⟩
    rw [List.append_assoc, List.append_assoc,
      crunchCapability_signed (by simp only [List.length_append, marker_length]; omega)
        (cut_digest hr hdb ht (dollar_notMem_serverId id) _),
      if_pos (by rw [List.length_append, signing_length]; omega), List.take_left' hdigest,
      if_neg (not_not.mpr rfl), crunchSigned_capaText hdb ht]
    exact ⟨fun h => if_neg (not_not.mpr h), fun h => if_pos h⟩

/-- When `crunchCapability` stays inside its buffer and uses no missing marker. -/
theorem crunchCapability_defined (messageDigest : Text → Digest) (ac : AccessControl)
    (capability : Text) :
    (∃ r, crunchCapability messageDigest ac capability = .ok r) ↔
      capability.length ≤ 193 ∧
        ∀ signed afterMarker, cut (marker 'D') (signing ++ capability) = some (signed, afterMarker) →
          signed.length ≤ 165 ∧ ((messageDigest signed).text = afterMarker.take 32 → Marked signed) := by
  rcases Nat.lt_or_ge capability.length 194 with hlen | hlen
  · cases hcut : cut (marker 'D') (signing ++ capability) with
    | none =>
      rw [crunchCapability_unsigned hlen hcut]
      exact iff_of_true ⟨_, rfl⟩ ⟨by omega, nofun⟩
    | some parts =>
      obtain ⟨signed, afterMarker⟩ := parts
      rw [crunchCapability_signed hlen hcut]
      have hparts : ∀ P : Text → Text → Prop, (∀ signed' afterMarker',
          some (signed, afterMarker) = some (signed', afterMarker') → P signed' afterMarker') ↔
            P signed afterMarker := fun P =>
        ⟨fun h => h _ _ rfl, fun h _ _ heq => by cases heq; exact h⟩
      rw [hparts fun signed afterMarker =>
        signed.length ≤ 165 ∧ ((messageDigest signed).text = afterMarker.take 32 → Marked signed)]
      by_cases hoff : signed.length + 34 < 200
      · rw [if_pos hoff]
        by_cases hdigest : (messageDigest signed).text = afterMarker.take 32
        · rw [if_neg (not_not.mpr hdigest), crunchSigned_defined]
          exact ⟨fun h => ⟨by omega, by omega, fun _ => h⟩, fun h => h.2.2 hdigest⟩
        · rw [if_pos hdigest]
          exact iff_of_true ⟨_, rfl⟩ ⟨by omega, by omega, fun h => absurd h hdigest⟩
      · rw [if_neg hoff]
        exact iff_of_false (fun ⟨_, h⟩ => nomatch h) (fun h => hoff (by omega))
  · rw [crunchCapability_long hlen]
    exact iff_of_false (fun ⟨_, h⟩ => nomatch h) (fun h => by omega)

/-- **Capabilities round-trip up to a length.**  An accepted name makes the round trip exactly when it
has, with the time, at most 108 characters; the writer stays in its buffers up to 214; the reader stays
in its buffer and uses no missing marker exactly when the text has at most 193 characters, its digest
is marked early enough, and a text with the right digest has all the markers. -/
theorem capabilities_round_trip (messageDigest : Text → Digest) :
    (∀ db, DbNameAccepted db → ∀ b id rights,
      RoundTrips messageDigest b id rights db ↔ db.length + (timeText b).length ≤ 108) ∧
    (∀ db b (id : ServerId) rights,
      (∃ capability, getCapability messageDigest b id.text db rights = .ok capability) ↔
        db.length + (timeText b).length ≤ 214) ∧
    ∀ ac capability,
      (∃ r, crunchCapability messageDigest ac capability = .ok r) ↔
        capability.length ≤ 193 ∧
          ∀ signed afterMarker, cut (marker 'D') (signing ++ capability) = some (signed, afterMarker) →
            signed.length ≤ 165 ∧
              ((messageDigest signed).text = afterMarker.take 32 → Marked signed) := by
  refine ⟨fun db hdb b id rights => roundTrips_iff hdb.dollar_notMem, fun db b id rights => ?_,
    crunchCapability_defined messageDigest⟩
  have hid := id.length_eq
  constructor
  · rintro ⟨capability, h⟩
    have := (getCapability_eq_ok_iff.mp h).1
    omega
  · exact fun h => ⟨_, getCapability_eq_ok_iff.mpr ⟨by omega, rfl⟩⟩

/-! ## One short name and one long one -/

/-- 1 March 2024, 23:39:24. -/
def marchTime : Tm where
  mday := 1
  mon := 2
  year := 124
  hour := 23
  min := 39
  sec := 24
  mday_le := by decide
  mon_le := by decide
  year_lt := by decide
  hour_le := by decide
  min_le := by decide
  sec_le := by decide

def someServer : ServerId where
  text := "123e4567-e89b-12d3-a456-426614174000".toList
  length_eq := by decide
  chars := by decide

/-- The MD5 sum of what rasmgr signs for the database `RASBASE`, this time and server, and reading. -/
def rasbaseDigest : Digest where
  text := "c8d573e6227efd626c426bf7d0446127".toList
  length_eq := by decide
  hex := by decide

theorem rasbase_accepted : DbNameAccepted "RASBASE".toList :=
  ⟨"db RASBASE -dbh rasdaman_host".toList, Member.cleared, _, List.mem_singleton_self _, rfl⟩

/-- A name of 100 letters. -/
def longName : Text := List.replicate 100 'a'

theorem longName_accepted : DbNameAccepted longName :=
  ⟨"db ".toList ++ longName ++ " -dbh rasdaman_host".toList, Member.cleared, _,
    List.mem_singleton_self _, rfl⟩

theorem capabilities_round_trip_rasbase :
    RoundTrips (fun _ => rasbaseDigest) marchTime someServer ⟨true, false⟩ "RASBASE".toList :=
  ((capabilities_round_trip fun _ => rasbaseDigest).1 _ rasbase_accepted _ _ _).mpr (by decide)

/-- The capability for the long name overflows the server's buffer. -/
theorem capability_overflows :
    DbNameAccepted longName ∧
      ¬ RoundTrips (fun _ => rasbaseDigest) marchTime someServer ⟨true, false⟩ longName :=
  ⟨longName_accepted, fun h => absurd
    ((roundTrips_iff longName_accepted.dollar_notMem).mp h) (by decide)⟩

end Rasdaman
