import Mathlib.Data.Nat.Basic
import Rasdaman.Machinery.CString
import Rasdaman.Rasmgr.RasmgrMess

/-!
# Rasmgr/ServerRasNet — the capability rasmgr writes for a server

`ServerRasNet::getCapability` with its fixed buffers.  The message digest is a parameter.
-/

namespace Rasdaman

open CString

/-- The rights of a user on a database. -/
structure UserDatabaseRights where
  readAccess : Bool
  writeAccess : Bool
  deriving DecidableEq, Repr

def isHexDigit (c : Char) : Bool := c.isDigit || ('a' ≤ c && c ≤ 'f')

/-- An MD5 digest as `"%02x"` prints its bytes. -/
structure Digest where
  text : Text
  length_eq : text.length = 32
  hex : text.all isHexDigit = true

/-- The fields of `struct tm` that a capability shows, as `localtime` fills them in. -/
structure Tm where
  mday : ℕ
  mon : ℕ
  year : ℕ
  hour : ℕ
  min : ℕ
  sec : ℕ
  mday_le : mday ≤ 31
  mon_le : mon ≤ 11
  year_lt : year + 1900 < 2 ^ 31
  hour_le : hour ≤ 23
  min_le : min ≤ 59
  sec_le : sec ≤ 60

/-- The marker of a field of a capability. -/
def marker (c : Char) : Text := ['$', c]

@[simp] theorem marker_length (c : Char) : (marker c).length = 2 := rfl

/-- What both programs put before a capability to sign it. -/
def signing : Text := ['$', 'C', 'a', 'n', 'c', 'i']

@[simp] theorem signing_length : signing.length = 6 := rfl

namespace ServerRasNet

/-- `%d`. -/
def decimal (n : ℕ) : Text := Nat.toDigits 10 n

/-- What `getCapability` prints into `formattedTime`. -/
def timeText (b : Tm) : Text :=
  decimal b.mday ++ ':' :: decimal (b.mon + 1) ++ ':' :: decimal (b.year + 1900) ++ ':' ::
    decimal b.hour ++ ':' :: decimal b.min ++ ':' :: decimal b.sec

/-- `ServerRasNet::convertDatabRights`. -/
def convertDatabRights (dbRights : UserDatabaseRights) : Text :=
  [if dbRights.readAccess then 'R' else '.', if dbRights.writeAccess then 'W' else '.']

/-- What `getCapability` prints into `capaS`. -/
def capaText (rString databaseName formattedTime serverName : Text) : Text :=
  marker 'I' ++ decimal 0 ++ marker 'E' ++ rString ++ marker 'B' ++ databaseName ++ marker 'T' ++
    formattedTime ++ marker 'N' ++ serverName

/-- `ServerRasNet::getCapability`. -/
def getCapability (messageDigest : Text → Digest) (b : Tm) (serverName databaseName : Text)
    (rights : UserDatabaseRights) : Except Fault Text := do
  let formattedTime ← fit 30 (timeText b)
  let rString ← fit 20 (convertDatabRights rights)
  let capaS ← fit 300 (capaText rString databaseName formattedTime serverName)
  let capaQ ← fit 300 (signing ++ capaS)
  let digest ← fit 50 (messageDigest capaQ).text
  fit 300 (capaS ++ marker 'D' ++ digest ++ marker 'K')

/-! ## What is written -/

theorem dollar_notMem_decimal (n : ℕ) : '$' ∉ decimal n := fun h => by
  simpa using Nat.isDigit_of_mem_toDigits (by decide) (by decide) h

theorem decimal_length_le {n k : ℕ} (hk : 0 < k) (h : n < 10 ^ k) : (decimal n).length ≤ k :=
  (Nat.length_toDigits_le_iff (by decide) hk).mpr h

theorem dollar_notMem_timeText (b : Tm) : '$' ∉ timeText b := by
  simp [timeText, dollar_notMem_decimal]

/-- The time always fits its buffer. -/
theorem timeText_length_lt (b : Tm) : (timeText b).length < 30 := by
  have hmday := decimal_length_le (n := b.mday) (k := 2) (by decide) (by have := b.mday_le; omega)
  have hmon := decimal_length_le (n := b.mon + 1) (k := 2) (by decide) (by have := b.mon_le; omega)
  have hyear := decimal_length_le (n := b.year + 1900) (k := 10) (by decide)
    (by have := b.year_lt; omega)
  have hhour := decimal_length_le (n := b.hour) (k := 2) (by decide) (by have := b.hour_le; omega)
  have hmin := decimal_length_le (n := b.min) (k := 2) (by decide) (by have := b.min_le; omega)
  have hsec := decimal_length_le (n := b.sec) (k := 2) (by decide) (by have := b.sec_le; omega)
  simp only [timeText, List.length_append, List.length_cons]
  omega

@[simp] theorem convertDatabRights_length (rights : UserDatabaseRights) :
    (convertDatabRights rights).length = 2 := rfl

theorem dollar_notMem_convertDatabRights (rights : UserDatabaseRights) :
    '$' ∉ convertDatabRights rights := by
  obtain ⟨read, write⟩ := rights
  cases read <;> cases write <;> decide

theorem capaText_length (rString databaseName formattedTime serverName : Text) :
    (capaText rString databaseName formattedTime serverName).length
      = 11 + rString.length + databaseName.length + formattedTime.length + serverName.length := by
  have hzero : (decimal 0).length = 1 := by decide
  simp only [capaText, List.length_append, marker_length, hzero]
  omega

variable {messageDigest : Text → Digest} {b : Tm} {serverName databaseName : Text}
  {rights : UserDatabaseRights}

/-- What `getCapability` returns, and when its buffers suffice. -/
theorem getCapability_eq_ok_iff {capability : Text} :
    getCapability messageDigest b serverName databaseName rights = .ok capability ↔
      databaseName.length + (timeText b).length + serverName.length < 251 ∧
        capability = capaText (convertDatabRights rights) databaseName (timeText b) serverName ++
          marker 'D' ++ (messageDigest (signing ++
            capaText (convertDatabRights rights) databaseName (timeText b) serverName)).text ++
          marker 'K' := by
  have hcapa := capaText_length (convertDatabRights rights) databaseName (timeText b) serverName
  have hdigest := (messageDigest (signing ++
    capaText (convertDatabRights rights) databaseName (timeText b) serverName)).length_eq
  rw [convertDatabRights_length] at hcapa
  rw [getCapability, fit_bind (timeText_length_lt b),
    fit_bind (by rw [convertDatabRights_length]; decide), fit_bind_eq_ok_iff, fit_bind_eq_ok_iff,
    fit_bind_eq_ok_iff, fit_eq_ok_iff]
  simp only [List.length_append, signing_length, marker_length, hcapa, hdigest]
  constructor
  · rintro ⟨-, -, -, hlen, rfl⟩
    exact ⟨by omega, rfl⟩
  · rintro ⟨hlen, rfl⟩
    exact ⟨by omega, by omega, by omega, by omega, rfl⟩

end ServerRasNet

end Rasdaman
