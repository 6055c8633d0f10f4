import Rasdaman.Machinery.NamedList
import Rasdaman.Machinery.Records

/-!
# Rasmgr/AuthFile — the users of the former rasmgr and its authorization file

`Authorization` of `src/rasmgr` saves the users as structures, one after the other as they are in memory,
behind a header with the MD5 of them all.  The structures are enciphered, the header is not.  What is in a
structure before it is filled, and in the bytes between its members, is in the file.
-/

namespace Rasdaman.AuthFile

open Bytes Records NamedList

/-! ## The host -/

/-- What rasmgr is given by its host: the byte order, `srand` and `rand` (its low byte), the digests, and the
name of the host. -/
structure Host where
  order : Order
  Rand : Type
  srand : BitVec 32 → Rand
  rand : Rand → UInt8 × Rand
  md5 : List UInt8 → Block 16
  messageDigest : List UInt8 → Chars 50
  hostName : Chars 100

/-- `hostCmp`: `a.x.y` is `a`. -/
def hostCmp (h1 h2 : List UInt8) : Bool :=
  if h1.length = h2.length then h1 = h2
  else if h2.length < h1.length then h1.take h2.length = h2 ∧ h1[h2.length]? = some 46
  else h2.take h1.length = h1 ∧ h2[h1.length]? = some 46

def randomTable : List UInt8 :=
  [103, 198, 105, 115, 81, 255, 74, 236, 41, 205, 186, 171, 242, 251, 227, 70, 124, 194, 84, 248, 27,
    232, 231, 141, 118, 90, 46, 99, 51, 159, 201, 154, 102, 50, 13, 183, 49, 88, 163, 90, 37, 93, 5, 23,
    88, 233, 94, 212, 171, 178, 205, 198, 155, 180, 84, 17, 14, 130, 116, 65, 33, 61, 220, 135, 112, 233,
    62, 161, 65, 225, 252, 103, 62, 1, 126, 151, 234, 220, 107, 150, 143, 56, 92, 42, 236, 176, 59, 251,
    50, 175, 60, 84, 236, 24, 219, 92, 2, 26, 254, 67, 251, 250, 170, 58, 251, 41, 209, 230, 5, 60, 124,
    148, 117, 216, 190, 97, 137, 249, 92, 187, 168, 153, 15, 149, 177, 235, 241, 179, 5, 239, 247, 0, 233,
    161, 58, 229, 202, 11, 203, 208, 72, 71, 100, 189, 31, 35, 30, 168, 28, 123, 100, 197, 20, 115, 90,
    197, 94, 75, 121, 99, 59, 112, 100, 36, 17, 158, 9, 220, 170, 212, 172, 242, 27, 16, 175, 59, 51, 205,
    227, 80, 72, 71, 21, 92, 187, 111, 34, 25, 186, 155, 125, 245, 11, 225, 26, 28, 127, 35, 248, 41, 248,
    164, 27, 19, 181, 202, 78, 232, 152, 50, 56, 224, 121, 77, 61, 52, 188, 95, 78, 119, 250, 203, 108, 5,
    172, 134, 33, 43, 170, 26, 85, 162, 190, 112, 181, 115, 59, 4, 92, 211, 54, 148, 179, 175, 226, 240,
    228, 158, 79, 50, 21, 73, 253, 130, 78, 169, 8, 112, 212, 178, 138, 41, 84, 72, 154, 10, 188, 213, 14,
    24, 168, 68, 172, 91, 243, 142, 76, 215, 45, 155, 9, 66, 229, 6, 196, 51, 175, 205, 163, 132, 127, 45,
    173, 212, 118, 71, 222, 50, 28, 236, 74, 196, 48, 246, 32, 35, 133, 108, 251, 178, 7, 4, 244, 236, 11,
    185, 32, 186, 134, 195, 62, 5, 241, 236, 217, 103, 51, 183, 153, 80, 163, 227, 20, 211, 217, 52, 247,
    94, 160, 242, 16, 168, 246, 5, 148, 1, 190, 180, 188, 68, 120, 250, 73, 105, 230, 35, 208, 26, 218,
    105, 106, 126, 76, 126, 81, 37, 179, 72, 132, 83, 58, 148, 251, 49, 153, 144, 50, 87, 68, 238, 155,
    188, 233, 229, 37, 207, 8, 245, 233, 226, 94, 83, 96, 170, 210, 178, 208, 133, 250, 84, 216, 53, 232,
    212, 102, 130, 100, 152, 217, 168, 135, 117, 101, 112, 90, 138, 63, 98, 128, 41, 68, 222, 124, 165,
    137, 78, 87, 89, 211, 81, 173, 172, 134, 149, 128, 236, 23, 228, 133, 241, 140, 12, 102, 241, 124,
    192, 124, 187, 34, 252, 228, 102, 218, 97, 11, 99, 175, 98, 188, 131, 180, 105, 47, 58, 255, 175, 39,
    22, 147, 172, 7, 31, 184, 109, 17, 52, 45, 141, 239, 79, 137, 212, 182, 99, 53, 193, 199, 228, 36,
    131, 103, 216, 237, 150, 18, 236, 69, 57, 2, 216, 229, 10, 248, 157, 119, 9, 209, 165, 150, 193, 244,
    31, 149, 170, 130, 202, 108, 73, 174, 144, 205, 22, 104, 186, 172, 122, 166, 242, 180, 168, 202, 153,
    178, 194, 55, 42, 203, 8, 207, 97, 201, 195, 128, 94, 110, 3, 40, 218, 76, 215, 106, 25, 237, 210,
    211, 153, 76, 121, 139, 0, 34, 86, 154, 212, 24, 209, 254, 228, 217, 205, 69, 163, 145, 198, 1, 255,
    201, 42, 217, 21, 1, 67, 47, 238, 21, 2, 135, 97, 124, 19, 98, 158, 105, 252, 114, 129, 205, 113, 101,
    166, 62, 171, 73, 207, 113, 75, 206, 58, 117, 167, 79, 118, 234, 126, 100, 255, 129, 235, 97, 253,
    254, 195, 155, 103, 191, 13, 233, 140, 126, 78, 50, 189, 249, 124, 140, 106, 199, 91, 164, 60, 2, 244,
    178, 237, 114, 22, 236, 243, 1, 77, 240, 0, 16, 139, 103, 207, 153, 80, 91, 23, 159, 142, 212, 152,
    10, 97, 3, 209, 188, 167, 13, 190, 155, 191, 171, 14, 213, 152, 1, 214, 229, 242, 214, 246, 125, 62,
    197, 22, 142, 33, 46, 45, 175, 2, 198, 185, 99, 201, 138, 31, 112, 151, 222, 12, 86, 137, 26, 43, 33,
    27, 1, 7, 13, 216, 253, 139, 22, 194, 161, 164, 227, 207, 210, 146, 210, 152, 75, 53, 97, 213, 85,
    209, 108, 51, 221, 194, 188, 247, 237, 222, 19, 239, 229, 32, 199, 226, 171, 221, 164, 77, 129, 136,
    28, 83, 26, 238, 235, 102, 36, 76, 59, 121, 30, 168, 172, 251, 106, 104, 243, 88, 70, 6, 71, 43, 38,
    14, 13, 210, 235, 178, 31, 108, 58, 59, 192, 84, 42, 171, 186, 78, 248, 246, 199, 22, 158, 115, 17, 8,
    219, 4, 96, 34, 10, 167, 77, 49, 181, 91, 3, 160, 13, 34, 13, 71, 93, 205, 155, 135, 120, 86, 213,
    112, 76, 156, 134, 234, 15, 152, 242, 235, 156, 83, 13, 167, 250, 90, 216, 176, 181, 219, 80, 194,
    253, 93, 9, 90, 42, 165, 226, 163, 251, 183, 19, 71, 84, 154, 49, 99, 50, 35, 78, 206, 118, 91, 117,
    113, 182, 77, 33, 107, 40, 113, 46, 37, 207, 55, 128, 249, 220, 98, 156, 215, 25, 176, 30, 109, 74,
    79, 209, 124, 115, 31, 74, 233, 123, 192, 90, 49, 13, 123, 156, 54, 237, 202, 91, 188, 2, 219, 181,
    222, 61, 82, 182, 87, 2, 212, 196, 76, 36, 149, 200, 151, 181, 18, 128, 48, 210, 219, 97, 224, 86,
    253, 22, 67, 200, 113, 255, 202, 77, 181, 168, 138, 7, 94, 225, 9, 51, 166, 85, 87, 59, 29, 238, 240,
    47, 110, 32, 2, 73, 129, 226, 160, 127, 248, 227, 71, 105, 227, 17, 182, 152, 185, 65, 159, 24, 34,
    168, 75, 200, 253, 162, 4, 26, 144, 244, 73, 254, 21, 75, 72, 150, 45, 232, 21, 37, 203, 92, 143, 174,
    109]

structure RandomGenerator (h : Host) where
  seed : ℕ := 0
  fileVersion : ℤ := -1
  libc : h.Rand

namespace RandomGenerator

variable {h : Host}

def setFileVersion (g : RandomGenerator h) (version : BitVec 64) : Bool × RandomGenerator h :=
  (version = 2 || version = 1, { g with fileVersion := (version.setWidth 32).toInt })

def init (g : RandomGenerator h) (newSeed : BitVec 32) : RandomGenerator h :=
  if g.fileVersion = 1 then { g with libc := h.srand newSeed }
  else if g.fileVersion = 2 then { g with seed := (newSeed - 1).toNat % 1000 }
  else g

/-- `operator()`. -/
def next (g : RandomGenerator h) : UInt8 × RandomGenerator h :=
  if g.fileVersion = 1 then ((h.rand g.libc).1, { g with libc := (h.rand g.libc).2 })
  else if g.fileVersion = 2 then (randomTable.getD g.seed 0, { g with seed := (g.seed + 1) % 1000 })
  else (0, g)

end RandomGenerator

/-! ## The structures of the file -/

structure AuthFileHeader where
  fileID : BitVec 64
  fileVersion : BitVec 64
  headerLength : BitVec 64
  lastUserID : BitVec 64
  hostName : Block 100
  padding : Block 4
  countUsers : BitVec 64
  messageDigest : Block 35
  padding' : Block 1
  globalInitAdmR : BitVec 32
  globalInitDbsR : BitVec 32
  unused : Block 100

structure AuthUserRec where
  userID : BitVec 64
  userName : Block 100
  passWord : Block 50
  padding : Block 2
  adminRight : BitVec 32
  databRight : BitVec 32
  countRights : BitVec 64
  unused : Block 32

structure AuthDbRRec where
  dbName : Block 100
  right : BitVec 32

section Blocks

variable (o : Order)

open Block

def AuthFileHeader.toBlock (r : AuthFileHeader) : Block 288 :=
  (ofBits o 8 r.fileID).append <| (ofBits o 8 r.fileVersion).append <| (ofBits o 8 r.headerLength).append <|
    (ofBits o 8 r.lastUserID).append <| r.hostName.append <| r.padding.append <|
    (ofBits o 8 r.countUsers).append <| r.messageDigest.append <| r.padding'.append <|
    (ofBits o 4 r.globalInitAdmR).append <| (ofBits o 4 r.globalInitDbsR).append r.unused

def AuthFileHeader.ofBlock (b : Block 288) : AuthFileHeader :=
  let (fileID, b) := split (m := 8) (n := 280) b
  let (fileVersion, b) := split (m := 8) (n := 272) b
  let (headerLength, b) := split (m := 8) (n := 264) b
  let (lastUserID, b) := split (m := 8) (n := 256) b
  let (hostName, b) := split (m := 100) (n := 156) b
  let (padding, b) := split (m := 4) (n := 152) b
  let (countUsers, b) := split (m := 8) (n := 144) b
  let (messageDigest, b) := split (m := 35) (n := 109) b
  let (padding', b) := split (m := 1) (n := 108) b
  let (globalInitAdmR, b) := split (m := 4) (n := 104) b
  let (globalInitDbsR, unused) := split (m := 4) (n := 100) b
  { fileID := fileID.toBits o 64
    fileVersion := fileVersion.toBits o 64
    headerLength := headerLength.toBits o 64
    lastUserID := lastUserID.toBits o 64
    hostName, padding
    countUsers := countUsers.toBits o 64
    messageDigest, padding'
    globalInitAdmR := globalInitAdmR.toBits o 32
    globalInitDbsR := globalInitDbsR.toBits o 32
    unused }

def AuthUserRec.toBlock (r : AuthUserRec) : Block 208 :=
  (ofBits o 8 r.userID).append <| r.userName.append <| r.passWord.append <| r.padding.append <|
    (ofBits o 4 r.adminRight).append <| (ofBits o 4 r.databRight).append <|
    (ofBits o 8 r.countRights).append r.unused

def AuthUserRec.ofBlock (b : Block 208) : AuthUserRec :=
  let (userID, b) := split (m := 8) (n := 200) b
  let (userName, b) := split (m := 100) (n := 100) b
  let (passWord, b) := split (m := 50) (n := 50) b
  let (padding, b) := split (m := 2) (n := 48) b
  let (adminRight, b) := split (m := 4) (n := 44) b
  let (databRight, b) := split (m := 4) (n := 40) b
  let (countRights, unused) := split (m := 8) (n := 32) b
  { userID := userID.toBits o 64
    userName, passWord, padding
    adminRight := adminRight.toBits o 32
    databRight := databRight.toBits o 32
    countRights := countRights.toBits o 64
    unused }

def AuthDbRRec.toBlock (r : AuthDbRRec) : Block 104 := r.dbName.append (ofBits o 4 r.right)

def AuthDbRRec.ofBlock (b : Block 104) : AuthDbRRec :=
  let (dbName, right) := split (m := 100) (n := 4) b
  { dbName, right := right.toBits o 32 }

@[simp] theorem AuthFileHeader.ofBlock_toBlock (r : AuthFileHeader) : ofBlock o (r.toBlock o) = r := by
  simp only [ofBlock, toBlock, split_append, toBits_ofBits o (k := 8) (Nat.le_refl 64),
    toBits_ofBits o (k := 4) (Nat.le_refl 32)]

@[simp] theorem AuthUserRec.ofBlock_toBlock (r : AuthUserRec) : ofBlock o (r.toBlock o) = r := by
  simp only [ofBlock, toBlock, split_append, toBits_ofBits o (k := 8) (Nat.le_refl 64),
    toBits_ofBits o (k := 4) (Nat.le_refl 32)]

@[simp] theorem AuthDbRRec.ofBlock_toBlock (r : AuthDbRRec) : ofBlock o (r.toBlock o) = r := by
  simp only [ofBlock, toBlock, split_append, toBits_ofBits o (k := 4) (Nat.le_refl 32)]

end Blocks

/-! ## The users -/

/-- `UserDBRight`; the pointer to a database is its name. -/
structure UserDBRight where
  database : Chars 100
  databRight : BitVec 32

structure User where
  userID : BitVec 64
  userName : Chars 100
  passWord : Chars 50
  adminRight : BitVec 32
  databRight : BitVec 32
  dbRList : List UserDBRight := []

namespace User

def loadToRec (u : User) (rec : AuthUserRec) : AuthUserRec :=
  { rec with
    userID := u.userID
    userName := rec.userName.strcpy u.userName
    passWord := rec.passWord.strcpy u.passWord
    adminRight := u.adminRight
    databRight := u.databRight
    countRights := BitVec.ofNat 64 u.dbRList.length }

def loadFromRec (rec : AuthUserRec) : Option User := do
  return {
    userID := rec.userID
    userName := ← rec.userName.text
    passWord := ← rec.passWord.text
    adminRight := rec.adminRight
    databRight := rec.databRight }

/-- `dbManager[databName]`. -/
def database (databases : List (Chars 100)) (databName : Chars 100) : Option (Chars 100) :=
  databases.find? fun db => hostCmp db.1 databName.1

def setDatabaseRights (databases : List (Chars 100)) (u : User) (databName : Chars 100) (rights : BitVec 32) :
    User :=
  match database databases databName with
  | none => u
  | some db => { u with dbRList := remove (·.database) databName u.dbRList ++ [⟨db, rights⟩] }

def loadRightFromRec (databases : List (Chars 100)) (u : User) (rec : AuthDbRRec) : Option User := do
  return u.setDatabaseRights databases (← rec.dbName.text) rec.right

end User

def UserDBRight.loadRightToRec (r : UserDBRight) (rec : AuthDbRRec) : AuthDbRRec :=
  { dbName := rec.dbName.strcpy r.database, right := r.databRight }

/-- The members of `UserManager` and `Authorization`. -/
structure State where
  userList : List User := []
  lastUserID : BitVec 64 := 0
  globalInitAdminRight : BitVec 32 := 0
  globalInitDatabRight : BitVec 32 := 0

/-! ## Saving -/

/-- What is in the structures before they are filled. -/
structure Uninitialised where
  header : AuthFileHeader
  verified : AuthFileHeader
  user : ℕ → AuthUserRec
  right : ℕ → ℕ → AuthDbRRec

variable (h : Host)

/-- The context of the digest, the file, and the generator. -/
structure Saving where
  md : List UInt8
  out : List UInt8
  key : RandomGenerator h

variable {h}

/-- `EVP_DigestUpdate`, `crypt` and `write`. -/
def Saving.put {n : ℕ} (w : Saving h) (b : Block n) : Saving h where
  md := w.md ++ b.1
  out := w.out ++ (crypt RandomGenerator.next w.key b.1).1
  key := (crypt RandomGenerator.next w.key b.1).2

/-- The structures of a user. -/
def Saving.putUser (mem : Uninitialised) (w : Saving h) (u : User × ℕ) : Saving h :=
  u.1.dbRList.zipIdx.foldl (fun w r => w.put ((r.1.loadRightToRec (mem.right u.2 r.2)).toBlock h.order))
    (w.put ((u.1.loadToRec (mem.user u.2)).toBlock h.order))

/-- `int countUsers()`. -/
def State.countUsers (s : State) : BitVec 64 := (BitVec.ofNat 32 s.userList.length).signExtend 64

/-- The header before the digest is known. -/
def State.header (s : State) (hostName : Chars 100) (mem : AuthFileHeader) : AuthFileHeader :=
  { mem with
    fileID := 26012001
    fileVersion := 2
    headerLength := 288
    lastUserID := s.lastUserID
    hostName := mem.hostName.strcpy hostName
    countUsers := s.countUsers
    messageDigest := ⟨List.replicate 35 0, List.length_replicate⟩
    globalInitAdmR := s.globalInitAdminRight
    globalInitDbsR := s.globalInitDatabRight
    unused := ⟨List.replicate 100 0, List.length_replicate⟩ }

/-- `EVP_DigestFinal` into the header. -/
def AuthFileHeader.setDigest (r : AuthFileHeader) (md : Block 16) : AuthFileHeader :=
  { r with messageDigest := md.append (Block.split (m := 16) (n := 19) r.messageDigest).2 }

/-- `initcrypt`, with `setFileVersion` before it. -/
def RandomGenerator.initcrypt (g : RandomGenerator h) (header : AuthFileHeader) : RandomGenerator h :=
  (g.setFileVersion header.fileVersion).2.init (header.lastUserID.setWidth 32)

/-- `saveAuthFile`: the file that is written.  The header is written again when the digest is known. -/
def saveAuthFile (g : RandomGenerator h) (mem : Uninitialised) (s : State) : List UInt8 :=
  let header := s.header h.hostName mem.header
  let out := (header.toBlock h.order).1
  let users := (s.userList.take header.countUsers.toInt.toNat).zipIdx
  let w := users.foldl (Saving.putUser mem) ⟨[], out, g.initcrypt header⟩
  ((header.setDigest (h.md5 w.md)).toBlock h.order).1 ++ w.out.drop out.length

/-! ## Reading -/

/-- What `readAuthFile` returns. -/
inductive ReturnCode
  | ok
  | fileNotFound
  | fileCorrupt
  | wrongHost
  | otherVersion
  deriving DecidableEq

/-- `verifyAuthFile`, with the name of the host if it is compared.  The file is read from its start again
afterwards. -/
def verifyAuthFile (hostName : Option (Chars 100)) (g : RandomGenerator h) (mem : AuthFileHeader)
    (content : List UInt8) : Option (ReturnCode × FileStream) := do
  let (b, stream) := (FileStream.mk content true).read (mem.toBlock h.order)
  let header := AuthFileHeader.ofBlock h.order b
  let rewound : FileStream := if stream.good then ⟨content, true⟩ else stream
  if header.fileID ≠ 26012001 then return (.fileCorrupt, rewound)
  if (g.setFileVersion header.fileVersion).1 = false then return (.otherVersion, rewound)
  if let some name := hostName then
    if hostCmp (← header.hostName.text).1 name.1 = false then return (.wrongHost, rewound)
  let md := h.md5 (cryptBlocks RandomGenerator.next 500 (g.initcrypt header) stream.rest)
  if md.1 ≠ header.messageDigest.1.take 16 then return (.fileCorrupt, rewound)
  return (.ok, rewound)

/-- The loop over the rights of a user. -/
def readRights (mem : ℕ → AuthDbRRec) (databases : List (Chars 100)) :
    ℕ → ℕ → Reading (RandomGenerator h) → User → Option (User × Reading (RandomGenerator h))
  | 0, _, r, u => some (u, r)
  | n + 1, j, r, u => do
    let (b, r) := r.block RandomGenerator.next ((mem j).toBlock h.order)
    readRights mem databases n (j + 1) r (← u.loadRightFromRec databases (AuthDbRRec.ofBlock h.order b))

/-- The loop over the users, with `loadUser`. -/
def readUsers (mem : Uninitialised) (databases : List (Chars 100)) :
    ℕ → ℕ → Reading (RandomGenerator h) → List User → Option (List User)
  | 0, _, _, list => some list
  | n + 1, i, r, list => do
    let (b, r) := r.block RandomGenerator.next ((mem.user i).toBlock h.order)
    let uRec := AuthUserRec.ofBlock h.order b
    -- an `int` counts up to a `long`
    if 2 ^ 31 ≤ uRec.countRights.toInt then failure
    let u ← User.loadFromRec uRec
    let (u', r) ← readRights (mem.right i) databases uRec.countRights.toInt.toNat 0 r u
    readUsers mem databases n (i + 1) r (remove (·.userName) u.userName list ++ [u'])

/-- `readAuthFile`; nothing where it leaves a `char` array or an `int` overflows. -/
def readAuthFile (g : RandomGenerator h) (mem : Uninitialised) (databases : List (Chars 100))
    (file : Option (List UInt8)) (s : State) : Option (ReturnCode × State) := do
  let some content := file | return (.fileNotFound, s)
  let (code, stream) ← verifyAuthFile (some h.hostName) g mem.verified content
  if code ≠ .ok then return (code, s)
  let (b, stream) := stream.read (mem.header.toBlock h.order)
  let header := AuthFileHeader.ofBlock h.order b
  if (g.setFileVersion header.fileVersion).1 = false then return (.otherVersion, s)
  if 2 ^ 31 ≤ header.countUsers.toInt then failure
  let users ← readUsers mem databases header.countUsers.toInt.toNat 0 ⟨stream, g.initcrypt header⟩ s.userList
  return (.ok, {
    userList := users
    lastUserID := header.lastUserID
    globalInitAdminRight := header.globalInitAdmR
    globalInitDatabRight := header.globalInitDbsR })

/-! ## The users of a new installation -/

/-- `admR_full`. -/
def full : BitVec 32 := 255

/-- What `strtok` finds in a command, if it fits a `char[n]`. -/
abbrev Token (n : ℕ) := {s : Chars n // s.1 ≠ []}

def rasadmin : Token 100 := ⟨⟨"rasadmin".toList.map fun c => UInt8.ofNat c.toNat, by decide⟩, by decide⟩

def rasguest : Token 100 := ⟨⟨"rasguest".toList.map fun c => UInt8.ofNat c.toNat, by decide⟩, by decide⟩

end Rasdaman.AuthFile
