import Mathlib.Data.List.Induction
import Rasdaman.Rasmgr.AuthFile

/-!
# Rasmgr/AuthFileSaved — users that survive

The users that `saveAuthFile` writes are those that `readAuthFile` reads, whatever was in the structures
before they were filled, but for rights on databases that are not known any more.
-/

namespace Rasdaman.AuthFile

open Bytes Records NamedList

variable {h : Host} {g g' : RandomGenerator h} {mem mem' : Uninitialised} {s t : State} {u : User}
  {databases : List (Chars 100)} {plain : List UInt8} {list : List User} {r : Reading (RandomGenerator h)}

/-! ## What is saved -/

/-- The plain structures of a user. -/
def userBytes (h : Host) (mem : Uninitialised) (u : User × ℕ) : List UInt8 :=
  ((u.1.loadToRec (mem.user u.2)).toBlock h.order).1 ++
    u.1.dbRList.zipIdx.flatMap fun r => ((r.1.loadRightToRec (mem.right u.2 r.2)).toBlock h.order).1

/-- The plain structures of all users. -/
def usersBytes (h : Host) (mem : Uninitialised) (list : List User) : List UInt8 :=
  list.zipIdx.flatMap (userBytes h mem)

/-- Bytes written. -/
def Saving.write (w : Saving h) (bs : List UInt8) : Saving h where
  md := w.md ++ bs
  out := w.out ++ (crypt RandomGenerator.next w.key bs).1
  key := (crypt RandomGenerator.next w.key bs).2

theorem Saving.write_append (w : Saving h) (as bs : List UInt8) :
    (w.write as).write bs = w.write (as ++ bs) := by
  simp only [write, crypt_append, List.append_assoc]

theorem Saving.foldl_write {α : Type} (f : α → List UInt8) (l : List α) (w : Saving h) :
    l.foldl (fun w x => w.write (f x)) w = w.write (l.flatMap f) := by
  induction l generalizing w with
  | nil => simp [write, crypt]
  | cons x l ih => rw [List.foldl_cons, ih, write_append, List.flatMap_cons]

theorem Saving.putUser_eq (w : Saving h) (u : User × ℕ) : w.putUser mem u = w.write (userBytes h mem u) := by
  rw [userBytes, ← write_append, ← foldl_write]
  rfl

/-- The sizes that an `int` can count. -/
structure Counted (s : State) : Prop where
  users : s.userList.length < 2 ^ 31
  rights : ∀ u ∈ s.userList, u.dbRList.length < 2 ^ 31

theorem toInt_countUsers (hs : Counted s) : s.countUsers.toInt = s.userList.length := by
  have hlt := hs.users
  rw [State.countUsers, BitVec.toInt_signExtend_of_le (by decide), BitVec.toInt_ofNat', Int.bmod_eq_of_le] <;>
    omega

/-- The header of the file. -/
def savedHeader (h : Host) (mem : Uninitialised) (s : State) : AuthFileHeader :=
  (s.header h.hostName mem.header).setDigest (h.md5 (usersBytes h mem s.userList))

/-- **The file**: a plain header and the enciphered users. -/
theorem saveAuthFile_eq (hs : Counted s) : saveAuthFile g mem s = ((savedHeader h mem s).toBlock h.order).1 ++
    (crypt RandomGenerator.next (g.initcrypt (savedHeader h mem s)) (usersBytes h mem s.userList)).1 := by
  have hcount : (s.header h.hostName mem.header).countUsers.toInt.toNat = s.userList.length := by
    change s.countUsers.toInt.toNat = _
    rw [toInt_countUsers hs, Int.toNat_natCast]
  have hput : (fun w u => Saving.putUser mem w u) = fun w u => Saving.write w (userBytes h mem u) :=
    funext₂ Saving.putUser_eq
  simp only [saveAuthFile, hcount, List.take_length, hput, Saving.foldl_write]
  simp only [Saving.write, List.nil_append, List.drop_left]
  rfl

/-! ## What is read back -/

/-- The rights that are given again, where the databases are known. -/
def User.restored (databases : List (Chars 100)) (u : User) : User :=
  u.dbRList.foldl (fun v r => v.setDatabaseRights databases r.database r.databRight) { u with dbRList := [] }

/-- What rights do not change. -/
theorem foldl_setDatabaseRights_userName (rights : List UserDBRight) (u : User) :
    (rights.foldl (fun v r => v.setDatabaseRights databases r.database r.databRight) u).userName =
      u.userName := by
  induction rights generalizing u with
  | nil => rfl
  | cons r rights ih =>
    rw [List.foldl_cons, ih, User.setDatabaseRights]
    split <;> rfl

@[simp] theorem restored_userName (databases : List (Chars 100)) (u : User) :
    (u.restored databases).userName = u.userName := foldl_setDatabaseRights_userName u.dbRList _

theorem loadFromRec_loadToRec (u : User) (rec : AuthUserRec) :
    User.loadFromRec (u.loadToRec rec) = some { u with dbRList := [] } := by
  rw [User.loadFromRec, User.loadToRec, Block.text_strcpy, Block.text_strcpy]
  rfl

theorem readRights_of_says (m : ℕ → AuthDbRRec) (mem : ℕ → AuthDbRRec) (databases : List (Chars 100))
    (rights : List UserDBRight) (j : ℕ)
    (hr : r.Says RandomGenerator.next
      (((rights.zipIdx j).flatMap fun r => ((r.1.loadRightToRec (m r.2)).toBlock h.order).1) ++ plain)) :
    ∃ r', readRights mem databases rights.length j r u =
        some (rights.foldl (fun v r => v.setDatabaseRights databases r.database r.databRight) u, r') ∧
      r'.Says RandomGenerator.next plain := by
  induction rights generalizing j r u with
  | nil => exact ⟨r, rfl, hr⟩
  | cons right rights ih =>
    rw [List.zipIdx_cons, List.flatMap_cons, List.append_assoc] at hr
    obtain ⟨r₁, hblock, hr₁⟩ := Reading.block_of_says RandomGenerator.next _ ((mem j).toBlock h.order) hr
    obtain ⟨r₂, hrest, hr₂⟩ :=
      ih (u := u.setDatabaseRights databases right.database right.databRight) (j + 1) hr₁
    refine ⟨r₂, ?_, hr₂⟩
    rw [List.length_cons, readRights, hblock]
    simp only [AuthDbRRec.ofBlock_toBlock, UserDBRight.loadRightToRec, User.loadRightFromRec,
      Block.text_strcpy]
    exact hrest

theorem readUsers_of_says (hlist : ∀ u ∈ list, u.dbRList.length < 2 ^ 31)
    (hunique : NamedList.Unique (·.userName) list) (old : List User)
    (hold : ∀ u ∈ list, u.userName ∉ old.map (·.userName)) (i : ℕ)
    (hr : r.Says RandomGenerator.next ((list.zipIdx i).flatMap (userBytes h mem))) :
    readUsers mem' databases list.length i r old = some (old ++ list.map (·.restored databases)) := by
  induction list generalizing i r old with
  | nil => rw [List.map_nil, List.append_nil]; rfl
  | cons u list ih =>
    obtain ⟨hu, hlist⟩ := List.forall_mem_cons.mp hlist
    obtain ⟨hname, hold⟩ := List.forall_mem_cons.mp hold
    rw [NamedList.Unique, List.map_cons, List.nodup_cons] at hunique
    rw [List.zipIdx_cons, List.flatMap_cons, userBytes, List.append_assoc] at hr
    obtain ⟨r₁, hblock, hr₁⟩ := Reading.block_of_says RandomGenerator.next _ ((mem'.user i).toBlock h.order) hr
    obtain ⟨r₂, hrights, hr₂⟩ := readRights_of_says (u := { u with dbRList := [] })
      (mem.right i) (mem'.right i) databases u.dbRList 0 hr₁
    have hcount : (BitVec.ofNat 64 u.dbRList.length).toInt = u.dbRList.length := by
      rw [BitVec.toInt_ofNat', Int.bmod_eq_of_le] <;> omega
    have hremove : remove (·.userName) u.userName old = old := remove_of_not_mem hname
    have hold' : ∀ v ∈ list, v.userName ∉ (old ++ [u.restored databases]).map (·.userName) := by
      intro v hv hmem
      rw [List.map_append, List.map_singleton, List.mem_append, List.mem_singleton, restored_userName] at hmem
      exact hmem.elim (hold v hv) fun heq => hunique.1 (heq ▸ List.mem_map_of_mem hv)
    have hrest := ih hlist hunique.2 (old ++ [u.restored databases]) hold' (i + 1) hr₂
    rw [List.append_assoc] at hrest
    simp only [List.length_cons, readUsers, hblock, AuthUserRec.ofBlock_toBlock, loadFromRec_loadToRec]
    simp only [User.loadToRec, hcount, Int.toNat_natCast,
      if_neg (show ¬(2 ^ 31 ≤ (u.dbRList.length : ℤ)) by omega)]
    exact (congrArg (· >>= _) hrights).trans (by simpa [hremove, User.restored] using hrest)

theorem hostCmp_self (name : List UInt8) : hostCmp name name = true := by
  rw [hostCmp, if_pos rfl, decide_eq_true rfl]

/-- The generator is started anew for a file, whatever it was used for before. -/
theorem crypt_initcrypt (g g' : RandomGenerator h) {header : AuthFileHeader}
    (hversion : header.fileVersion = 2) (bs : List UInt8) :
    (crypt RandomGenerator.next (g.initcrypt header) bs).1 =
      (crypt RandomGenerator.next (g'.initcrypt header) bs).1 := by
  refine crypt_congr RandomGenerator.next
    (R := fun g g' => g.fileVersion = 2 ∧ g'.fileVersion = 2 ∧ g.seed = g'.seed) ?_ ?_
  · rintro g g' ⟨hg, hg', hseed⟩
    simp [RandomGenerator.next, hg, hg', hseed]
  · simp [RandomGenerator.initcrypt, RandomGenerator.setFileVersion, RandomGenerator.init, hversion]

/-- The file is accepted where it was written. -/
theorem verifyAuthFile_saved (hostName : Option (Chars 100)) (hhost : ∀ name ∈ hostName, name = h.hostName)
    (mem' : AuthFileHeader) (hs : Counted s) :
    verifyAuthFile hostName g' mem' (saveAuthFile g mem s) = some (.ok, ⟨saveAuthFile g mem s, true⟩) := by
  have hversion : (savedHeader h mem s).fileVersion = 2 := rfl
  have hID : (savedHeader h mem s).fileID = 26012001 := rfl
  have htext : (savedHeader h mem s).hostName.text = some h.hostName := Block.text_strcpy ..
  have hset : (g'.setFileVersion 2).1 = true := rfl
  have hdigest : (savedHeader h mem s).messageDigest.1.take 16 = (h.md5 (usersBytes h mem s.userList)).1 :=
    List.take_left' (h.md5 _).2
  rw [saveAuthFile_eq hs, crypt_initcrypt g g' hversion, verifyAuthFile, FileStream.read_append]
  simp only [AuthFileHeader.ofBlock_toBlock, hversion, hID, hset, hdigest,
    cryptBlocks_eq _ (show 500 ≠ 0 by decide), crypt_crypt]
  cases hostName with
  | none => simp
  | some name =>
    obtain rfl := hhost name rfl
    simp [htext, hostCmp_self]

/-- **What is saved is read.** -/
theorem readAuthFile_saved (hs : Counted s) (hunique : NamedList.Unique (·.userName) s.userList) :
    readAuthFile g' mem' databases (some (saveAuthFile g mem s)) {} =
      some (.ok, { s with userList := s.userList.map (·.restored databases) }) := by
  have hversion : (savedHeader h mem s).fileVersion = 2 := rfl
  have hset : (g'.setFileVersion 2).1 = true := rfl
  have hcount : (savedHeader h mem s).countUsers.toInt = s.userList.length := toInt_countUsers hs
  have husers := hs.users
  rw [readAuthFile]
  simp only [verifyAuthFile_saved _ (fun name hname => (Option.mem_some.mp hname).symm) _ hs]
  rw [saveAuthFile_eq hs, crypt_initcrypt g g' hversion]
  simp only [Option.bind_eq_bind, Option.bind_some, FileStream.read_append, AuthFileHeader.ofBlock_toBlock,
    hversion, hset, hcount, Int.toNat_natCast,
    if_neg (show ¬(2 ^ 31 ≤ (s.userList.length : ℤ)) by omega)]
  rw [if_neg (not_not.mpr rfl), if_neg Bool.noConfusion,
    readUsers_of_says hs.rights hunique [] (fun _ _ => List.not_mem_nil) 0
      (Reading.says_crypt _ _ (usersBytes h mem s.userList))]
  rfl

/-! ## Rights on databases -/

/-- `setDatabaseRights`, on the rights of a user. -/
def give (databases : List (Chars 100)) (rights : List UserDBRight) (r : UserDBRight) : List UserDBRight :=
  match User.database databases r.database with
  | none => rights
  | some db => remove (·.database) r.database rights ++ [⟨db, r.databRight⟩]

theorem setDatabaseRights_eq (u : User) (r : UserDBRight) :
    u.setDatabaseRights databases r.database r.databRight =
      { u with dbRList := give databases u.dbRList r } := by
  rw [User.setDatabaseRights, give]
  cases User.database databases r.database <;> rfl

theorem restored_eq (databases : List (Chars 100)) (u : User) :
    u.restored databases = { u with dbRList := u.dbRList.foldl (give databases) [] } := by
  have hfold : ∀ (rights done : List UserDBRight),
      rights.foldl (fun v r => User.setDatabaseRights databases v r.database r.databRight)
          { u with dbRList := done } = { u with dbRList := rights.foldl (give databases) done } := by
    intro rights
    induction rights with
    | nil => exact fun _ => rfl
    | cons r rights ih =>
      intro done
      rw [List.foldl_cons, List.foldl_cons, ← ih, setDatabaseRights_eq]
  exact hfold u.dbRList []

theorem length_foldl_give (databases : List (Chars 100)) (rights : List UserDBRight) :
    (rights.foldl (give databases) []).length ≤ rights.length := by
  induction rights using List.reverseRecOn with
  | nil => exact Nat.le_refl 0
  | append_singleton rights r ih =>
    rw [List.foldl_concat, List.length_append, List.length_singleton, give]
    split
    · omega
    · have hremove := (remove_sublist (·.database) r.database (rights.foldl (give databases) [])).length_le
      rw [List.length_append, List.length_singleton]
      omega

/-- The rights come back if and only if each database is found under its name. -/
theorem foldl_give_eq_iff {rights : List UserDBRight} (hunique : NamedList.Unique (·.database) rights) :
    rights.foldl (give databases) [] = rights ↔
      ∀ r ∈ rights, User.database databases r.database = some r.database := by
  induction rights using List.reverseRecOn with
  | nil => exact iff_of_true rfl fun r hr => absurd hr List.not_mem_nil
  | append_singleton rights r ih =>
    rw [NamedList.Unique, List.map_append, List.map_singleton, List.nodup_append'] at hunique
    have hr : r.database ∉ rights.map (·.database) := List.disjoint_singleton.mp hunique.2.2
    have hlength := length_foldl_give databases rights
    rw [List.foldl_concat, List.forall_mem_append, List.forall_mem_singleton, ← ih hunique.1, give]
    split
    next hnone =>
      refine iff_of_false (fun heq => ?_) (fun hall => Option.some_ne_none _ (hall.2.symm.trans hnone))
      rw [heq, List.length_append, List.length_singleton] at hlength
      omega
    next db hsome =>
      rw [hsome, Option.some.injEq]
      constructor
      · intro heq
        obtain ⟨hrights, hlast⟩ := List.append_inj' heq rfl
        have hsub := remove_sublist (·.database) r.database (rights.foldl (give databases) [])
        have hsame := hsub.eq_of_length_le (hlength.trans (congrArg List.length hrights).symm.le)
        exact ⟨hsame.symm.trans hrights, congrArg UserDBRight.database (List.singleton_inj.mp hlast)⟩
      · rintro ⟨heq, rfl⟩
        rw [heq, remove_of_not_mem hr]

/-- **Whatever was in the structures**, the file is accepted and has the users; the rights come back with them
if and only if each database is found under its name. -/
theorem users_restored_iff (hs : Counted s) (hunique : NamedList.Unique (·.userName) s.userList)
    (hrights : ∀ u ∈ s.userList, NamedList.Unique (·.database) u.dbRList) (g g' : RandomGenerator h)
    (mem mem' : Uninitialised) (databases : List (Chars 100)) :
    ∃ t, readAuthFile g' mem' databases (some (saveAuthFile g mem s)) {} = some (.ok, t) ∧
      (t.userList.map fun u => { u with dbRList := [] }) = (s.userList.map fun u => { u with dbRList := [] }) ∧
      (t = s ↔ ∀ u ∈ s.userList, ∀ r ∈ u.dbRList, User.database databases r.database = some r.database) := by
  refine ⟨_, readAuthFile_saved hs hunique, ?_, ?_⟩
  · rw [List.map_map]
    exact List.map_congr_left fun u _ => by rw [Function.comp_apply, restored_eq]
  · have hiff : ∀ u ∈ s.userList, u.restored databases = u ↔
        ∀ r ∈ u.dbRList, User.database databases r.database = some r.database := fun u hu => by
      rw [← foldl_give_eq_iff (hrights u hu), restored_eq]
      exact ⟨fun heq => congrArg User.dbRList heq, fun heq => by rw [heq]⟩
    constructor
    · intro heq u hu
      have hlist := (congrArg State.userList heq).trans (List.map_id' _).symm
      exact (hiff u hu).mp (List.map_inj_left.mp hlist u hu)
    · intro hall
      rw [List.map_congr_left fun u hu => (hiff u hu).mpr (hall u hu), List.map_id']

/-- A text of characters with one byte. -/
def ascii (s : String) : List UInt8 := s.toList.map fun c => UInt8.ofNat c.toNat

/-- A host; the digests are those of what is in the examples. -/
def sampleHost : Host where
  order := .little
  Rand := Unit
  srand _ := ()
  rand _ := (0, ())
  md5 bs :=
    if bs.length = 416 then
      ⟨[147, 244, 213, 227, 251, 207, 122, 192, 227, 108, 6, 188, 182, 120, 183, 95], rfl⟩
    else ⟨[25, 95, 11, 253, 124, 26, 47, 36, 74, 89, 121, 208, 74, 208, 224, 47], rfl⟩
  messageDigest s :=
    if s = rasadmin.1.1 then ⟨ascii "d293a15562d3e70b6fdc5ee452eaed40", by decide⟩
    else ⟨ascii "8e70a429be359b6dace8b5b2500dedb0", by decide⟩
  hostName := ⟨ascii "localhost", by decide⟩

def rasbase : Chars 100 := ⟨ascii "RASBASE", by decide⟩

/-- The default users, of whom one has rights on a database. -/
def sampleState : State where
  userList := [⟨0, rasadmin.1, sampleHost.messageDigest rasadmin.1.1, full, 768, []⟩,
    ⟨1, rasguest.1, sampleHost.messageDigest rasguest.1.1, 0, 256, [⟨rasbase, 768⟩]⟩]
  lastUserID := 2

def zeros (n : ℕ) : Block n := ⟨List.replicate n 0, List.length_replicate⟩

def sampleGenerator : RandomGenerator sampleHost := { libc := () }

/-- Memory that is zero. -/
def sampleMem : Uninitialised where
  header := AuthFileHeader.ofBlock .little (zeros 288)
  verified := AuthFileHeader.ofBlock .little (zeros 288)
  user _ := AuthUserRec.ofBlock .little (zeros 208)
  right _ _ := AuthDbRRec.ofBlock .little (zeros 104)

theorem users_restored_iff_sample :
    ∃ t, readAuthFile sampleGenerator sampleMem []
      (some (saveAuthFile sampleGenerator sampleMem sampleState)) {} = some (.ok, t) ∧ t ≠ sampleState := by
  have hunique : NamedList.Unique (·.userName) sampleState.userList := by
    have hne : rasadmin.1 ≠ rasguest.1 := by decide
    simpa [NamedList.Unique, sampleState] using hne
  obtain ⟨t, hread, -, hiff⟩ := users_restored_iff (s := sampleState) ⟨by decide, by simp [sampleState]⟩
    hunique (by simp [sampleState, NamedList.Unique]) sampleGenerator sampleGenerator sampleMem sampleMem []
  refine ⟨t, hread, fun heq => ?_⟩
  have hknown := hiff.mp heq ⟨1, rasguest.1, sampleHost.messageDigest rasguest.1.1, 0, 256, [⟨rasbase, 768⟩]⟩
    (by simp [sampleState]) ⟨rasbase, 768⟩ (by simp)
  cases hknown

end Rasdaman.AuthFile
