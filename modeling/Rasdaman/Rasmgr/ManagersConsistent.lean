import Rasdaman.Rasmgr.Managers

/-!
# Rasmgr/ManagersConsistent — which commands keep the registries consistent

Definitions check for duplicates, so they always keep the registries consistent.  A rename does not,
the list of databases forgets a database that is removed from one of several hosts, and it keeps the
databases of a removed host: these are the commands that are not `Orderly`.
-/

namespace Rasdaman

open NamedList Machine

namespace Managers

variable {s s' : Managers}

/-! ## Parts of the state -/

theorem consistent_users_iff (h : s.Consistent) (userList : List RegisteredUser) :
    Consistent { s with userList := userList } ↔ Unique (·.name) userList :=
  ⟨fun h' => h'.users, fun hu => { h with users := hu, listed := h.listed, shared := h.shared }⟩

theorem consistent_groups_iff (h : s.Consistent) (groups : List ServerGroupConfigProto) :
    Consistent { s with serverGroupList := groups } ↔ Unique (·.groupName) groups :=
  ⟨fun h' => h'.groups, fun hg => { h with groups := hg, listed := h.listed, shared := h.shared }⟩

theorem not_clashes_iff {names : List Text} {old new : Text} :
    ¬Clashes names old new ↔ (if new = [] then old else new) = old ∨
      (if new = [] then old else new) ∉ names := by
  rw [Clashes]
  by_cases hnew : new = []
  · simp [hnew]
  · simp only [hnew, ne_eq, not_false_eq_true, true_and, if_false]
    tauto

/-! ## Users and server groups -/

theorem defineUser_consistent (h : s.Consistent) (u : UserProto) : (s.defineUser u).1.Consistent := by
  simp only [defineUser]
  split
  · exact h
  · split
    · exact h
    · rename_i hnew
      exact (consistent_users_iff h _).mpr (unique_append h.users (get_eq_none.mp hnew))

theorem changeUser_consistent_iff (h : s.Consistent) (name : Text) (u : UserProto) :
    (s.changeUser name u).1.Consistent ↔
      (name ∈ s.userList.map (·.name) → ¬Clashes (s.userList.map (·.name)) name (u.name.getD [])) := by
  rw [changeUser]
  rcases hget : get (fun u : RegisteredUser => u.name) name s.userList with _ | user
  · exact iff_of_true h fun hmem => absurd hmem (get_eq_none.mp hget)
  · have hname := name_of_get hget
    have hmem : name ∈ s.userList.map (·.name) := hname ▸ List.mem_map_of_mem (mem_of_get hget)
    rw [forall_prop_of_true hmem, not_clashes_iff]
    refine (consistent_users_iff h _).trans ((unique_change_iff h.users hget _).trans ?_)
    simp only [UserProto.apply, hname]

theorem removeUser_consistent (h : s.Consistent) (name : Text) : (s.removeUser name).1.Consistent := by
  rw [removeUser]
  split
  · exact (consistent_users_iff h _).mpr (unique_remove h.users)
  · exact h

theorem validateAndInit_groupName (config : ServerGroupConfigProto) :
    config.validateAndInit.2.groupName = config.groupName := by
  simp only [ServerGroupConfigProto.validateAndInit]
  repeat' split
  all_goals rfl

theorem defineServerGroup_consistent (h : s.Consistent) (config : ServerGroupConfigProto) :
    (s.defineServerGroup config).1.Consistent := by
  rw [defineServerGroup]
  split
  · exact h
  · rename_i hnew
    split
    · exact h
    · rename_i config' hvalid
      split
      · exact h
      · have hname : config'.groupName = config.groupName := by
          rw [← validateAndInit_groupName config, hvalid]
        refine (consistent_groups_iff h _).mpr (unique_append h.groups ?_)
        rw [hname]
        exact get_eq_none.mp hnew

theorem changeServerGroup_state (name : Text) (config : ServerGroupConfigProto) (stopped : Bool) :
    (s.changeServerGroup name config stopped).1 =
      if stopped ∧ (get (·.groupName) name s.serverGroupList).isSome then
        { s with
          serverGroupList := change (·.groupName) name
            (fun g => (g.merge config).validateAndInit.2) s.serverGroupList }
      else s := by
  rw [changeServerGroup]
  rcases get (fun g : ServerGroupConfigProto => g.groupName) name s.serverGroupList with _ | g
  · simp
  · cases stopped
    · simp
    · simp only [not_true_eq_false, if_false, Option.isSome_some, and_self, if_true]
      repeat' split
      all_goals rfl

theorem changeServerGroup_consistent_iff (h : s.Consistent) (name : Text)
    (config : ServerGroupConfigProto) (stopped : Bool) :
    (s.changeServerGroup name config stopped).1.Consistent ↔
      (stopped = true → name ∈ s.serverGroupList.map (·.groupName) →
        config.name.getD name ∈ s.serverGroupList.map (·.groupName) → config.name.getD name = name) := by
  rw [changeServerGroup_state]
  rcases hget : get (fun g : ServerGroupConfigProto => g.groupName) name s.serverGroupList with _ | g
  · simp only [Option.isSome_none, Bool.false_eq_true, and_false, if_false]
    exact iff_of_true h fun _ hmem => absurd hmem (get_eq_none.mp hget)
  · have hname : g.groupName = name := name_of_get hget
    have hmem : name ∈ s.serverGroupList.map (·.groupName) :=
      hname ▸ List.mem_map_of_mem (mem_of_get hget)
    have hnew : (g.merge config).validateAndInit.2.groupName = config.name.getD name := by
      rw [validateAndInit_groupName, ServerGroupConfigProto.groupName, ← hname]
      simp only [ServerGroupConfigProto.merge, ServerGroupConfigProto.groupName]
      cases config.name <;> rfl
    cases stopped
    · simp only [Bool.false_eq_true, false_and, if_false, false_implies, iff_true]
      exact h
    · simp only [Option.isSome_some, and_self, if_true, forall_const, hmem]
      refine (consistent_groups_iff h _).trans ((unique_change_iff h.groups hget _).trans ?_)
      rw [hnew]
      tauto

theorem removeServerGroup_consistent (h : s.Consistent) (name : Text) (stopped : Bool) :
    (s.removeServerGroup name stopped).1.Consistent := by
  rw [removeServerGroup]
  split
  · exact h
  · split
    · exact (consistent_groups_iff h _).mpr (unique_remove h.groups)
    · exact h

/-! ## Database hosts -/

theorem onHost_iff {db : DbRef} :
    s.OnHost db ↔ ∃ dbs ∈ s.hostList.map (·.databaseList), db ∈ dbs := by
  simp only [OnHost, List.mem_map, exists_exists_and_eq_and]

/-- Hosts that hold the same databases. -/
theorem consistent_hosts_iff (h : s.Consistent) {hosts : List DatabaseHost}
    (hsame : hosts.map (·.databaseList) = s.hostList.map (·.databaseList)) :
    Consistent { s with hostList := hosts } ↔ Unique (·.hostName) hosts := by
  refine ⟨fun h' => h'.hosts, fun hu => ?_⟩
  have hon : ∀ db, OnHost { s with hostList := hosts } db ↔ s.OnHost db := fun db => by
    rw [onHost_iff, onHost_iff, hsame]
  refine ⟨h.users, hu, h.groups, fun host hhost => ?_, fun db => ?_, fun db db' hdb hdb' => ?_⟩
  · have hmem : host.databaseList ∈ s.hostList.map (·.databaseList) :=
      hsame ▸ List.mem_map_of_mem hhost
    obtain ⟨host', hhost', heq⟩ := List.mem_map.mp hmem
    rw [← heq]
    exact h.onHost host' hhost'
  · rw [hon]
    exact h.listed db
  · exact h.shared db db' ((hon db).mp hdb) ((hon db').mp hdb')

/-- A new host without databases. -/
theorem consistent_append_host (h : s.Consistent) {host : DatabaseHost}
    (hnew : host.hostName ∉ s.hostList.map (·.hostName)) (hempty : host.databaseList = []) :
    Consistent { s with hostList := s.hostList ++ [host] } := by
  have hon : ∀ db, OnHost { s with hostList := s.hostList ++ [host] } db ↔ s.OnHost db :=
    fun db => by simp [OnHost, or_and_right, exists_or, hempty]
  refine ⟨h.users, unique_append h.hosts hnew, h.groups, fun h' hh' => ?_, fun db => ?_,
    fun db db' hdb hdb' => h.shared db db' ((hon db).mp hdb) ((hon db').mp hdb')⟩
  · rcases List.mem_append.mp hh' with hh' | hh'
    · exact h.onHost h' hh'
    · rw [List.mem_singleton.mp hh', hempty]
      exact List.nodup_nil
  · rw [hon]
    exact h.listed db

theorem defineDatabaseHost_consistent (h : s.Consistent) (p : DatabaseHostPropertiesProto) :
    (s.defineDatabaseHost p).1.Consistent := by
  simp only [defineDatabaseHost]
  split
  · exact h
  · split
    · exact h
    · rename_i hnew
      exact consistent_append_host h (get_eq_none.mp hnew) rfl

theorem changeDatabaseHost_consistent_iff (h : s.Consistent) (name : Text)
    (p : DatabaseHostPropertiesProto) (busy : Bool) :
    (s.changeDatabaseHost name p busy).1.Consistent ↔
      (busy = false → name ∈ s.hostList.map (·.hostName) →
        ¬Clashes (s.hostList.map (·.hostName)) name (p.hostName.getD [])) := by
  rw [changeDatabaseHost]
  rcases hget : get (fun h : DatabaseHost => h.hostName) name s.hostList with _ | host
  · exact iff_of_true h fun _ hmem => absurd hmem (get_eq_none.mp hget)
  · have hname := name_of_get hget
    have hmem : name ∈ s.hostList.map (·.hostName) := hname ▸ List.mem_map_of_mem (mem_of_get hget)
    cases busy
    · simp only [Bool.false_eq_true, if_false, forall_const, hmem, not_clashes_iff]
      refine (consistent_hosts_iff h (map_change (f := p.apply) fun _ => rfl)).trans
        ((unique_change_iff h.hosts hget _).trans ?_)
      simp only [DatabaseHostPropertiesProto.apply, hname]
    · exact iff_of_true h fun hbusy => by cases hbusy

theorem removeDatabaseHost_consistent_iff (h : s.Consistent) (name : Text) (busy : Bool) :
    (s.removeDatabaseHost name busy).1.Consistent ↔
      (busy = false → ∀ host, get (·.hostName) name s.hostList = some host →
        ∀ db ∈ host.databaseList,
          ∃ h' ∈ s.hostList, h'.hostName ≠ host.hostName ∧ db ∈ h'.databaseList) := by
  rw [removeDatabaseHost]
  rcases hget : get (fun h : DatabaseHost => h.hostName) name s.hostList with _ | host
  · exact iff_of_true h fun _ host hhost => by cases hhost
  cases busy
  · have hname := name_of_get hget
    have hon : ∀ db, OnHost { s with hostList := remove (·.hostName) name s.hostList } db ↔
        ∃ h' ∈ s.hostList, h'.hostName ≠ host.hostName ∧ db ∈ h'.databaseList := fun db => by
      simp only [OnHost, mem_remove_iff h.hosts, hname, and_assoc]
    simp only [Bool.false_eq_true, if_false, forall_const, Option.some.injEq, forall_eq']
    constructor
    · intro h' db hdb
      exact (hon db).mp ((h'.listed db).mp ((h.listed db).mpr ⟨host, mem_of_get hget, hdb⟩))
    · intro hkept
      have hall : ∀ db, OnHost { s with hostList := remove (·.hostName) name s.hostList } db ↔
          s.OnHost db := fun db => by
        rw [hon]
        refine ⟨fun ⟨h', hh', _, hdb⟩ => ⟨h', hh', hdb⟩, fun ⟨h', hh', hdb⟩ => ?_⟩
        by_cases hsame : h'.hostName = host.hostName
        · cases List.inj_on_of_nodup_map h.hosts hh' (mem_of_get hget) hsame
          exact hkept db hdb
        · exact ⟨h', hh', hsame, hdb⟩
      refine ⟨h.users, unique_remove h.hosts, h.groups, fun h' hh' => ?_, fun db => ?_,
        fun db db' hdb hdb' => ?_⟩
      · exact h.onHost h' ((mem_remove_iff h.hosts).mp hh').1
      · rw [hall]
        exact h.listed db
      · exact h.shared db db' ((hall db).mp hdb) ((hall db').mp hdb')
  · exact iff_of_true h fun hbusy => by cases hbusy

/-! ## Databases -/

/-- Databases with one object for each name, under other names. -/
theorem unique_of_shared (h : s.Consistent) {dbName : DbRef → Text}
    (hshared : ∀ db db', s.OnHost db → s.OnHost db' → dbName db = dbName db' → db = db')
    {host : DatabaseHost} (hhost : host ∈ s.hostList) : Unique dbName host.databaseList :=
  (h.onHost host hhost).of_map.map_on fun db hdb db' hdb' =>
    hshared db db' ⟨host, hhost, hdb⟩ ⟨host, hhost, hdb'⟩

theorem changeDatabase_consistent_iff (h : s.Consistent) (old new : Text) (busy : Bool) :
    (s.changeDatabase old new busy).1.Consistent ↔
      (busy = false → old ∈ s.databases.map s.dbName →
        ¬Clashes (s.databases.map s.dbName) old new) := by
  rw [changeDatabase]
  rcases hget : get s.dbName old s.databases with _ | db
  · exact iff_of_true h fun _ hmem => absurd hmem (get_eq_none.mp hget)
  have hname : s.dbName db = old := name_of_get hget
  have hmem : old ∈ s.databases.map s.dbName := hname ▸ List.mem_map_of_mem (mem_of_get hget)
  have hon := (h.listed db).mp (mem_of_get hget)
  cases busy
  · by_cases hempty : new = []
    · simp only [Bool.false_eq_true, if_false, hempty, if_true, forall_const]
      exact iff_of_true h fun _ hclash => hclash.1 rfl
    simp only [Bool.false_eq_true, if_false, hempty, forall_const, hmem]
    constructor
    · rintro h' ⟨-, hne, hused⟩
      obtain ⟨db', hdb', hname'⟩ := List.mem_map.mp hused
      have hother : db' ≠ db := fun heq => hne (by rw [← hname', heq, hname])
      refine hother (h'.shared db' db ((h.listed db').mp hdb') hon ?_)
      simp only [Function.update_self, Function.update_of_ne hother, hname']
    · intro hclash
      have hfree : ∀ db', s.OnHost db' → db' ≠ db → s.dbName db' ≠ new := fun db' hdb' hother hnew => by
        have hused : new ∈ s.databases.map s.dbName :=
          hnew ▸ List.mem_map_of_mem ((h.listed db').mpr hdb')
        refine hclash ⟨hempty, fun heq => hother ?_, hused⟩
        exact h.shared db' db hdb' hon (by rw [hnew, heq, hname])
      have hshared : ∀ db₁ db₂, s.OnHost db₁ → s.OnHost db₂ →
          Function.update s.dbName db new db₁ = Function.update s.dbName db new db₂ → db₁ = db₂ := by
        intro db₁ db₂ h₁ h₂ heq
        by_cases hd₁ : db₁ = db <;> by_cases hd₂ : db₂ = db
        · rw [hd₁, hd₂]
        · rw [hd₁, Function.update_self, Function.update_of_ne hd₂] at heq
          exact absurd heq.symm (hfree db₂ h₂ hd₂)
        · rw [hd₂, Function.update_self, Function.update_of_ne hd₁] at heq
          exact absurd heq (hfree db₁ h₁ hd₁)
        · rw [Function.update_of_ne hd₁, Function.update_of_ne hd₂] at heq
          exact h.shared db₁ db₂ h₁ h₂ heq
      exact ⟨h.users, h.hosts, h.groups, fun host hhost => unique_of_shared h hshared hhost, h.listed,
        hshared⟩
  · exact iff_of_true h fun hbusy => by cases hbusy

section OneHost

variable {host : DatabaseHost} {hostName : Text} {dbs : List DbRef}
  (h : s.Consistent) (hget : get (fun h : DatabaseHost => h.hostName) hostName s.hostList = some host)

include h hget

/-- The databases on hosts, after one host got another list. -/
theorem onHost_change {f : DatabaseHost → DatabaseHost} (hf : (f host).databaseList = dbs)
    {db : DbRef} :
    (∃ h' ∈ change (·.hostName) hostName f s.hostList, db ∈ h'.databaseList) ↔
      db ∈ dbs ∨ ∃ h' ∈ s.hostList, h'.hostName ≠ hostName ∧ db ∈ h'.databaseList := by
  simp only [mem_change_iff h.hosts hget, or_and_right, exists_or, exists_eq_left, hf, and_assoc]

/-- The databases on hosts, by host. -/
theorem onHost_split {db : DbRef} : s.OnHost db ↔
    db ∈ host.databaseList ∨ ∃ h' ∈ s.hostList, h'.hostName ≠ hostName ∧ db ∈ h'.databaseList := by
  constructor
  · rintro ⟨h', hh', hdb⟩
    by_cases hsame : h'.hostName = hostName
    · cases List.inj_on_of_nodup_map h.hosts hh' (mem_of_get hget) (hsame.trans (name_of_get hget).symm)
      exact .inl hdb
    · exact .inr ⟨h', hh', hsame, hdb⟩
  · rintro (hdb | ⟨h', hh', -, hdb⟩)
    · exact ⟨host, mem_of_get hget, hdb⟩
    · exact ⟨h', hh', hdb⟩

end OneHost

theorem removeDatabase_consistent_iff (h : s.Consistent) (hostName name : Text) (busy : Bool) :
    (s.removeDatabase hostName name busy).1.Consistent ↔
      (busy = false → ∀ host, get (·.hostName) hostName s.hostList = some host →
        name ∈ host.databaseList.map s.dbName →
        ∀ h' ∈ s.hostList, name ∈ h'.databaseList.map s.dbName → h'.hostName = host.hostName) := by
  rw [removeDatabase]
  rcases hget : get (fun h : DatabaseHost => h.hostName) hostName s.hostList with _ | host
  · exact iff_of_true h fun _ host hhost => by cases hhost
  rcases hdb : get s.dbName name host.databaseList with _ | db
  · simp only [hdb]
    refine iff_of_true h fun _ host' hhost' hmem => absurd hmem ?_
    cases hhost'
    exact get_eq_none.mp hdb
  simp only [hdb]
  cases busy
  · have hname : s.dbName db = name := name_of_get hdb
    have hhostName : host.hostName = hostName := name_of_get hget
    have hhere := mem_of_get hdb
    have hon : s.OnHost db := ⟨host, mem_of_get hget, hhere⟩
    have hfound : get s.dbName name s.databases = some db := by
      rcases hlist : get s.dbName name s.databases with _ | db'
      · exact absurd (hname ▸ List.mem_map_of_mem ((h.listed db).mpr hon)) (get_eq_none.mp hlist)
      · rw [h.shared db' db ((h.listed db').mp (mem_of_get hlist)) hon
          ((name_of_get hlist).trans hname.symm)]
    have honly : ∀ h' ∈ s.hostList, name ∈ h'.databaseList.map s.dbName ↔ db ∈ h'.databaseList :=
      fun h' hh' => by
        refine ⟨fun hmem => ?_, fun hmem => hname ▸ List.mem_map_of_mem hmem⟩
        obtain ⟨db', hdb', hname'⟩ := List.mem_map.mp hmem
        rw [← h.shared db' db ⟨h', hh', hdb'⟩ hon (hname'.trans hname.symm)]
        exact hdb'
    have hleft : ∀ db', db' ∈ remove s.dbName name host.databaseList ↔
        db' ∈ host.databaseList ∧ db' ≠ db := fun db' => by
      rw [mem_remove_iff (h.onHost host (mem_of_get hget))]
      refine and_congr_right fun hmem => not_congr ⟨fun heq => ?_, fun heq => heq ▸ hname⟩
      exact h.shared db' db ⟨host, mem_of_get hget, hmem⟩ hon (heq.trans hname.symm)
    simp only [Bool.false_eq_true, if_false, forall_const, Option.some.injEq, forall_eq', hfound,
      hhostName]
    set hosts := change (·.hostName) hostName
      (fun h => { h with databaseList := remove s.dbName name h.databaseList }) s.hostList
    have hon' : ∀ db', (∃ h' ∈ hosts, db' ∈ h'.databaseList) ↔
        (db' ∈ host.databaseList ∧ db' ≠ db) ∨
          ∃ h' ∈ s.hostList, h'.hostName ≠ hostName ∧ db' ∈ h'.databaseList := fun db' => by
      rw [← hleft db']
      exact onHost_change h hget rfl
    constructor
    · intro h' _ other hother hmem
      by_contra hne
      have hgone : db ∈ s.databases.filter (· ≠ db) :=
        (h'.listed db).mpr ((hon' db).mpr (.inr ⟨other, hother, hne, (honly other hother).mp hmem⟩))
      simp at hgone
    · intro hmine
      have hmine := hmine (hname ▸ List.mem_map_of_mem hhere)
      have hkept : ∀ db', (∃ h' ∈ hosts, db' ∈ h'.databaseList) ↔ s.OnHost db' ∧ db' ≠ db := by
        intro db'
        rw [hon', onHost_split h hget, or_and_right]
        refine or_congr_right ⟨fun hx => ⟨hx, ?_⟩, fun hx => hx.1⟩
        rintro rfl
        obtain ⟨other, hother, hne, hdb'⟩ := hx
        exact hne (hmine other hother ((honly other hother).mpr hdb'))
      have honce : ∀ db' db'', (∃ h' ∈ hosts, db' ∈ h'.databaseList) →
          (∃ h' ∈ hosts, db'' ∈ h'.databaseList) → s.dbName db' = s.dbName db'' → db' = db'' :=
        fun db' db'' h₁ h₂ => h.shared db' db'' ((hkept db').mp h₁).1 ((hkept db'').mp h₂).1
      refine ⟨h.users, (unique_change_iff h.hosts hget _).mpr (.inl hhostName), h.groups,
        fun h' hh' => ?_, fun db' => ?_, honce⟩
      · rcases (mem_change_iff h.hosts hget).mp hh' with rfl | ⟨hh', -⟩
        · exact unique_remove (h.onHost host (mem_of_get hget))
        · exact h.onHost h' hh'
      · refine Iff.trans ?_ (hkept db').symm
        rw [← h.listed db']
        simp
  · exact iff_of_true h fun hbusy => by cases hbusy

/-- A new object is not on any host. -/
theorem consistent_create (h : s.Consistent) (hfresh : s.Fresh) (name : Text) :
    Consistent { s with dbName := Function.update s.dbName s.created name, created := s.created + 1 } := by
  have hold : ∀ db, s.OnHost db → Function.update s.dbName s.created name db = s.dbName db := by
    intro db hdb
    have hlt := hfresh db ((h.listed db).mpr hdb)
    exact Function.update_of_ne (Nat.ne_of_lt hlt) _ _
  have hshared : ∀ db db', s.OnHost db → s.OnHost db' → Function.update s.dbName s.created name db
      = Function.update s.dbName s.created name db' → db = db' := by
    intro db db' hdb hdb'
    rw [hold db hdb, hold db' hdb']
    exact h.shared db db' hdb hdb'
  exact ⟨h.users, h.hosts, h.groups, fun host hhost => unique_of_shared h hshared hhost, h.listed,
    hshared⟩

/-- A database that is added to a host, the only one of its name. -/
theorem consistent_add (h : s.Consistent) {host : DatabaseHost} {hostName : Text} {db : DbRef}
    (hget : get (fun h : DatabaseHost => h.hostName) hostName s.hostList = some host)
    (hnew : s.dbName db ∉ host.databaseList.map s.dbName)
    (honly : ∀ db', s.OnHost db' → s.dbName db' = s.dbName db → db' = db) :
    Consistent { s with
      hostList := change (·.hostName) hostName
        (fun h => { h with databaseList := h.databaseList ++ [db] }) s.hostList
      databases := s.databases ++ [db] } := by
  set hosts := change (·.hostName) hostName
    (fun h => { h with databaseList := h.databaseList ++ [db] }) s.hostList
  have hon : ∀ db', (∃ h' ∈ hosts, db' ∈ h'.databaseList) ↔ s.OnHost db' ∨ db' = db := fun db' => by
    rw [onHost_split h hget]
    refine (onHost_change h hget rfl).trans ?_
    rw [List.mem_append, List.mem_singleton, or_right_comm]
  have hhostName := name_of_get hget
  refine ⟨h.users, (unique_change_iff h.hosts hget _).mpr (.inl hhostName), h.groups,
    fun h' hh' => ?_, fun db' => ?_, fun db₁ db₂ h₁ h₂ heq => ?_⟩
  · rcases (mem_change_iff h.hosts hget).mp hh' with rfl | ⟨hh', -⟩
    · exact unique_append (h.onHost host (mem_of_get hget)) hnew
    · exact h.onHost h' hh'
  · refine Iff.trans ?_ (hon db').symm
    rw [← h.listed db', List.mem_append, List.mem_singleton]
  · rcases (hon db₁).mp h₁ with hon₁ | rfl <;> rcases (hon db₂).mp h₂ with hon₂ | rfl
    · exact h.shared db₁ db₂ hon₁ hon₂ heq
    · exact honly db₁ hon₁ heq
    · exact (honly db₂ hon₂ heq.symm).symm
    · rfl

theorem defineDatabase_consistent (h : s.Consistent) (hfresh : s.Fresh) (hostName name : Text) :
    (s.defineDatabase hostName name).1.Consistent := by
  rw [defineDatabase]
  rcases hget : get (fun h : DatabaseHost => h.hostName) hostName s.hostList with _ | host
  · exact h
  rcases hfound : get s.dbName name s.databases with _ | db
  · have hcreated := consistent_create h hfresh name
    simp only [Option.getD_none]
    split
    · exact hcreated
    · rename_i hnew
      rw [List.contains_iff_mem] at hnew
      refine consistent_add hcreated hget ?_ fun db' hdb' heq => ?_
      · simpa using hnew
      · have hunused := get_eq_none.mp hfound
        simp only [Function.update_self] at heq
        by_contra hother
        rw [Function.update_of_ne hother] at heq
        exact hunused (heq ▸ List.mem_map_of_mem ((h.listed db').mpr hdb'))
  · have hname : s.dbName db = name := name_of_get hfound
    have hon := (h.listed db).mp (mem_of_get hfound)
    simp only [Option.getD_some]
    split
    · exact h
    · rename_i hnew
      rw [List.contains_iff_mem] at hnew
      exact consistent_add h hget (hname ▸ hnew) fun db' hdb' heq => h.shared db' db hdb' hon heq

/-! ## Commands -/

section Commands

variable (digest : Text → Text)

theorem defineDatabase_fresh (hfresh : s.Fresh) (hostName name : Text) :
    (s.defineDatabase hostName name).1.Fresh := by
  have hcreate : Fresh { s with dbName := Function.update s.dbName s.created name
                                created := s.created + 1 } :=
    fun db hdb => Nat.lt_succ_of_lt (hfresh db hdb)
  rw [defineDatabase]
  split
  · exact hfresh
  · rcases hfound : get s.dbName name s.databases with _ | db <;> simp only
    · split
      · exact hcreate
      · intro db hdb
        rcases List.mem_append.mp hdb with hdb | hdb
        · exact hcreate db hdb
        · rw [List.mem_singleton.mp hdb]
          exact Nat.lt_succ_self _
    · split
      · exact hfresh
      · intro db' hdb'
        rcases List.mem_append.mp hdb' with hdb' | hdb'
        · exact hfresh db' hdb'
        · rw [List.mem_singleton.mp hdb']
          exact hfresh db (mem_of_get hfound)

theorem removeDatabase_fresh (hfresh : s.Fresh) (hostName name : Text) (busy : Bool) :
    (s.removeDatabase hostName name busy).1.Fresh := by
  rw [removeDatabase]
  repeat' split
  · exact hfresh
  · exact hfresh
  · exact hfresh
  · exact fun db hdb => hfresh db (List.mem_of_mem_filter hdb)
  · exact hfresh

theorem step_fresh (hfresh : s.Fresh) (c : Command) : (step digest s c).Fresh := by
  cases c with
  | defineDb m => exact defineDatabase_fresh hfresh _ _
  | removeDb m busy => exact removeDatabase_fresh hfresh _ _ busy
  | changeServerGroup m stopped =>
    simp only [step, execute, changeServerGroup_state]
    split <;> exact hfresh
  | _ =>
    simp only [step, execute, defineUser, changeUser, removeUser, defineDatabaseHost,
      changeDatabaseHost, removeDatabaseHost, changeDatabase, defineServerGroup, removeServerGroup]
    repeat' split
    all_goals exact hfresh

/-- **A command keeps the registries consistent exactly when it is orderly.** -/
theorem step_consistent_iff (h : s.Consistent) (hfresh : s.Fresh) (c : Command) :
    (step digest s c).Consistent ↔ s.Orderly c := by
  cases c with
  | defineUser m => exact iff_of_true (defineUser_consistent h _) trivial
  | changeUser m => exact changeUser_consistent_iff h _ _
  | removeUser m => exact iff_of_true (removeUser_consistent h _) trivial
  | defineDbHost m => exact iff_of_true (defineDatabaseHost_consistent h _) trivial
  | changeDbHost m busy => exact changeDatabaseHost_consistent_iff h _ _ busy
  | removeDbHost m busy => exact removeDatabaseHost_consistent_iff h _ busy
  | defineDb m => exact iff_of_true (defineDatabase_consistent h hfresh _ _) trivial
  | changeDb m busy => exact changeDatabase_consistent_iff h _ _ busy
  | removeDb m busy => exact removeDatabase_consistent_iff h _ _ busy
  | defineServerGroup m => exact iff_of_true (defineServerGroup_consistent h _) trivial
  | changeServerGroup m stopped => exact changeServerGroup_consistent_iff h _ _ stopped
  | removeServerGroup name stopped => exact iff_of_true (removeServerGroup_consistent h name stopped) trivial

/-- **Orderly commands keep names unique and the list of databases exact**: in every state of a run
`changeDatabase` finds what `serializeToProto` lists. -/
theorem registries_consistent (commands : List Command)
    (h : Along (step digest) Orderly {} commands) :
    (run (step digest) {} commands).Consistent ∧
      ∀ name, (get (run (step digest) {} commands).dbName name
          (run (step digest) {} commands).databases).isSome = true ↔
        ∃ host, (host, name) ∈ (run (step digest) {} commands).serializeToProto := by
  have hempty : Consistent {} :=
    ⟨List.nodup_nil, List.nodup_nil, List.nodup_nil, fun _ hh => absurd hh List.not_mem_nil,
      fun _ => iff_of_false List.not_mem_nil fun ⟨_, hh, _⟩ => absurd hh List.not_mem_nil,
      fun _ _ ⟨_, hh, _⟩ => absurd hh List.not_mem_nil⟩
  have hstart : Consistent {} ∧ Fresh {} := ⟨hempty, fun _ hdb => absurd hdb List.not_mem_nil⟩
  have hrun : Consistent (run (step digest) {} commands) ∧ Fresh (run (step digest) {} commands) :=
    h.inv (I := fun s => s.Consistent ∧ s.Fresh)
      (fun s c hs hc => ⟨(step_consistent_iff digest hs.1 hs.2 c).mpr hc, step_fresh digest hs.2 c⟩)
      hstart
  exact ⟨hrun.1, hrun.1.found_iff⟩

end Commands

/-- A user and a database that get new names. -/
def newNames : List Command :=
  [.defineUser { userName := some "a".toList },
    .changeUser { userName := some "a".toList, nName := some "b".toList },
    .defineDbHost { hostName := some "h".toList },
    .defineDb { dbName := some "x".toList, dbhostName := some "h".toList },
    .changeDb { dbName := some "x".toList, nDbName := some "y".toList } false]

theorem registries_consistent_renaming :
    Along (step id) Orderly {} newNames ∧ (run (step id) {} newNames).Consistent := by
  have huser : ¬Clashes ["a".toList] "a".toList "b".toList := by
    unfold Clashes
    decide
  have hdb : ¬Clashes ["x".toList] "x".toList "y".toList := by
    unfold Clashes
    decide
  have h : Along (step id) Orderly {} newNames :=
    ⟨trivial, fun _ => huser, trivial, trivial, fun _ _ => hdb, trivial⟩
  exact ⟨h, (registries_consistent id newNames h).1⟩

/-- Commands that define two users and a database on two hosts. -/
def definitions : List Command :=
  [.defineUser { userName := some "a".toList }, .defineUser { userName := some "b".toList },
    .defineDbHost { hostName := some "h1".toList }, .defineDbHost { hostName := some "h2".toList },
    .defineDb { dbName := some "x".toList, dbhostName := some "h1".toList },
    .defineDb { dbName := some "x".toList, dbhostName := some "h2".toList }]

/-- A rename gives two users one name; a database that is removed from one host is on the other one
and not listed; a database whose hosts are removed is listed and on no host. -/
theorem registries_inconsistent :
    (let s := run (step id) {} (definitions ++
        [.changeUser { userName := some "b".toList, nName := some "a".toList }]);
      s.userList.map (·.name) = ["a".toList, "a".toList] ∧ ¬s.Consistent) ∧
    (let s := run (step id) {} (definitions ++
        [.removeDb { dbName := some "x".toList, dbhostName := some "h1".toList } false]);
      s.databases = [] ∧ s.serializeToProto = [("h2".toList, "x".toList)] ∧ ¬s.Consistent) ∧
    (let s := run (step id) {} (definitions ++
        [.removeDbHost { hostName := some "h1".toList } false,
          .removeDbHost { hostName := some "h2".toList } false]);
      s.databases = [0, 0] ∧ s.serializeToProto = [] ∧ ¬s.Consistent) := by
  refine ⟨⟨by decide +kernel, fun h => ?_⟩, ⟨by decide +kernel, by decide +kernel, fun h => ?_⟩,
    by decide +kernel, by decide +kernel, fun h => ?_⟩
  · have hunique : (["a".toList, "a".toList] : List Text).Nodup := h.users
    exact absurd hunique (by decide)
  · have hfound := (h.found_iff "x".toList).mpr ⟨"h2".toList, by decide +kernel⟩
    exact absurd hfound (by decide +kernel)
  · obtain ⟨host, hhost⟩ := (h.found_iff "x".toList).mp (by decide +kernel)
    exact absurd hhost List.not_mem_nil

end Managers

end Rasdaman
