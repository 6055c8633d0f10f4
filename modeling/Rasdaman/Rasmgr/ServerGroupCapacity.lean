import Rasdaman.Rasmgr.ServerGroupPorts
import Mathlib

/-!
# Rasmgr/ServerGroupCapacity — a group that never runs out of ports

`startServer` throws when no port is available, which should never happen.  `evaluateGroup` computes how
many servers can still be started from the configured ports and the servers that are listed; `start` does not
look at the servers that are listed.  As long as the ports are booked exactly and `start` finds room
(`Method.HasRoom`), no call asks for a port that is not there and the subtraction does not wrap around.
-/

namespace Rasdaman

open Effect Pool

deriving instance DecidableEq for GroupException

/-- The exception of `startServer` for a group without available ports. -/
def capacityReached : GroupException :=
  .invalidState "The ServerGroup has reached capacity. No more servers can be started."

namespace ServerGroupImpl

/-- The servers in the three containers. -/
def listed (g : ServerGroupImpl) : ℕ :=
  g.startingServers.length + g.runningServers.length + g.restartingServers.length

/-- `evaluateGroup` up to the subtraction, if it gets there: the servers it wants, and the operands
`ports_size` and the number of listed servers. -/
def evaluateUpToSubtraction : Op (Option (ℕ × ℕ × ℕ)) := do
  removeDeadServers
  evaluateRestartingServers
  let g ← getGroup
  if g.stopped then pure none
  else
    let (availableServerNo, _) ← countServers g.runningServers
    let minAvailable := g.config.minAvailableServerNo.getD 0
    if availableServerNo < minAvailable then
      pure (some (minAvailable - availableServerNo, g.config.ports.length, g.listed))
    else pure none

end ServerGroupImpl

namespace Method

open ServerGroupImpl

/-- The subtraction of a call of `evaluateGroup`. -/
def subtractionOf : Except GroupException (Option (ℕ × ℕ × ℕ)) × World → Option (ℕ × ℕ)
  | (.ok (some (_, operands)), _) => some operands
  | _ => none

/-- The operands of the subtraction in `evaluateGroup`, where a call makes it. -/
def subtraction (env : Environment) (w : World) (m : Method) : Option (ℕ × ℕ) :=
  let w := { w with calls := 0 }
  match m with
  | stop level => subtractionOf (exec (do
      let g ← getGroup
      if g.stopped then throw (.invalidState "ServerGroup is already stopped")
      else
        setGroup fun g => { g with stopped := true }
        stopActiveServers level
        evaluateUpToSubtraction) env w)
  | evaluateServerGroup => subtractionOf (exec evaluateUpToSubtraction env w)
  | _ => none

/-- The ports suffice for the servers that a stopped group starts and those that are listed. -/
def HasRoom (w : World) : Method → Prop
  | start => w.group.stopped = true →
      w.group.config.minAliveServerNo.getD 0 + w.group.listed ≤ w.group.config.ports.length
  | _ => True

end Method

namespace ServerGroupImpl

/-! ## Steps that start no server -/

/-- A step that leaves the configuration and throws only what comes from outside, or crashes. -/
def Quiet {α : Type} (x : Op α) : Prop :=
  ∀ env w, (exec x env w).2.group.config = w.group.config ∧
    ∀ e, (exec x env w).1 = .error e → e = .external ∨ e = .crash

section Quiet

variable {α β : Type} {x y : Op α}

theorem Quiet.pure (a : α) : Quiet (pure a : Op α) := fun _ _ => ⟨rfl, by rintro _ ⟨⟩⟩

theorem Quiet.bind {f : α → Op β} (hx : Quiet x) (hf : ∀ a, Quiet (f a)) : Quiet (x >>= f) := by
  intro env w
  have hfirst := hx env w
  rw [exec_bind]
  rcases hrun : exec x env w with ⟨e | a, w'⟩ <;> rw [hrun] at hfirst
  · refine ⟨hfirst.1, ?_⟩
    rintro _ ⟨⟩
    exact hfirst.2 e rfl
  · have hnext := hf a env w'
    exact ⟨hnext.1.trans hfirst.1, hnext.2⟩

theorem Quiet.tryCatch {handle : GroupException → Op α} (hx : Quiet x) (hh : ∀ e, Quiet (handle e)) :
    Quiet (tryCatch x handle) := by
  intro env w
  have hfirst := hx env w
  rw [exec_tryCatch]
  rcases hrun : exec x env w with ⟨e | a, w'⟩ <;> rw [hrun] at hfirst
  · have hnext := hh e env w'
    exact ⟨hnext.1.trans hfirst.1, hnext.2⟩
  · exact ⟨hfirst.1, by rintro _ ⟨⟩⟩

theorem Quiet.ite {c : Prop} [Decidable c] (hx : Quiet x) (hy : Quiet y) :
    Quiet (if c then x else y) := by
  split
  · exact hx
  · exact hy

end Quiet

theorem quiet_ask (c : Call) : Quiet (ask c) := by
  intro env w
  rw [exec_ask]
  rcases env c w.calls with _ | r
  · refine ⟨rfl, ?_⟩
    rintro _ ⟨⟩
    exact .inl rfl
  · exact ⟨rfl, by rintro _ ⟨⟩⟩

theorem quiet_crash {α : Type} : Quiet (throw .crash : Op α) := fun _ _ => ⟨rfl, by
  rintro _ ⟨⟩
  exact .inr rfl⟩

theorem quiet_askBool (c : Call) : Quiet (askBool c) := (quiet_ask c).bind fun _ => .pure _

theorem quiet_getGroup : Quiet getGroup := fun _ _ => ⟨rfl, by rintro _ ⟨⟩⟩

theorem quiet_setGroup {f : ServerGroupImpl → ServerGroupImpl} (hf : ∀ g, (f g).config = g.config) :
    Quiet (setGroup f) := fun _ w => ⟨hf w.group, by rintro _ ⟨⟩⟩

theorem quiet_insertPort (server : Server) : Quiet (insertPort server) := quiet_setGroup fun _ => rfl

theorem quiet_removeDeadRunning (rest : List Server) :
    ∀ kept valid, Quiet (removeDeadRunning kept valid rest) := by
  induction rest with
  | nil => exact fun _ _ => .pure _
  | cons server rest ih =>
    intro kept valid
    refine .bind (.tryCatch ?_ fun _ => .pure _) fun _ => .ite (ih _ _) (ih _ _)
    refine (quiet_askBool _).bind fun _ => .ite (.pure _) ((quiet_ask _).bind fun _ => ?_)
    exact (quiet_insertPort server).bind fun _ => (quiet_setGroup fun _ => rfl).bind fun _ => .pure _

theorem quiet_removeExpiredStarting (valid : Bool) (rest : List Server) :
    ∀ kept, Quiet (removeExpiredStarting valid kept rest) := by
  induction rest with
  | nil => exact fun _ => .pure _
  | cons server rest ih =>
    intro kept
    refine .bind (.tryCatch ?_ fun _ => .ite (.pure _) quiet_crash) fun _ => .ite (ih _) (ih _)
    refine (quiet_askBool _).bind fun _ => .ite ((quiet_ask _).bind fun _ => ?_) (.pure _)
    exact (quiet_insertPort server).bind fun _ => (quiet_setGroup fun _ => rfl).bind fun _ => .pure _

theorem quiet_removeDeadServers : Quiet removeDeadServers :=
  quiet_getGroup.bind fun _ => (quiet_removeDeadRunning _ _ _).bind fun _ =>
    quiet_getGroup.bind fun _ => quiet_removeExpiredStarting _ _ _

theorem quiet_collectRestarting (countdown : ℕ) (rest : List Server) :
    ∀ kept, Quiet (collectRestarting countdown kept rest) := by
  induction rest with
  | nil => exact fun _ => .pure _
  | cons server rest ih =>
    intro kept
    refine (quiet_ask _).bind fun _ => .ite (.bind (quiet_setGroup ?_) fun _ => ih _) (ih _)
    exact fun _ => rfl

theorem quiet_killRestarting (rest : List Server) : ∀ kept, Quiet (killRestarting kept rest) := by
  induction rest with
  | nil => exact fun _ => .pure _
  | cons server rest ih =>
    intro kept
    refine (quiet_askBool _).bind fun _ => .ite ?_ (ih _)
    refine .bind (.tryCatch ?_ fun _ => .pure _) fun _ => .ite (ih _) (ih _)
    refine (quiet_ask _).bind fun _ => (quiet_insertPort server).bind fun _ => ?_
    exact (quiet_setGroup fun _ => rfl).bind fun _ => .pure _

theorem quiet_evaluateRestartingServers : Quiet evaluateRestartingServers :=
  quiet_getGroup.bind fun _ => .ite
    ((quiet_collectRestarting _ _ _).bind fun _ => quiet_getGroup.bind fun _ => quiet_killRestarting _ _)
    (.pure _)

theorem quiet_countServers : ∀ l, Quiet (countServers l)
  | [] => .pure _
  | _ :: rest => (quiet_askBool _).bind fun _ => .ite
    ((quiet_countServers rest).bind fun _ => .pure _)
    ((quiet_askBool _).bind fun _ => (quiet_countServers rest).bind fun _ => .pure _)

theorem quiet_stopIdle : ∀ n l, Quiet (stopIdle n l)
  | 0, _ => by
    rw [stopIdle]
    exact .pure _
  | _ + 1, [] => .pure _
  | n + 1, _ :: rest => (quiet_askBool _).bind fun _ => .ite
    ((quiet_ask _).bind fun _ => quiet_stopIdle n rest) (quiet_stopIdle (n + 1) rest)

theorem quiet_stopRunning (level : KillLevel) : ∀ l, Quiet (stopRunning level l)
  | [] => .pure _
  | server :: rest => by
    refine .bind (.tryCatch ?_ fun _ => .pure _) fun _ => quiet_stopRunning level rest
    exact (quiet_ask _).bind fun _ => .ite (quiet_insertPort server) (.pure _)

theorem quiet_stopStarting : ∀ l, Quiet (stopStarting l)
  | [] => .pure _
  | server :: rest => by
    refine .bind (.tryCatch ?_ fun _ => .pure _) fun _ => quiet_stopStarting rest
    exact (quiet_ask _).bind fun _ => quiet_insertPort server

theorem quiet_stopActiveServers (level : KillLevel) : Quiet (stopActiveServers level) := by
  have hstarting : Quiet (do
      let g ← getGroup
      stopStarting g.startingServers
      setGroup fun g => { g with startingServers := [] }) :=
    quiet_getGroup.bind fun _ => (quiet_stopStarting _).bind fun _ => quiet_setGroup fun _ => rfl
  refine quiet_getGroup.bind fun _ => (quiet_stopRunning level _).bind fun _ => ?_
  by_cases hl : level = .kill
  · subst hl
    simp only [↓reduceIte]
    exact .bind (quiet_setGroup fun _ => rfl) fun _ => hstarting
  · simp only [if_neg hl]
    exact hstarting

theorem quiet_findAvailable (rest : List Server) : ∀ kept, Quiet (findAvailable kept rest) := by
  induction rest with
  | nil => exact fun _ => .pure _
  | cons server rest ih =>
    intro kept
    refine (quiet_askBool _).bind fun _ => .ite ?_ (ih _)
    exact (quiet_setGroup fun _ => rfl).bind fun _ => .pure _

/-! ## Starting servers -/

/-- `startServer` with a port to start on: it does not run out of ports, and takes one. -/
theorem startServer_room {env : Environment} {w w' : World} {r : Except GroupException Unit}
    (hne : w.group.availablePorts.Nonempty) (hrun : exec startServer env w = (r, w')) :
    r ≠ .error capacityReached ∧
      (r = .ok () → w'.group.availablePorts.card + 1 = w.group.availablePorts.card) := by
  have hcard := Finset.card_erase_add_one (Finset.min'_mem w.group.availablePorts hne)
  have hexternal : (.external : GroupException) ≠ capacityReached := by decide
  have hperiod : (.invalidArgument "period" : GroupException) ≠ capacityReached := by decide
  simp only [startServer, getGroup, exec_bind, exec_get, exec_pure, dif_pos hne, setGroup, exec_modify,
    createServer, exec_ask, exec_set] at hrun
  rcases hcreate : env .createServer w.calls with _ | created <;> simp only [hcreate] at hrun
  · obtain ⟨rfl, -⟩ := Prod.mk.inj hrun
    exact ⟨fun h => hexternal (Except.error.inj h), by rintro ⟨⟩⟩
  · split at hrun
    · obtain ⟨rfl, -⟩ := Prod.mk.inj hrun
      exact ⟨fun h => hperiod (Except.error.inj h), by rintro ⟨⟩⟩
    · -- the new server may be listed already, but the port is taken in either case
      simp only [insertStarting, setGroup, exec_bind, exec_modify, exec_ask, exec_pure] at hrun
      rcases hstart : env .startProcess (w.calls + 1) with _ | started <;> simp only [hstart] at hrun
      · obtain ⟨rfl, -⟩ := Prod.mk.inj hrun
        exact ⟨fun h => hexternal (Except.error.inj h), by rintro ⟨⟩⟩
      · obtain ⟨rfl, rfl⟩ := Prod.mk.inj hrun
        refine ⟨by rintro ⟨⟩, fun _ => ?_⟩
        simp only
        split
        · exact hcard
        · exact hcard

/-- Servers for which there are ports can be started. -/
theorem startServers_room {env : Environment} : ∀ {n : ℕ} {w w' : World} {e : GroupException},
    n ≤ w.group.availablePorts.card → exec (startServers n) env w = (.error e, w') →
      e ≠ capacityReached
  | 0, w, w', e, _, hrun => by
    cases (Prod.mk.inj hrun).1
  | n + 1, w, w', e, hn, hrun => by
    have hne : w.group.availablePorts.Nonempty := Finset.card_pos.mp (by omega)
    obtain hfirst | ⟨u, t, hfirst, hrest⟩ := exec_bind_error hrun
    · exact fun he => (startServer_room hne hfirst).1 (congrArg Except.error he)
    · have hcard := (startServer_room hne hfirst).2 rfl
      exact startServers_room (by omega) hrest

/-! ## Evaluating the group -/

/-- The configured ports are counted once each. -/
def PortsCounted (config : ServerGroupConfigProto) : Prop := config.ports.length = config.portSet.card

/-- The available ports are those that no listed server has. -/
theorem card_available {g : ServerGroupImpl} (hports : g.PortsExact) (hcounted : PortsCounted g.config) :
    g.availablePorts.card + g.listed = g.config.ports.length := by
  have hcard := hports.card
  rw [List.length_map, List.length_append, List.length_append] at hcard
  rw [hcounted, ← hcard, listed]

variable {env : Environment} {w w' : World}

/-- What `evaluateGroup` has done when it looks at the group. -/
theorem exec_prepared (hs : On (Sound env) w) {w₁ w₂ : World}
    (hdead : exec removeDeadServers env w = (.ok (), w₁))
    (hrestart : exec evaluateRestartingServers env w₁ = (.ok (), w₂)) :
    On (Sound env) w₂ ∧ w₂.group.config = w.group.config := by
  have h₁ := removeDeadServers_sound.exec hs
  have q₁ := (quiet_removeDeadServers env w).1
  rw [hdead] at h₁ q₁
  have h₂ := evaluateRestartingServers_sound.exec h₁
  have q₂ := (quiet_evaluateRestartingServers env w₁).1
  rw [hrestart] at h₂ q₂
  exact ⟨h₂, q₂.trans q₁⟩

/-- Counting the servers leaves the group. -/
theorem countServers_group {l : List Server} {r : Except GroupException (ℕ × ℕ)}
    (hrun : exec (countServers l) env w = (r, w')) : w'.group = w.group := by
  have hkeeps := (@countServers_keeps env (fun g _ => g = w.group) l).exec
    (show On (fun g _ => g = w.group) w from rfl)
  rwa [hrun] at hkeeps

theorem external_ne : (.external : GroupException) ≠ capacityReached := by decide

theorem crash_ne : (.crash : GroupException) ≠ capacityReached := by decide

theorem Quiet.ne_capacityReached {α : Type} {x : Op α} (h : Quiet x) {e : GroupException}
    (hrun : exec x env w = (.error e, w')) : e ≠ capacityReached := by
  obtain rfl | rfl := (h env w).2 e (by rw [hrun])
  · exact external_ne
  · exact crash_ne

/-- **`evaluateGroup` starts no server without a port**, as long as the ports are booked exactly. -/
theorem evaluateGroup_room (hs : On (Sound env) w) (hcounted : PortsCounted w.group.config)
    {e : GroupException} (hrun : exec evaluateGroup env w = (.error e, w')) : e ≠ capacityReached := by
  obtain hdead | ⟨_, w₁, hdead, hrun⟩ := exec_bind_error hrun
  · exact quiet_removeDeadServers.ne_capacityReached hdead
  obtain hrestart | ⟨_, w₂, hrestart, hrun⟩ := exec_bind_error hrun
  · exact quiet_evaluateRestartingServers.ne_capacityReached hrestart
  obtain ⟨hsound, hconfig⟩ := exec_prepared hs hdead hrestart
  obtain hget | ⟨g, w₃, hget, hrun⟩ := exec_bind_error hrun
  · exact quiet_getGroup.ne_capacityReached hget
  obtain ⟨hg, rfl⟩ := Prod.mk.inj hget
  obtain rfl := Except.ok.inj hg
  split at hrun
  · cases (Prod.mk.inj hrun).1
  obtain hcount | ⟨⟨available, idle⟩, w₃, hcount, hrun⟩ := exec_bind_error hrun
  · exact (quiet_countServers _).ne_capacityReached hcount
  have hgroup := countServers_group hcount
  simp only at hrun
  split at hrun
  · refine startServers_room ?_ hrun
    have hcard := card_available hsound.ports (hconfig ▸ hcounted)
    have hdiff : (w₂.group.config.ports.length : ℤ) - w₂.group.listed = w₂.group.availablePorts.card := by
      omega
    rw [hgroup]
    refine (min_le_right _ _).trans ?_
    change (((w₂.group.config.ports.length : ℤ) - w₂.group.listed) % 2 ^ 32).toNat ≤ _
    rw [hdiff]
    omega
  · split at hrun
    · exact (quiet_stopIdle _ _).ne_capacityReached hrun
    · cases (Prod.mk.inj hrun).1

/-- **The subtraction does not wrap around**, as long as the ports are booked exactly. -/
theorem evaluateUpToSubtraction_room (hs : On (Sound env) w) (hcounted : PortsCounted w.group.config)
    {wanted ports listed : ℕ}
    (hrun : exec evaluateUpToSubtraction env w = (.ok (some (wanted, ports, listed)), w')) :
    listed ≤ ports := by
  obtain ⟨_, w₁, hdead, hrun⟩ := exec_bind_ok hrun
  obtain ⟨_, w₂, hrestart, hrun⟩ := exec_bind_ok hrun
  obtain ⟨hsound, hconfig⟩ := exec_prepared hs hdead hrestart
  have hcard := card_available hsound.ports (hconfig ▸ hcounted)
  obtain ⟨g, w₃, hget, hrun⟩ := exec_bind_ok hrun
  obtain ⟨hg, rfl⟩ := Prod.mk.inj hget
  obtain rfl := Except.ok.inj hg
  split at hrun
  · cases (Prod.mk.inj hrun).1
  obtain ⟨⟨available, idle⟩, w₃, hcount, hrun⟩ := exec_bind_ok hrun
  simp only at hrun
  split at hrun
  · obtain ⟨-, rfl, rfl⟩ := by simpa using (Prod.mk.inj hrun).1
    omega
  · cases (Prod.mk.inj hrun).1

/-! ## The configuration -/

/-- A configuration that has gone through `validateAndInitConfig`. -/
structure Checked (config : ServerGroupConfigProto) : Prop where
  name : config.name.isSome = true
  host : config.host.isSome = true
  dbHost : config.dbHost.isSome = true
  ports : config.ports.isEmpty = false
  counted : PortsCounted config

theorem portsCounted_uniquePorts (config : ServerGroupConfigProto) : PortsCounted config.uniquePorts := by
  rw [PortsCounted, portSet_uniquePorts, ServerGroupConfigProto.portSet, List.card_toFinset]
  simp [ServerGroupConfigProto.uniquePorts]

/-- Whatever it finds wrong, `validateAndInitConfig` leaves a complete configuration with unique ports. -/
theorem checked_validateAndInit {config : ServerGroupConfigProto} (hname : config.name.isSome = true)
    (hhost : config.host.isSome = true) (hdb : config.dbHost.isSome = true)
    (hports : config.ports.isEmpty = false) : Checked config.validateAndInit.2 := by
  have hchecked : Checked config.uniquePorts.initDefaults := by
    refine ⟨hname, hhost, hdb, ?_, portsCounted_uniquePorts config⟩
    have hne : config.ports ≠ [] := by
      rintro heq
      rw [heq] at hports
      cases hports
    refine List.isEmpty_eq_false_iff.mpr fun hnil => hne ?_
    have hlen := congrArg List.length hnil
    simpa [ServerGroupConfigProto.initDefaults, ServerGroupConfigProto.uniquePorts] using hlen
  simp only [ServerGroupConfigProto.validateAndInit, Option.isNone_eq_false_iff.mpr hname,
    Option.isNone_eq_false_iff.mpr hhost, Option.isNone_eq_false_iff.mpr hdb, hports,
    Bool.false_eq_true, if_false]
  split_ifs <;> exact hchecked

theorem Checked.merge {config : ServerGroupConfigProto} (h : Checked config)
    (value : ServerGroupConfigProto) : Checked (config.merge value).validateAndInit.2 := by
  refine checked_validateAndInit ?_ ?_ ?_ ?_
  · simp [ServerGroupConfigProto.merge, h.name]
  · simp [ServerGroupConfigProto.merge, h.host]
  · simp [ServerGroupConfigProto.merge, h.dbHost]
  · simp only [ServerGroupConfigProto.merge]
    split
    · exact h.ports
    · next hvalue => simpa using hvalue

theorem Quiet.keeps {α : Type} {x : Op α} (h : Quiet x) (c : ServerGroupConfigProto) :
    Keeps env (On fun g _ => g.config = c) x := by
  intro w hw
  have hconfig := (h env w).1
  rcases hrun : exec x env w with ⟨e | a, w'⟩ <;> rw [hrun] at hconfig <;> exact hconfig.trans hw

theorem setGroup_config {f : ServerGroupImpl → ServerGroupImpl} (hf : ∀ g, (f g).config = g.config)
    (c : ServerGroupConfigProto) : Keeps env (On fun g _ => g.config = c) (setGroup f) :=
  (quiet_setGroup hf).keeps c

theorem startServer_config (c : ServerGroupConfigProto) :
    Keeps env (On fun g _ => g.config = c) startServer := by
  refine Keeps.bind (quiet_getGroup.keeps c) fun g => ?_
  split
  · refine Keeps.bind (setGroup_config ?_ c) fun _ => Keeps.bind ?_ fun server => ?_
    · exact fun _ => rfl
    · exact Keeps.bind (keeps_ask _) fun _ w hw => hw
    · refine .ite (fun _ => .throw fun _ hw => hw) fun _ => Keeps.bind (setGroup_config (fun g => ?_) c) fun _ => ?_
      · split
        · rfl
        · rfl
      · exact Keeps.bind (keeps_ask _) fun _ => .pure fun _ hw => hw
  · exact .throw fun _ hw => hw

theorem startServers_config (c : ServerGroupConfigProto) :
    ∀ n, Keeps env (On fun g _ => g.config = c) (startServers n)
  | 0 => .pure fun _ hw => hw
  | n + 1 => Keeps.bind (startServer_config c) fun _ => startServers_config c n

theorem evaluateGroup_config (c : ServerGroupConfigProto) :
    Keeps env (On fun g _ => g.config = c) evaluateGroup := by
  refine Keeps.bind (quiet_removeDeadServers.keeps c) fun _ =>
    Keeps.bind (quiet_evaluateRestartingServers.keeps c) fun _ =>
      Keeps.bind (quiet_getGroup.keeps c) fun g => .ite (fun _ => .pure fun _ hw => hw) fun _ => ?_
  refine Keeps.bind ((quiet_countServers _).keeps c) fun counts => .ite (fun _ => ?_) fun _ =>
    .ite (fun _ => (quiet_stopIdle _ _).keeps c) fun _ => .pure fun _ hw => hw
  exact startServers_config c _

theorem start_config (c : ServerGroupConfigProto) :
    Keeps env (On fun g _ => g.config = c) start := by
  refine Keeps.bind (quiet_getGroup.keeps c) fun g => .ite (fun _ => ?_) fun _ => .pure fun _ hw => hw
  refine Keeps.bind (setGroup_config ?_ c) fun _ => startServers_config c _
  exact fun _ => rfl

theorem stop_config (c : ServerGroupConfigProto) (level : KillLevel) :
    Keeps env (On fun g _ => g.config = c) (stop level) := by
  refine Keeps.bind (quiet_getGroup.keeps c) fun g => .ite (fun _ => .throw fun _ hw => hw) fun _ => ?_
  refine Keeps.bind (setGroup_config ?_ c) fun _ =>
    Keeps.bind ((quiet_stopActiveServers level).keeps c) fun _ => evaluateGroup_config c
  exact fun _ => rfl

theorem tryRegisterServer_config (c : ServerGroupConfigProto) (serverId : ℕ) :
    Keeps env (On fun g _ => g.config = c) (tryRegisterServer serverId) := by
  refine Keeps.bind (quiet_getGroup.keeps c) fun g => .ite (fun _ => .throw fun _ hw => hw) fun _ => ?_
  split
  · refine Keeps.bind (keeps_ask _) fun _ => Keeps.bind (setGroup_config ?_ c) fun _ =>
      .pure fun _ hw => hw
    exact fun _ => rfl
  · exact .pure fun _ hw => hw

theorem quiet_tryGetAvailableServer (dbName : Text) : Quiet (tryGetAvailableServer dbName) :=
  quiet_getGroup.bind fun _ => (quiet_askBool _).bind fun _ => .ite (quiet_findAvailable _ _) (.pure _)

end ServerGroupImpl

namespace Method

open ServerGroupImpl

variable {env : Environment} {w : World} {m : Method}

/-- **The configuration stays checked.** -/
theorem call_checked (h : Checked w.group.config) : Checked (m.call env w).group.config := by
  have hkeep : ∀ {α : Type} {x : Op α}, Keeps env (On fun g _ => g.config = w.group.config) x →
      Checked (exec x env { w with calls := 0 }).2.group.config := by
    intro α x hx
    have hsame : (exec x env { w with calls := 0 }).2.group.config = w.group.config :=
      hx.exec (s := { w with calls := 0 }) rfl
    rw [hsame]
    exact h
  cases m with
  | start => exact hkeep (start_config _)
  | stop level => exact hkeep (stop_config _ level)
  | tryRegisterServer serverId => exact hkeep (tryRegisterServer_config _ serverId)
  | evaluateServerGroup => exact hkeep (evaluateGroup_config _)
  | tryGetAvailableServer dbName => exact hkeep ((quiet_tryGetAvailableServer dbName).keeps _)
  | changeGroupConfig value =>
    cases hstopped : w.group.stopped with
    | false =>
      have hrun : (exec (ServerGroupImpl.changeGroupConfig value) env { w with calls := 0 }).2 =
          { w with calls := 0 } := by
        simp [ServerGroupImpl.changeGroupConfig, getGroup, exec_bind, hstopped]
      rw [call, hrun]
      exact h
    | true =>
      have hconfig := (exec_changeGroupConfig env value (w := { w with calls := 0 }) rfl hstopped rfl).1
      rw [call, hconfig]
      exact h.merge value

/-! ## What a call throws -/

theorem thrownBy_eq_some {α : Type} {r : Except GroupException α × World} {e : GroupException}
    (h : thrownBy r = some e) : r = (.error e, r.2) := by
  obtain ⟨_ | a, w'⟩ := r
  · cases h
    rfl
  · cases h

/-- The exceptions of the configuration are not about ports that are used up. -/
theorem validateAndInit_ne_capacityReached {config : ServerGroupConfigProto} {e : GroupException}
    (h : config.validateAndInit.1 = .error e) : e ≠ capacityReached := by
  simp only [ServerGroupConfigProto.validateAndInit] at h
  split_ifs at h <;> cases h <;> rintro ⟨⟩

/-- The group that `stop` evaluates. -/
theorem stopActiveServers_prepared {level : KillLevel} {w₁ : World} (hk : On Kept w)
    (hsafe : (stop level).Safe env w)
    (hrun : exec (stopActiveServers level) env
      { w with group := { w.group with stopped := true }, calls := 0 } = (.ok (), w₁)) :
    On (Sound env) w₁ ∧ w₁.group.config = w.group.config := by
  have hsound : On (Sound env) { w with group := { w.group with stopped := true }, calls := 0 } :=
    ⟨hk.ports, hk.lifetime, hk.fresh, .inl rfl⟩
  have h₁ := (stopActiveServers_sound hsafe.1 hsafe.2).exec hsound
  have q₁ := (quiet_stopActiveServers level env
    { w with group := { w.group with stopped := true }, calls := 0 }).1
  rw [hrun] at h₁ q₁
  exact ⟨h₁, q₁⟩

theorem tryRegisterServer_ne_capacityReached {serverId : ℕ} {w' : World} {e : GroupException}
    (hrun : exec (ServerGroupImpl.tryRegisterServer serverId) env w = (.error e, w')) :
    e ≠ capacityReached := by
  obtain hget | ⟨g, w₁, hget, hrun⟩ := exec_bind_error hrun
  · exact quiet_getGroup.ne_capacityReached hget
  split at hrun
  · rw [← Except.error.inj (Prod.mk.inj hrun).1]
    decide
  · split at hrun
    · refine Quiet.ne_capacityReached ?_ hrun
      exact (quiet_ask _).bind fun _ => (quiet_setGroup fun _ => rfl).bind fun _ => .pure _
    · cases (Prod.mk.inj hrun).1

theorem changeGroupConfig_ne_capacityReached {value : ServerGroupConfigProto} {w' : World}
    {e : GroupException}
    (hrun : exec (ServerGroupImpl.changeGroupConfig value) env w = (.error e, w')) :
    e ≠ capacityReached := by
  obtain hget | ⟨g, w₁, hget, hrun⟩ := exec_bind_error hrun
  · exact quiet_getGroup.ne_capacityReached hget
  split at hrun
  · rw [← Except.error.inj (Prod.mk.inj hrun).1]
    decide
  · rcases hvalid : (g.config.merge value).validateAndInit with ⟨e' | u, config⟩
    · rw [hvalid] at hrun
      obtain hset | ⟨u, w₂, hset, hrun⟩ := exec_bind_error hrun
      · cases (Prod.mk.inj hset).1
      · rw [← Except.error.inj (Prod.mk.inj hrun).1]
        exact validateAndInit_ne_capacityReached (congrArg Prod.fst hvalid)
    · rw [hvalid] at hrun
      obtain hset | ⟨u, w₂, hset, hrun⟩ := exec_bind_error hrun
      · cases (Prod.mk.inj hset).1
      · refine Quiet.ne_capacityReached ?_ hrun
        have hports : Quiet (if value.ports.isEmpty = true then pure ()
            else setGroup fun g => { g with availablePorts := config.portSet }) :=
          .ite (.pure _) (quiet_setGroup fun _ => rfl)
        refine .ite ((quiet_ask _).bind fun _ => (quiet_ask _).bind fun _ => ?_) hports
        exact .bind (quiet_setGroup fun _ => rfl) fun _ => hports

/-- **A call of a group with exact bookkeeping finds a port for each server it starts.** -/
theorem thrown_ne_capacityReached (hk : On Kept w) (hc : Checked w.group.config) (hsafe : m.Safe env w)
    (hroom : m.HasRoom w) : m.thrown env w ≠ some capacityReached := by
  intro hthrown
  cases m with
  | start =>
    obtain hget | ⟨g, w₁, hget, hrun⟩ := exec_bind_error (thrownBy_eq_some hthrown)
    · exact quiet_getGroup.ne_capacityReached hget rfl
    obtain ⟨hg, rfl⟩ := Prod.mk.inj hget
    obtain rfl := Except.ok.inj hg
    split at hrun
    · next hstopped =>
      obtain hset | ⟨u, w₂, hset, hrun⟩ := exec_bind_error hrun
      · cases (Prod.mk.inj hset).1
      · obtain ⟨-, rfl⟩ := Prod.mk.inj hset
        have hcard := card_available hk.ports hc.counted
        have hports : w.group.config.minAliveServerNo.getD 0 + w.group.listed ≤
            w.group.config.ports.length := hroom hstopped
        refine startServers_room (?_ : w.group.config.minAliveServerNo.getD 0 ≤ _) hrun rfl
        change _ ≤ w.group.availablePorts.card
        omega
    · cases (Prod.mk.inj hrun).1
  | stop level =>
    obtain hget | ⟨g, w₁, hget, hrun⟩ := exec_bind_error (thrownBy_eq_some hthrown)
    · exact quiet_getGroup.ne_capacityReached hget rfl
    obtain ⟨-, rfl⟩ := Prod.mk.inj hget
    split at hrun
    · exact absurd (Except.error.inj (Prod.mk.inj hrun).1) (by decide)
    · obtain hset | ⟨u, w₂, hset, hrun⟩ := exec_bind_error hrun
      · cases (Prod.mk.inj hset).1
      obtain ⟨-, rfl⟩ := Prod.mk.inj hset
      obtain hstop | ⟨u, w₂, hstop, hrun⟩ := exec_bind_error hrun
      · exact (quiet_stopActiveServers level).ne_capacityReached hstop rfl
      · obtain ⟨hsound, hconfig⟩ := stopActiveServers_prepared hk hsafe hstop
        exact evaluateGroup_room hsound (hconfig ▸ hc.counted) hrun rfl
  | tryRegisterServer serverId =>
    exact tryRegisterServer_ne_capacityReached (thrownBy_eq_some hthrown) rfl
  | evaluateServerGroup =>
    exact evaluateGroup_room (w := { w with calls := 0 }) (Kept.sound hk (.inr hsafe)) hc.counted
      (thrownBy_eq_some hthrown) rfl
  | tryGetAvailableServer dbName =>
    exact (quiet_tryGetAvailableServer dbName).ne_capacityReached (thrownBy_eq_some hthrown) rfl
  | changeGroupConfig value =>
    exact changeGroupConfig_ne_capacityReached (thrownBy_eq_some hthrown) rfl

theorem subtractionOf_eq_some {r : Except GroupException (Option (ℕ × ℕ × ℕ)) × World} {ports listed : ℕ}
    (h : subtractionOf r = some (ports, listed)) : ∃ wanted, r = (.ok (some (wanted, ports, listed)), r.2) := by
  obtain ⟨e | o, w'⟩ := r
  · cases h
  · rcases o with _ | ⟨wanted, operands⟩
    · cases h
    · cases h
      exact ⟨wanted, rfl⟩

/-- **A call of a group with exact bookkeeping subtracts no more than there is.** -/
theorem listed_le_ports (hk : On Kept w) (hc : Checked w.group.config) (hsafe : m.Safe env w)
    {ports listed : ℕ} (h : m.subtraction env w = some (ports, listed)) : listed ≤ ports := by
  cases m with
  | start => cases h
  | tryRegisterServer serverId => cases h
  | tryGetAvailableServer dbName => cases h
  | changeGroupConfig value => cases h
  | stop level =>
    obtain ⟨wanted, hrun⟩ := subtractionOf_eq_some h
    obtain ⟨g, w₁, hget, hrun⟩ := exec_bind_ok hrun
    obtain ⟨-, rfl⟩ := Prod.mk.inj hget
    split at hrun
    · cases (Prod.mk.inj hrun).1
    · obtain ⟨u, w₂, hset, hrun⟩ := exec_bind_ok hrun
      obtain ⟨-, rfl⟩ := Prod.mk.inj hset
      obtain ⟨u, w₂, hstop, hrun⟩ := exec_bind_ok hrun
      obtain ⟨hsound, hconfig⟩ := stopActiveServers_prepared hk hsafe hstop
      exact evaluateUpToSubtraction_room hsound (hconfig ▸ hc.counted) hrun
  | evaluateServerGroup =>
    obtain ⟨wanted, hrun⟩ := subtractionOf_eq_some h
    exact evaluateUpToSubtraction_room (w := { w with calls := 0 }) (Kept.sound hk (.inr hsafe))
      hc.counted hrun

end Method

/-! ## Runs -/

open ServerGroupImpl

theorem construct_checked {config : ServerGroupConfigProto} {g : ServerGroupImpl}
    (h : construct config = some g) : Checked g.config := by
  have hvalid : config.validateAndInit.1.isOk = true → Checked config.validateAndInit.2 := by
    intro hok
    refine checked_validateAndInit ?_ ?_ ?_ ?_ <;>
      · by_contra hno
        simp only [ServerGroupConfigProto.validateAndInit] at hok
        split_ifs at hok <;> simp_all [Except.isOk, Except.toBool]
  rw [construct] at h
  split at h
  · cases h
  · next config' hv =>
    cases h
    rw [hv] at hvalid
    exact hvalid rfl

/-- The condition on a call. -/
def Method.Within (env : Environment) (w : World) (m : Method) : Prop := m.Safe env w ∧ m.HasRoom w

/-- **In a run where the ports are booked exactly and `start` finds room, no call asks for a port that is
not there**, and the subtraction of `evaluateGroup` does not wrap around. -/
theorem server_group_never_short {config : ServerGroupConfigProto} {w : World}
    (hlife : 0 ≤ config.startingServerLifetime.getD 0) (hrun : GroupRun Method.Within config w)
    {env : Environment} {m : Method} (hm : m.Within env w) :
    m.thrown env w ≠ some capacityReached ∧
      ∀ ports listed, m.subtraction env w = some (ports, listed) → listed ≤ ports := by
  have hkept : On Kept w ∧ Checked w.group.config := by
    clear hm
    induction hrun with
    | construct h => exact ⟨construct_kept hlife h, construct_checked h⟩
    | call env m _ hwithin ih => exact ⟨Method.call_kept ih.1 hwithin.1, Method.call_checked ih.2⟩
  exact ⟨Method.thrown_ne_capacityReached hkept.1 hkept.2 hm.1 hm.2,
    fun _ _ h => Method.listed_le_ports hkept.1 hkept.2 hm.1 h⟩

/-- One server is started and the other one is not there yet. -/
def oneStarting : World := Method.start.call (fun _ _ => some 1) { group := twoPortsGroup }

/-- Nothing is expired, alive, free or available, and the factory creates servers. -/
def onlyCreates : Environment
  | .createServer, _ => some 1
  | _, _ => some 0

/-- The server registers and dies; the next evaluation has one of two ports to subtract. -/
theorem server_group_never_short_twoPorts :
    GroupRun Method.Within twoPorts oneStarting ∧
      Method.evaluateServerGroup.subtraction onlyCreates oneStarting = some (2, 1) ∧
      Method.evaluateServerGroup.thrown onlyCreates oneStarting ≠ some capacityReached ∧
      ∀ ports listed, Method.evaluateServerGroup.subtraction onlyCreates oneStarting =
        some (ports, listed) → listed ≤ ports := by
  have hrun : GroupRun Method.Within twoPorts oneStarting :=
    .call (fun _ _ => some 1) .start (.construct construct_twoPorts)
      ⟨fun _ => Option.some_ne_none 1, fun _ => by decide⟩
  exact ⟨hrun, by decide +kernel, server_group_never_short (by decide) hrun
    ⟨fun _ => Option.some_ne_none 1, trivial⟩⟩

/-! ## A restart with servers listed -/

/-- Two ports and two servers that are kept alive, each to be restarted after one session. -/
def twoAlive : ServerGroupConfigProto :=
  { twoPorts with minAliveServerNo := some 2, countdown := some 1 }

/-- A new port instead of the old ones. -/
def otherPort : ServerGroupConfigProto := { ports := [2002], minAliveServerNo := some 1 }

/-- All servers are alive and had a session, and none is free or available. -/
def busyServers : Environment
  | .isAlive, _ => some 1
  | .createServer, _ => some 1
  | .startProcess, _ => some 1
  | .registerServer, _ => some 1
  | .getTotalSessionNo, _ => some 1
  | _, _ => some 0

/-- Both servers register and are to be restarted, but busy; the group is stopped, which does not look at
them, and changed and started while they are listed. -/
def softRestart : List Method :=
  [.start, .tryRegisterServer 0, .tryRegisterServer 1, .evaluateServerGroup, .stop .none,
    .changeGroupConfig otherPort, .start]

/-- The state after some calls. -/
def afterCalls (w : World) (ms : List Method) : World := ms.foldl (Method.call busyServers) w

theorem run_afterCalls {config : ServerGroupConfigProto} {w : World}
    (h : GroupRun (fun _ _ _ => True) config w) (ms : List Method) :
    GroupRun (fun _ _ _ => True) config (afterCalls w ms) := by
  induction ms generalizing w with
  | nil => exact h
  | cons m ms ih => exact ih (.call busyServers m h trivial)

/-- **The next evaluation subtracts three servers from one port** and starts one without a port. -/
theorem soft_restart_short :
    (¬ ∀ w, GroupRun (fun _ _ _ => True) twoAlive w → ∀ env (m : Method),
      m.thrown env w ≠ some capacityReached) ∧
    ¬ ∀ w, GroupRun (fun _ _ _ => True) twoAlive w → ∀ env (m : Method) ports listed,
      m.subtraction env w = some (ports, listed) → listed ≤ ports := by
  have hconstruct : construct twoAlive = some
      { twoPortsGroup with
        config := { twoPortsGroup.config with minAliveServerNo := some 2, countdown := some 1 } } := by
    decide +kernel
  have hrun := run_afterCalls (.construct hconstruct) softRestart
  constructor
  · intro h
    exact h _ hrun busyServers .evaluateServerGroup (by decide +kernel)
  · intro h
    exact absurd (h _ hrun busyServers .evaluateServerGroup 1 3 (by decide +kernel)) (by decide)

end Rasdaman
