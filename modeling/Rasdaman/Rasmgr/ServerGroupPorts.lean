import Rasdaman.Machinery.Pool
import Rasdaman.Rasmgr.ServerGroupImpl

/-!
# Rasmgr/ServerGroupPorts — every port is available or has one server

The ports of a group are a pool (`Pool.Partitions`): the available ones are free, the servers in the
three containers hold the others.  Every method keeps the pool exact as long as creating a server
does not throw, stopping a server that is then dropped from its list does not throw, and a change of
the ports finds no server listed and goes through (`Method.Safe`).
-/

namespace Rasdaman

open Effect Pool

namespace ServerGroupImpl

/-! ## Assertions -/

/-- The available ports and those of the three given lists are exactly the configured ones, and no
port belongs to two servers. -/
def Exact (st ru re : List Server) (g : ServerGroupImpl) : Prop :=
  Partitions g.config.portSet g.availablePorts ((st ++ ru ++ re).map (·.port))

/-- **The port bookkeeping of a group.** -/
def PortsExact (g : ServerGroupImpl) : Prop :=
  g.Exact g.startingServers g.runningServers g.restartingServers

/-- The bookkeeping in the middle of a move, with what the start of a server relies on.  A stopped
group starts none. -/
structure Books (env : Environment) (st ru re : List Server) (g : ServerGroupImpl) (u : ℕ) :
    Prop where
  ports : g.Exact st ru re
  lifetime : 0 ≤ g.config.startingServerLifetime.getD 0
  fresh : ∀ s ∈ g.startingServers, s.serverId < u
  creates : g.stopped = true ∨ ∀ k, env .createServer k ≠ none

/-- The bookkeeping between two moves. -/
def Sound (env : Environment) (g : ServerGroupImpl) (u : ℕ) : Prop :=
  Books env g.startingServers g.runningServers g.restartingServers g u

/-- An assertion that does not look at the call counter. -/
def On (P : ServerGroupImpl → ℕ → Prop) (w : World) : Prop := P w.group w.uuids

section Rules

variable {env : Environment} {P Q : ServerGroupImpl → ℕ → Prop} {E : World → Prop} {α : Type}

theorem exec_ask (c : Call) (w : World) : exec (ask c) env w = (match env c w.calls with
    | some r => .ok r
    | none => .error .external, { w with calls := w.calls + 1 }) := by
  simp only [ask, exec_bind, exec_get, exec_set, exec_read]
  rcases env c w.calls with _ | r <;> rfl

theorem keeps_ask (c : Call) : Keeps env (On P) (ask c) := by
  intro w hw
  rw [exec_ask]
  rcases env c w.calls with _ | r <;> exact hw

/-- A call that never throws. -/
theorem ask_returns {c : Call} (hc : ∀ k, env c k ≠ none) :
    Triple env (On P) (ask c) (fun _ => On P) fun _ => False := by
  intro w hw
  rw [exec_ask]
  rcases hreply : env c w.calls with _ | r
  · exact hc _ hreply
  · exact hw

theorem keeps_askBool (c : Call) : Keeps env (On P) (askBool c) :=
  .bind (keeps_ask c) fun _ => .pure fun _ hw => hw

theorem getGroup_bind {f : ServerGroupImpl → Op α} {R : α → World → Prop}
    (hf : ∀ g u, P g u → Triple env (On fun g' u' => P g' u' ∧ g' = g) (f g) R E) :
    Triple env (On P) (getGroup >>= f) R E := by
  intro w hw
  have hrun : exec (getGroup >>= f) env w = exec (f w.group) env w := by
    simp only [getGroup, exec_bind, exec_get, exec_pure]
  rw [hrun]
  exact hf w.group w.uuids hw w ⟨hw, rfl⟩

theorem triple_setGroup {f : ServerGroupImpl → ServerGroupImpl}
    (hf : ∀ g u, P g u → Q (f g) u) :
    Triple env (On P) (setGroup f) (fun _ => On Q) E :=
  .modify fun w hw => hf w.group w.uuids hw

end Rules

/-! ## Moves -/

variable {env : Environment} {st ru re st' ru' re' : List Server} {g : ServerGroupImpl} {u : ℕ}
  {server : Server}

/-- A server taken out of a list of lists. -/
theorem perm_drop {l l' : List Server} (server : Server) (a b : List Server) (hl : l = a ++ server :: b)
    (hl' : l' = a ++ b) : l.Perm (server :: l') := by
  subst hl hl'
  exact List.perm_middle

/-- The servers are listed elsewhere and the ports stay as they are. -/
theorem Books.perm {g' : ServerGroupImpl} (h : Books env st ru re g u)
    (hp : (st ++ ru ++ re).Perm (st' ++ ru' ++ re')) (hc : g'.config = g.config)
    (ha : g'.availablePorts = g.availablePorts)
    (hfresh : ∀ s ∈ g'.startingServers, s.serverId < u) (hs : g'.stopped = g.stopped) :
    Books env st' ru' re' g' u where
  ports := by
    rw [Exact, hc, ha]
    exact Partitions.perm h.ports (hp.map _)
  lifetime := hc ▸ h.lifetime
  fresh := hfresh
  creates := hs ▸ h.creates

/-- A server leaves its list and its port becomes available. -/
theorem Books.release {g' : ServerGroupImpl} (h : Books env st ru re g u)
    (hp : (st ++ ru ++ re).Perm (server :: (st' ++ ru' ++ re'))) (hc : g'.config = g.config)
    (ha : g'.availablePorts = insert server.port g.availablePorts)
    (hfresh : ∀ s ∈ g'.startingServers, s.serverId < u) (hs : g'.stopped = g.stopped) :
    Books env st' ru' re' g' u where
  ports := by
    rw [Exact, hc, ha]
    exact Partitions.release (Partitions.perm h.ports (hp.map _))
  lifetime := hc ▸ h.lifetime
  fresh := hfresh
  creates := hs ▸ h.creates

/-- The end of the three loops that drop a server: its port is returned and its list shortened. -/
theorem triple_drop {P : ServerGroupImpl → ℕ → Prop} {Q : Bool → ServerGroupImpl → ℕ → Prop}
    {E : World → Prop} {f : ServerGroupImpl → ServerGroupImpl}
    (h : ∀ g u, P g u →
      Q true (f { g with availablePorts := insert server.port g.availablePorts }) u) :
    Triple env (On P)
      (do
        insertPort server
        setGroup f
        pure true)
      (fun r => On (Q r)) E := by
  refine .bind (Q := fun _ => On fun g u => Q true (f g) u) (triple_setGroup h) fun _ => ?_
  refine .bind (Q := fun _ => On (Q true)) (triple_setGroup fun _ _ hq => hq) fun _ => ?_
  exact .pure fun _ hw => hw

/-! ## Dead servers -/

/-- The loops over a list erase the element at the iterator or pass it by. -/
def atIterator (kept : List Server) (server : Server) (rest : List Server) (erased : Bool) :
    List Server :=
  if erased then kept ++ rest else kept ++ server :: rest

theorem atIterator_false (kept rest : List Server) (server : Server) :
    atIterator kept server rest false = kept ++ [server] ++ rest := by simp [atIterator]

theorem removeDeadRunning_sound (rest : List Server) : ∀ kept valid,
    Triple env (On fun g u => Sound env g u ∧ g.runningServers = kept ++ rest)
      (removeDeadRunning kept valid rest) (fun _ => On (Sound env)) (On (Sound env)) := by
  induction rest with
  | nil => exact fun kept valid => .pure fun _ hw => hw.1
  | cons server rest ih =>
    intro kept valid
    rw [removeDeadRunning]
    refine .bind (Q := fun erased => On fun g u =>
      Sound env g u ∧ g.runningServers = atIterator kept server rest erased) ?_ fun erased => ?_
    · refine .tryCatch (F := On fun g u => Sound env g u ∧ g.runningServers = kept ++ server :: rest)
        ?_ fun _ => .pure fun _ hw => hw
      refine .bind (keeps_askBool _) fun alive => .ite (fun _ => .pure fun _ hw => hw) fun _ => ?_
      refine .bind (keeps_ask _) fun _ => triple_drop fun g u ⟨hs, hg⟩ => ⟨?_, rfl⟩
      refine Books.release hs (perm_drop server (g.startingServers ++ kept) (rest ++ g.restartingServers)
        ?_ ?_) rfl rfl hs.fresh rfl
      · simp [hg]
      · simp
    · cases erased with
      | true => exact ih kept false
      | false =>
        refine (ih (kept ++ [server]) true).conseq (fun w hw => ?_) (fun _ _ h => h) fun _ h => h
        exact ⟨hw.1, hw.2.trans (atIterator_false ..)⟩

theorem removeExpiredStarting_sound (valid : Bool) (rest : List Server) : ∀ kept,
    Triple env (On fun g u => Sound env g u ∧ g.startingServers = kept ++ rest)
      (removeExpiredStarting valid kept rest) (fun _ => On (Sound env)) (On (Sound env)) := by
  induction rest with
  | nil => exact fun kept => .pure fun _ hw => hw.1
  | cons server rest ih =>
    intro kept
    rw [removeExpiredStarting]
    refine .bind (Q := fun erased => On fun g u =>
      Sound env g u ∧ g.startingServers = atIterator kept server rest erased) ?_ fun erased => ?_
    · refine .tryCatch (F := On fun g u => Sound env g u ∧ g.startingServers = kept ++ server :: rest)
        ?_ fun _ => .ite (fun _ => .pure fun _ hw => hw) fun _ => .throw fun _ hw => hw.1
      refine .bind (keeps_askBool _) fun expired => .ite (fun _ => ?_) fun _ => .pure fun _ hw => hw
      refine .bind (keeps_ask _) fun _ => triple_drop fun g u ⟨hs, hg⟩ => ⟨?_, rfl⟩
      refine Books.release hs (perm_drop server kept (rest ++ g.runningServers ++ g.restartingServers)
        ?_ ?_) rfl rfl (fun s hmem => hs.fresh s ?_) rfl
      · simp [hg]
      · simp
      · rw [hg]
        exact ((List.sublist_cons_self server rest).append_left kept).subset hmem
    · cases erased with
      | true => exact ih kept
      | false =>
        refine (ih (kept ++ [server])).conseq (fun w hw => ?_) (fun _ _ h => h) fun _ h => h
        exact ⟨hw.1, hw.2.trans (atIterator_false ..)⟩

theorem removeDeadServers_sound : Keeps env (On (Sound env)) removeDeadServers := by
  refine getGroup_bind fun g u hg => .bind (Q := fun _ => On (Sound env)) ?_ fun _ => ?_
  · exact (removeDeadRunning_sound g.runningServers [] false).conseq
      (fun w hw => ⟨hw.1, congrArg runningServers hw.2⟩) (fun _ _ h => h) fun _ h => h
  · refine getGroup_bind fun g u hg => ?_
    exact (removeExpiredStarting_sound _ g.startingServers []).conseq
      (fun w hw => ⟨hw.1, congrArg startingServers hw.2⟩) (fun _ _ h => h) fun _ h => h

/-! ## Restarting servers -/

theorem collectRestarting_sound (countdown : ℕ) (rest : List Server) : ∀ kept,
    Triple env (On fun g u => Sound env g u ∧ g.runningServers = kept ++ rest)
      (collectRestarting countdown kept rest) (fun _ => On (Sound env)) (On (Sound env)) := by
  induction rest with
  | nil => exact fun kept => .pure fun _ hw => hw.1
  | cons server rest ih =>
    intro kept
    rw [collectRestarting]
    refine .bind (Q := fun _ => On fun g u => Sound env g u ∧ g.runningServers = kept ++ server :: rest)
      ((keeps_ask _).conseq (fun _ h => h) (fun _ _ h => h) fun _ h => h.1) fun sessions =>
      .ite (fun _ => ?_) fun _ => ?_
    · refine .bind (triple_setGroup fun g u ⟨hs, hg⟩ => ⟨?_, rfl⟩) fun _ => ih kept
      refine Books.perm hs (List.Perm.trans (perm_drop server (g.startingServers ++ kept)
        (rest ++ g.restartingServers) ?_ rfl) ?_) rfl rfl hs.fresh rfl
      · simp [hg]
      · refine (List.perm_append_singleton ..).symm.trans (List.Perm.of_eq ?_)
        simp
    · refine (ih (kept ++ [server])).conseq (fun w hw => ⟨hw.1, hw.2.trans ?_⟩) (fun _ _ h => h)
        fun _ h => h
      simp

theorem killRestarting_sound (rest : List Server) : ∀ kept,
    Triple env (On fun g u => Sound env g u ∧ g.restartingServers = kept ++ rest)
      (killRestarting kept rest) (fun _ => On (Sound env)) (On (Sound env)) := by
  induction rest with
  | nil => exact fun kept => .pure fun _ hw => hw.1
  | cons server rest ih =>
    intro kept
    have hpass : Triple env
        (On fun g u => Sound env g u ∧ g.restartingServers = atIterator kept server rest false)
        (killRestarting (kept ++ [server]) rest) (fun _ => On (Sound env)) (On (Sound env)) :=
      (ih (kept ++ [server])).conseq (fun w hw => ⟨hw.1, hw.2.trans (atIterator_false ..)⟩)
        (fun _ _ h => h) fun _ h => h
    rw [killRestarting]
    refine .bind (Q := fun _ => On fun g u =>
        Sound env g u ∧ g.restartingServers = kept ++ server :: rest)
      ((keeps_askBool _).conseq (fun _ h => h) (fun _ _ h => h) fun _ h => h.1) fun free =>
      .ite (fun _ => ?_) fun _ => hpass
    refine .bind (Q := fun erased => On fun g u =>
      Sound env g u ∧ g.restartingServers = atIterator kept server rest erased) ?_ fun erased => ?_
    · refine .tryCatch (F := On fun g u =>
        Sound env g u ∧ g.restartingServers = kept ++ server :: rest) ?_ fun _ => .pure fun _ hw => hw
      refine .bind (keeps_ask _) fun _ => triple_drop fun g u ⟨hs, hg⟩ => ⟨?_, rfl⟩
      refine Books.release hs (perm_drop server (g.startingServers ++ g.runningServers ++ kept) rest
        ?_ ?_) rfl rfl hs.fresh rfl
      · simp [hg]
      · simp
    · cases erased with
      | true => exact ih kept
      | false => exact hpass

theorem evaluateRestartingServers_sound : Keeps env (On (Sound env)) evaluateRestartingServers := by
  refine getGroup_bind fun g u hg => .ite (fun _ => ?_) fun _ => .pure fun _ hw => hw.1
  refine .bind (Q := fun _ => On (Sound env)) ?_ fun _ => ?_
  · exact (collectRestarting_sound _ g.runningServers []).conseq
      (fun w hw => ⟨hw.1, congrArg runningServers hw.2⟩) (fun _ _ h => h) fun _ h => h
  · refine getGroup_bind fun g u hg => ?_
    exact (killRestarting_sound g.restartingServers []).conseq
      (fun w hw => ⟨hw.1, congrArg restartingServers hw.2⟩) (fun _ _ h => h) fun _ h => h

/-! ## Starting servers -/

/-- A port taken from the pool for a server that is not listed yet. -/
structure Reserved (port : ℤ) (g : ServerGroupImpl) (u : ℕ) : Prop where
  ports : Partitions g.config.portSet g.availablePorts
    (port :: (g.startingServers ++ g.runningServers ++ g.restartingServers).map (·.port))
  lifetime : 0 ≤ g.config.startingServerLifetime.getD 0
  fresh : ∀ s ∈ g.startingServers, s.serverId < u

theorem createServer_reserved {port : ℤ} (hc : ∀ k, env .createServer k ≠ none) :
    Triple env (On (Reserved port)) (createServer port)
      (fun server => On fun g u => Reserved port g u ∧ server.port = port ∧ server.serverId < u ∧
        ∀ s ∈ g.startingServers, s.serverId ≠ server.serverId)
      (On (Sound env)) := by
  refine .bind ((ask_returns hc).conseq (fun _ h => h) (fun _ _ h => h) fun _ h => h.elim)
    fun _ => ?_
  intro w hw
  simp only [exec_bind, exec_get, exec_set, exec_pure]
  have hfresh : ∀ s ∈ w.group.startingServers, s.serverId < w.uuids := hw.fresh
  exact ⟨⟨hw.ports, hw.lifetime, fun s hs => Nat.lt_succ_of_lt (hfresh s hs)⟩, trivial,
    Nat.lt_succ_self _, fun s hs => (hfresh s hs).ne⟩

theorem insertStarting_sound {port : ℤ} {server : Server} (hc : ∀ k, env .createServer k ≠ none) :
    Triple env
      (On fun g u => Reserved port g u ∧ server.port = port ∧ server.serverId < u ∧
        ∀ s ∈ g.startingServers, s.serverId ≠ server.serverId)
      (insertStarting server) (fun _ => On (Sound env)) (On (Sound env)) := by
  refine triple_setGroup fun g u ⟨hr, hport, hlt, hnew⟩ => ?_
  have hany : ¬(g.startingServers.any (·.serverId == server.serverId)) = true := by
    simpa using hnew
  rw [if_neg hany]
  refine ⟨Partitions.perm hr.ports ?_, hr.lifetime, fun s hs => ?_, .inr hc⟩
  · rw [← hport, ← List.map_cons]
    exact ((perm_drop server g.startingServers (g.runningServers ++ g.restartingServers) (by simp)
      (by simp)).symm).map _
  · rcases List.mem_append.mp hs with hs | hs
    · exact hr.fresh s hs
    · rw [List.mem_singleton.mp hs]
      exact hlt

/-- **Starting a server moves one port**, provided that the factory does not throw. -/
theorem startServer_sound (hc : ∀ k, env .createServer k ≠ none) :
    Keeps env (On (Sound env)) startServer := by
  refine getGroup_bind fun g u hg => ?_
  split
  case isFalse => exact .throw fun _ hw => hw.1
  case isTrue hne =>
    have hlife : ¬g.config.startingServerLifetime.getD 0 < 0 := not_lt.mpr hg.lifetime
    refine .bind (triple_setGroup (Q := Reserved (g.availablePorts.min' hne)) ?_) fun _ => ?_
    · rintro g' u ⟨hs, rfl⟩
      exact ⟨hs.ports.acquire (Finset.min'_mem _ hne), hs.lifetime, hs.fresh⟩
    refine .bind (createServer_reserved hc) fun server => ?_
    rw [if_neg hlife]
    exact .bind (insertStarting_sound hc) fun _ => .bind (keeps_ask _) fun _ => .pure fun _ hw => hw

theorem startServers_sound (hc : ∀ k, env .createServer k ≠ none) :
    ∀ n, Keeps env (On (Sound env)) (startServers n)
  | 0 => .pure fun _ hw => hw
  | n + 1 => .bind (startServer_sound hc) fun _ => startServers_sound hc n

/-! ## Evaluating the group -/

theorem countServers_keeps {P : ServerGroupImpl → ℕ → Prop} :
    ∀ l, Keeps env (On P) (countServers l)
  | [] => .pure fun _ hw => hw
  | _ :: rest => by
    refine Keeps.bind (keeps_askBool _) fun free => .ite (fun _ => ?_) fun _ => ?_
    · exact Keeps.bind (countServers_keeps rest) fun _ => .pure fun _ hw => hw
    · refine Keeps.bind (keeps_askBool _) fun usable => ?_
      exact Keeps.bind (countServers_keeps rest) fun _ => .pure fun _ hw => hw

theorem stopIdle_keeps {P : ServerGroupImpl → ℕ → Prop} :
    ∀ n l, Keeps env (On P) (stopIdle n l)
  | 0, _ => by
    rw [stopIdle]
    exact .pure fun _ hw => hw
  | _ + 1, [] => .pure fun _ hw => hw
  | n + 1, _ :: rest => by
    refine Keeps.bind (keeps_askBool _) fun free => .ite (fun _ => ?_) fun _ => ?_
    · exact Keeps.bind (keeps_ask _) fun _ => stopIdle_keeps n rest
    · exact stopIdle_keeps (n + 1) rest

theorem evaluateGroup_sound :
    Keeps env (On (Sound env)) evaluateGroup := by
  refine Keeps.bind removeDeadServers_sound fun _ =>
    Keeps.bind evaluateRestartingServers_sound fun _ => ?_
  refine getGroup_bind fun g u hg => ?_
  refine Triple.conseq (R := On (Sound env)) ?_ (fun _ hw => hw.1) (fun _ _ h => h) fun _ h => h
  refine .ite (fun _ => .pure fun _ hw => hw) fun hrunning => ?_
  have hc := hg.creates.resolve_left hrunning
  refine Keeps.bind (countServers_keeps _) fun counts => .ite (fun _ => ?_) fun _ => .ite (fun _ => ?_)
    fun _ => .pure fun _ hw => hw
  · exact startServers_sound hc _
  · exact stopIdle_keeps _ _

/-! ## Stopping servers -/

theorem stopRunning_keeps {level : KillLevel} (hl : level ≠ .kill)
    {P : ServerGroupImpl → ℕ → Prop} : ∀ l, Keeps env (On P) (stopRunning level l)
  | [] => .pure fun _ hw => hw
  | _ :: rest => by
    refine Keeps.bind (.tryCatch (F := On P) ?_ fun _ => .pure fun _ hw => hw)
      fun _ => stopRunning_keeps hl rest
    refine Keeps.bind (keeps_ask _) fun _ => ?_
    rw [if_neg hl]
    exact .pure fun _ hw => hw

/-- A stop that does not throw returns the port. -/
theorem stop_insertPort {c : Call} (hc : ∀ k, env c k ≠ none) {P Q : ServerGroupImpl → ℕ → Prop}
    {E : World → Prop}
    (h : ∀ g u, P g u → Q { g with availablePorts := insert server.port g.availablePorts } u) :
    Triple env (On P)
      (tryCatch
        (do
          let _ ← ask c
          insertPort server)
        fun _ => pure ())
      (fun _ => On Q) E :=
  .tryCatch (F := fun _ => False) (.bind (ask_returns hc) fun _ => triple_setGroup h)
    fun _ _ hfalse => hfalse.elim

/-- Killed servers are still listed, but their ports are available. -/
theorem stopRunning_kill (hk : ∀ k, env .stopRunning k ≠ none) : ∀ rest,
    Triple env (On fun g u => Books env g.startingServers rest g.restartingServers g u)
      (stopRunning .kill rest)
      (fun _ => On fun g u => Books env g.startingServers [] g.restartingServers g u)
      (On (Sound env))
  | [] => .pure fun _ hw => hw
  | server :: rest => by
    simp only [stopRunning, ↓reduceIte]
    refine .bind (stop_insertPort hk fun g u hb => ?_) fun _ => stopRunning_kill hk rest
    exact hb.release (perm_drop server g.startingServers (rest ++ g.restartingServers) (by simp)
      (by simp)) rfl rfl hb.fresh rfl

theorem stopStarting_kill (hk : ∀ k, env .stopStarting k ≠ none) : ∀ rest,
    Triple env (On fun g u => Books env rest g.runningServers g.restartingServers g u)
      (stopStarting rest)
      (fun _ => On fun g u => Books env [] g.runningServers g.restartingServers g u)
      (On (Sound env))
  | [] => .pure fun _ hw => hw
  | server :: rest => by
    rw [stopStarting]
    refine .bind (stop_insertPort hk fun g u hb => ?_) fun _ => stopStarting_kill hk rest
    exact hb.release (List.Perm.refl _) rfl rfl hb.fresh rfl

/-- **Stopping the active servers returns their ports**, provided that no server that is dropped
from its list fails to stop. -/
theorem stopActiveServers_sound {level : KillLevel} (hst : ∀ k, env .stopStarting k ≠ none)
    (hru : level = .kill → ∀ k, env .stopRunning k ≠ none) :
    Keeps env (On (Sound env)) (stopActiveServers level) := by
  have hstarting : Keeps env (On (Sound env)) (do
      let g ← getGroup
      stopStarting g.startingServers
      setGroup fun g => { g with startingServers := [] }) := by
    refine getGroup_bind fun g u _ => ?_
    refine .bind (((stopStarting_kill hst g.startingServers).conseq (fun w hw => ?_) fun _ _ h => h)
      fun _ h => h) fun _ => triple_setGroup fun g u hb => ?_
    · obtain ⟨hs, hg⟩ := hw
      rw [← hg]
      exact hs
    · exact ⟨hb.ports, hb.lifetime, fun s hs => absurd hs List.not_mem_nil, hb.creates⟩
  refine getGroup_bind fun g u _ => ?_
  by_cases hl : level = .kill
  · subst hl
    simp only [↓reduceIte]
    refine .bind (((stopRunning_kill (hru rfl) g.runningServers).conseq (fun w hw => ?_)
      fun _ _ h => h) fun _ h => h) fun _ => ?_
    · obtain ⟨hs, hg⟩ := hw
      rw [← hg]
      exact hs
    · refine .bind (Q := fun _ => On (Sound env)) (triple_setGroup fun g u hb => ?_)
        fun _ => hstarting
      exact ⟨hb.ports, hb.lifetime, hb.fresh, hb.creates⟩
  · simp only [if_neg hl]
    refine .bind (Q := fun _ => On (Sound env)) ((stopRunning_keeps hl (P := Sound env) _).conseq
      (fun _ hw => hw.1) (fun _ _ h => h) fun _ h => h) fun _ => ?_
    exact hstarting

/-! ## The methods -/

/-- What holds of the group between two calls. -/
structure Kept (g : ServerGroupImpl) (u : ℕ) : Prop where
  ports : g.PortsExact
  lifetime : 0 ≤ g.config.startingServerLifetime.getD 0
  fresh : ∀ s ∈ g.startingServers, s.serverId < u

theorem Sound.kept (h : Sound env g u) : Kept g u := ⟨h.ports, h.lifetime, h.fresh⟩

theorem Kept.sound (h : Kept g u) (hc : g.stopped = true ∨ ∀ k, env .createServer k ≠ none) :
    Sound env g u :=
  ⟨h.ports, h.lifetime, h.fresh, hc⟩

theorem kept_of_sound {α : Type} {x : Op α} (h : Keeps env (On (Sound env)) x)
    (hc : ∀ k, env .createServer k ≠ none) : Keeps env (On Kept) x :=
  Triple.conseq h (fun _ hw => hw.sound (.inr hc)) (fun _ _ hw => hw.kept) fun _ hw => hw.kept

theorem start_kept (hc : ∀ k, env .createServer k ≠ none) : Keeps env (On Kept) start := by
  refine getGroup_bind fun g u _ => .ite (fun _ => ?_) fun _ => .pure fun _ hw => hw.1
  refine .bind (Q := fun _ => On Kept) (triple_setGroup fun g u hs => ?_) fun _ =>
    kept_of_sound (startServers_sound hc _) hc
  exact ⟨hs.1.ports, hs.1.lifetime, hs.1.fresh⟩

theorem stop_kept {level : KillLevel} (hst : ∀ k, env .stopStarting k ≠ none)
    (hru : level = .kill → ∀ k, env .stopRunning k ≠ none) :
    Keeps env (On Kept) (stop level) := by
  refine getGroup_bind fun g u _ => .ite (fun _ => .throw fun _ hw => hw.1) fun _ => ?_
  refine .bind (Q := fun _ => On (Sound env)) (triple_setGroup fun g u hs => ?_) fun _ => ?_
  · exact ⟨hs.1.ports, hs.1.lifetime, hs.1.fresh, .inl rfl⟩
  · exact Triple.conseq (Keeps.bind (stopActiveServers_sound hst hru) fun _ => evaluateGroup_sound)
      (fun _ h => h) (fun _ _ hw => hw.kept) fun _ hw => hw.kept

theorem tryRegisterServer_kept (serverId : ℕ) : Keeps env (On Kept) (tryRegisterServer serverId) := by
  refine getGroup_bind fun g u _ => .ite (fun _ => .throw fun _ hw => hw.1) fun _ => ?_
  split
  case h_2 => exact .pure fun _ hw => hw.1
  case h_1 server hfind =>
    have hmem : server ∈ g.startingServers := List.mem_of_find?_eq_some hfind
    refine .bind ((keeps_ask _).conseq (fun _ h => h) (fun _ _ h => h) fun _ hw => hw.1) fun _ => ?_
    refine .bind (Q := fun _ => On Kept) (triple_setGroup ?_) fun _ => .pure fun _ hw => hw
    rintro g u ⟨hk, rfl⟩
    refine ⟨Partitions.perm hk.ports (List.Perm.map _ ?_), hk.lifetime, fun s hs =>
      hk.fresh s (List.mem_of_mem_erase hs)⟩
    have hout := ((List.perm_cons_erase hmem).append_right g.runningServers).append_right
      g.restartingServers
    refine hout.trans (perm_drop server (g.startingServers.erase server ++ g.runningServers)
      g.restartingServers ?_ ?_).symm
    · simp
    · simp

theorem findAvailable_kept (rest : List Server) : ∀ kept,
    Triple env (On fun g u => Kept g u ∧ g.runningServers = kept ++ rest)
      (findAvailable kept rest) (fun _ => On Kept) (On Kept) := by
  induction rest with
  | nil => exact fun kept => .pure fun _ hw => hw.1
  | cons server rest ih =>
    intro kept
    rw [findAvailable]
    refine .bind (Q := fun _ => On fun g u => Kept g u ∧ g.runningServers = kept ++ server :: rest)
      ((keeps_askBool _).conseq (fun _ h => h) (fun _ _ h => h) fun _ hw => hw.1) fun _ =>
      .ite (fun _ => ?_) fun _ => ?_
    · refine .bind (Q := fun _ => On Kept) (triple_setGroup fun g u ⟨hk, hg⟩ => ?_)
        fun _ => .pure fun _ hw => hw
      refine ⟨Partitions.perm hk.ports (List.Perm.map _ ?_), hk.lifetime, hk.fresh⟩
      refine (perm_drop server (g.startingServers ++ kept) (rest ++ g.restartingServers) ?_ rfl).trans
        (perm_drop server (g.startingServers ++ kept ++ rest) g.restartingServers ?_ ?_).symm
      · simp [hg]
      · simp
      · simp
    · refine (ih (kept ++ [server])).conseq (fun w hw => ⟨hw.1, hw.2.trans ?_⟩) (fun _ _ h => h)
        fun _ h => h
      simp

theorem tryGetAvailableServer_kept (dbName : Text) :
    Keeps env (On Kept) (tryGetAvailableServer dbName) := by
  refine getGroup_bind fun g u _ => ?_
  refine .bind ((keeps_askBool _).conseq (fun _ h => h) (fun _ _ h => h) fun _ hw => hw.1)
    fun _ => .ite (fun _ => ?_) fun _ => .pure fun _ hw => hw.1
  exact (findAvailable_kept g.runningServers []).conseq
    (fun w hw => ⟨hw.1, congrArg runningServers hw.2⟩) (fun _ _ h => h) fun _ h => h

/-! ## Changing the configuration -/

theorem portSet_uniquePorts (config : ServerGroupConfigProto) :
    config.uniquePorts.portSet = config.portSet := by
  ext p
  simp only [ServerGroupConfigProto.uniquePorts, ServerGroupConfigProto.portSet, List.mem_toFinset,
    List.mem_map, List.map_map, List.mem_insertionSort, List.mem_dedup, Function.comp_apply,
    toInt32_toUInt32]
  constructor
  · rintro ⟨q, ⟨r, hr, rfl⟩, rfl⟩
    exact ⟨r, hr, (toInt32_toInt32 r).symm⟩
  · rintro ⟨r, hr, rfl⟩
    exact ⟨toInt32 r, ⟨r, hr, rfl⟩, toInt32_toInt32 r⟩

/-- Whatever `validateAndInitConfig` finds, it leaves the set of ports as it was. -/
theorem portSet_validateAndInit (config : ServerGroupConfigProto) :
    config.validateAndInit.2.portSet = config.portSet := by
  simp only [ServerGroupConfigProto.validateAndInit]
  split_ifs <;> first | rfl | exact portSet_uniquePorts config

theorem lifetime_validateAndInit {config : ServerGroupConfigProto}
    (h : 0 ≤ config.startingServerLifetime.getD 0) :
    0 ≤ config.validateAndInit.2.startingServerLifetime.getD 0 := by
  have hinit : 0 ≤ config.uniquePorts.initDefaults.startingServerLifetime.getD 0 := by
    rcases hl : config.startingServerLifetime with _ | l <;> rw [hl] at h
    · simp [ServerGroupConfigProto.initDefaults, ServerGroupConfigProto.uniquePorts, hl]
    · simpa [ServerGroupConfigProto.initDefaults, ServerGroupConfigProto.uniquePorts, hl] using h
  simp only [ServerGroupConfigProto.validateAndInit]
  split_ifs <;> first | exact h | exact hinit

theorem portSet_merge (config value : ServerGroupConfigProto) :
    (config.merge value).portSet = if value.ports.isEmpty then config.portSet else value.portSet := by
  simp only [ServerGroupConfigProto.portSet, ServerGroupConfigProto.merge]
  split <;> rfl

/-- The new configuration passes its checks and its database host, if it names one, is found. -/
def Accepts (env : Environment) (g : ServerGroupImpl) (value : ServerGroupConfigProto) : Prop :=
  (g.config.merge value).validateAndInit.1.isOk = true ∧
    (value.dbHost.isSome = true →
      env .decreaseServerCount 0 ≠ none ∧ env .getAndLockDatabaseHost 1 ≠ none)

/-- When `changeGroupConfig` keeps the bookkeeping: the group runs, so that nothing is changed; the
ports are not changed; they are, and no server is listed and the change goes through; or the change
fails and the ports are the configured ones. -/
def ChangesSafely (env : Environment) (g : ServerGroupImpl) (value : ServerGroupConfigProto) : Prop :=
  g.stopped = false ∨ value.ports = [] ∨
    (Accepts env g value ∧ g.startingServers = [] ∧ g.runningServers = [] ∧
      g.restartingServers = []) ∨
    (¬Accepts env g value ∧ value.portSet = g.config.portSet)

theorem exec_changeGroupConfig (env : Environment) (value : ServerGroupConfigProto) {w w' : World}
    (hcalls : w.calls = 0)
    (hstopped : w.group.stopped = true) (hw : (exec (changeGroupConfig value) env w).2 = w') :
    w'.group.config = (w.group.config.merge value).validateAndInit.2 ∧
    w'.group.startingServers = w.group.startingServers ∧
    w'.group.runningServers = w.group.runningServers ∧
    w'.group.restartingServers = w.group.restartingServers ∧ w'.uuids = w.uuids ∧
    (Accepts env w.group value → value.ports ≠ [] →
      w'.group.availablePorts = (w.group.config.merge value).validateAndInit.2.portSet) ∧
    (¬Accepts env w.group value ∨ value.ports = [] →
      w'.group.availablePorts = w.group.availablePorts) := by
  rcases hv : (w.group.config.merge value).validateAndInit with ⟨e | _, config⟩
  · have hrun : exec (changeGroupConfig value) env w
        = (.error e, { w with group := { w.group with config := config } }) := by
      simp only [changeGroupConfig, getGroup, setGroup, exec_bind, exec_get, exec_pure,
        hstopped, not_true_eq_false, if_false, hv, exec_modify, exec_throw]
    subst hw
    simp [hrun, Accepts, hv, Except.isOk, Except.toBool]
  · subst hw
    simp only [changeGroupConfig, getGroup, setGroup, exec_bind, exec_get, exec_pure, hstopped,
      not_true_eq_false, if_false, hv, exec_modify, Accepts, Except.isOk, Except.toBool, true_and]
    rcases hd : value.dbHost with _ | host
    · cases hp : value.ports <;> simp
    · rcases he : env .decreaseServerCount 0 with _ | r <;>
        rcases he' : env .getAndLockDatabaseHost 1 with _ | r' <;>
        cases hp : value.ports <;> simp [exec_bind, exec_ask, hcalls, he, he']

theorem changeGroupConfig_kept {value : ServerGroupConfigProto} {w : World} (hcalls : w.calls = 0)
    (hk : On Kept w) (hsafe : ChangesSafely env w.group value) :
    On Kept (exec (changeGroupConfig value) env w).2 := by
  cases hstopped : w.group.stopped with
  | false =>
    have hrun : (exec (changeGroupConfig value) env w).2 = w := by
      simp [changeGroupConfig, getGroup, exec_bind, hstopped]
    rwa [hrun]
  | true =>
    obtain ⟨hc, hst, hru, hre, hu, hnew, hold⟩ :=
      exec_changeGroupConfig env value hcalls hstopped rfl
    have hset := (congrArg ServerGroupConfigProto.portSet hc).trans
      ((portSet_validateAndInit _).trans (portSet_merge ..))
    refine ⟨?_, ?_, ?_⟩
    · rw [PortsExact, Exact, hst, hru, hre, hset]
      rcases hsafe with h | h | ⟨hacc, h₁, h₂, h₃⟩ | ⟨hrej, hsame⟩
      · exact absurd (hstopped.symm.trans h) (by decide)
      · rw [hold (.inr h), h]
        exact hk.ports
      · by_cases hports : value.ports = []
        · rw [hold (.inr hports), hports]
          exact hk.ports
        · have hset' := (portSet_validateAndInit (w.group.config.merge value)).trans
            (portSet_merge ..)
          rw [hnew hacc hports, hset', h₁, h₂, h₃]
          exact Partitions.start _
      · rw [hold (.inl hrej), hsame, ite_self]
        exact hk.ports
    · rw [hc]
      exact lifetime_validateAndInit hk.lifetime
    · rw [hst, hu]
      exact hk.fresh

end ServerGroupImpl

/-! ## Crashes

The handler of the second loop of `removeDeadServers` reads through the iterator of the first loop, which
is valid where that loop ended on a server that it kept. -/

namespace ServerGroupImpl

/-- The running server that is asked with the `k`-th call is erased as dead. -/
def ErasesDead (env : Environment) (k : ℕ) : Prop :=
  env .isAlive k = some 0 ∧ env .stopDead (k + 1) ≠ none

instance (env : Environment) (k : ℕ) : Decidable (ErasesDead env k) :=
  inferInstanceAs (Decidable (_ ∧ _))

/-- **There is a running server, and the last one is not erased as dead**; the servers are asked from the
`k`-th call on. -/
def LastKept (env : Environment) : ℕ → List Server → Prop
  | _, [] => False
  | k, [_] => ¬ErasesDead env k
  | k, _ :: server :: rest =>
    LastKept env (if env .isAlive k = some 0 then k + 2 else k + 1) (server :: rest)

/-- A computation that does not crash. -/
def Survives {α : Type} (env : Environment) (x : Op α) : Prop := ∀ w, (exec x env w).1 ≠ .error .crash

section Survives

variable {α β : Type} {x y : Op α} {w : World} {kept rest : List Server} {valid : Bool}

theorem Survives.pure (a : α) : Survives env (pure a : Op α) := fun _ => nofun

theorem Survives.throw {e : GroupException} (h : e ≠ .crash) : Survives env (throw e : Op α) :=
  fun _ heq => h (Except.error.inj heq)

theorem Survives.bind {f : α → Op β} (hx : Survives env x) (hf : ∀ a, Survives env (f a)) :
    Survives env (x >>= f) := by
  intro w
  have hfirst := hx w
  rw [exec_bind]
  rcases hrun : exec x env w with ⟨e | a, w'⟩ <;> rw [hrun] at hfirst
  · exact fun heq => hfirst (congrArg Except.error (Except.error.inj heq))
  · exact hf a w'

theorem Survives.tryCatch {handle : GroupException → Op α} (hh : ∀ e, Survives env (handle e)) :
    Survives env (tryCatch x handle) := by
  intro w
  rw [exec_tryCatch]
  rcases exec x env w with ⟨e | a, w'⟩
  · exact hh e w'
  · exact nofun

theorem Survives.ite {c : Prop} [Decidable c] (hx : Survives env x) (hy : Survives env y) :
    Survives env (if c then x else y) := by
  split
  · exact hx
  · exact hy

theorem survives_ask (c : Call) : Survives env (ask c) := by
  intro w
  rw [exec_ask]
  rcases env c w.calls with _ | r <;> nofun

theorem survives_askBool (c : Call) : Survives env (askBool c) := (survives_ask c).bind fun _ => .pure _

theorem survives_getGroup : Survives env getGroup := fun _ => nofun

theorem survives_setGroup (f : ServerGroupImpl → ServerGroupImpl) : Survives env (setGroup f) :=
  fun _ => nofun

theorem survives_collectRestarting (countdown : ℕ) : ∀ rest kept,
    Survives env (collectRestarting countdown kept rest)
  | [], _ => .pure _
  | _ :: rest, _ => (survives_ask _).bind fun _ => .ite
      ((survives_setGroup _).bind fun _ => survives_collectRestarting countdown rest _)
      (survives_collectRestarting countdown rest _)

theorem survives_killRestarting : ∀ rest kept, Survives env (killRestarting kept rest)
  | [], _ => .pure _
  | _ :: rest, _ => (survives_askBool _).bind fun _ => .ite
      (.bind (.tryCatch fun _ => .pure _) fun _ =>
        .ite (survives_killRestarting rest _) (survives_killRestarting rest _))
      (survives_killRestarting rest _)

theorem survives_evaluateRestartingServers : Survives env evaluateRestartingServers :=
  survives_getGroup.bind fun _ => .ite (.bind (survives_collectRestarting _ _ _) fun _ =>
    survives_getGroup.bind fun _ => survives_killRestarting _ _) (.pure _)

theorem survives_countServers : ∀ l, Survives env (countServers l)
  | [] => .pure _
  | _ :: rest => (survives_askBool _).bind fun _ => .ite
      ((survives_countServers rest).bind fun _ => .pure _)
      ((survives_askBool _).bind fun _ => (survives_countServers rest).bind fun _ => .pure _)

theorem survives_stopIdle : ∀ n l, Survives env (stopIdle n l)
  | 0, _ => by
    rw [stopIdle]
    exact .pure _
  | _ + 1, [] => .pure _
  | n + 1, _ :: rest => (survives_askBool _).bind fun _ => .ite
      ((survives_ask _).bind fun _ => survives_stopIdle n rest) (survives_stopIdle (n + 1) rest)

theorem survives_startServer : Survives env startServer := by
  refine survives_getGroup.bind fun g => ?_
  split
  · refine (survives_setGroup _).bind fun _ => .bind ?_ fun _ => .ite (.throw nofun) ?_
    · exact (survives_ask _).bind fun _ => fun _ => nofun
    · exact (survives_setGroup _).bind fun _ => (survives_ask _).bind fun _ => .pure _
  · exact .throw nofun

theorem survives_startServers : ∀ n, Survives env (startServers n)
  | 0 => .pure _
  | n + 1 => survives_startServer.bind fun _ => survives_startServers n

/-- One round of the first loop. -/
theorem exec_eraseDead (env : Environment) (server : Server) (kept rest : List Server)
    (handle : GroupException → Op Bool) (hh : ∀ e, handle e = Pure.pure false)
    (w : World) : ∃ b w',
      exec (tryCatch
        (do
          let alive ← askBool .isAlive
          if alive then Pure.pure false
          else
            let _ ← ask .stopDead
            insertPort server
            setGroup fun g => { g with runningServers := kept ++ rest }
            Pure.pure true) handle) env w = (.ok b, w') ∧
      (b = true ↔ ErasesDead env w.calls) ∧
      w'.calls = if env .isAlive w.calls = some 0 then w.calls + 2 else w.calls + 1 := by
  simp only [exec_tryCatch, askBool, exec_bind, exec_ask, hh]
  rcases halive : env .isAlive w.calls with _ | _ | n
  · exact ⟨false, { w with calls := w.calls + 1 }, rfl, by simp [ErasesDead, halive], rfl⟩
  · simp only [exec_pure, bne_self_eq_false, Bool.false_eq_true, if_false, exec_bind, exec_ask]
    rcases hstop : env .stopDead (w.calls + 1) with _ | r
    · exact ⟨false, { w with calls := w.calls + 1 + 1 }, rfl, by simp [ErasesDead, hstop], rfl⟩
    · exact ⟨true, _, rfl, by simp [ErasesDead, halive, hstop], rfl⟩
  · exact ⟨false, { w with calls := w.calls + 1 }, rfl, by simp [ErasesDead, halive], by simp⟩

/-- The first loop ends, and its iterator is valid where the last server was kept. -/
theorem exec_removeDeadRunning (env : Environment) : ∀ (rest kept : List Server) (valid : Bool) (w : World),
    ∃ b w', exec (removeDeadRunning kept valid rest) env w = (.ok b, w') ∧
      (LastKept env w.calls rest → b = true)
  | [], _, valid, w => ⟨valid, w, rfl, False.elim⟩
  | server :: rest, kept, valid, w => by
    obtain ⟨erased, w₁, hround, herased, hcalls⟩ :=
      exec_eraseDead env server kept rest _ (fun _ => rfl) w
    rw [removeDeadRunning, exec_bind, hround]
    cases erased with
    | true =>
      obtain ⟨b, w', hrun, hlast⟩ := exec_removeDeadRunning env rest kept false w₁
      refine ⟨b, w', hrun, fun h => ?_⟩
      cases rest with
      | nil => exact absurd (herased.mp rfl) h
      | cons next rest => exact hlast (by rwa [hcalls])
    | false =>
      obtain ⟨b, w', hrun, hlast⟩ := exec_removeDeadRunning env rest (kept ++ [server]) true w₁
      refine ⟨b, w', hrun, fun h => ?_⟩
      cases rest with
      | nil =>
        rw [removeDeadRunning, exec_pure] at hrun
        exact (Except.ok.inj (Prod.mk.inj hrun).1).symm
      | cons next rest => exact hlast (by rwa [hcalls])

theorem survives_removeExpiredStarting_of_valid : ∀ rest kept,
    Survives env (removeExpiredStarting true kept rest)
  | [], _ => .pure _
  | _ :: rest, _ => .bind (.tryCatch fun _ => Survives.pure _) fun _ =>
      .ite (survives_removeExpiredStarting_of_valid rest _) (survives_removeExpiredStarting_of_valid rest _)

/-- No timer of a starting server throws, and no `stop` of one that has expired. -/
def StopsExpired (env : Environment) : Prop := ∀ k, env .hasExpired k ≠ none ∧ env .stopExpired k ≠ none

theorem survives_removeExpiredStarting (h : StopsExpired env) : ∀ rest kept,
    Survives env (removeExpiredStarting valid kept rest)
  | [], _ => .pure _
  | server :: rest, kept => by
    rw [removeExpiredStarting]
    refine .bind (fun w => ?_) fun _ =>
      .ite (survives_removeExpiredStarting h rest _) (survives_removeExpiredStarting h rest _)
    obtain ⟨expired, hexpired⟩ := Option.ne_none_iff_exists'.mp (h w.calls).1
    obtain ⟨stopped, hstopped⟩ := Option.ne_none_iff_exists'.mp (h (w.calls + 1)).2
    simp only [exec_tryCatch, askBool, exec_bind, exec_ask, hexpired, exec_pure]
    cases expired with
    | zero => exact nofun
    | succ n =>
      have hset : (n + 1 != 0) = true := rfl
      simp only [hset, if_true, exec_bind, exec_ask, hstopped]
      exact nofun

/-- The first loop does not look at the starting servers. -/
theorem removeDeadRunning_starting (env : Environment) (l : List Server) :
    ∀ (rest kept : List Server) (valid : Bool),
    Keeps env (On fun g _ => g.startingServers = l) (removeDeadRunning kept valid rest)
  | [], _, _ => .pure fun _ hw => hw
  | _ :: rest, _, _ => by
    refine Keeps.bind (.tryCatch ?_ fun _ => .pure fun _ hw => hw) fun _ =>
      .ite (fun _ => removeDeadRunning_starting env l rest _ _)
        fun _ => removeDeadRunning_starting env l rest _ _
    refine Keeps.bind (keeps_askBool _) fun _ => .ite (fun _ => .pure fun _ hw => hw) fun _ => ?_
    exact Keeps.bind (keeps_ask _) fun _ => triple_drop fun _ _ hg => hg

/-- Where the handler of the second loop is safe: no server is starting, or none of those that have
expired fails to stop, or the iterator of the first loop is valid. -/
def HandlerSafe (env : Environment) (k : ℕ) (g : ServerGroupImpl) : Prop :=
  g.startingServers = [] ∨ StopsExpired env ∨ LastKept env k g.runningServers

theorem removeDeadServers_survives (h : HandlerSafe env w.calls w.group) :
    (exec removeDeadServers env w).1 ≠ .error .crash := by
  obtain ⟨b, w₁, hrunning, hlast⟩ := exec_removeDeadRunning env w.group.runningServers [] false w
  have hstarting := (removeDeadRunning_starting env w.group.startingServers
    w.group.runningServers [] false).exec (s := w) rfl
  rw [hrunning] at hstarting
  have hrun : exec removeDeadServers env w =
      exec (removeExpiredStarting b [] w₁.group.startingServers) env w₁ := by
    simp only [removeDeadServers, getGroup, exec_bind, exec_get, exec_pure, hrunning]
  rw [hrun]
  rcases h with hnone | hstops | hkept
  · rw [hstarting, hnone]
    exact nofun
  · exact survives_removeExpiredStarting hstops _ _ w₁
  · rw [hlast hkept]
    exact survives_removeExpiredStarting_of_valid _ _ w₁

/-- **`evaluateGroup` crashes only in that handler.** -/
theorem evaluateGroup_survives (h : HandlerSafe env w.calls w.group) :
    (exec evaluateGroup env w).1 ≠ .error .crash := by
  have hdead := removeDeadServers_survives h
  rw [evaluateGroup, exec_bind]
  rcases hrun : exec removeDeadServers env w with ⟨e | _, w'⟩ <;> rw [hrun] at hdead
  · exact fun heq => hdead (congrArg Except.error (Except.error.inj heq))
  · exact (survives_evaluateRestartingServers.bind fun _ => survives_getGroup.bind fun _ =>
      .ite (.pure _) ((survives_countServers _).bind fun _ => .ite (survives_startServers _)
        (.ite (survives_stopIdle _ _) (.pure _)))) w'

theorem survives_stopRunning (level : KillLevel) : ∀ l, Survives env (stopRunning level l)
  | [] => .pure _
  | _ :: rest => .bind (.tryCatch fun _ => .pure _) fun _ => survives_stopRunning level rest

theorem survives_stopStarting : ∀ l, Survives env (stopStarting l)
  | [] => .pure _
  | _ :: rest => .bind (.tryCatch fun _ => .pure _) fun _ => survives_stopStarting rest

/-- Any computation from any state. -/
theorem triple_true (x : Op α) : Triple env (fun _ => True) x (fun _ _ => True) fun _ => True := by
  intro w _
  rcases exec x env w with ⟨_ | _, _⟩ <;> trivial

/-- The second half of `stopActiveServers` survives, and no server is starting after it. -/
theorem stopStarting_clears (env : Environment) :
    Survives env (do
      let g ← getGroup
      stopStarting g.startingServers
      setGroup fun g => { g with startingServers := [] }) ∧
    Triple env (fun _ => True)
      (do
        let g ← getGroup
        stopStarting g.startingServers
        setGroup fun g => { g with startingServers := [] })
      (fun _ => On fun g _ => g.startingServers = []) fun _ => True :=
  ⟨survives_getGroup.bind fun _ => (survives_stopStarting _).bind fun _ => survives_setGroup _,
    .bind (triple_true _) fun _ => .bind (triple_true _) fun _ => .modify fun _ _ => rfl⟩

theorem stopActiveServers_clears (env : Environment) (level : KillLevel) :
    Survives env (stopActiveServers level) ∧
    Triple env (fun _ => True) (stopActiveServers level)
      (fun _ => On fun g _ => g.startingServers = []) fun _ => True := by
  obtain ⟨hsurvives, hclears⟩ := stopStarting_clears env
  by_cases hl : level = .kill
  · simp only [stopActiveServers, hl, if_true]
    exact ⟨survives_getGroup.bind fun _ => (survives_stopRunning _ _).bind fun _ =>
        (survives_setGroup _).bind fun _ => hsurvives,
      .bind (triple_true _) fun _ => .bind (triple_true _) fun _ => .bind (triple_true _) fun _ => hclears⟩
  · simp only [stopActiveServers, if_neg hl]
    exact ⟨survives_getGroup.bind fun _ => (survives_stopRunning _ _).bind fun _ => hsurvives,
      .bind (triple_true _) fun _ => .bind (triple_true _) fun _ => hclears⟩

theorem stop_survives (level : KillLevel) : Survives env (stop level) := by
  refine survives_getGroup.bind fun g => .ite (.throw nofun) ((survives_setGroup _).bind fun _ w => ?_)
  obtain ⟨hsurvives, hclears⟩ := stopActiveServers_clears env level
  have hstops := hsurvives w
  have hnone := hclears w trivial
  rw [exec_bind]
  rcases hrun : exec (stopActiveServers level) env w with ⟨e | _, w'⟩ <;> rw [hrun] at hstops hnone
  · exact fun heq => hstops (congrArg Except.error (Except.error.inj heq))
  · exact evaluateGroup_survives (.inl hnone)

theorem survives_findAvailable : ∀ rest kept, Survives env (findAvailable kept rest)
  | [], _ => .pure _
  | _ :: rest, _ => (survives_askBool _).bind fun _ => .ite ((survives_setGroup _).bind fun _ => .pure _)
      (survives_findAvailable rest _)

theorem survives_tryRegisterServer (serverId : ℕ) : Survives env (tryRegisterServer serverId) := by
  have hstopped : GroupException.invalidState
      "ServerGroup is already stopped. No new servers can register." ≠ .crash := nofun
  refine survives_getGroup.bind fun g => .ite (.throw hstopped) ?_
  split
  · exact (survives_ask _).bind fun _ => (survives_setGroup _).bind fun _ => .pure _
  · exact .pure _

/-- The checks of a configuration throw no crash. -/
theorem validateAndInit_ne_crash (config : ServerGroupConfigProto) :
    config.validateAndInit.1 ≠ .error .crash := by
  simp only [ServerGroupConfigProto.validateAndInit]
  split_ifs <;> nofun

theorem survives_changeGroupConfig (value : ServerGroupConfigProto) :
    Survives env (changeGroupConfig value) := by
  intro w
  have hchecked := validateAndInit_ne_crash (w.group.config.merge value)
  cases hstopped : w.group.stopped with
  | false => simp [changeGroupConfig, getGroup, exec_bind, hstopped]
  | true =>
    rcases hv : (w.group.config.merge value).validateAndInit with ⟨e | _, config⟩ <;> rw [hv] at hchecked
    · have hrun : (exec (changeGroupConfig value) env w).1 = .error e := by
        simp only [changeGroupConfig, getGroup, setGroup, exec_bind, exec_get, exec_pure, hstopped,
          not_true_eq_false, if_false, hv, exec_modify, exec_throw]
      rwa [hrun]
    · simp only [changeGroupConfig, getGroup, setGroup, exec_bind, exec_get, exec_pure, hstopped,
        not_true_eq_false, if_false, hv, exec_modify]
      rcases value.dbHost with _ | host
      · cases value.ports <;> simp
      · rcases he : env .decreaseServerCount w.calls with _ | r <;>
          rcases he' : env .getAndLockDatabaseHost (w.calls + 1) with _ | r' <;>
          cases value.ports <;> simp [exec_bind, exec_ask, he, he']

end Survives

end ServerGroupImpl

/-! ## Runs -/

open ServerGroupImpl

/-- A call of a method from outside. -/
inductive Method
  | start
  | stop (level : KillLevel)
  | tryRegisterServer (serverId : ℕ)
  | evaluateServerGroup
  | tryGetAvailableServer (dbName : Text)
  | changeGroupConfig (value : ServerGroupConfigProto)

namespace Method

/-- The state a call leaves, whether it returns or throws. -/
def call (env : Environment) (w : World) (m : Method) : World :=
  let w := { w with calls := 0 }
  match m with
  | start => (exec ServerGroupImpl.start env w).2
  | stop level => (exec (ServerGroupImpl.stop level) env w).2
  | tryRegisterServer serverId => (exec (ServerGroupImpl.tryRegisterServer serverId) env w).2
  | evaluateServerGroup => (exec ServerGroupImpl.evaluateServerGroup env w).2
  | tryGetAvailableServer dbName => (exec (ServerGroupImpl.tryGetAvailableServer dbName) env w).2
  | changeGroupConfig value => (exec (ServerGroupImpl.changeGroupConfig value) env w).2

/-- The exception of a computation. -/
def thrownBy {α : Type} : Except GroupException α × World → Option GroupException
  | (.error e, _) => some e
  | (.ok _, _) => none

/-- The exception with which a call ends. -/
def thrown (env : Environment) (w : World) (m : Method) : Option GroupException :=
  let w := { w with calls := 0 }
  match m with
  | start => thrownBy (exec ServerGroupImpl.start env w)
  | stop level => thrownBy (exec (ServerGroupImpl.stop level) env w)
  | tryRegisterServer serverId => thrownBy (exec (ServerGroupImpl.tryRegisterServer serverId) env w)
  | evaluateServerGroup => thrownBy (exec ServerGroupImpl.evaluateServerGroup env w)
  | tryGetAvailableServer dbName => thrownBy (exec (ServerGroupImpl.tryGetAvailableServer dbName) env w)
  | changeGroupConfig value => thrownBy (exec (ServerGroupImpl.changeGroupConfig value) env w)

/-- What the environment must not do during a call, and what the group must allow, for the
bookkeeping to survive. -/
def Safe (env : Environment) (w : World) : Method → Prop
  | start => ∀ k, env .createServer k ≠ none
  | stop level => (∀ k, env .stopStarting k ≠ none) ∧
      (level = .kill → ∀ k, env .stopRunning k ≠ none)
  | tryRegisterServer _ => True
  | evaluateServerGroup => ∀ k, env .createServer k ≠ none
  | tryGetAvailableServer _ => True
  | changeGroupConfig value => ChangesSafely env w.group value

/-- **One call keeps the bookkeeping.** -/
theorem call_kept {env : Environment} {w : World} {m : Method} (hk : On Kept w)
    (hsafe : m.Safe env w) : On Kept (m.call env w) := by
  cases m with
  | start => exact (start_kept hsafe).exec (s := { w with calls := 0 }) hk
  | stop level => exact (stop_kept hsafe.1 hsafe.2).exec (s := { w with calls := 0 }) hk
  | tryRegisterServer id => exact (tryRegisterServer_kept id).exec (s := { w with calls := 0 }) hk
  | evaluateServerGroup =>
    exact (kept_of_sound evaluateGroup_sound hsafe).exec (s := { w with calls := 0 }) hk
  | tryGetAvailableServer db =>
    exact (tryGetAvailableServer_kept db).exec (s := { w with calls := 0 }) hk
  | changeGroupConfig value => exact changeGroupConfig_kept rfl hk hsafe

/-- Where a call does not end the process: `evaluateServerGroup` looks for expired servers, `stop` does so
when none is starting any more. -/
def Survives (env : Environment) (w : World) : Method → Prop
  | evaluateServerGroup => HandlerSafe env 0 w.group
  | _ => True

theorem thrownBy_ne_crash {α : Type} {r : Except GroupException α × World} (h : r.1 ≠ .error .crash) :
    thrownBy r ≠ some .crash := by
  rcases r with ⟨e | a, w⟩
  · exact fun heq => h (congrArg Except.error (Option.some.inj heq))
  · exact nofun

/-- **Such a call does not crash.** -/
theorem thrown_ne_crash {env : Environment} {w : World} {m : Method} (h : m.Survives env w) :
    m.thrown env w ≠ some .crash := by
  cases m with
  | start =>
    refine thrownBy_ne_crash (survives_getGroup.bind (fun _ => .ite ?_ (.pure _)) _)
    exact (survives_setGroup _).bind fun _ => survives_startServers _
  | stop level => exact thrownBy_ne_crash (stop_survives level _)
  | tryRegisterServer serverId =>
    exact thrownBy_ne_crash (survives_tryRegisterServer serverId _)
  | evaluateServerGroup => exact thrownBy_ne_crash (evaluateGroup_survives h)
  | tryGetAvailableServer dbName =>
    exact thrownBy_ne_crash (survives_getGroup.bind (fun _ => (survives_askBool _).bind fun _ =>
      .ite (survives_findAvailable _ _) (.pure _)) _)
  | changeGroupConfig value => exact thrownBy_ne_crash (survives_changeGroupConfig value _)

end Method

/-- The states reached from a constructed group by calls that satisfy `allowed`. -/
inductive GroupRun (allowed : Environment → World → Method → Prop)
    (config : ServerGroupConfigProto) : World → Prop
  | construct {g : ServerGroupImpl} (h : construct config = some g) :
      GroupRun allowed config { group := g }
  | call {w : World} (env : Environment) (m : Method) (hrun : GroupRun allowed config w)
      (h : allowed env w m) : GroupRun allowed config (m.call env w)

theorem construct_kept {config : ServerGroupConfigProto} {g : ServerGroupImpl}
    (hlife : 0 ≤ config.startingServerLifetime.getD 0) (h : construct config = some g) :
    Kept g 0 := by
  rw [construct] at h
  split at h
  case h_1 => cases h
  case h_2 config' hv =>
    have hlife' := lifetime_validateAndInit hlife
    rw [hv] at hlife'
    cases h
    exact ⟨Partitions.start _, hlife', fun s hs => absurd hs List.not_mem_nil⟩

/-- **Ports are never lost or given out twice** in a run of safe calls: in every state the available
ports and the ports of the starting, running and restarting servers are pairwise disjoint and
together are the configured ports. -/
theorem server_group_ports_exact {config : ServerGroupConfigProto} {w : World}
    (hlife : 0 ≤ config.startingServerLifetime.getD 0)
    (hrun : GroupRun (fun env w m => m.Safe env w ∧ m.Survives env w) config w) :
    w.group.PortsExact := by
  have hkept : On Kept w := by
    induction hrun with
    | construct h => exact construct_kept hlife h
    | call env m _ hsafe ih => exact Method.call_kept ih hsafe.1
  exact hkept.ports

/-- A group of two ports. -/
def twoPorts : ServerGroupConfigProto :=
  { name := some "s".toList, host := some "localhost".toList, dbHost := some "dbh".toList, ports := [2000, 2001] }

/-- The group as constructed. -/
def twoPortsGroup : ServerGroupImpl :=
  { config :=
      { name := some "s".toList, host := some "localhost".toList, dbHost := some "dbh".toList, ports := [2000, 2001],
        minAliveServerNo := some 1, minAvailableServerNo := some 1, maxIdleServerNo := some 10,
        autorestart := some true, countdown := some 1000, startingServerLifetime := some 10000 }
    databaseHost := "dbh".toList
    startingServers := []
    runningServers := []
    restartingServers := []
    availablePorts := {2000, 2001}
    stopped := true }

theorem construct_twoPorts : construct twoPorts = some twoPortsGroup := by decide +kernel

theorem server_group_ports_exact_twoPorts :
    (Method.start.call (fun _ _ => some 1) { group := twoPortsGroup }).group.startingServers
      = [⟨0, 2000⟩] ∧
    (Method.start.call (fun _ _ => some 1) { group := twoPortsGroup }).group.PortsExact :=
  ⟨by decide +kernel,
    server_group_ports_exact (by decide) (.call (fun _ _ => some 1) .start
      (.construct construct_twoPorts) ⟨fun _ => Option.some_ne_none 1, trivial⟩)⟩

/-- A factory that throws once costs the group a port: it is neither available nor of any server. -/
theorem port_lost_when_create_throws :
    ¬∀ w, GroupRun (fun _ _ _ => True) twoPorts w → w.group.PortsExact := by
  intro h
  have hexact := (h _ (.call (fun _ _ => none) .start (.construct construct_twoPorts)
    trivial)).exact 2000
  revert hexact
  decide +kernel

end Rasdaman
