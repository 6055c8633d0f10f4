import Rasdaman.Rasmgr.RasControlTrace

/-!
# Rasmgr/ControlCommandExecutor — running rascontrol commands

`executeCommand` checks whether the user may run a command and then parses it with the grammar, whose
actions are the execution.  The check classifies the text by prefix rules of its own.  What `RasControl`
does is left open; it is only told apart whether an operation changes something.
-/

namespace Rasdaman

open Peg Registers RasControlGrammar
open Peg.Parser hiding lit opt act char uint int permutation

/-! ## Users and RasControl -/

/-- A `User`. -/
structure User where
  name : Text
  password : Text
  adminRights : AdminRight → Bool

/-- `tryGetUser` and the comparison of the password. -/
def tryLogin (users : List User) (userName password : Text) : Option User :=
  (users.find? (·.name == userName)).filter (·.password == password)

/-- `hasInfoRights` and its siblings. -/
def hasRight (ρ : AdminRight) (users : List User) (userName password : Text) : Bool :=
  (tryLogin users userName password).any (·.adminRights ρ)

def hasInfoRights := hasRight .info

def hasConfigRights := hasRight .systemConfig

def hasUserAdminRights := hasRight .accessControl

def hasServerAdminRights := hasRight .serverAdmin

def isValidUser (users : List User) (userName password : Text) : Bool :=
  (tryLogin users userName password).isSome

/-- A user with that name and password exists and holds the right. -/
def Authorized (users : List User) (userName password : Text) (ρ : AdminRight) : Prop :=
  ∃ u ∈ users, u.name = userName ∧ u.password = password ∧ u.adminRights ρ = true

theorem authorized_of_hasRight {ρ : AdminRight} {users : List User} {userName password : Text}
    (h : hasRight ρ users userName password = true) : Authorized users userName password ρ := by
  rw [hasRight, Option.any_eq_true] at h
  obtain ⟨u, hu, hρ⟩ := h
  rw [tryLogin, Option.filter_eq_some_iff] at hu
  obtain ⟨hfind, hpass⟩ := hu
  exact ⟨u, List.mem_of_find?_eq_some hfind, by simpa using List.find?_some hfind,
    by simpa using hpass, hρ⟩

/-- `RasControl` with the managers behind it in a state `R`: what an operation does and answers.
Operations without a right change nothing. -/
structure RasControl (R : Type) where
  users : R → List User
  perform : RasControlCall → R → R
  answer : RasControlCall → R → Text
  readOnly : ∀ c r, c.right = none → perform c r = r

/-! ## The executor -/

variable {R : Type}

/-- The grammar's members and the state behind `RasControl`. -/
structure ExecutorState (R : Type) where
  members : GrammarMembers
  state : R

/-- What came of a command: the operations it executed, the state they left and the answer. -/
structure Execution (R : Type) where
  after : ExecutorState R
  calls : List RasControlCall
  accepted : Bool
  resultMessage : Text

/-- The operations one after the other, with the last answer. -/
def RasControl.run (rc : RasControl R) (r : R) (calls : List RasControlCall) : R × Text :=
  calls.foldl (fun s c => (rc.perform c s.1, rc.answer c s.1)) (r, [])

/-- `sudoExecuteCommand`. -/
def sudoExecuteCommand (rc : RasControl R) (s : ExecutorState R) (command : Text) : Execution R :=
  let parsed := start.phraseParse command
  let made := calls parsed.1 s.members
  let done := rc.run s.state made
  let accepted := parsed.2 == some []
  { after := ⟨after parsed.1 s.members, done.1⟩
    calls := made
    accepted := accepted
    resultMessage := if accepted then done.2 else "Could not execute command.".toList }

/-- `canRunCommand`, with the operation that the check for a login command executes. -/
def canRunCommand (users : List User) (userName password command : Text) :
    List RasControlCall × Bool :=
  if isInfoCommand command then ([], hasInfoRights users userName password)
  else if isServerAdminCommand command then ([], hasServerAdminRights users userName password)
  else if isUserAdminCommand command then ([], hasUserAdminRights users userName password)
  else if isSystemConfigCommand command then ([], hasConfigRights users userName password)
  else if isLoginCommand command then ([.login], isValidUser users userName password)
  else ([], true)

/-- `executeCommand`. -/
def executeCommand (rc : RasControl R) (s : ExecutorState R) (command userName password : Text) :
    Execution R :=
  let check := canRunCommand (rc.users s.state) userName password command
  let checked := rc.run s.state check.1
  if check.2 then
    let e := sudoExecuteCommand rc { s with state := checked.1 } command
    { e with calls := check.1 ++ e.calls }
  else
    { after := { s with state := checked.1 }
      calls := check.1
      accepted := false
      resultMessage := "The user is not authorized to run this command.".toList }

/-! ## Rejected commands -/

/-- A command that calls `RasControl`: any but `help` without a topic. -/
def completeCommand : Rule Unit := actingRules <|> (lit "help" >> helpTopics)

/-- Nothing but blanks or a comment. -/
def Trailing (rest : Text) : Prop := skip rest = [] ∨ Starts "#" rest

theorem completeCommand_decisive : Decisive (fun a => a.isCall = true) completeCommand :=
  actingRules_acting.decisive.alt (helpTable_sound.acting (k := "help")).decisive

/-- `commandRule` does what `completeCommand` does, and matches where that one matches. -/
theorem commandRule_run (inp : Text) :
    (commandRule.run inp).1 = (completeCommand.run inp).1 ∧
      ∀ r, (completeCommand.run inp).2 = some r → (commandRule.run inp).2 = some r := by
  rw [commandRule, completeCommand, alt_run, alt_run]
  rcases actingRules.run inp with ⟨t, _ | r⟩
  · rw [helpSubRule, seq_run, seq_run]
    rcases (lit "help").run inp with ⟨t', _ | ⟨x, mid⟩⟩
    · exact ⟨rfl, fun r h => by cases h⟩
    · refine ⟨rfl, fun r h => ?_⟩
      simp only [opt] at h ⊢
      rw [Parser.opt]
      simp only [h]
  · exact ⟨rfl, fun r h => h⟩

/-- After an optional comment nothing is left, or there was no comment. -/
theorem skip_opt_comment (rest : Text) : ∃ rest',
    ((opt commentRule).run rest).2 = some ((), rest') ∧ (skip rest' = [] ↔ Trailing rest) := by
  refine ⟨_, rfl, ?_⟩
  by_cases hs : Starts "#" rest
  · obtain ⟨mid, hmid⟩ := hs
    obtain ⟨rest', hrest', hskip⟩ := star_any_run (A := RasAction) mid
    have hrun : (commentRule.run rest).2 = some ((), rest') := by
      rw [commentRule, seq_run]
      simp only [RasControlGrammar.lit, Parser.lit, strip_eq_some.mpr hmid, Option.map_some]
      exact hrest'
    simp only [hrun]
    exact iff_of_true hskip (.inr ⟨mid, hmid⟩)
  · have hrun : (commentRule.run rest).2 = none := by
      rw [commentRule, (led_lit "#").seq rest hs]
    simp only [hrun, Trailing]
    exact (or_iff_left hs).symm

/-- What is left of a text after its command. -/
def afterCommand (command : Text) : Text :=
  match (commandRule.run command).2 with
  | some (_, rest) => rest
  | none => command

theorem start_run (command : Text) : start.run command =
    ((commandRule.run command).1 ++ ((opt commentRule).run (afterCommand command)).1,
      ((opt commentRule).run (afterCommand command)).2) := by
  have hopt : (opt commandRule).run command
      = ((commandRule.run command).1, some ((), afterCommand command)) := by
    rw [afterCommand]
    simp only [opt, Parser.opt]
    rcases (commandRule.run command).2 with _ | ⟨x, rest⟩ <;> rfl
  rw [start, seq_run, hopt]

/-- **A text is accepted when nothing but blanks or a comment follows the command.** -/
theorem accepted_iff (rc : RasControl R) (s : ExecutorState R) (command : Text) :
    (sudoExecuteCommand rc s command).accepted = true ↔ Trailing (afterCommand command) := by
  obtain ⟨rest', hrest', hiff⟩ := skip_opt_comment (afterCommand command)
  have hparsed : (start.phraseParse command).2 = some (skip rest') := by
    rw [phraseParse, start_run]
    simp only [hrest', Option.map_some]
  rw [← hiff, sudoExecuteCommand]
  simp only [hparsed, beq_iff_eq, Option.some.injEq]

theorem start_trace (command : Text) : (start.phraseParse command).1 = (commandRule.run command).1 := by
  have hcomment : ((opt commentRule).run (afterCommand command)).1 = [] :=
    List.eq_nil_iff_forall_not_mem.mpr fun a ha =>
      (Emits.seq (emits_lit (P := fun _ => False) "#") emits_anyChars).all _ a ha
  rw [phraseParse, start_run]
  simp only [hcomment, List.append_nil]

/-- **`RasControl` is called exactly when a complete command starts the text.** -/
theorem calls_eq_nil_iff_complete (rc : RasControl R) (s : ExecutorState R) (command : Text) :
    (sudoExecuteCommand rc s command).calls = [] ↔ (completeCommand.run command).2 = none := by
  have htrace := (start_trace command).trans (commandRule_run command).1
  rw [sudoExecuteCommand]
  simp only [htrace]
  rw [calls_eq_nil_iff, ← Option.not_isSome_iff_eq_none, ← completeCommand_decisive command]
  simp [Silent]

/-- **A rejected text has no effect, exactly when it does not begin with a complete command followed
by something else.**  Otherwise the command has been executed before the text is rejected. -/
theorem rejected_command_no_effect (rc : RasControl R) (s : ExecutorState R) (command : Text) :
    ((sudoExecuteCommand rc s command).accepted = false →
      (sudoExecuteCommand rc s command).calls = [] ∧
      (sudoExecuteCommand rc s command).after.state = s.state) ↔
    ∀ rest, (completeCommand.run command).2 = some ((), rest) → Trailing rest := by
  have hafter : ∀ rest, (completeCommand.run command).2 = some ((), rest) →
      afterCommand command = rest := fun rest h => by
    rw [afterCommand, (commandRule_run command).2 _ h]
  constructor
  · intro hclean rest hrest
    by_contra htrail
    rw [← hafter rest hrest, ← accepted_iff rc s, Bool.not_eq_true] at htrail
    have hnone := (calls_eq_nil_iff_complete rc s command).mp (hclean htrail).1
    rw [hnone] at hrest
    cases hrest
  · intro hcond hrejected
    have hcalls : (sudoExecuteCommand rc s command).calls = [] := by
      rw [calls_eq_nil_iff_complete]
      by_contra hsome
      obtain ⟨⟨⟨⟩, rest⟩, hrest⟩ := Option.ne_none_iff_exists'.mp hsome
      have htrail := hcond rest hrest
      rw [← hafter rest hrest, ← accepted_iff rc s, hrejected] at htrail
      cases htrail
    refine ⟨hcalls, ?_⟩
    have hstate : (sudoExecuteCommand rc s command).after.state
        = (rc.run s.state (sudoExecuteCommand rc s command).calls).1 := rfl
    rw [hstate, hcalls]
    rfl

/-- A `RasControl` without users that counts how often it saved. -/
def savesCounted : RasControl ℕ where
  users _ := []
  perform c n := if c = .save then n + 1 else n
  answer _ _ := []
  readOnly c n hc := if_neg fun h => by
    rw [h] at hc
    cases hc

/-- `save foo` is rejected, and has saved. -/
theorem rejected_save_executed :
    let e := sudoExecuteCommand savesCounted ⟨Member.cleared, 0⟩ "save foo".toList
    e.resultMessage = "Could not execute command.".toList ∧ e.calls = [.save] ∧ e.after.state = 1 := by
  decide +kernel

end Rasdaman
