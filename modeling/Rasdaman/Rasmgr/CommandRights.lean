import Rasdaman.Rasmgr.ControlCommandExecutor

/-!
# Rasmgr/CommandRights — the check catches every command but `save`

A call that changes something comes from a command of one of the classes of the check (`Needs`).  The
check classifies a text by its first keyword; the keywords do not overlap, so the class it finds is
the one of the call.  The one gap is `systemCommandRule`, which wants at least one more character.
-/

namespace Rasdaman

open Peg Registers RasControlGrammar
open Peg.Parser hiding lit opt act char uint int permutation

/-! ## Keywords -/

/-- The keywords that the check or a change starts with. -/
def keywords : List String := ["save", "define", "change", "remove", "up", "down", "list", "login"]

theorem keywords_prefix_free :
    ∀ k ∈ keywords, ∀ k' ∈ keywords, k.toList <+: k'.toList → k = k' := by
  decide

/-- A text has at most one keyword. -/
theorem starts_unique {k k' : String} {inp : Text} (hk : k ∈ keywords) (hk' : k' ∈ keywords)
    (h : Starts k inp) (h' : Starts k' inp) : k = k' :=
  (h.prefix_or h').elim (keywords_prefix_free k hk k' hk')
    fun hp => (keywords_prefix_free k' hk' k hk hp).symm

/-- What can follow `define`, `change` and `remove` in a command for the configuration. -/
def configTopics : List String := ["srv", "dbh", "db", "inpeer", "outpeer"]

theorem not_starts_user {e : String} {inp : Text} (he : e ∈ configTopics) (h : Starts e inp) :
    ¬Starts "user" inp := fun huser => by
  have hfree : ∀ e ∈ configTopics,
      ¬(e.toList <+: "user".toList ∨ "user".toList <+: e.toList) := by decide
  exact hfree e he (h.prefix_or huser)

/-! ## The classes of the check -/

theorem matchesAll_of_none {p : Rule Unit} {command : Text} (h : (p.run command).2 = none) :
    matchesAll p command = false := by
  rw [matchesAll, phraseParse, h]
  rfl

/-- After a rule any text may follow. -/
theorem matchesAll_anyChars {p : Rule Unit} {command : Text} :
    matchesAll (p >> anyChars) command = true ↔ (p.run command).2.isSome = true := by
  rw [matchesAll, phraseParse, seq_run]
  rcases p.run command with ⟨t, _ | ⟨x, mid⟩⟩
  · exact iff_of_false (by simp) (by simp)
  · obtain ⟨rest, hrest, hskip⟩ := star_any_run (A := RasAction) mid
    refine iff_of_true ?_ rfl
    simp only [hrest, Option.map_some, hskip, beq_self_eq_true]

theorem anyChar_isSome {inp : Text} :
    ((char fun _ => true).run inp).2.isSome = true ↔ skip inp ≠ [] := by
  rw [char_any_run]
  rcases skip inp with _ | ⟨c, cs⟩ <;> simp

/-- One of some keywords. -/
def oneOf (ks : List String) : Rule Unit := choice (ks.map lit)

theorem lit_run_snd {k : String} {inp rest : Text} :
    ((lit k).run inp).2 = some ((), rest) ↔ skip inp = k.toList ++ rest := by
  simp only [RasControlGrammar.lit, Parser.lit, Option.map_eq_some_iff, Prod.mk.injEq, true_and,
    exists_eq_right, strip_eq_some]

/-- The keyword that matches is the one the text starts with. -/
theorem oneOf_run_snd {ks : List String} (hks : ks ⊆ keywords) {inp rest : Text} :
    ((oneOf ks).run inp).2 = some ((), rest) ↔ ∃ k ∈ ks, skip inp = k.toList ++ rest := by
  induction ks with
  | nil => simp [oneOf, choice]
  | cons k ks ih =>
    obtain ⟨hk, hks⟩ := List.cons_subset.mp hks
    rw [oneOf, List.map_cons, choice_run_snd, List.exists_mem_cons_iff]
    rcases hlit : ((lit k).run inp).2 with _ | ⟨⟨⟩, mid⟩
    · have hne : skip inp ≠ k.toList ++ rest := fun h => by
        rw [lit_run_snd.mpr h] at hlit
        cases hlit
      rw [or_iff_right hne]
      exact ih hks
    · have hmid := lit_run_snd.mp hlit
      simp only [Option.orElse_eq_orElse, Option.orElse_some, Option.some.injEq, Prod.mk.injEq,
        true_and]
      constructor
      · rintro rfl
        exact .inl hmid
      · rintro (h | ⟨k', hk', h⟩)
        · exact List.append_cancel_left (hmid.symm.trans h)
        · cases starts_unique hk (hks hk') ⟨mid, hmid⟩ ⟨rest, h⟩
          exact List.append_cancel_left (hmid.symm.trans h)

theorem oneOf_seq_isSome {ks : List String} (hks : ks ⊆ keywords) {q : Rule Unit} {inp : Text} :
    ((oneOf ks >> q).run inp).2.isSome = true ↔
      ∃ k ∈ ks, ∃ rest, skip inp = k.toList ++ rest ∧ (q.run rest).2.isSome = true := by
  have hrun : ∀ rest, ((oneOf ks).run inp).2 = some ((), rest) ↔
      ∃ k ∈ ks, skip inp = k.toList ++ rest := fun _ => oneOf_run_snd hks
  rw [seq_run]
  rcases h : (oneOf ks).run inp with ⟨t, _ | ⟨⟨⟩, mid⟩⟩ <;> simp only [h] at hrun
  · refine iff_of_false (by simp) ?_
    rintro ⟨k, hk, rest, hrest, -⟩
    cases (hrun rest).mpr ⟨k, hk, hrest⟩
  · constructor
    · intro hq
      obtain ⟨k, hk, hmid⟩ := (hrun mid).mp rfl
      exact ⟨k, hk, mid, hmid, hq⟩
    · rintro ⟨k, hk, rest, hrest, hq⟩
      cases (hrun rest).mpr ⟨k, hk, hrest⟩
      exact hq

theorem isInfoCommand_iff {command : Text} : isInfoCommand command = true ↔ Starts "list" command := by
  rw [isInfoCommand, infoCommandRule, matchesAll_anyChars, starts_iff]

theorem isServerAdminCommand_iff {command : Text} :
    isServerAdminCommand command = true ↔ ∃ k ∈ ["up", "down"], Starts k command := by
  have hrun : ∀ rest, ((oneOf ["up", "down"]).run command).2 = some ((), rest) ↔
      ∃ k ∈ ["up", "down"], skip command = k.toList ++ rest := fun _ => oneOf_run_snd (by decide)
  have hkeyword : serverCommandRule = oneOf ["up", "down"] >> anyChars := rfl
  rw [isServerAdminCommand, hkeyword, matchesAll_anyChars, Option.isSome_iff_exists]
  constructor
  · rintro ⟨⟨⟨⟩, rest⟩, h⟩
    obtain ⟨k, hk, hrest⟩ := (hrun rest).mp h
    exact ⟨k, hk, rest, hrest⟩
  · rintro ⟨k, hk, rest, hrest⟩
    exact ⟨((), rest), (hrun rest).mpr ⟨k, hk, hrest⟩⟩

theorem isUserAdminCommand_iff {command : Text} : isUserAdminCommand command = true ↔
    ∃ k ∈ ["define", "change", "remove", "list"], ∃ rest,
      skip command = k.toList ++ rest ∧ Starts "user" rest := by
  have hkeyword : userAdminCommandRule
      = oneOf ["define", "change", "remove", "list"] >> lit "user" >> anyChars := rfl
  rw [isUserAdminCommand, hkeyword, ← andThen_assoc, matchesAll_anyChars,
    oneOf_seq_isSome (by decide)]
  simp only [starts_iff (A := RasAction)]

theorem isSystemConfigCommand_iff {command : Text} : isSystemConfigCommand command = true ↔
    ∃ k ∈ ["define", "change", "remove", "save"], ∃ rest,
      skip command = k.toList ++ rest ∧ skip rest ≠ [] := by
  have hkeyword : systemCommandRule
      = oneOf ["define", "change", "remove", "save"] >> char (fun _ => true) >> anyChars := rfl
  rw [isSystemConfigCommand, hkeyword, ← andThen_assoc, matchesAll_anyChars,
    oneOf_seq_isSome (by decide)]
  simp only [anyChar_isSome]

theorem starts_login_of_isLoginCommand {command : Text} (h : isLoginCommand command = true) :
    Starts "login" command := by
  by_contra hlogin
  rw [isLoginCommand, matchesAll_of_none (by rw [loginRule_command.led command hlogin])] at h
  cases h

/-! ## Commands that change something -/

/-- A text that begins with a command for which the right `ρ` is needed. -/
inductive Needs (command : Text) : AdminRight → Prop
  | save (h : Starts "save" command) : Needs command .systemConfig
  | user {k : String} {rest : Text} (hk : k ∈ ["define", "change", "remove"])
    (hrest : skip command = k.toList ++ rest) (h : Starts "user" rest) : Needs command .accessControl
  | config {k e : String} {rest : Text} (hk : k ∈ ["define", "change", "remove"])
    (hrest : skip command = k.toList ++ rest) (he : e ∈ configTopics) (h : Starts e rest) :
    Needs command .systemConfig
  | server {k : String} (hk : k ∈ ["up", "down"]) (h : Starts k command) : Needs command .serverAdmin

theorem Allowed.right_of_made {ρ : Option AdminRight} {a : RasAction} (h : Allowed ρ a)
    {m : GrammarMembers} {c : RasControlCall} (hc : c ∈ a.made m) : c.right = ρ := by
  cases a with
  | edit r f => exact absurd hc List.not_mem_nil
  | call r f =>
    rw [List.mem_singleton.mp hc]
    exact h (m r)
  | invoke c' =>
    rw [List.mem_singleton.mp hc]
    exact h

section Class

variable {command : Text} {a : RasAction} {m : GrammarMembers} {c : RasControlCall} {ρ : AdminRight}

/-- An action that is allowed for a right, in a text that begins with a command for it. -/
def Classified (command : Text) (a : RasAction) : Prop :=
  ∃ ρ, Allowed ρ a ∧ ∀ ρ', ρ = some ρ' → Needs command ρ'

theorem classified_of_none (h : Allowed none a) : Classified command a :=
  ⟨none, h, fun _ h => by cases h⟩

theorem RasControlGrammar.Table.Sound.classified {k : String} {T : Table} (hT : T.Sound)
    (hneeds : ∀ e ∈ T, ∀ ρ, e.2.1 = some ρ → ∀ rest, skip command = k.toList ++ rest →
      Starts e.1 rest → Needs command ρ)
    (ha : a ∈ ((lit k >> T.rule).run command).1) : Classified command a := by
  obtain ⟨rest, hrest, ha⟩ := mem_run_lit_seq ha
  obtain ⟨e, he, hstarts, hallowed⟩ := hT.mem_run ha
  exact ⟨e.2.1, hallowed, fun ρ hρ => hneeds e he ρ hρ rest hrest hstarts⟩

/-- The topics of `define`, `change` and `remove`. -/
theorem needs_topic {k : String} {T : Table} (hk : k ∈ ["define", "change", "remove"])
    (htopics : ∀ e ∈ T, ∀ ρ, e.2.1 = some ρ →
      e.1 = "user" ∧ ρ = .accessControl ∨ e.1 ∈ configTopics ∧ ρ = .systemConfig) :
    ∀ e ∈ T, ∀ ρ, e.2.1 = some ρ → ∀ rest, skip command = k.toList ++ rest →
      Starts e.1 rest → Needs command ρ := by
  intro e he ρ heρ rest hrest hstarts
  rcases htopics e he ρ heρ with ⟨huser, rfl⟩ | ⟨hconfig, rfl⟩
  · exact .user hk hrest (huser ▸ hstarts)
  · exact .config hk hrest hconfig hstarts

/-- **An action of a command is allowed for the right of its class.** -/
theorem classified_of_mem (ha : a ∈ (commandRule.run command).1) : Classified command a := by
  have hexit : Emits (Allowed none) exitSubRule :=
    .act (.alt (emits_lit _) (.alt (emits_lit _) (emits_lit _))) fun _ => rfl
  rcases mem_run_alt ha with ha | ha
  · rcases mem_run_alt ha with ha | ha
    · have hstarts := saveSubRule_command.led.starts ha
      refine ⟨_, saveSubRule_command.emits.all command a ha, fun ρ hρ => ?_⟩
      cases hρ
      exact .save hstarts
    rcases mem_run_alt ha with ha | ha
    · exact classified_of_none (hexit.all command a ha)
    rcases mem_run_alt ha with ha | ha
    · exact defineTable_sound.classified
        (needs_topic (by decide) (by simp [defineTable, configTopics])) ha
    rcases mem_run_alt ha with ha | ha
    · exact changeTable_sound.classified
        (needs_topic (by decide) (by simp [changeTable, configTopics])) ha
    rcases mem_run_alt ha with ha | ha
    · exact removeTable_sound.classified
        (needs_topic (by decide) (by simp [removeTable, configTopics])) ha
    rcases mem_run_alt ha with ha | ha
    · have hstarts := upServerSubRule_command.led.starts ha
      refine ⟨_, upServerSubRule_command.emits.all command a ha, fun ρ hρ => ?_⟩
      cases hρ
      exact .server (by decide) hstarts
    rcases mem_run_alt ha with ha | ha
    · refine downTable_sound.classified (fun e he ρ hρ rest hrest _ => ?_) ha
      have hserver : ∀ e ∈ downTable, e.2.1 = some .serverAdmin := by simp [downTable]
      cases (hserver e he).symm.trans hρ
      exact .server (k := "down") (by decide) ⟨rest, hrest⟩
    rcases mem_run_alt ha with ha | ha
    · refine listTable_sound.classified (fun e he ρ hρ _ _ _ => ?_) ha
      have hnone : ∀ e ∈ listTable, e.2.1 = none := by simp [listTable]
      cases (hnone e he).symm.trans hρ
    · exact classified_of_none (loginRule_command.emits.all command a ha)
  · obtain ⟨rest, hrest, ha⟩ := mem_run_lit_seq ha
    obtain ⟨e, he, -, hallowed⟩ := helpTable_sound.mem_run ha
    have hnone : ∀ e ∈ helpTable, e.2.1 = none := by simp [helpTable]
    exact classified_of_none (hnone e he ▸ hallowed)

/-- A call that changes something comes from a command of its class. -/
theorem needs_of_call (ha : a ∈ (commandRule.run command).1) (hc : c ∈ a.made m)
    (hρ : c.right = some ρ) : Needs command ρ := by
  obtain ⟨ρ', hallowed, hneeds⟩ := classified_of_mem ha
  exact hneeds ρ ((hallowed.right_of_made hc).symm.trans hρ)

end Class

/-! ## The check -/

/-- Nothing but `save`: the one command the check does not see. -/
def OnlySave (command : Text) : Prop :=
  ∃ rest, skip command = "save".toList ++ rest ∧ skip rest = []

section Check

variable {command : Text} {ρ : AdminRight} {users : List User} {userName password : Text}

theorem not_isInfoCommand {k : String} (hk : k ∈ keywords) (hne : k ≠ "list")
    (h : Starts k command) : isInfoCommand command = false := by
  rw [← Bool.not_eq_true, isInfoCommand_iff]
  exact fun hlist => hne (starts_unique hk (by decide) h hlist)

theorem not_isServerAdminCommand {k : String} (hk : k ∈ keywords) (hne : k ∉ ["up", "down"])
    (h : Starts k command) : isServerAdminCommand command = false := by
  rw [← Bool.not_eq_true, isServerAdminCommand_iff]
  rintro ⟨k', hk', h'⟩
  have hkeyword : ["up", "down"] ⊆ keywords := by decide
  exact hne (starts_unique hk (hkeyword hk') h h' ▸ hk')

theorem not_isUserAdminCommand {k : String} {rest : Text} (hk : k ∈ keywords)
    (hrest : skip command = k.toList ++ rest)
    (h : k ∈ ["define", "change", "remove", "list"] → ¬Starts "user" rest) :
    isUserAdminCommand command = false := by
  rw [← Bool.not_eq_true, isUserAdminCommand_iff]
  rintro ⟨k', hk', rest', hrest', huser⟩
  have hkeyword : ["define", "change", "remove", "list"] ⊆ keywords := by decide
  cases starts_unique hk (hkeyword hk') ⟨rest, hrest⟩ ⟨rest', hrest'⟩
  rw [List.append_cancel_left (hrest'.symm.trans hrest)] at huser
  exact h hk' huser

/-- **The check asks for the right that the command needs**, unless it is just `save`. -/
theorem canRunCommand_of_needs (h : Needs command ρ) (hsave : ¬OnlySave command) :
    canRunCommand users userName password command = ([], hasRight ρ users userName password) := by
  have hchanging : ["define", "change", "remove"] ⊆ keywords := by decide
  rw [canRunCommand]
  cases h with
  | save h =>
    obtain ⟨rest, hrest⟩ := h
    have hconfig : isSystemConfigCommand command = true :=
      isSystemConfigCommand_iff.mpr ⟨"save", by decide, rest, hrest, fun h => hsave ⟨rest, hrest, h⟩⟩
    rw [not_isInfoCommand (k := "save") (by decide) (by decide) ⟨rest, hrest⟩,
      not_isServerAdminCommand (k := "save") (by decide) (by decide) ⟨rest, hrest⟩,
      not_isUserAdminCommand (k := "save") (by decide) hrest fun h => absurd h (by decide), hconfig]
    rfl
  | @user k rest hk hrest h =>
    have hother : ∀ k ∈ ["define", "change", "remove"], k ≠ "list" ∧ k ∉ ["up", "down"] := by decide
    have huser : isUserAdminCommand command = true :=
      isUserAdminCommand_iff.mpr ⟨k, List.mem_append_left ["list"] hk, rest, hrest, h⟩
    rw [not_isInfoCommand (hchanging hk) (hother k hk).1 ⟨rest, hrest⟩,
      not_isServerAdminCommand (hchanging hk) (hother k hk).2 ⟨rest, hrest⟩, huser]
    rfl
  | @config k e rest hk hrest he h =>
    have hother : ∀ k ∈ ["define", "change", "remove"], k ≠ "list" ∧ k ∉ ["up", "down"] := by decide
    have hmore : skip rest ≠ [] := by
      obtain ⟨rest', hrest'⟩ := h
      have hword : ∀ e ∈ configTopics, e.toList ≠ [] := by decide
      rw [hrest']
      exact fun hnil => hword e he (List.append_eq_nil_iff.mp hnil).1
    have hconfig : isSystemConfigCommand command = true :=
      isSystemConfigCommand_iff.mpr ⟨k, List.mem_append_left ["save"] hk, rest, hrest, hmore⟩
    rw [not_isInfoCommand (hchanging hk) (hother k hk).1 ⟨rest, hrest⟩,
      not_isServerAdminCommand (hchanging hk) (hother k hk).2 ⟨rest, hrest⟩,
      not_isUserAdminCommand (hchanging hk) hrest fun _ => not_starts_user he h, hconfig]
    rfl
  | @server k hk h =>
    have hserver : ["up", "down"] ⊆ keywords := by decide
    have hother : ∀ k ∈ ["up", "down"], k ≠ "list" := by decide
    rw [not_isInfoCommand (hserver hk) (hother k hk) h, isServerAdminCommand_iff.mpr ⟨k, hk, h⟩]
    rfl

theorem needs_onlySave (h : Needs command ρ) (hsave : OnlySave command) : ρ = .systemConfig := by
  obtain ⟨rest, hrest, -⟩ := hsave
  have huniq : ∀ {k : String}, k ∈ keywords → Starts k command → k = "save" := fun hk h =>
    starts_unique hk (by decide) h ⟨rest, hrest⟩
  cases h with
  | save => rfl
  | @user k rest' hk hrest' =>
    have hkeyword : ["define", "change", "remove"] ⊆ keywords := by decide
    cases huniq (hkeyword hk) ⟨rest', hrest'⟩
    exact absurd hk (by decide)
  | config => rfl
  | server hk h =>
    have hkeyword : ["up", "down"] ⊆ keywords := by decide
    cases huniq (hkeyword hk) h
    exact absurd hk (by decide)

/-- **`save` alone is taken for a command that anybody may run.** -/
theorem canRunCommand_onlySave (h : OnlySave command) :
    canRunCommand users userName password command = ([], true) := by
  obtain ⟨rest, hrest, hnil⟩ := h
  have hconfig : isSystemConfigCommand command = false := by
    rw [← Bool.not_eq_true, isSystemConfigCommand_iff]
    rintro ⟨k, hk, rest', hrest', hmore⟩
    have hkeyword : ["define", "change", "remove", "save"] ⊆ keywords := by decide
    cases starts_unique (hkeyword hk) (by decide : "save" ∈ keywords) ⟨rest', hrest'⟩ ⟨rest, hrest⟩
    rw [List.append_cancel_left (hrest'.symm.trans hrest)] at hmore
    exact hmore hnil
  have hlogin : isLoginCommand command = false := by
    rw [← Bool.not_eq_true]
    intro h
    have hword : "save" = "login" :=
      starts_unique (by decide) (by decide) ⟨rest, hrest⟩ (starts_login_of_isLoginCommand h)
    exact absurd hword (by decide)
  rw [canRunCommand, not_isInfoCommand (k := "save") (by decide) (by decide) ⟨rest, hrest⟩,
    not_isServerAdminCommand (k := "save") (by decide) (by decide) ⟨rest, hrest⟩,
    not_isUserAdminCommand (k := "save") (by decide) hrest fun h => absurd h (by decide), hconfig, hlogin]
  rfl

/-- The only operation that the check itself starts is `login`. -/
theorem right_of_mem_canRunCommand {c : RasControlCall}
    (hc : c ∈ (canRunCommand users userName password command).1) : c.right = none := by
  have hlogin : (canRunCommand users userName password command).1 = [] ∨
      (canRunCommand users userName password command).1 = [.login] := by
    rw [canRunCommand]
    repeat' split
    all_goals simp
  rcases hlogin with h | h <;> rw [h] at hc
  · exact absurd hc List.not_mem_nil
  · rw [List.mem_singleton.mp hc]
    rfl

end Check

/-! ## Executing commands -/

section Execute

variable {R : Type} (rc : RasControl R) (s : ExecutorState R) (command userName password : Text)

theorem RasControl.run_fst (r : R) (calls : List RasControlCall) :
    (rc.run r calls).1 = calls.foldl (fun r c => rc.perform c r) r := by
  rw [RasControl.run]
  generalize ([] : Text) = answer
  induction calls generalizing r answer with
  | nil => rfl
  | cons c calls ih => exact ih _ _

theorem RasControl.run_readOnly (r : R) {calls : List RasControlCall}
    (h : ∀ c ∈ calls, c.right = none) : (rc.run r calls).1 = r := by
  rw [rc.run_fst]
  induction calls with
  | nil => rfl
  | cons c calls ih =>
    obtain ⟨hc, hcalls⟩ := List.forall_mem_cons.mp h
    rw [List.foldl_cons, rc.readOnly c r hc]
    exact ih hcalls

/-- The state behind `RasControl` changes by the operations that were started. -/
theorem executeCommand_state : (executeCommand rc s command userName password).after.state
    = (rc.run s.state (executeCommand rc s command userName password).calls).1 := by
  rw [executeCommand]
  split
  · simp only [sudoExecuteCommand, rc.run_fst, List.foldl_append]
  · rfl

theorem mem_executeCommand_calls {c : RasControlCall}
    (hc : c ∈ (executeCommand rc s command userName password).calls) :
    c.right = none ∨ (canRunCommand (rc.users s.state) userName password command).2 = true ∧
      c ∈ calls (commandRule.run command).1 s.members := by
  rw [executeCommand] at hc
  split at hc
  · rcases List.mem_append.mp hc with hc | hc
    · exact .inl (right_of_mem_canRunCommand hc)
    · simp only [sudoExecuteCommand, start_trace] at hc
      exact .inr ⟨‹_›, hc⟩
  · exact .inl (right_of_mem_canRunCommand hc)

/-- Who sends just `save` makes it save. -/
theorem save_mem_calls (h : OnlySave command) :
    .save ∈ (executeCommand rc s command userName password).calls := by
  have hcheck : canRunCommand (rc.users s.state) userName password command = ([], true) :=
    canRunCommand_onlySave h
  obtain ⟨rest, hrest, -⟩ := h
  have hsave : saveSubRule.run command = ([.invoke .save], some ((), rest)) := by
    simp only [saveSubRule, perform, RasControlGrammar.act, Parser.act, RasControlGrammar.lit,
      Parser.lit, strip_eq_some.mpr hrest, Option.map_some]
    rfl
  have htrace : (commandRule.run command).1 = [.invoke .save] := by
    simp only [commandRule, actingRules, alt_run, hsave]
  simp only [executeCommand, hcheck, if_true, sudoExecuteCommand, start_trace, htrace]
  exact List.mem_singleton_self _

/-- **Only who holds the right changes something**, exactly when the text is not just `save` or the
user may save.  Then credentials without any right leave the state as it is. -/
theorem executed_calls_authorized :
    ((∀ c ∈ (executeCommand rc s command userName password).calls, ∀ ρ, c.right = some ρ →
        Authorized (rc.users s.state) userName password ρ) ∧
      ((∀ ρ, ¬Authorized (rc.users s.state) userName password ρ) →
        (executeCommand rc s command userName password).after.state = s.state)) ↔
    (OnlySave command → Authorized (rc.users s.state) userName password .systemConfig) := by
  constructor
  · rintro ⟨hcalls, -⟩ hsave
    exact hcalls .save (save_mem_calls rc s command userName password hsave) .systemConfig rfl
  · intro hcond
    have hcalls : ∀ c ∈ (executeCommand rc s command userName password).calls, ∀ ρ,
        c.right = some ρ → Authorized (rc.users s.state) userName password ρ := by
      intro c hc ρ hρ
      rcases mem_executeCommand_calls rc s command userName password hc with hnone | ⟨hcheck, hmem⟩
      · cases hnone.symm.trans hρ
      obtain ⟨a, ha, m, hmade⟩ := mem_calls hmem
      have hneeds := needs_of_call ha hmade hρ
      by_cases hsave : OnlySave command
      · cases needs_onlySave hneeds hsave
        exact hcond hsave
      · rw [canRunCommand_of_needs hneeds hsave] at hcheck
        exact authorized_of_hasRight hcheck
    refine ⟨hcalls, fun hnone => ?_⟩
    rw [executeCommand_state]
    refine rc.run_readOnly _ fun c hc => ?_
    rcases hright : c.right with _ | ρ
    · rfl
    · exact absurd (hcalls c hc ρ hright) (hnone ρ)

end Execute

/-- Nobody needs a right to `save`. -/
theorem save_without_right :
    let e := executeCommand savesCounted ⟨Member.cleared, 0⟩ "save".toList "eve".toList "".toList
    e.calls = [.save] ∧ e.after.state = 1 ∧
      ∀ ρ, ¬Authorized (savesCounted.users 0) "eve".toList "".toList ρ := by
  refine ⟨by decide +kernel, by decide +kernel, ?_⟩
  rintro ρ ⟨u, hu, -⟩
  exact absurd hu List.not_mem_nil

end Rasdaman

/-!
## What a command inherits from earlier ones

Every rule but the one of `change dbh` clears its member before it fills it.  There the fields of
earlier commands stay: the member is only ever overridden, so it holds for each field the last value
that any command gave it.
-/

namespace Rasdaman

open Peg Registers RasControlGrammar

/-! ## The member of `change dbh` -/

/-- The fields of `ChangeDbHost`. -/
inductive DbHostField
  | hostName
  | nName
  | nConnect
  | nUser
  | nPasswd
  deriving DecidableEq

namespace ChangeDbHost

def get (m : ChangeDbHost) : DbHostField → Option Text
  | .hostName => m.hostName
  | .nName => m.nName
  | .nConnect => m.nConnect
  | .nUser => m.nUser
  | .nPasswd => m.nPasswd

theorem ext_get {m m' : ChangeDbHost} (h : ∀ φ, m.get φ = m'.get φ) : m = m' := by
  cases m
  cases m'
  simp only [mk.injEq]
  exact ⟨h .hostName, h .nName, h .nConnect, h .nUser, h .nPasswd⟩

theorem get_overlay (o m : ChangeDbHost) (φ : DbHostField) :
    (o.overlay m).get φ = (o.get φ <|> m.get φ) := by
  cases φ <;> rfl

/-- Overriding is associative and `Clear` gives its unit. -/
instance : Monoid ChangeDbHost where
  mul := overlay
  one := {}
  mul_assoc a b c := by
    refine ext_get fun φ => ?_
    change (overlay (overlay a b) c).get φ = (overlay a (overlay b c)).get φ
    simp only [get_overlay]
    cases a.get φ <;> rfl
  one_mul m := by
    refine ext_get fun φ => ?_
    change (overlay {} m).get φ = m.get φ
    rw [get_overlay]
    cases φ <;> rfl
  mul_one m := by
    refine ext_get fun φ => ?_
    change (overlay m {}).get φ = m.get φ
    rw [get_overlay]
    cases φ <;> cases get m _ <;> rfl

theorem get_mul (o m : ChangeDbHost) (φ : DbHostField) :
    (o * m).get φ = (o.get φ <|> m.get φ) := get_overlay o m φ

theorem get_mul_eq_none {o m : ChangeDbHost} {φ : DbHostField} :
    (o * m).get φ = none ↔ o.get φ = none ∧ m.get φ = none := by
  rw [get_mul]
  cases o.get φ <;> simp

/-- A request stays as it is, when every field that the member has is set anyway. -/
theorem mul_eq_self_iff {o m : ChangeDbHost} :
    o * m = o ↔ ∀ φ, (o.get φ).isSome = true ∨ m.get φ = none := by
  constructor
  · intro h φ
    have hφ := get_mul o m φ
    rw [h] at hφ
    rcases ho : o.get φ with _ | x
    · rw [ho] at hφ
      exact .inr hφ.symm
    · exact .inl rfl
  · intro h
    refine ext_get fun φ => ?_
    rw [get_mul]
    rcases h φ with ho | hm
    · obtain ⟨x, hx⟩ := Option.isSome_iff_exists.mp ho
      rw [hx]
      rfl
    · rw [hm]
      cases o.get φ <;> rfl

end ChangeDbHost

instance : Monoid (Member.Message .changeDbHost) := inferInstanceAs (Monoid ChangeDbHost)

/-! ## Commands on one grammar object -/

/-- The actions that parsing a text runs. -/
def trace (command : Text) : List RasAction := (start.phraseParse command).1

/-- The members after texts parsed by one grammar object. -/
def membersAfter (m : GrammarMembers) (commands : List Text) : GrammarMembers :=
  commands.foldl (fun m c => after (trace c) m) m

/-- The member of `change dbh`. -/
def held (m : GrammarMembers) : ChangeDbHost := m .changeDbHost

/-- The fields of `change dbh` that parsing a text sets. -/
def assigned (command : Text) : ChangeDbHost := held (after (trace command) Member.cleared)

theorem multiplies_of_mem {command : Text} {a : RasAction} (ha : a ∈ trace command) :
    a.Multiplies .changeDbHost := by
  rw [trace, start_trace] at ha
  obtain ⟨ρ, hallowed, -⟩ := classified_of_mem ha
  cases a with
  | edit r f =>
    by_cases hr : r = .changeDbHost
    · subst hr
      obtain ⟨o, ho⟩ := hallowed
      refine ⟨o, fun m => ?_⟩
      rw [Action.apply, Function.update_self]
      exact ho _
    · refine ⟨1, fun m => ?_⟩
      rw [Action.apply, Function.update_of_ne (Ne.symm hr), one_mul]
  | call r f => exact ⟨1, fun m => (one_mul _).symm⟩
  | invoke c => exact ⟨1, fun m => (one_mul _).symm⟩

/-- **A text overrides the fields it sets and keeps the others.** -/
theorem after_changeDbHost (command : Text) (m : GrammarMembers) :
    held (after (trace command) m) = assigned command * held m := by
  have hmul := after_eq_mul (r := Member.changeDbHost) (t := trace command) (u := Member.cleared)
    (fun _ => multiplies_of_mem) rfl m
  exact hmul

theorem get_membersAfter (commands : List Text) (m : GrammarMembers) (φ : DbHostField) :
    (held (membersAfter m commands)).get φ = none ↔
      (∀ c ∈ commands, (assigned c).get φ = none) ∧ (held m).get φ = none := by
  induction commands generalizing m with
  | nil => simp [membersAfter]
  | cons c commands ih =>
    have hstep : membersAfter m (c :: commands) = membersAfter (after (trace c) m) commands := rfl
    rw [hstep, ih, after_changeDbHost, List.forall_mem_cons, ChangeDbHost.get_mul_eq_none,
      and_left_comm, and_assoc]

/-- A complete `change dbh` command calls with what it sets and what the member already has. -/
theorem CallsChangeDbHost.calls_eq {command : Text} (h : CallsChangeDbHost (trace command))
    (m : GrammarMembers) :
    calls (trace command) m = [.changeDbHost (assigned command * held m)] := by
  have hafter := after_changeDbHost command m
  obtain ⟨t₀, hsilent, ht⟩ := h
  have hsame : after (trace command) m = after t₀ m := by
    rw [ht, after_append]
    rfl
  rw [ht, calls_append, hsilent.calls_eq, List.nil_append, ← hafter, hsame]
  rfl

/-- **A text makes the same calls as on a fresh grammar object, exactly when it is no `change dbh`
that leaves out a field which an earlier text has set.** -/
theorem commands_isolated (earlier : List Text) (command : Text) :
    calls (trace command) (membersAfter Member.cleared earlier)
        = calls (trace command) Member.cleared ↔
    (CallsChangeDbHost (trace command) → ∀ φ, (assigned command).get φ = none →
      ∀ c ∈ earlier, (assigned c).get φ = none) := by
  by_cases hcalls : CallsChangeDbHost (trace command)
  · have hnone : ∀ φ, (held (membersAfter Member.cleared earlier)).get φ = none ↔
        ∀ c ∈ earlier, (assigned c).get φ = none := fun φ => by
      rw [get_membersAfter, and_iff_left]
      cases φ <;> rfl
    have hfresh : assigned command * held Member.cleared = assigned command :=
      mul_one (assigned command)
    rw [hcalls.calls_eq, hcalls.calls_eq, hfresh, List.cons.injEq, and_iff_left rfl,
      RasControlCall.changeDbHost.injEq]
    refine ChangeDbHost.mul_eq_self_iff.trans ?_
    refine ⟨fun h _ φ hφ => ?_, fun h φ => ?_⟩
    · have hset := (h φ).resolve_left (by simp [hφ])
      exact (hnone φ).mp hset
    · by_cases hφ : (assigned command).get φ = none
      · exact .inr ((hnone φ).mpr (h hcalls φ hφ))
      · exact .inl (Option.isSome_iff_ne_none.mpr hφ)
  · refine iff_of_true ?_ fun h => absurd h hcalls
    have hcontained := commandRule_contained command
    rw [← start_trace] at hcontained
    exact hcontained.resolve_right hcalls _ _

/-- A later `change dbh` inherits the new name of an earlier one. -/
theorem changeDbh_inherits_name :
    let earlier := ["change dbh a -name b".toList]
    let command := "change dbh c".toList
    calls (trace command) (membersAfter Member.cleared earlier)
        = [.changeDbHost { hostName := some "c".toList, nName := some "b".toList }] ∧
      calls (trace command) Member.cleared = [.changeDbHost { hostName := some "c".toList }] := by
  decide +kernel

end Rasdaman
