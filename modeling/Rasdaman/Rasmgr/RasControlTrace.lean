import Rasdaman.Rasmgr.RasControlGrammar

/-!
# Rasmgr/RasControlTrace — what the rules of the grammar do

Every sub-rule of the grammar is led by a keyword, edits message members, and calls `RasControl` once,
at the very end (`Command`).  All but one reset the member they call with.
-/

namespace Rasdaman

open Peg Registers Parser

/-! ## Rights -/

/-- The administration rights of a user. -/
inductive AdminRight
  | info
  | accessControl
  | serverAdmin
  | systemConfig
  deriving DecidableEq

/-- The right for an operation that changes something. -/
def RasControlCall.right : RasControlCall → Option AdminRight
  | defineServerGroup _ | changeServerGroup _ | removeServerGroup _ | defineDbHost _
  | changeDbHost _ | removeDbHost _ | defineDb _ | changeDb _ | removeDb _ | defineInpeer _
  | removeInpeer _ | defineOutpeer _ | removeOutpeer _ | save => some .systemConfig
  | defineUser _ | removeUser _ | changeUser _ => some .accessControl
  | startServerGroup _ | stopServerGroup _ | stopRasMgr => some .serverAdmin
  | deprecatedCommand | listServerGroup _ | helpServerGroup | listDbHost | helpDbHost | listDb _
  | helpDb | listUser _ | helpUser | listInpeer | helpInpeer | listOutpeer | helpOutpeer
  | listVersion | exit | login => none

/-! ## Kinds of actions -/

/-- The set fields of `o` replace those of `m`. -/
def ChangeDbHost.overlay (o m : ChangeDbHost) : ChangeDbHost where
  hostName := o.hostName <|> m.hostName
  nName := o.nName <|> m.nName
  nConnect := o.nConnect <|> m.nConnect
  nUser := o.nUser <|> m.nUser
  nPasswd := o.nPasswd <|> m.nPasswd

/-- The member of `change dbh` is never cleared, only fields of it are set. -/
def Overriding : (r : Member) → (r.Message → r.Message) → Prop
  | .changeDbHost, f => ∃ o : ChangeDbHost, ∀ m : ChangeDbHost, f m = o.overlay m
  | _, _ => True

theorem overriding_of_ne {r : Member} {f : r.Message → r.Message} (h : r ≠ .changeDbHost) :
    Overriding r f := by
  cases r with
  | changeDbHost => exact absurd rfl h
  | _ => exact trivial

/-- An action that is allowed in a rule whose call needs the right `ρ`. -/
def Allowed (ρ : Option AdminRight) : RasAction → Prop
  | .edit r f => Overriding r f
  | .call _ f => ∀ m, (f m).right = ρ
  | .invoke c => c.right = ρ

/-- An action inside a rule. -/
def Editing (a : RasAction) : Prop := a.isCall = false ∧ ∀ ρ, Allowed ρ a

theorem editing_edit {r : Member} {f : r.Message → r.Message} (h : Overriding r f) :
    Editing (.edit r f) := ⟨rfl, fun _ => h⟩

theorem editing_of_ne {α : Type} {r : Member} {f : α → r.Message → r.Message}
    (h : r ≠ .changeDbHost) : ∀ x, Editing (.edit r (f x)) :=
  fun _ => editing_edit (overriding_of_ne h)

/-- A trace that calls `changeDbHost` with what the member then holds. -/
def CallsChangeDbHost (t : List RasAction) : Prop :=
  ∃ t₀, Silent t₀ ∧ t = t₀ ++ [.call .changeDbHost .changeDbHost]

/-! ## Commands -/

/-- A rule with its keyword and the right for its call. -/
structure Command (s : String) (ρ : Option AdminRight) (p : Rule Unit) : Prop where
  led : Led s p
  emits : Emits (Allowed ρ) p
  decisive : Decisive (fun a => a.isCall = true) p
  traces : ∀ inp, SelfContained (p.run inp).1 ∨ CallsChangeDbHost (p.run inp).1

variable {s : String} {ρ : Option AdminRight} {α : Type}

theorem silent_of_editing {p : Rule α} (h : Emits Editing p) (inp : Text) : Silent (p.run inp).1 :=
  fun a ha => (h.all inp a ha).1

/-- The traces of a rule that ends with a call. -/
theorem run_act (p : Rule α) (f : α → RasAction) (inp : Text) :
    ((act p f).run inp).1 = (p.run inp).1 ∧ (p.run inp).2 = none ∨
      ∃ x rest, (p.run inp).2 = some (x, rest) ∧ ((act p f).run inp).1 = (p.run inp).1 ++ [f x] := by
  rw [act]
  rcases hp : p.run inp with ⟨t, _ | ⟨x, rest⟩⟩
  · exact .inl ⟨by simp only [hp], rfl⟩
  · exact .inr ⟨x, rest, rfl, by simp only [hp]⟩

/-- A rule whose call is the last action. -/
theorem command_act {p : Rule α} {f : α → RasAction} (hled : Led s p) (hp : Emits Editing p)
    (hcall : ∀ x, (f x).isCall = true) (hright : ∀ x, Allowed ρ (f x))
    (htraces : ∀ inp, SelfContained ((act p f).run inp).1 ∨ CallsChangeDbHost ((act p f).run inp).1) :
    Command s ρ (act p f) where
  led := hled.act
  emits := .act (hp.mono fun _ ha => ha.2 ρ) hright
  decisive := decisive_act (hp.mono fun _ ha => by simp [ha.1]) hcall
  traces := htraces

theorem selfContained_invoke {p : Rule α} {c : α → RasControlCall} (hp : Emits Editing p)
    (inp : Text) : SelfContained ((act p fun x => .invoke (c x)).run inp).1 := by
  rcases run_act p (fun x => (.invoke (c x) : RasAction)) inp with ⟨h, -⟩ | ⟨x, rest, -, h⟩ <;> rw [h]
  · exact (silent_of_editing hp inp).selfContained
  · exact (silent_of_editing hp inp).selfContained.append fun _ _ => rfl

/-- A call with arguments from the text. -/
theorem command_invoke {p : Rule α} {c : α → RasControlCall} (hled : Led s p) (hp : Emits Editing p)
    (hright : ∀ x, (c x).right = ρ) : Command s ρ (act p fun x => .invoke (c x)) :=
  command_act hled hp (fun _ => rfl) hright fun inp => .inl (selfContained_invoke hp inp)

/-- Parsers whose first action, if they run any, resets a member. -/
def Resetting (r : Member) (p : Rule α) : Prop :=
  ∀ inp, p.run inp = ([], none) ∨ ∃ (f : r.Message → r.Message) (t : List RasAction),
    (p.run inp).1 = .edit r f :: t ∧ (∀ x y, f x = f y) ∧ Silent t

theorem resetting_act {r : Member} {p : Rule α} {f : α → r.Message → r.Message}
    (hp : ∀ inp, (p.run inp).1 = []) (hf : ∀ a x y, f a x = f a y) :
    Resetting r (act p fun a => .edit r (f a)) := by
  intro inp
  have hp := hp inp
  rw [act]
  rcases hrun : p.run inp with ⟨t, _ | ⟨x, rest⟩⟩ <;> rw [hrun] at hp <;> simp only [hrun] <;> subst hp
  · exact .inl rfl
  · exact .inr ⟨f x, [], rfl, hf x, fun a ha => absurd ha List.not_mem_nil⟩

theorem Resetting.seq {r : Member} {β : Type} {p : Rule α} {q : Rule β} (hp : Resetting r p)
    (hq : Emits Editing q) : Resetting r (p >> q) := by
  intro inp
  rw [seq_run]
  rcases hp inp with h | ⟨f, t, ht, hf, hs⟩
  · exact .inl (by rw [h])
  · rcases hrun : p.run inp with ⟨t', _ | ⟨x, mid⟩⟩ <;> rw [hrun] at ht <;> cases ht
    · exact .inr ⟨f, t, rfl, hf, hs⟩
    · refine .inr ⟨f, t ++ (q.run mid).1, rfl, hf, fun a ha => ?_⟩
      exact (List.mem_append.mp ha).elim (hs a) (silent_of_editing hq mid a)

theorem Resetting.lit_seq {r : Member} {k : String} {q : Rule α} (hq : Resetting r q) :
    Resetting r (RasControlGrammar.lit k >> q) := by
  intro inp
  rw [seq_run]
  rcases hlit : (RasControlGrammar.lit k).run inp with ⟨t, _ | ⟨x, mid⟩⟩ <;>
    cases (show t = [] from (congrArg Prod.fst hlit).symm)
  · exact .inl rfl
  · exact hq mid

/-- **A rule that resets its member first carries nothing over** from earlier commands. -/
theorem command_call {r : Member} {p : Rule α} {c : r.Message → RasControlCall} (hled : Led s p)
    (hp : Emits Editing p) (hreset : Resetting r p) (hright : ∀ m, (c m).right = ρ) :
    Command s ρ (act p fun _ => .call r c) := by
  refine command_act hled hp (fun _ => rfl) (fun _ => hright) fun inp => .inl ?_
  rcases hreset inp with h | ⟨f, t, ht, hf, hs⟩
  · rw [act]
    simp only [h]
    exact fun _ _ => rfl
  · have hreads : ∀ a ∈ t, a.ReadsOnly r := fun a ha => by
      have := hs a ha
      cases a with
      | edit _ _ => exact trivial
      | call _ _ => cases this
      | invoke _ => exact trivial
    rcases run_act p (fun _ => (.call r c : RasAction)) inp with ⟨h, -⟩ | ⟨x, rest, -, h⟩ <;>
      rw [h, ht]
    · exact selfContained_of_reset hf hreads
    · refine selfContained_of_reset hf fun a ha => ?_
      rcases List.mem_append.mp ha with ha | ha
      · exact hreads a ha
      · rw [List.mem_singleton.mp ha]
        exact rfl

/-- The common shape: the keyword clears the member, the rest fills it. -/
theorem command_clear {r : Member} {tail : Rule Unit} {c : r.Message → RasControlCall}
    (hr : r ≠ .changeDbHost) (htail : Emits Editing tail) (hright : ∀ m, (c m).right = ρ) :
    Command s ρ
      (act (act (lit s) (fun _ => RasControlGrammar.clear r) >> tail) fun _ => .call r c) := by
  refine command_call (led_lit s).act.seq ?_
    (.seq (resetting_act (fun _ => rfl) fun _ _ _ => rfl) htail) hright
  exact .seq (.act (emits_lit s) fun _ => editing_edit (overriding_of_ne hr)) htail

/-! ## The parts of the rules -/

namespace RasControlGrammar

section Parts

variable {P : RasAction → Prop} {r : Member} {k : String}

theorem emits_strRule : Emits P strRule := emits_token _ _

theorem emits_hostNameRule : Emits P hostNameRule := emits_token _ _

theorem emits_anyLit : Emits P anyLit := emits_remainder

theorem emits_anyChars : Emits P anyChars := .star (emits_char _)

/-- A part that sets a field from its attribute. -/
theorem emits_set {p : Rule α} {f : α → r.Message → r.Message} (hr : r ≠ .changeDbHost)
    (hp : Emits Editing p) : Emits Editing (act p fun x => .edit r (f x)) :=
  .act hp (editing_of_ne hr)

/-- An option that sets a field. -/
theorem emits_option {p : Rule α} {f : α → r.Message → r.Message} (hr : r ≠ .changeDbHost)
    (hp : Emits Editing p) : Emits Editing (lit k >> act p fun x => .edit r (f x)) :=
  .seq (emits_lit k) (emits_set hr hp)

theorem emits_portList {f : List ℕ → r.Message → r.Message} {g : ℕ → r.Message → r.Message}
    (hr : r ≠ .changeDbHost) :
    Emits Editing (portList (fun x => (processPortRange x.1 x.2).map fun ports => .edit r (f ports))
      fun p => .edit r (g p)) := by
  refine .seq ?hitem (.star (.seq (emits_lit _) ?hitem))
  refine .alt (.actPass (.pair emits_uint (.seq (emits_lit _) emits_uint)) fun x y hy => ?_)
    (emits_set hr emits_uint)
  obtain ⟨ports, -, rfl⟩ := Option.map_eq_some_iff.mp hy
  exact editing_edit (overriding_of_ne hr)

theorem emits_autorestartOption : Emits Editing autorestartOption :=
  .seq (emits_set (by decide) (emits_lit _))
    (.opt (.alt (emits_set (by decide) (emits_lit _)) (emits_set (by decide) (emits_lit _))))

theorem emits_defineServerOptionsSubRule : Emits Editing defineServerOptionsSubRule := by
  have set : ∀ {k : String} {f : ℕ → DefineServerGroup → DefineServerGroup},
      Emits Editing (lit k >> act uint fun n => .edit .defServerGroup (f n)) :=
    emits_option (by decide) emits_uint
  exact .permutation (.cons emits_autorestartOption (.cons set (.cons set (.cons set
    (.cons set (.cons set .nil))))))

theorem emits_defineServerAuxSubRule : Emits Editing defineServerAuxSubRule :=
  .seq (emits_option (by decide) emits_hostNameRule) <|
  .seq (.opt (.seq (emits_lit _) (.alt (emits_char _) (.alt (emits_char _) (emits_char _))))) <|
  .seq (.seq (emits_lit _) (emits_portList (by decide))) <|
  .seq (emits_option (by decide) emits_strRule) <|
  .seq (.opt emits_defineServerOptionsSubRule) <|
  .opt (emits_option (by decide) emits_anyLit)

theorem emits_changeServerOptions : Emits Editing changeServerOptions := by
  have set : ∀ {k : String} {f : ℕ → ChangeServerGroup → ChangeServerGroup},
      Emits Editing (lit k >> act uint fun n => .edit .changeServerGroup (f n)) :=
    emits_option (by decide) emits_uint
  exact .permutation
    (.cons (emits_option (by decide) emits_strRule)
    (.cons (emits_option (by decide) emits_hostNameRule)
    (.cons set (.cons set (.cons set (.cons set
    (.cons (.seq (emits_lit _) (emits_portList (by decide)))
    (.cons (emits_option (by decide) emits_strRule)
    (.cons emits_autorestartOption (.cons set .nil))))))))))

theorem emits_right {c : Char} {f : r.Message → r.Message} (hr : r ≠ .changeDbHost) :
    Emits Editing (right c (.edit r f)) :=
  emits_set hr (emits_rawChar _)

theorem emits_rightsRule {letters : List (Rule Unit)} {dash : Rule Unit}
    (hletters : EmitsAll Editing letters) (hdash : Emits Editing dash) :
    Emits Editing (lit k >> rightsRule letters dash) :=
  .seq (emits_lit k) (.alt (.lexeme (.permutation hletters)) (.lexeme hdash))

end Parts

/-! ## The sub-rules -/

theorem defineHostSubRule_command : Command "host" none defineHostSubRule :=
  command_invoke (led_lit _).seq (.seq (emits_lit _) (.seq emits_strRule (.seq (emits_lit _)
    (.seq emits_strRule (.seq (emits_lit _) emits_int))))) fun _ => rfl

theorem defineServerSubRule_command : Command "srv" (some .systemConfig) defineServerSubRule := by
  rw [defineServerSubRule, andThen_act, andThen_assoc]
  exact command_clear (by decide)
    (.seq (emits_set (by decide) emits_strRule) emits_defineServerAuxSubRule) fun _ => rfl

theorem defineDbhSubRule_command : Command "dbh" (some .systemConfig) defineDbhSubRule := by
  have set : ∀ {f : Text → DefineDbHost → DefineDbHost},
      Emits Editing (act strRule fun x => .edit .defDbHost (f x)) :=
    emits_set (by decide) emits_strRule
  simp only [defineDbhSubRule, andThen_assoc]
  exact command_clear (by decide) (.seq set (.seq (.opt (.seq (emits_lit _) set))
    (.opt (.seq (emits_lit _) (.seq set (.seq (emits_lit _) set)))))) fun _ => rfl

theorem defineDbSubRule_command : Command "db" (some .systemConfig) defineDbSubRule := by
  simp only [defineDbSubRule, andThen_assoc]
  exact command_clear (by decide) (.seq (emits_set (by decide) emits_strRule)
    (emits_option (by decide) emits_strRule)) fun _ => rfl

theorem defineUserSubRule_command : Command "user" (some .accessControl) defineUserSubRule := by
  have letter : ∀ {c : Char} {f : DefineUser → DefineUser},
      Emits Editing (right c (.edit .defUser f)) := emits_right (by decide)
  simp only [defineUserSubRule, andThen_assoc]
  refine command_clear (by decide) (.seq (emits_set (by decide) emits_strRule) ?_) fun _ => rfl
  exact .opt (.permutation (.cons (emits_option (by decide) emits_strRule)
    (.cons (emits_rightsRule (.cons letter (.cons letter (.cons letter (.cons letter (.cons letter
      (.cons letter .nil)))))) letter) .nil)))

theorem defineInpeerSubRule_command : Command "inpeer" (some .systemConfig) defineInpeerSubRule := by
  rw [defineInpeerSubRule, andThen_act]
  exact command_invoke (led_lit _).seq (.seq (emits_lit _) emits_hostNameRule) fun _ => rfl

theorem defineOutpeerSubRule_command :
    Command "outpeer" (some .systemConfig) defineOutpeerSubRule :=
  command_clear (by decide) (.seq (emits_set (by decide) emits_hostNameRule)
    (.opt (emits_option (by decide) emits_int))) fun _ => rfl

theorem changeHostSubRule_command : Command "host" none changeHostSubRule := by
  rw [changeHostSubRule, perform, andThen_act, andThen_assoc]
  exact command_invoke (led_lit _).seq (.seq (emits_lit _) (.seq emits_strRule (.opt (.permutation
    (.cons (.void (.seq (emits_lit _) emits_strRule)) (.cons (.void (.seq (emits_lit _) emits_strRule))
    (.cons (.void (.seq (emits_lit _) emits_int)) (.cons (.seq (emits_lit _)
      (.opt (.alt (emits_lit _) (emits_lit _)))) .nil)))))))) fun _ => rfl

theorem changeServerSubRule_command : Command "srv" (some .systemConfig) changeServerSubRule := by
  simp only [changeServerSubRule, andThen_assoc]
  exact command_clear (by decide) (.seq (emits_set (by decide) emits_strRule)
    (.seq emits_changeServerOptions (.opt (emits_option (by decide) emits_anyLit)))) fun _ => rfl

/-- Setting a field is an override. -/
theorem emits_setDbHost {o : Text → ChangeDbHost} {f : Text → ChangeDbHost → ChangeDbHost}
    (h : ∀ x m, f x m = (o x).overlay m) : Emits Editing (act strRule fun x => .edit .changeDbHost (f x)) :=
  .act emits_strRule fun x => editing_edit ⟨o x, h x⟩

theorem changeDbhSubRule_command : Command "dbh" (some .systemConfig) changeDbhSubRule := by
  have hbody := Emits.seq (Emits.seq (emits_lit (P := Editing) "dbh")
      (emits_setDbHost (o := fun x => { hostName := some x }) fun _ _ => rfl)) <|
    .seq (.opt (.seq (emits_lit "-name")
      (emits_setDbHost (o := fun x => { nName := some x }) fun _ _ => rfl))) <|
    .seq (.opt (.seq (emits_lit "-connect")
      (emits_setDbHost (o := fun x => { nConnect := some x }) fun _ _ => rfl))) <|
    .opt (.seq (.seq (emits_lit "-user")
        (emits_setDbHost (o := fun x => { nUser := some x }) fun _ _ => rfl))
      (.seq (emits_lit "-passwd")
        (emits_setDbHost (o := fun x => { nPasswd := some x }) fun _ _ => rfl)))
  refine command_act (led_lit _).seq.seq hbody (fun _ => rfl) (fun _ _ => rfl) fun inp => ?_
  have hsilent := silent_of_editing hbody inp
  rcases run_act _ _ inp with ⟨h, -⟩ | ⟨x, rest, -, h⟩ <;> rw [h]
  · exact .inl hsilent.selfContained
  · exact .inr ⟨_, hsilent, rfl⟩

theorem changeDbSubRule_command : Command "db" (some .systemConfig) changeDbSubRule := by
  simp only [changeDbSubRule, andThen_assoc]
  exact command_clear (by decide) (.seq (emits_set (by decide) emits_strRule)
    (emits_option (by decide) emits_strRule)) fun _ => rfl

theorem changeUserSubRule_command : Command "user" (some .accessControl) changeUserSubRule := by
  have letter : ∀ {c : Char} {f : ChangeUser → ChangeUser},
      Emits Editing (right c (.edit .changeUser f)) := emits_right (by decide)
  simp only [changeUserSubRule, andThen_assoc]
  refine command_clear (by decide) (.seq (emits_set (by decide) emits_strRule) ?_) fun _ => rfl
  exact .opt (.alt (emits_option (by decide) emits_strRule)
    (.alt (emits_option (by decide) emits_strRule)
      (emits_rightsRule (.cons letter (.cons letter (.cons letter (.cons letter (.cons letter
        (.cons letter .nil)))))) letter)))

theorem removeServerSubRule_command : Command "srv" (some .systemConfig) removeServerSubRule :=
  command_invoke (led_lit _).seq (.seq (emits_lit _) emits_strRule) fun _ => rfl

theorem removeDbhSubRule_command : Command "dbh" (some .systemConfig) removeDbhSubRule := by
  rw [removeDbhSubRule, andThen_act]
  refine command_call (led_lit _).seq.act (emits_set (by decide) (.seq (emits_lit _) emits_strRule))
    (resetting_act (fun inp => ?_) fun _ _ _ => rfl) fun _ => rfl
  exact List.eq_nil_iff_forall_not_mem.mpr fun a ha =>
    (Emits.seq (emits_lit (P := fun _ => False) "dbh") emits_strRule).all inp a ha

theorem removeDbSubRule_command : Command "db" (some .systemConfig) removeDbSubRule := by
  simp only [removeDbSubRule, andThen_assoc]
  exact command_clear (by decide) (.seq (emits_set (by decide) emits_strRule)
    (emits_option (by decide) emits_strRule)) fun _ => rfl

theorem removeUserSubRule_command : Command "user" (some .accessControl) removeUserSubRule :=
  command_clear (by decide) (emits_set (by decide) emits_strRule) fun _ => rfl

theorem removeInpeerSubRule_command : Command "inpeer" (some .systemConfig) removeInpeerSubRule := by
  rw [removeInpeerSubRule, andThen_act]
  exact command_invoke (led_lit _).seq (.seq (emits_lit _) emits_hostNameRule) fun _ => rfl

theorem removeOutpeerSubRule_command :
    Command "outpeer" (some .systemConfig) removeOutpeerSubRule := by
  rw [removeOutpeerSubRule, andThen_act]
  exact command_invoke (led_lit _).seq (.seq (emits_lit _) emits_hostNameRule) fun _ => rfl

theorem listServerSubRule_command : Command "srv" none listServerSubRule :=
  command_clear (by decide) (.seq (.opt (.alt (emits_lit _) (.alt
    (emits_option (by decide) emits_strRule) (emits_set (by decide) emits_strRule))))
    (.opt (emits_set (by decide) (emits_lit _)))) fun _ => rfl

theorem listDbSubRule_command : Command "db" none listDbSubRule :=
  command_clear (by decide) (.alt (emits_lit _) (.alt (emits_option (by decide) emits_strRule)
    (emits_set (by decide) emits_strRule))) fun _ => rfl

theorem listUserSubRule_command : Command "user" none listUserSubRule :=
  command_clear (by decide) (.opt (emits_set (by decide) (emits_lit _))) fun _ => rfl

/-- A keyword that calls at once. -/
theorem perform_lit_command (c : RasControlCall) (hright : c.right = ρ) :
    Command s ρ (perform (lit s) c) :=
  command_invoke (led_lit s) (emits_lit s) fun _ => hright

theorem upServerSubRule_command : Command "up" (some .serverAdmin) upServerSubRule := by
  have htail : Emits Editing
      ((lit "-host" >> act strRule fun x =>
          .edit .upSrv fun m : StartServerGroup => { m with hostName := some x }) <|>
        (act (lit "-all") fun _ =>
          .edit .upSrv fun m : StartServerGroup => { m with all := some true }) <|>
        act strRule fun x =>
          .edit .upSrv fun m : StartServerGroup => { m with groupName := some x }) :=
    .alt (emits_option (by decide) emits_strRule) (.alt (emits_set (by decide) (emits_lit _))
      (emits_set (by decide) emits_strRule))
  refine command_call (led_lit _).seq (.seq (emits_lit _) (.seq (emits_set (by decide) (emits_lit _))
    htail)) (.lit_seq (.seq (resetting_act (fun _ => rfl) fun _ _ _ => rfl) htail)) fun _ => rfl

theorem downServerSubRule_command : Command "srv" (some .serverAdmin) downServerSubRule :=
  command_clear (by decide) (.seq (.alt (emits_option (by decide) emits_strRule)
    (.alt (emits_set (by decide) (emits_lit _)) (emits_set (by decide) emits_strRule)))
    (.opt (.alt (emits_set (by decide) (emits_lit _)) (emits_set (by decide) (emits_lit _)))))
    fun _ => rfl

theorem downHostSubRule_command : Command "host" (some .serverAdmin) downHostSubRule :=
  command_invoke (led_lit _).seq (.seq (emits_lit _) (.alt (emits_lit _) (.void emits_strRule)))
    fun _ => rfl

theorem saveSubRule_command : Command "save" (some .systemConfig) saveSubRule :=
  perform_lit_command .save rfl

theorem loginRule_command : Command "login" none loginRule :=
  command_invoke (led_lit _).seq (.seq (emits_lit _) emits_anyChars) fun _ => rfl

/-! ## The commands by keyword -/

/-- A sub-rule with its keyword and the right for its call. -/
abbrev Table := List (String × Option AdminRight × Rule Unit)

def defineTable : Table :=
  [("host", none, defineHostSubRule), ("srv", some .systemConfig, defineServerSubRule),
    ("dbh", some .systemConfig, defineDbhSubRule), ("db", some .systemConfig, defineDbSubRule),
    ("user", some .accessControl, defineUserSubRule),
    ("inpeer", some .systemConfig, defineInpeerSubRule),
    ("outpeer", some .systemConfig, defineOutpeerSubRule)]

def changeTable : Table :=
  [("host", none, changeHostSubRule), ("srv", some .systemConfig, changeServerSubRule),
    ("dbh", some .systemConfig, changeDbhSubRule), ("db", some .systemConfig, changeDbSubRule),
    ("user", some .accessControl, changeUserSubRule)]

def removeTable : Table :=
  [("host", none, removeHostSubRule), ("srv", some .systemConfig, removeServerSubRule),
    ("dbh", some .systemConfig, removeDbhSubRule), ("db", some .systemConfig, removeDbSubRule),
    ("user", some .accessControl, removeUserSubRule),
    ("inpeer", some .systemConfig, removeInpeerSubRule),
    ("outpeer", some .systemConfig, removeOutpeerSubRule)]

def downTable : Table :=
  [("srv", some .serverAdmin, downServerSubRule), ("host", some .serverAdmin, downHostSubRule)]

def listTable : Table :=
  [("host", none, listHostSubRule), ("srv", none, listServerSubRule), ("dbh", none, listDbhSubRule),
    ("db", none, listDbSubRule), ("user", none, listUserSubRule), ("inpeer", none, listInpeerSubRule),
    ("outpeer", none, listOutpeerSubRule), ("version", none, listVersionSubRule)]

def helpTable : Table :=
  [("host", none, helpHostSubRule), ("srv", none, helpServerSubRule), ("dbh", none, helpDbhSubRule),
    ("db", none, helpDbSubRule), ("user", none, helpUserSubRule), ("inpeer", none, helpInpeerSubRule),
    ("outpeer", none, helpOutpeerSubRule)]

/-- The alternatives of a table. -/
def Table.rule (T : Table) : Rule Unit := choice (T.map (·.2.2))

def Table.Sound (T : Table) : Prop := ∀ e ∈ T, Command e.1 e.2.1 e.2.2

theorem defineTable_sound : defineTable.Sound := by
  simp only [Table.Sound, defineTable, List.forall_mem_cons]
  exact ⟨defineHostSubRule_command, defineServerSubRule_command, defineDbhSubRule_command,
    defineDbSubRule_command, defineUserSubRule_command, defineInpeerSubRule_command,
    defineOutpeerSubRule_command, fun _ h => absurd h List.not_mem_nil⟩

theorem changeTable_sound : changeTable.Sound := by
  simp only [Table.Sound, changeTable, List.forall_mem_cons]
  exact ⟨changeHostSubRule_command, changeServerSubRule_command, changeDbhSubRule_command,
    changeDbSubRule_command, changeUserSubRule_command, fun _ h => absurd h List.not_mem_nil⟩

theorem removeTable_sound : removeTable.Sound := by
  simp only [Table.Sound, removeTable, List.forall_mem_cons]
  exact ⟨command_invoke (led_lit _).seq (.seq (emits_lit _) emits_strRule) fun _ => rfl,
    removeServerSubRule_command, removeDbhSubRule_command, removeDbSubRule_command,
    removeUserSubRule_command, removeInpeerSubRule_command, removeOutpeerSubRule_command,
    fun _ h => absurd h List.not_mem_nil⟩

theorem downTable_sound : downTable.Sound := by
  simp only [Table.Sound, downTable, List.forall_mem_cons]
  exact ⟨downServerSubRule_command, downHostSubRule_command, fun _ h => absurd h List.not_mem_nil⟩

theorem listTable_sound : listTable.Sound := by
  simp only [Table.Sound, listTable, List.forall_mem_cons]
  exact ⟨perform_lit_command _ rfl, listServerSubRule_command, perform_lit_command _ rfl,
    listDbSubRule_command, listUserSubRule_command, perform_lit_command _ rfl,
    perform_lit_command _ rfl, perform_lit_command _ rfl, fun _ h => absurd h List.not_mem_nil⟩

theorem helpTable_sound : helpTable.Sound := by
  simp only [Table.Sound, helpTable, List.forall_mem_cons]
  exact ⟨perform_lit_command _ rfl, perform_lit_command _ rfl, perform_lit_command _ rfl,
    perform_lit_command _ rfl, perform_lit_command _ rfl, perform_lit_command _ rfl,
    perform_lit_command _ rfl, fun _ h => absurd h List.not_mem_nil⟩

/-- What a table emits comes from an entry whose keyword is there. -/
theorem Table.Sound.mem_run {T : Table} (h : T.Sound) {inp : Text} {a : RasAction}
    (ha : a ∈ (T.rule.run inp).1) : ∃ e ∈ T, Starts e.1 inp ∧ Allowed e.2.1 a := by
  obtain ⟨p, hp, ha⟩ := mem_run_choice ha
  obtain ⟨e, he, rfl⟩ := List.mem_map.mp hp
  exact ⟨e, he, (h e he).led.starts ha, (h e he).emits.all inp a ha⟩

theorem Table.Sound.decisive {T : Table} (h : T.Sound) :
    Decisive (fun a => a.isCall = true) T.rule := by
  refine decisive_choice fun p hp => ?_
  obtain ⟨e, he, rfl⟩ := List.mem_map.mp hp
  exact (h e he).decisive

/-! ## Traces of commands -/

/-- The traces of a rule call with what the command itself put into the members, or call
`changeDbHost` at their end. -/
def Contained (p : Rule Unit) : Prop :=
  ∀ inp, SelfContained (p.run inp).1 ∨ CallsChangeDbHost (p.run inp).1

theorem silent_of_decisive {p : Rule Unit} (hp : Decisive (fun a => a.isCall = true) p) {inp : Text}
    (h : (p.run inp).2 = none) : Silent (p.run inp).1 := fun a ha => by
  by_contra hcall
  have := (hp inp).mp ⟨a, ha, Bool.eq_true_of_not_eq_false hcall⟩
  rw [h] at this
  cases this

theorem Contained.alt {p q : Rule Unit} (hp : Contained p)
    (hd : Decisive (fun a => a.isCall = true) p) (hq : Contained q) : Contained (p <|> q) := by
  intro inp
  have hp := hp inp
  rw [alt_run]
  rcases hrun : p.run inp with ⟨t, _ | r⟩ <;> rw [hrun] at hp
  · have hsilent : Silent t := by
      have : Silent (p.run inp).1 := silent_of_decisive hd (by rw [hrun])
      rwa [hrun] at this
    rcases hq inp with h | ⟨t₀, ht₀, h⟩
    · exact .inl (hsilent.selfContained.append h)
    · refine .inr ⟨t ++ t₀, fun a ha => (List.mem_append.mp ha).elim (hsilent a) (ht₀ a), ?_⟩
      simp only [h, List.append_assoc]
  · exact hp

theorem Contained.lit_seq {k : String} {q : Rule Unit} (hq : Contained q) :
    Contained (lit k >> q) := by
  intro inp
  rw [seq_run]
  rcases hlit : (lit k).run inp with ⟨t, _ | ⟨x, mid⟩⟩ <;>
    cases (show t = [] from (congrArg Prod.fst hlit).symm)
  · exact .inl fun _ _ => rfl
  · exact hq mid

theorem Table.Sound.contained : ∀ {T : Table}, T.Sound → Contained T.rule
  | [], _ => fun _ => .inl fun _ _ => rfl
  | [e], h => (h e (List.mem_singleton_self e)).traces
  | e :: e' :: T, h =>
    .alt (h e List.mem_cons_self).traces (h e List.mem_cons_self).decisive
      (contained (T := e' :: T) fun e he => h e (List.mem_cons_of_mem _ he))

/-- What holds of every alternative of `start`. -/
structure Acting (p : Rule Unit) : Prop where
  decisive : Decisive (fun a => a.isCall = true) p
  contained : Contained p

theorem Acting.alt {p q : Rule Unit} (hp : Acting p) (hq : Acting q) : Acting (p <|> q) :=
  ⟨hp.decisive.alt hq.decisive, hp.contained.alt hp.decisive hq.contained⟩

theorem acting_of_command {p : Rule Unit} (h : Command s ρ p) : Acting p := ⟨h.decisive, h.traces⟩

theorem Table.Sound.acting {k : String} {T : Table} (h : T.Sound) : Acting (lit k >> T.rule) :=
  ⟨.seq (emits_lit k) h.decisive, h.contained.lit_seq⟩

theorem exitSubRule_acting : Acting exitSubRule where
  decisive := decisive_act (.alt (emits_lit _) (.alt (emits_lit _) (emits_lit _))) fun _ => rfl
  contained inp := .inl
    (selfContained_invoke (.alt (emits_lit _) (.alt (emits_lit _) (emits_lit _))) inp)

/-- **Exactly when a command other than bare `help` matches, `RasControl` is called.** -/
theorem actingRules_acting : Acting actingRules :=
  .alt (acting_of_command saveSubRule_command) <| .alt exitSubRule_acting <|
  .alt (defineTable_sound.acting (k := "define")) <|
  .alt (changeTable_sound.acting (k := "change")) <|
  .alt (removeTable_sound.acting (k := "remove")) <|
  .alt (acting_of_command upServerSubRule_command) <|
  .alt (downTable_sound.acting (k := "down")) <|
  .alt (listTable_sound.acting (k := "list")) (acting_of_command loginRule_command)

theorem contained_helpSubRule : Contained helpSubRule :=
  .lit_seq (q := opt helpTopics) fun inp => helpTable_sound.contained inp

theorem commandRule_contained : Contained commandRule :=
  .alt actingRules_acting.contained actingRules_acting.decisive contained_helpSubRule

end RasControlGrammar

end Rasdaman
