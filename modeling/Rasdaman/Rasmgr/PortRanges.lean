import Rasdaman.Machinery.Peg
import Rasdaman.Rasmgr.RasControlGrammar

/-!
# Rasmgr/PortRanges — the port ranges a command expands

`processPortRange` is the only loop of the grammar whose length depends on the numbers of a command.
The rules here are those of `RasControlGrammar` with its port ranges as their only actions; they match
what the rules there match (`start_alike`).
-/

namespace Rasdaman

open Peg

/-! ## The loop -/

/-- The loop of `processPortRange` from `i` on, for at most so many rounds: `i` is an `unsigned int`. -/
def portLoop (last : ℕ) : (fuel i : ℕ) → Option (List ℕ)
  | 0, _ => none
  | fuel + 1, i =>
    if i ≤ last then (portLoop last fuel ((i + 1) % 2 ^ 32)).map (i :: ·) else some []

variable {b e fuel i : ℕ}

theorem portLoop_succ {ports : List ℕ} (h : portLoop e fuel i = some ports) :
    portLoop e (fuel + 1) i = some ports := by
  induction fuel generalizing i ports with
  | zero => cases h
  | succ fuel ih =>
    rw [portLoop] at h ⊢
    by_cases hi : i ≤ e
    · rw [if_pos hi, Option.map_eq_some_iff] at h
      obtain ⟨rest, hrest, rfl⟩ := h
      rw [if_pos hi, ih hrest]
      rfl
    · rw [if_neg hi] at h ⊢
      exact h

/-- **A range that ends below the largest `unsigned int` is expanded**, into what `processPortRange`
returns. -/
theorem portLoop_eq (he : e < 2 ^ 32 - 1) (hi : i ≤ e + 1) (hfuel : e + 1 - i < fuel) :
    portLoop e fuel i = some (List.range' i (e + 1 - i)) := by
  induction fuel generalizing i with
  | zero => exact absurd hfuel (Nat.not_lt_zero _)
  | succ fuel ih =>
    rw [portLoop]
    by_cases hle : i ≤ e
    · have hmod : (i + 1) % 2 ^ 32 = i + 1 := Nat.mod_eq_of_lt (by omega)
      have hlen : e + 1 - i = (e + 1 - (i + 1)) + 1 := by omega
      rw [if_pos hle, hmod, ih (by omega) (by omega), hlen, List.range'_succ]
      rfl
    · have hnil : e + 1 - i = 0 := by omega
      rw [if_neg hle, hnil]
      rfl

/-- **A range up to the largest `unsigned int` is never expanded**: the counter is never above its end. -/
theorem portLoop_endless (he : 2 ^ 32 - 1 ≤ e) (hi : i ≤ e) (fuel : ℕ) :
    portLoop e fuel i = none := by
  induction fuel generalizing i with
  | zero => rfl
  | succ fuel ih =>
    have hmod : (i + 1) % 2 ^ 32 < 2 ^ 32 := Nat.mod_lt _ (by decide)
    rw [portLoop, if_pos hi, ih (by omega), Option.map_none]

/-! ## The ranges of a command -/

/-- A port range. -/
abbrev PortRange := ℕ × ℕ

namespace PortRanges

open RasControlGrammar (strRule hostNameRule anyLit commentRule)

abbrev lit (s : String) : Parser PortRange Unit := Parser.lit s

abbrev uint : Parser PortRange ℕ := Parser.uint

/-- A rule of the grammar, without its actions. -/
abbrev rule {α : Type} (p : Rule α) : Parser PortRange α := Parser.silent p

/-- A rule whose attribute an action takes. -/
abbrev taken {α : Type} (p : Rule α) : Parser PortRange Unit := Parser.void (rule p)

/-- A port, or a range that `processPortRange` expands. -/
def item : Parser PortRange Unit :=
  Parser.actPass (Parser.pair uint (lit "-" >> uint)) (fun r => if r.1 > r.2 then none else some r) <|>
    Parser.void uint

def portList : Parser PortRange Unit := item >> Parser.star (lit "," >> item)

def defineServerPorts : Parser PortRange Unit := lit "-port" >> portList

def defineServerAuxSubRule : Parser PortRange Unit :=
  (lit "-host" >> taken hostNameRule) >>
    rule (RasControlGrammar.opt (RasControlGrammar.lit "-type" >>
      (RasControlGrammar.char (· == 'r') <|> RasControlGrammar.char (· == 'h') <|>
        RasControlGrammar.char (· == 'n')))) >>
    defineServerPorts >>
    (lit "-dbh" >> taken strRule) >>
    Parser.opt (rule RasControlGrammar.defineServerOptionsSubRule) >>
    Parser.opt (lit "-xp" >> taken anyLit)

def defineServerSubRule : Parser PortRange Unit :=
  (Parser.void (lit "srv") >> taken strRule) >> Parser.void defineServerAuxSubRule

def changeServerOptions : Parser PortRange Unit :=
  Parser.permutation
    [lit "-name" >> taken strRule,
      lit "-host" >> taken hostNameRule,
      lit "-size" >> Parser.void uint,
      lit "-alive" >> Parser.void uint,
      lit "-available" >> Parser.void uint,
      lit "-idle" >> Parser.void uint,
      lit "-port" >> portList,
      lit "-dbh" >> taken strRule,
      rule RasControlGrammar.autorestartOption,
      lit "-countdown" >> Parser.void uint]

def changeServerSubRule : Parser PortRange Unit :=
  Parser.void ((Parser.void (lit "srv") >> taken strRule) >> changeServerOptions >>
    Parser.opt (lit "-xp" >> taken anyLit))

open RasControlGrammar in
def defineSubRule : Parser PortRange Unit :=
  PortRanges.lit "define" >>
    (rule defineHostSubRule <|> PortRanges.defineServerSubRule <|>
      rule (defineDbhSubRule <|> defineDbSubRule <|> defineUserSubRule <|> defineInpeerSubRule <|>
        defineOutpeerSubRule))

open RasControlGrammar in
def changeSubRule : Parser PortRange Unit :=
  PortRanges.lit "change" >>
    (rule changeHostSubRule <|> PortRanges.changeServerSubRule <|>
      rule (changeDbhSubRule <|> changeDbSubRule <|> changeUserSubRule))

open RasControlGrammar in
def actingRules : Parser PortRange Unit :=
  rule saveSubRule <|> rule exitSubRule <|> PortRanges.defineSubRule <|> PortRanges.changeSubRule <|>
    rule (removeSubRule <|> upServerSubRule <|> downSubRule <|> listSubRule <|> loginRule)

def commandRule : Parser PortRange Unit := actingRules <|> rule RasControlGrammar.helpSubRule

def start : Parser PortRange Unit := Parser.opt commandRule >> rule (Parser.opt commentRule)

/-- The port ranges that the grammar expands while it parses a command, on branches that it gives up
too. -/
def expanded (command : Text) : List PortRange := (start.phraseParse command).1

/-! ## The rules match what those of the grammar do -/

theorem portList_alike {range : ℕ × ℕ → Option RasAction} {single : ℕ → RasAction}
    (hrange : ∀ r, (range r).isSome = !decide (r.1 > r.2)) :
    Alike (RasControlGrammar.portList range single) portList := by
  have hitem : Alike (Parser.actPass (Parser.pair RasControlGrammar.uint
      (RasControlGrammar.lit "-" >> RasControlGrammar.uint)) range <|>
        RasControlGrammar.act RasControlGrammar.uint single) item := by
    refine .alt (.actPass (.pair alike_uint (.seq (alike_lit _) alike_uint)) fun r => ?_)
      (.act alike_uint)
    rw [hrange]
    by_cases hr : r.1 > r.2 <;> simp [hr]
  exact .seq hitem (.star (.seq (alike_lit _) hitem))

theorem isSome_processDefPortRange (r : ℕ × ℕ) :
    (RasControlGrammar.processDefPortRange r).isSome = !decide (r.1 > r.2) := by
  rw [RasControlGrammar.processDefPortRange, RasControlGrammar.processPortRange]
  by_cases hr : r.1 > r.2 <;> simp [hr]

theorem isSome_processChPortRange (r : ℕ × ℕ) :
    (RasControlGrammar.processChPortRange r).isSome = !decide (r.1 > r.2) := by
  rw [RasControlGrammar.processChPortRange, RasControlGrammar.processPortRange]
  by_cases hr : r.1 > r.2 <;> simp [hr]

theorem defineServerAuxSubRule_alike :
    Alike RasControlGrammar.defineServerAuxSubRule defineServerAuxSubRule := by
  refine .seq (.seq (alike_lit _) (.act (alike_silent _))) (.seq (alike_silent _) (.seq ?_
    (.seq (.seq (alike_lit _) (.act (alike_silent _))) (.seq (.opt (alike_silent _))
      (.opt (.seq (alike_lit _) (.act (alike_silent _))))))))
  exact .seq (alike_lit _) (portList_alike isSome_processDefPortRange)

theorem defineServerSubRule_alike : Alike RasControlGrammar.defineServerSubRule defineServerSubRule :=
  .seq (.seq (.act (alike_lit _)) (.act (alike_silent _))) (.act defineServerAuxSubRule_alike)

theorem changeServerOptions_alike :
    Alike RasControlGrammar.changeServerOptions changeServerOptions := by
  have hset : ∀ (s : String) (f : ℕ → RasAction),
      Alike (RasControlGrammar.lit s >> RasControlGrammar.act RasControlGrammar.uint f)
        (lit s >> Parser.void uint) :=
    fun s f => .seq (alike_lit s) (.act alike_uint)
  refine AllAlike.permutation (.cons (.seq (alike_lit _) (.act (alike_silent _)))
    (.cons (.seq (alike_lit _) (.act (alike_silent _))) (.cons (hset _ _) (.cons (hset _ _)
      (.cons (hset _ _) (.cons (hset _ _) (.cons ?_ (.cons (.seq (alike_lit _) (.act (alike_silent _)))
        (.cons (alike_silent _) (.cons (hset _ _) .nil))))))))))
  exact .seq (alike_lit _) (portList_alike isSome_processChPortRange)

theorem changeServerSubRule_alike : Alike RasControlGrammar.changeServerSubRule changeServerSubRule :=
  .act (.seq (.seq (.act (alike_lit _)) (.act (alike_silent _))) (.seq changeServerOptions_alike
    (.opt (.seq (alike_lit _) (.act (alike_silent _))))))

theorem actingRules_alike : Alike RasControlGrammar.actingRules actingRules :=
  .alt (alike_silent _) (.alt (alike_silent _) (.alt
    (.seq (alike_lit _) (.alt (alike_silent _) (.alt defineServerSubRule_alike (alike_silent _))))
    (.alt (.seq (alike_lit _) (.alt (alike_silent _) (.alt changeServerSubRule_alike (alike_silent _))))
      (alike_silent _))))

/-- **The rules match what those of the grammar match.** -/
theorem start_alike : Alike RasControlGrammar.start start :=
  .seq (.opt (.alt actingRules_alike (alike_silent _))) (alike_silent _)

/-! ## What is expanded -/

section

variable {P : PortRange → Prop}

theorem emits_item (hP : ∀ r : PortRange, r.1 ≤ r.2 → P r) : Parser.Emits P item := by
  refine .alt (.actPass (.pair (Parser.emits_uint) (.seq (Parser.emits_lit _) Parser.emits_uint))
    fun r r' hr => ?_) (.void Parser.emits_uint)
  split at hr
  · cases hr
  · next hle =>
    obtain rfl := Option.some.inj hr
    exact hP r (Nat.le_of_not_gt hle)

theorem emits_portList (hP : ∀ r : PortRange, r.1 ≤ r.2 → P r) : Parser.Emits P portList :=
  .seq (emits_item hP) (.star (.seq (Parser.emits_lit _) (emits_item hP)))

theorem emits_rule {α : Type} (p : Rule α) : Parser.Emits P (rule p) :=
  Parser.emits_of_run_fst fun _ => rfl

theorem emits_start (hP : ∀ r : PortRange, r.1 ≤ r.2 → P r) : Parser.Emits P start := by
  have htaken : ∀ {α : Type} (k : String) (p : Rule α), Parser.Emits P (lit k >> taken p) :=
    fun k p => .seq (Parser.emits_lit k) (.void (emits_rule p))
  have hnumber : ∀ k : String, Parser.Emits P (lit k >> Parser.void uint) :=
    fun k => .seq (Parser.emits_lit k) (.void Parser.emits_uint)
  have hports : Parser.Emits P (lit "-port" >> portList) :=
    .seq (Parser.emits_lit _) (emits_portList hP)
  have hname : Parser.Emits P (Parser.void (lit "srv") >> taken strRule) :=
    .seq (.void (Parser.emits_lit _)) (.void (emits_rule _))
  have hdefine : Parser.Emits P defineServerSubRule :=
    .seq hname (.void (.seq (htaken _ _) (.seq (emits_rule _) (.seq hports (.seq (htaken _ _)
      (.seq (.opt (emits_rule _)) (.opt (htaken _ _))))))))
  have hchange : Parser.Emits P changeServerSubRule :=
    .void (.seq hname (.seq (.permutation (.cons (htaken _ _) (.cons (htaken _ _) (.cons (hnumber _)
      (.cons (hnumber _) (.cons (hnumber _) (.cons (hnumber _) (.cons hports (.cons (htaken _ _)
        (.cons (emits_rule _) (.cons (hnumber _) .nil)))))))))))  (.opt (htaken _ _))))
  exact .seq (.opt (.alt (.alt (emits_rule _) (.alt (emits_rule _) (.alt
    (.seq (Parser.emits_lit _) (.alt (emits_rule _) (.alt hdefine (emits_rule _))))
    (.alt (.seq (Parser.emits_lit _) (.alt (emits_rule _) (.alt hchange (emits_rule _))))
      (emits_rule _))))) (emits_rule _))) (emits_rule _)

/-- A range that is expanded does not start above its end. -/
theorem le_of_mem_expanded {command : Text} {r : PortRange} (hr : r ∈ expanded command) :
    r.1 ≤ r.2 :=
  (emits_start fun _ h => h).all command r hr

end

end PortRanges

end Rasdaman
