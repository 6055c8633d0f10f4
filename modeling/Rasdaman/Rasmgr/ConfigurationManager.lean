import Rasdaman.Machinery.IStream
import Rasdaman.Rasmgr.ControlCommandExecutor
import Rasdaman.Rasmgr.PortRanges

/-!
# Rasmgr/ConfigurationManager — loading the configuration of rasmgr

`loadRasMgrConf` reads the configuration file line by line into a buffer of `MAX_CONTROL_COMMAND_LENGTH`
characters and executes each line.

**The file is loaded exactly when its lines fit** (`load_passes_lines_iff`): a line that fills the
buffer makes every later `getline` fail without the end of the file, and a port range up to the largest
`unsigned int` is expanded without an end.
-/

namespace Rasdaman

open IStream PortRanges

variable {R : Type}

/-- `MAX_CONTROL_COMMAND_LENGTH`. -/
def maxControlCommandLength : ℕ := 1024

namespace ConfigurationManager

/-- `sudoExecuteCommand`, where no port range takes more rounds than `fuel`. -/
def execute (rc : RasControl R) (fuel : ℕ) (s : ExecutorState R) (command : Text) :
    Option (ExecutorState R) :=
  if (expanded command).all fun r => (portLoop r.2 fuel r.1).isSome then
    some (sudoExecuteCommand rc s command).after
  else none

/-- The loop of `loadRasMgrConf`, for at most so many rounds: the commands it passes to the executor, and
the state they leave. -/
def loadLoop (rc : RasControl R) : (fuel : ℕ) → IStream → ExecutorState R →
    Option (List Text × ExecutorState R)
  | 0, _, _ => none
  | fuel + 1, ifs, s =>
    if ifs.eofbit then some ([], s)
    else do
      let (inBuffer, ifs) := ifs.getline maxControlCommandLength
      let command := cString inBuffer
      let after ← execute rc fuel s command
      let (commands, final) ← loadLoop rc fuel ifs after
      return (command :: commands, final)

/-- `loadRasMgrConf`, of a file that could be opened. -/
def loadRasMgrConf (rc : RasControl R) (fuel : ℕ) (content : Text) (s : ExecutorState R) :
    Option (List Text × ExecutorState R) :=
  loadLoop rc fuel (ofText content) s

variable {rc : RasControl R} {fuel : ℕ} {ifs : IStream} {s after : ExecutorState R} {command : Text}

/-! ## More rounds -/

theorem execute_succ (h : execute rc fuel s command = some after) :
    execute rc (fuel + 1) s command = some after := by
  rw [execute] at h ⊢
  split at h
  · next hall =>
    rw [if_pos, h]
    rw [List.all_eq_true] at hall ⊢
    intro r hr
    obtain ⟨ports, hports⟩ := Option.isSome_iff_exists.mp (hall r hr)
    exact Option.isSome_iff_exists.mpr ⟨ports, portLoop_succ hports⟩
  · cases h

theorem loadLoop_succ {result : List Text × ExecutorState R} (h : loadLoop rc fuel ifs s = some result) :
    loadLoop rc (fuel + 1) ifs s = some result := by
  induction fuel generalizing ifs s result with
  | zero => cases h
  | succ fuel ih =>
    rw [loadLoop] at h ⊢
    split at h
    · next heof => rw [if_pos heof, h]
    · next heof =>
      rw [if_neg heof]
      simp only [Option.bind_eq_bind, Option.bind_eq_some_iff, Option.pure_def, Prod.exists] at h ⊢
      obtain ⟨after, hafter, commands, final, hrest, hresult⟩ := h
      exact ⟨after, execute_succ hafter, commands, final, ih hrest, hresult⟩

theorem loadLoop_mono {fuel' : ℕ} {result : List Text × ExecutorState R} (hle : fuel ≤ fuel')
    (h : loadLoop rc fuel ifs s = some result) : loadLoop rc fuel' ifs s = some result := by
  induction hle with
  | refl => exact h
  | step _ ih => exact loadLoop_succ ih

theorem execute_mono {fuel' : ℕ} (hle : fuel ≤ fuel') (h : execute rc fuel s command = some after) :
    execute rc fuel' s command = some after := by
  induction hle with
  | refl => exact h
  | step _ ih => exact execute_succ ih

/-! ## One command -/

/-- The ranges that a command expands end below the largest `unsigned int`. -/
def RangesEnd (command : Text) : Prop := ∀ r ∈ expanded command, r.2 < 2 ^ 32 - 1

instance (command : Text) : Decidable (RangesEnd command) :=
  inferInstanceAs (Decidable (∀ r ∈ expanded command, r.2 < 2 ^ 32 - 1))

/-- **A command is executed exactly when the ranges it expands end.** -/
theorem execute_iff (rc : RasControl R) (s : ExecutorState R) (command : Text) :
    (∃ fuel after, execute rc fuel s command = some after) ↔ RangesEnd command := by
  constructor
  · rintro ⟨fuel, after, h⟩ r hr
    by_contra hend
    rw [execute] at h
    split at h
    · next hall =>
      have hsome := List.all_eq_true.mp hall r hr
      rw [portLoop_endless (Nat.le_of_not_lt hend) (le_of_mem_expanded hr)] at hsome
      cases hsome
    · cases h
  · intro hends
    refine ⟨2 ^ 32, (sudoExecuteCommand rc s command).after, ?_⟩
    rw [execute, if_pos]
    rw [List.all_eq_true]
    intro r hr
    have hle := le_of_mem_expanded hr
    have hend := hends r hr
    rw [portLoop_eq hend (Nat.le_succ_of_le hle) (by omega)]
    rfl

/-! ## The file -/

/-- A line that is passed on as it stands, and executed to an end. -/
structure LineFits (line : Text) : Prop where
  short : line.length < maxControlCommandLength
  noNull : Char.ofNat 0 ∉ line
  ends : RangesEnd line

theorem cString_eq_iff {buf : Text} : cString buf = buf ↔ Char.ofNat 0 ∉ buf := by
  rw [cString, List.takeWhile_eq_self_iff]
  simp only [decide_eq_true_eq]
  exact ⟨fun h h0 => h _ h0 rfl, fun h c hc heq => h (heq ▸ hc)⟩

/-- One round of the loop. -/
theorem loadLoop_round {result : List Text × ExecutorState R} (heof : ifs.eofbit = false) :
    loadLoop rc (fuel + 1) ifs s = some result ↔
      ∃ after commands final,
        execute rc fuel s (cString (ifs.getline maxControlCommandLength).1) = some after ∧
        loadLoop rc fuel (ifs.getline maxControlCommandLength).2 after = some (commands, final) ∧
        (cString (ifs.getline maxControlCommandLength).1 :: commands, final) = result := by
  rw [loadLoop, if_neg (by simp [heof])]
  simp only [Option.bind_eq_bind, Option.bind_eq_some_iff, Option.pure_def, Prod.exists,
    Option.some.injEq]
  constructor
  · rintro ⟨after, hafter, commands, final, hrest, hresult⟩
    exact ⟨after, commands, final, hafter, hrest, hresult⟩
  · rintro ⟨after, commands, final, hafter, hrest, hresult⟩
    exact ⟨after, hafter, commands, final, hrest, hresult⟩

/-- **After a line that does not fit, the loop goes on for ever.** -/
theorem loadLoop_failed (hfail : ifs.failbit = true) (heof : ifs.eofbit = false) (fuel : ℕ)
    (s : ExecutorState R) : loadLoop rc fuel ifs s = none := by
  induction fuel generalizing s with
  | zero => rfl
  | succ fuel ih =>
    refine Option.eq_none_iff_forall_ne_some.mpr fun result h => ?_
    obtain ⟨after, commands, final, -, hrest, -⟩ := (loadLoop_round heof).mp h
    rw [getline_failed hfail, ih] at hrest
    cases hrest

/-- The loop at the start of a line that is followed by `tail`, where `next` is the stream behind it. -/
theorem passes_line_iff {content line : Text} {next : IStream} {rest : List Text}
    (hfits : line.length < maxControlCommandLength →
      (ofText content).getline maxControlCommandLength = (line, next))
    (hlong : maxControlCommandLength ≤ line.length →
      ((ofText content).getline maxControlCommandLength).2.failbit = true ∧
        ((ofText content).getline maxControlCommandLength).2.eofbit = false)
    (hnext : ∀ s : ExecutorState R, (∃ fuel final, loadLoop rc fuel next s = some (rest, final)) ↔
      ∀ line ∈ rest, LineFits line) :
    (∃ fuel final, loadLoop rc fuel (ofText content) s = some (line :: rest, final)) ↔
      ∀ l ∈ line :: rest, LineFits l := by
  have heof : (ofText content).eofbit = false := rfl
  rw [List.forall_mem_cons]
  constructor
  · rintro ⟨fuel, final, h⟩
    cases fuel with
    | zero => cases h
    | succ fuel =>
      obtain ⟨after, commands, final', hexec, hrest, heq⟩ := (loadLoop_round heof).mp h
      obtain ⟨hhead, rfl⟩ := List.cons.inj (congrArg Prod.fst heq)
      have hshort : line.length < maxControlCommandLength := by
        by_contra hge
        obtain ⟨hfail, hnoeof⟩ := hlong (Nat.le_of_not_lt hge)
        rw [loadLoop_failed hfail hnoeof] at hrest
        cases hrest
      rw [hfits hshort] at hhead hexec hrest
      have hnull := cString_eq_iff.mp hhead
      rw [hhead] at hexec
      exact ⟨⟨hshort, hnull, (execute_iff rc s line).mp ⟨_, _, hexec⟩⟩,
        (hnext after).mp ⟨_, _, hrest⟩⟩
  · rintro ⟨hline, hrest⟩
    obtain ⟨fuel, after, hexec⟩ := (execute_iff rc s line).mpr hline.ends
    obtain ⟨fuel', final, hloop⟩ := (hnext after).mpr hrest
    refine ⟨max fuel fuel' + 1, final, (loadLoop_round heof).mpr ⟨after, rest, final, ?_⟩⟩
    rw [hfits hline.short, cString_eq_iff.mpr hline.noNull]
    exact ⟨execute_mono (le_max_left ..) hexec, loadLoop_mono (le_max_right ..) hloop, rfl⟩

/-- **Every line of the file is passed to the executor once, in order, and the loop ends**, exactly when
each line is shorter than the buffer, has no null character and expands no port range up to the largest
`unsigned int`. -/
theorem load_passes_lines_iff (rc : RasControl R) (content : Text) (s : ExecutorState R) :
    (∃ fuel final, loadRasMgrConf rc fuel content s = some (lines content, final)) ↔
      ∀ line ∈ lines content, LineFits line := by
  induction hlen : content.length using Nat.strong_induction_on generalizing content s with
  | _ n ih =>
    obtain ⟨hline, hlines⟩ | ⟨line, rest, hline, rfl, hlines⟩ := lines_cases content
    · rw [hlines]
      refine passes_line_iff (getline_last hline) (fun hge => ?_) fun s' => ?_
      · simpa using getline_long hline (by decide) hge []
      · exact iff_of_true ⟨1, s', rfl⟩ (by simp)
    · rw [hlines]
      refine passes_line_iff (fun hshort => getline_line hline hshort rest)
        (fun hge => getline_long hline (by decide) hge _) fun s' => ?_
      refine ih rest.length ?_ rest s' rfl
      rw [← hlen, List.length_append, List.length_cons]
      omega

/-- A file of one line of 1024 characters. -/
def longLine : Text := List.replicate 1024 'x'

/-- A file of one line with a range of all the ports there could be. -/
def allPorts : Text := "define srv s -host h -port 1-4294967295 -dbh d".toList

/-- **Neither file is ever loaded.** -/
theorem load_endless :
    (¬ ∃ fuel result, loadRasMgrConf savesCounted fuel longLine ⟨Member.cleared, 0⟩ = some result) ∧
      ¬ ∃ fuel result, loadRasMgrConf savesCounted fuel allPorts ⟨Member.cleared, 0⟩ = some result := by
  refine ⟨?_, ?_⟩
  · rintro ⟨_ | fuel, result, h⟩
    · cases h
    · obtain ⟨after, commands, final, -, hrest, -⟩ := (loadLoop_round rfl).mp h
      have hone : '\n' ∉ longLine := by decide +kernel
      have hlen : maxControlCommandLength ≤ longLine.length := by decide +kernel
      obtain ⟨hfail, heof⟩ := getline_long hone (by decide) hlen []
      rw [List.append_nil] at hfail heof
      rw [loadLoop_failed hfail heof] at hrest
      cases hrest
  · rintro ⟨_ | fuel, result, h⟩
    · cases h
    · obtain ⟨after, commands, final, hexec, -, -⟩ := (loadLoop_round rfl).mp h
      have hline : cString ((ofText allPorts).getline maxControlCommandLength).1 = allPorts := by
        decide +kernel
      rw [hline] at hexec
      exact absurd ((execute_iff _ _ _).mp ⟨_, _, hexec⟩) (by decide +kernel)

end ConfigurationManager

end Rasdaman
